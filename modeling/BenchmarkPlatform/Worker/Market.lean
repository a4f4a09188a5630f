import BenchmarkPlatform.Worker.Bot

/-!
# A faultless exchange

Any number of bots trade on one template exchange that serves each request in one step and loses
none. The events they produce are the only thing the correctness of a contestant is computed from.

An order is always accepted, so its event is a success. A cancel succeeds if its order rests when
the exchange serves it; but a bot only knows that the order rested when it was acknowledged, and
keeps a partly filled market order as live that never rested.
-/

namespace BenchmarkPlatform.Worker

open Lib

variable {τ : Type} [AddGroupWithOne τ]

/-! ## The system -/

structure Market (τ : Type) where
  exchange : Exchange τ
  bots : List Bot
  /-- The events recorded, in order. -/
  events : List TelemetryEvent

structure MarketEnv where
  call : CallEnv
  reply : TimePoint
  sentAt : ℤ
  ackedAt : ℤ

structure SendOrder where
  bot : ℕ
  draws : Draws

def SendOrder.entry (call : SendOrder) : BotPc := .choose call.bot call.draws

/-- The answer to a DELETE for an order id. -/
def Net.delete (net : Net) (x : Exchange τ) (env : MarketEnv) (orderId : String) :
    Exchange τ × Response :=
  match net.route orderId with
  | none => (x, ⟨404, .error ""⟩)
  | some id => x.serve env.call env.reply (.delete id)

/-- The next step of a bot or of one of its threads. -/
def Market.advance (net : Net) (m : Market τ) (env : MarketEnv) :
    BotPc → Option (Market τ × BotPc)
  | .choose i d => m.bots[i]?.map fun b ↦
    ({ m with bots := m.bots.set i (b.sendOrder i d).1 }, (b.sendOrder i d).2)
  | .cancel cfg orderId symbol =>
    let r := net.delete m.exchange env orderId
    some ({ m with exchange := r.1 },
      .record (cancelEvent cfg orderId symbol (net.cancelOrder r.2) env.sentAt env.ackedAt))
  | .send i cfg order =>
    let r := m.exchange.serve env.call env.reply (.post (.ok order.body))
    some ({ m with exchange := r.1 },
      .sent i cfg order (net.sendOrder r.2) env.sentAt env.ackedAt)
  | .sent i cfg order reply sentAt ackedAt => m.bots[i]?.map fun b ↦
    ({ m with bots := m.bots.set i (b.keepLive reply.1) },
      .record (orderEvent cfg order reply sentAt ackedAt))
  | .record event => some ({ m with events := m.events ++ [event] }, .done)
  | .done => none

abbrev MarketState (τ : Type) := Pool (Market τ) BotPc

def MarketState.step (net : Net) : MarketState τ → PoolEvent SendOrder MarketEnv →
    Option (MarketState τ) :=
  Pool.next SendOrder.entry (Market.advance net)

/-- Before the first order. -/
def MarketState.initial (hash : String → ℕ) (cfgs : List BotConfig) : MarketState τ :=
  ⟨⟨Exchange.initial, cfgs.map (Bot.new hash), []⟩, []⟩

/-! ## What is produced -/

/-- The event a thread has made and is about to record. -/
def BotPc.produced : BotPc → Option TelemetryEvent
  | .record event => some event
  | _ => none

/-- The events produced so far, recorded or not. -/
def MarketState.produced (s : MarketState τ) : List TelemetryEvent :=
  s.shared.events ++ s.threads.filterMap BotPc.produced

/-- The cancel of an order is served while the order rests. -/
def CancelRests (net : Net) (s : MarketState τ) : PoolEvent SendOrder MarketEnv → Prop
  | .start _ => True
  | .run i _ =>
    match s.threads[i]? with
    | some (.cancel _ orderId _) =>
      ∃ id symbol, net.route orderId = some id ∧ s.shared.exchange.resting symbol id ≠ 0
    | _ => True

/-- What a thread holds is fit to succeed. -/
def BotPc.Sound : BotPc → Prop
  | .send _ _ order => order.body.parse.check = .ok ()
  | .sent _ _ _ reply _ _ => reply.1.isSome = true
  | _ => True

structure MarketState.Inv (s : MarketState τ) : Prop where
  account : ∃ added, Consistent added s.shared.exchange 0
  sound : ∀ pc ∈ s.threads, pc.Sound

/-- The handler of the exchange finds nothing wrong with an order of a bot. -/
theorem Bot.order_sound (b : Bot) (i : ℕ) (d : Draws) : (b.order i d).2.Sound := by
  have hquantity := d.quantity_mem
  have hspread := d.spread_mem
  have hprice : ¬(if min 2000000 (max 1000000 (b.basePrice + d.drift.tdiv 100)) + d.spread ≤ 0
      then 10000
      else min 2000000 (max 1000000 (b.basePrice + d.drift.tdiv 100)) + d.spread) ≤ 0 := by
    split_ifs <;> omega
  by_cases hmarket : d.ratio < b.cfg.cancelRatio + b.cfg.marketRatio <;>
    simp [Bot.order, BotPc.Sound, OrderRequest.body, OrderBody.parse, NewOrder.check, hmarket,
      not_le.mpr (Int.lt_of_lt_of_le Int.zero_lt_one hquantity.1), hprice]

theorem Bot.sendOrder_sound (b : Bot) (i : ℕ) (d : Draws) : (b.sendOrder i d).2.Sound := by
  rw [Bot.sendOrder]
  split_ifs
  · split
    · exact b.order_sound i d
    · dsimp only
      split_ifs
      · exact Bot.order_sound _ i d
      · trivial
  · exact b.order_sound i d

/-- What the exchange makes of a cancel. -/
theorem delete_cases (net : Net) {x : Exchange τ} {added : Finset String}
    (h : Consistent added x 0) (env : MarketEnv) (orderId : String) :
    (∃ added', Consistent added' (net.delete x env orderId).1 0) ∧
      ((net.cancelOrder (net.delete x env orderId).2).1.isSome = true ↔
        ∃ id symbol, net.route orderId = some id ∧ x.resting symbol id ≠ 0) := by
  rw [Net.delete]
  cases hroute : net.route orderId with
  | none => exact ⟨⟨added, h⟩, by simp [Net.cancelOrder]⟩
  | some id =>
    obtain ⟨haccount, hcases⟩ := h.serveDelete env.reply id
    refine ⟨⟨added, haccount⟩, ?_⟩
    rcases hcases with ⟨⟨symbol, hr⟩, t, hreply⟩ | ⟨hnone, message, hreply⟩
    · refine iff_of_true ?_ ⟨id, symbol, rfl, hr⟩
      simp [Exchange.serve, hreply, Net.cancelOrder]
    · refine iff_of_false ?_ ?_
      · simp [Exchange.serve, hreply, Net.cancelOrder]
      · rintro ⟨id', symbol, heq, hr⟩
        obtain rfl := Option.some_inj.mp heq
        exact hr (hnone symbol)

/-- An order is always accepted. -/
theorem sendOrder_isSome (net : Net) {x : Exchange τ} {added : Finset String}
    (h : Consistent added x 0) (env : CallEnv) (reply : TimePoint) {order : OrderRequest}
    (hcheck : order.body.parse.check = .ok ()) :
    (net.sendOrder (x.serve env reply (.post (.ok order.body))).2).1.isSome = true := by
  obtain ⟨orderId, fills, hreply⟩ := h.servePost_status env reply hcheck
  simp [Exchange.serve, hcheck, hreply, Net.sendOrder]

/-- The cancel that a thread is about to make finds its order. -/
def Finds (net : Net) (x : Exchange τ) (pc : BotPc) : Prop :=
  ∀ cfg orderId symbol, pc = .cancel cfg orderId symbol →
    ∃ id symbol, net.route orderId = some id ∧ x.resting symbol id ≠ 0

theorem append_produced_record (events : List TelemetryEvent) (event : TelemetryEvent) :
    events ++ (BotPc.record event).produced.toList = events ++ [] ++ [event] := by
  rw [List.append_nil]
  rfl

/-- **The step lemma.** A thread keeps the account of the exchange, and the event it makes, if it
makes one, is a failure only if it is that of a cancel which does not find its order. -/
theorem advance_inv {net : Net} {m m' : Market τ} {env : MarketEnv} {pc pc' : BotPc}
    (haccount : ∃ added, Consistent added m.exchange 0) (hsound : pc.Sound)
    (h : m.advance net env pc = some (m', pc')) :
    (∃ added, Consistent added m'.exchange 0) ∧ pc'.Sound ∧
      ∃ new, m'.events ++ pc'.produced.toList = m.events ++ pc.produced.toList ++ new ∧
        ((∀ e ∈ new, e.success = true) ↔ Finds net m.exchange pc) := by
  obtain ⟨added, hadded⟩ := haccount
  cases pc with
  -- only the end of `send_order` makes an event
  | choose i d =>
    obtain ⟨b, -, heq⟩ := Option.map_eq_some_iff.mp h
    obtain ⟨rfl, rfl⟩ := heq
    refine ⟨⟨added, hadded⟩, b.sendOrder_sound i d, [], ?_, iff_of_true (by simp) (by simp [Finds])⟩
    have hnone : (b.sendOrder i d).2.produced = none := by
      rw [Bot.sendOrder]
      split_ifs
      · split
        · rfl
        · dsimp only
          split_ifs <;> rfl
      · rfl
    rw [hnone, List.append_nil]
    rfl
  | cancel cfg orderId symbol =>
    obtain ⟨rfl, rfl⟩ := Option.some_inj.mp h
    obtain ⟨haccount, hreply⟩ := delete_cases net hadded env orderId
    refine ⟨haccount, trivial, [_], append_produced_record _ _, ?_⟩
    simpa [Finds, cancelEvent] using hreply
  | send i cfg order =>
    obtain ⟨rfl, rfl⟩ := Option.some_inj.mp h
    exact ⟨hadded.serve env.call env.reply _, sendOrder_isSome net hadded env.call env.reply hsound,
      [], by simp [BotPc.produced], iff_of_true (by simp) (by simp [Finds])⟩
  | sent i cfg order reply sentAt ackedAt =>
    obtain ⟨b, -, heq⟩ := Option.map_eq_some_iff.mp h
    obtain ⟨rfl, rfl⟩ := heq
    refine ⟨⟨added, hadded⟩, trivial, [_], append_produced_record _ _,
      iff_of_true ?_ (by simp [Finds])⟩
    -- the exchange answered the order, whatever became of it
    have hsome : reply.1.isSome = true := hsound
    simpa [orderEvent] using hsome
  | record event =>
    obtain ⟨rfl, rfl⟩ := Option.some_inj.mp h
    exact ⟨⟨added, hadded⟩, trivial, [], by simp [BotPc.produced],
      iff_of_true (by simp) (by simp [Finds])⟩
  | done => simp [Market.advance] at h

/-- No failure has been produced. -/
def MarketState.Faultless (s : MarketState τ) : Prop := ∀ e ∈ s.produced, e.success = true

omit [AddGroupWithOne τ] in
theorem faultless_split (m : Market τ) (l r : List BotPc) (pc : BotPc) :
    MarketState.Faultless ⟨m, l ++ pc :: r⟩ ↔
      (∀ e ∈ m.events ++ pc.produced.toList, e.success = true) ∧
        ∀ q ∈ l ++ r, ∀ e, q.produced = some e → e.success = true := by
  simp only [MarketState.Faultless, MarketState.produced, List.filterMap_append,
    List.filterMap_cons, List.mem_append, List.mem_filterMap, Option.mem_toList]
  cases pc.produced with
  | none => grind
  | some event => grind

/-- **The step lemma of the system.** -/
theorem MarketState.Inv.step {net : Net} {s s' : MarketState τ} {e : PoolEvent SendOrder MarketEnv}
    (h : s.Inv) (hstep : s.step net e = some s') :
    s'.Inv ∧ (s'.Faultless ↔ s.Faultless ∧ CancelRests net s e) := by
  cases e with
  | start call =>
    obtain rfl := Option.some_inj.mp hstep
    refine ⟨⟨h.account, Pool.forall_start h.sound trivial⟩, ?_⟩
    simp [MarketState.Faultless, MarketState.produced, SendOrder.entry, BotPc.produced, CancelRests]
  | run i env =>
    obtain ⟨l, pc, r, m, pc', hthreads, hi, hadvance, rfl⟩ := Pool.next_run hstep
    have hpc : s.threads[i]? = some pc := by
      rw [hthreads, ← hi]
      simp
    obtain ⟨haccount, hsound, new, hnew, hfinds⟩ :=
      advance_inv h.account (h.sound pc (List.mem_of_getElem? hpc)) hadvance
    -- the condition on the step is the one on the state of its thread
    have hguard : CancelRests net s (.run i env) ↔ Finds net s.shared.exchange pc := by
      rw [CancelRests, hpc]
      cases pc <;> simp [Finds]
    have hs : s = ⟨s.shared, l ++ pc :: r⟩ := by rw [← hthreads]
    have hall := h.sound
    rw [hthreads] at hall
    refine ⟨⟨haccount, Pool.forall_run hall (fun _ hq ↦ hq) hsound⟩, ?_⟩
    · rw [hguard, ← hfinds, hs, faultless_split, faultless_split, hnew]
      simp only [List.mem_append, or_imp, forall_and]
      tauto

theorem MarketState.inv_initial (hash : String → ℕ) (cfgs : List BotConfig) :
    (MarketState.initial hash cfgs : MarketState τ).Inv :=
  ⟨⟨∅, consistent_initial⟩, by simp [MarketState.initial]⟩

/-! ## Correctness -/

/-- **When an exchange without faults scores as one.** Every event the bots produce is a success if
and only if every cancel is served while its order rests; and then the correctness of every run the
scoring engine can make of the events is 1. -/
theorem faultless_iff {net : Net} {hash : String → ℕ} {cfgs : List BotConfig}
    {es : List (PoolEvent SendOrder MarketEnv)} {s : MarketState τ}
    (h : exec (MarketState.step net) (.initial hash cfgs) es = some s) :
    ((∀ e ∈ s.produced, e.success = true) ↔
        Guarded (MarketState.step net) (CancelRests net)
          (MarketState.initial hash cfgs : MarketState τ) es) ∧
      ((∀ e ∈ s.produced, e.success = true) →
        ∀ (calls : List Scoring.ScorerCall) (runId teamId : String) (score : Scoring.FinalScore),
          (∀ event, .ingest event ∈ calls → ∃ e ∈ s.produced, event = e.decode) →
          (Scoring.Runs.replay calls).finalizeRun runId teamId = some score →
          score.correctness = 1) := by
  constructor
  · have hgood : (MarketState.initial hash cfgs : MarketState τ).Faultless := by
      simp [MarketState.Faultless, MarketState.produced, MarketState.initial]
    have hinv : ∀ (s : MarketState τ) e s', s.Inv → s.step net e = some s' → s'.Inv :=
      fun _ _ _ hs hstep ↦ (hs.step hstep).1
    have hmono : ∀ (s : MarketState τ) e s', s.Inv → ¬s.Faultless → s.step net e = some s' →
        ¬s'.Faultless := fun _ _ _ hs hfault hstep hs' ↦ hfault ((hs.step hstep).2.mp hs').1
    have hguard : ∀ (s : MarketState τ) e s', s.Inv → ¬¬s.Faultless → s.step net e = some s' →
        (CancelRests net s e ↔ ¬¬s'.Faultless) := by
      intro s e s' hs hfaultless hstep
      rw [not_not] at hfaultless ⊢
      rw [(hs.step hstep).2, and_iff_right hfaultless]
    rw [guarded_iff_not hinv hmono hguard (MarketState.inv_initial hash cfgs) (not_not.mpr hgood) h,
      not_not]
    rfl
  · intro hall calls runId teamId score hcalls hscore
    rw [Scoring.Runs.correctness_eq_one_iff hscore]
    intro event hevent _
    obtain ⟨e, he, rfl⟩ := hcalls event hevent
    exact hall e he

/-! ## Three orders -/

def sampleNet : Net := ⟨some, fun _ ↦ ""⟩

def sampleConfig (botId : String) : BotConfig :=
  ⟨botId, "run", "http://contestant:8080", 10, 0, 0, 0, ["BTC-USD"], 60000⟩

def sampleDraws (ratio : ℚ) (buy : Bool) : Draws :=
  ⟨ratio, 0, 0, buy, 0, by decide, 0, by decide, 10, by decide, "c", 0⟩

/-- A thread is started and takes its steps. -/
def callSendOrder (thread bot : ℕ) (ratio : ℚ) (buy : Bool) (steps : ℕ) :
    List (PoolEvent SendOrder MarketEnv) :=
  .start ⟨bot, sampleDraws ratio buy⟩ :: List.replicate steps (.run thread ⟨default, 0, 0, 0⟩)

/-- An order of the first bot is filled by one of the second. -/
def tradedOrders : List (PoolEvent SendOrder MarketEnv) :=
  callSendOrder 0 0 (7 / 10) false 4 ++ callSendOrder 1 1 (7 / 10) true 4

/-- The first bot still takes its order for live, and cancels it. -/
def cancelledOrder : List (PoolEvent SendOrder MarketEnv) :=
  callSendOrder 2 0 0 false 3

/-- Bots whose hash makes them cancel six times in ten. -/
def sampleMarket : MarketState ℤ :=
  .initial (fun _ ↦ 2) [sampleConfig "maker", sampleConfig "taker"]

theorem faultless_tradedOrders : ∃ s : MarketState ℤ,
    exec (MarketState.step sampleNet) sampleMarket tradedOrders = some s ∧
      s.produced.length = 2 ∧
      Guarded (MarketState.step sampleNet) (CancelRests sampleNet) sampleMarket tradedOrders := by
  have hrun : ((exec (MarketState.step sampleNet) sampleMarket tradedOrders).any fun s ↦
      decide (s.produced.length = 2 ∧ ∀ e ∈ s.produced, e.success = true)) = true := by
    decide +kernel
  obtain ⟨s, hs, h⟩ := (Option.any_eq_true _ _).mp hrun
  obtain ⟨hlength, hsuccess⟩ := of_decide_eq_true h
  exact ⟨s, hs, hlength, (faultless_iff hs).1.mp hsuccess⟩

theorem filled_order_cancelled : ∃ (s : MarketState ℤ) (score : Scoring.FinalScore),
    exec (MarketState.step sampleNet) sampleMarket (tradedOrders ++ cancelledOrder) = some s ∧
      (∃ e ∈ s.produced, e.orderType = "cancel" ∧ e.success = false ∧ e.errorCode = "") ∧
      (Scoring.Runs.replay (s.shared.events.map fun e ↦ .ingest e.decode)).finalizeRun
        "run" "team" = some score ∧ score.correctness = 2 / 3 := by
  have hrun : ((exec (MarketState.step sampleNet) sampleMarket
      (tradedOrders ++ cancelledOrder)).any fun s ↦
        decide (∃ e ∈ s.produced, e.orderType = "cancel" ∧ e.success = false ∧ e.errorCode = "") &&
        ((Scoring.Runs.replay (s.shared.events.map fun e ↦ .ingest e.decode)).finalizeRun
          "run" "team").any fun score ↦ decide (score.correctness = 2 / 3)) = true := by
    decide +kernel
  obtain ⟨s, hs, h⟩ := (Option.any_eq_true _ _).mp hrun
  obtain ⟨hevent, hscore⟩ := Bool.and_eq_true_iff.mp h
  obtain ⟨score, hsome, heq⟩ := (Option.any_eq_true _ _).mp hscore
  exact ⟨s, score, hs, of_decide_eq_true hevent, hsome, of_decide_eq_true heq⟩

end BenchmarkPlatform.Worker
