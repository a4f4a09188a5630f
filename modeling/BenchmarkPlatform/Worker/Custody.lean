import Mathlib.Data.Multiset.UnionInter
import BenchmarkPlatform.Exchange.Report
import BenchmarkPlatform.Worker.Market

/-!
# Who may cancel an order

The exchange answers an order with an id. If the answer says that the order may rest, the bot that
sent it keeps the id among its live orders, and later perhaps takes it out again to cancel it. All
of this happens in detached threads, so the id travels: from the request that drew it to the answer
in a thread, to the bot's list, to another thread. In `Trading` the exchange serves the requests of
these threads one critical section at a time, in any order.

The id is never copied. At any moment the ids in the bots' lists, those in the hands of a thread or
of its request and those whose cancel has been sent are all different (`Trading.custody`), since
the exchange draws a new id for every order. So no order is cancelled twice, by one bot or by two,
and a bot cancels only what the exchange acknowledged to it before.
-/

namespace BenchmarkPlatform.Worker

open Lib

variable {τ : Type} [AddGroupWithOne τ]

/-! ## Bots whose requests interleave -/

/-- Where a thread of a bot is. -/
inductive TradePc where
  /-- None of its requests is being served. -/
  | bot (pc : BotPc)
  /-- Its DELETE is being served. -/
  | cancelling (cfg : BotConfig) (orderId symbol : String) (request : RequestPc)
  /-- Its POST is being served. -/
  | sending (bot : ℕ) (cfg : BotConfig) (order : OrderRequest) (request : RequestPc)

/-- The DELETE for an order id as it reaches the exchange. -/
def Net.entry (net : Net) (orderId : String) : RequestPc :=
  match net.route orderId with
  | none => .done ⟨404, .error ""⟩
  | some id => (Request.delete id).entry

/-- The next critical section of a request. -/
def Market.serve (m : Market τ) (env : MarketEnv) (request : RequestPc) :
    Option (Market τ × RequestPc) :=
  (m.exchange.advance env.call request).map fun r ↦ ({ m with exchange := r.1 }, r.2)

/-- The next step of a bot, of one of its threads, or of the request that the thread waits for. -/
def Market.trade (net : Net) (m : Market τ) (env : MarketEnv) :
    TradePc → Option (Market τ × TradePc)
  | .bot pc =>
    match pc with
    | .cancel cfg orderId symbol => some (m, .cancelling cfg orderId symbol (net.entry orderId))
    | .send i cfg order => some (m, .sending i cfg order (Request.post (.ok order.body)).entry)
    | pc => (m.advance net env pc).map fun r ↦ (r.1, .bot r.2)
  | .cancelling cfg orderId symbol request =>
    match request.response with
    | none => (m.serve env request).map fun r ↦ (r.1, .cancelling cfg orderId symbol r.2)
    | some response => some (m, .bot (.record
        (cancelEvent cfg orderId symbol (net.cancelOrder response) env.sentAt env.ackedAt)))
  | .sending i cfg order request =>
    match request.response with
    | none => (m.serve env request).map fun r ↦ (r.1, .sending i cfg order r.2)
    | some response =>
      some (m, .bot (.sent i cfg order (net.sendOrder response) env.sentAt env.ackedAt))

/-- The steps that `trade` takes. -/
inductive Trades (net : Net) (m : Market τ) (env : MarketEnv) : TradePc → Market τ → TradePc → Prop
  | cancel (cfg : BotConfig) (orderId symbol : String) :
    Trades net m env (.bot (.cancel cfg orderId symbol)) m
      (.cancelling cfg orderId symbol (net.entry orderId))
  | send (i : ℕ) (cfg : BotConfig) (order : OrderRequest) :
    Trades net m env (.bot (.send i cfg order)) m
      (.sending i cfg order (Request.post (.ok order.body)).entry)
  | bot {pc pc' : BotPc} {m' : Market τ}
    (hcancel : ∀ cfg orderId symbol, pc ≠ .cancel cfg orderId symbol)
    (hsend : ∀ i cfg order, pc ≠ .send i cfg order) (h : m.advance net env pc = some (m', pc')) :
    Trades net m env (.bot pc) m' (.bot pc')
  | cancelling (cfg : BotConfig) (orderId symbol : String) {request request' : RequestPc}
    {x : Exchange τ} (h : m.exchange.advance env.call request = some (x, request')) :
    Trades net m env (.cancelling cfg orderId symbol request) { m with exchange := x }
      (.cancelling cfg orderId symbol request')
  | cancelled (cfg : BotConfig) (orderId symbol : String) (response : Response) :
    Trades net m env (.cancelling cfg orderId symbol (.done response)) m (.bot (.record
      (cancelEvent cfg orderId symbol (net.cancelOrder response) env.sentAt env.ackedAt)))
  | sending (i : ℕ) (cfg : BotConfig) (order : OrderRequest) {request request' : RequestPc}
    {x : Exchange τ} (h : m.exchange.advance env.call request = some (x, request')) :
    Trades net m env (.sending i cfg order request) { m with exchange := x }
      (.sending i cfg order request')
  | sent (i : ℕ) (cfg : BotConfig) (order : OrderRequest) (response : Response) :
    Trades net m env (.sending i cfg order (.done response)) m
      (.bot (.sent i cfg order (net.sendOrder response) env.sentAt env.ackedAt))

theorem RequestPc.eq_done_of_response {request : RequestPc} {response : Response}
    (h : request.response = some response) : request = .done response := by
  cases request with
  | done response' => exact congrArg RequestPc.done (Option.some_inj.mp h)
  | _ => simp [RequestPc.response] at h

theorem trades_of_trade {net : Net} {m m' : Market τ} {env : MarketEnv} {pc pc' : TradePc}
    (h : m.trade net env pc = some (m', pc')) : Trades net m env pc m' pc' := by
  cases pc with
  | bot pc =>
    rw [Market.trade.eq_def] at h
    dsimp only at h
    split at h
    · obtain ⟨rfl, rfl⟩ := Prod.mk.inj (Option.some_inj.mp h)
      exact .cancel _ _ _
    · obtain ⟨rfl, rfl⟩ := Prod.mk.inj (Option.some_inj.mp h)
      exact .send _ _ _
    · rename_i hcancel hsend
      obtain ⟨⟨m', pc'⟩, hadvance, heq⟩ := Option.map_eq_some_iff.mp h
      obtain ⟨rfl, rfl⟩ := Prod.mk.inj heq
      exact .bot hcancel hsend hadvance
  | cancelling cfg orderId symbol request =>
    rw [Market.trade] at h
    split at h
    · obtain ⟨r, hserve, heq⟩ := Option.map_eq_some_iff.mp h
      obtain ⟨⟨x, request'⟩, hadvance, rfl⟩ := Option.map_eq_some_iff.mp hserve
      obtain ⟨rfl, rfl⟩ := Prod.mk.inj heq
      exact .cancelling cfg orderId symbol hadvance
    · rename_i response hresponse
      obtain ⟨rfl, rfl⟩ := Prod.mk.inj (Option.some_inj.mp h)
      rw [RequestPc.eq_done_of_response hresponse]
      exact .cancelled cfg orderId symbol response
  | sending i cfg order request =>
    rw [Market.trade] at h
    split at h
    · obtain ⟨r, hserve, heq⟩ := Option.map_eq_some_iff.mp h
      obtain ⟨⟨x, request'⟩, hadvance, rfl⟩ := Option.map_eq_some_iff.mp hserve
      obtain ⟨rfl, rfl⟩ := Prod.mk.inj heq
      exact .sending i cfg order hadvance
    · rename_i response hresponse
      obtain ⟨rfl, rfl⟩ := Prod.mk.inj (Option.some_inj.mp h)
      rw [RequestPc.eq_done_of_response hresponse]
      exact .sent i cfg order response

abbrev Trading (τ : Type) := Pool (Market τ) TradePc

def Trading.step (net : Net) : Trading τ → PoolEvent SendOrder MarketEnv → Option (Trading τ) :=
  Pool.next (fun call ↦ .bot call.entry) (Market.trade net)

/-- Before the first order. -/
def Trading.initial (hash : String → ℕ) (cfgs : List BotConfig) : Trading τ :=
  ⟨⟨Exchange.initial, cfgs.map (Bot.new hash), []⟩, []⟩

/-! ## Ids and their holders -/

/-- The id that a reply adds to the live orders. -/
def liveId : Option OrderResponse → List String
  | none => []
  | some resp => if resp.status = "new" ∨ resp.status = "partial" then [resp.orderId] else []

/-- The id that a request has drawn, or that its answer acknowledges. -/
def Net.drawn (net : Net) : RequestPc → List String
  | .postAdd _ orderId => [orderId]
  | .postMakers _ orderId _ _ => [orderId]
  | .done response => liveId (net.sendOrder response).1
  | _ => []

/-- The ids in the hands of a thread. -/
def BotPc.holds : BotPc → List String
  | .cancel _ orderId _ => [orderId]
  | .sent _ _ _ reply _ _ => liveId reply.1
  | _ => []

def TradePc.holds (net : Net) : TradePc → List String
  | .bot pc => pc.holds
  | .cancelling _ _ _ _ => []
  | .sending _ _ _ request => net.drawn request

/-- What the exchange and the bots tell each other about an id. -/
inductive OrderNote where
  | acked (botId orderId : String)
  | cancelled (botId orderId : String)
  deriving DecidableEq, Repr

/-- The id of a cancel. -/
def OrderNote.cancelledId : OrderNote → Option String
  | .acked _ _ => none
  | .cancelled _ orderId => some orderId

/-- A DELETE that is sent, or an answer to a POST that arrives, seen from its id. -/
def TradePc.notes (net : Net) : TradePc → List OrderNote
  | .bot (.cancel cfg orderId _) => [.cancelled cfg.botId orderId]
  | .sending _ cfg _ request => (request.response.elim [] fun response ↦
      liveId (net.sendOrder response).1).map (.acked cfg.botId)
  | _ => []

def Trading.notes (net : Net) (s : Trading τ) : PoolEvent SendOrder MarketEnv → List OrderNote
  | .start _ => []
  | .run i _ => (s.threads[i]?).elim [] (TradePc.notes net)

/-- The ids in the bots' lists. -/
def Market.live (m : Market τ) : Multiset String :=
  (m.bots.map fun b ↦ (b.liveOrders : Multiset String)).sum

def cancelledIds (log : List OrderNote) : List String := log.filterMap OrderNote.cancelledId

/-- All ids that are held by a bot or a thread, or whose cancel has been sent. -/
def Trading.custody (net : Net) (log : List OrderNote) (s : Trading τ) : Multiset String :=
  s.shared.live + (s.threads.map fun pc ↦ (pc.holds net : Multiset String)).sum + cancelledIds log

/-! ## What the bots do with ids -/

/-- `send_order` takes out of the list at most the id that its thread is given. -/
theorem Bot.sendOrder_holds (b : Bot) (i : ℕ) (d : Draws) :
    (b.sendOrder i d).1.cfg = b.cfg ∧
      ((b.sendOrder i d).1.liveOrders : Multiset String) + (b.sendOrder i d).2.holds
        ≤ b.liveOrders ∧
      ((∃ o, (b.sendOrder i d).2 = .send i b.cfg o) ∨
        ∃ orderId symbol, orderId ∈ b.liveOrders ∧
          (b.sendOrder i d).2 = .cancel b.cfg orderId symbol) := by
  have horder : ∀ b' : Bot, b'.cfg = b.cfg → (b'.liveOrders : Multiset String) ≤ b.liveOrders →
      (b'.order i d).1.cfg = b.cfg ∧
      ((b'.order i d).1.liveOrders : Multiset String) + (b'.order i d).2.holds ≤ b.liveOrders ∧
      ((∃ o, (b'.order i d).2 = .send i b.cfg o) ∨
        ∃ orderId symbol, orderId ∈ b.liveOrders ∧
          (b'.order i d).2 = .cancel b.cfg orderId symbol) := by
    intro b' hcfg hle
    refine ⟨hcfg, ?_, Or.inl ⟨_, by rw [← hcfg]; rfl⟩⟩
    have hholds : ((b'.order i d).2.holds : Multiset String) = 0 := rfl
    rw [hholds, add_zero]
    exact hle
  rw [Bot.sendOrder]
  split_ifs
  · split
    · exact horder b rfl le_rfl
    · rename_i orderId hid
      dsimp only
      obtain ⟨hk, hget⟩ := List.getElem?_eq_some_iff.mp hid
      have hperm : (orderId :: b.liveOrders.eraseIdx (d.live % b.liveOrders.length)).Perm
          b.liveOrders := by
        rw [← hget]
        exact List.getElem_cons_eraseIdx_perm hk
      split_ifs
      · exact horder _ rfl (Multiset.coe_le.mpr (List.eraseIdx_sublist _ _).subperm)
      · have hmoved : (b.liveOrders.eraseIdx (d.live % b.liveOrders.length) : Multiset String)
            + ([orderId] : List String) ≤ b.liveOrders := by
          rw [Multiset.coe_add, Multiset.coe_le]
          exact (List.perm_append_comm.trans hperm).subperm
        exact ⟨rfl, hmoved, Or.inr ⟨orderId, _, List.mem_of_getElem? hid, rfl⟩⟩
  · exact horder b rfl le_rfl

theorem Bot.keepLive_holds (b : Bot) (reply : Option OrderResponse) :
    (b.keepLive reply).cfg = b.cfg ∧
      ((b.keepLive reply).liveOrders : Multiset String)
        ≤ b.liveOrders + (liveId reply : Multiset String) ∧
      (b.liveOrders.length ≤ 100 → (b.keepLive reply).liveOrders.length ≤ 100) ∧
      ∀ id ∈ (b.keepLive reply).liveOrders, id ∈ b.liveOrders ∨ id ∈ liveId reply := by
  cases reply with
  | none => exact ⟨rfl, Multiset.le_add_right _ _, id, fun _ ↦ Or.inl⟩
  | some resp =>
    rw [Bot.keepLive]
    split_ifs with hkeep
    · have hid : liveId (some resp) = [resp.orderId] := if_pos hkeep.1
      rw [hid]
      refine ⟨rfl, le_of_eq (Multiset.coe_add _ _).symm, fun _ ↦ ?_, fun id hmem ↦ ?_⟩
      · rw [List.length_append, List.length_singleton]
        exact hkeep.2
      · exact List.mem_append.mp hmem
    · exact ⟨rfl, Multiset.le_add_right _ _, id, fun _ ↦ Or.inl⟩

/-! ## What the exchange does with ids -/

/-- A report of a POST acknowledges its own order at most. -/
theorem liveId_report_le (net : Net) (o : NewOrder) (orderId : String) (fills : List Fill)
    (now : TimePoint) : (net.drawn (.done ⟨200, .report (o.report orderId fills now)⟩) :
      Multiset String) ≤ ([orderId] : List String) := by
  have hlive : net.drawn (.done ⟨200, .report (o.report orderId fills now)⟩)
      = liveId (some (.ofBody (.report (o.report orderId fills now)))) := rfl
  rw [hlive, liveId]
  split_ifs
  · exact le_rfl
  · exact Multiset.zero_le _

theorem entry_drawn (net : Net) (body : OrderBody) :
    net.drawn (Request.post (.ok body)).entry = [] := by
  rw [Request.entry]
  split <;> rfl

/-- **Ids are drawn once.** What a critical section adds to the id of its request is new. -/
theorem advance_drawn (net : Net) {x x' : Exchange τ} {env : CallEnv} {pc pc' : RequestPc}
    (h : x.advance env pc = some (x', pc')) :
    x.orderCounter ≤ x'.orderCounter ∧ ∃ fresh : List String, fresh.Nodup ∧
      (∀ id ∈ fresh, x'.Issued id ∧ ¬x.Issued id) ∧
      (net.drawn pc' : Multiset String) ≤ net.drawn pc + (fresh : Multiset String) := by
  have hnone : (net.drawn pc' : Multiset String) ≤ net.drawn pc →
      ∃ fresh : List String, fresh.Nodup ∧ (∀ id ∈ fresh, x'.Issued id ∧ ¬x.Issued id) ∧
        (net.drawn pc' : Multiset String) ≤ net.drawn pc + (fresh : Multiset String) :=
    fun hle ↦ ⟨[], List.nodup_nil, nofun, hle.trans (Multiset.le_add_right _ _)⟩
  cases pc with
  | postBook o =>
    obtain ⟨rfl, rfl⟩ := Prod.mk.inj (Option.some_inj.mp h)
    exact ⟨le_rfl, hnone le_rfl⟩
  | postNumber o =>
    obtain ⟨rfl, rfl⟩ := Prod.mk.inj (Option.some_inj.mp h)
    refine ⟨Nat.le_succ _, [nextOrderId o.symbol (x.orderCounter + 1)], List.nodup_singleton _,
      fun id hid ↦ ?_, Multiset.le_add_left _ _⟩
    obtain rfl := List.mem_singleton.mp hid
    exact ⟨⟨_, _, le_rfl, rfl⟩, x.not_issued_next o.symbol⟩
  | postAdd o orderId =>
    rw [Exchange.advance] at h
    split at h
    · obtain ⟨rfl, rfl⟩ := Prod.mk.inj (Option.some_inj.mp h)
      exact ⟨le_rfl, hnone (Multiset.zero_le _)⟩
    · obtain ⟨rfl, rfl⟩ := Prod.mk.inj (Option.some_inj.mp h)
      exact ⟨le_rfl, hnone le_rfl⟩
  | postMakers o orderId fills todo =>
    cases todo with
    | nil =>
      obtain ⟨rfl, rfl⟩ := Prod.mk.inj (Option.some_inj.mp h)
      refine ⟨?_, hnone (liveId_report_le net o orderId fills _)⟩
      split_ifs <;> exact le_rfl
    | cons fill todo =>
      obtain ⟨rfl, rfl⟩ := Prod.mk.inj (Option.some_inj.mp h)
      exact ⟨(x.orderCounter_updateMaker fill).ge, hnone le_rfl⟩
  -- a DELETE draws no id, and its report does not acknowledge one
  | deleteLookup orderId =>
    rw [Exchange.advance] at h
    split at h <;> obtain ⟨rfl, rfl⟩ := Prod.mk.inj (Option.some_inj.mp h)
    · exact ⟨le_rfl, hnone le_rfl⟩
    · exact ⟨le_rfl, hnone le_rfl⟩
  | deleteBook orderId t =>
    obtain ⟨rfl, rfl⟩ := Prod.mk.inj (Option.some_inj.mp h)
    exact ⟨le_rfl, hnone le_rfl⟩
  | deleteCancel orderId t =>
    rw [Exchange.advance] at h
    split at h <;> obtain ⟨rfl, rfl⟩ := Prod.mk.inj (Option.some_inj.mp h)
    · exact ⟨le_rfl, hnone le_rfl⟩
    · exact ⟨le_rfl, hnone le_rfl⟩
  | deleteErase orderId t =>
    obtain ⟨rfl, rfl⟩ := Prod.mk.inj (Option.some_inj.mp h)
    exact ⟨le_rfl, hnone le_rfl⟩
  | done response => simp [Exchange.advance] at h

/-! ## One step -/

theorem cancelledIds_acked (botId : String) (ids : List String) :
    cancelledIds (ids.map (.acked botId)) = [] := by
  rw [cancelledIds, List.filterMap_map]
  exact List.filterMap_eq_nil_iff.mpr fun _ _ ↦ rfl

/-- What a step of the bot itself does with ids. -/
theorem advance_holds {net : Net} {m m' : Market τ} {env : MarketEnv} {pc pc' : BotPc}
    (hcancel : ∀ cfg orderId symbol, pc ≠ .cancel cfg orderId symbol)
    (hsend : ∀ i cfg order, pc ≠ .send i cfg order)
    (h : m.advance net env pc = some (m', pc')) :
    m'.exchange = m.exchange ∧ m'.live + pc'.holds ≤ m.live + pc.holds := by
  cases pc with
  | choose i d =>
    obtain ⟨b, hb, heq⟩ := Option.map_eq_some_iff.mp h
    obtain ⟨rfl, rfl⟩ := Prod.mk.inj heq
    obtain ⟨l₁, l₂, hbots, -, hset⟩ := exists_split hb
    have hmoved := (b.sendOrder_holds i d).2.1
    refine ⟨rfl, ?_⟩
    have hnone : BotPc.holds (.choose i d) = [] := rfl
    simp only [Market.live, hset]
    rw [hbots, sum_map_split, sum_map_split, hnone, Multiset.coe_nil, add_zero, add_right_comm]
    exact Multiset.add_le_add_right hmoved
  | cancel cfg orderId symbol => exact absurd rfl (hcancel cfg orderId symbol)
  | send i cfg order => exact absurd rfl (hsend i cfg order)
  | sent i cfg order reply sentAt ackedAt =>
    obtain ⟨b, hb, heq⟩ := Option.map_eq_some_iff.mp h
    obtain ⟨rfl, rfl⟩ := Prod.mk.inj heq
    obtain ⟨l₁, l₂, hbots, -, hset⟩ := exists_split hb
    have hmoved := (b.keepLive_holds reply.1).2.1
    refine ⟨rfl, ?_⟩
    simp only [Market.live, hset]
    rw [hbots, sum_map_split, sum_map_split, add_right_comm (b.liveOrders : Multiset String)]
    simp only [BotPc.holds, Multiset.coe_nil, add_zero]
    exact Multiset.add_le_add_right hmoved
  | record event =>
    obtain ⟨rfl, rfl⟩ := Prod.mk.inj (Option.some_inj.mp h)
    exact ⟨rfl, le_rfl⟩
  | done => simp [Market.advance] at h

/-- A request that is being served acknowledges nothing yet. -/
theorem notes_sending (net : Net) {x x' : Exchange τ} {env : CallEnv}
    {request request' : RequestPc} (h : x.advance env request = some (x', request')) (i : ℕ)
    (cfg : BotConfig) (order : OrderRequest) :
    TradePc.notes net (.sending i cfg order request) = [] := by
  cases request with
  | done response => simp [Exchange.advance] at h
  | _ => rfl

/-- **Ids move.** What a step of a thread puts into lists and hands, or sends off to be cancelled,
was in a list or a hand before, but for an id that the exchange has just drawn. -/
theorem trade_custody {net : Net} {m m' : Market τ} {env : MarketEnv} {pc pc' : TradePc}
    (h : Trades net m env pc m' pc') : m.exchange.orderCounter ≤ m'.exchange.orderCounter ∧
    ∃ fresh : List String, fresh.Nodup ∧
      (∀ id ∈ fresh, m'.exchange.Issued id ∧ ¬m.exchange.Issued id) ∧
      m'.live + pc'.holds net + cancelledIds (pc.notes net)
        ≤ m.live + pc.holds net + (fresh : Multiset String) := by
  cases h with
  | cancel cfg orderId symbol =>
    refine ⟨le_rfl, [], List.nodup_nil, nofun, ?_⟩
    simp only [TradePc.holds, TradePc.notes, BotPc.holds, cancelledIds, OrderNote.cancelledId,
      List.filterMap_cons, List.filterMap_nil, Multiset.coe_nil, add_zero]
    exact le_rfl
  | send i cfg order =>
    refine ⟨le_rfl, [], List.nodup_nil, nofun, ?_⟩
    simp only [TradePc.holds, TradePc.notes, BotPc.holds, entry_drawn, cancelledIds,
      List.filterMap_nil, Multiset.coe_nil, add_zero]
    exact le_rfl
  | @bot pc pc' m' hcancel hsend hadvance =>
    obtain ⟨hexchange, hmoved⟩ := advance_holds hcancel hsend hadvance
    have hnotes : TradePc.notes net (.bot pc) = [] := by
      cases pc with
      | cancel cfg orderId symbol => exact absurd rfl (hcancel cfg orderId symbol)
      | _ => rfl
    refine ⟨by rw [hexchange], [], List.nodup_nil, nofun, ?_⟩
    rw [hnotes]
    simp only [TradePc.holds, cancelledIds, List.filterMap_nil, Multiset.coe_nil, add_zero]
    exact hmoved
  | cancelling cfg orderId symbol hadvance =>
    obtain ⟨hcounter, -⟩ := advance_drawn net hadvance
    exact ⟨hcounter, [], List.nodup_nil, nofun, le_rfl⟩
  | cancelled cfg orderId symbol response => exact ⟨le_rfl, [], List.nodup_nil, nofun, le_rfl⟩
  | sending i cfg order hadvance =>
    obtain ⟨hcounter, fresh, hnodup, hfresh, hdrawn⟩ := advance_drawn net hadvance
    refine ⟨hcounter, fresh, hnodup, hfresh, ?_⟩
    rw [notes_sending net hadvance, add_assoc m.live]
    simp only [TradePc.holds, cancelledIds, List.filterMap_nil, Multiset.coe_nil, add_zero]
    exact Multiset.add_le_add_left hdrawn
  | sent i cfg order response =>
    refine ⟨le_rfl, [], List.nodup_nil, nofun, ?_⟩
    rw [TradePc.notes, cancelledIds_acked]
    exact le_rfl

/-! ## Runs -/

/-- Where the ids of a thread come from, and that its bot is the one it says. -/
def BotPc.Placed (log : List OrderNote) (bots : List Bot) : BotPc → Prop
  | .cancel cfg orderId _ => .acked cfg.botId orderId ∈ log
  | .send i cfg _ => (bots[i]?).map Bot.cfg = some cfg
  | .sent i cfg _ reply _ _ => (bots[i]?).map Bot.cfg = some cfg ∧
    ∀ id ∈ liveId reply.1, .acked cfg.botId id ∈ log
  | _ => True

def TradePc.Placed (log : List OrderNote) (bots : List Bot) : TradePc → Prop
  | .bot pc => pc.Placed log bots
  | .cancelling _ _ _ _ => True
  | .sending i cfg _ _ => (bots[i]?).map Bot.cfg = some cfg

/-- A cancel is for an order that was acknowledged to the same bot. -/
def OrderNote.Right (past : List OrderNote) : OrderNote → Prop
  | .acked _ _ => True
  | .cancelled botId orderId => .acked botId orderId ∈ past

/-- The law of a run: no id is in two places, every id has been issued, each was acknowledged to
the bot that has it, and cancelled only after that. -/
structure Trading.Ordered (net : Net) (log : List OrderNote) (s : Trading τ) : Prop where
  nodup : (s.custody net log).Nodup
  issued : ∀ id ∈ s.custody net log, s.shared.exchange.Issued id
  lists : ∀ b ∈ s.shared.bots, b.liveOrders.length ≤ 100 ∧
    ∀ id ∈ b.liveOrders, .acked b.cfg.botId id ∈ log
  placed : ∀ pc ∈ s.threads, pc.Placed log s.shared.bots
  cancels : Justified OrderNote.Right log

theorem BotPc.Placed.mono {log : List OrderNote} {bots bots' : List Bot} {pc : BotPc}
    (h : pc.Placed log bots) (new : List OrderNote)
    (hcfg : ∀ i : ℕ, (bots'[i]?).map Bot.cfg = (bots[i]?).map Bot.cfg) :
    pc.Placed (log ++ new) bots' := by
  cases pc with
  | cancel cfg orderId symbol => exact List.mem_append_left new h
  | send i cfg order => exact (hcfg i).trans h
  | sent i cfg order reply sentAt ackedAt =>
    exact ⟨(hcfg i).trans h.1, fun id hid ↦ List.mem_append_left new (h.2 id hid)⟩
  | _ => trivial

theorem TradePc.Placed.mono {log : List OrderNote} {bots bots' : List Bot} {pc : TradePc}
    (h : pc.Placed log bots) (new : List OrderNote)
    (hcfg : ∀ i : ℕ, (bots'[i]?).map Bot.cfg = (bots[i]?).map Bot.cfg) :
    pc.Placed (log ++ new) bots' := by
  cases pc with
  | bot pc => exact BotPc.Placed.mono h new hcfg
  | cancelling cfg orderId symbol request => trivial
  | sending i cfg order request => exact (hcfg i).trans h

theorem cfg_set {bots : List Bot} {i : ℕ} {b b' : Bot} (hb : bots[i]? = some b)
    (hcfg : b'.cfg = b.cfg) (j : ℕ) :
    ((bots.set i b')[j]?).map Bot.cfg = (bots[j]?).map Bot.cfg := by
  rw [List.getElem?_set]
  split_ifs with hij hlt
  · subst hij
    rw [hb, Option.map_some, Option.map_some, hcfg]
  · subst hij
    rw [List.getElem?_eq_none (not_lt.mp hlt)]
  · rfl

/-- A step of a bot keeps the bots' settings, the bound of their lists, and the origin of every
id. -/
theorem advance_placed {net : Net} {m m' : Market τ} {env : MarketEnv} {pc pc' : BotPc}
    {log : List OrderNote} (hcancel : ∀ cfg orderId symbol, pc ≠ .cancel cfg orderId symbol)
    (hsend : ∀ i cfg order, pc ≠ .send i cfg order) (h : m.advance net env pc = some (m', pc'))
    (hlists : ∀ b ∈ m.bots, b.liveOrders.length ≤ 100 ∧
      ∀ id ∈ b.liveOrders, .acked b.cfg.botId id ∈ log) (hpc : pc.Placed log m.bots) :
    (∀ b ∈ m'.bots, b.liveOrders.length ≤ 100 ∧
        ∀ id ∈ b.liveOrders, .acked b.cfg.botId id ∈ log) ∧
      pc'.Placed log m'.bots ∧
      ∀ i : ℕ, (m'.bots[i]?).map Bot.cfg = (m.bots[i]?).map Bot.cfg := by
  cases pc with
  | choose i d =>
    obtain ⟨b, hb, heq⟩ := Option.map_eq_some_iff.mp h
    obtain ⟨rfl, rfl⟩ := Prod.mk.inj heq
    obtain ⟨hcfg, hmoved, hcases⟩ := b.sendOrder_holds i d
    obtain ⟨hlength, hacked⟩ := hlists b (List.mem_of_getElem? hb)
    have hsub : ((b.sendOrder i d).1.liveOrders : Multiset String) ≤ b.liveOrders :=
      (Multiset.le_add_right _ _).trans hmoved
    refine ⟨fun b' hb' ↦ ?_, ?_, cfg_set hb hcfg⟩
    · rcases List.mem_or_eq_of_mem_set hb' with hb' | rfl
      · exact hlists b' hb'
      · refine ⟨(Multiset.card_le_card hsub).trans hlength, fun id hid ↦ ?_⟩
        rw [hcfg]
        exact hacked id (Multiset.mem_of_le hsub hid)
    · rcases hcases with ⟨o, ho⟩ | ⟨orderId, symbol, hid, ho⟩
      · rw [ho]
        refine (cfg_set hb hcfg i).trans ?_
        rw [hb, Option.map_some]
      · rw [ho]
        exact hacked orderId hid
  | cancel cfg orderId symbol => exact absurd rfl (hcancel cfg orderId symbol)
  | send i cfg order => exact absurd rfl (hsend i cfg order)
  | sent i cfg order reply sentAt ackedAt =>
    obtain ⟨b, hb, heq⟩ := Option.map_eq_some_iff.mp h
    obtain ⟨rfl, rfl⟩ := Prod.mk.inj heq
    obtain ⟨hcfg, -, hlength, hmem⟩ := b.keepLive_holds reply.1
    obtain ⟨hsettings, hreply⟩ := hpc
    rw [hb, Option.map_some, Option.some_inj] at hsettings
    refine ⟨fun b' hb' ↦ ?_, trivial, cfg_set hb hcfg⟩
    rcases List.mem_or_eq_of_mem_set hb' with hb' | rfl
    · exact hlists b' hb'
    · have hb' := hlists b (List.mem_of_getElem? hb)
      refine ⟨hlength hb'.1, fun id hid ↦ ?_⟩
      rw [hcfg]
      rcases hmem id hid with hid | hid
      · exact hb'.2 id hid
      · rw [hsettings]
        exact hreply id hid
  | record event =>
    obtain ⟨rfl, rfl⟩ := Prod.mk.inj (Option.some_inj.mp h)
    exact ⟨hlists, trivial, fun _ ↦ rfl⟩
  | done => simp [Market.advance] at h

/-- So does every step of a thread. -/
theorem trade_placed {net : Net} {m m' : Market τ} {env : MarketEnv} {pc pc' : TradePc}
    {log : List OrderNote} (h : Trades net m env pc m' pc')
    (hlists : ∀ b ∈ m.bots, b.liveOrders.length ≤ 100 ∧
      ∀ id ∈ b.liveOrders, .acked b.cfg.botId id ∈ log) (hpc : pc.Placed log m.bots) :
    (∀ b ∈ m'.bots, b.liveOrders.length ≤ 100 ∧
        ∀ id ∈ b.liveOrders, .acked b.cfg.botId id ∈ log ++ pc.notes net) ∧
      pc'.Placed (log ++ pc.notes net) m'.bots ∧
      ∀ i : ℕ, (m'.bots[i]?).map Bot.cfg = (m.bots[i]?).map Bot.cfg := by
  have hkeep : ∀ b ∈ m.bots, b.liveOrders.length ≤ 100 ∧
      ∀ id ∈ b.liveOrders, .acked b.cfg.botId id ∈ log ++ pc.notes net := fun b hb ↦
    ⟨(hlists b hb).1, fun id hid ↦ List.mem_append_left _ ((hlists b hb).2 id hid)⟩
  cases h with
  | cancel cfg orderId symbol => exact ⟨hkeep, trivial, fun _ ↦ rfl⟩
  | send i cfg order => exact ⟨hkeep, hpc, fun _ ↦ rfl⟩
  | bot hcancel hsend hadvance =>
    obtain ⟨hlists', hplaced, hcfg⟩ := advance_placed hcancel hsend hadvance hlists hpc
    refine ⟨fun b hb ↦ ⟨(hlists' b hb).1, fun id hid ↦ ?_⟩, hplaced.mono _ fun _ ↦ rfl, hcfg⟩
    exact List.mem_append_left _ ((hlists' b hb).2 id hid)
  | cancelling cfg orderId symbol hadvance => exact ⟨hkeep, trivial, fun _ ↦ rfl⟩
  | cancelled cfg orderId symbol response => exact ⟨hkeep, trivial, fun _ ↦ rfl⟩
  | sending i cfg order hadvance => exact ⟨hkeep, hpc, fun _ ↦ rfl⟩
  | sent i cfg order response =>
    refine ⟨hkeep, ⟨hpc, fun id hid ↦ ?_⟩, fun _ ↦ rfl⟩
    exact List.mem_append_right log (List.mem_map_of_mem hid)

omit [AddGroupWithOne τ] in
theorem custody_split (net : Net) (log : List OrderNote) (m : Market τ) (l r : List TradePc)
    (pc : TradePc) : Trading.custody net log ⟨m, l ++ pc :: r⟩
      = m.live + pc.holds net + cancelledIds log
        + ((l ++ r).map fun q ↦ (q.holds net : Multiset String)).sum := by
  rw [Trading.custody, sum_map_split]
  simp only [add_assoc, add_comm]

theorem cancelledIds_append (log new : List OrderNote) :
    (cancelledIds (log ++ new) : Multiset String) = cancelledIds log + cancelledIds new := by
  rw [cancelledIds, List.filterMap_append, ← Multiset.coe_add]
  rfl

/-- A step sends off the cancel of an id that was acknowledged. -/
theorem acked_of_cancelled {net : Net} {bots : List Bot} {pc : TradePc} {log : List OrderNote}
    (hpc : pc.Placed log bots) {botId orderId : String}
    (h : .cancelled botId orderId ∈ pc.notes net) : .acked botId orderId ∈ log := by
  cases pc with
  | bot pc =>
    cases pc with
    | cancel cfg id symbol =>
      obtain ⟨rfl, rfl⟩ := OrderNote.cancelled.inj (List.mem_singleton.mp h)
      exact hpc
    | _ => exact absurd h List.not_mem_nil
  | cancelling cfg orderId symbol request => exact absurd h List.not_mem_nil
  | sending i cfg order request =>
    obtain ⟨id, -, hid⟩ := List.mem_map.mp h
    simp at hid

/-- **One step** of the bots, their threads and the requests. -/
theorem Trading.Ordered.step {net : Net} {log : List OrderNote} {s t : Trading τ}
    {e : PoolEvent SendOrder MarketEnv} (h : s.Ordered net log) (hstep : s.step net e = some t) :
    t.Ordered net (log ++ s.notes net e) := by
  cases e with
  | start call =>
    obtain rfl := Option.some_inj.mp hstep
    have hcustody : Trading.custody net log ⟨s.shared, s.threads ++ [.bot call.entry]⟩
        = s.custody net log := by
      rw [Trading.custody, List.map_append, List.sum_append, Trading.custody]
      exact congrArg (fun c ↦ s.shared.live + c + _) (add_zero _)
    rw [Trading.notes, List.append_nil]
    exact ⟨hcustody ▸ h.nodup, hcustody ▸ h.issued, h.lists, Pool.forall_start h.placed trivial,
      h.cancels⟩
  | run i env =>
    obtain ⟨l, pc, r, m, pc', hthreads, hi, htrade, rfl⟩ := Pool.next_run hstep
    have hget : s.threads[i]? = some pc := by
      rw [hthreads, ← hi]
      simp
    have hnotes : s.notes net (.run i env) = pc.notes net := by
      rw [Trading.notes, hget]
      rfl
    have hold : s.custody net log = Trading.custody net log ⟨s.shared, l ++ pc :: r⟩ := by
      rw [← hthreads]
    have hplaced := h.placed
    rw [hthreads] at hplaced
    have hstep := trades_of_trade htrade
    obtain ⟨hcounter, fresh, hnodup, hfresh, hmoved⟩ := trade_custody hstep
    obtain ⟨hlists, hpc', hcfg⟩ := trade_placed hstep h.lists (hplaced pc (by simp))
    rw [hnotes]
    -- all ids were somewhere before, or are new
    have hle : Trading.custody net (log ++ pc.notes net) ⟨m, l ++ pc' :: r⟩
        ≤ s.custody net log + fresh := by
      rw [hold, custody_split, custody_split, cancelledIds_append]
      have hrest := Multiset.add_le_add_right (u := (cancelledIds log : Multiset String)
        + ((l ++ r).map fun q ↦ (q.holds net : Multiset String)).sum) hmoved
      simp only [add_assoc, add_comm, add_left_comm] at hrest ⊢
      exact hrest
    have hissued : ∀ id ∈ s.custody net log + fresh, m.exchange.Issued id := by
      intro id hid
      rcases Multiset.mem_add.mp hid with hid | hid
      · exact (h.issued id hid).mono hcounter
      · exact (hfresh id hid).1
    refine ⟨Multiset.nodup_of_le hle ?_, fun id hid ↦ hissued id (Multiset.mem_of_le hle hid),
      hlists, Pool.forall_run hplaced (fun q hq ↦ hq.mono _ hcfg) hpc', ?_⟩
    · rw [Multiset.nodup_add]
      refine ⟨h.nodup, hnodup, Multiset.disjoint_left.mpr fun hid hid' ↦ ?_⟩
      exact (hfresh _ hid').2 (h.issued _ hid)
    · refine h.cancels.append (fun past later note hright ↦ ?_) fun note hnote ↦ ?_
      · cases note with
        | acked botId orderId => trivial
        | cancelled botId orderId => exact List.mem_append_left later hright
      · cases note with
        | acked botId orderId => trivial
        | cancelled botId orderId => exact acked_of_cancelled (hplaced pc (by simp)) hnote

omit [AddGroupWithOne τ] in
theorem Trading.ordered_initial (net : Net) (hash : String → ℕ) (cfgs : List BotConfig) :
    (Trading.initial hash cfgs : Trading τ).Ordered net [] := by
  have hlive : ∀ b ∈ cfgs.map (Bot.new hash), b.liveOrders = [] := by
    intro b hb
    obtain ⟨cfg, -, rfl⟩ := List.mem_map.mp hb
    rfl
  have hcustody : (Trading.initial hash cfgs : Trading τ).custody net [] = 0 := by
    have hsum : (Trading.initial hash cfgs : Trading τ).shared.live = 0 := by
      refine List.sum_eq_zero fun ids hids ↦ ?_
      obtain ⟨b, hb, rfl⟩ := List.mem_map.mp hids
      rw [hlive b hb]
      rfl
    rw [Trading.custody, hsum]
    rfl
  refine ⟨hcustody ▸ Multiset.nodup_zero, fun id hid ↦ ?_, fun b hb ↦ ?_, ?_, justified_nil _⟩
  · rw [hcustody] at hid
    exact absurd hid (Multiset.notMem_zero id)
  · rw [hlive b hb]
    exact ⟨Nat.zero_le _, fun id hid ↦ absurd hid List.not_mem_nil⟩
  · exact fun pc hpc ↦ absurd hpc List.not_mem_nil

/-- **No order is cancelled twice.** Whatever the interleaving of the bots, their threads and the
critical sections of their requests: the cancels that are sent are for different orders; a bot
cancels an order only after the exchange has acknowledged it to that bot as new or partly filled; no
list of live orders is longer than 100; and an order is live with one bot at most, once, and not
after its cancel has been sent. -/
theorem orders_cancelled_once {net : Net} {hash : String → ℕ} {cfgs : List BotConfig}
    {es : List (PoolEvent SendOrder MarketEnv)} {s : Trading τ}
    (h : exec (Trading.step net) (.initial hash cfgs) es = some s) :
    let log := emitted (Trading.step net) (Trading.notes net)
      (Trading.initial hash cfgs : Trading τ) es
    (cancelledIds log).Nodup ∧
    (∀ past botId orderId future, log = past ++ .cancelled botId orderId :: future →
      .acked botId orderId ∈ past) ∧
    (∀ b ∈ s.shared.bots, b.liveOrders.length ≤ 100) ∧
    (s.shared.live + cancelledIds log).Nodup := by
  have hordered : s.Ordered net (emitted (Trading.step net) (Trading.notes net)
      (Trading.initial hash cfgs : Trading τ) es) :=
    exec_emitted (P := fun log (s : Trading τ) ↦ s.Ordered net log)
      (fun _ _ _ _ h ht ↦ h.step ht) (Trading.ordered_initial net hash cfgs) h
  have hnodup := hordered.nodup
  rw [Trading.custody, add_right_comm] at hnodup
  have hlive := Multiset.nodup_of_le (Multiset.le_add_right _ _) hnodup
  refine ⟨?_, fun past botId orderId future ↦ hordered.cancels past _ future,
    fun b hb ↦ (hordered.lists b hb).1, hlive⟩
  exact Multiset.coe_nodup.mp (Multiset.nodup_of_le (Multiset.le_add_left _ _) hlive)

/-- Two orders of which the second draws its number and is added while the first waits to be added.
They trade, and the bot of the second then sends a cancel. -/
def overtakingOrders : List (PoolEvent SendOrder MarketEnv) :=
  callSendOrder 0 0 (7 / 10) false 4 ++ callSendOrder 1 1 (7 / 10) true 8 ++
    List.replicate 5 (.run 0 ⟨default, 0, 0, 0⟩) ++ callSendOrder 2 1 0 false 4

theorem orders_cancelled_once_overtakingOrders : ∃ s : Trading ℤ,
    let initial := Trading.initial (fun _ ↦ 2) [sampleConfig "maker", sampleConfig "taker"]
    let log := emitted (Trading.step sampleNet) (Trading.notes sampleNet) initial overtakingOrders
    exec (Trading.step sampleNet) initial overtakingOrders = some s ∧
      log = [.acked "taker" "ORD-BTC-USD-2", .cancelled "taker" "ORD-BTC-USD-2"] ∧
      (s.shared.live + cancelledIds log).Nodup := by
  have hrun : (exec (Trading.step sampleNet)
      (Trading.initial (fun _ ↦ 2) [sampleConfig "maker", sampleConfig "taker"] : Trading ℤ)
      overtakingOrders).isSome = true := by decide +kernel
  obtain ⟨s, hs⟩ := Option.isSome_iff_exists.mp hrun
  exact ⟨s, hs, by decide +kernel, (orders_cancelled_once hs).2.2.2⟩

end BenchmarkPlatform.Worker
