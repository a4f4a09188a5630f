import BenchmarkPlatform.Exchange.Account

/-!
# The order index mirrors the books

Between the step that rests an order and the step that writes its tracker, other requests may fill
the order. Their maker updates find no tracker and are lost, and the tracker is then written with
the quantity the order had when it rested. This is the only way for the index to go wrong: in every
run in which no maker update meets an order whose tracker is still to be written, the index and the
books agree whenever no request is in flight.
-/

namespace BenchmarkPlatform

open Lib RequestPc

variable {τ : Type} [AddGroupWithOne τ]

/-! ## Steps and runs -/

/-- No maker update meets an order whose tracker is still to be written. -/
def MakersTracked (s : Server τ) : ServerEvent → Prop
  | .start _ => True
  | .run i _ =>
    match s.threads[i]? with
    | some (.postMakers _ _ _ (f :: _)) => ¬Inserts s.threads f.makerOrderId
    | _ => True

instance (s : Server τ) : DecidablePred (MakersTracked s)
  | .start _ => inferInstanceAs (Decidable True)
  | .run i _ => by
    rw [MakersTracked]
    split <;> infer_instance

theorem plain_of_ne {pc : RequestPc} (hmakers : ∀ o id fills todo, pc ≠ .postMakers o id fills todo)
    (herase : ∀ id t, pc ≠ .deleteErase id t) : pc.Plain := by
  refine ⟨fun id ↦ ?_, fun o id fills ⟨todo, heq, _⟩ ↦ hmakers o id fills todo heq, herase⟩
  cases pc with
  | postMakers o id' fills todo => exact absurd rfl (hmakers o id' fills todo)
  | _ => rfl

/-- An answered request owes nothing. -/
theorem Consistent.add_done {added : Finset String} {x : Exchange τ} {ts : Multiset RequestPc}
    {response : Response} (h : Consistent added x ts) :
    Consistent added x (.done response ::ₘ ts) :=
  h.add (plain_of_ne (by simp) (by simp)) (by simp) (by simp [postId]) (by simp [deleteId])

/-- One step of one request keeps the account. -/
theorem consistent_advance {added : Finset String} {x x' : Exchange τ} {pc pc' : RequestPc}
    {ts : Multiset RequestPc} {env : CallEnv} (h : Consistent added x (pc ::ₘ ts))
    (hguard : ∀ o id fills f todo, pc = .postMakers o id fills (f :: todo) →
      ¬Inserts (pc ::ₘ ts) f.makerOrderId)
    (hadvance : x.advance env pc = some (x', pc')) :
    ∃ added', Consistent added' x' (pc' ::ₘ ts) := by
  have hself := Multiset.mem_cons_self pc ts
  cases pc with
  | postBook o =>
    simp only [Exchange.advance, Option.some.injEq, Prod.mk.injEq] at hadvance
    obtain ⟨rfl, rfl⟩ := hadvance
    have hts := h.drop (plain_of_ne (by simp) (by simp))
    exact ⟨added, (hts.congr (x.book_getOrCreateBook o.symbol) rfl le_rfl).add
      (plain_of_ne (by simp) (by simp)) (by simp) (by simp [postId]) (by simp [deleteId])⟩
  | postNumber o =>
    simp only [Exchange.advance, Option.some.injEq, Prod.mk.injEq] at hadvance
    obtain ⟨rfl, rfl⟩ := hadvance
    have hts := h.drop (plain_of_ne (by simp) (by simp))
    -- a number above the counter is in no id issued so far
    have hfresh := x.not_issued_next o.symbol
    have hts' : Consistent added { x with orderCounter := x.orderCounter + 1 } ts :=
      hts.congr (fun _ ↦ rfl) rfl (Nat.le_succ _)
    refine ⟨added, hts'.add (plain_of_ne (by simp) (by simp)) (by simp) (fun id hid ↦ ?_)
      (by simp [deleteId])⟩
    rw [← Option.some_inj.mp hid]
    refine ⟨⟨o.symbol, _, le_rfl, rfl⟩, fun hmem ↦ hfresh (h.issued _ hmem), fun hmem ↦ ?_⟩
    obtain ⟨q, hq, hqid⟩ := (Multiset.mem_filterMap _ _).mp hmem
    exact hfresh (hts.drawn q hq _ hqid)
  | postAdd o id =>
    have hts := h.drop (plain_of_ne (by simp) (by simp))
    have hdistinct := h.distinct
    rw [Multiset.filterMap_cons_some postId _ ts (b := id) rfl, Multiset.nodup_cons] at hdistinct
    rw [Exchange.advance] at hadvance
    split at hadvance
    · simp only [Option.some.injEq, Prod.mk.injEq] at hadvance
      obtain ⟨rfl, rfl⟩ := hadvance
      exact ⟨added, hts.add_done⟩
    · rename_i fills b hok
      simp only [Option.some.injEq, Prod.mk.injEq] at hadvance
      obtain ⟨rfl, rfl⟩ := hadvance
      exact ⟨insert id added, hts.addOrder (h.unadded _ hself o id rfl)
        (h.drawn _ hself id rfl) hdistinct.1 hok⟩
  | postMakers o id fills todo =>
    cases todo with
    | cons f todo =>
      simp only [Exchange.advance, Option.some.injEq, Prod.mk.injEq] at hadvance
      obtain ⟨rfl, rfl⟩ := hadvance
      -- the guard: this maker's tracker is not still to be inserted by another request
      exact ⟨added, h.updateMaker (hguard o id fills f todo rfl)⟩
    | nil =>
      simp only [Exchange.advance, Option.some.injEq, Prod.mk.injEq] at hadvance
      obtain ⟨rfl, rfl⟩ := hadvance
      -- an order that leaves nothing to rest has no tracker
      have hts : Consistent added (if o.Tracked fills then
          { x with orderIndex := x.orderIndex.insert id (o.tracker fills) } else x) ts := by
        split_ifs with htracked
        · exact h.insertTracker htracked
        · refine h.drop ⟨fun m ↦ rfl, fun o' id' fills' hins ↦ ?_, by simp⟩
          exact htracked (inserting_postMakers.mp hins).2.2.2
      exact ⟨added, hts.add_done⟩
  | deleteLookup id =>
    have hts := h.drop (plain_of_ne (by simp) (by simp))
    rw [Exchange.advance] at hadvance
    split at hadvance
    · simp only [Option.some.injEq, Prod.mk.injEq] at hadvance
      obtain ⟨rfl, rfl⟩ := hadvance
      exact ⟨added, hts.add_done⟩
    · rename_i t ht
      simp only [Option.some.injEq, Prod.mk.injEq] at hadvance
      obtain ⟨rfl, rfl⟩ := hadvance
      refine ⟨added, hts.add (plain_of_ne (by simp) (by simp)) (by simp) (by simp [postId])
        fun id' hid ↦ ?_⟩
      rw [← Option.some_inj.mp hid]
      exact ⟨(hts.tracked id t ht).1, (hts.tracked id t ht).2.2⟩
  | deleteBook id t =>
    simp only [Exchange.advance, Option.some.injEq, Prod.mk.injEq] at hadvance
    obtain ⟨rfl, rfl⟩ := hadvance
    have hplain : (deleteBook id t).Plain := plain_of_ne (by simp) (by simp)
    have hdeleting := h.deleting _ hself
    simp only [Consistent.inserts_cons_plain hplain] at hdeleting
    exact ⟨added, ((h.drop hplain).congr (x.book_getOrCreateBook t.symbol) rfl le_rfl).add
      (plain_of_ne (by simp) (by simp)) (by simp) (by simp [postId]) hdeleting⟩
  | deleteCancel id t =>
    have hplain : (deleteCancel id t).Plain := plain_of_ne (by simp) (by simp)
    have hts := h.drop hplain
    obtain ⟨hid, hnone⟩ := h.deleting _ hself id rfl
    rw [Consistent.inserts_cons_plain hplain] at hnone
    rw [Exchange.advance] at hadvance
    split at hadvance
    · simp only [Option.some.injEq, Prod.mk.injEq] at hadvance
      obtain ⟨rfl, rfl⟩ := hadvance
      exact ⟨added, hts.add_done⟩
    · rename_i b hcancel
      simp only [Option.some.injEq, Prod.mk.injEq] at hadvance
      obtain ⟨rfl, rfl⟩ := hadvance
      exact ⟨added, hts.cancelOrder hid hnone hcancel⟩
  | deleteErase id t =>
    simp only [Exchange.advance, Option.some.injEq, Prod.mk.injEq] at hadvance
    obtain ⟨rfl, rfl⟩ := hadvance
    exact ⟨added, h.eraseTracker.add_done⟩
  | done response => simp [Exchange.advance] at hadvance

/-- One step of the server keeps the account. -/
theorem consistent_step {s s' : Server τ} {e : ServerEvent}
    (h : ∃ added, Consistent added s.shared s.threads) (hguard : MakersTracked s e)
    (hstep : Server.step s e = some s') : ∃ added, Consistent added s'.shared s'.threads := by
  obtain ⟨added, h⟩ := h
  cases e with
  | start request =>
    simp only [Server.step, Pool.next, Option.some.injEq] at hstep
    subst hstep
    -- a request begins with nothing owed
    have hentry : (∀ o id fills todo, request.entry ≠ .postMakers o id fills todo) ∧
        (∀ id t, request.entry ≠ .deleteErase id t) ∧ request.entry.postId = none ∧
          request.entry.deleteId = none := by
      cases request with
      | delete id => simp [Request.entry, postId, deleteId]
      | post body =>
        cases body with
        | error what => simp [Request.entry, postId, deleteId]
        | ok body =>
          rw [Request.entry]
          split <;> simp [postId, deleteId]
    obtain ⟨hmakers, herase, hpost, hdelete⟩ := hentry
    refine ⟨added, ?_⟩
    dsimp only
    rw [← Multiset.coe_add, Multiset.coe_singleton, Multiset.add_comm, Multiset.singleton_add]
    exact h.add (plain_of_ne hmakers herase) hmakers (by simp [hpost]) (by simp [hdelete])
  | run i env =>
    obtain ⟨l, pc, r, x', pc', hsplit, hi, hadvance, rfl⟩ := Pool.next_run hstep
    have hcons : ∀ q : RequestPc, ((l ++ q :: r : List RequestPc) : Multiset RequestPc)
        = q ::ₘ ((l ++ r : List RequestPc) : Multiset RequestPc) := fun q ↦
      Multiset.coe_eq_coe.mpr List.perm_middle
    rw [hsplit, hcons] at h
    obtain ⟨added', h'⟩ := consistent_advance h (fun o id fills f todo heq ↦ by
      have hget : s.threads[i]? = some (.postMakers o id fills (f :: todo)) := by
        rw [hsplit, ← hi, List.getElem?_append_right le_rfl, Nat.sub_self, heq]
        rfl
      rw [← hcons, ← hsplit]
      rw [MakersTracked, hget] at hguard
      exact hguard) hadvance
    refine ⟨added', ?_⟩
    dsimp only
    rw [hcons]
    exact h'

/-- `order_index` holds exactly the orders that rest in the books, each under its symbol and with
the quantity that rests of it. -/
def Exchange.Mirrors (x : Exchange τ) : Prop :=
  (∀ id t, x.orderIndex.lookup id = some t → ∃ b n, x.orderbooks.lookup t.symbol = some b ∧
    n ∈ b.resting ∧ n.order.id = id ∧ t.remainingQty = n.order.quantity) ∧
  ∀ symbol b n, x.orderbooks.lookup symbol = some b → n ∈ b.resting →
    ∃ t, x.orderIndex.lookup n.order.id = some t ∧ t.symbol = symbol ∧
      t.remainingQty = n.order.quantity

/-- With no request in flight, a consistent account is a mirror. -/
theorem mirrors_of_quiet {s : Server τ} {added : Finset String}
    (h : Consistent added s.shared s.threads) (hquiet : s.Quiet) : s.shared.Mirrors := by
  -- no request is in flight: nothing is owed, to be inserted or being erased
  have hpending : ∀ id, pendingOf s.threads id = 0 := by
    refine fun id ↦ Multiset.sum_eq_zero fun q hq ↦ ?_
    obtain ⟨pc, hpc, rfl⟩ := Multiset.mem_map.mp hq
    have hdone := hquiet pc hpc
    cases pc <;> simp [response] at hdone
    rfl
  have hinserts : ∀ id, ¬Inserts s.threads id := by
    rintro id ⟨pc, hpc, o, fills, todo, rfl, -⟩
    exact absurd (hquiet _ hpc) (by simp [response])
  have herases : ∀ id, ¬Erases s.threads id := by
    rintro id ⟨pc, hpc, t, rfl⟩
    exact absurd (hquiet _ hpc) (by simp [response])
  have hbook : ∀ symbol b, s.shared.orderbooks.lookup symbol = some b →
      s.shared.book symbol = b := by
    intro symbol b hb
    rw [Exchange.book, hb]
    rfl
  constructor
  · intro id t ht
    have hbalance := h.balance id t ht (herases id)
    rw [hpending, add_zero] at hbalance
    have hpos := (h.tracked id t ht).2.1
    rcases (h.wf t.symbol).restingQuantity_cases id with ⟨-, hzero⟩ | ⟨n, hn, hid, heq, -⟩
    · rw [Exchange.resting, hzero] at hbalance
      omega
    · rw [Exchange.resting, heq] at hbalance
      cases hb : s.shared.orderbooks.lookup t.symbol with
      | none =>
        rw [Exchange.book, hb] at hn
        simp [OrderBook.new, OrderBook.resting, OrderBook.nodes, OrderBook.side] at hn
      | some b => exact ⟨b, n, rfl, hbook _ b hb ▸ hn, hid, hbalance⟩
  · intro symbol b n hb hn
    have hwf := h.wf symbol
    rw [hbook symbol b hb] at hwf
    have heq : s.shared.resting symbol n.order.id = n.order.quantity := by
      rw [Exchange.resting, hbook symbol b hb]
      exact hwf.restingQuantity_eq hn
    have hpos : 0 < n.order.quantity := by
      obtain ⟨side, hside⟩ := OrderBook.mem_resting.mp hn
      exact (hwf.of_mem_nodes hside).2.1
    rcases h.cover symbol n.order.id (by rw [heq]; exact hpos.ne') with
      ⟨t, ht, rfl⟩ | ⟨pc, hpc, o, fills, hins, -⟩
    · refine ⟨t, ht, rfl, ?_⟩
      rw [h.balance _ t ht (herases _), hpending, add_zero, heq]
    · exact absurd ⟨pc, hpc, o, fills, hins⟩ (hinserts n.order.id)

theorem consistent_initial : Consistent ∅ (Exchange.initial : Exchange τ) 0 := by
  have hbook : ∀ symbol, (Exchange.initial : Exchange τ).book symbol = OrderBook.new symbol := by
    intro symbol
    simp only [Exchange.initial, List.foldl_cons, List.foldl_nil, Exchange.book_getOrCreateBook]
    rfl
  have hindex : (Exchange.initial : Exchange τ).orderIndex = ∅ := rfl
  have hresting : ∀ symbol id, (Exchange.initial : Exchange τ).resting symbol id = 0 := by
    intro symbol id
    rw [Exchange.resting, hbook]
    rfl
  have herases : ∀ id, ¬Erases (0 : Multiset RequestPc) id := by
    rintro id ⟨pc, hpc, -⟩
    exact Multiset.notMem_zero pc hpc
  refine ⟨fun symbol ↦ ?_, by simp, by simp, by simp, Multiset.nodup_zero,
    fun symbol id hr ↦ absurd (hresting symbol id) hr, by simp, by simp,
    fun id he ↦ absurd he (herases id), by simp [hindex], by simp [hindex],
    by simp, fun symbol id hr ↦ absurd (hresting symbol id) hr⟩
  rw [hbook]
  exact OrderBook.wf_new symbol

/-- **The order index mirrors the books** whenever no request is in flight, in every run in which
no maker update meets an order whose tracker is still to be written. -/
theorem quiet_mirrors {es : List ServerEvent} {s : Server τ}
    (hguard : Guarded (Server.step (τ := τ)) MakersTracked Server.initial es)
    (hexec : exec Server.step Server.initial es = some s) (hquiet : s.Quiet) :
    s.shared.Mirrors := by
  obtain ⟨added, h⟩ := hguard.invariant
    (P := fun s : Server τ ↦ ∃ added, Consistent added s.shared s.threads)
    (fun s e s' h hg hstep ↦ consistent_step h hg hstep) ⟨∅, consistent_initial⟩ hexec
  exact mirrors_of_quiet h hquiet

/-! ## A run that leaves a ghost -/

/-- A limit order of 10 at 100, as a request body. -/
def sampleBody (side : String) : OrderBody :=
  ⟨none, some side, some "limit", some 10, some 100, none⟩

/-- Two orders that trade with each other, one after the other. -/
def servedInTurn : List ServerEvent :=
  [.start (.post (.ok (sampleBody "sell"))), .run 0 default, .run 0 default, .run 0 default,
    .run 0 default, .start (.post (.ok (sampleBody "buy"))), .run 1 default, .run 1 default,
    .run 1 default, .run 1 default, .run 1 default]

/-- The same two orders; the seller's tracker is written after the buyer has been served. -/
def overtaken : List ServerEvent :=
  [.start (.post (.ok (sampleBody "sell"))), .run 0 default, .run 0 default, .run 0 default,
    .start (.post (.ok (sampleBody "buy"))), .run 1 default, .run 1 default,
    .run 1 default, .run 1 default, .run 1 default, .run 0 default]

theorem quiet_mirrors_servedInTurn : ∃ s : Server ℤ,
    exec Server.step Server.initial servedInTurn = some s ∧ s.threads.length = 2 ∧
      s.shared.Mirrors := by
  have hrun : ((exec Server.step (Server.initial : Server ℤ) servedInTurn).any fun s ↦
      decide (s.threads.length = 2 ∧ s.Quiet)) = true := by decide +kernel
  obtain ⟨s, hs, h⟩ := (Option.any_eq_true _ _).mp hrun
  obtain ⟨hlength, hquiet⟩ := of_decide_eq_true h
  exact ⟨s, hs, hlength, quiet_mirrors (by decide +kernel) hs hquiet⟩

theorem overtaken_not_mirrors : ∃ s : Server ℤ,
    exec Server.step Server.initial overtaken = some s ∧ s.Quiet ∧ ¬s.shared.Mirrors := by
  have hrun : ((exec Server.step (Server.initial : Server ℤ) overtaken).any fun s ↦
      decide (s.Quiet ∧ (s.shared.orderIndex.lookup "ORD-AAPL-1").map OrderTracker.symbol
        = some "AAPL" ∧ (s.shared.book "AAPL").resting = [])) = true := by decide +kernel
  obtain ⟨s, hs, h⟩ := (Option.any_eq_true _ _).mp hrun
  obtain ⟨hquiet, hindex, hbook⟩ := of_decide_eq_true h
  refine ⟨s, hs, hquiet, fun hmirrors ↦ ?_⟩
  obtain ⟨t, ht, hsymbol⟩ := Option.map_eq_some_iff.mp hindex
  obtain ⟨b, n, hb, hn, -⟩ := hmirrors.1 _ t ht
  rw [hsymbol] at hb
  rw [Exchange.book, hb] at hbook
  rw [show b.resting = [] from hbook] at hn
  simp at hn

end BenchmarkPlatform
