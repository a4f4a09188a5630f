import BenchmarkPlatform.OrderBook.Invariant

/-!
# Conservation of quantity

Every unit of an accepted order is accounted for: traded in its own call, traded later as a maker,
removed by a cancel, dropped at the end of a market order's call, or still resting. The account is
kept over the recorded history of a run. Ids can be used again once an order has left the book, so
the entries that concern one accepted order are those of its *lifetime*: up to the next time an
order of that id is accepted.
-/

namespace BenchmarkPlatform

open Lib

variable {τ : Type}

/-! ## The entries of the ledger -/

/-- What rests under an id. -/
def OrderBook.restingQuantity (b : OrderBook τ) (id : String) : ℤ := weightOf id b.resting

/-- What fills took from the maker of an id. -/
def makerQuantity (id : String) (fills : List Fill) : ℤ :=
  ((fills.filter fun f ↦ f.makerOrderId = id).map Fill.quantity).sum

/-- One call of a history: the book it found, the call, its result, the book it left. -/
structure Event (τ : Type) where
  before : OrderBook τ
  call : Call
  result : CallResult
  after : OrderBook τ

namespace Event

def fills (e : Event τ) : List Fill :=
  match e.result with
  | .fills fs => fs
  | _ => []

/-- The call is an `add_order` that accepted an order under this id. -/
def accepts (e : Event τ) (id : String) : Bool :=
  match e.call, e.result with
  | .addOrder env ord, .fills _ => (ord.resolve env).id = id
  | _, _ => false

/-- What a successful cancel of the id removed. -/
def cancelled (e : Event τ) (id : String) : ℤ :=
  match e.call, e.result with
  | .cancelOrder orderId, .cancelled true =>
    if orderId = id then e.before.restingQuantity id else 0
  | _, _ => 0

end Event

variable [AddGroupWithOne τ]

/-- What a market order lost at the end of its own call. -/
def Event.dropped (e : Event τ) : ℤ :=
  match e.call with
  | .addOrder env ord =>
    if ord.type = .market then (e.before.matchTaker env (ord.resolve env)).2.taker.quantity else 0
  | .cancelOrder _ => 0

/-- Serve a call and record it. -/
def OrderBook.record (b : OrderBook τ) (c : Call) : OrderBook τ × Event τ :=
  ((b.call c).1, ⟨b, c, (b.call c).2, (b.call c).1⟩)

/-- The history of a sequence of calls from the empty book. -/
def history (τ : Type) [AddGroupWithOne τ] (symbol : String) (calls : List Call) : List (Event τ) :=
  (mealyRun OrderBook.record (OrderBook.new symbol) calls).2

/-- The events of a history that concern the order accepted under an id just before it. -/
def lifetime (id : String) (events : List (Event τ)) : List (Event τ) :=
  events.takeWhile fun e ↦ !e.accepts id

/-! ## One call -/

omit [AddGroupWithOne τ] in
theorem makerQuantity_fillsOf (env : CallEnv) (takerId : String) (i : ℕ) (id : String)
    (t : List (Node × ℤ)) : makerQuantity id (fillsOf env takerId i t) = takenOf id t := by
  induction t generalizing i with
  | nil => rfl
  | cons p t ih =>
    have hih := ih (i + 1)
    rw [makerQuantity] at hih
    rw [takenOf_cons, ← hih, makerQuantity, fillsOf, List.filter_cons]
    have hkey : Weighted.key p.1 = p.1.order.id := rfl
    by_cases hid : p.1.order.id = id <;> simp [hkey, hid]

theorem MatchSpec.restingQuantity {env : CallEnv} {b : OrderBook τ} {taker : Order}
    {r : OrderBook τ × MatchState} (spec : MatchSpec env b taker r) (id : String) :
    r.1.restingQuantity id = b.restingQuantity id - makerQuantity id r.2.fills := by
  rw [OrderBook.restingQuantity, weightOf_perm (r.1.resting_perm taker.side), weightOf_append,
    spec.nodes_own, spec.opposite, OrderBook.swept, weightOf_kept, OrderBook.restingQuantity,
    weightOf_perm (b.resting_perm taker.side), weightOf_append, spec.fills, makerQuantity_fillsOf,
    OrderBook.swept]
  omega

theorem RestSpec.restingQuantity {b b' : OrderBook τ} {ord : Order} (spec : RestSpec b ord b')
    (id : String) : b'.restingQuantity id
      = (if ord.id = id then ord.quantity else 0) + b.restingQuantity id := by
  rw [OrderBook.restingQuantity, weightOf_perm spec.perm_resting, weightOf_cons]
  rfl

omit [AddGroupWithOne τ] in
theorem OrderBook.restingQuantity_of_notMem {b : OrderBook τ} {id : String}
    (h : id ∉ b.resting.map fun n ↦ n.order.id) : b.restingQuantity id = 0 := by
  have hnone : b.resting.filter (fun n ↦ Weighted.key n = id) = [] :=
    List.filter_eq_nil_iff.mpr fun n hn heq ↦
      h (List.mem_map.mpr ⟨n, hn, of_decide_eq_true heq⟩)
  rw [OrderBook.restingQuantity, weightOf, hnone]
  rfl

theorem CancelSpec.restingQuantity {b b' : OrderBook τ} {n : Node} (spec : CancelSpec b n b')
    (id : String) : b'.restingQuantity id
      = if n.order.id = id then 0 else b.restingQuantity id := by
  have hresting := OrderBook.resting_filter spec.nodes
  split_ifs with hid
  · refine OrderBook.restingQuantity_of_notMem fun hmem ↦ ?_
    obtain ⟨m, hm, heq⟩ := List.mem_map.mp hmem
    rw [hresting, List.mem_filter, decide_eq_true_eq] at hm
    exact hm.2 (heq.trans hid.symm)
  · rw [OrderBook.restingQuantity, hresting, OrderBook.restingQuantity, weightOf, weightOf,
      List.filter_filter]
    refine congrArg (fun l : List Node ↦ (l.map Weighted.weight).sum)
      (List.filter_congr fun m _ ↦ ?_)
    by_cases hm : m.order.id = id
    · simp [show Weighted.key m = id from hm, hm, Ne.symm hid]
    · simp [show ¬Weighted.key m = id from hm]

/-- What an accepted order leaves resting: its remainder under its own id, and under any other what
was there less what the fills took. -/
theorem accept_restingQuantity {b : OrderBook τ} (h : b.WF) (env : CallEnv) {ord : Order}
    (hq : 0 < ord.quantity) (id : String) : (b.accept env ord).restingQuantity id
      = (if ord.id = id ∧ ord.type = .limit then (b.swept ord).left else 0)
        + b.restingQuantity id - makerQuantity id (b.matchTaker env ord).2.fills := by
  have spec := matchTaker_spec h env ord
  have hleft : 0 ≤ (b.swept ord).left := left_nonneg hq.le
  rw [OrderBook.accept]
  rw [spec.taker]
  by_cases hrest : 0 < (b.swept ord).left ∧ ord.type = .limit
  · rw [if_pos hrest, (rest_spec _ _).restingQuantity, spec.restingQuantity]
    by_cases hid : ord.id = id
    · rw [if_pos hid, if_pos ⟨hid, hrest.2⟩]
      dsimp only
      omega
    · rw [if_neg hid, if_neg fun h ↦ hid h.1]
      omega
  · rw [if_neg hrest, spec.restingQuantity]
    by_cases hid : ord.id = id ∧ ord.type = .limit
    · rw [if_pos hid]
      have hzero : ¬0 < (b.swept ord).left := fun hpos ↦ hrest ⟨hpos, hid.2⟩
      omega
    · rw [if_neg hid]
      omega

/-- No fill of an accepted order names that order's own id as its maker. -/
theorem makerQuantity_self {b : OrderBook τ} (h : b.WF) (env : CallEnv) {ord : Order}
    (hnew : b.orders.lookup ord.id = none) :
    makerQuantity ord.id (b.matchTaker env ord).2.fills = 0 := by
  rw [(matchTaker_spec h env ord).fills, makerQuantity_fillsOf, takenOf, List.filter_eq_nil_iff.mpr]
  · rfl
  intro p hp hid
  have hmem := (mem_and_ok_of_mem_taken hp).1
  have hsome := (h.lookup_isSome_iff ord.id).mpr (List.mem_map.mpr
    ⟨p.1, OrderBook.mem_resting.mpr ⟨_, hmem⟩, of_decide_eq_true hid⟩)
  rw [hnew] at hsome
  simp at hsome

/-- What the fills of a match took from the taker. -/
theorem sum_fills {b : OrderBook τ} (h : b.WF) (env : CallEnv) (ord : Order) :
    (((b.matchTaker env ord).2.fills.map Fill.quantity).sum : ℤ)
      = ord.quantity - (b.swept ord).left := by
  have hsum : (b.swept ord).left + ((b.swept ord).taken.map Prod.snd).sum = ord.quantity :=
    left_add_sum_taken
  have hmap : (b.matchTaker env ord).2.fills.map Fill.quantity
      = (b.swept ord).taken.map Prod.snd := by
    rw [(matchTaker_spec h env ord).fills]
    exact map_fillsOf _ _ env ord.id (fun _ _ _ ↦ rfl) 0 _
  rw [hmap]
  omega

/-- **The entries of the call that accepts an order** balance. -/
theorem record_of_accepts {b : OrderBook τ} (h : b.WF) {env : CallEnv} {ord : Order}
    {fs : List Fill} (hres : (b.call (.addOrder env ord)).2 = .fills fs) :
    b.restingQuantity (ord.resolve env).id = 0 ∧
      ord.quantity = (fs.map Fill.quantity).sum
        + (b.call (.addOrder env ord)).1.restingQuantity (ord.resolve env).id
        + (b.record (.addOrder env ord)).2.dropped := by
  have hquantity : (ord.resolve env).quantity = ord.quantity := by rw [ord.resolve_eq env]
  have htype : (ord.resolve env).type = ord.type := by rw [ord.resolve_eq env]
  rw [OrderBook.record, Event.dropped]
  dsimp only
  rw [OrderBook.call] at hres ⊢
  rcases b.addOrder_cases env ord with ⟨message, hthrow, -⟩ | ⟨hadm, hok⟩
  · rw [hthrow] at hres
    simp at hres
  · rw [hok] at hres ⊢
    have hfs : fs = (b.matchTaker env (ord.resolve env)).2.fills := by simpa using hres.symm
    have hnone : b.restingQuantity (ord.resolve env).id = 0 := by
      refine OrderBook.restingQuantity_of_notMem ?_
      rw [← h.lookup_isSome_iff, hadm.2.2]
      simp
    refine ⟨hnone, ?_⟩
    dsimp only
    rw [accept_restingQuantity h env hadm.1, hnone, makerQuantity_self h env hadm.2.2, hfs,
      sum_fills h, (matchTaker_spec h env _).taker, hquantity, htype]
    cases ord.type <;> simp

/-- **The entries of any other call** balance. -/
theorem record_of_not_accepts {b : OrderBook τ} (h : b.WF) {c : Call} {id : String}
    (hacc : (b.record c).2.accepts id = false) : b.restingQuantity id
      = makerQuantity id (b.record c).2.fills + (b.record c).2.cancelled id
        + (b.call c).1.restingQuantity id := by
  rw [OrderBook.record] at hacc ⊢
  cases c with
  | addOrder env ord =>
    rw [Event.accepts] at hacc
    rw [Event.fills, Event.cancelled]
    dsimp only at hacc ⊢
    rw [OrderBook.call] at hacc ⊢
    rcases b.addOrder_cases env ord with ⟨message, hthrow, -⟩ | ⟨hadm, hok⟩
    · rw [hthrow]
      simp [makerQuantity]
    · rw [hok] at hacc ⊢
      have hid : (ord.resolve env).id ≠ id := by simpa using hacc
      dsimp only
      rw [accept_restingQuantity h env hadm.1, if_neg fun h ↦ hid h.1]
      omega
  | cancelOrder orderId =>
    rw [Event.fills, Event.cancelled]
    dsimp only
    rw [OrderBook.call]
    rcases cancelOrder_spec h orderId with ⟨-, hnone⟩ | ⟨n, -, rfl, htrue, spec⟩
    · rw [hnone]
      simp [makerQuantity]
    · rw [htrue, spec.restingQuantity]
      dsimp only
      split_ifs <;> simp [makerQuantity]

/-! ## One lifetime -/

/-- **A lifetime balances.** What rests under an id is, over the calls to come, taken by fills that
name it as maker, cancelled, or still there at the end; it is all gone if the id is accepted
again. -/
theorem lifetime_balance {b : OrderBook τ} (h : b.WF) (calls : List Call) (id : String) :
    b.restingQuantity id
      = makerQuantity id
          ((lifetime id (mealyRun OrderBook.record b calls).2).flatMap Event.fills)
        + ((lifetime id (mealyRun OrderBook.record b calls).2).map fun e ↦ e.cancelled id).sum
        + if (mealyRun OrderBook.record b calls).2.any (fun e ↦ e.accepts id) then 0
          else (mealyRun OrderBook.record b calls).1.restingQuantity id := by
  induction calls generalizing b with
  | nil => simp [lifetime, makerQuantity]
  | cons c calls ih =>
    have hih := ih (call_wf h c)
    rw [mealyRun_cons, lifetime, List.any_cons]
    rw [lifetime] at hih
    by_cases hacc : (b.record c).2.accepts id = true
    · -- the id is accepted, so nothing rests under it
      rw [List.takeWhile_cons_of_neg (by simp [hacc]), hacc]
      cases c with
      | cancelOrder orderId => simp [OrderBook.record, Event.accepts] at hacc
      | addOrder env ord =>
        cases hres : (b.call (.addOrder env ord)).2 with
        | fills fs =>
          have hid : (ord.resolve env).id = id := by
            simpa [OrderBook.record, Event.accepts, hres] using hacc
          have hzero := (record_of_accepts h hres).1
          rw [hid] at hzero
          simpa [makerQuantity] using hzero
        | threw message => simp [OrderBook.record, Event.accepts, hres] at hacc
        | cancelled found => simp [OrderBook.record, Event.accepts, hres] at hacc
    · have hacc : (b.record c).2.accepts id = false := by simpa using hacc
      rw [List.takeWhile_cons_of_pos (by simp [hacc]), hacc, Bool.false_or,
        record_of_not_accepts h hacc, List.flatMap_cons, List.map_cons, List.sum_cons]
      have happend : ∀ fs gs : List Fill, makerQuantity id (fs ++ gs)
          = makerQuantity id fs + makerQuantity id gs := by
        intro fs gs
        simp [makerQuantity]
      rw [happend, show (b.call c).1.restingQuantity id = _ from hih]
      have hnext : (b.record c).1 = (b.call c).1 := rfl
      rw [hnext]
      ring

/-! ## Makers -/

/-- The fills of a call are those of a match of the order added, or there are none. -/
theorem fills_record (b : OrderBook τ) (c : Call) : (b.record c).2.fills = [] ∨
    ∃ env ord, c = .addOrder env ord ∧
      (b.record c).2.fills = (b.matchTaker env (ord.resolve env)).2.fills := by
  cases c with
  | addOrder env ord =>
    rw [OrderBook.record, Event.fills, OrderBook.call]
    rcases b.addOrder_cases env ord with ⟨message, hthrow, -⟩ | ⟨-, hok⟩
    · rw [hthrow]
      exact Or.inl rfl
    · rw [hok]
      exact Or.inr ⟨env, ord, rfl, rfl⟩
  | cancelOrder id => exact Or.inl rfl

/-- At each fill of a match the maker rests, and what the earlier fills of the match left of it
covers the fill. -/
theorem maker_rests {b : OrderBook τ} (h : b.WF) (env : CallEnv) (taker : Order)
    {fs gs : List Fill} {f : Fill}
    (hsplit : (b.matchTaker env taker).2.fills = fs ++ f :: gs) :
    f.takerOrderId = taker.id ∧ 0 < f.quantity ∧ ∃ n ∈ b.resting,
      n.order.id = f.makerOrderId ∧
        makerQuantity n.order.id fs + f.quantity ≤ n.order.quantity := by
  rw [(matchTaker_spec h env taker).fills] at hsplit
  obtain ⟨t, p, u, htaken, rfl, hmaker, htaker, hquantity⟩ := exists_of_fillsOf_eq hsplit
  have hp : p ∈ (b.swept taker).taken := by
    rw [htaken]
    exact List.mem_append_right t List.mem_cons_self
  have hbounds : 0 < p.2 ∧ p.2 ≤ p.1.order.quantity := taken_bounds h.weight_pos p hp
  refine ⟨htaker, hquantity ▸ hbounds.1, p.1,
    OrderBook.mem_resting.mpr ⟨_, (mem_and_ok_of_mem_taken hp).1⟩, hmaker.symm, ?_⟩
  -- a sweep meets each maker once, so no earlier fill touched this one
  have hids : ((b.swept taker).taken.map fun p ↦ p.1.order.id).Nodup := by
    have hsub : ((b.swept taker).taken.map Prod.fst).Sublist (b.nodes taker.side.opposite) :=
      taken_sublist.trans List.filter_sublist
    have hids := hsub.map fun n ↦ n.order.id
    rw [List.map_map] at hids
    exact (h.nodup_ids_side taker.side.opposite).sublist hids
  rw [htaken, List.map_append, List.map_cons, List.nodup_append] at hids
  have hnone : t.filter (fun p' ↦ Weighted.key p'.1 = p.1.order.id) = [] := by
    refine List.filter_eq_nil_iff.mpr fun p' hp' heq ↦ ?_
    exact hids.2.2 _ (List.mem_map_of_mem hp') _ List.mem_cons_self (of_decide_eq_true heq)
  rw [makerQuantity_fillsOf, takenOf, hnone, hquantity]
  simpa using hbounds.2

/-! ## The two calls, by order id -/

theorem OrderBook.WF.restingQuantity_eq {b : OrderBook τ} (h : b.WF) {n : Node}
    (hn : n ∈ b.resting) : b.restingQuantity n.order.id = n.order.quantity := by
  obtain ⟨l, r, hsplit⟩ := List.append_of_mem hn
  have hids := h.ids
  rw [hsplit, List.map_append, List.map_cons, List.nodup_append, List.nodup_cons] at hids
  have hl : weightOf n.order.id l = 0 := by
    rw [weightOf, List.filter_eq_nil_iff.mpr fun m hm heq ↦ ?_]
    · rfl
    · exact hids.2.2 _ (List.mem_map_of_mem hm) _ List.mem_cons_self (of_decide_eq_true heq)
  have hr : weightOf n.order.id r = 0 := by
    rw [weightOf, List.filter_eq_nil_iff.mpr fun m hm heq ↦ ?_]
    · rfl
    · exact hids.2.1.1 (List.mem_map.mpr ⟨m, hm, of_decide_eq_true heq⟩)
  rw [OrderBook.restingQuantity, hsplit, weightOf_append, weightOf_cons, hl, hr]
  simp [Weighted.key, Weighted.weight]

/-- An order rests exactly when something rests under its id, and then a positive quantity does. -/
theorem OrderBook.WF.restingQuantity_cases {b : OrderBook τ} (h : b.WF) (id : String) :
    id ∉ b.resting.map (fun n ↦ n.order.id) ∧ b.restingQuantity id = 0 ∨
      ∃ n ∈ b.resting, n.order.id = id ∧ b.restingQuantity id = n.order.quantity ∧
        0 < n.order.quantity := by
  by_cases hmem : id ∈ b.resting.map fun n ↦ n.order.id
  · obtain ⟨n, hn, rfl⟩ := List.mem_map.mp hmem
    obtain ⟨s, hs⟩ := OrderBook.mem_resting.mp hn
    exact Or.inr ⟨n, hn, rfl, h.restingQuantity_eq hn, (h.of_mem_nodes hs).2.1⟩
  · exact Or.inl ⟨hmem, OrderBook.restingQuantity_of_notMem hmem⟩

/-- What an accepted order with an id of its own does to the quantities resting under each id. -/
theorem addOrder_restingQuantity {b b' : OrderBook τ} (h : b.WF) {env : CallEnv} {ord : Order}
    {fills : List Fill} (hid : ord.id ≠ "") (hok : b.addOrder env ord = .ok (fills, b')) :
    b'.WF ∧ 0 ≤ ord.quantity - (fills.map Fill.quantity).sum ∧
      (∀ f ∈ fills, 0 < f.quantity ∧ b.restingQuantity f.makerOrderId ≠ 0) ∧
      ∀ id, b'.restingQuantity id
        = (if ord.id = id ∧ ord.type = .limit then ord.quantity - (fills.map Fill.quantity).sum
            else 0) + b.restingQuantity id - makerQuantity id fills := by
  have hid' : (ord.resolve env).id = ord.id := Order.resolve_of_id_ne hid
  have htype : (ord.resolve env).type = ord.type := by rw [ord.resolve_eq env]
  have hquantity : (ord.resolve env).quantity = ord.quantity := by rw [ord.resolve_eq env]
  rcases b.addOrder_cases env ord with ⟨message, hthrow, -⟩ | ⟨hadm, hok'⟩
  · rw [hthrow] at hok
    simp at hok
  · rw [hok', Except.ok.injEq, Prod.mk.injEq] at hok
    obtain ⟨rfl, rfl⟩ := hok
    have hsum := sum_fills h env (ord.resolve env)
    have hleft : 0 ≤ (b.swept (ord.resolve env)).left := left_nonneg hadm.1.le
    refine ⟨accept_wf h hadm, by omega, fun f hf ↦ ?_, fun id ↦ ?_⟩
    · obtain ⟨fs, gs, hsplit⟩ := List.append_of_mem hf
      obtain ⟨-, hpos, n, hn, hmaker, -⟩ := maker_rests h env _ hsplit
      obtain ⟨s, hs⟩ := OrderBook.mem_resting.mp hn
      have hweight := (h.of_mem_nodes hs).2.1
      rw [← hmaker, h.restingQuantity_eq hn]
      exact ⟨hpos, hweight.ne'⟩
    · rw [accept_restingQuantity h env hadm.1, hid', htype, hsum, hquantity]
      split_ifs <;> omega

/-- What a cancel does to the quantities resting under each id. -/
theorem cancelOrder_restingQuantity {b b' : OrderBook τ} (h : b.WF) {id : String}
    (hcancel : b.cancelOrder id = (true, b')) : b'.WF ∧ b.restingQuantity id ≠ 0 ∧
      ∀ id', b'.restingQuantity id' = if id = id' then 0 else b.restingQuantity id' := by
  rcases cancelOrder_spec h id with ⟨-, hnone⟩ | ⟨n, hn, rfl, -, spec⟩
  · rw [hnone] at hcancel
    simp at hcancel
  · rw [hcancel] at spec
    obtain ⟨s, hs⟩ := OrderBook.mem_resting.mp hn
    have hweight := (h.of_mem_nodes hs).2.1
    exact ⟨spec.wf h, by rw [h.restingQuantity_eq hn]; exact hweight.ne',
      fun id' ↦ spec.restingQuantity id'⟩

/-! ## Runs -/

/-- Recording does not disturb a run. -/
theorem OrderBook.run_eq_record (symbol : String) (calls : List Call) :
    OrderBook.run symbol calls
      = (mealyRun OrderBook.record (OrderBook.new symbol : OrderBook τ) calls).1 := by
  rw [OrderBook.run]
  generalize (OrderBook.new symbol : OrderBook τ) = b
  induction calls generalizing b with
  | nil => rfl
  | cons c calls ih => exact ih _

theorem record_run_wf (symbol : String) (calls : List Call) :
    (mealyRun OrderBook.record (OrderBook.new symbol : OrderBook τ) calls).1.WF := by
  rw [← OrderBook.run_eq_record]
  exact run_wf symbol calls

/-- **Quantity is conserved** over every history. An accepted order's quantity is what its own
fills took, what later fills took from it as a maker, what a cancel removed, what its call dropped
of a market order, and what still rests of it. Every fill is positive, is taken by the order of its
call, and comes out of a resting maker. -/
theorem history_conserves (symbol : String) (calls : List Call) :
    (∀ past e future env ord fs, history τ symbol calls = past ++ e :: future →
      e.call = .addOrder env ord → e.result = .fills fs →
      ord.quantity = (fs.map Fill.quantity).sum
        + makerQuantity (ord.resolve env).id
            ((lifetime (ord.resolve env).id future).flatMap Event.fills)
        + (if future.any (fun e ↦ e.accepts (ord.resolve env).id) then 0
            else (OrderBook.run symbol calls : OrderBook τ).restingQuantity (ord.resolve env).id)
        + ((lifetime (ord.resolve env).id future).map fun e ↦
            e.cancelled (ord.resolve env).id).sum
        + e.dropped) ∧
    ∀ e ∈ history τ symbol calls, ∀ fs f gs, e.fills = fs ++ f :: gs →
      0 < f.quantity ∧ (∃ env ord, e.call = .addOrder env ord ∧
        f.takerOrderId = (ord.resolve env).id) ∧
      ∃ n ∈ e.before.resting, n.order.id = f.makerOrderId ∧
        makerQuantity n.order.id fs + f.quantity ≤ n.order.quantity := by
  constructor
  · intro past e future env ord fs hsplit hcall hres
    obtain ⟨cs, c, cs', rfl, -, rfl, rfl⟩ := exists_of_mealyRun_eq hsplit
    have hcall : c = .addOrder env ord := hcall
    subst hcall
    have hwf := record_run_wf (τ := τ) symbol cs
    obtain ⟨-, hbalance⟩ := record_of_accepts hwf hres
    rw [hbalance, lifetime_balance (call_wf hwf _) cs' (ord.resolve env).id,
      OrderBook.run_eq_record, mealyRun_append, mealyRun_cons]
    have hnext : ∀ b : OrderBook τ, ∀ c, (b.record c).1 = (b.call c).1 := fun _ _ ↦ rfl
    rw [hnext]
    ring
  · intro e he fs f gs hsplit
    obtain ⟨past, future, hhist⟩ := List.append_of_mem he
    obtain ⟨cs, c, cs', rfl, -, rfl, rfl⟩ := exists_of_mealyRun_eq hhist
    have hwf := record_run_wf (τ := τ) symbol cs
    rcases fills_record (mealyRun OrderBook.record (OrderBook.new symbol : OrderBook τ) cs).1 c with
      hnil | ⟨env, ord, rfl, hfills⟩
    · rw [hnil] at hsplit
      simp at hsplit
    · rw [hfills] at hsplit
      obtain ⟨htaker, hpos, hmaker⟩ := maker_rests hwf env _ hsplit
      exact ⟨hpos, ⟨env, ord, rfl, htaker⟩, hmaker⟩

end BenchmarkPlatform
