import BenchmarkPlatform.Exchange.Serve

/-!
# What a report says of its order

In every interleaving of requests the books are well formed, and what rests in them has had its
number drawn. This does not depend on the index, so it holds of the runs that leave a ghost there
as well. It is enough to compute what a POST answers and where it leaves its order: the fills are
a sweep of the opposite side as far as the order reaches, and the remainder of a limit order rests.

The status of the report is computed from the remainder alone. For a limit order it says where the
order is. The remainder of a market order rests nowhere, and is reported as if it did.
-/

namespace BenchmarkPlatform

open Lib RequestPc

variable {τ : Type}

/-! ## Orders and what they reach -/

/-- A maker price at which the order trades. -/
def NewOrder.reaches (o : NewOrder) (price : ℤ) : Bool :=
  !(o.type = .limit && tooFar o.side price o.price)

namespace Exchange

/-- The id `next_order_id` draws next. -/
def drawnId (x : Exchange τ) (symbol : String) : String :=
  nextOrderId symbol (x.orderCounter + 1)

/-- What rests on a side of the book of a symbol, in total. -/
def available (x : Exchange τ) (symbol : String) (side : Side) : ℤ :=
  (((x.book symbol).nodes side).map fun n ↦ n.order.quantity).sum

/-- The sweep of the opposite side by an order. -/
def sweptBy (x : Exchange τ) (o : NewOrder) : Sweep Node :=
  sweep (fun n ↦ o.reaches n.order.price) o.quantity
    ((x.book o.symbol).nodes o.side.opposite)

variable [AddGroupWithOne τ]

/-- The fills of a POST. -/
def postFills (x : Exchange τ) (env : CallEnv) (o : NewOrder) : List Fill :=
  match (x.book o.symbol).addOrder env (o.toOrder (x.drawnId o.symbol) (env.now 0)) with
  | .error _ => []
  | .ok (fills, _) => fills

/-- The books are well formed, and every order in them was given its number. -/
structure Sound (x : Exchange τ) : Prop where
  wf : ∀ symbol, (x.book symbol).WF
  rested : ∀ symbol id, x.resting symbol id ≠ 0 → x.Issued id

end Exchange

/-! ## Soundness in every interleaving -/

variable [AddGroupWithOne τ] {x x' : Exchange τ}

namespace Exchange.Sound

theorem congr (h : x.Sound) (hbook : ∀ symbol, x'.book symbol = x.book symbol)
    (hcounter : x.orderCounter ≤ x'.orderCounter) : x'.Sound where
  wf symbol := by
    rw [hbook]
    exact h.wf symbol
  rested symbol id hr := by
    rw [Exchange.resting, hbook] at hr
    exact (h.rested symbol id hr).mono hcounter

theorem insert (h : x.Sound) (symbol : String) {b : OrderBook τ} (hwf : b.WF)
    (hrested : ∀ id, b.restingQuantity id ≠ 0 → x.Issued id) :
    Exchange.Sound { x with orderbooks := x.orderbooks.insert symbol b } where
  wf symbol' := by
    rw [Exchange.book_insert]
    split_ifs
    · exact hwf
    · exact h.wf symbol'
  rested symbol' id hr := by
    rw [Exchange.resting_insert] at hr
    split_ifs at hr
    · exact hrested id hr
    · exact h.rested symbol' id hr

theorem addOrder (h : x.Sound) {env : CallEnv} {o : NewOrder} {id : String} {now : TimePoint}
    {fills : List Fill} {b : OrderBook τ} (hissued : x.Issued id)
    (hok : (x.book o.symbol).addOrder env (o.toOrder id now) = .ok (fills, b)) :
    Exchange.Sound { x with orderbooks := x.orderbooks.insert o.symbol b } := by
  obtain ⟨hwf, -, hmakers, hquantity⟩ :=
    addOrder_restingQuantity (h.wf o.symbol) hissued.ne_empty hok
  refine h.insert o.symbol hwf fun m hm ↦ ?_
  -- the order itself, or one that rested before
  by_cases hid : m = id
  · exact hid ▸ hissued
  · refine h.rested o.symbol m fun hzero ↦ hm ?_
    have hnone : makerQuantity m fills = 0 := makerQuantity_of_forall_ne fun f hf heq ↦
      (hmakers f hf).2 (heq ▸ hzero)
    rw [hquantity, if_neg fun hc ↦ hid hc.1.symm, hnone,
      show (x.book o.symbol).restingQuantity m = 0 from hzero]
    rfl

theorem cancelOrder (h : x.Sound) {symbol id : String} {b : OrderBook τ}
    (hcancel : (x.book symbol).cancelOrder id = (true, b)) :
    Exchange.Sound { x with orderbooks := x.orderbooks.insert symbol b } := by
  obtain ⟨hwf, -, hquantity⟩ := cancelOrder_restingQuantity (h.wf symbol) hcancel
  refine h.insert symbol hwf fun m hm ↦ h.rested symbol m fun hzero ↦ hm ?_
  rw [hquantity]
  split_ifs
  · rfl
  · exact hzero

end Exchange.Sound

theorem Exchange.sound_initial : (Exchange.initial : Exchange τ).Sound where
  wf := consistent_initial.wf
  rested symbol id hr := absurd (consistent_initial.rested symbol id hr) (Finset.notMem_empty id)

omit [AddGroupWithOne τ] in
theorem Exchange.orderCounter_updateMaker (x : Exchange τ) (f : Fill) :
    (x.updateMaker f).orderCounter = x.orderCounter := by
  rw [updateMaker]
  split <;> rfl

/-- One step of one request: the exchange stays sound, and a number the request holds was drawn. -/
theorem Exchange.Sound.advance (h : x.Sound) {env : CallEnv} {pc pc' : RequestPc}
    (hdrawn : ∀ id, pc.postId = some id → x.Issued id)
    (hadvance : x.advance env pc = some (x', pc')) :
    x'.Sound ∧ x.orderCounter ≤ x'.orderCounter ∧
      ∀ id, pc'.postId = some id → x'.Issued id := by
  cases pc with
  | postBook o =>
    simp only [Exchange.advance, Option.some.injEq, Prod.mk.injEq] at hadvance
    obtain ⟨rfl, rfl⟩ := hadvance
    exact ⟨h.congr (x.book_getOrCreateBook o.symbol) le_rfl, le_rfl, by simp [postId]⟩
  | postNumber o =>
    simp only [Exchange.advance, Option.some.injEq, Prod.mk.injEq] at hadvance
    obtain ⟨rfl, rfl⟩ := hadvance
    refine ⟨h.congr (fun _ ↦ rfl) (Nat.le_succ _), Nat.le_succ _, fun id hid ↦ ?_⟩
    rw [← Option.some_inj.mp hid]
    exact ⟨o.symbol, _, le_rfl, rfl⟩
  | postAdd o id =>
    rw [Exchange.advance] at hadvance
    split at hadvance
    · simp only [Option.some.injEq, Prod.mk.injEq] at hadvance
      obtain ⟨rfl, rfl⟩ := hadvance
      exact ⟨h, le_rfl, by simp [postId]⟩
    · rename_i fills b hok
      simp only [Option.some.injEq, Prod.mk.injEq] at hadvance
      obtain ⟨rfl, rfl⟩ := hadvance
      exact ⟨h.addOrder (hdrawn id rfl) hok, le_rfl, hdrawn⟩
  | postMakers o id fills todo =>
    cases todo with
    | cons f todo =>
      simp only [Exchange.advance, Option.some.injEq, Prod.mk.injEq] at hadvance
      obtain ⟨rfl, rfl⟩ := hadvance
      have hcounter := (x.orderCounter_updateMaker f).ge
      exact ⟨h.congr (x.book_updateMaker f) hcounter, hcounter,
        fun m hm ↦ (hdrawn m hm).mono hcounter⟩
    | nil =>
      simp only [Exchange.advance, Option.some.injEq, Prod.mk.injEq] at hadvance
      obtain ⟨rfl, rfl⟩ := hadvance
      split_ifs
      · exact ⟨h.congr (fun _ ↦ rfl) le_rfl, le_rfl, by simp [postId]⟩
      · exact ⟨h, le_rfl, by simp [postId]⟩
  | deleteLookup id =>
    rw [Exchange.advance] at hadvance
    split at hadvance
    all_goals
      simp only [Option.some.injEq, Prod.mk.injEq] at hadvance
      obtain ⟨rfl, rfl⟩ := hadvance
      exact ⟨h, le_rfl, by simp [postId]⟩
  | deleteBook id t =>
    simp only [Exchange.advance, Option.some.injEq, Prod.mk.injEq] at hadvance
    obtain ⟨rfl, rfl⟩ := hadvance
    exact ⟨h.congr (x.book_getOrCreateBook t.symbol) le_rfl, le_rfl, by simp [postId]⟩
  | deleteCancel id t =>
    rw [Exchange.advance] at hadvance
    split at hadvance
    · simp only [Option.some.injEq, Prod.mk.injEq] at hadvance
      obtain ⟨rfl, rfl⟩ := hadvance
      exact ⟨h, le_rfl, by simp [postId]⟩
    · rename_i b hcancel
      simp only [Option.some.injEq, Prod.mk.injEq] at hadvance
      obtain ⟨rfl, rfl⟩ := hadvance
      exact ⟨h.cancelOrder hcancel, le_rfl, by simp [postId]⟩
  | deleteErase id t =>
    simp only [Exchange.advance, Option.some.injEq, Prod.mk.injEq] at hadvance
    obtain ⟨rfl, rfl⟩ := hadvance
    exact ⟨h.congr (fun _ ↦ rfl) le_rfl, le_rfl, by simp [postId]⟩
  | done response => simp [Exchange.advance] at hadvance

/-- The exchange is sound, and every number a request holds was drawn. -/
structure Server.Sound (s : Server τ) : Prop where
  shared : s.shared.Sound
  drawn : ∀ pc ∈ s.threads, ∀ id, pc.postId = some id → s.shared.Issued id

theorem Server.Sound.next {s s' : Server τ} {e : ServerEvent} (h : s.Sound)
    (hstep : Server.step s e = some s') : s'.Sound := by
  cases e with
  | start request =>
    simp only [Server.step, Pool.next, Option.some.injEq] at hstep
    subst hstep
    refine ⟨h.shared, Pool.forall_start h.drawn fun id hid ↦ ?_⟩
    cases request with
    | delete orderId => simp [Request.entry, postId] at hid
    | post body =>
      cases body with
      | error what => simp [Request.entry, postId] at hid
      | ok body =>
        rw [Request.entry] at hid
        split at hid <;> simp [postId] at hid
  | run i env =>
    obtain ⟨l, pc, r, x', pc', hsplit, -, hadvance, rfl⟩ := Pool.next_run hstep
    have hdrawn := h.drawn
    rw [hsplit] at hdrawn
    obtain ⟨hsound, hcounter, hdrawn'⟩ := h.shared.advance
      (hdrawn pc (List.mem_append_right _ List.mem_cons_self)) hadvance
    exact ⟨hsound, Pool.forall_run hdrawn (fun q hq id hid ↦ (hq id hid).mono hcounter) hdrawn'⟩

/-- **Soundness in every interleaving.** -/
theorem Server.sound_of_exec {es : List ServerEvent} {s : Server τ}
    (hexec : exec Server.step Server.initial es = some s) : s.Sound :=
  exec_invariant (P := Server.Sound) (fun _ _ _ h hstep ↦ h.next hstep)
    ⟨Exchange.sound_initial, by simp [Server.initial]⟩ hexec

/-! ## What a POST does -/

omit [AddGroupWithOne τ] in
/-- The resolved order trades where the request reaches: the handler names no account. -/
theorem NewOrder.eligible_resolve (o : NewOrder) (env : CallEnv) (id : String) (now : TimePoint)
    (maker : Order) : eligible ((o.toOrder id now).resolve env) maker = o.reaches maker.price := by
  have hsame : sameAccount ((o.toOrder id now).resolve env) maker = false := by
    rw [Order.resolve_eq]
    simp [NewOrder.toOrder, sameAccount]
  rw [eligible, hsame, Bool.not_false, Bool.and_true, Order.resolve_eq]
  rfl

omit [AddGroupWithOne τ] in
theorem Exchange.book_foldl_updateMaker (fills : List Fill) (x : Exchange τ) (symbol : String) :
    (fills.foldl Exchange.updateMaker x).book symbol = x.book symbol := by
  induction fills generalizing x with
  | nil => rfl
  | cons f fills ih => rw [List.foldl_cons, ih, book_updateMaker]

namespace Exchange.Sound

variable {o : NewOrder}

/-- Nothing rests yet under the id drawn next. -/
theorem resting_drawnId (h : x.Sound) (symbol symbol' : String) :
    x.resting symbol' (x.drawnId symbol) = 0 := by
  by_contra hr
  exact x.not_issued_next symbol (h.rested symbol' _ hr)

/-- An admitted order is accepted, and its fills are those of the sweep. -/
theorem addOrder_drawnId (h : x.Sound) (hcheck : o.check = .ok ()) (env : CallEnv) :
    x.postFills env o = fillsOf env (x.drawnId o.symbol) 0 (x.sweptBy o).taken ∧
      ∃ b, (x.book o.symbol).addOrder env (o.toOrder (x.drawnId o.symbol) (env.now 0))
        = .ok (x.postFills env o, b) := by
  have hne : x.drawnId o.symbol ≠ "" := nextOrderId_ne_empty o.symbol _
  have hadmits := NewOrder.admits hcheck hne ((h.wf o.symbol).lookup_eq_none
    (h.resting_drawnId o.symbol o.symbol)) env (env.now 0)
  rcases OrderBook.addOrder_cases env (x.book o.symbol)
    (o.toOrder (x.drawnId o.symbol) (env.now 0)) with ⟨-, -, hnot⟩ | ⟨-, hok⟩
  · exact absurd hadmits hnot
  · have hfills : x.postFills env o = ((x.book o.symbol).matchTaker env
        ((o.toOrder (x.drawnId o.symbol) (env.now 0)).resolve env)).2.fills := by
      rw [Exchange.postFills, hok]
    refine ⟨?_, _, hfills ▸ hok⟩
    have hid : ((o.toOrder (x.drawnId o.symbol) (env.now 0)).resolve env).id
        = x.drawnId o.symbol := Order.resolve_of_id_ne hne
    have hswept : (x.book o.symbol).swept
        ((o.toOrder (x.drawnId o.symbol) (env.now 0)).resolve env) = x.sweptBy o := by
      rw [OrderBook.swept, Exchange.sweptBy]
      simp only [NewOrder.eligible_resolve]
      rw [Order.resolve_eq]
      rfl
    rw [hfills, (matchTaker_spec (h.wf o.symbol) env _).fills, hid, hswept]

/-- **What a POST does**: no branch of the handler is left open. -/
theorem servePost_eq (h : x.Sound) (hcheck : o.check = .ok ()) (env : CallEnv)
    (reply : TimePoint) :
    ∃ b y, (x.book o.symbol).addOrder env (o.toOrder (x.drawnId o.symbol) (env.now 0))
          = .ok (x.postFills env o, b) ∧
      y = (x.postFills env o).foldl Exchange.updateMaker { x.drawNumber o.symbol with
        orderbooks := (x.drawNumber o.symbol).orderbooks.insert o.symbol b } ∧
      x.servePost env reply o = (if o.Tracked (x.postFills env o) then
          { y with orderIndex :=
              y.orderIndex.insert (x.drawnId o.symbol) (o.tracker (x.postFills env o)) }
        else y, ⟨200, .report (o.report (x.drawnId o.symbol) (x.postFills env o) reply)⟩) := by
  obtain ⟨-, b, hok⟩ := h.addOrder_drawnId hcheck env
  have hok' : ((x.drawNumber o.symbol).book o.symbol).addOrder env (o.toOrder
      (nextOrderId o.symbol (x.drawNumber o.symbol).orderCounter) (env.now 0))
        = .ok (x.postFills env o, b) := by
    rw [show (x.drawNumber o.symbol).book o.symbol = x.book o.symbol from
      x.book_getOrCreateBook o.symbol o.symbol]
    exact hok
  refine ⟨b, _, hok, rfl, ?_⟩
  rw [Exchange.servePost]
  dsimp only
  rw [hok']
  rfl

theorem response_servePost (h : x.Sound) (hcheck : o.check = .ok ()) (env : CallEnv)
    (reply : TimePoint) : (x.servePost env reply o).2
      = ⟨200, .report (o.report (x.drawnId o.symbol) (x.postFills env o) reply)⟩ := by
  obtain ⟨b, y, -, -, heq⟩ := h.servePost_eq hcheck env reply
  rw [heq]

/-- Neither the makers' trackers nor that of the order are in the books. -/
theorem book_servePost (h : x.Sound) (hcheck : o.check = .ok ()) (env : CallEnv)
    (reply : TimePoint) :
    ∃ b, (x.book o.symbol).addOrder env (o.toOrder (x.drawnId o.symbol) (env.now 0))
        = .ok (x.postFills env o, b) ∧
      ∀ symbol, (x.servePost env reply o).1.book symbol
        = if symbol = o.symbol then b else x.book symbol := by
  obtain ⟨b, y, hok, hy, heq⟩ := h.servePost_eq hcheck env reply
  refine ⟨b, hok, fun symbol ↦ ?_⟩
  have hbook : y.book symbol = if symbol = o.symbol then b else x.book symbol := by
    rw [hy, Exchange.book_foldl_updateMaker, Exchange.book_insert,
      show (x.drawNumber o.symbol).book symbol = x.book symbol from
        x.book_getOrCreateBook o.symbol symbol]
  rw [heq, ← hbook]
  dsimp only
  split_ifs <;> rfl

/-- What is left of the order is what the sweep leaves of it. -/
theorem leavesQty_postFills (h : x.Sound) (hcheck : o.check = .ok ()) (env : CallEnv) :
    leavesQty o (x.postFills env o) = (x.sweptBy o).left := by
  have hsum : (x.sweptBy o).left + ((x.sweptBy o).taken.map Prod.snd).sum = o.quantity :=
    left_add_sum_taken
  rw [leavesQty, filledQty, (h.addOrder_drawnId hcheck env).1,
    map_fillsOf Fill.quantity Prod.snd env _ (fun _ _ _ ↦ rfl)]
  omega

theorem wf_servePost (h : x.Sound) (hcheck : o.check = .ok ()) (env : CallEnv)
    (reply : TimePoint) (symbol : String) : ((x.servePost env reply o).1.book symbol).WF := by
  obtain ⟨b, hok, hbook⟩ := h.book_servePost hcheck env reply
  rw [hbook]
  split_ifs
  · exact (addOrder_restingQuantity (h.wf o.symbol) (nextOrderId_ne_empty o.symbol _) hok).1
  · exact h.wf symbol

/-- The fills of a POST are against orders that rest in its book. -/
theorem of_mem_postFills (h : x.Sound) (hcheck : o.check = .ok ()) (env : CallEnv) {f : Fill}
    (hf : f ∈ x.postFills env o) : 0 < f.quantity ∧ x.resting o.symbol f.makerOrderId ≠ 0 := by
  obtain ⟨-, b, hok⟩ := h.addOrder_drawnId hcheck env
  obtain ⟨-, -, hmakers, -⟩ :=
    addOrder_restingQuantity (h.wf o.symbol) (nextOrderId_ne_empty o.symbol _) hok
  exact hmakers f hf

/-- What rests after a POST: the remainder of a limit order, and of the other orders what the fills
left of them. -/
theorem resting_servePost (h : x.Sound) (hcheck : o.check = .ok ()) (env : CallEnv)
    (reply : TimePoint) (symbol id : String) :
    (x.servePost env reply o).1.resting symbol id
      = if symbol = o.symbol then
          (if id = x.drawnId o.symbol ∧ o.type = .limit then (x.sweptBy o).left else 0)
            + x.resting symbol id - makerQuantity id (x.postFills env o)
        else x.resting symbol id := by
  obtain ⟨b, hok, hbook⟩ := h.book_servePost hcheck env reply
  obtain ⟨-, -, -, hquantity⟩ :=
    addOrder_restingQuantity (h.wf o.symbol) (nextOrderId_ne_empty o.symbol _) hok
  have hleaves : o.quantity - ((x.postFills env o).map Fill.quantity).sum = (x.sweptBy o).left :=
    h.leavesQty_postFills hcheck env
  rw [Exchange.resting, hbook]
  by_cases hs : symbol = o.symbol
  · rw [if_pos hs, if_pos hs, hquantity, Exchange.resting, hs, ← hleaves]
    simp only [eq_comm]
    rfl
  · rw [if_neg hs, if_neg hs]
    rfl

/-- What rests of the order itself. -/
theorem resting_servePost_drawnId (h : x.Sound) (hcheck : o.check = .ok ()) (env : CallEnv)
    (reply : TimePoint) (symbol : String) :
    (x.servePost env reply o).1.resting symbol (x.drawnId o.symbol)
      = if symbol = o.symbol ∧ o.type = .limit then (x.sweptBy o).left else 0 := by
  have hself : makerQuantity (x.drawnId o.symbol) (x.postFills env o) = 0 :=
    makerQuantity_of_forall_ne fun f hf heq ↦ (h.of_mem_postFills hcheck env hf).2
      (heq ▸ h.resting_drawnId o.symbol o.symbol)
  rw [h.resting_servePost hcheck, h.resting_drawnId, hself]
  by_cases hs : symbol = o.symbol
  · by_cases ht : o.type = .limit
    · rw [if_pos hs, if_pos ⟨rfl, ht⟩, if_pos ⟨hs, ht⟩]
      omega
    · rw [if_pos hs, if_neg fun hc ↦ ht hc.2, if_neg fun hc ↦ ht hc.2]
      rfl
  · rw [if_neg hs, if_neg fun hc ↦ hs hc.1]

end Exchange.Sound

/-! ## Where the order is, and what the report says -/

/-- An order reported as new or as partly filled rests in the book of its symbol with the quantity
the report leaves it, and one reported as filled or rejected rests nowhere and is left nothing. -/
structure ExecutionReport.Truthful (r : ExecutionReport) (x : Exchange τ) : Prop where
  rests : r.status = "new" ∨ r.status = "partial" → 0 < r.leavesQty ∧
    ∃ n ∈ (x.book r.symbol).resting, n.order.id = r.orderId ∧ n.order.quantity = r.leavesQty
  gone : r.status = "filled" ∨ r.status = "rejected" → r.leavesQty = 0 ∧
    ∀ symbol, ∀ n ∈ (x.book symbol).resting, n.order.id ≠ r.orderId

theorem OrderBook.WF.exists_resting {b : OrderBook τ} (h : b.WF) {id : String} {q : ℤ}
    (hq : 0 < q) :
    (∃ n ∈ b.resting, n.order.id = id ∧ n.order.quantity = q) ↔ b.restingQuantity id = q := by
  constructor
  · rintro ⟨n, hn, rfl, rfl⟩
    exact h.restingQuantity_eq hn
  · intro heq
    rcases h.restingQuantity_cases id with ⟨-, hzero⟩ | ⟨n, hn, hid, hquantity, -⟩
    · omega
    · exact ⟨n, hn, hid, hquantity.symm.trans heq⟩

theorem OrderBook.WF.forall_resting_ne {b : OrderBook τ} (h : b.WF) {id : String}
    (hzero : b.restingQuantity id = 0) : ∀ n ∈ b.resting, n.order.id ≠ id := by
  rintro n hn rfl
  obtain ⟨s, hs⟩ := OrderBook.mem_resting.mp hn
  have hpos := (h.of_mem_nodes hs).2.1
  rw [h.restingQuantity_eq hn] at hzero
  omega

omit [AddGroupWithOne τ] in
theorem status_rests_iff (o : NewOrder) (fills : List Fill) :
    orderStatus o fills = "new" ∨ orderStatus o fills = "partial" ↔
      leavesQty o fills ≠ 0 ∧ (0 < filledQty fills ∨ o.type ≠ .market) := by
  rw [orderStatus]
  split_ifs with hleaves hfilled htype <;> simp [*]

omit [AddGroupWithOne τ] in
theorem status_gone_iff (o : NewOrder) (fills : List Fill) :
    orderStatus o fills = "filled" ∨ orderStatus o fills = "rejected" ↔
      leavesQty o fills = 0 ∨ ¬0 < filledQty fills ∧ o.type = .market := by
  rw [orderStatus]
  split_ifs with hleaves hfilled htype <;> simp [*]

/-- The sweep of a market order leaves what the other side cannot serve. -/
theorem Exchange.Sound.left_of_market (h : x.Sound) {o : NewOrder} (htype : o.type = .market)
    (hquantity : 0 < o.quantity) :
    (x.sweptBy o).left = max 0 (o.quantity - x.available o.symbol o.side.opposite) := by
  have hreaches : ∀ n ∈ (x.book o.symbol).nodes o.side.opposite,
      o.reaches n.order.price = true := fun n _ ↦ by simp [NewOrder.reaches, htype]
  exact left_eq_max hreaches (h.wf o.symbol).weight_pos hquantity.le

omit [AddGroupWithOne τ] in
theorem NewOrder.quantity_pos {o : NewOrder} (hcheck : o.check = .ok ()) : 0 < o.quantity := by
  rw [check] at hcheck
  split_ifs at hcheck with hquantity
  exact not_le.mp hquantity

/-- **The report of a POST is true** of a limit order, and of a market order exactly when the other
side can serve all of it. -/
theorem Exchange.Sound.truthful_iff (h : x.Sound) {o : NewOrder} (hcheck : o.check = .ok ())
    (env : CallEnv) (reply : TimePoint) :
    (o.report (x.drawnId o.symbol) (x.postFills env o) reply).Truthful
        (x.servePost env reply o).1 ↔
      o.type = .limit ∨ o.quantity ≤ x.available o.symbol o.side.opposite := by
  have hquantity := NewOrder.quantity_pos hcheck
  have hleft : 0 ≤ (x.sweptBy o).left := left_nonneg hquantity.le
  have hleaves := h.leavesQty_postFills hcheck env
  have hwf := h.wf_servePost hcheck env reply
  have hresting : ∀ symbol, ((x.servePost env reply o).1.book symbol).restingQuantity
      (x.drawnId o.symbol) =
        if symbol = o.symbol ∧ o.type = .limit then (x.sweptBy o).left else 0 :=
    h.resting_servePost_drawnId hcheck env reply
  cases htype : o.type with
  | limit =>
    refine iff_of_true ⟨fun hrests ↦ ?_, fun hgone ↦ ?_⟩ (Or.inl rfl)
    · have hne := ((status_rests_iff o (x.postFills env o)).mp hrests).1
      have hpos : 0 < leavesQty o (x.postFills env o) := by omega
      refine ⟨hpos, ((hwf o.symbol).exists_resting hpos).mpr ?_⟩
      exact ((hresting o.symbol).trans (if_pos ⟨rfl, htype⟩)).trans hleaves.symm
    · have hzero : leavesQty o (x.postFills env o) = 0 := by
        rcases (status_gone_iff o (x.postFills env o)).mp hgone with hzero | ⟨-, hmarket⟩
        · exact hzero
        · simp [htype] at hmarket
      refine ⟨hzero, fun symbol ↦ (hwf symbol).forall_resting_ne ((hresting symbol).trans ?_)⟩
      rw [← hleaves, hzero, ite_self]
  | market =>
    have hmax := h.left_of_market htype hquantity
    -- the remainder of a market order rests nowhere
    have hnone : ∀ symbol, ((x.servePost env reply o).1.book symbol).restingQuantity
        (x.drawnId o.symbol) = 0 := fun symbol ↦ by
      rw [hresting, if_neg fun hc ↦ by simp [htype] at hc]
    rw [or_iff_right (by simp)]
    constructor
    · intro htrue
      by_contra hlt
      have hne : leavesQty o (x.postFills env o) ≠ 0 := by omega
      by_cases hfilled : 0 < filledQty (x.postFills env o)
      · obtain ⟨-, n, hn, hid, -⟩ :=
          htrue.rests ((status_rests_iff o (x.postFills env o)).mpr ⟨hne, Or.inl hfilled⟩)
        exact (hwf o.symbol).forall_resting_ne (hnone o.symbol) n hn hid
      · exact hne (htrue.gone ((status_gone_iff o (x.postFills env o)).mpr
          (Or.inr ⟨hfilled, htype⟩))).1
    · intro hle
      have hzero : leavesQty o (x.postFills env o) = 0 := by omega
      refine ⟨fun hrests ↦ ?_, fun _ ↦ ⟨hzero, fun symbol ↦
        (hwf symbol).forall_resting_ne (hnone symbol)⟩⟩
      exact absurd hzero ((status_rests_iff o (x.postFills env o)).mp hrests).1

omit [AddGroupWithOne τ] in
/-- A POST that is answered with a report passed the checks. -/
theorem check_of_serve [AddGroupWithOne τ] {x : Exchange τ} {env : CallEnv} {reply : TimePoint}
    {body : OrderBody} {r : ExecutionReport}
    (hserve : (x.serve env reply (.post (.ok body))).2 = ⟨200, .report r⟩) :
    body.parse.check = .ok () ∧
      x.serve env reply (.post (.ok body)) = x.servePost env reply body.parse := by
  rw [Exchange.serve] at hserve ⊢
  cases hcheck : body.parse.check with
  | error message => simp [hcheck] at hserve
  | ok u => exact ⟨rfl, rfl⟩

/-- **Reports of reachable exchanges.** In every state that an interleaving of requests leads to, a
POST that is then served without interruption and answered with a report is told the truth about
where its order is if and only if it is a limit order, or the other side of its book can serve all
of it. -/
theorem report_truthful_iff {es : List ServerEvent} {s : Server τ}
    (hexec : exec Server.step Server.initial es = some s) {body : OrderBody} {env : CallEnv}
    {reply : TimePoint} {r : ExecutionReport}
    (hserve : (s.shared.serve env reply (.post (.ok body))).2 = ⟨200, .report r⟩) :
    r.Truthful (s.shared.serve env reply (.post (.ok body))).1 ↔
      body.parse.type = .limit ∨
        body.parse.quantity ≤ s.shared.available body.parse.symbol body.parse.side.opposite := by
  obtain ⟨hcheck, hpost⟩ := check_of_serve hserve
  have hsound := (Server.sound_of_exec hexec).shared
  rw [hpost] at hserve ⊢
  rw [hsound.response_servePost hcheck env reply] at hserve
  obtain rfl : _ = r := ResponseBody.report.inj (congrArg Response.body hserve)
  exact hsound.truthful_iff hcheck env reply

theorem report_truthful_sampleBody : ∃ r : ExecutionReport, r.status = "new" ∧
    ((Server.initial : Server ℤ).shared.serve default 0 (.post (.ok (sampleBody "sell")))).2
      = ⟨200, .report r⟩ ∧
    r.Truthful
      ((Server.initial : Server ℤ).shared.serve default 0 (.post (.ok (sampleBody "sell")))).1 := by
  have hserve : ((Server.initial : Server ℤ).shared.serve default 0
      (.post (.ok (sampleBody "sell")))).2 = ⟨200, .report
        ⟨"ORD-AAPL-1", "", "AAPL", "new", "sell", 0, 0, 10, 0, 0⟩⟩ := by decide +kernel
  have hexec : exec Server.step Server.initial [] = some (Server.initial : Server ℤ) := rfl
  exact ⟨_, rfl, hserve, (report_truthful_iff hexec hserve).mpr (Or.inl rfl)⟩

/-- A market order for 15. -/
def marketBody : OrderBody := ⟨none, some "buy", some "market", some 15, none, none⟩

/-- The one sell order of `servedInTurn` serves 10 of a market order for 15. The report says
"partial", with 5 left, and nothing rests in the book. -/
theorem marketBody_not_truthful : ∃ (s : Server ℤ) (r : ExecutionReport),
    exec Server.step Server.initial (servedInTurn.take 5) = some s ∧
      (s.shared.serve default 0 (.post (.ok marketBody))).2 = ⟨200, .report r⟩ ∧
      r.status = "partial" ∧ r.leavesQty = 5 ∧
      ¬r.Truthful (s.shared.serve default 0 (.post (.ok marketBody))).1 := by
  have hrun : ((exec Server.step (Server.initial : Server ℤ) (servedInTurn.take 5)).any fun s ↦
      decide ((s.shared.serve default 0 (.post (.ok marketBody))).2 = ⟨200, .report
          ⟨"ORD-AAPL-2", "", "AAPL", "partial", "buy", 10, 100, 5, 10, 0⟩⟩ ∧
        ((s.shared.serve default 0 (.post (.ok marketBody))).1.book "AAPL").resting = [])) = true :=
    by decide +kernel
  obtain ⟨s, hs, h⟩ := (Option.any_eq_true _ _).mp hrun
  obtain ⟨hreport, hbook⟩ := of_decide_eq_true h
  refine ⟨s, _, hs, hreport, rfl, rfl, fun htrue ↦ ?_⟩
  obtain ⟨-, n, hn, -⟩ := htrue.rests (Or.inr rfl)
  rw [hbook] at hn
  simp at hn

end BenchmarkPlatform
