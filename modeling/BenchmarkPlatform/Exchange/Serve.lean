import BenchmarkPlatform.Exchange.Mirror

/-!
# Requests served one at a time

A request that no other request interrupts runs from its first critical section to its answer.
`Exchange.serve` is the composition of its steps. Between such requests nothing is in flight, so the
account of `Exchange.Account` holds with an empty multiset of requests, and says at once when a
DELETE finds its order and that an admitted POST is never refused.
-/

namespace BenchmarkPlatform

open Lib RequestPc

variable {τ : Type} [AddGroupWithOne τ]

/-! ## The handlers -/

/-- `get_or_create_book` and `next_order_id`. -/
def Exchange.drawNumber (x : Exchange τ) (symbol : String) : Exchange τ :=
  let x := x.getOrCreateBook symbol
  { x with orderCounter := x.orderCounter + 1 }

/-- The POST handler behind its checks. `reply` is the time it reads for its report. -/
def Exchange.servePost (x : Exchange τ) (env : CallEnv) (reply : TimePoint) (o : NewOrder) :
    Exchange τ × Response :=
  let x := x.drawNumber o.symbol
  let orderId := nextOrderId o.symbol x.orderCounter
  match (x.book o.symbol).addOrder env (o.toOrder orderId (env.now 0)) with
  | .error what => (x, ⟨400, .error ("bad request: " ++ what)⟩)
  | .ok (fills, b) =>
    let x := fills.foldl Exchange.updateMaker
      { x with orderbooks := x.orderbooks.insert o.symbol b }
    (if o.Tracked fills then
        { x with orderIndex := x.orderIndex.insert orderId (o.tracker fills) }
      else x, ⟨200, .report (o.report orderId fills reply)⟩)

def Exchange.serveDelete (x : Exchange τ) (reply : TimePoint) (orderId : String) :
    Exchange τ × Response :=
  match x.orderIndex.lookup orderId with
  | none => (x, ⟨404, .error ("order not found: " ++ orderId)⟩)
  | some t =>
    let x := x.getOrCreateBook t.symbol
    match (x.book t.symbol).cancelOrder orderId with
    | (false, _) => (x, ⟨404, .error ("order could not be cancelled: " ++ orderId)⟩)
    | (true, b) =>
      ({ x with
          orderbooks := x.orderbooks.insert t.symbol b
          orderIndex := x.orderIndex.erase orderId },
        ⟨200, .report (t.cancelReport orderId reply)⟩)

def Exchange.serve (x : Exchange τ) (env : CallEnv) (reply : TimePoint) :
    Request → Exchange τ × Response
  | .post (.error what) => (x, ⟨400, .error ("bad request: " ++ what)⟩)
  | .post (.ok body) =>
    match body.parse.check with
    | .error message => (x, ⟨400, .error message⟩)
    | .ok () => x.servePost env reply body.parse
  | .delete orderId => x.serveDelete reply orderId

/-! ## Serving is taking all steps -/

/-- An environment in which the clock shows `reply`. -/
def CallEnv.at (reply : TimePoint) : CallEnv :=
  ⟨fun _ ↦ reply, ⟨fun _ ↦ ⟨0, Nat.succ_pos 15⟩, ⟨0, Nat.succ_pos 3⟩⟩⟩

/-- One step of a request that is alone. -/
theorem exec_alone {x x' : Exchange τ} {env : CallEnv} {pc pc' : RequestPc}
    (h : x.advance env pc = some (x', pc')) (steps : List ServerEvent) :
    exec Server.step ⟨x, [pc]⟩ (.run 0 env :: steps) = exec Server.step ⟨x', [pc']⟩ steps := by
  have hstep : Server.step ⟨x, [pc]⟩ (.run 0 env) = some ⟨x', [pc']⟩ := by
    simp [Pool.next, h]
  rw [exec_cons, hstep, Option.bind_some]

theorem exec_makers (x : Exchange τ) (env : CallEnv) (o : NewOrder) (orderId : String)
    (fills todo : List Fill) (steps : List ServerEvent) :
    exec Server.step ⟨x, [.postMakers o orderId fills todo]⟩
        (List.replicate todo.length (.run 0 env) ++ steps) =
      exec Server.step ⟨todo.foldl Exchange.updateMaker x, [.postMakers o orderId fills []]⟩
        steps := by
  induction todo generalizing x with
  | nil => rfl
  | cons f todo ih =>
    rw [List.length_cons, List.replicate_succ, List.cons_append, exec_alone rfl, ih]
    rfl

theorem exec_drawNumber (x : Exchange τ) (env : CallEnv) (o : NewOrder)
    (steps : List ServerEvent) :
    exec Server.step ⟨x, [.postBook o]⟩ (.run 0 env :: .run 0 env :: steps) =
      exec Server.step ⟨x.drawNumber o.symbol,
        [.postAdd o (nextOrderId o.symbol (x.drawNumber o.symbol).orderCounter)]⟩ steps := by
  rw [exec_alone rfl, exec_alone rfl]
  rfl

theorem exec_servePost (x : Exchange τ) (env : CallEnv) (reply : TimePoint) (o : NewOrder) :
    ∃ steps : List ServerEvent, exec Server.step ⟨x, [.postBook o]⟩ steps =
      some ⟨(x.servePost env reply o).1, [.done (x.servePost env reply o).2]⟩ := by
  rw [Exchange.servePost]
  dsimp only
  split
  · rename_i what hthrow
    refine ⟨[.run 0 env, .run 0 env, .run 0 env], ?_⟩
    rw [exec_drawNumber, exec_alone (by rw [Exchange.advance, hthrow])]
    rfl
  · rename_i fills b hok
    refine ⟨.run 0 env :: .run 0 env :: .run 0 env ::
      (List.replicate fills.length (.run 0 env) ++ [.run 0 (.at reply)]), ?_⟩
    rw [exec_drawNumber, exec_alone (by rw [Exchange.advance, hok]), exec_makers, exec_alone rfl]
    rfl

theorem exec_serveDelete (x : Exchange τ) (reply : TimePoint) (orderId : String) :
    ∃ steps : List ServerEvent, exec Server.step ⟨x, [.deleteLookup orderId]⟩ steps =
      some ⟨(x.serveDelete reply orderId).1, [.done (x.serveDelete reply orderId).2]⟩ := by
  have henv : CallEnv := .at reply
  rw [Exchange.serveDelete]
  split
  · rename_i hnone
    refine ⟨[.run 0 henv], ?_⟩
    rw [exec_alone (by rw [Exchange.advance, hnone])]
    rfl
  · rename_i t ht
    dsimp only
    split
    · rename_i b hcancel
      refine ⟨[.run 0 henv, .run 0 henv, .run 0 henv], ?_⟩
      rw [exec_alone (by rw [Exchange.advance, ht]), exec_alone rfl,
        exec_alone (by rw [Exchange.advance, hcancel])]
      rfl
    · rename_i b hcancel
      refine ⟨[.run 0 henv, .run 0 henv, .run 0 henv, .run 0 (.at reply)], ?_⟩
      rw [exec_alone (by rw [Exchange.advance, ht]), exec_alone rfl,
        exec_alone (by rw [Exchange.advance, hcancel]), exec_alone rfl]
      rfl

/-- **Serving a request** is letting it take its steps with no other request in between. -/
theorem exec_serve (x : Exchange τ) (env : CallEnv) (reply : TimePoint) (request : Request) :
    ∃ steps : List ServerEvent, exec Server.step ⟨x, []⟩ (.start request :: steps) =
      some ⟨(x.serve env reply request).1, [.done (x.serve env reply request).2]⟩ := by
  have hstart : ∀ steps, exec Server.step ⟨x, []⟩ (.start request :: steps) =
      exec Server.step ⟨x, [request.entry]⟩ steps := fun steps ↦ rfl
  simp only [hstart]
  cases request with
  | delete orderId => exact exec_serveDelete x reply orderId
  | post body =>
    cases body with
    | error what => exact ⟨[], rfl⟩
    | ok body =>
      cases hcheck : body.parse.check with
      | error message =>
        refine ⟨[], ?_⟩
        rw [Exchange.serve, Request.entry, hcheck]
        rfl
      | ok u =>
        rw [Exchange.serve, Request.entry, hcheck]
        exact exec_servePost x env reply body.parse

/-- The other requests of a server may as well wait behind. -/
theorem exec_serve_among (s : Server τ) (env : CallEnv) (reply : TimePoint) (request : Request) :
    ∃ steps : List ServerEvent, exec Server.step s (.start request :: steps) =
      some ⟨(s.shared.serve env reply request).1,
        s.threads ++ [.done (s.shared.serve env reply request).2]⟩ := by
  obtain ⟨steps, hsteps⟩ := exec_serve s.shared env reply request
  have hframe := Pool.exec_frame s.threads hsteps
  rw [List.append_nil] at hframe
  exact ⟨steps.map (PoolEvent.shift s.threads.length), hframe⟩

/-! ## The account between requests -/

theorem Consistent.foldl_updateMaker {added : Finset String} {x : Exchange τ} {o : NewOrder}
    {id : String} {fills todo : List Fill} (h : Consistent added x {.postMakers o id fills todo})
    (hne : ∀ f ∈ todo, f.makerOrderId ≠ id) :
    Consistent added (todo.foldl Exchange.updateMaker x) {.postMakers o id fills []} := by
  induction todo generalizing x with
  | nil => exact h
  | cons f todo ih =>
    have hguard : ¬Inserts {.postMakers o id fills (f :: todo)} f.makerOrderId := by
      rw [← Multiset.cons_zero, inserts_cons_postMakers]
      rintro (⟨heq, -⟩ | ⟨pc, hpc, -⟩)
      · exact hne f List.mem_cons_self heq.symm
      · exact Multiset.notMem_zero pc hpc
    exact ih (h.updateMaker hguard) fun g hg ↦ hne g (List.mem_cons_of_mem f hg)

theorem Consistent.drawNumber {added : Finset String} {x : Exchange τ} (h : Consistent added x 0)
    (symbol : String) : Consistent added (x.drawNumber symbol) 0 :=
  h.congr (x.book_getOrCreateBook symbol) rfl (Nat.le_succ _)

/-- The id drawn is new. -/
theorem Consistent.drawn_new {added : Finset String} {x : Exchange τ} (h : Consistent added x 0)
    (symbol : String) : nextOrderId symbol (x.drawNumber symbol).orderCounter ∉ added ∧
      (x.drawNumber symbol).Issued (nextOrderId symbol (x.drawNumber symbol).orderCounter) :=
  ⟨fun hmem ↦ x.not_issued_next symbol (h.issued _ hmem), symbol, _, le_rfl, rfl⟩

/-- All of a POST behind its checks keeps the account. -/
theorem Consistent.servePost {added : Finset String} {x : Exchange τ} (h : Consistent added x 0)
    (env : CallEnv) (reply : TimePoint) (o : NewOrder) :
    ∃ added', Consistent added' (x.servePost env reply o).1 0 := by
  have hdrawn := h.drawNumber o.symbol
  obtain ⟨hnew, hissued⟩ := h.drawn_new o.symbol
  rw [Exchange.servePost]
  dsimp only
  split
  · exact ⟨added, hdrawn⟩
  · rename_i fills b hok
    obtain ⟨-, -, hmakers, -⟩ :=
      addOrder_restingQuantity (hdrawn.wf o.symbol) hissued.ne_empty hok
    have hne : ∀ f ∈ fills,
        f.makerOrderId ≠ nextOrderId o.symbol (x.drawNumber o.symbol).orderCounter :=
      fun f hf heq ↦ hnew (heq ▸ hdrawn.rested o.symbol _ (hmakers f hf).2)
    have hadd := (hdrawn.addOrder hnew hissued (by simp) hok).foldl_updateMaker hne
    refine ⟨insert (nextOrderId o.symbol (x.drawNumber o.symbol).orderCounter) added, ?_⟩
    split_ifs with htracked
    · exact hadd.insertTracker htracked
    · refine hadd.drop ⟨fun m ↦ rfl, fun o' id' fills' hins ↦ ?_, by simp⟩
      exact htracked (inserting_postMakers.mp hins).2.2.2

/-- A book does not know an id under which nothing rests. -/
theorem OrderBook.WF.lookup_eq_none {b : OrderBook τ} (h : b.WF) {id : String}
    (hzero : b.restingQuantity id = 0) : b.orders.lookup id = none := by
  rw [← Option.not_isSome_iff_eq_none, h.lookup_isSome_iff]
  intro hmem
  rcases h.restingQuantity_cases id with ⟨hnot, -⟩ | ⟨n, -, -, heq, hpos⟩
  · exact hnot hmem
  · omega

theorem Consistent.lookup_eq_none {added : Finset String} {x : Exchange τ}
    (h : Consistent added x 0) (symbol : String) {id : String} (hid : id ∉ added) :
    (x.book symbol).orders.lookup id = none := by
  refine (h.wf symbol).lookup_eq_none ?_
  by_contra hr
  exact hid (h.rested symbol id hr)

omit [AddGroupWithOne τ] in
/-- A book admits an order that the handler has checked, under a new id. -/
theorem NewOrder.admits {o : NewOrder} (hcheck : o.check = .ok ()) {b : OrderBook τ} {id : String}
    (hid : id ≠ "") (hnew : b.orders.lookup id = none) (env : CallEnv) (now : TimePoint) :
    b.Admits ((o.toOrder id now).resolve env) := by
  have hres : ((o.toOrder id now).resolve env).id = id := Order.resolve_of_id_ne hid
  rw [NewOrder.check] at hcheck
  split_ifs at hcheck with hq hp
  refine ⟨?_, fun htype ↦ ?_, ?_⟩
  · rw [Order.resolve_eq]
    exact not_le.mp hq
  · rw [Order.resolve_eq] at htype ⊢
    exact not_le.mp fun hle ↦ hp ⟨htype, hle⟩
  · rw [hres]
    exact hnew

/-- An admitted POST is accepted. -/
theorem Consistent.servePost_status {added : Finset String} {x : Exchange τ}
    (h : Consistent added x 0) (env : CallEnv) (reply : TimePoint) {o : NewOrder}
    (hcheck : o.check = .ok ()) :
    ∃ orderId fills, (x.servePost env reply o).2 =
      ⟨200, .report (o.report orderId fills reply)⟩ := by
  have hdrawn := h.drawNumber o.symbol
  obtain ⟨hnew, hissued⟩ := h.drawn_new o.symbol
  have hadmits := NewOrder.admits hcheck hissued.ne_empty (hdrawn.lookup_eq_none o.symbol hnew) env
    (env.now 0)
  rw [Exchange.servePost]
  dsimp only
  rcases OrderBook.addOrder_cases env ((x.drawNumber o.symbol).book o.symbol) (o.toOrder
    (nextOrderId o.symbol (x.drawNumber o.symbol).orderCounter) (env.now 0)) with
    ⟨-, -, hnot⟩ | ⟨-, hok⟩
  · exact absurd hadmits hnot
  · rw [hok]
    exact ⟨_, _, rfl⟩

/-- What rests does so under its symbol, where the index leads. -/
theorem Consistent.tracker_of_resting {added : Finset String} {x : Exchange τ}
    (h : Consistent added x 0) {symbol id : String} (hr : x.resting symbol id ≠ 0) :
    ∃ t, x.orderIndex.lookup id = some t ∧ t.symbol = symbol := by
  rcases h.cover symbol id hr with ht | ⟨pc, hpc, -⟩
  · exact ht
  · exact absurd hpc (Multiset.notMem_zero pc)

theorem Consistent.resting_of_tracker {added : Finset String} {x : Exchange τ}
    (h : Consistent added x 0) {id : String} {t : OrderTracker}
    (ht : x.orderIndex.lookup id = some t) : x.resting t.symbol id ≠ 0 := by
  have hbalance := h.balance id t ht fun ⟨pc, hpc, _⟩ ↦ Multiset.notMem_zero pc hpc
  have hzero : pendingOf 0 id = 0 := rfl
  have hpos := (h.tracked id t ht).2.1
  omega

/-- **What a DELETE does.** An order that rests nowhere is not found, and nothing changes; one that
rests is taken out of the book its tracker names, and out of the index. -/
theorem Consistent.serveDelete_cases {added : Finset String} {x : Exchange τ}
    (h : Consistent added x 0) (reply : TimePoint) (id : String) :
    (∀ symbol, x.resting symbol id = 0) ∧
        x.serveDelete reply id = (x, ⟨404, .error ("order not found: " ++ id)⟩) ∨
      ∃ t b, x.orderIndex.lookup id = some t ∧ x.resting t.symbol id ≠ 0 ∧
        (x.book t.symbol).cancelOrder id = (true, b) ∧
        x.serveDelete reply id = ({ x.getOrCreateBook t.symbol with
          orderbooks := (x.getOrCreateBook t.symbol).orderbooks.insert t.symbol b
          orderIndex := x.orderIndex.erase id }, ⟨200, .report (t.cancelReport id reply)⟩) := by
  rw [Exchange.serveDelete]
  split
  · rename_i hnone
    refine Or.inl ⟨fun symbol ↦ ?_, rfl⟩
    by_contra hr
    obtain ⟨t, ht, -⟩ := h.tracker_of_resting hr
    rw [hnone] at ht
    simp at ht
  · rename_i t ht
    have hr := h.resting_of_tracker ht
    dsimp only
    rw [x.book_getOrCreateBook]
    rcases cancelOrder_spec (h.wf t.symbol) id with ⟨hnot, -⟩ | ⟨n, -, -, htrue, -⟩
    · exact absurd (OrderBook.restingQuantity_of_notMem hnot) hr
    · have hcancel : (x.book t.symbol).cancelOrder id
          = (true, ((x.book t.symbol).cancelOrder id).2) := Prod.ext htrue rfl
      rw [hcancel]
      exact Or.inr ⟨t, _, ht, hr, hcancel, rfl⟩

/-- A DELETE keeps the account, and succeeds if and only if its order rests. -/
theorem Consistent.serveDelete {added : Finset String} {x : Exchange τ} (h : Consistent added x 0)
    (reply : TimePoint) (id : String) :
    Consistent added (x.serveDelete reply id).1 0 ∧
      ((∃ symbol, x.resting symbol id ≠ 0) ∧ (∃ t : OrderTracker,
          (x.serveDelete reply id).2 = ⟨200, .report (t.cancelReport id reply)⟩) ∨
        (∀ symbol, x.resting symbol id = 0) ∧ ∃ message,
          (x.serveDelete reply id).2 = ⟨404, .error message⟩) := by
  rcases h.serveDelete_cases reply id with ⟨hzero, heq⟩ | ⟨t, b, ht, hr, hcancel, heq⟩
  · rw [heq]
    exact ⟨h, Or.inr ⟨hzero, _, rfl⟩⟩
  · rw [heq]
    have hnone : ¬Inserts 0 id := fun ⟨pc, hpc, _⟩ ↦ Multiset.notMem_zero pc hpc
    have hbook : Consistent added (x.getOrCreateBook t.symbol) 0 :=
      h.congr (x.book_getOrCreateBook t.symbol) rfl le_rfl
    rw [← x.book_getOrCreateBook t.symbol] at hcancel
    exact ⟨(hbook.cancelOrder (h.tracked id t ht).1 hnone hcancel).eraseTracker,
      Or.inl ⟨⟨t.symbol, hr⟩, t, rfl⟩⟩

/-- Every request keeps the account. -/
theorem Consistent.serve {added : Finset String} {x : Exchange τ} (h : Consistent added x 0)
    (env : CallEnv) (reply : TimePoint) (request : Request) :
    ∃ added', Consistent added' (x.serve env reply request).1 0 := by
  cases request with
  | delete orderId => exact ⟨added, (h.serveDelete reply orderId).1⟩
  | post body =>
    cases body with
    | error what => exact ⟨added, h⟩
    | ok body =>
      rw [Exchange.serve]
      split
      · exact ⟨added, h⟩
      · exact h.servePost env reply body.parse

end BenchmarkPlatform
