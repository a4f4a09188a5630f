import BenchmarkPlatform.Exchange.Report

/-!
# Reports over a serial history

Requests are served one at a time and recorded. Between them the index is exact: the quantity a
tracker has lost since it was written is what its order has traded, as taker in its own POST and as
maker in the POSTs after it. This is what a DELETE reports, and a DELETE finds its order if and only
if the order still rests.
-/

namespace BenchmarkPlatform

open Lib

variable {τ : Type}

/-! ## Histories -/

/-- A request, with what serving it reads from outside. -/
structure Arrival where
  env : CallEnv
  reply : TimePoint
  request : Request

/-- A request that was served: the exchange it found, its fills and its answer, and the exchange it
left. -/
structure Served (τ : Type) where
  before : Exchange τ
  request : Request
  fills : List Fill
  response : Response
  after : Exchange τ

/-- What fills gave to the taker of an id. -/
def takerQuantity (id : String) (fills : List Fill) : ℤ :=
  ((fills.filter fun f ↦ f.takerOrderId = id).map Fill.quantity).sum

/-- What an order has traded, on either side of a fill. -/
def traded (id : String) (past : List (Served τ)) : ℤ :=
  takerQuantity id (past.flatMap Served.fills) + makerQuantity id (past.flatMap Served.fills)

/-- The request is a POST that was answered with a report of this order. -/
def Served.Posts (e : Served τ) (symbol id : String) : Prop :=
  ∃ body r, e.request = .post body ∧ e.response = ⟨200, .report r⟩ ∧ r.symbol = symbol ∧
    r.orderId = id

variable [AddGroupWithOne τ]

/-- The fills of a request. -/
def Exchange.requestFills (x : Exchange τ) (env : CallEnv) : Request → List Fill
  | .post (.ok body) =>
    match body.parse.check with
    | .error _ => []
    | .ok () => x.postFills env body.parse
  | _ => []

/-- Serve a request and record it. -/
def Exchange.record (x : Exchange τ) (a : Arrival) : Exchange τ × Served τ :=
  ((x.serve a.env a.reply a.request).1, ⟨x, a.request, x.requestFills a.env a.request,
    (x.serve a.env a.reply a.request).2, (x.serve a.env a.reply a.request).1⟩)

/-- The history of a sequence of requests from the exchange as it is set up. -/
def serialHistory (τ : Type) [AddGroupWithOne τ] (arrivals : List Arrival) : List (Served τ) :=
  (mealyRun Exchange.record Exchange.initial arrivals).2

/-- **A serial history is a run of the server**, in which every request has been answered before the
next one arrives. -/
theorem exec_serialHistory (arrivals : List Arrival) (s : Server τ) :
    ∃ events : List ServerEvent, exec Server.step s events =
      some ⟨(mealyRun Exchange.record s.shared arrivals).1, s.threads ++
        (mealyRun Exchange.record s.shared arrivals).2.map fun e ↦ .done e.response⟩ := by
  induction arrivals generalizing s with
  | nil => exact ⟨[], by simp⟩
  | cons a arrivals ih =>
    obtain ⟨steps, hsteps⟩ := exec_serve_among s a.env a.reply a.request
    obtain ⟨events, hevents⟩ := ih ⟨(s.shared.serve a.env a.reply a.request).1,
      s.threads ++ [.done (s.shared.serve a.env a.reply a.request).2]⟩
    refine ⟨.start a.request :: steps ++ events, ?_⟩
    rw [exec_append, hsteps, Option.bind_some, hevents]
    simp [mealyRun_cons, Exchange.record]

/-! ## Fills and ids -/

omit [AddGroupWithOne τ] in
theorem traded_append (id : String) (past : List (Served τ)) (e : Served τ) :
    traded id (past ++ [e])
      = traded id past + (takerQuantity id e.fills + makerQuantity id e.fills) := by
  simp only [traded, takerQuantity, makerQuantity, List.flatMap_append, List.flatMap_singleton,
    List.filter_append, List.map_append, List.sum_append]
  ring

theorem takerQuantity_of_forall_ne {fills : List Fill} {id : String}
    (h : ∀ f ∈ fills, f.takerOrderId ≠ id) : takerQuantity id fills = 0 := by
  rw [takerQuantity, List.filter_eq_nil_iff.mpr fun f hf ↦ by simpa using h f hf]
  rfl

theorem takerQuantity_of_forall_eq {fills : List Fill} {id : String}
    (h : ∀ f ∈ fills, f.takerOrderId = id) : takerQuantity id fills = filledQty fills := by
  rw [takerQuantity, List.filter_eq_self.mpr fun f hf ↦ by simpa using h f hf]
  rfl

/-- Every fill counts for one maker. -/
theorem sum_makerQuantity {ids : List String} (hnd : ids.Nodup) {fills : List Fill}
    (hmem : ∀ f ∈ fills, f.makerOrderId ∈ ids) :
    (ids.map fun id ↦ makerQuantity id fills).sum = filledQty fills := by
  induction fills with
  | nil => simp [makerQuantity, filledQty]
  | cons f fills ih =>
    have hsingle : (ids.map fun id ↦ if f.makerOrderId = id then f.quantity else 0).sum
        = f.quantity := by
      rw [List.sum_map_eq_nsmul_single f.makerOrderId _ fun id hne _ ↦ if_neg hne.symm,
        List.count_eq_one_of_mem hnd (hmem f List.mem_cons_self), if_pos rfl, one_nsmul]
    simp only [makerQuantity_cons, List.sum_map_add]
    rw [hsingle, ih fun g hg ↦ hmem g (List.mem_cons_of_mem f hg)]
    rfl

omit [AddGroupWithOne τ] in
/-- The maker updates take from each tracker what the fills took from its order. -/
theorem Exchange.lookup_foldl_updateMaker {fills : List Fill} {x : Exchange τ} {m : String}
    {t' : OrderTracker} (ht' : (fills.foldl Exchange.updateMaker x).orderIndex.lookup m = some t') :
    ∃ t, x.orderIndex.lookup m = some t ∧ t'.origQty = t.origQty ∧
      t'.remainingQty = t.remainingQty - makerQuantity m fills := by
  induction fills generalizing x with
  | nil => exact ⟨t', ht', rfl, (sub_zero _).symm⟩
  | cons f fills ih =>
    obtain ⟨t₁, ht₁, horig, hremaining⟩ := ih ht'
    rw [makerQuantity_cons]
    rw [lookup_updateMaker] at ht₁
    by_cases hm : m = f.makerOrderId
    · rw [if_pos hm, Option.bind_eq_some_iff] at ht₁
      obtain ⟨t, ht, hsome⟩ := ht₁
      split_ifs at hsome
      obtain rfl := Option.some_inj.mp hsome
      refine ⟨t, ht, horig, hremaining.trans ?_⟩
      rw [if_pos hm.symm]
      dsimp only
      ring
    · rw [if_neg hm] at ht₁
      exact ⟨t₁, ht₁, horig, by rw [hremaining, if_neg (Ne.symm hm), zero_add]⟩

namespace Exchange.Sound

variable {x : Exchange τ} {o : NewOrder}

theorem takerOrderId_of_mem_postFills (h : x.Sound) (hcheck : o.check = .ok ()) (env : CallEnv) :
    ∀ f ∈ x.postFills env o, f.takerOrderId = x.drawnId o.symbol := by
  intro f hf
  rw [(h.addOrder_drawnId hcheck env).1] at hf
  obtain ⟨fs, gs, hsplit⟩ := List.append_of_mem hf
  obtain ⟨-, -, -, -, -, -, htaker, -⟩ := exists_of_fillsOf_eq hsplit
  exact htaker

/-- The index after a POST: the order's own tracker, if it rests, and the others' less the fills. -/
theorem lookup_servePost (h : x.Sound) (hcheck : o.check = .ok ()) (env : CallEnv)
    (reply : TimePoint) {m : String} {t' : OrderTracker}
    (ht' : (x.servePost env reply o).1.orderIndex.lookup m = some t') :
    m = x.drawnId o.symbol ∧ t' = o.tracker (x.postFills env o) ∨
      ∃ t, x.orderIndex.lookup m = some t ∧ t'.origQty = t.origQty ∧
        t'.remainingQty = t.remainingQty - makerQuantity m (x.postFills env o) := by
  obtain ⟨b, y, -, hy, heq⟩ := h.servePost_eq hcheck env reply
  rw [heq] at ht'
  have hold : y.orderIndex.lookup m = some t' → ∃ t, x.orderIndex.lookup m = some t ∧
      t'.origQty = t.origQty ∧
      t'.remainingQty = t.remainingQty - makerQuantity m (x.postFills env o) := by
    intro ht
    rw [hy] at ht
    obtain ⟨t, ht, hquantities⟩ := Exchange.lookup_foldl_updateMaker ht
    exact ⟨t, ht, hquantities⟩
  dsimp only at ht'
  split_ifs at ht'
  · by_cases hm : m = x.drawnId o.symbol
    · dsimp only at ht'
      rw [hm, Finmap.lookup_insert, Option.some_inj] at ht'
      exact Or.inl ⟨hm, ht'.symm⟩
    · dsimp only at ht'
      rw [Finmap.lookup_insert_of_ne _ hm] at ht'
      exact Or.inr (hold ht')
  · exact Or.inr (hold ht')

theorem orderCounter_servePost (h : x.Sound) (hcheck : o.check = .ok ()) (env : CallEnv)
    (reply : TimePoint) : (x.servePost env reply o).1.orderCounter = x.orderCounter + 1 := by
  have hfold : ∀ (fills : List Fill) (y : Exchange τ),
      (fills.foldl Exchange.updateMaker y).orderCounter = y.orderCounter := by
    intro fills
    induction fills with
    | nil => exact fun y ↦ rfl
    | cons f fills ih => exact fun y ↦ (ih _).trans (y.orderCounter_updateMaker f)
  obtain ⟨b, y, -, rfl, heq⟩ := h.servePost_eq hcheck env reply
  rw [heq]
  dsimp only
  split_ifs <;> exact hfold _ _

end Exchange.Sound

theorem Consistent.sound {added : Finset String} {x : Exchange τ} (h : Consistent added x 0) :
    x.Sound :=
  ⟨h.wf, fun symbol id hr ↦ h.issued id (h.rested symbol id hr)⟩

/-! ## The history in the index -/

/-- What the exchange knows of the requests it has served. -/
structure Exchange.Accounts (x : Exchange τ) (past : List (Served τ)) : Prop where
  consistent : ∃ added, Consistent added x 0
  issued : ∀ e ∈ past, ∀ f ∈ e.fills, x.Issued f.makerOrderId ∧ x.Issued f.takerOrderId
  posted : ∀ symbol id, x.resting symbol id ≠ 0 → ∃ e ∈ past, e.Posts symbol id
  settled : ∀ id t, x.orderIndex.lookup id = some t → t.origQty - t.remainingQty = traded id past

theorem Exchange.accounts_initial : (Exchange.initial : Exchange τ).Accounts [] where
  consistent := ⟨∅, consistent_initial⟩
  issued e he := absurd he List.not_mem_nil
  posted symbol id hr :=
    absurd (consistent_initial.rested symbol id hr) (Finset.notMem_empty id)
  settled id t ht := by
    have hmem := (consistent_initial.tracked id t ht).1
    exact absurd hmem (Finset.notMem_empty id)

namespace Exchange.Accounts

variable {x : Exchange τ} {past : List (Served τ)}

/-- An id that has not been drawn has not traded. -/
theorem traded_eq_zero (h : x.Accounts past) {id : String} (hid : ¬x.Issued id) :
    traded id past = 0 := by
  have hmaker : ∀ f ∈ past.flatMap Served.fills, f.makerOrderId ≠ id := by
    rintro f hf rfl
    obtain ⟨e, he, hfe⟩ := List.mem_flatMap.mp hf
    exact hid (h.issued e he f hfe).1
  have htaker : ∀ f ∈ past.flatMap Served.fills, f.takerOrderId ≠ id := by
    rintro f hf rfl
    obtain ⟨e, he, hfe⟩ := List.mem_flatMap.mp hf
    exact hid (h.issued e he f hfe).2
  rw [traded, takerQuantity_of_forall_ne htaker, makerQuantity_of_forall_ne hmaker]
  rfl

/-- A request without fills that rests nothing new keeps the accounts of the orders that stay. -/
theorem withoutFills (h : x.Accounts past) {e : Served τ} (hfills : e.fills = [])
    {x' : Exchange τ} {added : Finset String} (hconsistent : Consistent added x' 0)
    (hcounter : x.orderCounter ≤ x'.orderCounter)
    (hresting : ∀ symbol id, x'.resting symbol id ≠ 0 → x.resting symbol id ≠ 0)
    (hindex : ∀ id t, x'.orderIndex.lookup id = some t → x.orderIndex.lookup id = some t) :
    x'.Accounts (past ++ [e]) where
  consistent := ⟨added, hconsistent⟩
  issued e' he' f hf := by
    rcases List.mem_append.mp he' with he' | he'
    · exact ⟨(h.issued e' he' f hf).1.mono hcounter, (h.issued e' he' f hf).2.mono hcounter⟩
    · rw [List.mem_singleton.mp he', hfills] at hf
      exact absurd hf List.not_mem_nil
  posted symbol id hr := by
    obtain ⟨e', he', hposts⟩ := h.posted symbol id (hresting symbol id hr)
    exact ⟨e', List.mem_append_left _ he', hposts⟩
  settled id t ht := by
    rw [traded_append, hfills, h.settled id t (hindex id t ht)]
    simp [takerQuantity, makerQuantity]

/-- A DELETE takes an order out of a book and out of the index, or does nothing. -/
theorem delete (h : x.Accounts past) (a : Arrival) {id : String}
    (hrequest : a.request = .delete id) :
    (x.record a).1.Accounts (past ++ [(x.record a).2]) := by
  obtain ⟨added, hconsistent⟩ := h.consistent
  have hserve : (x.record a).1 = (x.serveDelete a.reply id).1 := by
    rw [Exchange.record, hrequest]
    rfl
  have hfills : (x.record a).2.fills = [] := by
    rw [Exchange.record, hrequest]
    rfl
  have hafter := (hconsistent.serveDelete a.reply id).1
  rw [hserve]
  rcases hconsistent.serveDelete_cases a.reply id with ⟨-, heq⟩ | ⟨t, b, -, -, hcancel, heq⟩
  · rw [heq] at hafter ⊢
    exact h.withoutFills hfills hafter le_rfl (fun _ _ hr ↦ hr) fun _ _ ht ↦ ht
  · rw [heq] at hafter ⊢
    refine h.withoutFills hfills hafter le_rfl (fun symbol m hr hzero ↦ hr ?_) fun m t' ht' ↦ ?_
    · -- nothing rests that did not rest before
      obtain ⟨-, -, hquantity⟩ := cancelOrder_restingQuantity (hconsistent.wf t.symbol) hcancel
      have hbook : ∀ symbol', (x.getOrCreateBook t.symbol).book symbol' = x.book symbol' :=
        x.book_getOrCreateBook t.symbol
      change Exchange.resting { x.getOrCreateBook t.symbol with
        orderbooks := (x.getOrCreateBook t.symbol).orderbooks.insert t.symbol b } symbol m = 0
      rw [Exchange.resting_insert]
      split_ifs with hs
      · rw [hquantity]
        split_ifs
        · rfl
        · exact hs ▸ hzero
      · rw [Exchange.resting, hbook]
        exact hzero
    · by_cases hm : m = id
      · subst hm
        rw [show Finmap.lookup m (x.orderIndex.erase m) = none from Finmap.lookup_erase _ _] at ht'
        simp at ht'
      · rwa [show Finmap.lookup m (x.orderIndex.erase id) = x.orderIndex.lookup m from
          Finmap.lookup_erase_ne hm] at ht'

/-- A POST behind its checks. -/
theorem post (h : x.Accounts past) {o : NewOrder} (hcheck : o.check = .ok ()) (env : CallEnv)
    (reply : TimePoint) {e : Served τ} (hfills : e.fills = x.postFills env o)
    (hposts : e.Posts o.symbol (x.drawnId o.symbol)) :
    (x.servePost env reply o).1.Accounts (past ++ [e]) := by
  obtain ⟨added, hconsistent⟩ := h.consistent
  have hsound := hconsistent.sound
  have hcounter := hsound.orderCounter_servePost hcheck env reply
  have hle : x.orderCounter ≤ (x.servePost env reply o).1.orderCounter := by omega
  have htaker := hsound.takerOrderId_of_mem_postFills hcheck env
  refine ⟨hconsistent.servePost env reply o, fun e' he' f hf ↦ ?_, fun symbol id hr ↦ ?_,
    fun id t ht ↦ ?_⟩
  · rcases List.mem_append.mp he' with he' | he'
    · exact ⟨(h.issued e' he' f hf).1.mono hle, (h.issued e' he' f hf).2.mono hle⟩
    · rw [List.mem_singleton.mp he', hfills] at hf
      have hmaker := (hsound.of_mem_postFills hcheck env hf).2
      refine ⟨(hsound.rested o.symbol _ hmaker).mono hle, ?_⟩
      rw [htaker f hf]
      exact ⟨o.symbol, _, hcounter.ge, rfl⟩
  · rw [hsound.resting_servePost hcheck] at hr
    by_cases hid : symbol = o.symbol ∧ id = x.drawnId o.symbol
    · exact ⟨e, List.mem_append_right _ (List.mem_singleton_self e), hid.1 ▸ hid.2 ▸ hposts⟩
    · have hold : x.resting symbol id ≠ 0 := by
        intro hzero
        refine hr ?_
        split_ifs with hs ho
        · exact absurd ⟨hs, ho.1⟩ hid
        · have hnone : makerQuantity id (x.postFills env o) = 0 :=
            makerQuantity_of_forall_ne fun f hf heq ↦
              (hsound.of_mem_postFills hcheck env hf).2 (heq ▸ hs ▸ hzero)
          rw [hzero, hnone]
          rfl
        · exact hzero
      obtain ⟨e', he', hposted⟩ := h.posted symbol id hold
      exact ⟨e', List.mem_append_left _ he', hposted⟩
  · rw [traded_append, hfills]
    rcases hsound.lookup_servePost hcheck env reply ht with
      ⟨rfl, rfl⟩ | ⟨t₀, ht₀, horig, hremaining⟩
    · -- the order itself: it has traded as the taker of its own fills only
      have hnew : ¬x.Issued (x.drawnId o.symbol) := x.not_issued_next o.symbol
      have hself : makerQuantity (x.drawnId o.symbol) (x.postFills env o) = 0 :=
        makerQuantity_of_forall_ne fun f hf heq ↦
          hnew (heq ▸ hsound.rested o.symbol _ (hsound.of_mem_postFills hcheck env hf).2)
      rw [h.traded_eq_zero hnew, takerQuantity_of_forall_eq htaker, hself]
      change o.quantity - (o.quantity - filledQty (x.postFills env o)) = _
      ring
    · -- an order that was tracked before: it is the taker of none of these fills
      have hne : ∀ f ∈ x.postFills env o, f.takerOrderId ≠ id := by
        intro f hf heq
        rw [htaker f hf] at heq
        subst heq
        exact x.not_issued_next o.symbol
          (hconsistent.issued _ (hconsistent.tracked _ t₀ ht₀).1)
      rw [takerQuantity_of_forall_ne hne, horig, hremaining, ← h.settled id t₀ ht₀]
      ring

/-- **One request** keeps the accounts. -/
theorem record (h : x.Accounts past) (a : Arrival) :
    (x.record a).1.Accounts (past ++ [(x.record a).2]) := by
  obtain ⟨added, hconsistent⟩ := h.consistent
  cases hrequest : a.request with
  | delete id => exact h.delete a hrequest
  | post body =>
    cases body with
    | error what =>
      have hrecord : (x.record a).1 = x ∧ (x.record a).2.fills = [] := by
        rw [Exchange.record, hrequest]
        exact ⟨rfl, rfl⟩
      rw [hrecord.1]
      exact h.withoutFills hrecord.2 hconsistent le_rfl (fun _ _ hr ↦ hr) fun _ _ ht ↦ ht
    | ok body =>
      cases hcheck : body.parse.check with
      | error message =>
        have hrecord : (x.record a).1 = x ∧ (x.record a).2.fills = [] := by
          rw [Exchange.record, hrequest, Exchange.serve, Exchange.requestFills, hcheck]
          exact ⟨rfl, rfl⟩
        rw [hrecord.1]
        exact h.withoutFills hrecord.2 hconsistent le_rfl (fun _ _ hr ↦ hr) fun _ _ ht ↦ ht
      | ok u =>
        have hserve : (x.record a).1 = (x.servePost a.env a.reply body.parse).1 ∧
            (x.record a).2.fills = x.postFills a.env body.parse ∧
            (x.record a).2.request = .post (.ok body) ∧
            (x.record a).2.response = (x.servePost a.env a.reply body.parse).2 := by
          rw [Exchange.record, hrequest, Exchange.serve, Exchange.requestFills, hcheck]
          exact ⟨rfl, rfl, rfl, rfl⟩
        rw [hserve.1]
        have hresponse := hserve.2.2.2.trans
          (hconsistent.sound.response_servePost hcheck a.env a.reply)
        exact h.post hcheck a.env a.reply hserve.2.1
          ⟨_, _, hserve.2.2.1, hresponse, rfl, rfl⟩

end Exchange.Accounts

/-- **Every history** is accounted for. -/
theorem accounts_mealyRun (arrivals : List Arrival) :
    (mealyRun Exchange.record (Exchange.initial : Exchange τ) arrivals).1.Accounts
      (serialHistory τ arrivals) := by
  rw [serialHistory]
  induction arrivals using List.reverseRecOn with
  | nil => exact Exchange.accounts_initial
  | append_singleton arrivals a ih =>
    rw [mealyRun_append]
    exact ih.record a

/-! ## Exact reports -/

/-- The order rests in the book of the symbol. -/
def Exchange.Rests (x : Exchange τ) (symbol id : String) : Prop :=
  ∃ n ∈ (x.book symbol).resting, n.order.id = id

/-- What a request was told is exact, `past` being the requests served before it. -/
structure Served.Exact (past : List (Served τ)) (e : Served τ) : Prop where
  /-- A DELETE succeeds if and only if the order of that id still rests in the book of the symbol it
  was posted for. -/
  delete_iff : ∀ id, e.request = .delete id → ((∃ r, e.response = ⟨200, .report r⟩) ↔
    ∃ symbol, (∃ e' ∈ past, e'.Posts symbol id) ∧ e.before.Rests symbol id)
  /-- Otherwise it is answered with 404, and neither the books nor the index change. -/
  delete_fails : ∀ id, e.request = .delete id → (¬∃ r, e.response = ⟨200, .report r⟩) →
    (∃ message, e.response = ⟨404, .error message⟩) ∧
      e.after.orderbooks = e.before.orderbooks ∧ e.after.orderIndex = e.before.orderIndex
  /-- A successful DELETE reports all that the order has traded. -/
  cum_qty : ∀ id r, e.request = .delete id → e.response = ⟨200, .report r⟩ →
    r.cumQty = traded id past
  /-- What a POST reports as filled is what the orders in its book have lost. -/
  filled_qty : ∀ body r, e.request = .post body → e.response = ⟨200, .report r⟩ →
    r.filledQty = ((e.before.book r.symbol).resting.map fun n ↦
      n.order.quantity - e.after.resting r.symbol n.order.id).sum
  /-- No order gains, and the books of other symbols are as they were. -/
  frame : ∀ body r, e.request = .post body → e.response = ⟨200, .report r⟩ →
    (∀ n ∈ (e.before.book r.symbol).resting,
      e.after.resting r.symbol n.order.id ≤ n.order.quantity) ∧
    ∀ symbol ≠ r.symbol, e.after.book symbol = e.before.book symbol
  leaves_qty : ∀ body r, e.request = .post (.ok body) → e.response = ⟨200, .report r⟩ →
    r.filledQty + r.leavesQty = body.parse.quantity

theorem OrderBook.WF.rests_iff {b : OrderBook τ} (h : b.WF) (id : String) :
    (∃ n ∈ b.resting, n.order.id = id) ↔ b.restingQuantity id ≠ 0 := by
  constructor
  · rintro ⟨n, hn, rfl⟩ hzero
    exact h.forall_resting_ne hzero n hn rfl
  · intro hr
    rcases h.restingQuantity_cases id with ⟨-, hzero⟩ | ⟨n, hn, hid, -, -⟩
    · exact absurd hzero hr
    · exact ⟨n, hn, hid⟩

/-- What a POST fills is what the makers in its book lose. -/
theorem Exchange.Sound.filledQty_eq_sum {x : Exchange τ} (h : x.Sound) {o : NewOrder}
    (hcheck : o.check = .ok ()) (env : CallEnv) (reply : TimePoint) :
    (∀ n ∈ (x.book o.symbol).resting,
        n.order.quantity - (x.servePost env reply o).1.resting o.symbol n.order.id
          = makerQuantity n.order.id (x.postFills env o)) ∧
      filledQty (x.postFills env o) = ((x.book o.symbol).resting.map fun n ↦
        n.order.quantity - (x.servePost env reply o).1.resting o.symbol n.order.id).sum := by
  have hwf := h.wf o.symbol
  have hloss : ∀ n ∈ (x.book o.symbol).resting,
      n.order.quantity - (x.servePost env reply o).1.resting o.symbol n.order.id
        = makerQuantity n.order.id (x.postFills env o) := by
    intro n hn
    have hrests : x.resting o.symbol n.order.id = n.order.quantity := hwf.restingQuantity_eq hn
    have hne : n.order.id ≠ x.drawnId o.symbol := fun hid ↦
      hwf.forall_resting_ne (h.resting_drawnId o.symbol o.symbol) n hn hid
    rw [h.resting_servePost hcheck, if_pos rfl, if_neg fun hc ↦ hne hc.1, hrests]
    ring
  refine ⟨hloss, ?_⟩
  rw [List.map_congr_left hloss, ← sum_makerQuantity hwf.ids (fun f hf ↦ ?_), List.map_map]
  · rfl
  · obtain ⟨n, hn, hid⟩ := (hwf.rests_iff f.makerOrderId).mpr (h.of_mem_postFills hcheck env hf).2
    exact List.mem_map.mpr ⟨n, hn, hid⟩

namespace Exchange.Accounts

variable {x : Exchange τ} {past : List (Served τ)}

theorem exact_delete (h : x.Accounts past) {id : String} (reply : TimePoint) {e : Served τ}
    (hbefore : e.before = x) (hrequest : e.request = .delete id)
    (hserve : (e.after, e.response) = x.serveDelete reply id) : e.Exact past := by
  obtain ⟨added, hconsistent⟩ := h.consistent
  have hrests : ∀ symbol, e.before.Rests symbol id ↔ x.resting symbol id ≠ 0 := fun symbol ↦ by
    rw [hbefore]
    exact (hconsistent.wf symbol).rests_iff id
  have hpost : ∀ body, e.request ≠ .post body := fun body hbody ↦ by simp [hrequest] at hbody
  have hdelete : ∀ id', e.request = .delete id' → id' = id := fun id' hid ↦ by
    rw [hrequest, Request.delete.injEq] at hid
    exact hid.symm
  rcases hconsistent.serveDelete_cases reply id with ⟨hzero, heq⟩ | ⟨t, b, ht, hr, -, heq⟩
  · rw [heq, Prod.mk.injEq] at hserve
    obtain ⟨hafter, hresponse⟩ := hserve
    have hfails : ¬∃ r, e.response = ⟨200, .report r⟩ := by simp [hresponse]
    exact {
      delete_iff := fun id' hid ↦ by
        obtain rfl := hdelete id' hid
        refine iff_of_false hfails ?_
        rintro ⟨symbol, -, hsome⟩
        exact (hrests symbol).mp hsome (hzero symbol)
      delete_fails := fun id' hid _ ↦ by
        rw [hafter, hbefore]
        exact ⟨⟨_, hresponse⟩, rfl, rfl⟩
      cum_qty := fun id' r _ hr ↦ absurd ⟨r, hr⟩ hfails
      filled_qty := fun body r hbody ↦ absurd hbody (hpost body)
      frame := fun body r hbody ↦ absurd hbody (hpost body)
      leaves_qty := fun body r hbody ↦ absurd hbody (hpost _) }
  · rw [heq, Prod.mk.injEq] at hserve
    have hresponse := hserve.2
    have hsucceeds : ∃ r, e.response = ⟨200, .report r⟩ := ⟨_, hresponse⟩
    exact {
      delete_iff := fun id' hid ↦ by
        obtain rfl := hdelete id' hid
        exact iff_of_true hsucceeds ⟨t.symbol, h.posted _ _ hr, (hrests t.symbol).mpr hr⟩
      delete_fails := fun id' hid hnot ↦ absurd hsucceeds hnot
      cum_qty := fun id' r hid hreply ↦ by
        obtain rfl := hdelete id' hid
        rw [hresponse] at hreply
        obtain rfl : _ = r := ResponseBody.report.inj (congrArg Response.body hreply)
        exact h.settled id' t ht
      filled_qty := fun body r hbody ↦ absurd hbody (hpost body)
      frame := fun body r hbody ↦ absurd hbody (hpost body)
      leaves_qty := fun body r hbody ↦ absurd hbody (hpost _) }

theorem exact_post (h : x.Accounts past) {body : OrderBody} (hcheck : body.parse.check = .ok ())
    (env : CallEnv) (reply : TimePoint) {e : Served τ} (hbefore : e.before = x)
    (hrequest : e.request = .post (.ok body))
    (hserve : (e.after, e.response) = x.servePost env reply body.parse) : e.Exact past := by
  obtain ⟨added, hconsistent⟩ := h.consistent
  have hsound := hconsistent.sound
  have hafter : e.after = (x.servePost env reply body.parse).1 := congrArg Prod.fst hserve
  have hresponse := (congrArg Prod.snd hserve).trans (hsound.response_servePost hcheck env reply)
  obtain ⟨hloss, hsum⟩ := hsound.filledQty_eq_sum hcheck env reply
  have hdelete : ∀ id, e.request ≠ .delete id := fun id hid ↦ by simp [hrequest] at hid
  -- there is only one report this request can have been answered with
  have hreport : ∀ r, e.response = ⟨200, .report r⟩ →
      r = body.parse.report (x.drawnId body.parse.symbol) (x.postFills env body.parse) reply := by
    intro r hr
    have heq := hresponse.symm.trans hr
    exact (ResponseBody.report.inj (congrArg Response.body heq)).symm
  exact {
    delete_iff := fun id hid ↦ absurd hid (hdelete id)
    delete_fails := fun id hid ↦ absurd hid (hdelete id)
    cum_qty := fun id r hid ↦ absurd hid (hdelete id)
    filled_qty := fun _ r _ hr ↦ by
      rw [hreport r hr, hbefore, hafter]
      exact hsum
    frame := fun _ r _ hr ↦ by
      rw [hreport r hr, hbefore, hafter]
      refine ⟨fun n hn ↦ ?_, fun symbol hne ↦ ?_⟩
      · have hnonneg := makerQuantity_nonneg
          (fun f hf ↦ (hsound.of_mem_postFills hcheck env hf).1) n.order.id
        rw [← hloss n hn] at hnonneg
        exact sub_nonneg.mp hnonneg
      · obtain ⟨b, -, hbook⟩ := hsound.book_servePost hcheck env reply
        exact (hbook symbol).trans (if_neg hne)
    leaves_qty := fun body' r hbody hr ↦ by
      rw [hrequest, Request.post.injEq, Except.ok.injEq] at hbody
      rw [hreport r hr, ← hbody]
      exact add_sub_cancel _ _ }

/-- **Every request is told the truth**, after any history. -/
theorem exact (h : x.Accounts past) (a : Arrival) : (x.record a).2.Exact past := by
  have hrefused : ∀ body, a.request = .post body → ∀ message,
      (x.serve a.env a.reply a.request).2 = ⟨400, .error message⟩ →
      (x.record a).2.Exact past := by
    intro body hbody message hresponse
    have hdelete : ∀ id, (x.record a).2.request ≠ .delete id := fun id hid ↦ by
      have hrequest : a.request = .delete id := hid
      simp [hbody] at hrequest
    have hnone : ∀ r, (x.record a).2.response ≠ ⟨200, .report r⟩ := fun r hr ↦ by
      have heq := hresponse.symm.trans hr
      simp at heq
    exact ⟨fun id hid ↦ absurd hid (hdelete id), fun id hid ↦ absurd hid (hdelete id),
      fun id r hid ↦ absurd hid (hdelete id), fun _ r _ hr ↦ absurd hr (hnone r),
      fun _ r _ hr ↦ absurd hr (hnone r), fun _ r _ hr ↦ absurd hr (hnone r)⟩
  cases hrequest : a.request with
  | delete id =>
    refine h.exact_delete a.reply rfl hrequest ?_
    rw [Exchange.record, hrequest]
    rfl
  | post body =>
    cases body with
    | error what => exact hrefused _ hrequest _ (by rw [hrequest, Exchange.serve])
    | ok body =>
      cases hcheck : body.parse.check with
      | error message =>
        exact hrefused _ hrequest message (by rw [hrequest, Exchange.serve, hcheck])
      | ok u =>
        refine h.exact_post hcheck a.env a.reply rfl hrequest ?_
        rw [Exchange.record, hrequest, Exchange.serve, hcheck]

end Exchange.Accounts

/-- **Reports are exact** at every place of every serial history. -/
theorem serialHistory_exact (arrivals : List Arrival) {past future : List (Served τ)} {e : Served τ}
    (hsplit : serialHistory τ arrivals = past ++ e :: future) : e.Exact past := by
  obtain ⟨before, a, rest, rfl, rfl, rfl, -⟩ := exists_of_mealyRun_eq hsplit
  exact (accounts_mealyRun before).exact a

/-- An order that rests, and its cancellation. -/
def postedAndDeleted : List Arrival :=
  [⟨default, 0, .post (.ok (sampleBody "sell"))⟩, ⟨default, 0, .delete "ORD-AAPL-1"⟩]

theorem serialHistory_exact_postedAndDeleted : ∃ (past : List (Served ℤ)) (e : Served ℤ),
    serialHistory ℤ postedAndDeleted = past ++ [e] ∧ e.request = .delete "ORD-AAPL-1" ∧
      e.response.status = 200 ∧ e.Exact past := by
  refine ⟨[_], _, rfl, rfl, ?_, serialHistory_exact postedAndDeleted rfl⟩
  decide +kernel

end BenchmarkPlatform
