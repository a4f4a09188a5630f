import Mathlib.Data.BitVec
import BenchmarkPlatform.OrderBook.Levels

/-!
# Level totals in 64 bits

`total_quantity` is an `int64_t` that no check bounds. Read in `BitVec 64`, it is the exact sum of
what rests at its price, reduced to 64 bits, so it is exact as long as that sum stays below `2 ^ 63`
and wrong from the moment it does not. Only resting a remainder adds to a price, which gives the
exact condition on each `add_order` (`Call.FitsTotal`): what rests at the order's price and what
matching will leave of the order are together below `2 ^ 63`.

Two valid buy orders of `2 ^ 63 - 1` and `1` at one price fail it: the level then shows `-2 ^ 63`.
-/

namespace BenchmarkPlatform

open Lib

/-- The book with its level totals as declared, in 64-bit two's complement. -/
abbrev OrderBook64 := OrderBook (BitVec 64)

/-- Every price level of a snapshot shows a positive quantity, the sum of what rests there. -/
def OrderBook.ExactTotals (b : OrderBook64) : Prop :=
  ∀ now, (∀ level ∈ (b.getSnapshot now).bids,
      0 < level.quantity.toInt ∧ level.quantity.toInt = b.restingAt .buy level.price) ∧
    ∀ level ∈ (b.getSnapshot now).asks,
      0 < level.quantity.toInt ∧ level.quantity.toInt = b.restingAt .sell level.price

/-- `total_quantity` of the level that `operator[]` finds or creates. -/
def OrderBook.totalAt (b : OrderBook64) (s : Side) (price : ℤ) : BitVec 64 :=
  (((b.side s).lookup price).getD ⟨[], 0⟩).totalQuantity

/-- The call executes `level.total_quantity += ord.quantity`, and that overflows. -/
def Call.Overflows (b : OrderBook64) : Call → Prop
  | .addOrder env ord =>
    let r := b.matchTaker env (ord.resolve env)
    b.Admits (ord.resolve env) ∧ 0 < r.2.taker.quantity ∧ r.2.taker.type = .limit ∧
      (r.1.totalAt r.2.taker.side r.2.taker.price).saddOverflow (r.2.taker.quantity : BitVec 64)
  | .cancelOrder _ => False

/-- If the call is an order that is admitted and that the opposite side cannot serve in full, what
rests at its price together with what will be left of it is below `2 ^ 63`. -/
def Call.FitsTotal (b : OrderBook64) : Call → Prop
  | .addOrder env ord =>
    let taker := ord.resolve env
    b.Admits taker → taker.type = .limit → b.available taker < taker.quantity →
      b.restingAt taker.side taker.price + (taker.quantity - b.available taker) < 2 ^ 63
  | .cancelOrder _ => True

instance (b : OrderBook64) (ord : Order) : Decidable (b.Admits ord) :=
  inferInstanceAs (Decidable (_ ∧ _ ∧ _))

instance (b : OrderBook64) (c : Call) : Decidable (c.FitsTotal b) :=
  match c with
  | .addOrder _ _ => inferInstanceAs (Decidable (_ → _ → _ → _))
  | .cancelOrder _ => isTrue trivial

/-! ## Words and sums -/

theorem toInt_intCast (z : ℤ) : ((z : BitVec 64)).toInt = z.bmod (2 ^ 64) :=
  BitVec.toInt_ofInt z

theorem toInt_intCast_eq_iff {z : ℤ} (hz : 0 ≤ z) : ((z : BitVec 64)).toInt = z ↔ z < 2 ^ 63 := by
  rw [toInt_intCast]
  constructor
  · intro h
    have hlt : z.bmod (2 ^ 64) < (((2 ^ 64 : ℕ) : ℤ) + 1) / 2 := Int.bmod_lt (by decide)
    omega
  · intro h
    exact Int.bmod_eq_of_le (by omega) (by omega)

/-- Adding what fits to an exact total overflows just when the exact sum does not fit. -/
theorem saddOverflow_iff {total quantity : ℤ} (ht : 0 ≤ total) (htotal : total < 2 ^ 63)
    (hq : 0 ≤ quantity) (hquantity : quantity < 2 ^ 63) :
    (total : BitVec 64).saddOverflow (quantity : BitVec 64) = true ↔ 2 ^ 63 ≤ total + quantity := by
  rw [BitVec.saddOverflow, (toInt_intCast_eq_iff ht).mpr htotal,
    (toInt_intCast_eq_iff hq).mpr hquantity]
  simp only [Bool.or_eq_true, decide_eq_true_eq]
  omega

/-! ## The law of a state -/

section State

variable {b : OrderBook64} (h : b.WF)

include h

theorem OrderBook.WF.exact_side_iff (s : Side) :
    (∀ level ∈ snapshotLevels (b.side s), 0 < level.quantity.toInt ∧
        level.quantity.toInt = b.restingAt s level.price)
      ↔ ∀ price, b.restingAt s price < 2 ^ 63 := by
  have hlevel : ∀ e ∈ b.side s, (0 < e.2.totalQuantity.toInt ∧
      e.2.totalQuantity.toInt = b.restingAt s e.1) ↔ b.restingAt s e.1 < 2 ^ 63 := by
    intro e he
    have hpos := h.restingAt_pos he
    rw [h.total_eq he, ← toInt_intCast_eq_iff hpos.le]
    exact ⟨And.right, fun heq ↦ ⟨by rw [heq]; exact hpos, heq⟩⟩
  constructor
  · intro hexact price
    by_cases hmem : price ∈ (b.side s).map Prod.fst
    · obtain ⟨e, he, rfl⟩ := List.mem_map.mp hmem
      have hne : (!e.2.orders.isEmpty) = true := by simpa using (h.levels s e he).nonempty
      exact (hlevel e he).mp (hexact ⟨e.1, e.2.totalQuantity, toInt32 e.2.orders.length⟩
        (List.mem_map.mpr ⟨e, List.mem_filter.mpr ⟨he, hne⟩, rfl⟩))
    · rw [h.restingAt_of_notMem hmem]
      decide
  · intro hfits level hmem
    obtain ⟨e, he, rfl⟩ := List.mem_map.mp hmem
    have he := (List.mem_filter.mp he).1
    exact (hlevel e he).mpr (hfits e.1)

/-- **When the totals are exact**: when no price holds `2 ^ 63` or more. -/
theorem OrderBook.WF.exactTotals_iff :
    b.ExactTotals ↔ ∀ s price, b.restingAt s price < 2 ^ 63 := by
  constructor
  · intro hexact s
    cases s with
    | buy => exact (h.exact_side_iff .buy).mp (hexact 0).1
    | sell => exact (h.exact_side_iff .sell).mp (hexact 0).2
  · intro hfits now
    exact ⟨(h.exact_side_iff .buy).mpr (hfits .buy), (h.exact_side_iff .sell).mpr (hfits .sell)⟩

theorem OrderBook.WF.totalAt_eq (s : Side) (price : ℤ) :
    b.totalAt s price = (b.restingAt s price : BitVec 64) := by
  rw [OrderBook.totalAt]
  cases hlookup : (b.side s).lookup price with
  | none =>
    have hnot : price ∉ (b.side s).map Prod.fst := by
      intro hmem
      obtain ⟨e, he, rfl⟩ := List.mem_map.mp hmem
      simpa using List.lookup_eq_none_iff.mp hlookup e he
    rw [h.restingAt_of_notMem hnot]
    rfl
  | some level =>
    obtain ⟨l, r, hsplit, -⟩ := List.lookup_eq_some_iff.mp hlookup
    have he : (price, level) ∈ b.side s := by
      rw [hsplit]
      exact List.mem_append_right _ List.mem_cons_self
    exact h.total_eq he

end State

/-! ## One call -/

/-- An accepted order keeps every price below `2 ^ 63` just when its own price gets that far. -/
theorem accept_fits_iff {b : OrderBook64} (h : b.WF)
    (hfits : ∀ s price, b.restingAt s price < 2 ^ 63) (env : CallEnv) {taker : Order}
    (hq : 0 < taker.quantity) :
    (taker.type = .limit → b.available taker < taker.quantity →
        b.restingAt taker.side taker.price + (taker.quantity - b.available taker) < 2 ^ 63)
      ↔ ∀ s price, (b.accept env taker).restingAt s price < 2 ^ 63 := by
  have hleft := h.left_swept hq.le
  constructor
  · intro hguard s price
    by_cases hs : s = taker.side
    · subst hs
      rw [accept_restingAt_own h env hq.le]
      have hbefore := hfits taker.side price
      split_ifs with hat
      · obtain ⟨htype, rfl⟩ := hat
        have hguard := hguard htype
        omega
      · omega
    · obtain rfl := Side.eq_opposite_of_ne hs
      exact (accept_restingAt_opposite_le h env taker price).trans_lt (hfits _ price)
  · intro hafter htype hrest
    have hprice := hafter taker.side taker.price
    rw [accept_restingAt_own h env hq.le, if_pos ⟨htype, rfl⟩] at hprice
    omega

/-- **What keeps the totals exact**: from exact totals, a call leads to exact totals again just when
it fits. -/
theorem call_exactTotals_iff {b : OrderBook64} (h : b.WF) (hexact : b.ExactTotals) (c : Call) :
    c.FitsTotal b ↔ (b.call c).1.ExactTotals := by
  have hfits := h.exactTotals_iff.mp hexact
  rw [(call_wf h c).exactTotals_iff]
  cases c with
  | addOrder env ord =>
    rw [Call.FitsTotal, OrderBook.call]
    rcases b.addOrder_cases env ord with ⟨message, hthrow, hadm⟩ | ⟨hadm, hok⟩
    · rw [hthrow]
      exact iff_of_true (fun h ↦ absurd h hadm) hfits
    · rw [hok]
      exact (forall_prop_of_true hadm).trans (accept_fits_iff h hfits env hadm.1)
  | cancelOrder id =>
    apply iff_of_true trivial
    intro s price
    rw [OrderBook.call]
    rcases cancelOrder_spec h id with ⟨-, hnone⟩ | ⟨n, -, -, -, spec⟩
    · rw [hnone]
      exact hfits s price
    · exact (spec.restingAt_le h s price).trans_lt (hfits s price)

/-- From exact totals, the addition of a call overflows just when the call does not fit. -/
theorem overflows_iff {b : OrderBook64} (h : b.WF) (hexact : b.ExactTotals) {c : Call}
    (hint : ∀ env ord, c = .addOrder env ord → ord.quantity < 2 ^ 63) :
    c.Overflows b ↔ ¬c.FitsTotal b := by
  have hfits := h.exactTotals_iff.mp hexact
  cases c with
  | addOrder env ord =>
    have hquantity : (ord.resolve env).quantity < 2 ^ 63 := by
      rw [ord.resolve_eq env]
      exact hint env ord rfl
    rw [Call.Overflows, Call.FitsTotal]
    generalize ord.resolve env = taker at hquantity ⊢
    rw [(matchTaker_spec h env taker).taker]
    dsimp only
    by_cases hadm : b.Admits taker
    · have hleft := h.left_swept hadm.1.le
      have hbefore := hfits taker.side taker.price
      have hnonneg := h.restingAt_nonneg taker.side taker.price
      have havailable : 0 ≤ b.available taker := List.sum_nonneg fun w hw ↦ by
        obtain ⟨n, hn, rfl⟩ := List.mem_map.mp hw
        exact (h.weight_pos n (List.mem_filter.mp hn).1).le
      -- the own side is as it was when the remainder is added
      have hown : (b.matchTaker env taker).1.restingAt taker.side taker.price
          = b.restingAt taker.side taker.price := by
        rw [OrderBook.restingAt, (matchTaker_spec h env taker).nodes_own, OrderBook.restingAt]
      rw [(matchTaker_wf h env taker).totalAt_eq, hown,
        saddOverflow_iff hnonneg hbefore (by omega) (by omega)]
      constructor
      · rintro ⟨-, hpos, htype, hover⟩ hguard
        have hguard := hguard hadm htype (by omega)
        omega
      · intro hguard
        simp only [Classical.not_imp] at hguard
        obtain ⟨-, htype, hrest, hover⟩ := hguard
        exact ⟨hadm, by omega, htype, by omega⟩
    · exact iff_of_false (fun h ↦ hadm h.1) (not_not.mpr fun h ↦ absurd h hadm)
  | cancelOrder id => exact iff_of_false not_false (not_not.mpr trivial)

/-! ## Runs -/

/-- What the level totals of a book under these calls should satisfy: every snapshot exact, no
addition out of range. -/
def ExactRun (symbol : String) (calls : List Call) : Prop :=
  (∀ made, made <+: calls → (OrderBook.run symbol made : OrderBook64).ExactTotals) ∧
    ∀ made c, made ++ [c] <+: calls → ¬c.Overflows (OrderBook.run symbol made)

theorem run_concat {τ : Type} [AddGroupWithOne τ] (symbol : String) (made : List Call) (c : Call) :
    (OrderBook.run symbol (made ++ [c]) : OrderBook τ)
      = ((OrderBook.run symbol made).call c).1 := by
  rw [OrderBook.run, mealyRun_append]
  rfl

/-- **When level totals are exact.** For every sequence of calls whose quantities are `int64_t`s:
every snapshot shows the exact positive total of each level, and no addition overflows, if and only
if each call fits the book it meets. -/
theorem exactRun_iff (symbol : String) (calls : List Call)
    (hint : ∀ env ord, Call.addOrder env ord ∈ calls → ord.quantity < 2 ^ 63) :
    (∀ made c, made ++ [c] <+: calls → c.FitsTotal (OrderBook.run symbol made))
      ↔ ExactRun symbol calls := by
  constructor
  · intro hfits
    have hexact : ∀ made, made <+: calls →
        (OrderBook.run symbol made : OrderBook64).ExactTotals := by
      intro made
      induction made using List.reverseRecOn with
      | nil =>
        intro _
        apply ((OrderBook.wf_new symbol).exactTotals_iff).mpr
        intro s price
        cases s <;> exact (by decide : (0 : ℤ) < 2 ^ 63)
      | append_singleton made c ih =>
        intro hmade
        rw [run_concat]
        exact (call_exactTotals_iff (run_wf symbol made)
          (ih ((List.prefix_append made [c]).trans hmade)) c).mp (hfits made c hmade)
    refine ⟨hexact, ?_⟩
    intro made c hmade
    have hmem : c ∈ calls := hmade.subset (by simp)
    rw [overflows_iff (run_wf symbol made) (hexact made ((List.prefix_append made [c]).trans hmade))
      fun env ord heq ↦ hint env ord (heq ▸ hmem), not_not]
    exact hfits made c hmade
  · rintro ⟨hexact, -⟩ made c hmade
    have hafter := hexact _ hmade
    rw [run_concat] at hafter
    exact (call_exactTotals_iff (run_wf symbol made)
      (hexact made ((List.prefix_append made [c]).trans hmade)) c).mpr hafter

/-- A buy order of the largest `int64_t`. -/
def largestBuy : Call := .addOrder default ⟨"b1", "", .buy, .limit, 10, 2 ^ 63 - 1, 1⟩

/-- On its own it is shown exactly. -/
theorem exactRun_largestBuy : ExactRun "ACME" [largestBuy] := by
  refine (exactRun_iff "ACME" [largestBuy] fun env ord hmem ↦ ?_).mp fun made c hmade ↦ ?_
  · obtain ⟨-, rfl⟩ : default = env ∧ _ = ord := by
      simpa [largestBuy, eq_comm] using hmem
    decide
  · obtain ⟨rfl, rfl⟩ : made = [] ∧ c = largestBuy := by
      cases made with
      | nil => simpa using hmade
      | cons d made => simpa using hmade.length_le
    intro _ _ _
    decide

/-- One more unit at its price, and the level shows a negative total. -/
theorem largestBuy_overflows :
    ¬ExactRun "ACME" [largestBuy, .addOrder default ⟨"b2", "", .buy, .limit, 10, 1, 1⟩] := by
  intro h
  have hlevel := ((h.1 _ List.prefix_rfl) 0).1 ⟨10, BitVec.intMin 64, 2⟩ (by decide)
  exact absurd hlevel.1 (by decide)

end BenchmarkPlatform
