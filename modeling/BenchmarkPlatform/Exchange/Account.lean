import Mathlib.Algebra.Order.BigOperators.Group.Multiset
import Mathlib.Data.Multiset.Filter
import BenchmarkPlatform.Exchange.Server

/-!
# The account of each order

Books and index are updated in separate steps, so between them the requests in flight owe the index
something: the fills they have not reported to the makers' trackers, the tracker of the order they
have just rested, the erasure of the one they have just cancelled. `Consistent` adds this up: what a
tracker says is what rests of the order and what is still owed on it. It speaks of the requests in
flight as a multiset, so that a step only ever replaces one of them.

There is one lemma for each step that settles something: `addOrder`, `updateMaker`, `insertTracker`,
`cancelOrder` and `eraseTracker`. Only `updateMaker` needs more than the account itself.
-/

namespace BenchmarkPlatform

open Lib

/-! ## Order ids -/

/-- The number of an order can be read off its id. -/
theorem nextOrderId_inj {symbol symbol' : String} {n n' : ℕ}
    (h : nextOrderId symbol n = nextOrderId symbol' n') : n = n' := by
  have hdigits : ∀ (a : List Char) (m : ℕ),
      ((a ++ '-' :: Nat.toDigits 10 m).reverse.takeWhile (· ≠ '-')).reverse =
        Nat.toDigits 10 m := by
    intro a m
    have hno : ∀ c ∈ (Nat.toDigits 10 m).reverse, decide (c ≠ '-') = true := by
      intro c hc
      have hdigit := Nat.isDigit_of_mem_toDigits (b := 10) (by decide) (by decide)
        (List.mem_reverse.mp hc)
      refine decide_eq_true fun heq ↦ ?_
      rw [heq] at hdigit
      exact absurd hdigit (by decide)
    rw [List.reverse_append, List.reverse_cons, List.append_assoc, List.singleton_append,
      List.takeWhile_append_of_pos hno, List.takeWhile_cons_of_neg (by decide), List.append_nil,
      List.reverse_reverse]
  have hlist : ∀ (s : String) (m : ℕ), (nextOrderId s m).toList
      = ("ORD-".toList ++ s.toList) ++ '-' :: Nat.toDigits 10 m := by
    intro s m
    simp [nextOrderId, Nat.toString_eq_repr]
  have htoList := congrArg String.toList h
  rw [hlist, hlist] at htoList
  have heq : Nat.toDigits 10 n = Nat.toDigits 10 n' := by
    rw [← hdigits ("ORD-".toList ++ symbol.toList) n, htoList, hdigits]
  rw [← Nat.ofDigitChars_ten_toDigits (n := n), heq, Nat.ofDigitChars_ten_toDigits]

theorem nextOrderId_ne_empty (symbol : String) (n : ℕ) : nextOrderId symbol n ≠ "" := by
  intro h
  have hlist := congrArg String.toList h
  simp [nextOrderId] at hlist

/-! ## What requests in flight still owe -/

variable {τ : Type}

namespace RequestPc

/-- The number drawn by a POST that has not answered. -/
def postId : RequestPc → Option String
  | .postAdd _ orderId => some orderId
  | .postMakers _ orderId _ _ => some orderId
  | _ => none

/-- The order a DELETE has found the tracker of. -/
def deleteId : RequestPc → Option String
  | .deleteBook orderId _ => some orderId
  | .deleteCancel orderId _ => some orderId
  | .deleteErase orderId _ => some orderId
  | _ => none

/-- What fills still to be reported took from the maker of an id. -/
def pending (id : String) : RequestPc → ℤ
  | .postMakers _ _ _ todo => makerQuantity id todo
  | _ => 0

/-- The tracker of a resting order is still to be written. -/
def Inserting (o : NewOrder) (id : String) (fills : List Fill) (pc : RequestPc) : Prop :=
  ∃ todo, pc = .postMakers o id fills todo ∧ o.Tracked fills

/-- The request owes the index nothing. -/
structure Plain (pc : RequestPc) : Prop where
  pending : ∀ id, pc.pending id = 0
  inserting : ∀ o id fills, ¬pc.Inserting o id fills
  erasing : ∀ id t, pc ≠ .deleteErase id t

theorem postId_of_inserting {o : NewOrder} {id : String} {fills : List Fill} {pc : RequestPc}
    (h : pc.Inserting o id fills) : pc.postId = some id := by
  obtain ⟨todo, rfl, -⟩ := h
  rfl

theorem inserting_postMakers {o o' : NewOrder} {id id' : String} {fills fills' todo : List Fill} :
    (postMakers o id fills todo).Inserting o' id' fills' ↔
      o = o' ∧ id = id' ∧ fills = fills' ∧ o.Tracked fills := by
  constructor
  · rintro ⟨todo', heq, htracked⟩
    simp only [postMakers.injEq] at heq
    obtain ⟨rfl, rfl, rfl, -⟩ := heq
    exact ⟨rfl, rfl, rfl, htracked⟩
  · rintro ⟨rfl, rfl, rfl, htracked⟩
    exact ⟨todo, rfl, htracked⟩

theorem inserting_inj {o o' : NewOrder} {id id' : String} {fills fills' : List Fill}
    {pc : RequestPc} (h : pc.Inserting o id fills) (h' : pc.Inserting o' id' fills') :
    o = o' ∧ id = id' ∧ fills = fills' := by
  obtain ⟨todo, rfl, -⟩ := h
  obtain ⟨todo', heq, -⟩ := h'
  simp only [postMakers.injEq] at heq
  exact ⟨heq.1, heq.2.1, heq.2.2.1⟩

end RequestPc

open RequestPc

/-- Some request has still to write the tracker of the order. -/
def Inserts (ts : Multiset RequestPc) (id : String) : Prop :=
  ∃ pc ∈ ts, ∃ o fills, pc.Inserting o id fills

/-- The order whose tracker a request has still to write. -/
def RequestPc.insertId : RequestPc → Option String
  | .postMakers o id fills _ => if o.Tracked fills then some id else none
  | _ => none

theorem inserting_iff_insertId {pc : RequestPc} {id : String} :
    (∃ o fills, pc.Inserting o id fills) ↔ pc.insertId = some id := by
  cases pc with
  | postMakers o id' fills todo =>
    simp only [inserting_postMakers, insertId]
    constructor
    · rintro ⟨o', fills', -, rfl, -, htracked⟩
      exact if_pos htracked
    · intro hid
      split_ifs at hid with htracked
      exact ⟨o, fills, rfl, Option.some_inj.mp hid, rfl, htracked⟩
  | _ => simp [Inserting, insertId]

instance (ts : Multiset RequestPc) (id : String) : Decidable (Inserts ts id) :=
  have : Decidable (∃ pc ∈ ts, pc.insertId = some id) := Multiset.decidableExistsMultiset
  decidable_of_iff (∃ pc ∈ ts, pc.insertId = some id)
    (exists_congr fun _ ↦ and_congr_right fun _ ↦ inserting_iff_insertId.symm)

/-- Some request has cancelled the order and has still to erase its tracker. -/
def Erases (ts : Multiset RequestPc) (id : String) : Prop := ∃ pc ∈ ts, ∃ t, pc = .deleteErase id t

/-- What fills still to be reported took from the maker of an id, over all requests. -/
def pendingOf (ts : Multiset RequestPc) (id : String) : ℤ := (ts.map (pending id)).sum

@[simp] theorem pendingOf_cons (pc : RequestPc) (ts : Multiset RequestPc) (id : String) :
    pendingOf (pc ::ₘ ts) id = pc.pending id + pendingOf ts id := by
  rw [pendingOf, Multiset.map_cons, Multiset.sum_cons, pendingOf]

theorem inserts_cons {pc : RequestPc} {ts : Multiset RequestPc} {id : String} :
    Inserts (pc ::ₘ ts) id ↔ (∃ o fills, pc.Inserting o id fills) ∨ Inserts ts id := by
  simp only [Inserts, Multiset.mem_cons, or_and_right, exists_or, exists_eq_left]

theorem erases_cons {pc : RequestPc} {ts : Multiset RequestPc} {id : String} :
    Erases (pc ::ₘ ts) id ↔ (∃ t, pc = .deleteErase id t) ∨ Erases ts id := by
  simp only [Erases, Multiset.mem_cons, or_and_right, exists_or, exists_eq_left]

section Cons

variable {o : NewOrder} {t : OrderTracker} {ts : Multiset RequestPc} {fills todo : List Fill}
  {id m : String}

theorem inserts_cons_postMakers : Inserts (.postMakers o id fills todo ::ₘ ts) m ↔
    (id = m ∧ o.Tracked fills) ∨ Inserts ts m := by
  rw [inserts_cons, inserting_iff_insertId, insertId, Option.ite_none_right_eq_some,
    Option.some_inj, and_comm]

@[simp] theorem erases_cons_postMakers :
    Erases (.postMakers o id fills todo ::ₘ ts) m ↔ Erases ts m := by
  simp only [erases_cons, reduceCtorEq, exists_false, false_or]

@[simp] theorem inserts_cons_deleteErase :
    Inserts (.deleteErase id t ::ₘ ts) m ↔ Inserts ts m := by
  rw [inserts_cons, inserting_iff_insertId, or_iff_right]
  exact Option.some_ne_none m ∘ Eq.symm

theorem erases_cons_deleteErase :
    Erases (.deleteErase id t ::ₘ ts) m ↔ id = m ∨ Erases ts m := by
  simp only [erases_cons, deleteErase.injEq, exists_and_left, exists_eq', and_true]

@[simp] theorem pendingOf_cons_deleteErase :
    pendingOf (.deleteErase id t ::ₘ ts) m = pendingOf ts m := by
  rw [pendingOf_cons]
  exact zero_add _

end Cons

theorem eq_of_filterMap_nodup {α β : Type*} {f : α → Option β} {ts : Multiset α}
    (h : (ts.filterMap f).Nodup) {a b : α} {k : β} (ha : a ∈ ts) (hb : b ∈ ts)
    (hfa : f a = some k) (hfb : f b = some k) : a = b := by
  obtain ⟨us, rfl⟩ := Multiset.exists_cons_of_mem ha
  rw [Multiset.filterMap_cons_some f a us hfa, Multiset.nodup_cons] at h
  rcases Multiset.mem_cons.mp hb with rfl | hb
  · rfl
  · exact absurd ((Multiset.mem_filterMap f us).mpr ⟨b, hb, hfb⟩) h.1

theorem makerQuantity_nonneg {fills : List Fill} (h : ∀ f ∈ fills, 0 < f.quantity) (id : String) :
    0 ≤ makerQuantity id fills :=
  List.sum_nonneg fun q hq ↦ by
    obtain ⟨f, hf, rfl⟩ := List.mem_map.mp hq
    exact (h f (List.mem_filter.mp hf).1).le

theorem makerQuantity_of_forall_ne {fills : List Fill} {id : String}
    (h : ∀ f ∈ fills, f.makerOrderId ≠ id) : makerQuantity id fills = 0 := by
  rw [makerQuantity, List.filter_eq_nil_iff.mpr fun f hf ↦ by simpa using h f hf]
  rfl

theorem makerQuantity_cons (id : String) (f : Fill) (fills : List Fill) :
    makerQuantity id (f :: fills)
      = (if f.makerOrderId = id then f.quantity else 0) + makerQuantity id fills := by
  rw [makerQuantity, makerQuantity, List.filter_cons]
  by_cases h : f.makerOrderId = id <;> simp [h]

namespace Exchange

/-- What rests of an order in the book of a symbol. -/
def resting (x : Exchange τ) (symbol id : String) : ℤ := (x.book symbol).restingQuantity id

/-- The id has been drawn. -/
def Issued (x : Exchange τ) (id : String) : Prop :=
  ∃ symbol n, n ≤ x.orderCounter ∧ id = nextOrderId symbol n

theorem Issued.mono {x x' : Exchange τ} {id : String} (h : x.Issued id)
    (hle : x.orderCounter ≤ x'.orderCounter) : x'.Issued id := by
  obtain ⟨symbol, n, hn, hid⟩ := h
  exact ⟨symbol, n, hn.trans hle, hid⟩

theorem Issued.ne_empty {x : Exchange τ} {id : String} (h : x.Issued id) : id ≠ "" := by
  obtain ⟨symbol, n, -, rfl⟩ := h
  exact nextOrderId_ne_empty symbol n

/-- The number drawn next is new. -/
theorem not_issued_next (x : Exchange τ) (symbol : String) :
    ¬x.Issued (nextOrderId symbol (x.orderCounter + 1)) := by
  rintro ⟨symbol', n, hn, heq⟩
  have hinj := nextOrderId_inj heq
  omega

theorem book_insert (x : Exchange τ) (symbol symbol' : String) (b : OrderBook τ) :
    Exchange.book { x with orderbooks := x.orderbooks.insert symbol b } symbol'
      = if symbol' = symbol then b else x.book symbol' := by
  rw [book, book]
  split_ifs with h
  · rw [h, Finmap.lookup_insert]
    rfl
  · rw [Finmap.lookup_insert_of_ne _ h]

theorem resting_insert (x : Exchange τ) (symbol symbol' id : String) (b : OrderBook τ) :
    Exchange.resting { x with orderbooks := x.orderbooks.insert symbol b } symbol' id
      = if symbol' = symbol then b.restingQuantity id else x.resting symbol' id := by
  rw [resting, book_insert]
  split_ifs <;> rfl

@[simp] theorem book_getOrCreateBook (x : Exchange τ) (symbol symbol' : String) :
    (x.getOrCreateBook symbol).book symbol' = x.book symbol' := by
  rw [getOrCreateBook, book_insert]
  split_ifs with h
  · rw [h]
  · rfl

/-- The index after a maker update. -/
theorem lookup_updateMaker (x : Exchange τ) (f : Fill) (m : String) :
    (x.updateMaker f).orderIndex.lookup m = if m = f.makerOrderId then
        (x.orderIndex.lookup m).bind fun t ↦ if t.remainingQty - f.quantity ≤ 0 then none
          else some { t with remainingQty := t.remainingQty - f.quantity }
      else x.orderIndex.lookup m := by
  rw [updateMaker]
  by_cases hm : m = f.makerOrderId
  · subst hm
    rw [if_pos rfl]
    cases ht : x.orderIndex.lookup f.makerOrderId with
    | none => simpa using ht
    | some t =>
      dsimp only
      rw [Option.bind_some]
      split_ifs
      · exact Finmap.lookup_erase _ _
      · exact Finmap.lookup_insert _
  · rw [if_neg hm]
    cases x.orderIndex.lookup f.makerOrderId with
    | none => rfl
    | some t =>
      dsimp only
      split_ifs
      · exact Finmap.lookup_erase_ne hm
      · exact Finmap.lookup_insert_of_ne _ hm

theorem book_updateMaker (x : Exchange τ) (f : Fill) (symbol : String) :
    (x.updateMaker f).book symbol = x.book symbol := by
  rw [updateMaker]
  split <;> rfl

end Exchange

/-! ## The account of each order -/

variable [AddGroupWithOne τ]

/-- The account, `added` being the ids handed to a book so far. An order is *tracked* once its
tracker is written; before that, the POST that added it is *inserting*; a cancelled order may be
tracked until its DELETE erases it. -/
structure Consistent (added : Finset String) (x : Exchange τ) (ts : Multiset RequestPc) :
    Prop where
  wf : ∀ symbol, (x.book symbol).WF
  issued : ∀ id ∈ added, x.Issued id
  drawn : ∀ pc ∈ ts, ∀ id, pc.postId = some id → x.Issued id
  unadded : ∀ pc ∈ ts, ∀ o id, pc = .postAdd o id → id ∉ added
  distinct : (ts.filterMap postId).Nodup
  rested : ∀ symbol id, x.resting symbol id ≠ 0 → id ∈ added
  makers : ∀ pc ∈ ts, ∀ o id fills todo, pc = .postMakers o id fills todo →
    id ∈ added ∧ ∀ f ∈ todo, 0 < f.quantity ∧ f.makerOrderId ∈ added
  deleting : ∀ pc ∈ ts, ∀ id, pc.deleteId = some id → id ∈ added ∧ ¬Inserts ts id
  erased : ∀ id, Erases ts id → ∀ symbol, x.resting symbol id = 0
  tracked : ∀ id t, x.orderIndex.lookup id = some t →
    id ∈ added ∧ 0 < t.remainingQty ∧ ¬Inserts ts id
  balance : ∀ id t, x.orderIndex.lookup id = some t → ¬Erases ts id →
    t.remainingQty = x.resting t.symbol id + pendingOf ts id
  inserting : ∀ pc ∈ ts, ∀ o id fills, pc.Inserting o id fills →
    leavesQty o fills = x.resting o.symbol id + pendingOf ts id
  cover : ∀ symbol id, x.resting symbol id ≠ 0 →
    (∃ t, x.orderIndex.lookup id = some t ∧ t.symbol = symbol) ∨
      ∃ pc ∈ ts, ∃ o fills, pc.Inserting o id fills ∧ o.symbol = symbol

namespace Consistent

variable {added : Finset String} {x x' : Exchange τ} {pc : RequestPc} {ts : Multiset RequestPc}
  {o : NewOrder} {id : String} {fills todo : List Fill} {f : Fill}

/-- A tracked order rests in the book of its own symbol only. -/
theorem symbol_of_tracked (h : Consistent added x ts) {id symbol : String} {t : OrderTracker}
    (ht : x.orderIndex.lookup id = some t) (hr : x.resting symbol id ≠ 0) : t.symbol = symbol := by
  rcases h.cover symbol id hr with ⟨t', ht', hsymbol⟩ | ⟨pc, hpc, o, fills, hins, -⟩
  · rw [ht, Option.some_inj] at ht'
    exact ht' ▸ hsymbol
  · exact absurd ⟨pc, hpc, o, fills, hins⟩ (h.tracked id t ht).2.2

/-- So does an order whose tracker is still to be written. -/
theorem symbol_of_inserting (h : Consistent added x ts) {id symbol : String} {o : NewOrder}
    {fills : List Fill} (hpc : pc ∈ ts) (hins : pc.Inserting o id fills)
    (hr : x.resting symbol id ≠ 0) : o.symbol = symbol := by
  rcases h.cover symbol id hr with ⟨t, ht, -⟩ | ⟨pc', hpc', o', fills', hins', hsymbol⟩
  · exact absurd ⟨pc, hpc, o, fills, hins⟩ (h.tracked id t ht).2.2
  · have heq := eq_of_filterMap_nodup h.distinct hpc hpc' (postId_of_inserting hins)
      (postId_of_inserting hins')
    subst heq
    rw [(inserting_inj hins hins').1]
    exact hsymbol

theorem pendingOf_tail_nonneg (h : Consistent added x (pc ::ₘ ts)) (id : String) :
    0 ≤ pendingOf ts id := by
  refine Multiset.sum_nonneg fun q hq ↦ ?_
  obtain ⟨pc', hpc, rfl⟩ := Multiset.mem_map.mp hq
  cases pc' with
  | postMakers o id' fills todo =>
    exact makerQuantity_nonneg (fun f hf ↦
      ((h.makers _ (Multiset.mem_cons_of_mem hpc) o id' fills todo rfl).2 f hf).1) id
  | _ => exact le_rfl

theorem pendingOf_of_notMem (h : Consistent added x ts) {id : String} (hid : id ∉ added) :
    pendingOf ts id = 0 := by
  refine Multiset.sum_eq_zero fun q hq ↦ ?_
  obtain ⟨pc, hpc, rfl⟩ := Multiset.mem_map.mp hq
  cases pc with
  | postMakers o id' fills todo =>
    refine makerQuantity_of_forall_ne fun f hf heq ↦ hid ?_
    exact heq ▸ ((h.makers _ hpc o id' fills todo rfl).2 f hf).2
  | _ => rfl

/-! ### Requests that owe nothing come and go -/

theorem inserts_cons_plain (hpc : pc.Plain) {id : String} :
    Inserts (pc ::ₘ ts) id ↔ Inserts ts id := by
  rw [inserts_cons, or_iff_right]
  exact fun ⟨o, fills, hins⟩ ↦ hpc.inserting o id fills hins

theorem erases_cons_plain (hpc : pc.Plain) {id : String} :
    Erases (pc ::ₘ ts) id ↔ Erases ts id := by
  rw [erases_cons, or_iff_right]
  exact fun ⟨t, heq⟩ ↦ hpc.erasing id t heq

theorem drop (h : Consistent added x (pc ::ₘ ts)) (hpc : pc.Plain) : Consistent added x ts where
  wf := h.wf
  issued := h.issued
  drawn q hq := h.drawn q (Multiset.mem_cons_of_mem hq)
  unadded q hq := h.unadded q (Multiset.mem_cons_of_mem hq)
  distinct := Multiset.nodup_of_le
    (Multiset.filterMap_le_filterMap _ (Multiset.le_cons_self ts pc)) h.distinct
  rested := h.rested
  makers q hq := h.makers q (Multiset.mem_cons_of_mem hq)
  -- a plain request is about to insert, erase or settle nothing
  deleting q hq id hid := by
    have hd := h.deleting q (Multiset.mem_cons_of_mem hq) id hid
    rwa [inserts_cons_plain hpc] at hd
  erased id he := h.erased id ((erases_cons_plain hpc).mpr he)
  tracked id t ht := by
    have h' := h.tracked id t ht
    rwa [inserts_cons_plain hpc] at h'
  balance id t ht he := by
    have hb := h.balance id t ht fun he' ↦ he ((erases_cons_plain hpc).mp he')
    rwa [pendingOf_cons, hpc.pending, zero_add] at hb
  inserting q hq o id fills hins := by
    have hi := h.inserting q (Multiset.mem_cons_of_mem hq) o id fills hins
    rwa [pendingOf_cons, hpc.pending, zero_add] at hi
  cover symbol id hr := by
    rcases h.cover symbol id hr with ht | ⟨q, hq, o, fills, hins, hsymbol⟩
    · exact Or.inl ht
    · rcases Multiset.mem_cons.mp hq with rfl | hq
      · exact absurd hins (hpc.inserting o id fills)
      · exact Or.inr ⟨q, hq, o, fills, hins, hsymbol⟩

theorem add (h : Consistent added x ts) (hpc : pc.Plain)
    (hmakers : ∀ o id fills todo, pc ≠ .postMakers o id fills todo)
    (hdrawn : ∀ id, pc.postId = some id → x.Issued id ∧ id ∉ added ∧ id ∉ ts.filterMap postId)
    (hdelete : ∀ id, pc.deleteId = some id → id ∈ added ∧ ¬Inserts ts id) :
    Consistent added x (pc ::ₘ ts) where
  wf := h.wf
  issued := h.issued
  drawn q hq id hid := by
    rcases Multiset.mem_cons.mp hq with rfl | hq
    · exact (hdrawn id hid).1
    · exact h.drawn q hq id hid
  unadded q hq o id heq := by
    rcases Multiset.mem_cons.mp hq with rfl | hq
    · exact (hdrawn id (by rw [heq]; rfl)).2.1
    · exact h.unadded q hq o id heq
  distinct := by
    cases hid : pc.postId with
    | none =>
      rw [Multiset.filterMap_cons_none pc ts hid]
      exact h.distinct
    | some id =>
      rw [Multiset.filterMap_cons_some _ pc ts hid, Multiset.nodup_cons]
      exact ⟨(hdrawn id hid).2.2, h.distinct⟩
  rested := h.rested
  makers q hq o id fills todo heq := by
    rcases Multiset.mem_cons.mp hq with rfl | hq
    · exact absurd heq (hmakers o id fills todo)
    · exact h.makers q hq o id fills todo heq
  deleting q hq id hid := by
    rw [inserts_cons_plain hpc]
    rcases Multiset.mem_cons.mp hq with rfl | hq
    · exact hdelete id hid
    · exact h.deleting q hq id hid
  erased id he := h.erased id ((erases_cons_plain hpc).mp he)
  tracked id t ht := by
    rw [inserts_cons_plain hpc]
    exact h.tracked id t ht
  balance id t ht he := by
    rw [pendingOf_cons, hpc.pending, zero_add]
    exact h.balance id t ht fun he' ↦ he ((erases_cons_plain hpc).mpr he')
  inserting q hq o id fills hins := by
    rw [pendingOf_cons, hpc.pending, zero_add]
    rcases Multiset.mem_cons.mp hq with rfl | hq
    · exact absurd hins (hpc.inserting o id fills)
    · exact h.inserting q hq o id fills hins
  cover symbol id hr := by
    rcases h.cover symbol id hr with ht | ⟨q, hq, o, fills, hins, hsymbol⟩
    · exact Or.inl ht
    · exact Or.inr ⟨q, Multiset.mem_cons_of_mem hq, o, fills, hins, hsymbol⟩

/-- Creating an empty book or drawing a number changes no account. -/
theorem congr (h : Consistent added x ts) (hbook : ∀ symbol, x'.book symbol = x.book symbol)
    (hindex : x'.orderIndex = x.orderIndex) (hcounter : x.orderCounter ≤ x'.orderCounter) :
    Consistent added x' ts := by
  have hresting : ∀ symbol id, x'.resting symbol id = x.resting symbol id := fun symbol id ↦ by
    rw [Exchange.resting, hbook, Exchange.resting]
  exact {
    wf := fun symbol ↦ by
      rw [hbook]
      exact h.wf symbol
    issued := fun id hid ↦ (h.issued id hid).mono hcounter
    drawn := fun q hq id hid ↦ (h.drawn q hq id hid).mono hcounter
    unadded := h.unadded
    distinct := h.distinct
    rested := fun symbol id hr ↦ h.rested symbol id (hresting symbol id ▸ hr)
    makers := h.makers
    deleting := h.deleting
    erased := fun id he symbol ↦ (hresting symbol id).trans (h.erased id he symbol)
    tracked := fun id t ht ↦ h.tracked id t (hindex ▸ ht)
    balance := fun id t ht he ↦ by
      rw [hresting]
      exact h.balance id t (hindex ▸ ht) he
    inserting := fun q hq o id fills hins ↦ by
      rw [hresting]
      exact h.inserting q hq o id fills hins
    cover := fun symbol id hr ↦ by
      rw [hindex]
      exact h.cover symbol id (hresting symbol id ▸ hr) }

/-! ### The steps that settle something -/

section AddOrder

variable {env : CallEnv} {now : TimePoint} {b : OrderBook τ}

/-- `add_order` rests what the fills leave of a limit order, in the book of its symbol. -/
theorem resting_addOrder_self (h : Consistent added x ts) (hid : id ∉ added)
    (hissued : x.Issued id)
    (hok : (x.book o.symbol).addOrder env (o.toOrder id now) = .ok (fills, b)) (symbol : String) :
    Exchange.resting { x with orderbooks := x.orderbooks.insert o.symbol b } symbol id
      = if symbol = o.symbol ∧ o.type = .limit then leavesQty o fills else 0 := by
  obtain ⟨-, -, hmakers, hquantity⟩ :=
    addOrder_restingQuantity (h.wf o.symbol) hissued.ne_empty hok
  -- a new id rests nowhere, so no fill can be against it
  have hnever : ∀ symbol, x.resting symbol id = 0 := fun symbol ↦ by
    by_contra hr
    exact hid (h.rested symbol id hr)
  have hself : makerQuantity id fills = 0 := makerQuantity_of_forall_ne fun f hf heq ↦
    hid (heq ▸ h.rested o.symbol _ (hmakers f hf).2)
  rw [Exchange.resting_insert]
  by_cases hs : symbol = o.symbol
  · rw [if_pos hs, hquantity, hself, show (x.book o.symbol).restingQuantity id = 0 from hnever _]
    by_cases ht : o.type = .limit
    · rw [if_pos ⟨rfl, ht⟩, if_pos ⟨hs, ht⟩, add_zero, sub_zero]
      rfl
    · rw [if_neg fun hc ↦ ht hc.2, if_neg fun hc ↦ ht hc.2]
      rfl
  · rw [if_neg hs, hnever, if_neg fun hc ↦ hs hc.1]

/-- From every other order it only takes what the fills say. -/
theorem resting_addOrder_of_ne (h : Consistent added x ts) (hissued : x.Issued id)
    (hok : (x.book o.symbol).addOrder env (o.toOrder id now) = .ok (fills, b)) (symbol : String)
    {m : String} (hm : m ≠ id) :
    Exchange.resting { x with orderbooks := x.orderbooks.insert o.symbol b } symbol m
      = x.resting symbol m - if symbol = o.symbol then makerQuantity m fills else 0 := by
  obtain ⟨-, -, -, hquantity⟩ :=
    addOrder_restingQuantity (h.wf o.symbol) hissued.ne_empty hok
  rw [Exchange.resting_insert]
  by_cases hs : symbol = o.symbol
  · rw [if_pos hs, if_pos hs, hquantity, if_neg fun hc ↦ hm hc.1.symm, zero_add, hs]
    rfl
  · rw [if_neg hs, if_neg hs, sub_zero]

/-- Nothing is taken from an order that does not rest in the book. -/
theorem makerQuantity_of_resting_eq_zero (h : Consistent added x ts) (hissued : x.Issued id)
    (hok : (x.book o.symbol).addOrder env (o.toOrder id now) = .ok (fills, b)) {m : String}
    (hm : x.resting o.symbol m = 0) : makerQuantity m fills = 0 := by
  obtain ⟨-, -, hmakers, -⟩ := addOrder_restingQuantity (h.wf o.symbol) hissued.ne_empty hok
  exact makerQuantity_of_forall_ne fun f hf heq ↦ (hmakers f hf).2 (heq ▸ hm)

/-- An order other than the new one does not begin to rest. -/
theorem resting_ne_zero_of_addOrder (h : Consistent added x ts) (hissued : x.Issued id)
    (hok : (x.book o.symbol).addOrder env (o.toOrder id now) = .ok (fills, b)) {symbol m : String}
    (hm : m ≠ id) (hr : Exchange.resting
      { x with orderbooks := x.orderbooks.insert o.symbol b } symbol m ≠ 0) :
    x.resting symbol m ≠ 0 := by
  intro hold
  rw [h.resting_addOrder_of_ne hissued hok symbol hm, hold] at hr
  by_cases hs : symbol = o.symbol
  · rw [h.makerQuantity_of_resting_eq_zero hissued hok (hs ▸ hold)] at hr
    simp at hr
  · simp [hs] at hr

/-- The account of an order other than the new one is only moved from the book to the request. -/
theorem account_addOrder (h : Consistent added x ts) (hissued : x.Issued id)
    (hok : (x.book o.symbol).addOrder env (o.toOrder id now) = .ok (fills, b)) {symbol m : String}
    (hm : m ≠ id) (hsymbol : x.resting o.symbol m ≠ 0 → symbol = o.symbol) :
    x.resting symbol m + pendingOf ts m = Exchange.resting
      { x with orderbooks := x.orderbooks.insert o.symbol b } symbol m
        + pendingOf (.postMakers o id fills fills ::ₘ ts) m := by
  rw [h.resting_addOrder_of_ne hissued hok symbol hm, pendingOf_cons, RequestPc.pending]
  by_cases hr : x.resting o.symbol m = 0
  · rw [h.makerQuantity_of_resting_eq_zero hissued hok hr, ite_self]
    ring
  · rw [if_pos (hsymbol hr)]
    ring

/-- `add_order`: what the fills take from the books is owed by the request, and a remainder that
rests is to be tracked. -/
theorem addOrder (h : Consistent added x ts) (hid : id ∉ added) (hissued : x.Issued id)
    (hts : id ∉ ts.filterMap postId)
    (hok : (x.book o.symbol).addOrder env (o.toOrder id now) = .ok (fills, b)) :
    Consistent (insert id added) { x with orderbooks := x.orderbooks.insert o.symbol b }
      (.postMakers o id fills fills ::ₘ ts) := by
  obtain ⟨hwf, hleaves, hmakers, -⟩ :=
    addOrder_restingQuantity (h.wf o.symbol) hissued.ne_empty hok
  have hadded : ∀ f ∈ fills, f.makerOrderId ∈ added := fun f hf ↦
    h.rested o.symbol _ (hmakers f hf).2
  -- the id is new, hence none of those that were ever added
  have hne : ∀ m ∈ added, m ≠ id := fun m hm heq ↦ hid (heq ▸ hm)
  have hinserts : ∀ m ∈ added,
      (Inserts (.postMakers o id fills fills ::ₘ ts) m ↔ Inserts ts m) := fun m hm ↦ by
    rw [inserts_cons_postMakers, or_iff_right fun hc ↦ hne m hm hc.1.symm]
  refine ⟨fun symbol ↦ ?_, fun m hm ↦ ?_, fun q hq m hqm ↦ ?_, fun q hq o' m heq ↦ ?_, ?_,
    fun symbol m hr ↦ ?_, fun q hq o' m fills' todo heq ↦ ?_, fun q hq m hqm ↦ ?_,
    fun m he symbol ↦ ?_, fun m t ht ↦ ?_, fun m t ht he ↦ ?_, fun q hq o' m fills' hins ↦ ?_,
    fun symbol m hr ↦ ?_⟩
  -- the book, the ids drawn and added
  · rw [Exchange.book_insert]
    split_ifs
    · exact hwf
    · exact h.wf symbol
  · rcases Finset.mem_insert.mp hm with rfl | hm
    · exact hissued
    · exact h.issued m hm
  · rcases Multiset.mem_cons.mp hq with rfl | hq
    · rw [← Option.some_inj.mp hqm]
      exact hissued
    · exact h.drawn q hq m hqm
  · rcases Multiset.mem_cons.mp hq with rfl | hq
    · simp at heq
    · rw [Finset.mem_insert, not_or]
      refine ⟨fun hm ↦ hts ?_, h.unadded q hq o' m heq⟩
      exact (Multiset.mem_filterMap _ _).mpr ⟨q, hq, by rw [heq, ← hm]; rfl⟩
  · rw [Multiset.filterMap_cons_some postId _ ts (b := id) rfl, Multiset.nodup_cons]
    exact ⟨hts, h.distinct⟩
  · by_cases hm : m = id
    · exact Finset.mem_insert.mpr (Or.inl hm)
    · exact Finset.mem_insert_of_mem
        (h.rested symbol m (h.resting_ne_zero_of_addOrder hissued hok hm hr))
  · rcases Multiset.mem_cons.mp hq with rfl | hq
    · simp only [postMakers.injEq] at heq
      obtain ⟨-, rfl, -, rfl⟩ := heq
      exact ⟨Finset.mem_insert_self _ _, fun f hf ↦
        ⟨(hmakers f hf).1, Finset.mem_insert_of_mem (hadded f hf)⟩⟩
    · obtain ⟨hmem, hall⟩ := h.makers q hq o' m fills' todo heq
      exact ⟨Finset.mem_insert_of_mem hmem, fun f hf ↦
        ⟨(hall f hf).1, Finset.mem_insert_of_mem (hall f hf).2⟩⟩
  · rcases Multiset.mem_cons.mp hq with rfl | hq
    · simp [deleteId] at hqm
    · obtain ⟨hmem, hnot⟩ := h.deleting q hq m hqm
      exact ⟨Finset.mem_insert_of_mem hmem, fun hi ↦ hnot ((hinserts m hmem).mp hi)⟩
  -- what is being erased does not come to rest again
  · rw [erases_cons_postMakers] at he
    obtain ⟨q, hq, t, heq⟩ := he
    have hmem := (h.deleting q hq m (by rw [heq]; rfl)).1
    by_contra hr
    exact h.resting_ne_zero_of_addOrder hissued hok (hne m hmem) hr
      (h.erased m ⟨q, hq, t, heq⟩ symbol)
  -- the fills move from the books to what the request owes, so no balance changes
  · obtain ⟨hmem, hpos, hnot⟩ := h.tracked m t ht
    exact ⟨Finset.mem_insert_of_mem hmem, hpos, fun hi ↦ hnot ((hinserts m hmem).mp hi)⟩
  · rw [erases_cons_postMakers] at he
    rw [h.balance m t ht he]
    exact h.account_addOrder hissued hok (hne m (h.tracked m t ht).1) fun hr ↦
      h.symbol_of_tracked ht hr
  · rcases Multiset.mem_cons.mp hq with rfl | hq
    -- the new order: what rests of it is what its tracker will say
    · obtain ⟨rfl, rfl, rfl, htracked⟩ := inserting_postMakers.mp hins
      rw [h.resting_addOrder_self hid hissued hok, if_pos ⟨rfl, htracked.1⟩, pendingOf_cons,
        h.pendingOf_of_notMem hid, RequestPc.pending,
        makerQuantity_of_forall_ne fun f hf ↦ hne _ (hadded f hf)]
      ring
    · have hmem : m ∈ added := by
        obtain ⟨todo, heq, -⟩ := hins
        exact (h.makers q hq o' m fills' todo heq).1
      rw [h.inserting q hq o' m fills' hins]
      exact h.account_addOrder hissued hok (hne m hmem) fun hr ↦ h.symbol_of_inserting hq hins hr
  · by_cases hm : m = id
    -- what rests under the new id is covered by the insert to come
    · subst hm
      rw [h.resting_addOrder_self hid hissued hok] at hr
      by_cases hc : symbol = o.symbol ∧ o.type = .limit
      · rw [if_pos hc] at hr
        refine Or.inr ⟨_, Multiset.mem_cons_self _ _, o, fills, ⟨fills, rfl, hc.2, ?_⟩, hc.1.symm⟩
        exact lt_of_le_of_ne hleaves hr.symm
      · rw [if_neg hc] at hr
        exact absurd rfl hr
    · rcases h.cover symbol m (h.resting_ne_zero_of_addOrder hissued hok hm hr) with
        ht | ⟨q, hq, o', fills', hins, hs⟩
      · exact Or.inl ht
      · exact Or.inr ⟨q, Multiset.mem_cons_of_mem hq, o', fills', hins, hs⟩

end AddOrder

section UpdateMaker

theorem pendingOf_postMakers_cons (m : String) :
    pendingOf (.postMakers o id fills (f :: todo) ::ₘ ts) m
      = (if m = f.makerOrderId then f.quantity else 0)
        + pendingOf (.postMakers o id fills todo ::ₘ ts) m := by
  rw [pendingOf_cons, pendingOf_cons, RequestPc.pending, RequestPc.pending, makerQuantity_cons,
    add_assoc]
  simp only [eq_comm]

/-- A maker update only concerns a tracker that is there, and leaves its symbol alone. -/
theorem exists_of_lookup_updateMaker (h : Consistent added x ts) {m : String} {t' : OrderTracker}
    (ht' : (x.updateMaker f).orderIndex.lookup m = some t') :
    ∃ t, x.orderIndex.lookup m = some t ∧ t'.symbol = t.symbol ∧ 0 < t'.remainingQty ∧
      t'.remainingQty = t.remainingQty - if m = f.makerOrderId then f.quantity else 0 := by
  rw [Exchange.lookup_updateMaker] at ht'
  by_cases hm : m = f.makerOrderId
  · rw [if_pos hm, Option.bind_eq_some_iff] at ht'
    obtain ⟨t, ht, hsome⟩ := ht'
    split_ifs at hsome with hle
    rw [← Option.some_inj.mp hsome, if_pos hm]
    exact ⟨t, ht, rfl, by dsimp only; omega, rfl⟩
  · rw [if_neg hm] at ht'
    exact ⟨t', ht', rfl, (h.tracked m t' ht').2.1, by rw [if_neg hm, sub_zero]⟩

/-- A tracker that still has something resting behind it outlasts the fill. -/
theorem quantity_lt_remainingQty
    (h : Consistent added x (.postMakers o id fills (f :: todo) ::ₘ ts)) {t : OrderTracker}
    (ht : x.orderIndex.lookup f.makerOrderId = some t)
    (hr : x.resting t.symbol f.makerOrderId ≠ 0) : f.quantity < t.remainingQty := by
  have hself := Multiset.mem_cons_self (RequestPc.postMakers o id fills (f :: todo)) ts
  have hall := (h.makers _ hself o id fills _ rfl).2
  -- the tracker holds what rests and what is owed, and the fill is only a part of the latter
  have hbalance := h.balance _ t ht fun he ↦ hr (h.erased _ he t.symbol)
  have hrest : 0 < x.resting t.symbol f.makerOrderId := by
    rcases (h.wf t.symbol).restingQuantity_cases f.makerOrderId with
      ⟨-, hzero⟩ | ⟨n, -, -, heq, hpos⟩
    · exact absurd hzero hr
    · rw [Exchange.resting, heq]
      exact hpos
  have hother : 0 ≤ pendingOf (.postMakers o id fills todo ::ₘ ts) f.makerOrderId := by
    rw [pendingOf_cons]
    exact add_nonneg (makerQuantity_nonneg
      (fun g hg ↦ (hall g (List.mem_cons_of_mem f hg)).1) _) (h.pendingOf_tail_nonneg _)
  rw [pendingOf_postMakers_cons, if_pos rfl] at hbalance
  omega

/-- A maker update: the fill is no longer owed, and the maker's tracker, unless it is still to be
written, has taken note of it. -/
theorem updateMaker (h : Consistent added x (.postMakers o id fills (f :: todo) ::ₘ ts))
    (hguard : ¬Inserts (.postMakers o id fills (f :: todo) ::ₘ ts) f.makerOrderId) :
    Consistent added (x.updateMaker f) (.postMakers o id fills todo ::ₘ ts) := by
  have hresting : ∀ symbol m, (x.updateMaker f).resting symbol m = x.resting symbol m := by
    intro symbol m
    rw [Exchange.resting, Exchange.book_updateMaker, Exchange.resting]
  have hcounter : x.orderCounter ≤ (x.updateMaker f).orderCounter := by
    rw [Exchange.updateMaker]
    split <;> exact le_rfl
  have hself := Multiset.mem_cons_self (RequestPc.postMakers o id fills (f :: todo)) ts
  obtain ⟨hmem, hall⟩ := h.makers _ hself o id fills _ rfl
  have hinserts : ∀ m, Inserts (.postMakers o id fills todo ::ₘ ts) m ↔
      Inserts (.postMakers o id fills (f :: todo) ::ₘ ts) m := fun m ↦ by
    rw [inserts_cons_postMakers, inserts_cons_postMakers]
  have herases : ∀ m, Erases (.postMakers o id fills todo ::ₘ ts) m ↔
      Erases (.postMakers o id fills (f :: todo) ::ₘ ts) m := fun m ↦ by
    rw [erases_cons_postMakers, erases_cons_postMakers]
  -- requests other than this one are as they were
  have hcons : ∀ q ∈ (RequestPc.postMakers o id fills todo ::ₘ ts),
      q = .postMakers o id fills todo ∨ q ∈ (RequestPc.postMakers o id fills (f :: todo) ::ₘ ts) :=
    fun q hq ↦ (Multiset.mem_cons.mp hq).imp_right Multiset.mem_cons_of_mem
  have hdistinct := h.distinct
  rw [Multiset.filterMap_cons_some postId _ ts (b := id) rfl] at hdistinct
  refine ⟨fun symbol ↦ ?_, fun m hm ↦ (h.issued m hm).mono hcounter, fun q hq m hqm ↦ ?_,
    fun q hq o' m heq ↦ ?_, ?_, fun symbol m hr ↦ h.rested symbol m (hresting symbol m ▸ hr),
    fun q hq o' m fills' todo' heq ↦ ?_, fun q hq m hqm ↦ ?_, fun m he symbol ↦ ?_,
    fun m t ht ↦ ?_, fun m t ht he ↦ ?_, fun q hq o' m fills' hins ↦ ?_, fun symbol m hr ↦ ?_⟩
  · rw [Exchange.book_updateMaker]
    exact h.wf symbol
  · rcases hcons q hq with rfl | hq
    · exact (h.drawn _ hself m hqm).mono hcounter
    · exact (h.drawn q hq m hqm).mono hcounter
  · rcases hcons q hq with rfl | hq
    · simp at heq
    · exact h.unadded q hq o' m heq
  · rw [Multiset.filterMap_cons_some postId _ ts (b := id) rfl]
    exact hdistinct
  · rcases hcons q hq with rfl | hq
    · simp only [postMakers.injEq] at heq
      obtain ⟨-, rfl, -, rfl⟩ := heq
      exact ⟨hmem, fun g hg ↦ hall g (List.mem_cons_of_mem f hg)⟩
    · exact h.makers q hq o' m fills' todo' heq
  · rw [hinserts]
    rcases hcons q hq with rfl | hq
    · simp [deleteId] at hqm
    · exact h.deleting q hq m hqm
  · rw [hresting]
    exact h.erased m ((herases m).mp he) symbol
  · obtain ⟨t₀, ht₀, -, hpos, -⟩ := h.exists_of_lookup_updateMaker ht
    rw [hinserts]
    exact ⟨(h.tracked m t₀ ht₀).1, hpos, (h.tracked m t₀ ht₀).2.2⟩
  · obtain ⟨t₀, ht₀, hsymbol, -, hremaining⟩ := h.exists_of_lookup_updateMaker ht
    have hbalance := h.balance m t₀ ht₀ fun he' ↦ he ((herases m).mpr he')
    rw [pendingOf_postMakers_cons] at hbalance
    rw [hremaining, hresting, hsymbol, hbalance]
    ring
  · have hq' : ∃ p ∈ (RequestPc.postMakers o id fills (f :: todo) ::ₘ ts),
        p.Inserting o' m fills' := by
      rcases hcons q hq with rfl | hq
      · exact ⟨_, hself, inserting_postMakers.mpr (inserting_postMakers.mp hins)⟩
      · exact ⟨q, hq, hins⟩
    obtain ⟨p, hp, hpins⟩ := hq'
    -- the maker's own tracker is not to be written, by the guard
    have hm : m ≠ f.makerOrderId := fun hm ↦ hguard (hm ▸ ⟨p, hp, o', fills', hpins⟩)
    have hbalance := h.inserting p hp o' m fills' hpins
    rw [pendingOf_postMakers_cons, if_neg hm, zero_add] at hbalance
    rw [hresting, hbalance]
  · rw [hresting] at hr
    rcases h.cover symbol m hr with ⟨t, ht, hsymbol⟩ | ⟨q, hq, o', fills', hins, hsymbol⟩
    · refine Or.inl ?_
      rw [Exchange.lookup_updateMaker]
      by_cases hm : m = f.makerOrderId
      · subst hm hsymbol
        have hlt := h.quantity_lt_remainingQty ht hr
        rw [if_pos rfl, ht, Option.bind_some, if_neg (by omega)]
        exact ⟨_, rfl, rfl⟩
      · rw [if_neg hm]
        exact ⟨t, ht, hsymbol⟩
    · refine Or.inr ?_
      rcases Multiset.mem_cons.mp hq with rfl | hq
      · exact ⟨_, Multiset.mem_cons_self _ _, o', fills',
          inserting_postMakers.mpr (inserting_postMakers.mp hins), hsymbol⟩
      · exact ⟨q, Multiset.mem_cons_of_mem hq, o', fills', hins, hsymbol⟩

end UpdateMaker

/-- The tracker insert: the order's account moves into the index. -/
theorem insertTracker (h : Consistent added x (.postMakers o id fills [] ::ₘ ts))
    (htracked : o.Tracked fills) : Consistent added
      { x with orderIndex := x.orderIndex.insert id (o.tracker fills) } ts := by
  have hself := Multiset.mem_cons_self (RequestPc.postMakers o id fills []) ts
  have hins : RequestPc.Inserting o id fills (.postMakers o id fills []) := ⟨[], rfl, htracked⟩
  have hmem := (h.makers _ hself o id fills [] rfl).1
  have hdistinct := h.distinct
  rw [Multiset.filterMap_cons_some postId _ ts (b := id) rfl, Multiset.nodup_cons] at hdistinct
  -- no other request draws the same id
  have hnone : ¬Inserts ts id := by
    rintro ⟨q, hq, o', fills', hins'⟩
    exact hdistinct.1 ((Multiset.mem_filterMap _ _).mpr ⟨q, hq, postId_of_inserting hins'⟩)
  -- this request owes nothing more to a maker
  have hpending : ∀ m, pendingOf (.postMakers o id fills [] ::ₘ ts) m = pendingOf ts m := by
    intro m
    rw [pendingOf_cons]
    exact zero_add _
  have hlookup : ∀ m t, (x.orderIndex.insert id (o.tracker fills)).lookup m = some t →
      m = id ∧ t = o.tracker fills ∨ x.orderIndex.lookup m = some t := by
    intro m t ht
    by_cases hm : m = id
    · rw [hm, Finmap.lookup_insert, Option.some_inj] at ht
      exact Or.inl ⟨hm, ht.symm⟩
    · rw [Finmap.lookup_insert_of_ne _ hm] at ht
      exact Or.inr ht
  refine ⟨h.wf, h.issued, fun q hq ↦ h.drawn q (Multiset.mem_cons_of_mem hq),
    fun q hq ↦ h.unadded q (Multiset.mem_cons_of_mem hq), hdistinct.2, h.rested,
    fun q hq ↦ h.makers q (Multiset.mem_cons_of_mem hq), fun q hq m hqm ↦ ?_,
    fun m he ↦ h.erased m (erases_cons_postMakers.mpr he), fun m t ht ↦ ?_, fun m t ht he ↦ ?_,
    fun q hq o' m fills' hins' ↦ ?_, fun symbol m hr ↦ ?_⟩
  · obtain ⟨hmem', hnot⟩ := h.deleting q (Multiset.mem_cons_of_mem hq) m hqm
    exact ⟨hmem', fun hi ↦ hnot (inserts_cons.mpr (Or.inr hi))⟩
  · rcases hlookup m t ht with ⟨rfl, rfl⟩ | ht
    · exact ⟨hmem, htracked.2, hnone⟩
    · obtain ⟨hmem', hpos, hnot⟩ := h.tracked m t ht
      exact ⟨hmem', hpos, fun hi ↦ hnot (inserts_cons.mpr (Or.inr hi))⟩
  · rcases hlookup m t ht with ⟨rfl, rfl⟩ | ht
    · have hbalance := h.inserting _ hself o m fills hins
      rw [hpending] at hbalance
      exact hbalance
    · have hbalance := h.balance m t ht fun he' ↦ he (erases_cons_postMakers.mp he')
      rw [hpending] at hbalance
      exact hbalance
  · have hbalance := h.inserting q (Multiset.mem_cons_of_mem hq) o' m fills' hins'
    rw [hpending] at hbalance
    exact hbalance
  · by_cases hm : m = id
    · subst hm
      exact Or.inl ⟨_, Finmap.lookup_insert _, h.symbol_of_inserting hself hins hr⟩
    · rcases h.cover symbol m hr with ⟨t, ht, hsymbol⟩ | ⟨q, hq, o', fills', hins', hsymbol⟩
      · exact Or.inl ⟨t, (Finmap.lookup_insert_of_ne _ hm).trans ht, hsymbol⟩
      · rcases Multiset.mem_cons.mp hq with rfl | hq
        · exact absurd (inserting_postMakers.mp hins').2.1.symm hm
        · exact Or.inr ⟨q, hq, o', fills', hins', hsymbol⟩

/-- `cancel_order`: nothing rests of the order any more; its tracker is to be erased. -/
theorem cancelOrder (h : Consistent added x ts) {t : OrderTracker} (hid : id ∈ added)
    (hnone : ¬Inserts ts id) {b : OrderBook τ}
    (hcancel : (x.book t.symbol).cancelOrder id = (true, b)) :
    Consistent added { x with orderbooks := x.orderbooks.insert t.symbol b }
      (.deleteErase id t ::ₘ ts) := by
  obtain ⟨hwf, hrests, hquantity⟩ := cancelOrder_restingQuantity (h.wf t.symbol) hcancel
  -- an order rests under its tracker's symbol only
  have hsymbol : ∀ symbol, x.resting symbol id ≠ 0 → symbol = t.symbol := by
    intro symbol hr
    rcases h.cover t.symbol id hrests with ⟨t', ht', heq⟩ | ⟨q, hq, o', fills', hins, -⟩
    · exact (h.symbol_of_tracked ht' hr).symm.trans heq
    · exact absurd ⟨q, hq, o', fills', hins⟩ hnone
  have hresting : ∀ symbol m, Exchange.resting
      { x with orderbooks := x.orderbooks.insert t.symbol b } symbol m
        = if m = id then 0 else x.resting symbol m := by
    intro symbol m
    rw [Exchange.resting_insert]
    by_cases hs : symbol = t.symbol
    · rw [if_pos hs, hquantity, hs]
      simp only [eq_comm]
      rfl
    · rw [if_neg hs]
      by_cases hm : m = id
      · rw [if_pos hm, hm]
        by_contra hr
        exact hs (hsymbol symbol hr)
      · rw [if_neg hm]
  have hcons : ∀ q ∈ (RequestPc.deleteErase id t ::ₘ ts), q = .deleteErase id t ∨ q ∈ ts :=
    fun q hq ↦ Multiset.mem_cons.mp hq
  have hother : ∀ symbol m, Exchange.resting
      { x with orderbooks := x.orderbooks.insert t.symbol b } symbol m ≠ 0 →
        m ≠ id ∧ x.resting symbol m ≠ 0 := by
    intro symbol m hr
    rw [hresting] at hr
    split_ifs at hr with hm
    · exact absurd rfl hr
    · exact ⟨hm, hr⟩
  refine ⟨fun symbol ↦ ?_, h.issued, fun q hq m hqm ↦ ?_, fun q hq o' m heq ↦ ?_, ?_,
    fun symbol m hr ↦ h.rested symbol m (hother symbol m hr).2,
    fun q hq o' m fills' todo' heq ↦ ?_, fun q hq m hqm ↦ ?_, fun m he symbol ↦ ?_,
    fun m t' ht' ↦ ?_, fun m t' ht' he ↦ ?_, fun q hq o' m fills' hins ↦ ?_, fun symbol m hr ↦ ?_⟩
  · rw [Exchange.book_insert]
    split_ifs
    · exact hwf
    · exact h.wf symbol
  · rcases hcons q hq with rfl | hq
    · simp [postId] at hqm
    · exact h.drawn q hq m hqm
  · rcases hcons q hq with rfl | hq
    · simp at heq
    · exact h.unadded q hq o' m heq
  · rw [Multiset.filterMap_cons_none (f := postId) _ ts rfl]
    exact h.distinct
  · rcases hcons q hq with rfl | hq
    · simp at heq
    · exact h.makers q hq o' m fills' todo' heq
  · rw [inserts_cons_deleteErase]
    rcases hcons q hq with rfl | hq
    · rw [← Option.some_inj.mp hqm]
      exact ⟨hid, hnone⟩
    · exact h.deleting q hq m hqm
  -- until the erase the tracker is excused from the balance
  · rw [hresting]
    split_ifs with hm
    · rfl
    · rcases erases_cons_deleteErase.mp he with heq | he
      · exact absurd heq.symm hm
      · exact h.erased m he symbol
  · rw [inserts_cons_deleteErase]
    exact h.tracked m t' ht'
  · rw [erases_cons_deleteErase, not_or] at he
    rw [hresting, if_neg fun hm ↦ he.1 hm.symm, pendingOf_cons_deleteErase]
    exact h.balance m t' ht' he.2
  · rcases hcons q hq with rfl | hq
    · obtain ⟨todo', heq, -⟩ := hins
      simp at heq
    · have hm : m ≠ id := fun hm ↦ hnone (hm ▸ ⟨q, hq, o', fills', hins⟩)
      rw [hresting, if_neg hm, pendingOf_cons_deleteErase]
      exact h.inserting q hq o' m fills' hins
  · rcases h.cover symbol m (hother symbol m hr).2 with ht | ⟨q, hq, o', fills', hins, hs⟩
    · exact Or.inl ht
    · exact Or.inr ⟨q, Multiset.mem_cons_of_mem hq, o', fills', hins, hs⟩

/-- The tracker erase: the account of a cancelled order is closed. -/
theorem eraseTracker {t : OrderTracker} (h : Consistent added x (.deleteErase id t ::ₘ ts)) :
    Consistent added { x with orderIndex := x.orderIndex.erase id } ts := by
  have hlookup : ∀ m t', (x.orderIndex.erase id).lookup m = some t' →
      m ≠ id ∧ x.orderIndex.lookup m = some t' := by
    intro m t' ht'
    by_cases hm : m = id
    · rw [hm, Finmap.lookup_erase] at ht'
      simp at ht'
    · rw [Finmap.lookup_erase_ne hm] at ht'
      exact ⟨hm, ht'⟩
  have hdistinct := h.distinct
  rw [Multiset.filterMap_cons_none (f := postId) _ ts rfl] at hdistinct
  refine ⟨h.wf, h.issued, fun q hq ↦ h.drawn q (Multiset.mem_cons_of_mem hq),
    fun q hq ↦ h.unadded q (Multiset.mem_cons_of_mem hq), hdistinct, h.rested,
    fun q hq ↦ h.makers q (Multiset.mem_cons_of_mem hq), fun q hq m hqm ↦ ?_,
    fun m he ↦ h.erased m (erases_cons_deleteErase.mpr (Or.inr he)), fun m t' ht' ↦ ?_,
    fun m t' ht' he ↦ ?_, fun q hq o' m fills' hins ↦ ?_, fun symbol m hr ↦ ?_⟩
  · have hd := h.deleting q (Multiset.mem_cons_of_mem hq) m hqm
    rwa [inserts_cons_deleteErase] at hd
  · have ht := h.tracked m t' (hlookup m t' ht').2
    rwa [inserts_cons_deleteErase] at ht
  · obtain ⟨hm, ht'⟩ := hlookup m t' ht'
    have hbalance := h.balance m t' ht' fun he' ↦ by
      rcases erases_cons_deleteErase.mp he' with heq | he'
      · exact hm heq.symm
      · exact he he'
    rwa [pendingOf_cons_deleteErase] at hbalance
  · have hbalance := h.inserting q (Multiset.mem_cons_of_mem hq) o' m fills' hins
    rwa [pendingOf_cons_deleteErase] at hbalance
  -- the cancelled order rests nowhere, so it needs no cover
  · have hm : m ≠ id := fun hm ↦
      hr (h.erased m (erases_cons_deleteErase.mpr (Or.inl hm.symm)) symbol)
    rcases h.cover symbol m hr with ⟨t', ht', hsymbol⟩ | ⟨q, hq, o', fills', hins, hsymbol⟩
    · exact Or.inl ⟨t', (Finmap.lookup_erase_ne hm).trans ht', hsymbol⟩
    · rcases Multiset.mem_cons.mp hq with rfl | hq
      · obtain ⟨todo', heq, -⟩ := hins
        simp at heq
      · exact Or.inr ⟨q, hq, o', fills', hins, hsymbol⟩

end Consistent

end BenchmarkPlatform
