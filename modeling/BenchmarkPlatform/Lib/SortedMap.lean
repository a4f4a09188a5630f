import Mathlib.Data.List.Basic
import Mathlib.Data.List.Pairwise
import Mathlib.Order.Defs.Unbundled

/-!
# Maps kept sorted by their keys

An ordered associative container, as a list of entries whose keys strictly increase along an
order `lt`. The order is a parameter because the container is used both ways round: with `lt` the
usual order the first entry carries the smallest key, with its converse the largest.

The sortedness is a field, so a map out of order cannot be built. The two updates come with one
lemma each that splits the entries at the updated key; everything else about an update follows from
the split.
-/

namespace BenchmarkPlatform.Lib

variable {κ β : Type*}

/-- Entries in strictly increasing key order. -/
structure SortedMap (lt : κ → κ → Prop) (β : Type*) where
  entries : List (κ × β)
  sorted : entries.Pairwise fun a b ↦ lt a.1 b.1

namespace SortedMap

variable {lt : κ → κ → Prop}

@[ext] theorem ext {m m' : SortedMap lt β} (h : m.entries = m'.entries) : m = m' := by
  cases m
  cases m'
  simpa using h

instance [DecidableEq κ] [DecidableEq β] : DecidableEq (SortedMap lt β) := fun m m' ↦
  decidable_of_iff (m.entries = m'.entries) ⟨ext, congrArg entries⟩

/-- The empty map. -/
def empty : SortedMap lt β := ⟨[], List.Pairwise.nil⟩

@[simp] theorem entries_empty : (empty : SortedMap lt β).entries = [] := rfl

theorem sorted_keys (m : SortedMap lt β) : (m.entries.map Prod.fst).Pairwise lt := by
  rw [List.pairwise_map]
  exact m.sorted

/-- Entries whose keys form a sublist of a sorted map's keys are sorted again. -/
theorem pairwise_of_keys_sublist {m : SortedMap lt β} {es : List (κ × β)}
    (h : (es.map Prod.fst).Sublist (m.entries.map Prod.fst)) :
    es.Pairwise fun a b ↦ lt a.1 b.1 := by
  have hsub := m.sorted_keys.sublist h
  rwa [List.pairwise_map] at hsub

/-- No entry on either side of a key carries it again. -/
theorem ne_of_split [Std.Irrefl lt] {m : SortedMap lt β} {k : κ} {v : β} {l r : List (κ × β)}
    (h : m.entries = l ++ (k, v) :: r) : ∀ e ∈ l ++ r, e.1 ≠ k := by
  have hsorted := m.sorted
  rw [h, List.pairwise_append, List.pairwise_cons] at hsorted
  intro e he heq
  rcases List.mem_append.mp he with he | he
  · have hlt := hsorted.2.2 e he (k, v) List.mem_cons_self
    rw [heq] at hlt
    exact Std.Irrefl.irrefl k hlt
  · have hlt := hsorted.2.1.1 e he
    rw [heq] at hlt
    exact Std.Irrefl.irrefl k hlt

/-! ## Updating one key

`upsert` is `operator[]` followed by an assignment: it creates the entry when the key is absent.
`alter` touches an entry only when it is there, and may erase it. -/

variable [DecidableEq κ]

section Upsert

variable [DecidableRel lt]

private def upsertList (lt : κ → κ → Prop) [DecidableRel lt] (k : κ) (f : Option β → β) :
    List (κ × β) → List (κ × β)
  | [] => [(k, f none)]
  | (k', v) :: es =>
    if k = k' then (k', f (some v)) :: es
    else if lt k k' then (k, f none) :: (k', v) :: es
    else (k', v) :: upsertList lt k f es

private theorem mem_upsertList {k : κ} {f : Option β → β} {e : κ × β} :
    ∀ {es : List (κ × β)}, e ∈ upsertList lt k f es → e.1 = k ∨ e ∈ es := by
  intro es
  induction es with
  | nil => intro h; simp [upsertList] at h; simp [h]
  | cons e' es ih =>
    obtain ⟨k', v⟩ := e'
    intro h
    rw [upsertList] at h
    split_ifs at h with hk hlt
    · rcases List.mem_cons.mp h with rfl | h
      · exact Or.inl hk.symm
      · exact Or.inr (List.mem_cons_of_mem _ h)
    · rcases List.mem_cons.mp h with rfl | h
      · exact Or.inl rfl
      · exact Or.inr h
    · rcases List.mem_cons.mp h with rfl | h
      · exact Or.inr List.mem_cons_self
      · exact (ih h).imp_right (List.mem_cons_of_mem _)

variable [IsTrans κ lt] [Std.Trichotomous lt]

private theorem sorted_upsertList {k : κ} {f : Option β → β} :
    ∀ {es : List (κ × β)}, es.Pairwise (fun a b ↦ lt a.1 b.1) →
      (upsertList lt k f es).Pairwise (fun a b ↦ lt a.1 b.1) := by
  intro es
  induction es with
  | nil => intro _; simp [upsertList]
  | cons e es ih =>
    obtain ⟨k', v⟩ := e
    intro h
    rw [List.pairwise_cons] at h
    rw [upsertList]
    split_ifs with hk hlt
    · exact List.pairwise_cons.mpr h
    · refine List.pairwise_cons.mpr ⟨?_, List.pairwise_cons.mpr h⟩
      intro e' he'
      rcases List.mem_cons.mp he' with rfl | he'
      · exact hlt
      · exact IsTrans.trans _ _ _ hlt (h.1 e' he')
    · refine List.pairwise_cons.mpr ⟨?_, ih h.2⟩
      intro e' he'
      rcases mem_upsertList he' with heq | he'
      · have htri : lt k' k := by
          by_contra hnot
          exact hk (Std.Trichotomous.trichotomous k k' hlt hnot)
        rw [heq]
        exact htri
      · exact h.1 e' he'

/-- Update the value under `k`, creating the entry when it is absent. -/
def upsert (m : SortedMap lt β) (k : κ) (f : Option β → β) : SortedMap lt β :=
  ⟨upsertList lt k f m.entries, sorted_upsertList m.sorted⟩

/-- **What `upsert` does**: the entries split at `k`, which is where the new value goes. -/
theorem entries_upsert [Std.Irrefl lt] (m : SortedMap lt β) (k : κ) (f : Option β → β) :
    ∃ (l r : List (κ × β)) (v : Option β),
      m.entries = l ++ (v.map (Prod.mk k)).toList ++ r ∧
        (m.upsert k f).entries = l ++ (k, f v) :: r ∧ ∀ e ∈ l ++ r, e.1 ≠ k := by
  have key : ∀ {es : List (κ × β)}, es.Pairwise (fun a b ↦ lt a.1 b.1) →
      ∃ (l r : List (κ × β)) (v : Option β), es = l ++ (v.map (Prod.mk k)).toList ++ r ∧
        upsertList lt k f es = l ++ (k, f v) :: r := by
    intro es
    induction es with
    | nil => intro _; exact ⟨[], [], none, rfl, rfl⟩
    | cons e es ih =>
      obtain ⟨k', v⟩ := e
      intro h
      rw [List.pairwise_cons] at h
      rw [upsertList]
      split_ifs with hk hlt
      · subst hk
        exact ⟨[], es, some v, rfl, rfl⟩
      · exact ⟨[], (k', v) :: es, none, rfl, rfl⟩
      · obtain ⟨l, r, w, hes, hup⟩ := ih h.2
        exact ⟨(k', v) :: l, r, w, by simp [hes], by simp [hup]⟩
  obtain ⟨l, r, v, hes, hup⟩ := key m.sorted
  exact ⟨l, r, v, hes, hup, ne_of_split (m := m.upsert k f) hup⟩

end Upsert

omit [DecidableEq κ] in
private theorem sorted_alterList {g : κ × β → Option (κ × β)} {es : List (κ × β)}
    (hg : ∀ e e', g e = some e' → e'.1 = e.1) (h : es.Pairwise fun a b ↦ lt a.1 b.1) :
    (es.filterMap g).Pairwise fun a b ↦ lt a.1 b.1 := by
  refine List.Pairwise.filterMap g ?_ h
  intro a a' hlt b hb b' hb'
  rw [hg a b hb, hg a' b' hb']
  exact hlt

private def alterEntry (k : κ) (f : β → Option β) (e : κ × β) : Option (κ × β) :=
  if e.1 = k then (f e.2).map (Prod.mk e.1) else some e

private theorem fst_of_alterEntry {k : κ} {f : β → Option β} (e e' : κ × β)
    (h : alterEntry k f e = some e') : e'.1 = e.1 := by
  rw [alterEntry] at h
  split_ifs at h
  · obtain ⟨v, -, rfl⟩ := Option.map_eq_some_iff.mp h
    rfl
  · rw [← Option.some_inj.mp h]

/-- Update the value under `k` when it is present, or erase the entry. -/
def alter (m : SortedMap lt β) (k : κ) (f : β → Option β) : SortedMap lt β :=
  ⟨m.entries.filterMap (alterEntry k f), sorted_alterList fst_of_alterEntry m.sorted⟩

private theorem filterMap_alterEntry_of_ne {k : κ} {f : β → Option β} {es : List (κ × β)}
    (h : ∀ e ∈ es, e.1 ≠ k) : es.filterMap (alterEntry k f) = es := by
  induction es with
  | nil => rfl
  | cons e es ih =>
    rw [List.filterMap_cons, alterEntry, if_neg (h e List.mem_cons_self),
      ih fun e' he' ↦ h e' (List.mem_cons_of_mem e he')]

/-- **What `alter` does** to an entry that is there. -/
theorem entries_alter [Std.Irrefl lt] {m : SortedMap lt β} {k : κ} {v : β} (f : β → Option β)
    (h : (k, v) ∈ m.entries) : ∃ l r : List (κ × β), m.entries = l ++ (k, v) :: r ∧
      (m.alter k f).entries = l ++ ((f v).map (Prod.mk k)).toList ++ r := by
  obtain ⟨l, r, hsplit⟩ := List.append_of_mem h
  have hne := ne_of_split hsplit
  refine ⟨l, r, hsplit, ?_⟩
  have hentries : (m.alter k f).entries = m.entries.filterMap (alterEntry k f) := rfl
  rw [hentries, hsplit, List.filterMap_append, List.filterMap_cons,
    filterMap_alterEntry_of_ne fun e he ↦ hne e (List.mem_append_left r he),
    filterMap_alterEntry_of_ne fun e he ↦ hne e (List.mem_append_right l he), alterEntry,
    if_pos rfl]
  cases f v <;> simp

/-! ## Changing keys and values

A map of keys that carries one order to another, whichever way round either runs, carries sorted
maps over and commutes with the updates. -/

section MapEntries

variable {κ' β' : Type*} {lt' : κ' → κ' → Prop} (f : κ → κ') (g : β → β')

omit [DecidableEq κ] in
def mapEntries (hf : ∀ k k', lt k k' ↔ lt' (f k) (f k')) (m : SortedMap lt β) :
    SortedMap lt' β' :=
  ⟨m.entries.map (Prod.map f g), List.pairwise_map.mpr (m.sorted.imp fun h ↦ (hf _ _).mp h)⟩

variable [DecidableEq κ'] {f : κ → κ'} {g : β → β'} (hf : ∀ k k', lt k k' ↔ lt' (f k) (f k'))

theorem mapEntries_upsert [DecidableRel lt] [DecidableRel lt'] [IsTrans κ lt]
    [Std.Trichotomous lt] [IsTrans κ' lt'] [Std.Trichotomous lt'] (hinj : Function.Injective f)
    {u : Option β → β} {u' : Option β' → β'} (hu : ∀ v, u' (v.map g) = g (u v)) (m : SortedMap lt β)
    (k : κ) : (m.mapEntries f g hf).upsert (f k) u' = (m.upsert k u).mapEntries f g hf := by
  have key : ∀ es : List (κ × β), upsertList lt' (f k) u' (es.map (Prod.map f g))
      = (upsertList lt k u es).map (Prod.map f g) := by
    intro es
    induction es with
    | nil => exact congrArg (fun v ↦ [(f k, v)]) (hu none)
    | cons e es ih =>
      obtain ⟨k', v⟩ := e
      rw [upsertList, List.map_cons, Prod.map_apply, upsertList, ih]
      by_cases hk : k = k'
      · rw [if_pos hk, if_pos (congrArg f hk)]
        exact congrArg (fun v ↦ (f k', v) :: es.map (Prod.map f g)) (hu (some v))
      · rw [if_neg hk, if_neg fun heq ↦ hk (hinj heq)]
        by_cases hlt : lt k k'
        · rw [if_pos hlt, if_pos ((hf k k').mp hlt)]
          exact congrArg (fun v' ↦ (f k, v') :: (f k', g v) :: es.map (Prod.map f g)) (hu none)
        · rw [if_neg hlt, if_neg fun h ↦ hlt ((hf k k').mpr h)]
          rfl
  exact ext (key m.entries)

theorem mapEntries_alter (hinj : Function.Injective f) {u : β → Option β} {u' : β' → Option β'}
    (hu : ∀ v, u' (g v) = (u v).map g) (m : SortedMap lt β) (k : κ) :
    (m.mapEntries f g hf).alter (f k) u' = (m.alter k u).mapEntries f g hf := by
  have hentry : ∀ e : κ × β, alterEntry (f k) u' (Prod.map f g e)
      = (alterEntry k u e).map (Prod.map f g) := by
    rintro ⟨k', v⟩
    rw [alterEntry, alterEntry, Prod.map_apply]
    by_cases hk : k' = k
    · rw [if_pos hk, if_pos (congrArg f hk), hu, Option.map_map, Option.map_map]
      rfl
    · rw [if_neg hk, if_neg fun heq ↦ hk (hinj heq)]
      rfl
  refine ext ?_
  have hleft : ((m.mapEntries f g hf).alter (f k) u').entries
      = (m.entries.map (Prod.map f g)).filterMap (alterEntry (f k) u') := rfl
  have hright : ((m.alter k u).mapEntries f g hf).entries
      = (m.entries.filterMap (alterEntry k u)).map (Prod.map f g) := rfl
  rw [hleft, hright, List.filterMap_map, List.map_filterMap]
  exact List.filterMap_congr fun e _ ↦ hentry e

end MapEntries

end SortedMap

end BenchmarkPlatform.Lib
