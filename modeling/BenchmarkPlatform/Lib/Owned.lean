import Mathlib.Data.Set.Function
import Mathlib.Logic.Function.Basic

/-!
# Maps whose entries have owners

Several parties share one map. Each has a name there, and stands for a value of its own. As long as
everybody only writes his own value under his own name, and no two parties have the same name, what
is found under a name is its party's value, and nobody touches an entry of another.
-/

namespace BenchmarkPlatform.Lib

variable {ω ν α : Type*} {owners : Set ω} {name : ω → ν} {own : ω → α} {m : ν → Option α}

/-- Every entry is an owner's value under that owner's name. -/
def Owned (owners : Set ω) (name : ω → ν) (own : ω → α) (m : ν → Option α) : Prop :=
  ∀ k a, m k = some a → ∃ w ∈ owners, k = name w ∧ a = own w

theorem Owned.empty : Owned owners name own fun _ ↦ none := nofun

/-- What is found under an owner's name is his. -/
theorem Owned.eq_own (h : Owned owners name own m) (hinj : Set.InjOn name owners) {w : ω}
    (hw : w ∈ owners) {a : α} (ha : m (name w) = some a) : a = own w := by
  obtain ⟨w', hw', hname, rfl⟩ := h _ a ha
  rw [hinj hw hw' hname]

section Update

variable [DecidableEq ν]

theorem Owned.put (h : Owned owners name own m) {w : ω} (hw : w ∈ owners) :
    Owned owners name own (Function.update m (name w) (some (own w))) := by
  intro k a ha
  rw [Function.update_apply] at ha
  split_ifs at ha with hk
  · exact ⟨w, hw, hk, (Option.some_inj.mp ha).symm⟩
  · exact h k a ha

theorem Owned.drop (h : Owned owners name own m) (k : ν) :
    Owned owners name own (Function.update m k none) := by
  intro k' a ha
  rw [Function.update_apply] at ha
  split_ifs at ha
  exact h k' a ha

/-- **The frame.** Whatever an owner puts under his name, the values of the others stay. -/
theorem Owned.update_of_ne (h : Owned owners name own m) (hinj : Set.InjOn name owners) {w : ω}
    (hw : w ∈ owners) {k : ν} {a : α} (ha : m k = some a) (hne : a ≠ own w) (v : Option α) :
    Function.update m (name w) v k = some a := by
  rw [Function.update_of_ne, ha]
  rintro rfl
  exact hne (h.eq_own hinj hw ha)

end Update

end BenchmarkPlatform.Lib
