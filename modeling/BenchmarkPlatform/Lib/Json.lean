import Mathlib.Algebra.Order.Ring.Int
import Mathlib.Data.List.Sort
import Mathlib.Data.Rat.Defs

/-!
# JSON values

A JSON value as a program sees it between writing and printing, or between parsing and reading, and
how a member of an object is read into a variable of some type: with a default where it is missing,
and with an exception where it is of another type. The order of the members of an object has no
meaning.

`Json.value` and `Json.read` are the two ways to read a member; on objects with the same members
they read the same (`SameMembers.value`, `SameMembers.read`).
-/

namespace BenchmarkPlatform.Lib

/-- Where names are distinct, their order does not matter to a lookup. -/
theorem lookup_eq_of_perm {κ ν : Type*} [DecidableEq κ] {l m : List (κ × ν)} (h : l.Perm m)
    (hl : (l.map Prod.fst).Nodup) (key : κ) : l.lookup key = m.lookup key := by
  induction h with
  | nil => rfl
  | cons x _ ih =>
    rw [List.map_cons, List.nodup_cons] at hl
    rw [List.lookup_cons, List.lookup_cons, ih hl.2]
  | swap x y l =>
    obtain ⟨kx, vx⟩ := x
    obtain ⟨ky, vy⟩ := y
    have hne : ky ≠ kx := by
      rintro rfl
      simp at hl
    rw [List.lookup_cons, List.lookup_cons, List.lookup_cons, List.lookup_cons]
    by_cases hx : key = kx
    · rw [beq_eq_false_iff_ne.mpr fun hy ↦ hne (hy.symm.trans hx)]
    · rw [beq_eq_false_iff_ne.mpr hx]
  | trans hlm _ ih ih' => rw [ih hl, ih' ((hlm.map Prod.fst).nodup_iff.mp hl)]

inductive Json
  | null
  | boolean (b : Bool)
  | integer (n : ℤ)
  | float (x : ℚ)
  | string (s : String)
  | array (elements : List Json)
  | object (members : List (String × Json))

namespace Json

variable {α : Type*}

/-! ## Reading a value; `none` where an exception is thrown -/

def getString : Json → Option String
  | .string s => some s
  | _ => none

def getBool : Json → Option Bool
  | .boolean b => some b
  | _ => none

/-- A number as a `double`. -/
def getDouble : Json → Option ℚ
  | .integer n => some n
  | .float x => some x
  | _ => none

/-- A number as an `int`, for which a truth value counts as one. -/
def getInt : Json → Option ℤ
  | .boolean b => some (if b then 1 else 0)
  | .integer n => some (n.bmod (2 ^ 32))
  | .float x => some ((x.num.tdiv x.den).bmod (2 ^ 32))
  | _ => none

/-- A number as an `int64_t`. -/
def getInt64 : Json → Option ℤ
  | .integer n => some (n.bmod (2 ^ 64))
  | .float x => some ((x.num.tdiv x.den).bmod (2 ^ 64))
  | _ => none

/-- The number is of a signed type with so many bits. -/
def Fits (bits : ℕ) (n : ℤ) : Prop := -2 ^ (bits - 1) ≤ n ∧ n < 2 ^ (bits - 1)

instance (bits : ℕ) : DecidablePred (Fits bits) := fun _ ↦ inferInstanceAs (Decidable (_ ∧ _))

theorem getInt_integer {n : ℤ} (h : Fits 32 n) : getInt (.integer n) = some n := by
  obtain ⟨hlow, hhigh⟩ := h
  rw [getInt, Int.bmod_eq_of_le (by omega) (by omega)]

theorem getInt64_integer {n : ℤ} (h : Fits 64 n) : getInt64 (.integer n) = some n := by
  obtain ⟨hlow, hhigh⟩ := h
  rw [getInt64, Int.bmod_eq_of_le (by omega) (by omega)]

/-- An array of strings is read back element by element. -/
theorem mapM_getString (l : List String) : (l.map Json.string).mapM getString = some l := by
  rw [List.mapM_map]
  induction l with
  | nil => rfl
  | cons s l ih =>
    rw [List.mapM_cons, ih]
    rfl

/-! ## Members of an object -/

def find? (j : Json) (key : String) : Option Json :=
  match j with
  | .object members => members.lookup key
  | _ => none

/-- `if (j.contains(key)) variable = j[key]`, where the variable has its default. -/
def read (get : Json → Option α) (j : Json) (key : String) (default : α) : Option α :=
  (j.find? key).elim (some default) get

/-- `j.value(key, default)` -/
def value (get : Json → Option α) (j : Json) (key : String) (default : α) : Option α :=
  match j with
  | .object _ => j.read get key default
  | _ => none

/-- `j[key] = v` for an object; a name that occurs twice stands for its first member. -/
def set (j : Json) (key : String) (v : Json) : Json :=
  match j with
  | .object members => .object ((key, v) :: members)
  | _ => j

/-- An object with the members of another, in whatever order. -/
structure SameMembers (j k : Json) : Prop where
  isObject : ∃ members, j = .object members
  find?_eq : ∀ key, j.find? key = k.find? key

/-- The members in the order of their names, as a library prints them that keeps a sorted map. -/
def sorted : Json → Json
  | .object members => .object (members.insertionSort fun x y ↦ x.1 ≤ y.1)
  | j => j

theorem sameMembers_sorted {members : List (String × Json)} (h : (members.map Prod.fst).Nodup) :
    (sorted (.object members)).SameMembers (.object members) := by
  refine ⟨⟨_, rfl⟩, fun key ↦ ?_⟩
  exact (lookup_eq_of_perm (List.perm_insertionSort _ members).symm h key).symm

variable {j k : Json} {get : Json → Option α} {key : String} {default : α}

theorem SameMembers.read (h : j.SameMembers k) :
    j.read get key default = k.read get key default := by
  rw [Json.read, Json.read, h.find?_eq]

theorem SameMembers.value (h : j.SameMembers k) :
    j.value get key default = k.read get key default := by
  obtain ⟨members, rfl⟩ := h.isObject
  exact h.read

/-- A member that is there is read, and the default has no part in it. -/
theorem read_of_find? {v : Json} (h : j.find? key = some v) : j.read get key default = get v := by
  rw [Json.read, h, Option.elim_some]

theorem read_of_find?_eq_none (h : j.find? key = none) : j.read get key default = some default := by
  rw [Json.read, h, Option.elim_none]

theorem find?_set {members : List (String × Json)} {v : Json} {key' : String} :
    (set (.object members) key' v).find? key
      = if key = key' then some v else members.lookup key := by
  by_cases h : key = key'
  · subst h
    rw [if_pos rfl]
    exact List.lookup_cons_self
  · rw [if_neg h, set, find?, List.lookup_cons, beq_eq_false_iff_ne.mpr h]

end Json

end BenchmarkPlatform.Lib
