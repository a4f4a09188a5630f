import Mathlib.Algebra.BigOperators.Group.List.Basic
import Mathlib.Data.List.Basic
import Mathlib.Tactic.Ring

/-!
# Little-endian fields in a byte string

A file format is a run of fixed-width numbers, each with its least significant byte first. `record`
writes such a run from a list of widths and values, and `field` reads one number back from its
offset; `field_record` says that the reader finds what the writer put there.
-/

namespace BenchmarkPlatform.Lib

/-- The `width` low bytes of a number, the least significant one first. -/
def toBytes : ℕ → ℕ → List UInt8
  | 0, _ => []
  | width + 1, n => UInt8.ofNat n :: toBytes width (n / 256)

/-- The number with these little-endian bytes. -/
def ofBytes : List UInt8 → ℕ
  | [] => 0
  | b :: bs => b.toNat + 256 * ofBytes bs

@[simp] theorem length_toBytes (width n : ℕ) : (toBytes width n).length = width := by
  induction width generalizing n with
  | zero => rfl
  | succ width ih => rw [toBytes, List.length_cons, ih]

theorem ofBytes_toBytes (width n : ℕ) : ofBytes (toBytes width n) = n % 256 ^ width := by
  induction width generalizing n with
  | zero => rw [toBytes, ofBytes, pow_zero, Nat.mod_one]
  | succ width ih =>
    have hb : (UInt8.ofNat n).toNat = n % 256 := UInt8.toNat_ofNat'
    rw [toBytes, ofBytes, ih, hb, pow_succ', Nat.mod_mul]

/-- The number of `width` bytes at an offset. -/
def field (data : List UInt8) (offset width : ℕ) : ℕ :=
  ofBytes ((data.drop offset).take width)

theorem ofBytes_lt (bs : List UInt8) : ofBytes bs < 256 ^ bs.length := by
  induction bs with
  | nil => exact one_pos
  | cons b bs ih =>
    have hb : b.toNat < 256 := b.toNat_lt
    rw [ofBytes, List.length_cons, pow_succ']
    omega

theorem field_lt (data : List UInt8) (offset width : ℕ) : field data offset width < 256 ^ width :=
  (ofBytes_lt _).trans_le (Nat.pow_le_pow_right (by norm_num) (List.length_take_le _ _))

theorem field_append_right (xs ys : List UInt8) (offset width : ℕ) :
    field (xs ++ ys) (xs.length + offset) width = field ys offset width := by
  rw [field, field, List.drop_append, Nat.add_sub_cancel_left,
    List.drop_eq_nil_of_le (Nat.le_add_right _ _), List.nil_append]

theorem field_toBytes (width n : ℕ) (ys : List UInt8) :
    field (toBytes width n ++ ys) 0 width = n % 256 ^ width := by
  have htake : (toBytes width n ++ ys).take width = toBytes width n := by
    rw [List.take_append_of_le_length (length_toBytes width n).ge,
      List.take_of_length_le (length_toBytes width n).le]
  rw [field, List.drop_zero, htake, ofBytes_toBytes]

/-- Numbers one after the other, each with its width. -/
def record (fields : List (ℕ × ℕ)) : List UInt8 :=
  fields.flatMap fun f ↦ toBytes f.1 f.2

theorem record_cons (f : ℕ × ℕ) (fields : List (ℕ × ℕ)) :
    record (f :: fields) = toBytes f.1 f.2 ++ record fields := rfl

@[simp] theorem length_record (fields : List (ℕ × ℕ)) :
    (record fields).length = (fields.map Prod.fst).sum := by
  induction fields with
  | nil => rfl
  | cons f fields ih =>
    rw [record_cons, List.length_append, length_toBytes, ih, List.map_cons, List.sum_cons]

/-- The number in the middle of a record is read back at the sum of the widths before it. -/
theorem field_record (before : List (ℕ × ℕ)) (width n : ℕ) (after : List (ℕ × ℕ))
    (ys : List UInt8) :
    field (record (before ++ (width, n) :: after) ++ ys) (before.map Prod.fst).sum width
      = n % 256 ^ width := by
  have hsplit : record (before ++ (width, n) :: after) ++ ys
      = record before ++ (toBytes width n ++ (record after ++ ys)) := by
    rw [record, List.flatMap_append, List.flatMap_cons, List.append_assoc, List.append_assoc]
    rfl
  have hoffset : (before.map Prod.fst).sum = (record before).length + 0 := (length_record _).symm
  rw [hsplit, hoffset, field_append_right, field_toBytes]

end BenchmarkPlatform.Lib
