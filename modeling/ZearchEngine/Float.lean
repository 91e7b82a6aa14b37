/-
# Floats: bytes and order

Floats are kept as their bit patterns.  Two floats compare as the integers their bits stand for
once the sign is applied, which makes the two zeros equal; a NaN compares with nothing.
-/
import ZearchEngine.Document
import ZearchEngine.Lib.LengthPrefix

namespace ZearchEngine

open LengthPrefix

/-- An `f32`, by its bit pattern. -/
structure F32 where
  bits : UInt32
deriving DecidableEq

/-- `1.0`. -/
def F32.one : F32 := ⟨0x3f800000⟩

/-- `f32::to_le_bytes`. -/
def F32.toLeBytes (x : F32) : List UInt8 := leBytes 4 x.bits.toNat

/-- `f32::from_le_bytes`; a chunk that is not four bytes long counts as zero. -/
def F32.fromLeBytes (chunk : List UInt8) : F32 :=
  if chunk.length = 4 then ⟨UInt32.ofNat (leNat chunk)⟩ else ⟨0⟩

/-- Sign and magnitude of a float as an integer, none for a NaN. -/
def floatKey (infinity magnitude : Nat) (negative : Bool) : Option Int :=
  if infinity < magnitude then none
  else some (if negative then -(magnitude : Int) else magnitude)

def F32.key (x : F32) : Option Int :=
  floatKey 0x7f800000 (x.bits &&& 0x7fffffff).toNat (x.bits &&& 0x80000000 ≠ 0)

def F64.key (x : F64) : Option Int :=
  floatKey 0x7ff0000000000000 (x.bits &&& 0x7fffffffffffffff).toNat
    (x.bits &&& 0x8000000000000000 ≠ 0)

/-- `f64::NEG_INFINITY`. -/
def F64.negInfinity : F64 := ⟨0xfff0000000000000⟩

/-- `a.partial_cmp(b).unwrap_or(Equal)`, on keys. -/
def partialCmp (a b : Option Int) : Ordering :=
  match a, b with
  | some x, some y => compare x y
  | _, _ => .eq

theorem partialCmp_self (a : Option Int) : partialCmp a a ≠ .gt := by
  cases a with
  | none => simp [partialCmp]
  | some x => exact compare_le_iff_le.mpr (Int.le_refl x)

theorem partialCmp_eq_lt_iff {a b : Option Int} : partialCmp a b = .lt ↔ partialCmp b a = .gt := by
  cases a with
  | none => cases b <;> simp [partialCmp]
  | some x =>
    cases b with
    | none => simp [partialCmp]
    | some y => exact compare_lt_iff_lt.trans compare_gt_iff_gt.symm

/-- On numbers this is their order. -/
theorem partialCmp_ne_gt_iff {a b : Option Int} (ha : a ≠ none) (hb : b ≠ none) :
    partialCmp a b ≠ .gt ↔ a.getD 0 ≤ b.getD 0 := by
  obtain ⟨x, rfl⟩ := Option.ne_none_iff_exists'.mp ha
  obtain ⟨y, rfl⟩ := Option.ne_none_iff_exists'.mp hb
  exact compare_le_iff_le

/-- `a <= b`: false if either is a NaN. -/
def F64.le (a b : F64) : Bool :=
  match a.key, b.key with
  | some x, some y => x ≤ y
  | _, _ => false

end ZearchEngine
