/-
# Blocks of a fixed size

A list cut into blocks of `size` elements, the last one as short as what is left, with a header
for each block.  The element at position `i` is in the block `i / size` (`mem_block_iff`), and
the header of that block is at this index (`getElem?_headers`).

A header may be the largest value in its block, found by a fold that starts from some value
below all of them (`isGreatest_foldl_max`).
-/
import Mathlib

namespace Blocks

variable {α β : Type}

/-! ## 1. Blocks and headers -/

/-- The number of blocks of `n` elements. -/
def numBlocks (size n : Nat) : Nat := (n + size - 1) / size

/-- The elements of the block `b`. -/
def block (size b : Nat) (l : List α) : List α := (l.drop (b * size)).take size

/-- A header for each block, made of its elements. -/
def headers (size : Nat) (f : List α → β) (l : List α) : List β :=
  (List.range (numBlocks size l.length)).map (fun b => f (block size b l))

/-- The number of blocks, rounded up. -/
theorem numBlocks_eq_ceil {size : Nat} (hsize : 0 < size) (n : Nat) :
    numBlocks size n = ⌈(n : ℚ) / size⌉₊ := by
  refine eq_of_forall_ge_iff (fun k => ?_)
  have hceil : ⌈(n : ℚ) / size⌉₊ ≤ k ↔ n ≤ k * size := by
    have hpos : (0 : ℚ) < size := Nat.cast_pos.mpr hsize
    rw [Nat.ceil_le, div_le_iff₀ hpos]
    exact_mod_cast Iff.rfl
  rw [hceil, numBlocks, ← Nat.lt_succ_iff, Nat.div_lt_iff_lt_mul hsize, Nat.succ_mul]
  omega

/-- The block of a position is one of the blocks. -/
theorem div_lt_numBlocks {size i n : Nat} (hsize : 0 < size) (h : i < n) :
    i / size < numBlocks size n := by
  rw [numBlocks, Nat.lt_iff_add_one_le, ← Nat.add_div_right i hsize]
  exact Nat.div_le_div_right (by omega)

/-- Up to the start of the next block, the block stays the same. -/
theorem div_eq_of_lt_next {size i j : Nat} (hsize : 0 < size) (hle : i ≤ j)
    (hlt : j < (i / size + 1) * size) : j / size = i / size :=
  le_antisymm (Nat.lt_succ_iff.mp ((Nat.div_lt_iff_lt_mul hsize).mpr hlt))
    (Nat.div_le_div_right hle)

theorem mem_block_iff {size : Nat} (hsize : 0 < size) {b : Nat} {l : List α} {x : α} :
    x ∈ block size b l ↔ ∃ i, i / size = b ∧ l[i]? = some x := by
  rw [block, List.mem_iff_getElem?]
  constructor
  · rintro ⟨k, hk⟩
    rw [List.getElem?_take] at hk
    split at hk
    · next hlt =>
      rw [List.getElem?_drop] at hk
      refine ⟨b * size + k, ?_, hk⟩
      rw [Nat.mul_comm, Nat.mul_add_div hsize, Nat.div_eq_of_lt hlt, Nat.add_zero]
    · cases hk
  · rintro ⟨i, rfl, hi⟩
    refine ⟨i % size, ?_⟩
    rw [List.getElem?_take_of_lt (Nat.mod_lt i hsize), List.getElem?_drop, Nat.div_add_mod']
    exact hi

theorem length_headers (size : Nat) (f : List α → β) (l : List α) :
    (headers size f l).length = numBlocks size l.length := by
  simp [headers]

/-- **The header of the block of a position.** -/
theorem getElem?_headers {size : Nat} (hsize : 0 < size) (f : List α → β) {l : List α} {i : Nat}
    (h : i < l.length) : (headers size f l)[i / size]? = some (f (block size (i / size) l)) := by
  simp [headers, div_lt_numBlocks hsize h]

/-! ## 2. The largest value of a block -/

/-- **A fold with `max`** finds the greatest one of the values and the one it starts from. -/
theorem isGreatest_foldl_max {R : Type} [LinearOrder R] (l : List R) (init : R) :
    IsGreatest {y | y ∈ init :: l} (l.foldl max init) := by
  have hmax : (init :: l).max? = some (l.foldl max init) := List.max?_cons'
  exact List.max?_eq_some_iff.mp hmax

end Blocks
