/-
# Counting into a table

A loop over some items adds one to the cell an item names, if the table has that cell.
`getElem?_bumps` says what a cell holds after the loop, `countP_sort` what a count over the
sorted elements of a finite set is.
-/
import Mathlib

namespace Histogram

variable {ι : Type}

/-- One turn of the loop: the cell `k`, one higher. -/
def bump (counts : List Nat) (k : Option Nat) : List Nat :=
  match k with
  | none => counts
  | some k => if k < counts.length then counts.modify k (· + 1) else counts

/-- A turn adds one to its own cell and leaves the others. -/
theorem getElem?_bump (counts : List Nat) (k : Option Nat) (j : Nat) :
    (bump counts k)[j]? = counts[j]?.map (· + if k = some j then 1 else 0) := by
  cases k with
  | none => simp [bump]
  | some k =>
    simp only [bump, Option.some.injEq]
    by_cases hk : k < counts.length
    · rw [if_pos hk, List.getElem?_modify]
      by_cases hkj : k = j
      · simp [hkj]
      · simp [hkj]
    · rw [if_neg hk]
      by_cases hkj : k = j
      · subst hkj
        simp [List.getElem?_eq_none (Nat.le_of_not_lt hk)]
      · simp [hkj]

/-- **After the loop** a cell holds what it held before and the number of items that name it. -/
theorem getElem?_bumps (cell : ι → Option Nat) (items : List ι) (counts : List Nat) (j : Nat) :
    (items.foldl (fun counts i => bump counts (cell i)) counts)[j]?
      = counts[j]?.map (· + items.countP (fun i => cell i = some j)) := by
  induction items generalizing counts with
  | nil => simp
  | cons i items ih =>
    rw [List.foldl_cons, ih, getElem?_bump, Option.map_map, List.countP_cons]
    congr 1
    funext n
    simp only [Function.comp_apply, decide_eq_true_eq]
    omega

/-- Counting in the sorted elements of a finite set. -/
theorem countP_sort (s : Finset Nat) (p : Nat → Bool) :
    (s.sort (· ≤ ·)).countP p = (s.filter (fun i => p i)).card := by
  have hnodup : ((s.sort (· ≤ ·)).filter p).Nodup := (s.sort_nodup (· ≤ ·)).filter p
  have hset : ((s.sort (· ≤ ·)).filter p).toFinset = s.filter (fun i => p i) := by
    ext i
    simp
  rw [List.countP_eq_length_filter, ← List.toFinset_card_of_nodup hnodup, hset]

end Histogram
