/-
# `edit_distance` is the Levenshtein distance

The table of `edit_distance` holds, at row `i` and column `j`, the distance between the first `i`
characters of the one string and the first `j` of the other.  Read backwards, these prefixes are
lists that grow at the front, and a cell is one step of `EditScript.distance` (`cells_cons`).  So
the last cell is the least number of edits (`editDistance_isLeast`).
-/
import ZearchEngine.Lib.EditScript
import ZearchEngine.Scoring

namespace ZearchEngine

open EditScript

/-! ## 1. Rows -/

/-- The rest of a row, from the cell of the prefix `before` on (both prefixes backwards). -/
def cells (prefixA : List Char) : List Char → List Char → List Nat
  | before, [] => [distance prefixA before]
  | before, b :: bs => distance prefixA before :: cells prefixA (b :: before) bs

theorem cells_eq_cons (prefixA before bs : List Char) :
    ∃ rest, cells prefixA before bs = distance prefixA before :: rest := by
  cases bs with
  | nil => exact ⟨[], rfl⟩
  | cons b bs => exact ⟨_, rfl⟩

/-- The row above the first character counts the columns. -/
theorem cells_nil (before bs : List Char) :
    cells [] before bs = List.range' before.length (bs.length + 1) := by
  induction bs generalizing before with
  | nil => simp [cells]
  | cons b bs ih =>
    rw [cells, ih, distance_nil_left, List.length_cons, List.length_cons, ← List.range'_succ]

/-- **One row of the table** from the row above it. -/
theorem cells_cons (c : Char) (prefixA before bs : List Char) :
    distance (c :: prefixA) before ::
        editCells c bs (cells prefixA before bs) (distance (c :: prefixA) before)
      = cells (c :: prefixA) before bs := by
  induction bs generalizing before with
  | nil => simp [editCells, cells]
  | cons b bs ih =>
    obtain ⟨rest, hrest⟩ := cells_eq_cons prefixA (b :: before) bs
    have hcell : (if c = b then distance prefixA before
        else 1 + min (min (distance prefixA (b :: before)) (distance (c :: prefixA) before))
          (distance prefixA before)) = distance (c :: prefixA) (b :: before) := by
      rw [distance]
    rw [cells, cells, hrest, editCells, hcell, ← hrest, ih]

theorem getLast?_cells (prefixA before bs : List Char) :
    (cells prefixA before bs).getLast? = some (distance prefixA (bs.reverse ++ before)) := by
  induction bs generalizing before with
  | nil => simp [cells]
  | cons b bs ih =>
    obtain ⟨rest, hrest⟩ := cells_eq_cons prefixA (b :: before) bs
    have ih := ih (b :: before)
    rw [hrest] at ih
    rw [cells, hrest, List.getLast?_cons_cons, ih, List.reverse_cons, List.append_assoc,
      List.singleton_append]

/-- The loop over the rows. -/
theorem foldl_rows (bs as prefixA : List Char) :
    (as.zipIdx prefixA.length).foldl
        (fun above (c, i) => (i + 1) :: editCells c bs above (i + 1)) (cells prefixA [] bs)
      = cells (as.reverse ++ prefixA) [] bs := by
  induction as generalizing prefixA with
  | nil => simp
  | cons c as ih =>
    have hrow : (prefixA.length + 1) ::
        editCells c bs (cells prefixA [] bs) (prefixA.length + 1) = cells (c :: prefixA) [] bs := by
      simpa using cells_cons c prefixA [] bs
    simp only [List.zipIdx_cons, List.foldl_cons, hrow]
    simpa using ih (c :: prefixA)

/-! ## 2. The distance -/

/-- The table computes the recursion. -/
theorem editDistance_eq (a b : String) : editDistance a b = distance a.toList b.toList := by
  have hinit : List.range (b.toList.length + 1) = cells [] [] b.toList := by
    rw [cells_nil, List.range_eq_range', List.length_nil]
  have hrows := foldl_rows b.toList a.toList []
  rw [List.length_nil, List.append_nil] at hrows
  rw [editDistance, hinit, hrows, getLast?_cells, Option.getD_some, List.append_nil,
    distance_reverse]

/-- **The distance is the least number of single-character edits** that turn the one string into
the other; so it is a metric. -/
theorem editDistance_isLeast (a b : String) :
    IsLeast {n | Edits n a.toList b.toList} (editDistance a b) ∧
    (editDistance a b = 0 ↔ a = b) ∧
    editDistance a b = editDistance b a ∧
    ∀ c, editDistance a c ≤ editDistance a b + editDistance b c := by
  simp only [editDistance_eq]
  refine ⟨isLeast_distance _ _, ?_, distance_comm _ _, fun c => distance_triangle _ _ _⟩
  rw [distance_eq_zero_iff, String.toList_inj]

end ZearchEngine
