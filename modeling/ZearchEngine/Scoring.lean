/-
# Scoring

`SegmentStatistics` and `Bm25Scorer` (`crates/query/src/scorer.rs`), `edit_distance` and the two
scoring closures of `QueryExecutor` (`crates/query/src/executor.rs`), in exact real arithmetic.

The inverse document frequency is cut off at 0.  For natural numbers of documents it is
positive exactly if there are at least as many documents as the frequency says
(`Bm25Scorer.idf_pos_iff`): always for a term, but not for terms taken together.
-/
import ZearchEngine.Inverted
import ZearchEngine.Search
import Mathlib.Analysis.SpecialFunctions.Log.Basic

namespace ZearchEngine

/-! ## 1. Edit distance -/

/-- The cells of a row after the first; `left` is the cell before. -/
def editCells (a : Char) : List Char → List Nat → Nat → List Nat
  | b :: bs, diag :: up :: above, left =>
    let cell := if a = b then diag else 1 + min (min up left) diag
    cell :: editCells a bs (up :: above) cell
  | _, _, _ => []

/-- `edit_distance`: the table is filled row by row, of which only the last is kept. -/
def editDistance (a b : String) : Nat :=
  let row := a.toList.zipIdx.foldl
    (fun above (c, i) => (i + 1) :: editCells c b.toList above (i + 1))
    (List.range (b.toList.length + 1))
  row.getLast?.getD 0

/-- What an automaton accepts is within the distance it was built for. -/
def TextAnalysis.Within (analysis : TextAnalysis) : Prop :=
  ∀ term maxDistance accepts, analysis.levenshtein term maxDistance = some accepts →
    ∀ t, accepts t = true → editDistance t term ≤ maxDistance

/-! ## 2. Statistics -/

/-- Per-segment statistics for BM25 scoring. -/
structure SegmentStatistics where
  totalDocs : Nat
  /-- Average token count per field. -/
  fieldAvgLengths : String → Option ℝ

/-- `*field_total_lengths.entry(field_name).or_default() += count`, for each field of a
document. -/
def addFieldLengths (schema : IndexSchema ℝ) (analysis : TextAnalysis)
    (totals : String → Option Nat) (doc : Document) : String → Option Nat :=
  (schema.fields.filter FieldConfig.isText).foldl (fun totals f =>
    match doc.fieldText f.name with
    | some text => Function.update totals f.name
        (some ((totals f.name).getD 0 + (analysis.analyze f.analyzer text).length))
    | none => totals) totals

/-- `SegmentStatistics::compute`. -/
noncomputable def SegmentStatistics.compute (schema : IndexSchema ℝ) (analysis : TextAnalysis)
    (reader : SegmentReader) : SegmentStatistics :=
  let totals := reader.liveDocuments.foldl (addFieldLengths schema analysis) (fun _ => none)
  let live := reader.allLiveDocs.length
  { totalDocs := live
    fieldAvgLengths := fun name => (totals name).map (fun v => (v : ℝ) / (max live 1 : Nat)) }

/-! ## 3. BM25 -/

/-- BM25 scorer with configurable k1 and b parameters. -/
structure Bm25Scorer where
  k1 : ℝ
  b : ℝ

namespace Bm25Scorer

/-- `Bm25Scorer::default`. -/
noncomputable def default : Bm25Scorer := ⟨bm25K1, bm25B⟩

/-- `idf`: ln(1 + (N - df + 0.5) / (df + 0.5)), but not less than 0. -/
noncomputable def idf (totalDocs docFreq : Nat) : ℝ :=
  max (Real.log (1 + ((totalDocs : ℝ) - docFreq + 1 / (2 : ℕ)) / (docFreq + 1 / (2 : ℕ)))) 0

/-- `term_score`. -/
noncomputable def termScore (s : Bm25Scorer) (tf dl : Nat) (avgdl idf : ℝ) : ℝ :=
  let avgdl := max avgdl 1
  let num := (tf : ℝ) * (s.k1 + 1)
  let denom := (tf : ℝ) + s.k1 * (1 - s.b + s.b * dl / avgdl)
  idf * num / denom

theorem idf_nonneg (totalDocs docFreq : Nat) : 0 ≤ idf totalDocs docFreq := le_max_right _ _

/-- The quotient under the logarithm. -/
theorem idf_eq (totalDocs docFreq : Nat) :
    idf totalDocs docFreq
      = max (Real.log (((totalDocs : ℝ) + 1) / ((docFreq : ℝ) + 1 / 2))) 0 := by
  have hdf : (0 : ℝ) < docFreq + 1 / 2 := by positivity
  have hquot : 1 + ((totalDocs : ℝ) - docFreq + 1 / 2) / (docFreq + 1 / 2)
      = (totalDocs + 1) / (docFreq + 1 / 2) := by
    field_simp
    ring
  rw [idf, Nat.cast_ofNat, hquot]

/-- **The cut-off.** -/
theorem idf_pos_iff (totalDocs docFreq : Nat) :
    0 < idf totalDocs docFreq ↔ docFreq ≤ totalDocs := by
  have hdf : (0 : ℝ) < docFreq + 1 / 2 := by positivity
  have hpos : (0 : ℝ) < (totalDocs + 1) / (docFreq + 1 / 2) := by positivity
  rw [idf_eq, lt_max_iff, or_iff_left (lt_irrefl _), Real.log_pos_iff hpos.le, one_lt_div hdf]
  constructor
  · intro hlt
    have hcast : (docFreq : ℝ) < (totalDocs + 1 : Nat) := by
      push_cast
      linarith
    exact Nat.lt_succ_iff.mp (Nat.cast_lt.mp hcast)
  · intro hle
    have hcast : (docFreq : ℝ) ≤ totalDocs := Nat.cast_le.mpr hle
    linarith

theorem termScore_eq (tf dl : Nat) (avgdl idf : ℝ) :
    default.termScore tf dl avgdl idf = idf * bm25Impact tf dl avgdl := by
  rw [termScore, bm25Impact, default, mul_div_assoc]

theorem termScore_nonneg (tf dl : Nat) (avgdl : ℝ) {idf : ℝ} (hidf : 0 ≤ idf) :
    0 ≤ default.termScore tf dl avgdl idf := by
  rw [termScore_eq]
  exact mul_nonneg hidf (bm25Impact_nonneg tf dl avgdl)

theorem termScore_pos {tf : Nat} (htf : 0 < tf) (dl : Nat) (avgdl : ℝ) {idf : ℝ}
    (hidf : 0 < idf) : 0 < default.termScore tf dl avgdl idf := by
  rw [termScore_eq]
  exact mul_pos hidf (bm25Impact_pos htf dl avgdl)

end Bm25Scorer

end ZearchEngine
