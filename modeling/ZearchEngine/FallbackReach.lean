/-
# What the OR fallback reaches and what it returns

The OR fallback (`QueryExecutor::score_query_or_fallback`, `crates/query/src/executor.rs`) has
its own copy of the expansion of a token and of the scoring closure.  The copy of the expansion
looks for similar terms where no term starts with the token, as AND retrieval does.  The copy of
the closure lacks the branch that scores similar terms.

So a document that a token reaches by a similar term only is scored 0 and left out, unless some
token starts one of its terms (`fallback_complete_iff`).
-/
import ZearchEngine.Removal

namespace ZearchEngine

namespace TextExecutor

/-! ## 1. The ids of an execution -/

/-- The local ids of the documents that `execute` returns. -/
noncomputable def localIds (x : TextExecutor) (round : ℝ → F32) (reader : SegmentReader)
    (ord : Nat) (request : SearchRequest) : List LocalDocId :=
  ((x.columnExecutor round).execute reader ord request).scoredDocs.map ScoredDoc.localDocId

/-- `i` is in the expansion of some query token. -/
def Reaches (x : TextExecutor) (reader : SegmentReader) (request : SearchRequest)
    (i : LocalDocId) : Prop :=
  ∃ token ∈ x.queryTokens request, i ∈ x.mergedDocs reader request token

/-- Every live document that passes the filters and is reached is returned. -/
def ReturnsReached (x : TextExecutor) (round : ℝ → F32) (reader : SegmentReader) (ord : Nat)
    (request : SearchRequest) : Prop :=
  ∀ i ∈ reader.allLiveDocs, passes (x.columnFilter round reader request) i = true →
    x.Reaches reader request i → i ∈ x.localIds round reader ord request

/-- In a segment with the terms of `docs`, every document of `live` that passes the filters and
is found by some token has a term that starts with some token. -/
def FoundByPrefix (x : TextExecutor) (docs live : List Document) (request : SearchRequest) :
    Prop :=
  ∀ doc ∈ live, request.passes x.schema doc = true →
    (∃ token ∈ x.queryTokens request, x.Found docs request token doc) → x.HasPrefix request doc

instance (x : TextExecutor) (docs live : List Document) (request : SearchRequest) :
    Decidable (x.FoundByPrefix docs live request) :=
  inferInstanceAs (Decidable (∀ doc ∈ live, _))

section

variable {x : TextExecutor} {round : ℝ → F32} {request : SearchRequest} {docs : List Document}
  {del : Bitmap} {ord : Nat} {filter : Option Bitmap}

/-- With a query, they are those that are scored. -/
theorem localIds_of_query (hquery : request.query.isEmpty = false) :
    x.localIds round (.ofDocs docs del) ord request
      = (x.scoreQuery (.ofDocs docs del)
          (.compute x.schema x.analysis (.ofDocs docs del)) request
          (x.columnFilter round (.ofDocs docs del) request)).1.map Prod.fst := by
  have hscore : ∀ reader filter, ((x.columnExecutor round).scoreQuery reader request filter).1
      = (x.scoreQuery reader (.compute x.schema x.analysis reader) request filter).1.map
          (fun hit => (hit.1, round hit.2)) := fun _ _ => rfl
  have hquery' : ¬ request.query.isEmpty = true := by simp [hquery]
  simp only [localIds, QueryExecutor.execute, if_neg hquery', hscore]
  rw [List.filterMap_map, List.map_filterMap, ← List.filterMap_eq_map]
  refine List.filterMap_congr (fun hit hhit => ?_)
  obtain ⟨doc, hdoc⟩ := Option.isSome_iff_exists.mp (isSome_getDoc_of_mem_scoreQuery hhit)
  have hread : (SegmentReader.ofDocs docs del).getDoc hit.1 = some doc := hdoc
  simp [hread]

/-! ## 2. What the fallback returns -/

/-- A token scores no more documents than its posting list has. -/
theorem length_tokenMatches_le (token : String) :
    (x.tokenMatches (.ofDocs docs del) request filter token).length
      ≤ (x.mergedDocs (.ofDocs docs del) request token).length := by
  refine nodup_tokenMatches.length_le_of_subset (fun i hi => ?_)
  exact of_decide_eq_true ((Bool.and_eq_true _ _).mp (List.mem_filter.mp hi).2).1

theorem le_candidateCount (request : SearchRequest) : 200 ≤ candidateCount request :=
  le_max_right _ _

/-- **The fallback returns all it reaches exactly if** what it finds, it finds by prefix. -/
theorem fallback_complete_iff (hwithin : x.analysis.Within) (hboost : PositiveBoosts x.schema)
    (hlen : docs.length ≤ u32Max) (hquery : request.query.isEmpty = false)
    (hmulti : (x.queryTokens request).length > 1)
    (hand : x.scoreQueryWand (.ofDocs docs del)
      (.compute x.schema x.analysis (.ofDocs docs del)) request
      (x.columnFilter round (.ofDocs docs del) request) = [])
    (hfew : ∀ token ∈ x.queryTokens request,
      (x.mergedDocs (.ofDocs docs del) request token).length < 200)
    (hidf : ∀ token ∈ x.queryTokens request,
      0 < Bm25Scorer.idf (SegmentReader.ofDocs docs del).allLiveDocs.length
        (x.totalDf (.ofDocs docs del) request token)) :
    x.ReturnsReached round (.ofDocs docs del) ord request ↔
      x.FoundByPrefix docs (SegmentReader.ofDocs docs del).liveDocuments request := by
  have hreturned : ∀ i, i ∈ x.localIds round (.ofDocs docs del) ord request ↔
      passes (x.columnFilter round (.ofDocs docs del) request) i = true ∧
      ∃ doc, (SegmentReader.ofDocs docs del).getDoc i = some doc ∧ x.HasPrefix request doc := by
    intro i
    rw [localIds_of_query hquery, scoreQuery_eq_scoreQueryOrFallback hmulti hand]
    exact mem_scoreQueryOrFallback_iff hwithin hboost hlen hidf (fun token ht =>
      (length_tokenMatches_le token).trans ((hfew token ht).le.trans (le_candidateCount request)))
  constructor
  · intro hreturns doc hlive hpass hfound
    obtain ⟨i, hget⟩ := SegmentReader.mem_liveDocuments_iff.mp hlive
    obtain ⟨token, ht, hfound⟩ := hfound
    have hi : i ∈ x.localIds round (.ofDocs docs del) ord request :=
      hreturns i (mem_allLiveDocs_of_getDoc hget) ((passes_columnFilter hget).mpr hpass)
        ⟨token, ht, (mem_mergedDocs_of_getDoc hget).mpr hfound⟩
    obtain ⟨-, doc', hget', hprefix⟩ := (hreturned i).mp hi
    rwa [Option.some.inj (hget.symm.trans hget')]
  · rintro hfound i hi hpass ⟨token, ht, hmem⟩
    obtain ⟨doc, hget⟩ := exists_getDoc_of_mem_allLiveDocs hi
    have hprefix : x.HasPrefix request doc :=
      hfound doc (SegmentReader.mem_liveDocuments_of_getDoc hget)
        ((passes_columnFilter hget).mp hpass) ⟨token, ht, (mem_mergedDocs_of_getDoc hget).mp hmem⟩
    exact (hreturned i).mpr ⟨hpass, doc, hget, hprefix⟩

end

/-! ## 3. A misspelt token -/

/-- The title "12346" and another one. -/
def misspelt : List Document := [titled 1 "12346", titled 2 "9"]

/-- **The query "12345 7" does not return the title "12346"**, although the fallback reaches it:
"12346" is similar to "12345", and does not start with it. -/
theorem not_returnsReached_misspelt :
    plain.analysis.Within ∧ PositiveBoosts plain.schema ∧
    (plain.queryTokens (tolerant "12345 7")).length > 1 ∧
    plain.scoreQueryWand (.ofDocs misspelt ∅)
      (.compute plain.schema plain.analysis (.ofDocs misspelt ∅)) (tolerant "12345 7")
      (plain.columnFilter (fun _ => F32.one) (.ofDocs misspelt ∅) (tolerant "12345 7")) = [] ∧
    (∀ token ∈ plain.queryTokens (tolerant "12345 7"),
      (plain.mergedDocs (.ofDocs misspelt ∅) (tolerant "12345 7") token).length < 200) ∧
    (∀ token ∈ plain.queryTokens (tolerant "12345 7"),
      0 < Bm25Scorer.idf (SegmentReader.ofDocs misspelt ∅).allLiveDocs.length
        (plain.totalDf (.ofDocs misspelt ∅) (tolerant "12345 7") token)) ∧
    ¬ plain.ReturnsReached (fun _ => F32.one) (.ofDocs misspelt ∅) 0 (tolerant "12345 7") := by
  have hand : plain.scoreQueryWand (.ofDocs misspelt ∅)
      (.compute plain.schema plain.analysis (.ofDocs misspelt ∅)) (tolerant "12345 7")
      (plain.columnFilter (fun _ => F32.one) (.ofDocs misspelt ∅) (tolerant "12345 7")) = [] :=
    scoreQueryWand_eq_nil within_plainAnalysis (by decide) (by decide)
  have hmulti : (plain.queryTokens (tolerant "12345 7")).length > 1 := by decide
  refine ⟨within_plainAnalysis, positiveBoosts_defaultProductSchema, hmulti, hand, by decide,
    fun token ht => (Bm25Scorer.idf_pos_iff _ _).mpr (by revert token; decide), ?_⟩
  intro hreturns
  have hi : 0 ∈ plain.localIds (fun _ => F32.one) (.ofDocs misspelt ∅) 0 (tolerant "12345 7") :=
    hreturns 0 (by decide) rfl ⟨"12345", by decide, by decide⟩
  rw [localIds_of_query (by decide), scoreQuery_eq_scoreQueryOrFallback hmulti hand] at hi
  obtain ⟨-, -, doc, hget, hprefix⟩ := orAnswer_of_mem_scoreQueryOrFallback within_plainAnalysis
    positiveBoosts_defaultProductSchema (by decide) (totalDocs_compute _ _) hi
  obtain rfl : doc = titled 1 "12346" := by
    rw [SegmentReader.getDoc_ofDocs] at hget
    exact (Option.some.inj hget).symm
  exact absurd hprefix (by decide)

/-- The query "12345 9" returns what it reaches of the titles "12345" and "9 8". -/
theorem fallback_complete_iff_spelt :
    plain.ReturnsReached (fun _ => F32.one) (.ofDocs [titled 1 "12345", titled 2 "9 8"] ∅) 0
        (tolerant "12345 9") ↔
      plain.FoundByPrefix [titled 1 "12345", titled 2 "9 8"]
        (SegmentReader.ofDocs [titled 1 "12345", titled 2 "9 8"] ∅).liveDocuments
        (tolerant "12345 9") :=
  fallback_complete_iff within_plainAnalysis positiveBoosts_defaultProductSchema (by decide)
    (by decide) (by decide)
    (scoreQueryWand_eq_nil within_plainAnalysis (by decide) (by decide)) (by decide)
    (fun token ht => (Bm25Scorer.idf_pos_iff _ _).mpr (by revert token; decide))

/-- There everything is found by prefix; in the titles "12346" and "9" it is not. -/
example : plain.FoundByPrefix [titled 1 "12345", titled 2 "9 8"]
      [titled 1 "12345", titled 2 "9 8"] (tolerant "12345 9") ∧
    ¬ plain.FoundByPrefix misspelt misspelt (tolerant "12345 7") := by
  decide

end TextExecutor

end ZearchEngine
