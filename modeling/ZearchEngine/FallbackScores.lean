/-
# The scores of the OR fallback

The OR fallback retrieves every query token alone and adds up the scores of a document
(`QueryExecutor::score_query_or_fallback`, `crates/query/src/executor.rs`).  The closure that
scores a document for one token loops over all query tokens.  So each token that retrieves a
document adds its whole score once more (`score_of_mem_scoreQueryOrFallback`), and the score is
the sum of what the tokens contribute only if one token retrieves it (`addsUp_iff`).

A token may match a document and not retrieve it: if its expansion counts more documents than
there are, or if the bound of the block is not positive (`Retrieves`).
-/
import ZearchEngine.BlockBound
import ZearchEngine.FallbackReach
import ZearchEngine.Lib.Tally

namespace ZearchEngine.TextExecutor

/-! ## 1. Contributions and retrieval -/

section

variable (x : TextExecutor) (reader : SegmentReader) (stats : SegmentStatistics)
  (request : SearchRequest)

/-- What one query token contributes to the score of a document: boost times `term_score`, over
the indexed text fields. -/
noncomputable def contribution (doc : Document) (token : String) : ℝ :=
  ((x.schema.fields.filter FieldConfig.isText).map (fun f =>
    match doc.fieldText f.name with
    | some _ => x.tokenScore reader stats false f (f.tokens x.analysis doc) token
    | none => 0)).sum

/-- The token, retrieved alone, reaches the document: it is in its expansion, which does not
count more documents than there are, and the bound of its block is positive. -/
structure Retrieves (token : String) (i : LocalDocId) : Prop where
  mem : i ∈ x.mergedDocs reader request token
  rare : x.totalDf reader request token ≤ stats.totalDocs
  bound : 0 < x.blockWeight reader stats request token i

/-- The score of every returned document is the sum of the contributions of the query tokens
that match it. -/
def AddsUp (filter : Option Bitmap) : Prop :=
  ∀ hit ∈ x.scoreQueryOrFallback reader stats request filter,
    ∀ doc, reader.getDoc hit.1 = some doc →
      hit.2 = (((x.queryTokens request).filter
        (fun token => hit.1 ∈ x.mergedDocs reader request token)).map
          (x.contribution reader stats doc)).sum

end

section

variable {x : TextExecutor} {reader : SegmentReader} {stats : SegmentStatistics}
  {request : SearchRequest} {docs : List Document} {del : Bitmap} {filter : Option Bitmap}

/-- **The score of a document is the sum of all contributions.** -/
theorem totalScore_or_eq (doc : Document) :
    x.totalScore reader stats request false doc
      = ((x.queryTokens request).map (x.contribution reader stats doc)).sum := by
  -- what one field gives for one token
  let part : FieldConfig ℝ → String → ℝ := fun f token =>
    match doc.fieldText f.name with
    | some _ => x.tokenScore reader stats false f (f.tokens x.analysis doc) token
    | none => 0
  have hpart : ∀ f : FieldConfig ℝ,
      (match doc.fieldText f.name with
        | some _ => ((x.queryTokens request).map
            (x.tokenScore reader stats false f (f.tokens x.analysis doc))).sum
        | none => 0) = ((x.queryTokens request).map (part f)).sum := by
    intro f
    cases htext : doc.fieldText f.name with
    | some text => simp only [part, htext]
    | none => simp [part, htext]
  exact totalScore_swap part hpart

/-- A document without a term that starts with the token gets nothing for it. -/
theorem contribution_eq_zero {doc : Document} {token : String} (h : ¬ x.Starts token doc) :
    x.contribution reader stats doc token = 0 := by
  refine List.sum_eq_zero (fun s hs => ?_)
  obtain ⟨f, hf, rfl⟩ := List.mem_map.mp hs
  cases doc.fieldText f.name with
  | none => rfl
  | some text =>
    exact tokenScore_eq_zero (fun term hterm hstarts =>
      h ⟨term, List.mem_flatMap.mpr ⟨f, hf, hterm⟩, hstarts⟩)

/-- **Only the tokens that match a document contribute to its score.** -/
theorem sum_contribution_matching {i : LocalDocId} {doc : Document}
    (hget : (SegmentReader.ofDocs docs del).getDoc i = some doc) :
    (((x.queryTokens request).filter
        (fun token => i ∈ x.mergedDocs (.ofDocs docs del) request token)).map
      (x.contribution (.ofDocs docs del) stats doc)).sum
      = x.totalScore (.ofDocs docs del) stats request false doc := by
  rw [totalScore_or_eq, ← List.sum_map_filter_add_sum_map_filter_not
    (fun token => i ∈ x.mergedDocs (.ofDocs docs del) request token) _ (x.queryTokens request)]
  refine (add_eq_left.mpr (List.sum_eq_zero (fun s hs => ?_))).symm
  obtain ⟨token, htoken, rfl⟩ := List.mem_map.mp hs
  have hnot := of_decide_eq_true (List.mem_filter.mp htoken).2
  exact contribution_eq_zero (fun hstarts =>
    hnot ((mem_mergedDocs_of_getDoc hget).mpr (Or.inl hstarts)))

/-! ## 2. One token alone -/

theorem ready_cursor (hlen : docs.length ≤ u32Max) (token : String) :
    Ready [x.cursor (.ofDocs docs del) stats request token] where
  nonempty := List.cons_ne_nil _ _
  sorted := by
    intro c hc
    obtain rfl := List.mem_singleton.mp hc
    exact sorted_cursor token
  below := by
    intro c hc p hp
    obtain rfl := List.mem_singleton.mp hc
    have hmem : p.docId ∈ x.mergedDocs (.ofDocs docs del) request token := by
      rw [← postings_cursor]
      exact List.mem_map_of_mem hp
    obtain ⟨doc, hget, -⟩ := mem_mergedDocs.mp hmem
    have hlt : p.docId < docs.length :=
      List.mem_range.mp (List.mem_of_mem_filter (mem_allLiveDocs_of_getDoc hget))
    exact hlt.trans_le hlen

/-- A single cursor shares its own documents. -/
theorem intersection_cursor (token : String) :
    intersection [x.cursor reader stats request token] = x.mergedDocs reader request token := by
  simp [intersection, Leapfrog.common]

theorem nodup_mergedDocs (token : String) : (x.mergedDocs reader request token).Nodup :=
  (PostingList.merge_spec _).2.imp Nat.ne_of_lt

/-- A token scores no more documents than the live documents list. -/
theorem length_bruteForce_le (token : String) :
    (bruteForce (x.scoreFnOr (.ofDocs docs del)
        (.compute x.schema x.analysis (.ofDocs docs del)) request filter)
      [x.cursor (.ofDocs docs del) (.compute x.schema x.analysis (.ofDocs docs del)) request
        token]).length
      ≤ (x.tokenMatches (.ofDocs docs del) request filter token).length := by
  rw [← List.length_map (f := Prod.fst), map_fst_bruteForce, intersection_cursor]
  refine ((nodup_mergedDocs token).filter _).length_le_of_subset (fun i hi => ?_)
  obtain ⟨hmem, hscore⟩ := List.mem_filter.mp hi
  obtain ⟨doc, hget, -⟩ := mem_mergedDocs.mp hmem
  exact List.mem_filter.mpr ⟨mem_allLiveDocs_of_getDoc hget, by simp [hmem, hscore]⟩

/-- The bound of the only cursor is positive exactly if the token is not too frequent and its
block weighs something. -/
theorem boundFor_cursor_pos_iff (token : String) (i : LocalDocId) :
    0 < ([x.cursor reader stats request token].map
        (TermCursor.boundFor x.titleBoost x.descBoost i)).sum ↔
      x.totalDf reader request token ≤ stats.totalDocs ∧
        0 < x.blockWeight reader stats request token i := by
  have hidf := Bm25Scorer.idf_nonneg stats.totalDocs (x.totalDf reader request token)
  rw [List.map_singleton, List.sum_singleton, boundFor_cursor, ← Bm25Scorer.idf_pos_iff]
  constructor
  · intro hpos
    have hweight := pos_of_mul_pos_right hpos hidf
    exact ⟨pos_of_mul_pos_left hpos hweight.le, pos_of_mul_pos_right hweight (by positivity)⟩
  · rintro ⟨hidf', hweight⟩
    positivity

/-- **What one token returns**, with room for all: the documents it retrieves that have a
score. -/
theorem tokenResults_perm (hlen : docs.length ≤ u32Max) {token : String}
    (hfew : (x.tokenMatches (.ofDocs docs del) request filter token).length < 200) :
    (x.tokenResults (.ofDocs docs del) (.compute x.schema x.analysis (.ofDocs docs del)) request
      filter token).Perm
      (bruteForce (withBound x.titleBoost x.descBoost
          [x.cursor (.ofDocs docs del) (.compute x.schema x.analysis (.ofDocs docs del)) request
            token]
          (x.scoreFnOr (.ofDocs docs del) (.compute x.schema x.analysis (.ofDocs docs del))
            request filter))
        [x.cursor (.ofDocs docs del) (.compute x.schema x.analysis (.ofDocs docs del)) request
          token]) := by
  rw [tokenResults]
  split
  · next hempty =>
    have hnone : x.mergedDocs (.ofDocs docs del) request token = [] :=
      List.eq_nil_iff_forall_not_mem.mpr (fun i hi =>
        rawLists_ne_nil_of_mem hi (List.isEmpty_iff.mp hempty))
    rw [bruteForce, intersection_cursor, hnone]
    rfl
  · have hroom := (length_bruteForce_le token).trans (hfew.le.trans (le_candidateCount request))
    have hstart : ∀ c ∈ [x.cursor (.ofDocs docs del)
        (.compute x.schema x.analysis (.ofDocs docs del)) request token], c.position = 0 := by
      simp
    obtain ⟨hits, hperm, hrun⟩ := wandTopK_withBound_roomy (ready_cursor hlen token) hstart
      (one_le_candidateCount request) (fun i score => scoreFnOr_pos) hroom
    rw [runWand, hrun _ (Nat.lt_succ_self _)]
    exact hperm

/-- **A token returns exactly what it retrieves**, if it has a score. -/
theorem mem_tokenResults_iff_retrieves (hlen : docs.length ≤ u32Max) {token : String}
    (hfew : (x.tokenMatches (.ofDocs docs del) request filter token).length < 200)
    {hit : LocalDocId × ℝ} :
    hit ∈ x.tokenResults (.ofDocs docs del) (.compute x.schema x.analysis (.ofDocs docs del))
        request filter token ↔
      x.Retrieves (.ofDocs docs del) (.compute x.schema x.analysis (.ofDocs docs del)) request
        token hit.1 ∧
      x.scoreFnOr (.ofDocs docs del) (.compute x.schema x.analysis (.ofDocs docs del)) request
        filter hit.1 = some hit.2 := by
  rw [(tokenResults_perm hlen hfew).mem_iff, bruteForce, intersection_cursor, List.mem_filterMap]
  constructor
  · rintro ⟨i, hi, hmap⟩
    obtain ⟨score, hscore, rfl⟩ := Option.map_eq_some_iff.mp hmap
    rw [withBound] at hscore
    split at hscore
    · next hbound =>
      obtain ⟨hrare, hweight⟩ := (boundFor_cursor_pos_iff token i).mp hbound
      exact ⟨⟨hi, hrare, hweight⟩, hscore⟩
    · cases hscore
  · rintro ⟨⟨hi, hrare, hweight⟩, hscore⟩
    refine ⟨hit.1, hi, ?_⟩
    rw [withBound, if_pos ((boundFor_cursor_pos_iff token hit.1).mpr ⟨hrare, hweight⟩), hscore]
    rfl

/-- No document twice. -/
theorem distinct_tokenResults (hlen : docs.length ≤ u32Max) {token : String}
    (hfew : (x.tokenMatches (.ofDocs docs del) request filter token).length < 200) :
    Tally.Distinct (x.tokenResults (.ofDocs docs del)
      (.compute x.schema x.analysis (.ofDocs docs del)) request filter token) := by
  rw [Tally.Distinct, ((tokenResults_perm hlen hfew).map Prod.fst).nodup_iff, map_fst_bruteForce,
    intersection_cursor]
  exact (nodup_mergedDocs token).filter _

/-! ## 3. The score map -/

/-- The score map adds up by document. -/
theorem addScore_eq : addScore = Tally.upsert (· + ·) 0 := by
  funext scoreMap hit
  rw [addScore, Tally.upsert, zero_add]

open Classical in
/-- **What one token adds** to the score of a document. -/
theorem sumOf_tokenResults (hlen : docs.length ≤ u32Max) {token : String}
    (hfew : (x.tokenMatches (.ofDocs docs del) request filter token).length < 200)
    {i : LocalDocId} {score : ℝ}
    (hscore : x.scoreFnOr (.ofDocs docs del)
      (.compute x.schema x.analysis (.ofDocs docs del)) request filter i = some score) :
    Tally.sumOf id (x.tokenResults (.ofDocs docs del)
        (.compute x.schema x.analysis (.ofDocs docs del)) request filter token) i
      = if x.Retrieves (.ofDocs docs del) (.compute x.schema x.analysis (.ofDocs docs del))
          request token i then score else 0 := by
  have hdistinct := distinct_tokenResults hlen hfew
  rw [Tally.sumOf_eq id 0 rfl i hdistinct]
  split
  · next hretrieves =>
    exact Tally.get_eq_of_mem 0 hdistinct
      ((mem_tokenResults_iff_retrieves hlen hfew).mpr ⟨hretrieves, hscore⟩)
  · next hnot =>
    refine Tally.get_eq_of_forall_ne 0 (fun hit hhit heq => hnot ?_)
    exact heq ▸ ((mem_tokenResults_iff_retrieves hlen hfew).mp hhit).1

theorem scoreFnOr_eq_some_iff {i : LocalDocId} {score : ℝ} :
    x.scoreFnOr reader stats request filter i = some score ↔
      passes filter i = true ∧ ∃ doc, reader.getDoc i = some doc ∧
        0 < x.totalScore reader stats request false doc ∧
        x.totalScore reader stats request false doc = score := by
  rw [scoreFnOr]
  by_cases hpass : passes filter i = true
  · rw [if_pos hpass, and_iff_right hpass, Option.bind_eq_some_iff]
    refine exists_congr (fun doc => and_congr_right (fun _ => ?_))
    by_cases hpos : 0 < x.totalScore reader stats request false doc
    · simp [hpos]
    · simp [hpos]
  · simp [hpass]

/-- The documents that are returned: those that have a score and that some token retrieves. -/
theorem mem_map_fst_scoreQueryOrFallback (hlen : docs.length ≤ u32Max)
    (hfew : ∀ token ∈ x.queryTokens request,
      (x.tokenMatches (.ofDocs docs del) request filter token).length < 200) {i : LocalDocId} :
    i ∈ (x.scoreQueryOrFallback (.ofDocs docs del)
        (.compute x.schema x.analysis (.ofDocs docs del)) request filter).map Prod.fst ↔
      (∃ score, x.scoreFnOr (.ofDocs docs del)
        (.compute x.schema x.analysis (.ofDocs docs del)) request filter i = some score) ∧
      ∃ token ∈ x.queryTokens request, x.Retrieves (.ofDocs docs del)
        (.compute x.schema x.analysis (.ofDocs docs del)) request token i := by
  have hflat : i ∈ (x.scoreMap (.ofDocs docs del)
      (.compute x.schema x.analysis (.ofDocs docs del)) request filter).map Prod.fst ↔
      ∃ token ∈ x.queryTokens request, ∃ score, (i, score) ∈ x.tokenResults (.ofDocs docs del)
        (.compute x.schema x.analysis (.ofDocs docs del)) request filter token := by
    rw [mem_map_fst_scoreMap]
    simp
  rw [scoreQueryOrFallback]
  constructor
  · intro hi
    obtain ⟨hit, hhit, rfl⟩ := List.mem_map.mp hi
    have hmap := x.scoreOrder.mem_run.mp (List.mem_of_mem_filter hhit)
    obtain ⟨token, htoken, score, hres⟩ := hflat.mp (List.mem_map_of_mem hmap)
    obtain ⟨hretrieves, hscore⟩ := (mem_tokenResults_iff_retrieves hlen (hfew token htoken)).mp hres
    exact ⟨⟨score, hscore⟩, token, htoken, hretrieves⟩
  · rintro ⟨⟨score, hscore⟩, token, htoken, hretrieves⟩
    obtain ⟨hit, hhit, rfl⟩ := List.mem_map.mp (hflat.mpr ⟨token, htoken, score,
      (mem_tokenResults_iff_retrieves hlen (hfew token htoken)).mpr ⟨hretrieves, hscore⟩⟩)
    obtain ⟨-, doc, hget, -⟩ := scoreFnOr_eq_some_iff.mp hscore
    exact List.mem_map_of_mem
      (List.mem_filter.mpr ⟨x.scoreOrder.mem_run.mpr hhit, by rw [hget]; rfl⟩)

open Classical in
/-- **The score of a returned document** is its whole score, once for each token that retrieves
it. -/
theorem score_of_mem_scoreQueryOrFallback (hlen : docs.length ≤ u32Max)
    (hfew : ∀ token ∈ x.queryTokens request,
      (x.tokenMatches (.ofDocs docs del) request filter token).length < 200)
    {hit : LocalDocId × ℝ}
    (hhit : hit ∈ x.scoreQueryOrFallback (.ofDocs docs del)
      (.compute x.schema x.analysis (.ofDocs docs del)) request filter) {score : ℝ}
    (hscore : x.scoreFnOr (.ofDocs docs del)
      (.compute x.schema x.analysis (.ofDocs docs del)) request filter hit.1 = some score) :
    hit.2 = ((x.queryTokens request).filter (fun token => x.Retrieves (.ofDocs docs del)
      (.compute x.schema x.analysis (.ofDocs docs del)) request token hit.1)).length * score := by
  have hmem := x.scoreOrder.mem_run.mp (List.mem_of_mem_filter hhit)
  have hdistinct : Tally.Distinct (x.scoreMap (.ofDocs docs del)
      (.compute x.schema x.analysis (.ofDocs docs del)) request filter) := nodup_scoreMap
  rw [← Tally.get_eq_of_mem 0 hdistinct hmem, scoreMap, addScore_eq, Tally.get_foldl_upsert_add,
    Tally.sumOf_flatMap]
  have hsum := congrArg List.sum (List.map_congr_left (fun token htoken =>
    sumOf_tokenResults hlen (hfew token htoken) hscore))
  rw [hsum, List.sum_map_ite]
  simp [Tally.get]

/-! ## 4. When the scores add up -/

/-- Two tokens that retrieve a document count all contributions twice. -/
theorem not_addsUp_of_two (hlen : docs.length ≤ u32Max)
    (hfew : ∀ token ∈ x.queryTokens request,
      (x.tokenMatches (.ofDocs docs del) request filter token).length < 200)
    {i : LocalDocId} {doc : Document}
    (hget : (SegmentReader.ofDocs docs del).getDoc i = some doc) (hpass : passes filter i = true)
    (hpos : 0 < ((x.queryTokens request).map (x.contribution (.ofDocs docs del)
      (.compute x.schema x.analysis (.ofDocs docs del)) doc)).sum)
    {token token' : String} (htoken : token ∈ x.queryTokens request)
    (htoken' : token' ∈ x.queryTokens request) (hne : token ≠ token')
    (hretrieves : x.Retrieves (.ofDocs docs del)
      (.compute x.schema x.analysis (.ofDocs docs del)) request token i)
    (hretrieves' : x.Retrieves (.ofDocs docs del)
      (.compute x.schema x.analysis (.ofDocs docs del)) request token' i) :
    ¬ x.AddsUp (.ofDocs docs del) (.compute x.schema x.analysis (.ofDocs docs del)) request
      filter := by
  classical
  intro hadds
  rw [← totalScore_or_eq] at hpos
  have hscore := scoreFnOr_eq_some_iff.mpr ⟨hpass, doc, hget, hpos, rfl⟩
  obtain ⟨hit, hhit, rfl⟩ := List.mem_map.mp ((mem_map_fst_scoreQueryOrFallback hlen hfew).mpr
    ⟨⟨_, hscore⟩, token, htoken, hretrieves⟩)
  have heq := hadds hit hhit doc hget
  rw [sum_contribution_matching hget, score_of_mem_scoreQueryOrFallback hlen hfew hhit hscore]
    at heq
  have hone := Nat.cast_eq_one.mp (mul_eq_right₀ hpos.ne' |>.mp heq)
  obtain ⟨only, honly⟩ := List.length_eq_one_iff.mp hone
  have hin : ∀ t ∈ x.queryTokens request, x.Retrieves (.ofDocs docs del)
      (.compute x.schema x.analysis (.ofDocs docs del)) request t hit.1 → t = only := by
    intro t ht h
    exact List.mem_singleton.mp (honly ▸ List.mem_filter.mpr ⟨ht, decide_eq_true h⟩)
  exact hne ((hin token htoken hretrieves).trans (hin token' htoken' hretrieves').symm)

end

/-- **The scores of the OR fallback are sums of contributions exactly if** no document that is
scored is retrieved by two tokens. -/
theorem addsUp_iff (x : TextExecutor) (docs : List Document) (del : Bitmap)
    (request : SearchRequest) (filter : Option Bitmap) (hlen : docs.length ≤ u32Max)
    (hdistinct : (x.queryTokens request).Nodup)
    (hfew : ∀ token ∈ x.queryTokens request,
      (x.tokenMatches (.ofDocs docs del) request filter token).length < 200) :
    x.AddsUp (.ofDocs docs del) (.compute x.schema x.analysis (.ofDocs docs del)) request
        filter ↔
      ∀ i doc, (SegmentReader.ofDocs docs del).getDoc i = some doc → passes filter i = true →
        0 < ((x.queryTokens request).map (x.contribution (.ofDocs docs del)
          (.compute x.schema x.analysis (.ofDocs docs del)) doc)).sum →
        ∀ token ∈ x.queryTokens request, ∀ token' ∈ x.queryTokens request,
          x.Retrieves (.ofDocs docs del)
            (.compute x.schema x.analysis (.ofDocs docs del)) request token i →
          x.Retrieves (.ofDocs docs del)
            (.compute x.schema x.analysis (.ofDocs docs del)) request token' i →
          token = token' := by
  classical
  constructor
  · intro hadds i doc hget hpass hpos token htoken token' htoken' hretrieves hretrieves'
    by_contra hne
    exact not_addsUp_of_two hlen hfew hget hpass hpos htoken htoken' hne hretrieves hretrieves'
      hadds
  · intro hone hit hhit doc hget
    obtain ⟨⟨score, hscore⟩, token, htoken, hretrieves⟩ :=
      (mem_map_fst_scoreQueryOrFallback hlen hfew).mp (List.mem_map_of_mem hhit)
    obtain ⟨hpass, doc', hget', hpos, rfl⟩ := scoreFnOr_eq_some_iff.mp hscore
    obtain rfl : doc = doc' := Option.some.inj (hget.symm.trans hget')
    rw [sum_contribution_matching hget, score_of_mem_scoreQueryOrFallback hlen hfew hhit hscore]
    rw [totalScore_or_eq] at hpos
    -- the token is the only one
    have honly : (x.queryTokens request).filter (fun t => x.Retrieves (.ofDocs docs del)
        (.compute x.schema x.analysis (.ofDocs docs del)) request t hit.1)
        = (x.queryTokens request).filter (· == token) := by
      refine List.filter_congr (fun t ht => ?_)
      rw [Bool.eq_iff_iff, decide_eq_true_iff, beq_iff_eq]
      constructor
      · intro h
        exact hone hit.1 doc hget hpass hpos t ht token htoken h hretrieves
      · rintro rfl
        exact hretrieves
    rw [honly, ← List.count_eq_length_filter, List.count_eq_one_of_mem hdistinct htoken,
      Nat.cast_one, one_mul]

/-- **The title "1 2" scores twice what it should for the query "1 2 9"**: the tokens "1" and "2"
retrieve it, and no document has a "9". -/
theorem not_addsUp_one_two :
    (plain.queryTokens { query := "1 2 9" }).Nodup ∧
    (plain.queryTokens { query := "1 2 9" }).length > 1 ∧
    plain.scoreQueryWand (.ofDocs [titled 1 "1 2"] ∅)
      (.compute plain.schema plain.analysis (.ofDocs [titled 1 "1 2"] ∅))
      { query := "1 2 9" } none = [] ∧
    (∀ token ∈ plain.queryTokens { query := "1 2 9" },
      (plain.tokenMatches (.ofDocs [titled 1 "1 2"] ∅) { query := "1 2 9" } none token).length
        < 200) ∧
    ¬ plain.AddsUp (.ofDocs [titled 1 "1 2"] ∅)
      (.compute plain.schema plain.analysis (.ofDocs [titled 1 "1 2"] ∅))
      { query := "1 2 9" } none := by
  have hfew : ∀ token ∈ plain.queryTokens { query := "1 2 9" },
      (plain.tokenMatches (.ofDocs [titled 1 "1 2"] ∅) { query := "1 2 9" } none token).length
        < 200 := by
    intro token _
    refine (List.length_filter_le _ _).trans_lt ?_
    decide
  have hretrieves : ∀ token ∈ ["1", "2"], plain.Retrieves (.ofDocs [titled 1 "1 2"] ∅)
      (.compute plain.schema plain.analysis (.ofDocs [titled 1 "1 2"] ∅)) { query := "1 2 9" }
      token 0 := by
    intro token htoken
    refine ⟨by revert token; decide, by revert token; decide, ?_⟩
    refine lt_of_lt_of_le ?_ (descBoost_mul_le_blockWeight positiveBoosts_defaultProductSchema
      token 0)
    have hk := bm25K1_pos (R := ℝ)
    exact mul_pos (descBoost_pos positiveBoosts_defaultProductSchema) (by linarith)
  have hget : (SegmentReader.ofDocs [titled 1 "1 2"] ∅).getDoc 0 = some (titled 1 "1 2") := rfl
  refine ⟨by decide, by decide, scoreQueryWand_eq_nil within_plainAnalysis (by decide) (by decide),
    hfew, not_addsUp_of_two (by decide) hfew hget rfl ?_ (by decide) (by decide) (by decide)
      (hretrieves "1" (by decide)) (hretrieves "2" (by decide))⟩
  rw [← totalScore_or_eq]
  exact (totalScore_or_pos_iff positiveBoosts_defaultProductSchema rfl (by decide) _).mpr
    (by decide)

/-- One title for each token. -/
def titlesOneTwo : List Document := [titled 1 "1", titled 2 "2"]

theorem addsUp_iff_titlesOneTwo :
    plain.AddsUp (.ofDocs titlesOneTwo ∅)
        (.compute plain.schema plain.analysis (.ofDocs titlesOneTwo ∅)) { query := "1 2" } none ↔
      ∀ i doc, (SegmentReader.ofDocs titlesOneTwo ∅).getDoc i = some doc →
        passes none i = true →
        0 < ((plain.queryTokens { query := "1 2" }).map (plain.contribution
          (.ofDocs titlesOneTwo ∅)
          (.compute plain.schema plain.analysis (.ofDocs titlesOneTwo ∅)) doc)).sum →
        ∀ token ∈ plain.queryTokens { query := "1 2" },
        ∀ token' ∈ plain.queryTokens { query := "1 2" },
          plain.Retrieves (.ofDocs titlesOneTwo ∅)
            (.compute plain.schema plain.analysis (.ofDocs titlesOneTwo ∅)) { query := "1 2" }
            token i →
          plain.Retrieves (.ofDocs titlesOneTwo ∅)
            (.compute plain.schema plain.analysis (.ofDocs titlesOneTwo ∅)) { query := "1 2" }
            token' i →
          token = token' :=
  addsUp_iff plain titlesOneTwo ∅ { query := "1 2" } none (by decide) (by decide)
    (fun token _ => (List.length_filter_le _ _).trans_lt (by decide))

end ZearchEngine.TextExecutor
