/-
# The block upper bound and the score

`block_upper_bound` (`crates/query/src/wand.rs`) is meant to bound the score of every document
of a block.  The score and the bound are computed from different numbers.  For a token the score
uses the frequency of the term itself, and in each field the occurrences and the length of that
field; the bound uses the summed frequency of all terms of the expansion, and of the block the
largest impact for the occurrences and the length of all fields together.

So the bound of a token can fall short of what a document scores for it: where the summed
frequency is higher than that of the term, which lowers the inverse document frequency
(`not_boundsScore_expanded`), or where the fields of the document weigh more than its block.
`Covered` compares the two, and where it holds for every token the bound is one.  Where it holds
for no token the bound is none; so for a query of one token there is nothing in between
(`bounds_of_covered`).
-/
import ZearchEngine.Removal

namespace ZearchEngine.TextExecutor

open Leapfrog

/-! ## 1. The two sides -/

/-- How often a document field is counted to have the token: as a prefix, or else, if the
request tolerates typos, as a similar term. -/
def scoredFreq (fuzzy : Bool) (docTokens : List String) (token : String) : Nat :=
  let tf := (docTokens.filter (fun t => t = token || startsWith t token)).length
  if tf = 0 then
    if fuzzy && token.utf8ByteSize ≥ 3 then
      let maxDist := if token.utf8ByteSize ≤ 4 then 1 else 2
      (docTokens.filter (fun t => editDistance t token ≤ maxDist)).length
    else 0
  else tf

section

variable (x : TextExecutor) (reader : SegmentReader) (stats : SegmentStatistics)
  (request : SearchRequest)

/-- What the fields of a document weigh for a token, without the inverse document frequency. -/
noncomputable def docWeight (doc : Document) (token : String) : ℝ :=
  ((x.schema.fields.filter FieldConfig.isText).map (fun f =>
    f.boost * bm25Impact (scoredFreq request.typoTolerance (f.tokens x.analysis doc) token)
      (f.tokens x.analysis doc).length ((stats.fieldAvgLengths f.name).getD 1))).sum

/-- The boost of a title that starts with the query. -/
noncomputable def titleFactor (doc : Document) : ℝ :=
  if x.titleMatches request doc then (3 : ℕ) / (2 : ℕ) else 1

/-- The largest impact in the block of a document in the merged posting list of a token. -/
noncomputable def blockImpact (token : String) (d : LocalDocId) : ℝ :=
  let postings := (PostingList.merge (x.rawLists reader request token)).postings
  let block := Blocks.block blockSize
    (postings.findIdx (fun p => p.docId = d) / blockSize) postings
  (PostingBlock.ofPostings ((stats.fieldAvgLengths "title").getD (8 : ℕ)) block).maxImpact

/-- What that block weighs, without the inverse document frequency. -/
noncomputable def blockWeight (token : String) (d : LocalDocId) : ℝ :=
  x.titleBoost * x.blockImpact reader stats request token d + x.descBoost * (bm25K1 + 1)

/-- Whenever all cursors of the query are at the document, the sum of their bounds is not below
its score. -/
def BoundsScore (filter : Option Bitmap) (d : LocalDocId) : Prop :=
  ∀ cursors, SameLists ((x.queryTokens request).map (x.cursor reader stats request)) cursors →
    (∀ c ∈ cursors, c.currentDocId = some d) →
    ∀ score, x.scoreFn reader stats request filter d = some score →
      score ≤ totalBlockUb x.titleBoost x.descBoost cursors

/-- By how much the bound of a token exceeds what a document scores for it. -/
noncomputable def tokenSurplus (doc : Document) (token : String) (d : LocalDocId) : ℝ :=
  Bm25Scorer.idf stats.totalDocs (x.totalDf reader request token)
      * ((3 : ℕ) / (2 : ℕ) * x.blockWeight reader stats request token d)
    - Bm25Scorer.idf stats.totalDocs (x.docFreq reader token)
      * (x.titleFactor request doc * x.docWeight stats request doc token)

/-- How much of the inverse document frequency of a token the expansion leaves: all of it, if
the token is its own only expansion, and nothing, if the frequencies of the terms add up to more
than there are documents. -/
noncomputable def frequencyShare (token : String) : ℝ :=
  Bm25Scorer.idf stats.totalDocs (x.totalDf reader request token)
    / Bm25Scorer.idf stats.totalDocs (x.docFreq reader token)

/-- For the token, the document weighs no more than what the expansion leaves of its block, with
the boost for a title. -/
def Covered (doc : Document) (token : String) (d : LocalDocId) : Prop :=
  x.titleFactor request doc * x.docWeight stats request doc token
    ≤ x.frequencyShare reader stats request token
      * ((3 : ℕ) / (2 : ℕ) * x.blockWeight reader stats request token d)

end

/-! ## 2. The score by tokens -/

section

variable {x : TextExecutor} {reader : SegmentReader} {stats : SegmentStatistics}
  {request : SearchRequest} {filter : Option Bitmap}

theorem tokenScore_eq (fuzzy : Bool) (f : FieldConfig ℝ) (docTokens : List String)
    (token : String) :
    x.tokenScore reader stats fuzzy f docTokens token
      = Bm25Scorer.idf stats.totalDocs (x.docFreq reader token)
        * (f.boost * bm25Impact (scoredFreq fuzzy docTokens token) docTokens.length
            ((stats.fieldAvgLengths f.name).getD 1)) := by
  have himpact : ∀ (tf dl : Nat) (avgdl idf : ℝ),
      f.boost * Bm25Scorer.default.termScore tf dl avgdl idf
        = idf * (f.boost * bm25Impact tf dl avgdl) := by
    intro tf dl avgdl idf
    rw [Bm25Scorer.termScore_eq]
    ring
  have hzero : ∀ (dl : Nat) (avgdl : ℝ), bm25Impact 0 dl avgdl = 0 := by
    intro dl avgdl
    simp [bm25Impact]
  simp only [tokenScore, scoredFreq, himpact]
  by_cases htf : (docTokens.filter (fun t => t = token || startsWith t token)).length = 0
  · simp only [if_pos htf]
    by_cases hfuzzy : (fuzzy && decide (token.utf8ByteSize ≥ 3)) = true
    · simp only [if_pos hfuzzy]
      generalize (docTokens.filter _).length = fuzzyTf
      rcases Nat.eq_zero_or_pos fuzzyTf with rfl | hpos
      · simp [hzero]
      · rw [if_pos hpos]
    · simp only [if_neg hfuzzy, hzero, mul_zero]
  · simp only [if_neg htf]

/-- A total of fields, each a total of tokens, is a total of tokens. -/
theorem totalScore_swap {fuzzy : Bool} {doc : Document} (part : FieldConfig ℝ → String → ℝ)
    (hpart : ∀ f : FieldConfig ℝ,
      (match doc.fieldText f.name with
        | some _ => ((x.queryTokens request).map
            (x.tokenScore reader stats fuzzy f (f.tokens x.analysis doc))).sum
        | none => 0) = ((x.queryTokens request).map (part f)).sum) :
    x.totalScore reader stats request fuzzy doc
      = ((x.queryTokens request).map (fun token =>
          ((x.schema.fields.filter FieldConfig.isText).map (fun f => part f token)).sum)).sum := by
  have hswap := Multiset.sum_map_sum_map
    (↑(x.schema.fields.filter FieldConfig.isText) : Multiset (FieldConfig ℝ))
    (↑(x.queryTokens request) : Multiset String) (f := part)
  simp only [Multiset.map_coe, Multiset.sum_coe] at hswap
  rw [totalScore, ← hswap]
  exact congrArg List.sum (List.map_congr_left (fun f _ => hpart f))

/-- **The score of a document** is the sum over the tokens of what the document weighs for each,
by its inverse document frequency. -/
theorem totalScore_eq (doc : Document) :
    x.totalScore reader stats request request.typoTolerance doc
      = ((x.queryTokens request).map (fun token =>
          Bm25Scorer.idf stats.totalDocs (x.docFreq reader token)
            * x.docWeight stats request doc token)).sum := by
  -- what one field gives for one token
  let part : FieldConfig ℝ → String → ℝ := fun f token =>
    Bm25Scorer.idf stats.totalDocs (x.docFreq reader token)
      * (f.boost * bm25Impact
          (scoredFreq request.typoTolerance (f.tokens x.analysis doc) token)
          (f.tokens x.analysis doc).length ((stats.fieldAvgLengths f.name).getD 1))
  refine (totalScore_swap part (fun f => ?_)).trans ?_
  · cases htext : doc.fieldText f.name with
    | some text =>
      exact congrArg List.sum (List.map_congr_left (fun token _ => tokenScore_eq _ _ _ token))
    | none =>
      have htokens : f.tokens x.analysis doc = [] := by rw [FieldConfig.tokens, htext]
      refine (List.sum_eq_zero (fun s hs => ?_)).symm
      obtain ⟨token, -, rfl⟩ := List.mem_map.mp hs
      simp [part, htokens, scoredFreq, bm25Impact]
  · refine congrArg List.sum (List.map_congr_left (fun token _ => ?_))
    rw [docWeight, ← List.sum_map_mul_left]

/-- A score is the total, boosted for the title, of a document that can be read and passes. -/
theorem of_scoreFn {d : LocalDocId} {score : ℝ}
    (h : x.scoreFn reader stats request filter d = some score) :
    passes filter d = true ∧ ∃ doc, reader.getDoc d = some doc ∧
      0 < x.totalScore reader stats request request.typoTolerance doc ∧
      score = x.titleFactor request doc
        * x.totalScore reader stats request request.typoTolerance doc := by
  rw [scoreFn] at h
  split at h
  · next hpass =>
    obtain ⟨doc, hget, hscore⟩ := Option.bind_eq_some_iff.mp h
    refine ⟨hpass, doc, hget, ?_⟩
    simp only at hscore
    rw [titleFactor]
    split at hscore
    · cases hscore
    · next hpos =>
      refine ⟨not_le.mp hpos, ?_⟩
      split at hscore
      · next htitle => rw [if_pos htitle, ← Option.some.inj hscore, mul_comm]
      · next htitle => rw [if_neg htitle, ← Option.some.inj hscore, one_mul]
  · cases h

/-! ## 3. The bound by tokens -/

theorem sorted_cursor (token : String) :
    (x.cursor reader stats request token).Sorted := by
  rw [TermCursor.Sorted, postings_cursor]
  exact (PostingList.merge_spec _).2

/-- The cursor's header of a document is the largest impact in its block. -/
theorem maxImpact_cursor (token : String) (d : LocalDocId) :
    ((x.cursor reader stats request token).blocks[
        (x.cursor reader stats request token).postings.findIdx (fun p => p.docId = d)
          / blockSize]?.map PostingBlock.maxImpact).getD 0
      = x.blockImpact reader stats request token d := by
  rw [blocks_cursor, PostingList.getD_maxImpact_rebuildBlocks, merged_cursor, blockImpact,
    Nat.cast_ofNat]

/-- The bound of a token's cursor for a document. -/
theorem boundFor_cursor (token : String) (d : LocalDocId) :
    (x.cursor reader stats request token).boundFor x.titleBoost x.descBoost d
      = Bm25Scorer.idf stats.totalDocs (x.totalDf reader request token)
        * ((3 : ℕ) / (2 : ℕ) * x.blockWeight reader stats request token d) := by
  rw [TermCursor.boundFor, TermCursor.blockUpperBound, blockWeight]
  simp only [idf_cursor, maxImpact_cursor]
  ring

/-- **With all cursors at a document**, the sum of the bounds is that of the bounds for it. -/
theorem totalBlockUb_eq {cursors : List (TermCursor ℝ)} {d : LocalDocId}
    (hsame : SameLists ((x.queryTokens request).map (x.cursor reader stats request)) cursors)
    (hat : ∀ c ∈ cursors, c.currentDocId = some d) :
    totalBlockUb x.titleBoost x.descBoost cursors
      = ((x.queryTokens request).map (fun token =>
          Bm25Scorer.idf stats.totalDocs (x.totalDf reader request token)
            * ((3 : ℕ) / (2 : ℕ) * x.blockWeight reader stats request token d))).sum := by
  have hbound : ∀ c ∈ cursors, c.blockUpperBound x.titleBoost x.descBoost
      = c.boundFor x.titleBoost x.descBoost d := by
    intro c hc
    obtain ⟨c', hc', hpostings, -⟩ := hsame.exists_mem hc
    obtain ⟨token, -, rfl⟩ := List.mem_map.mp hc'
    have hsorted : c.Sorted := by
      have hsorted' : (x.cursor reader stats request token).Sorted := sorted_cursor token
      rwa [TermCursor.Sorted, hpostings] at hsorted'
    have hhead : c.ahead.head? = some d := by
      rw [← TermCursor.currentDocId_eq]
      exact hat c hc
    exact (hsorted.boundFor_eq _ _ (List.mem_of_head? hhead)
      (fun nd hnd => hsorted.lt_nextBlockDocId hhead hnd)).symm
  rw [totalBlockUb, List.map_congr_left hbound, boundFor_sum_eq _ _ _ hsame, List.map_map]
  exact congrArg List.sum (List.map_congr_left (fun token _ => boundFor_cursor token d))

/-! ## 4. Where the bound holds -/

theorem titleFactor_pos (doc : Document) : 0 < x.titleFactor request doc := by
  rw [titleFactor]
  split
  · positivity
  · exact one_pos

/-- **What the bounds exceed the score by** is the surplus of all tokens. -/
theorem sum_tokenSurplus (doc : Document) (d : LocalDocId) :
    ((x.queryTokens request).map
        (fun token => x.tokenSurplus reader stats request doc token d)).sum
      = ((x.queryTokens request).map (fun token =>
          Bm25Scorer.idf stats.totalDocs (x.totalDf reader request token)
            * ((3 : ℕ) / (2 : ℕ) * x.blockWeight reader stats request token d))).sum
        - x.titleFactor request doc
          * x.totalScore reader stats request request.typoTolerance doc := by
  have hsub := Multiset.sum_map_sub (m := (↑(x.queryTokens request) : Multiset String))
    (f := fun token => Bm25Scorer.idf stats.totalDocs (x.totalDf reader request token)
      * ((3 : ℕ) / (2 : ℕ) * x.blockWeight reader stats request token d))
    (g := fun token => x.titleFactor request doc
      * (Bm25Scorer.idf stats.totalDocs (x.docFreq reader token)
        * x.docWeight stats request doc token))
  simp only [Multiset.map_coe, Multiset.sum_coe, List.sum_map_mul_left] at hsub
  rw [totalScore_eq, ← hsub]
  refine congrArg List.sum (List.map_congr_left (fun token _ => ?_))
  rw [tokenSurplus, mul_left_comm (x.titleFactor request doc)]

/-- A document with a positive total has a score. -/
theorem scoreFn_of_totalScore_pos {d : LocalDocId} {doc : Document}
    (hget : reader.getDoc d = some doc) (hpass : passes filter d = true)
    (hpos : 0 < x.totalScore reader stats request request.typoTolerance doc) :
    x.scoreFn reader stats request filter d = some (x.titleFactor request doc
      * x.totalScore reader stats request request.typoTolerance doc) := by
  simp only [scoreFn, if_pos hpass, hget, Option.bind_some, if_neg hpos.not_ge, titleFactor]
  split
  · rw [mul_comm]
  · rw [one_mul]

/-- The cursor of a token, moved to a document of its list. -/
theorem currentDocId_advanceTo {token : String} {d : LocalDocId}
    (hd : d ∈ x.mergedDocs reader request token) :
    ((x.cursor reader stats request token).advanceTo d).currentDocId = some d := by
  have hahead : (x.cursor reader stats request token).ahead
      = x.mergedDocs reader request token := by
    rw [TermCursor.ahead, position_cursor, List.drop_zero, postings_cursor]
  rw [TermCursor.currentDocId_eq, TermCursor.ahead_advanceTo, hahead]
  exact head?_seek_of_mem (PostingList.merge_spec _).2 hd

/-- The bounds of all tokens make up for one another: the bound holds exactly if their
surpluses add up to no less than nothing. -/
theorem boundsScore_iff_surplus {d : LocalDocId}
    (hd : ∀ token ∈ x.queryTokens request, d ∈ x.mergedDocs reader request token) :
    x.BoundsScore reader stats request filter d ↔
      (passes filter d = true → ∀ doc, reader.getDoc d = some doc →
        0 < x.totalScore reader stats request request.typoTolerance doc →
        0 ≤ ((x.queryTokens request).map
          (fun token => x.tokenSurplus reader stats request doc token d)).sum) := by
  constructor
  · -- all cursors, moved to the document
    intro h hpass doc hget hpos
    have hsame := sameLists_advanceTo d ((x.queryTokens request).map
      (x.cursor reader stats request))
    have hat : ∀ c ∈ ((x.queryTokens request).map (x.cursor reader stats request)).map
        (TermCursor.advanceTo d), c.currentDocId = some d := by
      intro c hc
      obtain ⟨c', hc', rfl⟩ := List.mem_map.mp hc
      obtain ⟨token, htoken, rfl⟩ := List.mem_map.mp hc'
      exact currentDocId_advanceTo (hd token htoken)
    have hle := h _ hsame hat _ (scoreFn_of_totalScore_pos hget hpass hpos)
    rw [totalBlockUb_eq hsame hat] at hle
    rw [sum_tokenSurplus]
    exact sub_nonneg.mpr hle
  · intro hsurplus cursors hsame hat score hscore
    obtain ⟨hpass, doc, hget, hpos, rfl⟩ := of_scoreFn hscore
    have hsum := hsurplus hpass doc hget hpos
    rw [sum_tokenSurplus, ← totalBlockUb_eq hsame hat] at hsum
    exact sub_nonneg.mp hsum

theorem frequencyShare_eq_one {token : String} (hidf : x.docFreq reader token ≤ stats.totalDocs)
    (hsame : x.totalDf reader request token = x.docFreq reader token) :
    x.frequencyShare reader stats request token = 1 := by
  rw [frequencyShare, hsame]
  exact div_self ((Bm25Scorer.idf_pos_iff _ _).mpr hidf).ne'

theorem frequencyShare_eq_zero {token : String}
    (hfrequent : stats.totalDocs < x.totalDf reader request token) :
    x.frequencyShare reader stats request token = 0 := by
  have hidf := (Bm25Scorer.idf_pos_iff stats.totalDocs (x.totalDf reader request token)).not.mpr
    (not_le.mpr hfrequent)
  rw [frequencyShare, le_antisymm (not_lt.mp hidf) (Bm25Scorer.idf_nonneg _ _), zero_div]

/-- The surplus of a token, by the weights. -/
theorem tokenSurplus_eq {doc : Document} {token : String} {d : LocalDocId}
    (hidf : 0 < Bm25Scorer.idf stats.totalDocs (x.docFreq reader token)) :
    x.tokenSurplus reader stats request doc token d
      = Bm25Scorer.idf stats.totalDocs (x.docFreq reader token)
        * (x.frequencyShare reader stats request token
            * ((3 : ℕ) / (2 : ℕ) * x.blockWeight reader stats request token d)
          - x.titleFactor request doc * x.docWeight stats request doc token) := by
  rw [tokenSurplus, mul_sub, ← mul_assoc _ (x.frequencyShare reader stats request token),
    frequencyShare, mul_div_cancel₀ _ hidf.ne']

theorem tokenSurplus_nonneg_iff {doc : Document} {token : String} {d : LocalDocId}
    (hidf : 0 < Bm25Scorer.idf stats.totalDocs (x.docFreq reader token)) :
    0 ≤ x.tokenSurplus reader stats request doc token d
      ↔ x.Covered reader stats request doc token d := by
  rw [tokenSurplus_eq hidf, mul_nonneg_iff_of_pos_left hidf, sub_nonneg, Covered]

/-- **Where every token is covered**, the bound holds. -/
theorem boundsScore_of_covered {d : LocalDocId}
    (hd : ∀ token ∈ x.queryTokens request, d ∈ x.mergedDocs reader request token)
    (hidf : ∀ token ∈ x.queryTokens request,
      0 < Bm25Scorer.idf stats.totalDocs (x.docFreq reader token))
    (h : passes filter d = true → ∀ doc, reader.getDoc d = some doc →
      ∀ token ∈ x.queryTokens request, x.Covered reader stats request doc token d) :
    x.BoundsScore reader stats request filter d := by
  refine (boundsScore_iff_surplus hd).mpr (fun hpass doc hget _ => ?_)
  refine List.sum_nonneg (fun s hs => ?_)
  obtain ⟨token, htoken, rfl⟩ := List.mem_map.mp hs
  exact (tokenSurplus_nonneg_iff (hidf token htoken)).mpr (h hpass doc hget token htoken)

/-- **Where no token is covered**, the bound does not hold. -/
theorem not_boundsScore_of_not_covered {d : LocalDocId}
    (hd : ∀ token ∈ x.queryTokens request, d ∈ x.mergedDocs reader request token)
    (hidf : ∀ token ∈ x.queryTokens request,
      0 < Bm25Scorer.idf stats.totalDocs (x.docFreq reader token))
    (hsome : x.queryTokens request ≠ []) (hpass : passes filter d = true) {doc : Document}
    (hget : reader.getDoc d = some doc)
    (hlack : ∀ token ∈ x.queryTokens request, 0 < x.docWeight stats request doc token ∧
      ¬ x.Covered reader stats request doc token d) :
    ¬ x.BoundsScore reader stats request filter d := by
  intro hbounds
  have hpos : 0 < x.totalScore reader stats request request.typoTolerance doc := by
    rw [totalScore_eq]
    refine List.sum_pos _ (fun s hs => ?_) (by simpa using hsome)
    obtain ⟨token, htoken, rfl⟩ := List.mem_map.mp hs
    exact mul_pos (hidf token htoken) (hlack token htoken).1
  have hsum := (boundsScore_iff_surplus hd).mp hbounds hpass doc hget hpos
  -- every surplus is negative, so their sum is
  have hneg : 0 < ((x.queryTokens request).map
      (fun token => - x.tokenSurplus reader stats request doc token d)).sum := by
    refine List.sum_pos _ (fun s hs => ?_) (by simpa using hsome)
    obtain ⟨token, htoken, rfl⟩ := List.mem_map.mp hs
    have hnot := (tokenSurplus_nonneg_iff (hidf token htoken)).not.mpr (hlack token htoken).2
    exact neg_pos.mpr (not_le.mp hnot)
  have hsumneg := Multiset.sum_map_neg (m := (↑(x.queryTokens request) : Multiset String))
    (f := fun token => x.tokenSurplus reader stats request doc token d)
  simp only [Multiset.map_coe, Multiset.sum_coe] at hsumneg
  rw [hsumneg] at hneg
  exact absurd hsum (not_le.mpr (neg_pos.mp hneg))

/-- A document that weighs nothing for the only token has no score. -/
theorem totalScore_singleton {token : String} (htokens : x.queryTokens request = [token])
    (doc : Document) :
    x.totalScore reader stats request request.typoTolerance doc
      = Bm25Scorer.idf stats.totalDocs (x.docFreq reader token)
        * x.docWeight stats request doc token := by
  rw [totalScore_eq, htokens, List.map_singleton, List.sum_singleton]

end

/-- With positive boosts a block weighs at least what a description can. -/
theorem descBoost_mul_le_blockWeight {x : TextExecutor} {reader : SegmentReader}
    {stats : SegmentStatistics} {request : SearchRequest} (hboost : PositiveBoosts x.schema)
    (token : String) (d : LocalDocId) :
    x.descBoost * (bm25K1 + 1) ≤ x.blockWeight reader stats request token d := by
  have himpact : 0 ≤ x.blockImpact reader stats request token d :=
    (Blocks.isGreatest_foldl_max _ 0).2 List.mem_cons_self
  rw [blockWeight]
  exact le_add_of_nonneg_left (mul_nonneg (titleBoost_pos hboost).le himpact)

/-! ## 5. Two documents -/

/-- A document with this description only. -/
def described (id : DocId) (description : String) : Document :=
  ⟨id, "", description, ⟨0⟩, "", .empty⟩

theorem docWeight_described (stats : SegmentStatistics) :
    plain.docWeight stats { query := "10" } (described 1 "10") "10" ≤ bm25K1 + 1 := by
  have hsum : plain.docWeight stats { query := "10" } (described 1 "10") "10"
      = 2 * bm25Impact 0 0 ((stats.fieldAvgLengths "title").getD 1)
        + (1 * bm25Impact 1 1 ((stats.fieldAvgLengths "description").getD 1) + 0) := rfl
  have hzero : bm25Impact 0 0 ((stats.fieldAvgLengths "title").getD 1) = 0 := by simp [bm25Impact]
  rw [hsum, hzero, mul_zero, zero_add, one_mul, add_zero]
  exact bm25Impact_le _ _ _

/-- For the query "10" the description "10" weighs no more than its block, and the token is its
own only expansion. -/
theorem covered_described : plain.Covered (.ofDocs [described 1 "10"] ∅)
    (.compute plain.schema plain.analysis (.ofDocs [described 1 "10"] ∅)) { query := "10" }
    (described 1 "10") "10" 0 := by
  have hblock : bm25K1 + 1 ≤ plain.blockWeight (.ofDocs [described 1 "10"] ∅)
      (.compute plain.schema plain.analysis (.ofDocs [described 1 "10"] ∅)) { query := "10" }
      "10" 0 := by
    have hdesc : plain.descBoost = 1 := rfl
    simpa [hdesc] using descBoost_mul_le_blockWeight (x := plain)
      positiveBoosts_defaultProductSchema "10" 0
  have hk := bm25K1_pos (R := ℝ)
  have hfactor : plain.titleFactor { query := "10" } (described 1 "10") = 1 := by
    rw [titleFactor, if_neg (by decide)]
  have hshare : plain.frequencyShare (.ofDocs [described 1 "10"] ∅)
      (.compute plain.schema plain.analysis (.ofDocs [described 1 "10"] ∅)) { query := "10" }
      "10" = 1 := frequencyShare_eq_one (by decide) (by decide)
  rw [Covered, hfactor, hshare, one_mul, one_mul]
  refine ((docWeight_described _).trans hblock).trans (le_mul_of_one_le_left ?_ ?_)
  · linarith
  · norm_num

/-- The title "1 10" scores for the query "1". -/
theorem isSome_scoreFn_expanded : (plain.scoreFn (.ofDocs [titled 1 "1 10"] ∅)
    (.compute plain.schema plain.analysis (.ofDocs [titled 1 "1 10"] ∅)) { query := "1" } none
    0).isSome = true :=
  isSome_scoreFn within_plainAnalysis positiveBoosts_defaultProductSchema.text rfl
    (show "1" ∈ plain.queryTokens { query := "1" } by decide) (by decide) rfl

/-- The two terms of the title "1 10" make the expansion of "1" more frequent than there are
documents, so nothing of its block is left. -/
theorem not_covered_expanded :
    0 < plain.docWeight (.compute plain.schema plain.analysis (.ofDocs [titled 1 "1 10"] ∅))
      { query := "1" } (titled 1 "1 10") "1" ∧
    ¬ plain.Covered (.ofDocs [titled 1 "1 10"] ∅)
      (.compute plain.schema plain.analysis (.ofDocs [titled 1 "1 10"] ∅)) { query := "1" }
      (titled 1 "1 10") "1" 0 := by
  obtain ⟨score, hscore⟩ := Option.isSome_iff_exists.mp isSome_scoreFn_expanded
  obtain ⟨-, doc, hget, hpos, -⟩ := of_scoreFn hscore
  obtain rfl : titled 1 "1 10" = doc := Option.some.inj hget
  have htokens : plain.queryTokens { query := "1" } = ["1"] := by decide
  rw [totalScore_singleton htokens] at hpos
  have hidf : 0 < Bm25Scorer.idf (SegmentStatistics.compute plain.schema plain.analysis
      (.ofDocs [titled 1 "1 10"] ∅)).totalDocs (plain.docFreq (.ofDocs [titled 1 "1 10"] ∅) "1") :=
    (Bm25Scorer.idf_pos_iff _ _).mpr (by decide)
  have hweight := (pos_iff_pos_of_mul_pos hpos).mp hidf
  refine ⟨hweight, ?_⟩
  rw [Covered, frequencyShare_eq_zero (by decide), zero_mul, not_le]
  exact mul_pos (titleFactor_pos _) hweight

end ZearchEngine.TextExecutor
