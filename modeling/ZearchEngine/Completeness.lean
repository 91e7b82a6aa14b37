/-
# When retrieval is complete

Block-Max WAND on the cursors of a query.  The bounds of the cursors are positive if the
frequency of some token's expansion is within the number of live documents, and 0 if not
(`totalBlockUb_pos`, `totalBlockUb_nonpos`).  In the first case retrieval finds everything there
is room for, in the second nothing (`scoreQueryWand_complete_iff`).
-/
import ZearchEngine.Retrieval

namespace ZearchEngine.TextExecutor

open Leapfrog

/-! ## 1. The cursors of a query -/

section

variable {x : TextExecutor} {stats : SegmentStatistics} {request : SearchRequest}
  {reader : SegmentReader}

theorem merged_cursor (token : String) : (x.cursor reader stats request token).postings
    = (PostingList.merge (x.rawLists reader request token)).postings := by
  rw [cursor, TermCursor.new]
  dsimp only
  split <;> rfl

@[simp] theorem postings_cursor (token : String) :
    (x.cursor reader stats request token).postings.map Posting.docId
      = x.mergedDocs reader request token := by
  rw [merged_cursor]
  rfl

@[simp] theorem position_cursor (token : String) :
    (x.cursor reader stats request token).position = 0 := rfl

@[simp] theorem idf_cursor (token : String) : (x.cursor reader stats request token).idf
    = Bm25Scorer.idf stats.totalDocs (x.totalDf reader request token) := rfl

/-- The headers of a cursor are those of its postings. -/
theorem blocks_cursor (token : String) :
    (x.cursor reader stats request token).blocks
      = (PostingList.rebuildBlocks ⟨(x.cursor reader stats request token).postings, []⟩
          ((stats.fieldAvgLengths "title").getD 8)).blocks := by
  rw [cursor, TermCursor.new]
  dsimp only
  split <;> rfl

theorem maxImpact_cursor_nonneg {token : String} {b : PostingBlock ℝ}
    (hb : b ∈ (x.cursor reader stats request token).blocks) : 0 ≤ b.maxImpact := by
  rw [blocks_cursor] at hb
  exact PostingList.maxImpact_nonneg hb

/-- There are cursors if every token has an expansion. -/
theorem cursors_eq (x : TextExecutor) (stats : SegmentStatistics) (request : SearchRequest)
    (reader : SegmentReader) : ∀ tokens : List String,
    x.cursors reader stats request tokens
      = if ∀ token ∈ tokens, x.rawLists reader request token ≠ []
        then some (tokens.map (x.cursor reader stats request)) else none
  | [] => rfl
  | token :: tokens => by
    have hrest := cursors_eq x stats request reader tokens
    rw [cursors] at hrest ⊢
    rw [List.mapM_cons, hrest]
    by_cases hne : x.rawLists reader request token = []
    · simp [hne]
    · have hsome : ¬ (x.rawLists reader request token).isEmpty = true := by simpa using hne
      rw [if_neg hsome]
      by_cases hall : ∀ token ∈ tokens, x.rawLists reader request token ≠ []
      · have hcons : ∀ t ∈ token :: tokens, x.rawLists reader request t ≠ [] :=
          List.forall_mem_cons.mpr ⟨hne, hall⟩
        rw [if_pos hall, if_pos hcons]
        rfl
      · have hcons : ¬ ∀ t ∈ token :: tokens, x.rawLists reader request t ≠ [] := fun h =>
          hall (List.forall_mem_cons.mp h).2
        rw [if_neg hall, if_neg hcons]
        rfl

/-- The documents that all cursors share. -/
theorem mem_intersection {tokens : List String} (hne : tokens ≠ []) {i : LocalDocId} :
    i ∈ intersection (tokens.map (x.cursor reader stats request)) ↔
      ∀ token ∈ tokens, i ∈ x.mergedDocs reader request token := by
  rw [intersection, mem_common (by simpa using hne)]
  simp

variable {docs : List Document} {del : Bitmap}

/-- **The cursors of a query are ready.** -/
theorem ready_cursors (hwithin : x.analysis.Within) (hlen : docs.length ≤ u32Max)
    {tokens : List String} (hne : tokens ≠ []) :
    Ready (tokens.map (x.cursor (.ofDocs docs del) stats request)) where
  nonempty := by simpa using hne
  sorted := by
    intro c hc
    obtain ⟨token, -, rfl⟩ := List.mem_map.mp hc
    rw [TermCursor.Sorted, postings_cursor]
    exact (PostingList.merge_spec _).2
  below := by
    intro c hc p hp
    obtain ⟨token, -, rfl⟩ := List.mem_map.mp hc
    have hmem : p.docId ∈ x.mergedDocs (.ofDocs docs del) request token := by
      rw [← postings_cursor]
      exact List.mem_map_of_mem hp
    obtain ⟨term, ⟨-, doc, hdoc, -⟩, -⟩ := exists_term_of_mem_mergedDocs hwithin hmem
    exact (List.getElem?_eq_some_iff.mp hdoc).1.trans_le hlen

theorem mem_boost_of_find {schema : IndexSchema ℝ} (hboost : PositiveBoosts schema) {name : String}
    (hname : name = "title" ∨ name = "description") {dflt : ℝ} (hdflt : 0 < dflt) :
    0 < ((schema.fields.find? (fun f => f.name = name)).map FieldConfig.boost).getD dflt := by
  cases hfind : schema.fields.find? (fun f => f.name = name) with
  | none => exact hdflt
  | some f =>
    have hf : f.name = name := by simpa using List.find?_some hfind
    exact hboost f (List.mem_of_find?_eq_some hfind) (Or.inr (by rwa [hf]))

theorem titleBoost_pos (hboost : PositiveBoosts x.schema) : 0 < x.titleBoost :=
  mem_boost_of_find hboost (Or.inl rfl) two_pos

theorem descBoost_pos (hboost : PositiveBoosts x.schema) : 0 < x.descBoost :=
  mem_boost_of_find hboost (Or.inr rfl) one_pos

/-! ## 2. The bounds -/

/-- The bound of a cursor is its inverse document frequency times something positive. -/
theorem blockUpperBound_eq (hboost : PositiveBoosts x.schema) {c : TermCursor ℝ}
    (hc : ∀ b ∈ c.blocks, 0 ≤ b.maxImpact) :
    ∃ r : ℝ, 0 < r ∧ c.blockUpperBound x.titleBoost x.descBoost = c.idf * r := by
  have hk := bm25K1_pos (R := ℝ)
  have himpact : 0 ≤ (c.blocks[c.position / blockSize]?.map PostingBlock.maxImpact).getD 0 :=
    PostingList.getD_maxImpact_nonneg hc _
  have htitle := mul_nonneg (titleBoost_pos hboost).le himpact
  have hdesc := mul_pos (descBoost_pos hboost) (add_pos hk one_pos)
  refine ⟨3 / 2 * (x.titleBoost *
    (c.blocks[c.position / blockSize]?.map PostingBlock.maxImpact).getD 0
      + x.descBoost * (bm25K1 + 1)), by linarith, ?_⟩
  rw [TermCursor.blockUpperBound]
  ring

theorem exists_cursor {tokens : List String} {cursors' : List (TermCursor ℝ)}
    (hsame : SameLists (tokens.map (x.cursor reader stats request)) cursors')
    {c : TermCursor ℝ} (hc : c ∈ cursors') :
    ∃ token ∈ tokens, c.idf = Bm25Scorer.idf stats.totalDocs (x.totalDf reader request token) ∧
      ∀ b ∈ c.blocks, 0 ≤ b.maxImpact := by
  obtain ⟨c', hc', -, hblocks, hidf⟩ := hsame.exists_mem hc
  obtain ⟨token, htoken, rfl⟩ := List.mem_map.mp hc'
  exact ⟨token, htoken, hidf.symm, fun b hb => maxImpact_cursor_nonneg (hblocks ▸ hb)⟩

/-- **Bounds are positive** if some expansion is not more frequent than there are documents. -/
theorem totalBlockUb_pos (hboost : PositiveBoosts x.schema) {tokens : List String}
    (hrare : ∃ token ∈ tokens, x.totalDf reader request token ≤ stats.totalDocs)
    {cursors' : List (TermCursor ℝ)}
    (hsame : SameLists (tokens.map (x.cursor reader stats request)) cursors') :
    0 < totalBlockUb x.titleBoost x.descBoost cursors' := by
  obtain ⟨token, htoken, hdf⟩ := hrare
  obtain ⟨c, hc, -, hblocks, hidf⟩ :=
    hsame.symm.exists_mem (List.mem_map_of_mem htoken)
  refine sum_pos_of_mem (fun ub hub => ?_) (List.mem_map_of_mem hc) ?_
  · obtain ⟨c, hc, rfl⟩ := List.mem_map.mp hub
    obtain ⟨token, -, hidf, hblocks⟩ := exists_cursor hsame hc
    obtain ⟨r, hr, heq⟩ := blockUpperBound_eq hboost hblocks
    rw [heq, hidf]
    exact mul_nonneg (Bm25Scorer.idf_nonneg _ _) hr.le
  · have himpact : ∀ b ∈ c.blocks, 0 ≤ b.maxImpact := fun b hb =>
      maxImpact_cursor_nonneg (hblocks ▸ hb)
    obtain ⟨r, hr, heq⟩ := blockUpperBound_eq hboost himpact
    rw [heq, hidf, idf_cursor]
    exact mul_pos ((Bm25Scorer.idf_pos_iff _ _).mpr hdf) hr

/-- **Bounds are 0** if all expansions are more frequent. -/
theorem totalBlockUb_nonpos (hboost : PositiveBoosts x.schema) {tokens : List String}
    (hfrequent : ∀ token ∈ tokens, stats.totalDocs < x.totalDf reader request token)
    {cursors' : List (TermCursor ℝ)}
    (hsame : SameLists (tokens.map (x.cursor reader stats request)) cursors') :
    totalBlockUb x.titleBoost x.descBoost cursors' ≤ 0 := by
  refine (List.sum_eq_zero (fun ub hub => ?_)).le
  obtain ⟨c, hc, rfl⟩ := List.mem_map.mp hub
  obtain ⟨token, htoken, hidf, hblocks⟩ := exists_cursor hsame hc
  obtain ⟨r, -, heq⟩ := blockUpperBound_eq hboost hblocks
  have hzero : Bm25Scorer.idf stats.totalDocs (x.totalDf reader request token) = 0 :=
    le_antisymm (not_lt.mp (fun hpos => (hfrequent token htoken).not_ge
      ((Bm25Scorer.idf_pos_iff _ _).mp hpos))) (Bm25Scorer.idf_nonneg _ _)
  rw [heq, hidf, hzero, zero_mul]

/-! ## 3. What WAND returns for a query -/

variable {docs : List Document} {del : Bitmap} {scoreFn : LocalDocId → Option ℝ}
  {tokens : List String}

theorem one_le_candidateCount (request : SearchRequest) : 1 ≤ candidateCount request :=
  le_max_of_le_right (by norm_num)

theorem start_cursors : ∀ c ∈ tokens.map (x.cursor reader stats request), c.position = 0 := by
  intro c hc
  obtain ⟨token, -, rfl⟩ := List.mem_map.mp hc
  rfl

/-- The fuel of `runWand` is enough, and its results are found by brute force. -/
theorem runWand_spec {cursors : List (TermCursor ℝ)} (hready : Ready cursors)
    (hstart : ∀ c ∈ cursors, c.position = 0) :
    wandTopK (size cursors + 1) cursors (candidateCount request) x.titleBoost x.descBoost scoreFn
        = some (x.runWand request cursors scoreFn) ∧
      (↑(x.runWand request cursors scoreFn) : Multiset (LocalDocId × ℝ))
        ≤ ↑(bruteForce scoreFn cursors) := by
  have hsound : ∃ hits : List (LocalDocId × ℝ),
      (↑hits : Multiset (LocalDocId × ℝ)) ≤ ↑(bruteForce scoreFn cursors) ∧
      ∀ fuel, size cursors < fuel → wandTopK fuel cursors (candidateCount request) x.titleBoost
        x.descBoost scoreFn = some hits :=
    wandTopK_sound hready hstart (one_le_candidateCount request)
  obtain ⟨hits, hle, hrun⟩ := hsound
  rw [runWand, hrun _ (Nat.lt_succ_self _), Option.getD_some]
  exact ⟨rfl, hle⟩

/-- **Every result is shared by all expansions and has its score.** -/
theorem mem_runWand (hwithin : x.analysis.Within) (hlen : docs.length ≤ u32Max)
    (hne : tokens ≠ []) {hit : LocalDocId × ℝ}
    (hhit : hit ∈ x.runWand request (tokens.map (x.cursor (.ofDocs docs del) stats request))
      scoreFn) :
    (∀ token ∈ tokens, hit.1 ∈ x.mergedDocs (.ofDocs docs del) request token) ∧
      scoreFn hit.1 = some hit.2 := by
  have hready : Ready (tokens.map (x.cursor (.ofDocs docs del) stats request)) :=
    ready_cursors hwithin hlen hne
  have hmem := Multiset.mem_coe.mp
    (Multiset.mem_of_le (runWand_spec hready start_cursors).2 (Multiset.mem_coe.mpr hhit))
  obtain ⟨d, hd, hmap⟩ := List.mem_filterMap.mp hmem
  obtain ⟨score, hscore, rfl⟩ := Option.map_eq_some_iff.mp hmap
  exact ⟨(mem_intersection hne).mp hd, hscore⟩

theorem nodup_intersection (hwithin : x.analysis.Within) (hlen : docs.length ≤ u32Max)
    (hne : tokens ≠ []) :
    (intersection (tokens.map (x.cursor (.ofDocs docs del) stats request))).Nodup := by
  have hready : Ready (tokens.map (x.cursor (.ofDocs docs del) stats request)) :=
    ready_cursors hwithin hlen hne
  refine nodup_common (fun l hl => ?_)
  obtain ⟨c, hc, rfl⟩ := List.mem_map.mp hl
  exact (hready.sorted c hc).imp Nat.ne_of_lt

/-- No document is returned twice. -/
theorem nodup_runWand (hwithin : x.analysis.Within) (hlen : docs.length ≤ u32Max)
    (hne : tokens ≠ []) :
    ((x.runWand request (tokens.map (x.cursor (.ofDocs docs del) stats request)) scoreFn).map
      Prod.fst).Nodup := by
  have hready : Ready (tokens.map (x.cursor (.ofDocs docs del) stats request)) :=
    ready_cursors hwithin hlen hne
  have hbrute : ((bruteForce scoreFn (tokens.map
      (x.cursor (.ofDocs docs del) stats request))).map Prod.fst).Nodup := by
    rw [map_fst_bruteForce]
    exact (nodup_intersection hwithin hlen hne).filter _
  rw [← Multiset.coe_nodup, ← Multiset.map_coe] at hbrute ⊢
  exact Multiset.nodup_of_le (Multiset.map_le_map (runWand_spec hready start_cursors).2) hbrute

/-- **Nothing is returned** if every expansion is more frequent than there are documents. -/
theorem runWand_eq_nil (hwithin : x.analysis.Within) (hboost : PositiveBoosts x.schema)
    (hlen : docs.length ≤ u32Max) (hne : tokens ≠ [])
    (hfrequent : ∀ token ∈ tokens,
      stats.totalDocs < x.totalDf (.ofDocs docs del) request token) :
    x.runWand request (tokens.map (x.cursor (.ofDocs docs del) stats request)) scoreFn = [] := by
  rw [runWand, wandTopK_closed (ready_cursors hwithin hlen hne) (one_le_candidateCount request)
    (fun _ hsame => totalBlockUb_nonpos hboost hfrequent hsame) (Nat.lt_succ_self _)]
  rfl

/-- **Something is returned** if some expansion is not, and a shared document has a score. -/
theorem runWand_ne_nil (hwithin : x.analysis.Within) (hboost : PositiveBoosts x.schema)
    (hlen : docs.length ≤ u32Max)
    (hrare : ∃ token ∈ tokens, x.totalDf (.ofDocs docs del) request token ≤ stats.totalDocs)
    {i : LocalDocId}
    (hi : ∀ token ∈ tokens, i ∈ x.mergedDocs (.ofDocs docs del) request token)
    (hscore : (scoreFn i).isSome = true) :
    x.runWand request (tokens.map (x.cursor (.ofDocs docs del) stats request)) scoreFn ≠ [] := by
  have hne : tokens ≠ [] := by
    obtain ⟨token, htoken, -⟩ := hrare
    exact List.ne_nil_of_mem htoken
  have hmem : i ∈ (bruteForce scoreFn
      (tokens.map (x.cursor (.ofDocs docs del) stats request))).map Prod.fst := by
    rw [map_fst_bruteForce]
    exact List.mem_filter.mpr ⟨(mem_intersection hne).mpr hi, hscore⟩
  have hsome : bruteForce scoreFn (tokens.map (x.cursor (.ofDocs docs del) stats request)) ≠ [] :=
    fun hnil => by simp [hnil] at hmem
  have hready : Ready (tokens.map (x.cursor (.ofDocs docs del) stats request)) :=
    ready_cursors hwithin hlen hne
  have hresult := wandTopK_ne_nil hready start_cursors (one_le_candidateCount request)
    (fun _ hsame => totalBlockUb_pos hboost hrare hsame) hsome (Nat.lt_succ_self _)
  rw [(runWand_spec hready start_cursors).1] at hresult
  exact fun hnil => hresult (congrArg some hnil)

/-- **All are returned** if some expansion is not more frequent and there is room. -/
theorem map_fst_runWand_perm (hwithin : x.analysis.Within) (hboost : PositiveBoosts x.schema)
    (hlen : docs.length ≤ u32Max)
    (hrare : ∃ token ∈ tokens, x.totalDf (.ofDocs docs del) request token ≤ stats.totalDocs)
    (hpos : ∀ i score, scoreFn i = some score → 0 < score)
    (hroom : ((intersection (tokens.map (x.cursor (.ofDocs docs del) stats request))).filter
      (fun i => (scoreFn i).isSome)).length ≤ candidateCount request) :
    ((x.runWand request (tokens.map (x.cursor (.ofDocs docs del) stats request)) scoreFn).map
      Prod.fst).Perm
      ((intersection (tokens.map (x.cursor (.ofDocs docs del) stats request))).filter
        (fun i => (scoreFn i).isSome)) := by
  have hne : tokens ≠ [] := by
    obtain ⟨token, htoken, -⟩ := hrare
    exact List.ne_nil_of_mem htoken
  rw [← map_fst_bruteForce] at hroom ⊢
  rw [List.length_map] at hroom
  obtain ⟨hits, hperm, hrun⟩ := wandTopK_roomy (ready_cursors hwithin hlen hne) start_cursors
    (one_le_candidateCount request) (fun d _ => hpos d)
    (fun _ hsame => totalBlockUb_pos hboost hrare hsame) hroom
  rw [runWand, hrun _ (Nat.lt_succ_self _), Option.getD_some]
  exact hperm.map Prod.fst

/-! ## 4. AND retrieval -/

variable {filter : Option Bitmap}

/-- The live documents that are in the merged posting list of every token and pass the filter. -/
noncomputable def matching (x : TextExecutor) (reader : SegmentReader) (request : SearchRequest)
    (filter : Option Bitmap) : List LocalDocId :=
  reader.allLiveDocs.filter (fun i => passes filter i &&
    (x.queryTokens request).all (fun token => i ∈ x.mergedDocs reader request token))

theorem nodup_matching {reader : SegmentReader} : (x.matching reader request filter).Nodup :=
  reader.nodup_allLiveDocs.filter _

theorem mem_matching (hwithin : x.analysis.Within) (hne : x.queryTokens request ≠ [])
    {i : LocalDocId} :
    i ∈ x.matching (.ofDocs docs del) request filter ↔ passes filter i = true ∧
      ∀ token ∈ x.queryTokens request, i ∈ x.mergedDocs (.ofDocs docs del) request token := by
  have hall : (x.queryTokens request).all
      (fun token => i ∈ x.mergedDocs (.ofDocs docs del) request token) = true ↔
      ∀ token ∈ x.queryTokens request, i ∈ x.mergedDocs (.ofDocs docs del) request token := by
    simp
  rw [matching, List.mem_filter, Bool.and_eq_true, hall, and_iff_right_iff_imp]
  rintro ⟨-, hmem⟩
  obtain ⟨token, htoken⟩ := List.exists_mem_of_ne_nil _ hne
  obtain ⟨term, hhas, -⟩ := exists_term_of_mem_mergedDocs hwithin (hmem token htoken)
  exact mem_allLiveDocs_of_hasTerm hhas

/-- **What brute force finds is what matches.** -/
theorem scored_perm_matching (filter : Option Bitmap) (hwithin : x.analysis.Within)
    (hboost : PositiveBoosts x.schema) (hlen : docs.length ≤ u32Max)
    (hstats : stats.totalDocs = (SegmentReader.ofDocs docs del).allLiveDocs.length)
    (hne : x.queryTokens request ≠ []) :
    ((intersection ((x.queryTokens request).map
        (x.cursor (.ofDocs docs del) stats request))).filter
      (fun i => (x.scoreFn (.ofDocs docs del) stats request filter i).isSome)).Perm
      (x.matching (.ofDocs docs del) request filter) := by
  have hinter : (intersection ((x.queryTokens request).map
      (x.cursor (.ofDocs docs del) stats request))).Nodup := nodup_intersection hwithin hlen hne
  refine (List.perm_ext_iff_of_nodup (hinter.filter _) nodup_matching).mpr (fun i => ?_)
  rw [List.mem_filter, mem_intersection hne, mem_matching hwithin hne, and_comm]
  refine and_congr_left (fun hmem => ⟨passes_of_scoreFn, fun hpass => ?_⟩)
  obtain ⟨token, htoken⟩ := List.exists_mem_of_ne_nil _ hne
  exact isSome_scoreFn hwithin hboost.text hstats htoken (hmem token htoken) hpass

/-- Live documents are not filtered out of the results. -/
theorem scoreQueryWand_eq (hwithin : x.analysis.Within) (hlen : docs.length ≤ u32Max)
    (hne : x.queryTokens request ≠ [])
    (hexpand : ∀ token ∈ x.queryTokens request, x.rawLists (.ofDocs docs del) request token ≠ []) :
    x.scoreQueryWand (.ofDocs docs del) stats request filter
      = x.runWand request ((x.queryTokens request).map
          (x.cursor (.ofDocs docs del) stats request))
          (x.scoreFn (.ofDocs docs del) stats request filter) := by
  have hsome : ¬ (x.queryTokens request).isEmpty = true := by simpa using hne
  rw [scoreQueryWand, if_neg hsome, cursors_eq, if_pos hexpand]
  refine List.filter_eq_self.mpr (fun hit hhit => ?_)
  obtain ⟨hmem, -⟩ := mem_runWand hwithin hlen hne hhit
  obtain ⟨token, htoken⟩ := List.exists_mem_of_ne_nil _ hne
  obtain ⟨term, ⟨hdel, doc, hdoc, -⟩, -⟩ :=
    exists_term_of_mem_mergedDocs hwithin (hmem token htoken)
  rw [SegmentReader.getDoc_ofDocs, if_neg hdel, hdoc]
  rfl

/-- **AND retrieval returns what matches** if some token's expansion is not more frequent than
there are live documents, and there is room. -/
theorem map_fst_scoreQueryWand_perm (hwithin : x.analysis.Within)
    (hboost : PositiveBoosts x.schema) (hlen : docs.length ≤ u32Max)
    (hexpand : ∀ token ∈ x.queryTokens request, x.rawLists (.ofDocs docs del) request token ≠ [])
    (hrare : ∃ token ∈ x.queryTokens request, x.totalDf (.ofDocs docs del) request token
      ≤ (SegmentReader.ofDocs docs del).allLiveDocs.length)
    (hroom : (x.matching (.ofDocs docs del) request filter).length ≤ candidateCount request) :
    ((x.scoreQueryWand (.ofDocs docs del)
        (.compute x.schema x.analysis (.ofDocs docs del)) request filter).map Prod.fst).Perm
      (x.matching (.ofDocs docs del) request filter) := by
  have hne : x.queryTokens request ≠ [] := by
    obtain ⟨token, htoken, -⟩ := hrare
    exact List.ne_nil_of_mem htoken
  have hstats : (SegmentStatistics.compute x.schema x.analysis (.ofDocs docs del)).totalDocs
      = (SegmentReader.ofDocs docs del).allLiveDocs.length := rfl
  have hperm := scored_perm_matching filter hwithin hboost hlen hstats hne
  rw [scoreQueryWand_eq hwithin hlen hne hexpand]
  exact (map_fst_runWand_perm hwithin hboost hlen hrare (fun _ _ => scoreFn_pos)
    (hperm.length_eq.trans_le hroom)).trans hperm

/-- **AND retrieval is complete exactly if** some token's expansion is not more frequent than
there are live documents, or nothing matches.  Otherwise it returns nothing. -/
theorem scoreQueryWand_complete_iff (hwithin : x.analysis.Within)
    (hboost : PositiveBoosts x.schema) (hlen : docs.length ≤ u32Max)
    (hne : x.queryTokens request ≠ [])
    (hexpand : ∀ token ∈ x.queryTokens request, x.rawLists (.ofDocs docs del) request token ≠ [])
    (hroom : (x.matching (.ofDocs docs del) request filter).length ≤ candidateCount request) :
    (∀ i ∈ x.matching (.ofDocs docs del) request filter,
      i ∈ (x.scoreQueryWand (.ofDocs docs del)
        (.compute x.schema x.analysis (.ofDocs docs del)) request filter).map Prod.fst) ↔
    (∃ token ∈ x.queryTokens request, x.totalDf (.ofDocs docs del) request token
      ≤ (SegmentReader.ofDocs docs del).allLiveDocs.length) ∨
      x.matching (.ofDocs docs del) request filter = [] := by
  constructor
  · intro hcomplete
    by_contra hnot
    obtain ⟨hfrequent, hsome⟩ := not_or.mp hnot
    obtain ⟨i, hi⟩ := List.exists_mem_of_ne_nil _ hsome
    have hmem := hcomplete i hi
    rw [scoreQueryWand_eq hwithin hlen hne hexpand, runWand_eq_nil hwithin hboost hlen hne
      (fun token htoken => not_le.mp (fun hle => hfrequent ⟨token, htoken, hle⟩))] at hmem
    cases hmem
  · rintro (hrare | hnil)
    · intro i hi
      exact (map_fst_scoreQueryWand_perm hwithin hboost hlen hexpand hrare hroom).mem_iff.mpr hi
    · rw [hnil]
      exact fun i hi => absurd hi List.not_mem_nil

end

/-! ## 5. A prefix that two terms of a document share -/

/-- Words between blanks. -/
def splitWords (text : String) : List String :=
  ((text.toList.splitOnP (· = ' ')).filter (· ≠ [])).map String.ofList

/-- Text analysis of numbers, which have no case and no stem. -/
def plainAnalysis : TextAnalysis where
  analyze
    | .standard _, text => splitWords text
    | .keyword, text => if text.isEmpty then [] else [text]
  levenshtein term maxDistance := some (fun t => editDistance t term ≤ maxDistance)

theorem within_plainAnalysis : plainAnalysis.Within := by
  intro term maxDistance accepts h t ht
  obtain rfl := Option.some.inj h
  exact of_decide_eq_true ht

theorem positiveBoosts_defaultProductSchema : PositiveBoosts .defaultProductSchema := by
  intro f hf _
  simp only [IndexSchema.defaultProductSchema, List.mem_cons, List.not_mem_nil, or_false] at hf
  rcases hf with rfl | rfl | rfl | rfl <;> simp_all [FieldConfig.isText]

noncomputable def plain : TextExecutor := ⟨.defaultProductSchema, plainAnalysis, .keep⟩

/-- A document with this title only. -/
def titled (id : DocId) (title : String) : Document := ⟨id, title, "", ⟨0⟩, "", .empty⟩

/-- **The query "1" does not find the only document**, whose title is "1 10".  Both its terms
start with "1", so the expansion counts it twice. -/
theorem not_complete_one :
    plain.analysis.Within ∧ PositiveBoosts plain.schema ∧
    plain.queryTokens { query := "1" } = ["1"] ∧
    (∀ token ∈ plain.queryTokens { query := "1" },
      plain.rawLists (.ofDocs [titled 1 "1 10"] ∅) { query := "1" } token ≠ []) ∧
    (plain.matching (.ofDocs [titled 1 "1 10"] ∅) { query := "1" } none).length
      ≤ candidateCount { query := "1" } ∧
    ¬ ∀ i ∈ plain.matching (.ofDocs [titled 1 "1 10"] ∅) { query := "1" } none,
      i ∈ (plain.scoreQueryWand (.ofDocs [titled 1 "1 10"] ∅)
        (.compute plain.schema plain.analysis (.ofDocs [titled 1 "1 10"] ∅)) { query := "1" }
        none).map Prod.fst := by
  have htokens : plain.queryTokens { query := "1" } = ["1"] := by decide
  have hmatching : plain.matching (.ofDocs [titled 1 "1 10"] ∅) { query := "1" } none = [0] := by
    decide
  have hexpand : ∀ token ∈ plain.queryTokens { query := "1" },
      plain.rawLists (.ofDocs [titled 1 "1 10"] ∅) { query := "1" } token ≠ [] := by
    intro token htoken
    obtain rfl := List.mem_singleton.mp (htokens ▸ htoken)
    exact List.ne_nil_of_length_eq_add_one (n := 1) (by decide)
  have hfrequent : ∀ token ∈ plain.queryTokens { query := "1" },
      1 < plain.totalDf (.ofDocs [titled 1 "1 10"] ∅) { query := "1" } token := by decide
  refine ⟨within_plainAnalysis, positiveBoosts_defaultProductSchema, htokens, hexpand,
    by decide, fun hcomplete => ?_⟩
  have hmem := hcomplete 0 (by rw [hmatching]; exact List.mem_singleton_self 0)
  rw [scoreQueryWand_eq within_plainAnalysis (by decide) (by decide) hexpand,
    runWand_eq_nil within_plainAnalysis positiveBoosts_defaultProductSchema (by decide)
      (by decide) hfrequent] at hmem
  cases hmem

/-- The query "10" finds it. -/
theorem scoreQueryWand_complete_ten :
    (∀ i ∈ plain.matching (.ofDocs [titled 1 "1 10"] ∅) { query := "10" } none,
      i ∈ (plain.scoreQueryWand (.ofDocs [titled 1 "1 10"] ∅)
        (.compute plain.schema plain.analysis (.ofDocs [titled 1 "1 10"] ∅)) { query := "10" }
        none).map Prod.fst) ↔
    (∃ token ∈ plain.queryTokens { query := "10" },
      plain.totalDf (.ofDocs [titled 1 "1 10"] ∅) { query := "10" } token ≤ 1) ∨
      plain.matching (.ofDocs [titled 1 "1 10"] ∅) { query := "10" } none = [] := by
  have htokens : plain.queryTokens { query := "10" } = ["10"] := by decide
  refine scoreQueryWand_complete_iff within_plainAnalysis positiveBoosts_defaultProductSchema
    (by decide) (by decide) (fun token htoken => ?_) (by decide)
  obtain rfl := List.mem_singleton.mp (htokens ▸ htoken)
  exact List.ne_nil_of_length_eq_add_one (n := 0) (by decide)

/-! ## 6. Candidates and scores -/

/-- **No candidate is dropped by scoring.**  A document in the merged posting list of every token
of the query, if it passes the filter, has a positive score.  (A query without tokens is not
retrieved.) -/
theorem candidate_scored {x : TextExecutor} {docs : List Document} {del : Bitmap}
    {request : SearchRequest} {filter : Option Bitmap} (hwithin : x.analysis.Within)
    (hboost : PositiveTextBoosts x.schema) (hne : x.queryTokens request ≠ []) {i : LocalDocId}
    (hmem : ∀ token ∈ x.queryTokens request, i ∈ x.mergedDocs (.ofDocs docs del) request token)
    (hpass : passes filter i = true) :
    ∃ score, x.scoreFn (.ofDocs docs del) (.compute x.schema x.analysis (.ofDocs docs del)) request
      filter i = some score ∧ 0 < score := by
  obtain ⟨token, htoken⟩ := List.exists_mem_of_ne_nil _ hne
  have hsome : (x.scoreFn (.ofDocs docs del)
      (.compute x.schema x.analysis (.ofDocs docs del)) request filter i).isSome = true :=
    isSome_scoreFn hwithin hboost rfl htoken (hmem token htoken) hpass
  obtain ⟨score, hscore⟩ := Option.isSome_iff_exists.mp hsome
  exact ⟨score, hscore, scoreFn_pos hscore⟩

/-- A similar title, found by the distance of its only term, next to a deleted one. -/
theorem candidate_scored_similar :
    ∃ score, plain.scoreFn (.ofDocs [titled 1 "77777", titled 2 "12346"] {0})
      (.compute plain.schema plain.analysis
        (.ofDocs [titled 1 "77777", titled 2 "12346"] {0}))
      { query := "12345", typoTolerance := true } none 1 = some score ∧ 0 < score :=
  candidate_scored within_plainAnalysis positiveBoosts_defaultProductSchema.text (by decide)
    (by decide) rfl

end ZearchEngine.TextExecutor
