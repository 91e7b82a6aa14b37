/-
# The OR fallback and how documents are split into segments

`QueryExecutor::execute` falls back to OR retrieval when AND retrieval of a segment returns
nothing, and `MultiSegmentSearcher::search` joins the results of the segments
(`crates/query/src/executor.rs`, `multi.rs`).

In a segment with a matching document, only matching documents are returned: if AND retrieval
misses them, the bounds are 0, and so OR retrieval returns nothing either
(`mem_matching_of_mem_scoreQuery`).  In a segment without one, what OR retrieval finds is
returned, whatever the other segments hold.  So a search mixes both kinds exactly if some
segment has a match and another one without a match has an OR answer
(`fallback_only_when_empty_iff`).
-/
import ZearchEngine.Completeness

namespace ZearchEngine

namespace TextExecutor

/-! ## 1. What OR retrieval finds -/

section

variable {x : TextExecutor} {stats : SegmentStatistics} {request : SearchRequest}
  {filter : Option Bitmap} {docs : List Document} {del : Bitmap}

/-- The document has a token that starts with a query token. -/
def HasPrefix (x : TextExecutor) (request : SearchRequest) (doc : Document) : Prop :=
  ∃ token ∈ x.queryTokens request, ∃ term ∈ x.schema.docTokens x.analysis doc,
    startsWith term token = true

/-- An answer of OR retrieval: a live document that passes the filter, is in the expansion of a
token that is not too frequent, and has a prefix match. -/
def OrAnswer (x : TextExecutor) (docs : List Document) (del : Bitmap) (request : SearchRequest)
    (filter : Option Bitmap) (i : LocalDocId) : Prop :=
  passes filter i = true ∧
  (∃ token ∈ x.queryTokens request, i ∈ x.mergedDocs (.ofDocs docs del) request token ∧
    x.totalDf (.ofDocs docs del) request token
      ≤ (SegmentReader.ofDocs docs del).allLiveDocs.length) ∧
  ∃ doc, (SegmentReader.ofDocs docs del).getDoc i = some doc ∧ x.HasPrefix request doc

theorem tokenScore_eq_zero {reader : SegmentReader} {f : FieldConfig ℝ} {docTokens : List String}
    {token : String} (h : ∀ term ∈ docTokens, ¬ startsWith term token = true) :
    x.tokenScore reader stats false f docTokens token = 0 := by
  have hnone : docTokens.filter (fun t => t = token || startsWith t token) = [] := by
    refine List.filter_eq_nil_iff.mpr (fun t ht hmatch => ?_)
    rcases (Bool.or_eq_true _ _).mp hmatch with heq | hstarts
    · obtain rfl := of_decide_eq_true heq
      exact h t ht (startsWith_self t)
    · exact h t ht hstarts
  simp [tokenScore, hnone]

/-- **The score of OR retrieval is positive exactly for prefix matches.** -/
theorem totalScore_or_pos_iff (hboost : PositiveBoosts x.schema)
    (hstats : stats.totalDocs = (SegmentReader.ofDocs docs del).allLiveDocs.length)
    (hlive : (SegmentReader.ofDocs docs del).allLiveDocs ≠ []) (doc : Document) :
    0 < x.totalScore (.ofDocs docs del) stats request false doc ↔ x.HasPrefix request doc := by
  constructor
  · intro hpos
    by_contra hnone
    refine hpos.ne' ?_
    rw [totalScore]
    refine List.sum_eq_zero (fun s hs => ?_)
    obtain ⟨f, hf, rfl⟩ := List.mem_map.mp hs
    cases doc.fieldText f.name with
    | none => rfl
    | some text =>
      refine List.sum_eq_zero (fun s hs => ?_)
      obtain ⟨token, htoken, rfl⟩ := List.mem_map.mp hs
      refine tokenScore_eq_zero (fun term hterm hstarts => hnone ⟨token, htoken, term, ?_, hstarts⟩)
      exact List.mem_flatMap.mpr ⟨f, hf, hterm⟩
  · rintro ⟨token, htoken, term, hterm, hstarts⟩
    have hdf : x.docFreq (.ofDocs docs del) token ≤ stats.totalDocs :=
      (docFreq_le hlive).trans hstats.ge
    refine totalScore_pos hboost.text htoken hterm (fun f hf hmem => ?_)
    -- OR retrieval scores like a request without typo tolerance
    have hscore : 0 < x.tokenScore (.ofDocs docs del) stats
        ({ request with typoTolerance := false } : SearchRequest).typoTolerance f
        (f.tokens x.analysis doc) token := tokenScore_pos hf hdf hmem (Or.inl hstarts)
    exact hscore

theorem mem_allLiveDocs_of_getDoc {i : LocalDocId} {doc : Document}
    (h : (SegmentReader.ofDocs docs del).getDoc i = some doc) :
    i ∈ (SegmentReader.ofDocs docs del).allLiveDocs := by
  rw [SegmentReader.getDoc_ofDocs] at h
  split at h
  · cases h
  · rename_i hdel
    obtain ⟨hlt, -⟩ := List.getElem?_eq_some_iff.mp h
    exact List.mem_filter.mpr ⟨List.mem_range.mpr hlt, decide_eq_true hdel⟩

theorem isSome_scoreFnOr_iff (hboost : PositiveBoosts x.schema)
    (hstats : stats.totalDocs = (SegmentReader.ofDocs docs del).allLiveDocs.length)
    {i : LocalDocId} :
    (x.scoreFnOr (.ofDocs docs del) stats request filter i).isSome = true ↔
      passes filter i = true ∧
      ∃ doc, (SegmentReader.ofDocs docs del).getDoc i = some doc ∧ x.HasPrefix request doc := by
  rw [scoreFnOr]
  by_cases hpass : passes filter i = true
  · rw [if_pos hpass, and_iff_right hpass]
    cases hget : (SegmentReader.ofDocs docs del).getDoc i with
    | none => simp
    | some doc =>
      have hlive := List.ne_nil_of_mem (mem_allLiveDocs_of_getDoc hget)
      have hiff : 0 < x.totalScore (.ofDocs docs del) stats request false doc ↔
          x.HasPrefix request doc := totalScore_or_pos_iff hboost hstats hlive doc
      by_cases hpos : 0 < x.totalScore (.ofDocs docs del) stats request false doc
      · simp [hpos, hiff.mp hpos]
      · simp [hpos, mt hiff.mpr hpos]
  · rw [if_neg hpass]
    simp [hpass]

/-! ## 2. The results of one segment -/

/-- The keys of the score map. -/
theorem map_fst_addScore (scoreMap : List (LocalDocId × ℝ)) (hit : LocalDocId × ℝ) :
    (addScore scoreMap hit).map Prod.fst
      = if hit.1 ∈ scoreMap.map Prod.fst then scoreMap.map Prod.fst
        else scoreMap.map Prod.fst ++ [hit.1] := by
  have hany : scoreMap.any (fun s => s.1 = hit.1) = true ↔ hit.1 ∈ scoreMap.map Prod.fst := by
    rw [List.any_eq_true, List.mem_map]
    simp only [decide_eq_true_iff]
  rw [addScore]
  by_cases hmem : hit.1 ∈ scoreMap.map Prod.fst
  · rw [if_pos (hany.mpr hmem), if_pos hmem, List.map_map]
    exact List.map_congr_left (fun p _ => by by_cases h : p.1 = hit.1 <;> simp [h])
  · rw [if_neg (mt hany.mp hmem), if_neg hmem, List.map_append]
    rfl

theorem mem_foldl_addScore {i : LocalDocId} : ∀ (hits scoreMap : List (LocalDocId × ℝ)),
    i ∈ (hits.foldl addScore scoreMap).map Prod.fst ↔
      i ∈ scoreMap.map Prod.fst ∨ i ∈ hits.map Prod.fst
  | [], scoreMap => by simp
  | hit :: hits, scoreMap => by
    rw [List.foldl_cons, mem_foldl_addScore hits, map_fst_addScore, List.map_cons, List.mem_cons]
    by_cases hmem : hit.1 ∈ scoreMap.map Prod.fst
    · rw [if_pos hmem]
      constructor
      · tauto
      · rintro (h | rfl | h)
        · exact Or.inl h
        · exact Or.inl hmem
        · exact Or.inr h
    · rw [if_neg hmem, List.mem_append, List.mem_singleton]
      tauto

theorem nodup_foldl_addScore : ∀ (hits scoreMap : List (LocalDocId × ℝ)),
    (scoreMap.map Prod.fst).Nodup → ((hits.foldl addScore scoreMap).map Prod.fst).Nodup
  | [], _, h => h
  | hit :: hits, scoreMap, h => by
    refine nodup_foldl_addScore hits _ ?_
    rw [map_fst_addScore]
    by_cases hmem : hit.1 ∈ scoreMap.map Prod.fst
    · rwa [if_pos hmem]
    · rw [if_neg hmem]
      exact List.nodup_append.mpr ⟨h, List.nodup_singleton _, fun i hi j hj heq =>
        hmem (List.mem_singleton.mp hj ▸ heq ▸ hi)⟩

/-- **The score map** has one score for each local id some token retrieves. -/
theorem mem_map_fst_scoreMap {reader : SegmentReader} {i : LocalDocId} :
    i ∈ (x.scoreMap reader stats request filter).map Prod.fst ↔
      ∃ token ∈ x.queryTokens request,
        i ∈ (x.tokenResults reader stats request filter token).map Prod.fst := by
  rw [scoreMap, mem_foldl_addScore, List.map_flatMap, List.mem_flatMap]
  simp

theorem nodup_scoreMap {reader : SegmentReader} :
    ((x.scoreMap reader stats request filter).map Prod.fst).Nodup :=
  nodup_foldl_addScore _ [] List.nodup_nil

theorem rawLists_ne_nil_of_mem {reader : SegmentReader} {token : String} {i : LocalDocId}
    (h : i ∈ x.mergedDocs reader request token) : x.rawLists reader request token ≠ [] := by
  intro hnil
  obtain ⟨pl, hpl, -⟩ := ((PostingList.merge_spec _).1 i).mp h
  rw [hnil] at hpl
  cases hpl

theorem mem_tokenResults (hwithin : x.analysis.Within) (hlen : docs.length ≤ u32Max)
    {token : String} {hit : LocalDocId × ℝ}
    (h : hit ∈ x.tokenResults (.ofDocs docs del) stats request filter token) :
    hit.1 ∈ x.mergedDocs (.ofDocs docs del) request token ∧
      x.scoreFnOr (.ofDocs docs del) stats request filter hit.1 = some hit.2 := by
  rw [tokenResults] at h
  split at h
  · cases h
  · obtain ⟨hmem, hscore⟩ := mem_runWand hwithin hlen (List.cons_ne_nil token []) h
    exact ⟨hmem token List.mem_cons_self, hscore⟩

theorem tokenResults_eq_nil (hwithin : x.analysis.Within) (hboost : PositiveBoosts x.schema)
    (hlen : docs.length ≤ u32Max) {token : String}
    (hfrequent : stats.totalDocs < x.totalDf (.ofDocs docs del) request token) :
    x.tokenResults (.ofDocs docs del) stats request filter token = [] := by
  rw [tokenResults]
  split
  · rfl
  · exact runWand_eq_nil hwithin hboost hlen (List.cons_ne_nil token [])
      (by simpa using hfrequent)

theorem tokenResults_ne_nil (hwithin : x.analysis.Within) (hboost : PositiveBoosts x.schema)
    (hlen : docs.length ≤ u32Max) {token : String}
    (hrare : x.totalDf (.ofDocs docs del) request token ≤ stats.totalDocs) {i : LocalDocId}
    (hi : i ∈ x.mergedDocs (.ofDocs docs del) request token)
    (hscore : (x.scoreFnOr (.ofDocs docs del) stats request filter i).isSome = true) :
    x.tokenResults (.ofDocs docs del) stats request filter token ≠ [] := by
  have hexpand : ¬ (x.rawLists (.ofDocs docs del) request token).isEmpty = true := by
    simpa using rawLists_ne_nil_of_mem hi
  rw [tokenResults, if_neg hexpand]
  have htoken : ∃ t ∈ [token], x.totalDf (.ofDocs docs del) request t ≤ stats.totalDocs :=
    ⟨token, List.mem_singleton_self token, hrare⟩
  refine runWand_ne_nil hwithin hboost hlen htoken (fun t ht => ?_) hscore
  obtain rfl := List.mem_singleton.mp ht
  exact hi

/-- The ids that OR retrieval returns. -/
theorem mem_scoreQueryOrFallback (hwithin : x.analysis.Within) (hlen : docs.length ≤ u32Max)
    {i : LocalDocId} :
    i ∈ (x.scoreQueryOrFallback (.ofDocs docs del) stats request filter).map Prod.fst ↔
      ∃ token ∈ x.queryTokens request,
        i ∈ (x.tokenResults (.ofDocs docs del) stats request filter token).map Prod.fst := by
  rw [← mem_map_fst_scoreMap, scoreQueryOrFallback]
  constructor
  · intro h
    obtain ⟨hit, hhit, rfl⟩ := List.mem_map.mp h
    exact List.mem_map_of_mem (x.scoreOrder.mem_run.mp (List.mem_of_mem_filter hhit))
  · intro h
    obtain ⟨token, -, hres⟩ := mem_map_fst_scoreMap.mp h
    obtain ⟨hit, hhit, rfl⟩ := List.mem_map.mp hres
    obtain ⟨hkey, hmem, heq⟩ := List.mem_map.mp h
    -- what has a score can be read
    have hread : ((SegmentReader.ofDocs docs del).getDoc hit.1).isSome = true := by
      have hscore := (mem_tokenResults hwithin hlen hhit).2
      rw [scoreFnOr] at hscore
      split at hscore
      · obtain ⟨doc, hdoc, -⟩ := Option.bind_eq_some_iff.mp hscore
        rw [hdoc]
        rfl
      · cases hscore
    exact List.mem_map.mpr ⟨hkey, List.mem_filter.mpr ⟨x.scoreOrder.mem_run.mpr hmem, by rwa [heq]⟩,
      heq⟩

/-- **OR retrieval returns OR answers**, and something if there is one. -/
theorem orAnswer_of_mem_scoreQueryOrFallback (hwithin : x.analysis.Within)
    (hboost : PositiveBoosts x.schema) (hlen : docs.length ≤ u32Max)
    (hstats : stats.totalDocs = (SegmentReader.ofDocs docs del).allLiveDocs.length)
    {i : LocalDocId}
    (h : i ∈ (x.scoreQueryOrFallback (.ofDocs docs del) stats request filter).map Prod.fst) :
    x.OrAnswer docs del request filter i := by
  obtain ⟨token, htoken, hres⟩ := (mem_scoreQueryOrFallback hwithin hlen).mp h
  obtain ⟨hit, hhit, rfl⟩ := List.mem_map.mp hres
  obtain ⟨hmem, hscore⟩ := mem_tokenResults hwithin hlen hhit
  have hdf : x.totalDf (.ofDocs docs del) request token ≤ stats.totalDocs := by
    by_contra hlt
    rw [tokenResults_eq_nil hwithin hboost hlen (not_le.mp hlt)] at hhit
    cases hhit
  obtain ⟨hpass, hdoc⟩ := (isSome_scoreFnOr_iff hboost hstats).mp (by rw [hscore]; rfl)
  exact ⟨hpass, ⟨token, htoken, hmem, hdf.trans hstats.le⟩, hdoc⟩

theorem scoreQueryOrFallback_ne_nil (hwithin : x.analysis.Within)
    (hboost : PositiveBoosts x.schema) (hlen : docs.length ≤ u32Max)
    (hstats : stats.totalDocs = (SegmentReader.ofDocs docs del).allLiveDocs.length)
    {i : LocalDocId} (h : x.OrAnswer docs del request filter i) :
    x.scoreQueryOrFallback (.ofDocs docs del) stats request filter ≠ [] := by
  obtain ⟨hpass, ⟨token, htoken, hmem, hdf⟩, hdoc⟩ := h
  have hne := tokenResults_ne_nil hwithin hboost hlen (hdf.trans hstats.ge) hmem
    ((isSome_scoreFnOr_iff hboost hstats).mpr ⟨hpass, hdoc⟩)
  obtain ⟨hit, hhit⟩ := List.exists_mem_of_ne_nil _ hne
  have hres := (mem_scoreQueryOrFallback hwithin hlen).mpr
    ⟨token, htoken, List.mem_map_of_mem hhit⟩
  intro hnil
  rw [hnil] at hres
  cases hres

/-- AND retrieval returns what matches. -/
theorem mem_matching_of_mem_scoreQueryWand (hwithin : x.analysis.Within)
    (hlen : docs.length ≤ u32Max) {hit : LocalDocId × ℝ}
    (h : hit ∈ x.scoreQueryWand (.ofDocs docs del) stats request filter) :
    hit.1 ∈ x.matching (.ofDocs docs del) request filter := by
  rw [scoreQueryWand, cursors_eq] at h
  by_cases hempty : (x.queryTokens request).isEmpty = true
  · rw [if_pos hempty] at h
    cases h
  · have hne : x.queryTokens request ≠ [] := by simpa using hempty
    rw [if_neg hempty] at h
    split at h
    · cases h
    · rename_i cursors hcursors
      split at hcursors
      · obtain rfl := Option.some.inj hcursors
        obtain ⟨hmem, hscore⟩ := mem_runWand hwithin hlen hne (List.mem_of_mem_filter h)
        exact (mem_matching hwithin hne).mpr ⟨passes_of_scoreFn (by rw [hscore]; rfl), hmem⟩
      · cases hcursors

/-- **In a segment with a match, only matches are returned.** -/
theorem mem_matching_of_mem_scoreQuery (hwithin : x.analysis.Within)
    (hboost : PositiveBoosts x.schema) (hlen : docs.length ≤ u32Max)
    (hstats : stats.totalDocs = (SegmentReader.ofDocs docs del).allLiveDocs.length)
    (hne : x.queryTokens request ≠ [])
    (hsome : x.matching (.ofDocs docs del) request filter ≠ []) {hit : LocalDocId × ℝ}
    (h : hit ∈ (x.scoreQuery (.ofDocs docs del) stats request filter).1) :
    hit.1 ∈ x.matching (.ofDocs docs del) request filter := by
  rw [scoreQuery] at h
  split at h
  · rename_i hfallback
    obtain ⟨hand, -⟩ := (Bool.and_eq_true _ _).mp hfallback
    obtain ⟨i, hi⟩ := List.exists_mem_of_ne_nil _ hsome
    obtain ⟨hpass, hmem⟩ := (mem_matching hwithin hne).mp hi
    obtain ⟨-, ⟨token, htoken, -, hdf⟩, -⟩ := orAnswer_of_mem_scoreQueryOrFallback hwithin hboost
      hlen hstats (List.mem_map_of_mem h)
    -- a token that is not too frequent makes AND retrieval find something
    refine absurd (List.isEmpty_iff.mp hand) ?_
    rw [scoreQueryWand_eq hwithin hlen hne (fun t ht => rawLists_ne_nil_of_mem (hmem t ht))]
    exact runWand_ne_nil hwithin hboost hlen ⟨token, htoken, hdf.trans hstats.ge⟩ hmem
      (isSome_scoreFn hwithin hboost.text hstats htoken (hmem token htoken) hpass)
  · exact mem_matching_of_mem_scoreQueryWand hwithin hlen h

/-- Where AND retrieval returns nothing, OR retrieval of several tokens decides. -/
theorem scoreQuery_eq_scoreQueryOrFallback {reader : SegmentReader}
    (hmulti : (x.queryTokens request).length > 1)
    (hand : x.scoreQueryWand reader stats request filter = []) :
    (x.scoreQuery reader stats request filter).1
      = x.scoreQueryOrFallback reader stats request filter := by
  have hfallback : (([] : List (LocalDocId × ℝ)).isEmpty
      && decide ((x.queryTokens request).length > 1)) = true := by
    rw [List.isEmpty_nil, Bool.true_and]
    exact decide_eq_true hmulti
  rw [scoreQuery, hand]
  exact congrArg Prod.fst (if_pos hfallback)

/-- AND retrieval returns nothing where nothing matches. -/
theorem scoreQueryWand_eq_nil (hwithin : x.analysis.Within) (hlen : docs.length ≤ u32Max)
    (hnone : x.matching (.ofDocs docs del) request filter = []) :
    x.scoreQueryWand (.ofDocs docs del) stats request filter = [] := by
  refine List.eq_nil_iff_forall_not_mem.mpr (fun hit hhit => ?_)
  have hmem := mem_matching_of_mem_scoreQueryWand hwithin hlen hhit
  rw [hnone] at hmem
  cases hmem

/-- **In a segment without a match, the OR answers are returned.** -/
theorem scoreQuery_eq_fallback (hwithin : x.analysis.Within) (hlen : docs.length ≤ u32Max)
    (hmulti : (x.queryTokens request).length > 1)
    (hnone : x.matching (.ofDocs docs del) request filter = []) :
    (x.scoreQuery (.ofDocs docs del) stats request filter).1
      = x.scoreQueryOrFallback (.ofDocs docs del) stats request filter :=
  scoreQuery_eq_scoreQueryOrFallback hmulti (scoreQueryWand_eq_nil hwithin hlen hnone)

/-- Every result can be read. -/
theorem isSome_getDoc_of_mem_scoreQuery {reader : SegmentReader} {hit : LocalDocId × ℝ}
    (h : hit ∈ (x.scoreQuery reader stats request filter).1) :
    (reader.getDoc hit.1).isSome = true := by
  have hfilter : ∀ hits : List (LocalDocId × ℝ),
      hit ∈ hits.filter (fun hit => (reader.getDoc hit.1).isSome) →
      (reader.getDoc hit.1).isSome = true := fun _ hmem => (List.mem_filter.mp hmem).2
  rw [scoreQuery] at h
  split at h
  · exact hfilter _ h
  · rw [scoreQueryWand] at h
    split at h
    · cases h
    · split at h
      · cases h
      · exact hfilter _ h

theorem nodup_scoreQuery (hwithin : x.analysis.Within) (hlen : docs.length ≤ u32Max) :
    ((x.scoreQuery (.ofDocs docs del) stats request filter).1.map Prod.fst).Nodup := by
  rw [scoreQuery]
  split
  · have hnodup : ((x.scoreMap (.ofDocs docs del) stats request filter).map Prod.fst).Nodup :=
      nodup_scoreMap
    exact (((x.scoreOrder.perm _).map Prod.fst).nodup_iff.mpr hnodup).sublist
      ((List.filter_sublist).map _)
  · rw [scoreQueryWand, cursors_eq]
    by_cases hempty : (x.queryTokens request).isEmpty = true
    · simp [hempty]
    · have hne : x.queryTokens request ≠ [] := by simpa using hempty
      simp only [if_neg hempty]
      split
      · exact List.nodup_nil
      · rename_i cursors hcursors
        split at hcursors
        · obtain rfl := Option.some.inj hcursors
          exact (nodup_runWand hwithin hlen hne).sublist ((List.filter_sublist).map _)
        · cases hcursors

/-- A segment yields no more candidates than it has documents. -/
theorem length_scoreQuery_le (hwithin : x.analysis.Within) (hlen : docs.length ≤ u32Max) :
    (x.scoreQuery (.ofDocs docs del) stats request filter).1.length ≤ docs.length := by
  have hrange : ∀ i ∈ (x.scoreQuery (.ofDocs docs del) stats request filter).1.map Prod.fst,
      i ∈ List.range docs.length := by
    intro i hi
    obtain ⟨hit, hhit, rfl⟩ := List.mem_map.mp hi
    obtain ⟨doc, hdoc⟩ := Option.isSome_iff_exists.mp (isSome_getDoc_of_mem_scoreQuery hhit)
    exact List.mem_of_mem_filter (mem_allLiveDocs_of_getDoc hdoc)
  simpa using (nodup_scoreQuery hwithin hlen).length_le_of_subset hrange

end

/-! ## 3. All segments -/

/-- The executor, with its scores rounded to `f32`. -/
noncomputable def executor (x : TextExecutor) (round : ℝ → F32)
    (columnFilter : List Document → String → FilterValue → Bitmap)
    (aggregateCounts : List Document → String → Bitmap → Counts) : QueryExecutor where
  scoreQuery reader request filter :=
    let (hits, mode) := x.scoreQuery reader (.compute x.schema x.analysis reader) request filter
    (hits.map (fun hit => (hit.1, round hit.2)), mode)
  columnFilter
  aggregateCounts

end TextExecutor

/-- The page of candidates whose documents `search` fetches. -/
def MultiSegmentSearcher.page (m : MultiSegmentSearcher) (segments : List SegmentReader)
    (request : SearchRequest) : List ScoredDoc :=
  (m.collect ((m.results segments request).flatMap SegmentSearchResult.scoredDocs) request.sort
    request.offset request.limit).1

namespace TextExecutor

/-- The documents of a segment that match all query tokens and pass the filters. -/
noncomputable def matchingIn (x : TextExecutor) (m : MultiSegmentSearcher)
    (reader : SegmentReader) (request : SearchRequest) : List LocalDocId :=
  x.matching reader request (m.executor.buildFilterBitmap reader request)

/-- A returned document that does not match all query tokens is returned only if no live
document of any segment does. -/
def FallbackOnlyWhenEmpty (x : TextExecutor) (m : MultiSegmentSearcher)
    (segments : List SegmentReader) (request : SearchRequest) : Prop :=
  ∀ scored ∈ m.page segments request, ∀ reader, segments[scored.segmentOrd]? = some reader →
    (MultiSegmentSearcher.fetch segments scored).isSome = true →
    scored.localDocId ∉ x.matchingIn m reader request →
    ∀ reader' ∈ segments, x.matchingIn m reader' request = []

/-- A segment has an OR answer. -/
def HasOrAnswer (x : TextExecutor) (m : MultiSegmentSearcher) (segment : List Document × Bitmap)
    (request : SearchRequest) : Prop :=
  ∃ i, x.OrAnswer segment.1 segment.2 request
    (m.executor.buildFilterBitmap (.ofDocs segment.1 segment.2) request) i

section

variable {x : TextExecutor} {m : MultiSegmentSearcher} {request : SearchRequest}
  {round : ℝ → F32} {columnFilter : List Document → String → FilterValue → Bitmap}
  {aggregateCounts : List Document → String → Bitmap → Counts}

/-- The candidates of a segment are the results of its query. -/
theorem map_scoredDocs (hm : m.executor = x.executor round columnFilter aggregateCounts)
    (hquery : request.query.isEmpty = false) (reader : SegmentReader) (ord : Nat) :
    (m.executor.execute reader ord request).scoredDocs.map
        (fun scored => (scored.segmentOrd, scored.localDocId))
      = (x.scoreQuery reader (.compute x.schema x.analysis reader) request
          (m.executor.buildFilterBitmap reader request)).1.map (fun hit => (ord, hit.1)) := by
  have hscore : ∀ filter, (m.executor.scoreQuery reader request filter).1
      = (x.scoreQuery reader (.compute x.schema x.analysis reader) request filter).1.map
          (fun hit => (hit.1, round hit.2)) := by
    intro filter
    rw [hm]
    rfl
  have hquery' : ¬ request.query.isEmpty = true := by simp [hquery]
  simp only [QueryExecutor.execute, if_neg hquery', hscore]
  rw [List.filterMap_map, List.map_filterMap, ← List.filterMap_eq_map]
  refine List.filterMap_congr (fun hit hhit => ?_)
  obtain ⟨doc, hdoc⟩ := Option.isSome_iff_exists.mp (isSome_getDoc_of_mem_scoreQuery hhit)
  simp [hdoc]

/-- The readers of the segments. -/
def readers (segments : List (List Document × Bitmap)) : List SegmentReader :=
  segments.map (fun s => .ofDocs s.1 s.2)

/-- A candidate of the search is a result of its segment. -/
theorem mem_results {segments : List SegmentReader}
    (hm : m.executor = x.executor round columnFilter aggregateCounts)
    (hquery : request.query.isEmpty = false) {ord i : Nat} :
    (ord, i) ∈ ((m.results segments request).flatMap SegmentSearchResult.scoredDocs).map
        (fun scored => (scored.segmentOrd, scored.localDocId)) ↔
      ∃ reader, segments[ord]? = some reader ∧
        i ∈ (x.scoreQuery reader (.compute x.schema x.analysis reader) request
          (m.executor.buildFilterBitmap reader request)).1.map Prod.fst := by
  rw [List.map_flatMap, MultiSegmentSearcher.results, List.mem_flatMap]
  constructor
  · rintro ⟨result, hresult, hmem⟩
    obtain ⟨⟨reader, n⟩, hreader, rfl⟩ := List.mem_map.mp hresult
    rw [map_scoredDocs hm hquery] at hmem
    obtain ⟨hit, hhit, heq⟩ := List.mem_map.mp hmem
    obtain ⟨rfl, rfl⟩ := Prod.mk.inj heq
    exact ⟨reader, List.mem_zipIdx_iff_getElem?.mp hreader, List.mem_map_of_mem hhit⟩
  · rintro ⟨reader, hreader, hmem⟩
    obtain ⟨hit, hhit, rfl⟩ := List.mem_map.mp hmem
    have hzip : (reader, ord) ∈ segments.zipIdx := List.mem_zipIdx_iff_getElem?.mpr hreader
    refine ⟨_, List.mem_map_of_mem hzip, ?_⟩
    rw [map_scoredDocs hm hquery]
    exact List.mem_map.mpr ⟨hit, hhit, rfl⟩

/-- There are no more candidates than documents. -/
theorem length_results_le (hm : m.executor = x.executor round columnFilter aggregateCounts)
    (hquery : request.query.isEmpty = false) (hwithin : x.analysis.Within)
    {segments : List (List Document × Bitmap)} (hlen : ∀ s ∈ segments, s.1.length ≤ u32Max) :
    ((m.results (readers segments) request).flatMap SegmentSearchResult.scoredDocs).length
      ≤ (segments.map (fun s => s.1.length)).sum := by
  have hsum : ∀ (segments : List (List Document × Bitmap)) (n : Nat),
      (∀ s ∈ segments, s.1.length ≤ u32Max) →
      ((((readers segments).zipIdx n).map (fun p => m.executor.execute p.1 p.2 request)).flatMap
        SegmentSearchResult.scoredDocs).length ≤ (segments.map (fun s => s.1.length)).sum := by
    intro segments
    induction segments with
    | nil => exact fun _ _ => le_rfl
    | cons s segments ih =>
      intro n hlen
      have hrest := ih (n + 1) (fun t ht => hlen t (List.mem_cons_of_mem s ht))
      have hhead := congrArg List.length (map_scoredDocs hm hquery (.ofDocs s.1 s.2) n)
      rw [List.length_map, List.length_map] at hhead
      have hle : (x.scoreQuery (.ofDocs s.1 s.2) (.compute x.schema x.analysis (.ofDocs s.1 s.2))
          request (m.executor.buildFilterBitmap (.ofDocs s.1 s.2) request)).1.length
          ≤ s.1.length := length_scoreQuery_le hwithin (hlen s List.mem_cons_self)
      simp only [readers, List.map_cons, List.zipIdx_cons, List.flatMap_cons, List.length_append,
        List.sum_cons] at hrest ⊢
      omega
  exact hsum segments 0 hlen

/-- A candidate of a page is a candidate of the search. -/
theorem mem_of_mem_page {segments : List SegmentReader} {scored : ScoredDoc}
    (h : scored ∈ m.page segments request) :
    scored ∈ (m.results segments request).flatMap SegmentSearchResult.scoredDocs :=
  (m.perm_sortUnstable _ _).mem_iff.mp (List.mem_of_mem_drop (List.mem_of_mem_take h))

/-- A page with room for all candidates has them all. -/
theorem mem_page_of_limit {segments : List SegmentReader} {scored : ScoredDoc}
    (hoffset : request.offset = 0)
    (hlimit : ((m.results segments request).flatMap SegmentSearchResult.scoredDocs).length
      ≤ request.limit)
    (h : scored ∈ (m.results segments request).flatMap SegmentSearchResult.scoredDocs) :
    scored ∈ m.page segments request := by
  have hperm := m.perm_sortUnstable request.sort
    ((m.results segments request).flatMap SegmentSearchResult.scoredDocs)
  rw [MultiSegmentSearcher.page, MultiSegmentSearcher.collect, hoffset, List.drop_zero,
    List.take_of_length_le (hperm.length_eq.trans_le hlimit)]
  exact hperm.mem_iff.mpr h

/-- **No mixture** where every segment with an OR answer has a match. -/
theorem fallbackOnlyWhenEmpty_of
    (hm : m.executor = x.executor round columnFilter aggregateCounts)
    (hquery : request.query.isEmpty = false) (hwithin : x.analysis.Within)
    (hboost : PositiveBoosts x.schema) {segments : List (List Document × Bitmap)}
    (hlen : ∀ s ∈ segments, s.1.length ≤ u32Max) (hmulti : (x.queryTokens request).length > 1)
    (h : ∀ s ∈ segments, x.HasOrAnswer m s request →
      x.matchingIn m (.ofDocs s.1 s.2) request ≠ []) :
    x.FallbackOnlyWhenEmpty m (readers segments) request := by
  intro scored hscored reader hreader _ hnot
  obtain ⟨reader', hreader', hres⟩ := (mem_results hm hquery).mp
    (List.mem_map_of_mem (mem_of_mem_page hscored))
  obtain rfl : reader' = reader := Option.some.inj (hreader'.symm.trans hreader)
  obtain ⟨s, hs, rfl⟩ := List.mem_map.mp (List.mem_of_getElem? hreader)
  have hne : x.queryTokens request ≠ [] := List.ne_nil_of_length_pos (by omega)
  obtain ⟨hit, hhit, heq⟩ := List.mem_map.mp hres
  by_cases hnone : x.matchingIn m (.ofDocs s.1 s.2) request = []
  · rw [scoreQuery_eq_fallback hwithin (hlen s hs) hmulti hnone] at hres
    exact absurd hnone (h s hs ⟨_, orAnswer_of_mem_scoreQueryOrFallback hwithin hboost (hlen s hs)
      rfl hres⟩)
  · have hmem := mem_matching_of_mem_scoreQuery hwithin hboost (hlen s hs) rfl hne hnone hhit
    rw [heq] at hmem
    exact absurd hmem hnot

/-- **A mixture**: one segment has a match, another one only an OR answer. -/
theorem not_fallbackOnlyWhenEmpty
    (hm : m.executor = x.executor round columnFilter aggregateCounts)
    (hquery : request.query.isEmpty = false) (hwithin : x.analysis.Within)
    (hboost : PositiveBoosts x.schema) {segments : List (List Document × Bitmap)}
    (hlen : ∀ s ∈ segments, s.1.length ≤ u32Max) (hmulti : (x.queryTokens request).length > 1)
    (hoffset : request.offset = 0)
    (hlimit : (segments.map (fun s => s.1.length)).sum ≤ request.limit)
    (hmatch : ∃ s ∈ segments, x.matchingIn m (.ofDocs s.1 s.2) request ≠ [])
    (hor : ∃ s ∈ segments, x.HasOrAnswer m s request ∧
      x.matchingIn m (.ofDocs s.1 s.2) request = []) :
    ¬ x.FallbackOnlyWhenEmpty m (readers segments) request := by
  intro honly
  obtain ⟨s₀, hs₀, hsome⟩ := hmatch
  obtain ⟨s, hs, ⟨i, hanswer⟩, hnone⟩ := hor
  obtain ⟨ord, hord⟩ := List.mem_iff_getElem?.mp
    (List.mem_map_of_mem (f := fun s : List Document × Bitmap => SegmentReader.ofDocs s.1 s.2) hs)
  have hne : x.scoreQueryOrFallback (.ofDocs s.1 s.2)
      (.compute x.schema x.analysis (.ofDocs s.1 s.2)) request
      (m.executor.buildFilterBitmap (.ofDocs s.1 s.2) request) ≠ [] :=
    scoreQueryOrFallback_ne_nil hwithin hboost (hlen s hs) rfl hanswer
  obtain ⟨hit, hhit⟩ := List.exists_mem_of_ne_nil _ hne
  rw [← scoreQuery_eq_fallback hwithin (hlen s hs) hmulti hnone] at hhit
  have hres := (mem_results hm hquery).mpr ⟨_, hord, List.mem_map_of_mem hhit⟩
  obtain ⟨scored, hscored, heq⟩ := List.mem_map.mp hres
  obtain ⟨hordEq, hidEq⟩ := Prod.mk.inj heq
  have hpage := mem_page_of_limit hoffset
    ((length_results_le hm hquery hwithin hlen).trans hlimit) hscored
  have hread := isSome_getDoc_of_mem_scoreQuery hhit
  refine hsome (honly scored hpage _ (by rw [hordEq]; exact hord) ?_ ?_ _
    (List.mem_map_of_mem (f := fun s : List Document × Bitmap => SegmentReader.ofDocs s.1 s.2) hs₀))
  · obtain ⟨doc, hdoc⟩ := Option.isSome_iff_exists.mp hread
    rw [MultiSegmentSearcher.fetch, hordEq, hidEq]
    have hord' : (readers segments)[ord]? = some (SegmentReader.ofDocs s.1 s.2) := hord
    simp [hord', hdoc]
  · rw [hnone]
    exact List.not_mem_nil

/-- **Matches and OR answers are never mixed, on any page, exactly if** no segment has a match,
or every segment with an OR answer has one. -/
theorem fallback_only_when_empty_iff
    (hm : m.executor = x.executor round columnFilter aggregateCounts)
    (hquery : request.query.isEmpty = false) (hwithin : x.analysis.Within)
    (hboost : PositiveBoosts x.schema) {segments : List (List Document × Bitmap)}
    (hlen : ∀ s ∈ segments, s.1.length ≤ u32Max) (hmulti : (x.queryTokens request).length > 1) :
    (∀ offset limit,
      x.FallbackOnlyWhenEmpty m (readers segments) { request with offset, limit }) ↔
    (∀ s ∈ segments, x.matchingIn m (.ofDocs s.1 s.2) request = []) ∨
    ∀ s ∈ segments, x.HasOrAnswer m s request →
      x.matchingIn m (.ofDocs s.1 s.2) request ≠ [] := by
  constructor
  · intro honly
    by_contra hnot
    obtain ⟨hmatch, hor⟩ := not_or.mp hnot
    push Not at hmatch hor
    have hquery' : ({ request with offset := 0, limit := (segments.map (fun s =>
        s.1.length)).sum } : SearchRequest).query.isEmpty = false := hquery
    exact not_fallbackOnlyWhenEmpty hm hquery' hwithin hboost hlen hmulti rfl le_rfl hmatch hor
      (honly _ _)
  · rintro (hnone | hor) offset limit
    · intro _ _ _ _ _ _ reader hreader
      obtain ⟨s, hs, rfl⟩ := List.mem_map.mp hreader
      exact hnone s hs
    · have hquery' : ({ request with offset, limit } : SearchRequest).query.isEmpty = false :=
        hquery
      exact fallbackOnlyWhenEmpty_of hm hquery' hwithin hboost hlen hmulti hor

end

/-! ## 4. Two documents in two segments -/

/-- A searcher for numbers. -/
noncomputable def plainSearcher : MultiSegmentSearcher where
  executor := plain.executor (fun _ => F32.one) (fun _ _ _ => ∅) (fun _ _ _ => [])
  sortUnstable := .stable
  bucketOrder _ := .keep

theorem executor_plainSearcher : plainSearcher.executor
    = plain.executor (fun _ => F32.one) (fun _ _ _ => ∅) (fun _ _ _ => []) := rfl

/-- Two documents, flushed one by one. -/
def twoSegments : List (List Document × Bitmap) :=
  [([titled 1 "1 2"], ∅), ([titled 2 "1"], ∅)]

theorem matchingIn_first : plain.matchingIn plainSearcher (.ofDocs [titled 1 "1 2"] ∅)
    { query := "1 2" } = [0] := by
  have h : plain.matching (.ofDocs [titled 1 "1 2"] ∅) { query := "1 2" } none = [0] := by decide
  exact h

theorem matchingIn_second : plain.matchingIn plainSearcher (.ofDocs [titled 2 "1"] ∅)
    { query := "1 2" } = [] := by
  have h : plain.matching (.ofDocs [titled 2 "1"] ∅) { query := "1 2" } none = [] := by decide
  exact h

/-- **The query "1 2" returns the document "1"**, which does not match, although the document in
the other segment does. -/
theorem mixed_one_two :
    (plain.queryTokens { query := "1 2" }).length > 1 ∧
    ¬ plain.FallbackOnlyWhenEmpty plainSearcher (readers twoSegments) { query := "1 2" } := by
  have hor : plain.HasOrAnswer plainSearcher ([titled 2 "1"], ∅) { query := "1 2" } := by
    refine ⟨0, rfl, ⟨"1", ?_, ?_, ?_⟩, titled 2 "1", rfl, "1", ?_, "1", ?_, ?_⟩ <;> decide
  refine ⟨by decide, not_fallbackOnlyWhenEmpty executor_plainSearcher (by decide)
    within_plainAnalysis
    positiveBoosts_defaultProductSchema (by decide) (by decide) rfl (by decide)
    ⟨([titled 1 "1 2"], ∅), List.mem_cons_self, ?_⟩
    ⟨([titled 2 "1"], ∅), List.mem_cons_of_mem _ List.mem_cons_self, hor, matchingIn_second⟩⟩
  rw [matchingIn_first]
  exact List.cons_ne_nil 0 []

/-- In one segment, the query returns the document "1 2" only. -/
theorem not_mixed_one_segment :
    (∀ offset limit, plain.FallbackOnlyWhenEmpty plainSearcher
      (readers [([titled 1 "1 2"], ∅)]) { query := "1 2", offset, limit }) ↔
    (∀ s ∈ [(([titled 1 "1 2"], ∅) : List Document × Bitmap)],
      plain.matchingIn plainSearcher (.ofDocs s.1 s.2) { query := "1 2" } = []) ∨
    ∀ s ∈ [(([titled 1 "1 2"], ∅) : List Document × Bitmap)],
      plain.HasOrAnswer plainSearcher s { query := "1 2" } →
        plain.matchingIn plainSearcher (.ofDocs s.1 s.2) { query := "1 2" } ≠ [] := by
  have hquery : ({ query := "1 2" } : SearchRequest).query.isEmpty = false := by decide
  have hlen : ∀ s ∈ [(([titled 1 "1 2"], ∅) : List Document × Bitmap)], s.1.length ≤ u32Max := by
    decide
  have hmulti : (plain.queryTokens { query := "1 2" }).length > 1 := by decide
  exact fallback_only_when_empty_iff executor_plainSearcher hquery within_plainAnalysis
    positiveBoosts_defaultProductSchema hlen hmulti

end TextExecutor

end ZearchEngine
