/-
# Totals and facets of queries

`QueryExecutor::execute` counts what it has retrieved: `total_hits` is the length of the list of
scored documents, and the facets are counted over the same documents
(`crates/query/src/executor.rs`).  Retrieval returns at most `k` documents for a query, and at
most `k` for each token of a query that falls back to OR, where `k` is at least 200 and depends
on the page that is asked for.

So totals and facets are those of all matching documents, on every page, where 200 are enough
(`mem_localIds_of_retrieved`), and only there, unless a document is found by two tokens of a
fallback (`totals_of_all_pages_iff`).  With one document more, the last page has another total
than the first (`not_same_totals`).
-/
import ZearchEngine.Facets
import ZearchEngine.FallbackReach
import ZearchEngine.PostingCodec

namespace ZearchEngine

/-! ## 1. The documents of a segment with a property -/

namespace SegmentReader

/-- Where the live documents with a property are. -/
def places (reader : SegmentReader) (P : Document → Prop) [DecidablePred P] : List LocalDocId :=
  reader.allLiveDocs.filter (fun i => (reader.getDoc i).any (fun doc => P doc))

variable {docs : List Document} {del : Bitmap} {P : Document → Prop} [DecidablePred P]

/-- A document that can be read is the one that was written there. -/
theorem getElem?_of_getDoc {i : LocalDocId} {doc : Document}
    (h : (ofDocs docs del).getDoc i = some doc) : docs[i]? = some doc := by
  rw [getDoc_ofDocs] at h
  split at h
  · cases h
  · exact h

theorem mem_places {i : LocalDocId} : i ∈ (ofDocs docs del).places P ↔
    ∃ doc, (ofDocs docs del).getDoc i = some doc ∧ P doc := by
  rw [places, List.mem_filter, Option.any_eq_true]
  constructor
  · rintro ⟨-, doc, hget, hP⟩
    exact ⟨doc, hget, of_decide_eq_true hP⟩
  · rintro ⟨doc, hget, hP⟩
    exact ⟨TextExecutor.mem_allLiveDocs_of_getDoc hget, doc, hget, decide_eq_true hP⟩

theorem nodup_places : ((ofDocs docs del).places P).Nodup :=
  (nodup_allLiveDocs _).filter _

/-- There are as many as there are such documents. -/
theorem countP_places (q : Document → Bool) :
    ((ofDocs docs del).places P).countP (fun i => docs[i]?.any q)
      = (((ofDocs docs del).liveDocuments.filter (fun doc => P doc)).filter q).length := by
  rw [← filterMap_allLiveDocs, List.filter_filter, List.filter_filterMap,
    List.length_filterMap_eq_countP, places, List.countP_filter]
  refine List.countP_congr (fun i hi => ?_)
  obtain ⟨doc, hget⟩ := TextExecutor.exists_getDoc_of_mem_allLiveDocs hi
  have hdoc : docs[i]? = some doc := getElem?_of_getDoc hget
  by_cases hP : P doc <;> by_cases hq : q doc <;> simp [hget, hdoc, hP, hq, Option.filter]

theorem length_places : ((ofDocs docs del).places P).length
    = ((ofDocs docs del).liveDocuments.filter (fun doc => P doc)).length := by
  have hall : ((ofDocs docs del).places P).countP (fun i => docs[i]?.any fun _ => true)
      = (((ofDocs docs del).liveDocuments.filter (fun doc => P doc)).filter
          (fun _ => true)).length := countP_places _
  rw [List.filter_true] at hall
  rw [← hall, eq_comm, List.countP_eq_length]
  intro i hi
  obtain ⟨doc, hget, -⟩ := mem_places.mp hi
  rw [getElem?_of_getDoc hget]
  rfl

end SegmentReader

namespace TextExecutor

/-! ## 2. What is counted -/

/-- The document answers the request: it passes the filters, and it is found by all tokens of the
query, or, where no live document is, and the query has several tokens, by some. -/
def Answers (x : TextExecutor) (docs live : List Document) (request : SearchRequest)
    (doc : Document) : Prop :=
  request.passes x.schema doc = true ∧
  (request.query.isEmpty = true ∨
    x.queryTokens request ≠ [] ∧
      (x.Matches docs request doc ∨
        (∀ d ∈ live, ¬ x.Matches docs request d) ∧ 1 < (x.queryTokens request).length ∧
          ∃ token ∈ x.queryTokens request, x.Found docs request token doc))

instance (x : TextExecutor) (docs live : List Document) (request : SearchRequest) :
    DecidablePred (x.Answers docs live request) := fun _ => inferInstanceAs (Decidable (_ ∧ _))

/-- The live documents of a segment that answer the request. -/
def answers (x : TextExecutor) (docs : List Document) (del : Bitmap) (request : SearchRequest) :
    List Document :=
  let live := (SegmentReader.ofDocs docs del).liveDocuments
  live.filter (fun doc => x.Answers docs live request doc)

/-- The token is in no more documents than there are, by the count of its expansion. -/
def Rare (x : TextExecutor) (reader : SegmentReader) (request : SearchRequest) (token : String) :
    Prop :=
  x.totalDf reader request token ≤ reader.allLiveDocs.length

noncomputable instance (x : TextExecutor) (reader : SegmentReader) (request : SearchRequest) :
    DecidablePred (x.Rare reader request) := fun _ => inferInstanceAs (Decidable (_ ≤ _))

/-- `k` candidates are enough for a segment. -/
structure Retrieved (x : TextExecutor) (docs : List Document) (del : Bitmap)
    (request : SearchRequest) (k : Nat) : Prop where
  /-- There are no more matching documents, and some token is rare. -/
  matching : (∃ doc ∈ (SegmentReader.ofDocs docs del).liveDocuments, x.Matches docs request doc) →
    (∃ token ∈ x.queryTokens request, x.Rare (.ofDocs docs del) request token) ∧
      ((SegmentReader.ofDocs docs del).liveDocuments.filter
        (fun doc => x.Matches docs request doc)).length ≤ k
  /-- Where none matches, every document that is found has a prefix match, and is found by a rare
  token that has no more of these. -/
  fallback : (∀ doc ∈ (SegmentReader.ofDocs docs del).liveDocuments, ¬ x.Matches docs request doc) →
    1 < (x.queryTokens request).length →
    ∀ doc ∈ (SegmentReader.ofDocs docs del).liveDocuments, request.passes x.schema doc = true →
      (∃ token ∈ x.queryTokens request, x.Found docs request token doc) →
      x.HasPrefix request doc ∧
      ∃ token ∈ x.queryTokens request, x.Found docs request token doc ∧
        x.Rare (.ofDocs docs del) request token ∧
        ((SegmentReader.ofDocs docs del).liveDocuments.filter
          (fun d => x.MatchesSome request d ∧ x.Found docs request token d)).length ≤ k

/-- Where no document matches, none that passes the filters is found by two tokens. -/
def FoundOnce (x : TextExecutor) (docs : List Document) (del : Bitmap) (request : SearchRequest) :
    Prop :=
  (∀ doc ∈ (SegmentReader.ofDocs docs del).liveDocuments, ¬ x.Matches docs request doc) →
    ∀ doc ∈ (SegmentReader.ofDocs docs del).liveDocuments, request.passes x.schema doc = true →
      ∀ token ∈ x.queryTokens request, ∀ token' ∈ x.queryTokens request,
        x.Found docs request token doc → x.Found docs request token' doc → token = token'

section

variable {x : TextExecutor} {round : ℝ → F32} {request : SearchRequest} {docs : List Document}
  {del : Bitmap} {ord : Nat}

/-! ## 3. What a segment returns is an answer -/

theorem localIds_of_isEmpty {reader : SegmentReader} (hquery : request.query.isEmpty = true) :
    x.localIds round reader ord request = (x.columnExecutor round).matching reader request := by
  simp only [localIds, QueryExecutor.execute, hquery, if_true, List.map_map]
  exact List.map_id _

/-- Without a query, they are those that pass the filters. -/
theorem mem_localIds_of_isEmpty (hquery : request.query.isEmpty = true) {i : LocalDocId} :
    i ∈ x.localIds round (.ofDocs docs del) ord request ↔
      i ∈ (SegmentReader.ofDocs docs del).places
        (x.Answers docs (SegmentReader.ofDocs docs del).liveDocuments request) := by
  rw [localIds_of_isEmpty hquery, columnExecutor, matching_withColumns, SegmentReader.mem_places,
    List.mem_filter]
  constructor
  · rintro ⟨hlive, hany⟩
    obtain ⟨doc, hget⟩ := exists_getDoc_of_mem_allLiveDocs hlive
    have hpass : request.passes x.schema doc = true := by
      rw [SegmentReader.getElem?_of_getDoc hget] at hany
      exact hany
    exact ⟨doc, hget, hpass, Or.inl hquery⟩
  · rintro ⟨doc, hget, hpass, -⟩
    rw [SegmentReader.getElem?_of_getDoc hget]
    exact ⟨mem_allLiveDocs_of_getDoc hget, hpass⟩

/-- A query without tokens returns nothing. -/
theorem localIds_of_no_tokens (hquery : request.query.isEmpty = false)
    (hnone : x.queryTokens request = []) :
    x.localIds round (.ofDocs docs del) ord request = [] := by
  rw [localIds_of_query hquery]
  simp [scoreQuery, scoreQueryWand, hnone]

/-- **Everything a segment returns is an answer.** -/
theorem mem_places_of_mem_localIds (hwithin : x.analysis.Within) (hboost : PositiveBoosts x.schema)
    (hlen : docs.length ≤ u32Max) {i : LocalDocId}
    (hi : i ∈ x.localIds round (.ofDocs docs del) ord request) :
    i ∈ (SegmentReader.ofDocs docs del).places
      (x.Answers docs (SegmentReader.ofDocs docs del).liveDocuments request) := by
  cases hquery : request.query.isEmpty with
  | true => exact (mem_localIds_of_isEmpty hquery).mp hi
  | false =>
    by_cases hne : x.queryTokens request = []
    · rw [localIds_of_no_tokens hquery hne] at hi
      exact absurd hi List.not_mem_nil
    · rw [localIds_of_query hquery] at hi
      by_cases hnone : x.matching (.ofDocs docs del) request
          (x.columnFilter round (.ofDocs docs del) request) = []
      · by_cases hmulti : (x.queryTokens request).length > 1
        · rw [scoreQuery_eq_fallback hwithin hlen hmulti hnone] at hi
          obtain ⟨hpass, ⟨token, ht, hmem, -⟩, doc, hget, -⟩ :=
            orAnswer_of_mem_scoreQueryOrFallback hwithin hboost hlen (totalDocs_compute _ _) hi
          refine SegmentReader.mem_places.mpr ⟨doc, hget, (passes_columnFilter hget).mp hpass,
            Or.inr ⟨hne, Or.inr ⟨(matching_eq_nil_iff hwithin hne).mp hnone, hmulti, token, ht,
              (mem_mergedDocs_of_getDoc hget).mp hmem⟩⟩⟩
        · rw [scoreQuery, scoreQueryWand_eq_nil hwithin hlen hnone] at hi
          simp [hmulti] at hi
      · obtain ⟨hit, hhit, rfl⟩ := List.mem_map.mp hi
        have hmem := mem_matching_of_mem_scoreQuery hwithin hboost hlen (totalDocs_compute _ _)
          hne hnone hhit
        obtain ⟨doc, hget, hmatch⟩ := (mem_matching_iff_matches hwithin hne).mp hmem
        exact SegmentReader.mem_places.mpr
          ⟨doc, hget, hmatch.1, Or.inr ⟨hne, Or.inl hmatch⟩⟩

/-- No document is returned twice. -/
theorem nodup_localIds (hwithin : x.analysis.Within) (hlen : docs.length ≤ u32Max) :
    (x.localIds round (.ofDocs docs del) ord request).Nodup := by
  cases hquery : request.query.isEmpty with
  | true =>
    rw [localIds_of_isEmpty hquery, columnExecutor, matching_withColumns]
    exact (SegmentReader.nodup_allLiveDocs _).filter _
  | false =>
    rw [localIds_of_query hquery]
    exact nodup_scoreQuery hwithin hlen

/-! ## 4. Where the candidates are enough -/

/-- The matching ids of a segment are those of its matching documents. -/
theorem length_matching_eq (round : ℝ → F32) (hwithin : x.analysis.Within)
    (hne : x.queryTokens request ≠ []) :
    (x.matching (.ofDocs docs del) request
        (x.columnFilter round (.ofDocs docs del) request)).length
      = ((SegmentReader.ofDocs docs del).liveDocuments.filter
          (fun doc => x.Matches docs request doc)).length := by
  rw [← SegmentReader.length_places]
  refine ((List.perm_ext_iff_of_nodup nodup_matching SegmentReader.nodup_places).mpr
    fun i => ?_).length_eq
  exact (mem_matching_iff_matches hwithin hne).trans SegmentReader.mem_places.symm

theorem mem_tokenMatches_iff (hboost : PositiveBoosts x.schema) {token : String}
    {i : LocalDocId} :
    i ∈ x.tokenMatches (.ofDocs docs del) request
        (x.columnFilter round (.ofDocs docs del) request) token ↔
      i ∈ (SegmentReader.ofDocs docs del).places
        (fun doc => x.MatchesSome request doc ∧ x.Found docs request token doc) := by
  rw [tokenMatches, List.mem_filter, Bool.and_eq_true, decide_eq_true_iff,
    isSome_scoreFnOr_iff hboost (totalDocs_compute x _), SegmentReader.mem_places]
  constructor
  · rintro ⟨-, hmem, hpass, doc, hget, hstart⟩
    exact ⟨doc, hget, ⟨(passes_columnFilter hget).mp hpass, hstart⟩,
      (mem_mergedDocs_of_getDoc hget).mp hmem⟩
  · rintro ⟨doc, hget, ⟨hpass, hstart⟩, hfound⟩
    exact ⟨mem_allLiveDocs_of_getDoc hget, (mem_mergedDocs_of_getDoc hget).mpr hfound,
      (passes_columnFilter hget).mpr hpass, doc, hget, hstart⟩

/-- What OR retrieval scores for a token, as documents. -/
theorem length_tokenMatches_eq (hboost : PositiveBoosts x.schema) (token : String) :
    (x.tokenMatches (.ofDocs docs del) request
        (x.columnFilter round (.ofDocs docs del) request) token).length
      = ((SegmentReader.ofDocs docs del).liveDocuments.filter (fun doc =>
          x.MatchesSome request doc ∧ x.Found docs request token doc)).length := by
  rw [← SegmentReader.length_places]
  refine ((List.perm_ext_iff_of_nodup nodup_tokenMatches SegmentReader.nodup_places).mpr
    fun i => ?_).length_eq
  exact mem_tokenMatches_iff hboost

/-- AND retrieval of a rare token with room for all. -/
theorem mem_scoreQuery_of_matches (hwithin : x.analysis.Within) (hboost : PositiveBoosts x.schema)
    (hlen : docs.length ≤ u32Max) (hne : x.queryTokens request ≠ [])
    (hrare : ∃ token ∈ x.queryTokens request, x.Rare (.ofDocs docs del) request token)
    {filter : Option Bitmap}
    (hroom : (x.matching (.ofDocs docs del) request filter).length ≤ candidateCount request)
    {i : LocalDocId} (hi : i ∈ x.matching (.ofDocs docs del) request filter) :
    i ∈ (x.scoreQuery (.ofDocs docs del)
      (.compute x.schema x.analysis (.ofDocs docs del)) request filter).1.map Prod.fst := by
  obtain ⟨-, hmem⟩ := (mem_matching hwithin hne).mp hi
  have hand := (map_fst_scoreQueryWand_perm hwithin hboost hlen
    (fun t ht => rawLists_ne_nil_of_mem (hmem t ht)) hrare hroom).mem_iff.mpr hi
  have hsome : x.scoreQueryWand (.ofDocs docs del)
      (.compute x.schema x.analysis (.ofDocs docs del)) request filter ≠ [] := by
    intro hnil
    rw [hnil] at hand
    exact List.not_mem_nil hand
  rw [scoreQuery]
  simpa [hsome] using hand

/-- **Where the candidates are enough**, every answer is returned. -/
theorem mem_localIds_of_retrieved (hwithin : x.analysis.Within) (hboost : PositiveBoosts x.schema)
    (hlen : docs.length ≤ u32Max) {k : Nat} (hk : k ≤ candidateCount request)
    (h : request.query.isEmpty = true ∨ x.queryTokens request = [] ∨
      x.Retrieved docs del request k)
    {i : LocalDocId} (hi : i ∈ (SegmentReader.ofDocs docs del).places
      (x.Answers docs (SegmentReader.ofDocs docs del).liveDocuments request)) :
    i ∈ x.localIds round (.ofDocs docs del) ord request := by
  cases hquery : request.query.isEmpty with
  | true => exact (mem_localIds_of_isEmpty hquery).mpr hi
  | false =>
    obtain ⟨doc, hget, hpass, hanswer⟩ := SegmentReader.mem_places.mp hi
    obtain ⟨hne, hanswer⟩ := hanswer.resolve_left (by simp [hquery])
    have hretrieved := (h.resolve_left (by simp [hquery])).resolve_left hne
    rw [localIds_of_query hquery]
    have hlive := SegmentReader.mem_liveDocuments_of_getDoc hget
    rcases hanswer with hmatch | ⟨hnone, hmulti, hfound⟩
    · obtain ⟨hrare, hroom⟩ := hretrieved.matching ⟨doc, hlive, hmatch⟩
      refine mem_scoreQuery_of_matches hwithin hboost hlen hne hrare ?_
        ((mem_matching_iff_matches hwithin hne).mpr ⟨doc, hget, hmatch⟩)
      rw [length_matching_eq round hwithin hne]
      exact hroom.trans hk
    · obtain ⟨hstart, token, ht, hfound, hrare, hroom⟩ :=
        hretrieved.fallback hnone hmulti doc hlive hpass hfound
      rw [scoreQuery_eq_fallback hwithin hlen hmulti ((matching_eq_nil_iff hwithin hne).mpr hnone),
        mem_scoreQueryOrFallback hwithin hlen]
      refine ⟨token, ht, (mem_tokenResults_iff hwithin hboost hlen
        ((Bm25Scorer.idf_pos_iff _ _).mpr hrare) ?_).mpr
        ⟨(mem_mergedDocs_of_getDoc hget).mpr hfound, ?_⟩⟩
      · rw [length_tokenMatches_eq hboost]
        exact hroom.trans hk
      · exact (isSome_scoreFnOr_iff hboost (totalDocs_compute x _)).mpr
          ⟨(passes_columnFilter hget).mpr hpass, doc, hget, hstart⟩

/-! ## 5. Where they are not -/

/-- WAND returns no more documents than it has room for. -/
theorem length_runWand_le {tokens : List String} (hwithin : x.analysis.Within)
    (hlen : docs.length ≤ u32Max) (hne : tokens ≠ []) {stats : SegmentStatistics}
    {scoreFn : LocalDocId → Option ℝ} :
    (x.runWand request (tokens.map (x.cursor (.ofDocs docs del) stats request)) scoreFn).length
      ≤ candidateCount request := by
  have hready : Ready (tokens.map (x.cursor (.ofDocs docs del) stats request)) :=
    ready_cursors hwithin hlen hne
  have hbound : ∃ hits : List (LocalDocId × ℝ), hits.length ≤ candidateCount request ∧
      ∀ fuel, size (tokens.map (x.cursor (.ofDocs docs del) stats request)) < fuel →
        wandTopK fuel (tokens.map (x.cursor (.ofDocs docs del) stats request))
          (candidateCount request) x.titleBoost x.descBoost scoreFn = some hits :=
    wandTopK_length_le hready (one_le_candidateCount request)
  obtain ⟨hits, hle, hrun⟩ := hbound
  rw [runWand, hrun _ (Nat.lt_succ_self _)]
  exact hle

theorem length_scoreQueryWand_le (hwithin : x.analysis.Within) (hlen : docs.length ≤ u32Max)
    {stats : SegmentStatistics} {filter : Option Bitmap} :
    (x.scoreQueryWand (.ofDocs docs del) stats request filter).length
      ≤ candidateCount request := by
  rw [scoreQueryWand, cursors_eq]
  by_cases hempty : (x.queryTokens request).isEmpty = true
  · simp [hempty]
  · have hne : x.queryTokens request ≠ [] := by simpa using hempty
    rw [if_neg hempty]
    split
    · exact Nat.zero_le _
    · next cursors hcursors =>
      split at hcursors
      · obtain rfl := Option.some.inj hcursors
        exact (List.length_filter_le _ _).trans (length_runWand_le hwithin hlen hne)
      · cases hcursors

theorem length_tokenResults_le (hwithin : x.analysis.Within) (hlen : docs.length ≤ u32Max)
    {stats : SegmentStatistics} {filter : Option Bitmap} (token : String) :
    (x.tokenResults (.ofDocs docs del) stats request filter token).length
      ≤ candidateCount request := by
  rw [tokenResults]
  split
  · exact Nat.zero_le _
  · exact length_runWand_le hwithin hlen (List.cons_ne_nil token [])

/-- Without a fallback, a segment returns no more than it has room for. -/
theorem length_localIds_le (hwithin : x.analysis.Within) (hlen : docs.length ≤ u32Max)
    (hquery : request.query.isEmpty = false) (hone : (x.queryTokens request).length ≤ 1) :
    (x.localIds round (.ofDocs docs del) ord request).length ≤ candidateCount request := by
  rw [localIds_of_query hquery, List.length_map, scoreQuery,
    if_neg (by simp [Nat.not_lt.mpr hone])]
  exact length_scoreQueryWand_le hwithin hlen

/-- Nothing is returned without a rare token. -/
theorem exists_rare_of_mem_scoreQuery (hwithin : x.analysis.Within)
    (hboost : PositiveBoosts x.schema) (hlen : docs.length ≤ u32Max)
    (hne : x.queryTokens request ≠ []) {filter : Option Bitmap} {i : LocalDocId}
    (hi : i ∈ (x.scoreQuery (.ofDocs docs del)
      (.compute x.schema x.analysis (.ofDocs docs del)) request filter).1.map Prod.fst) :
    ∃ token ∈ x.queryTokens request, x.Rare (.ofDocs docs del) request token := by
  rw [scoreQuery] at hi
  split at hi
  · obtain ⟨-, ⟨token, ht, -, hdf⟩, -⟩ :=
      orAnswer_of_mem_scoreQueryOrFallback hwithin hboost hlen (totalDocs_compute _ _) hi
    exact ⟨token, ht, hdf⟩
  · obtain ⟨hit, hhit, rfl⟩ := List.mem_map.mp hi
    by_contra hnone
    obtain ⟨-, hmem⟩ := (mem_matching hwithin hne).mp
      (mem_matching_of_mem_scoreQueryWand hwithin hlen hhit)
    have hfrequent : ∀ token ∈ x.queryTokens request,
        (SegmentStatistics.compute x.schema x.analysis (.ofDocs docs del)).totalDocs
          < x.totalDf (.ofDocs docs del) request token := fun token ht =>
      not_le.mp fun hle => hnone ⟨token, ht, hle⟩
    rw [scoreQueryWand_eq hwithin hlen hne (fun t ht => rawLists_ne_nil_of_mem (hmem t ht)),
      runWand_eq_nil hwithin hboost hlen hne hfrequent] at hhit
    cases hhit

/-- What AND retrieval returns completely, there was room for. -/
theorem length_matching_le (hwithin : x.analysis.Within) (hboost : PositiveBoosts x.schema)
    (hlen : docs.length ≤ u32Max) (hne : x.queryTokens request ≠ []) {filter : Option Bitmap}
    (hrare : ∃ token ∈ x.queryTokens request, x.Rare (.ofDocs docs del) request token)
    (hreturned : ∀ j ∈ x.matching (.ofDocs docs del) request filter,
      j ∈ (x.scoreQuery (.ofDocs docs del) (.compute x.schema x.analysis (.ofDocs docs del))
        request filter).1.map Prod.fst)
    {i : LocalDocId} (hi : i ∈ x.matching (.ofDocs docs del) request filter) :
    (x.matching (.ofDocs docs del) request filter).length ≤ candidateCount request := by
  obtain ⟨hpass, hmem⟩ := (mem_matching hwithin hne).mp hi
  obtain ⟨token, ht⟩ := List.exists_mem_of_ne_nil _ hne
  -- AND retrieval returns something, so all of it comes from there
  have hand : x.scoreQueryWand (.ofDocs docs del)
      (.compute x.schema x.analysis (.ofDocs docs del)) request filter ≠ [] := by
    rw [scoreQueryWand_eq hwithin hlen hne (fun t ht => rawLists_ne_nil_of_mem (hmem t ht))]
    exact runWand_ne_nil hwithin hboost hlen hrare hmem
      (isSome_scoreFn hwithin hboost.text (totalDocs_compute _ _) ht (hmem token ht) hpass)
  rw [scoreQuery_eq_of_ne_nil hand] at hreturned
  calc (x.matching (.ofDocs docs del) request filter).length
      ≤ _ := nodup_matching.length_le_of_subset hreturned
    _ ≤ candidateCount request := by
      rw [List.length_map]
      exact length_scoreQueryWand_le hwithin hlen

/-- What a token returns, it finds; the token is rare, and the document has a prefix match. -/
theorem of_mem_tokenResults (hwithin : x.analysis.Within) (hboost : PositiveBoosts x.schema)
    (hlen : docs.length ≤ u32Max) {filter : Option Bitmap} {token : String} {i : LocalDocId}
    {doc : Document} (hget : (SegmentReader.ofDocs docs del).getDoc i = some doc)
    (hi : i ∈ (x.tokenResults (.ofDocs docs del)
      (.compute x.schema x.analysis (.ofDocs docs del)) request filter token).map Prod.fst) :
    x.Found docs request token doc ∧ x.HasPrefix request doc ∧
      x.Rare (.ofDocs docs del) request token := by
  obtain ⟨hit, hhit, rfl⟩ := List.mem_map.mp hi
  obtain ⟨hmem, hscore⟩ := mem_tokenResults hwithin hlen hhit
  obtain ⟨-, doc', hget', hstart⟩ := (isSome_scoreFnOr_iff hboost (totalDocs_compute _ _)).mp
    (by rw [hscore]; rfl)
  obtain rfl := Option.some.inj (hget.symm.trans hget')
  refine ⟨(mem_mergedDocs_of_getDoc hget).mp hmem, hstart, ?_⟩
  by_contra hnot
  have hfrequent : (SegmentReader.ofDocs docs del).allLiveDocs.length
      < x.totalDf (.ofDocs docs del) request token := not_le.mp hnot
  rw [tokenResults_eq_nil hwithin hboost hlen hfrequent] at hhit
  cases hhit

/-- What one token finds, and no other one, there was room for if all of it is returned. -/
theorem length_found_le (hwithin : x.analysis.Within) (hboost : PositiveBoosts x.schema)
    (hlen : docs.length ≤ u32Max) {filter : Option Bitmap} {token : String}
    (hreturned : ∀ j doc, (SegmentReader.ofDocs docs del).getDoc j = some doc →
      request.passes x.schema doc = true → x.Found docs request token doc →
      ∃ token' ∈ x.queryTokens request, j ∈ (x.tokenResults (.ofDocs docs del)
        (.compute x.schema x.analysis (.ofDocs docs del)) request filter token').map Prod.fst)
    (honce : ∀ doc ∈ (SegmentReader.ofDocs docs del).liveDocuments,
      request.passes x.schema doc = true → ∀ token' ∈ x.queryTokens request,
        x.Found docs request token doc → x.Found docs request token' doc → token = token') :
    ((SegmentReader.ofDocs docs del).liveDocuments.filter
      (fun doc => x.MatchesSome request doc ∧ x.Found docs request token doc)).length
      ≤ candidateCount request := by
  have hsub : (SegmentReader.ofDocs docs del).places
      (fun doc => x.MatchesSome request doc ∧ x.Found docs request token doc)
      ⊆ (x.tokenResults (.ofDocs docs del)
        (.compute x.schema x.analysis (.ofDocs docs del)) request filter token).map Prod.fst := by
    intro j hj
    obtain ⟨doc, hget, ⟨hpass, -⟩, hfound⟩ := SegmentReader.mem_places.mp hj
    obtain ⟨token', ht', hj'⟩ := hreturned j doc hget hpass hfound
    obtain ⟨hfound', -⟩ := of_mem_tokenResults hwithin hboost hlen hget hj'
    have hlive := SegmentReader.mem_liveDocuments_of_getDoc hget
    rwa [honce doc hlive hpass token' ht' hfound hfound']
  rw [← SegmentReader.length_places]
  calc ((SegmentReader.ofDocs docs del).places
        (fun doc => x.MatchesSome request doc ∧ x.Found docs request token doc)).length
      ≤ _ := SegmentReader.nodup_places.length_le_of_subset hsub
    _ ≤ candidateCount request := by
      rw [List.length_map]
      exact length_tokenResults_le hwithin hlen token

/-- **Where every answer is returned**, the candidates are enough. -/
theorem retrieved_of_complete (hwithin : x.analysis.Within) (hboost : PositiveBoosts x.schema)
    (hlen : docs.length ≤ u32Max) (hquery : request.query.isEmpty = false)
    (hne : x.queryTokens request ≠ [])
    (honce : x.FoundOnce docs del request)
    (hall : ∀ i ∈ (SegmentReader.ofDocs docs del).places
      (x.Answers docs (SegmentReader.ofDocs docs del).liveDocuments request),
      i ∈ x.localIds round (.ofDocs docs del) ord request) :
    x.Retrieved docs del request (candidateCount request) where
  matching := by
    rintro ⟨doc, hlive, hmatch⟩
    obtain ⟨i, hget⟩ := SegmentReader.mem_liveDocuments_iff.mp hlive
    have hlocal : x.localIds round (.ofDocs docs del) ord request = _ := localIds_of_query hquery
    have hreturned : ∀ j ∈ x.matching (.ofDocs docs del) request
        (x.columnFilter round (.ofDocs docs del) request),
        j ∈ (x.scoreQuery (.ofDocs docs del) (.compute x.schema x.analysis (.ofDocs docs del))
          request (x.columnFilter round (.ofDocs docs del) request)).1.map Prod.fst := by
      intro j hj
      obtain ⟨d, hd, hmatch⟩ := (mem_matching_iff_matches hwithin hne).mp hj
      rw [← hlocal]
      exact hall j (SegmentReader.mem_places.mpr
        ⟨d, hd, hmatch.1, Or.inr ⟨hne, Or.inl hmatch⟩⟩)
    have hi : i ∈ x.matching (.ofDocs docs del) request
        (x.columnFilter round (.ofDocs docs del) request) :=
      (mem_matching_iff_matches hwithin hne).mpr ⟨doc, hget, hmatch⟩
    have hrare := exists_rare_of_mem_scoreQuery hwithin hboost hlen hne (hreturned i hi)
    refine ⟨hrare, ?_⟩
    rw [← length_matching_eq round hwithin hne]
    exact length_matching_le hwithin hboost hlen hne hrare hreturned hi
  fallback := by
    intro hnone hmulti
    have hreturned : ∀ j doc, (SegmentReader.ofDocs docs del).getDoc j = some doc →
        request.passes x.schema doc = true →
        ∀ token ∈ x.queryTokens request, x.Found docs request token doc →
        ∃ token ∈ x.queryTokens request, j ∈ (x.tokenResults (.ofDocs docs del)
          (.compute x.schema x.analysis (.ofDocs docs del)) request
          (x.columnFilter round (.ofDocs docs del) request) token).map Prod.fst := by
      intro j doc hget hpass token ht hfound
      have hj := hall j (SegmentReader.mem_places.mpr
        ⟨doc, hget, hpass, Or.inr ⟨hne, Or.inr ⟨hnone, hmulti, token, ht, hfound⟩⟩⟩)
      rwa [localIds_of_query hquery, scoreQuery_eq_fallback hwithin hlen hmulti
        ((matching_eq_nil_iff hwithin hne).mpr hnone), mem_scoreQueryOrFallback hwithin hlen] at hj
    rintro doc hlive hpass ⟨token, ht, hfound⟩
    obtain ⟨i, hget⟩ := SegmentReader.mem_liveDocuments_iff.mp hlive
    obtain ⟨token, ht, hi⟩ := hreturned i doc hget hpass token ht hfound
    obtain ⟨hfound, hstart, hrare⟩ := of_mem_tokenResults hwithin hboost hlen hget hi
    refine ⟨hstart, token, ht, hfound, hrare, ?_⟩
    exact length_found_le hwithin hboost hlen
      (fun j d hd hpass => hreturned j d hd hpass token ht)
      (fun d hd hpass token' ht' => honce hnone d hd hpass token ht token' ht')

/-- With at most two tokens, a document that both find matches. -/
theorem foundOnce_of_length_le (h : (x.queryTokens request).length ≤ 2) :
    x.FoundOnce docs del request := by
  intro hnone doc hlive hpass token ht token' ht' hfound hfound'
  by_contra hne
  refine hnone doc hlive ⟨hpass, fun t htoken => ?_⟩
  have hsub : [token, token'] ⊆ x.queryTokens request := by
    simp [ht, ht']
  have hnodup : [token, token'].Nodup := by simpa using hne
  have hperm : [token, token'].Perm (x.queryTokens request) :=
    (hnodup.subperm hsub).perm_of_length_le h
  rcases List.mem_pair.mp (hperm.mem_iff.mpr htoken) with rfl | rfl
  · exact hfound
  · exact hfound'

/-! ## 6. All segments, on every page -/

/-- The response counts the documents that answer the request: all of them, and those that hold a
value. -/
def CountsAnswers (x : TextExecutor) (segments : List (List Document × Bitmap))
    (request : SearchRequest) (response : SearchResponse) : Prop :=
  response.totalHits = (segments.map (fun s => (x.answers s.1 s.2 request).length)).sum ∧
  ∀ field ∈ request.aggregations, ∀ value, facetCount response.aggregations field value
    = (segments.map (fun s =>
        ((x.answers s.1 s.2 request).filter (holdsValue x.schema field value)).length)).sum

/-- Two responses count the same. -/
def SameCounts (request : SearchRequest) (response response' : SearchResponse) : Prop :=
  response.totalHits = response'.totalHits ∧
  ∀ field ∈ request.aggregations, ∀ value, facetCount response.aggregations field value
    = facetCount response'.aggregations field value

/-- The same request for another page. -/
def onPage (request : SearchRequest) (offset limit : Nat) : SearchRequest :=
  { request with offset, limit }

/-- Totals and facets do not depend on the page, and are those of all answers. -/
def TotalsOfAllPages (x : TextExecutor) (m : MultiSegmentSearcher)
    (segments : List (List Document × Bitmap)) (request : SearchRequest) : Prop :=
  ∀ offset limit offset' limit' : Nat,
    SameCounts request (m.search (readers segments) (onPage request offset limit))
      (m.search (readers segments) (onPage request offset' limit')) ∧
    x.CountsAnswers segments request (m.search (readers segments) (onPage request offset limit))

/-- 200 candidates are enough for all segments, or no query is retrieved. -/
def AllRetrieved (x : TextExecutor) (segments : List (List Document × Bitmap))
    (request : SearchRequest) : Prop :=
  request.query.isEmpty = true ∨ x.queryTokens request = [] ∨
    ∀ s ∈ segments, x.Retrieved s.1 s.2 request 200

/-- Every segment returns all its answers. -/
def AllReturned (x : TextExecutor) (round : ℝ → F32) (segments : List (List Document × Bitmap))
    (request : SearchRequest) : Prop :=
  ∀ e ∈ segments.zipIdx, ∀ i ∈ (SegmentReader.ofDocs e.1.1 e.1.2).places
    (x.Answers e.1.1 (SegmentReader.ofDocs e.1.1 e.1.2).liveDocuments request),
    i ∈ x.localIds round (.ofDocs e.1.1 e.1.2) e.2 request

variable {m : MultiSegmentSearcher} {segments : List (List Document × Bitmap)}

theorem totalHits_search_eq (hm : m.executor = x.columnExecutor round) :
    (m.search (readers segments) request).totalHits
      = (segments.zipIdx.map (fun e =>
          (x.localIds round (.ofDocs e.1.1 e.1.2) e.2 request).length)).sum := by
  rw [MultiSegmentSearcher.search]
  simp only [MultiSegmentSearcher.results, readers, List.zipIdx_map, List.map_map, hm]
  refine congrArg List.sum (List.map_congr_left fun e _ => ?_)
  exact (List.length_map _).symm

/-- Where no part is larger than another and the totals are equal, the parts are. -/
theorem eq_of_sum_map_eq {α : Type} {l : List α} {f g : α → Nat} (hle : ∀ a ∈ l, f a ≤ g a)
    (hsum : (l.map f).sum = (l.map g).sum) : ∀ a ∈ l, f a = g a := by
  intro a ha
  by_contra hne
  exact (List.sum_lt_sum f g hle ⟨a, ha, lt_of_le_of_ne (hle a ha) hne⟩).ne hsum

theorem sum_zipIdx (f : List Document × Bitmap → Nat) :
    (segments.zipIdx.map (fun e => f e.1)).sum = (segments.map f).sum := by
  conv_rhs => rw [← List.zipIdx_map_fst 0 segments, List.map_map]
  rfl

/-- What a segment counts for a value, when it returns all its answers. -/
theorem facetCount_execute_of_perm {field : String} (hfield : field ∈ request.aggregations)
    (value : String) (hperm : (x.localIds round (.ofDocs docs del) ord request).Perm
      ((SegmentReader.ofDocs docs del).places
        (x.Answers docs (SegmentReader.ofDocs docs del).liveDocuments request))) :
    facetCount ((x.columnExecutor round).execute (.ofDocs docs del) ord request).aggregations
        field value
      = ((x.answers docs del request).filter (holdsValue x.schema field value)).length := by
  have haggregations : ((x.columnExecutor round).execute (.ofDocs docs del) ord
      request).aggregations = request.aggregations.dedup.map (fun field =>
        (field, (SegmentWriter.columnStore x.schema docs).aggregateCounts field
          (x.localIds round (.ofDocs docs del) ord request).toFinset)) := rfl
  rw [haggregations, facetCount_columns x.schema docs hfield, List.toFinset_eq_of_perm _ _ hperm,
    answers, ← SegmentReader.countP_places, List.countP_eq_length_filter,
    ← List.toFinset_card_of_nodup (SegmentReader.nodup_places.filter _), List.toFinset_filter]

/-- **Where every answer is returned**, all answers are counted. -/
theorem countsAnswers_of_allReturned (hm : m.executor = x.columnExecutor round)
    (hwithin : x.analysis.Within) (hboost : PositiveBoosts x.schema)
    (hlen : ∀ s ∈ segments, s.1.length ≤ u32Max)
    (hall : x.AllReturned round segments request) :
    x.CountsAnswers segments request (m.search (readers segments) request) := by
  have hperm : ∀ e ∈ segments.zipIdx,
      (x.localIds round (.ofDocs e.1.1 e.1.2) e.2 request).Perm
        ((SegmentReader.ofDocs e.1.1 e.1.2).places
          (x.Answers e.1.1 (SegmentReader.ofDocs e.1.1 e.1.2).liveDocuments request)) := by
    intro e he
    have hsize := hlen e.1 (List.fst_mem_of_mem_zipIdx he)
    exact (List.perm_ext_iff_of_nodup (nodup_localIds hwithin hsize)
      SegmentReader.nodup_places).mpr fun i =>
        ⟨mem_places_of_mem_localIds hwithin hboost hsize, hall e he i⟩
  constructor
  · rw [totalHits_search_eq hm, ← sum_zipIdx]
    refine congrArg List.sum (List.map_congr_left fun e he => ?_)
    rw [(hperm e he).length_eq, SegmentReader.length_places]
    rfl
  · intro field hfield value
    have hsearch : (m.search (readers segments) request).aggregations
        = mergeAggregations m.bucketOrder (segments.zipIdx.flatMap fun e =>
            ((x.columnExecutor round).execute (.ofDocs e.1.1 e.1.2) e.2 request).aggregations) := by
      show mergeAggregations m.bucketOrder ((m.results (readers segments) request).flatMap _) = _
      rw [MultiSegmentSearcher.results, readers, List.zipIdx_map, List.flatMap_map,
        List.flatMap_map, hm]
      rfl
    rw [hsearch, facetCount_mergeAggregations, ← sum_zipIdx]
    · refine congrArg List.sum (List.map_congr_left fun e he => ?_)
      exact facetCount_execute_of_perm hfield value (hperm e he)
    · intro e _
      exact tallied_columns x.schema e.1.1 _ _

/-- **Where all answers are counted**, every answer is returned. -/
theorem allReturned_of_totalHits (hm : m.executor = x.columnExecutor round)
    (hwithin : x.analysis.Within) (hboost : PositiveBoosts x.schema)
    (hlen : ∀ s ∈ segments, s.1.length ≤ u32Max)
    (htotal : (m.search (readers segments) request).totalHits
      = (segments.map (fun s => (x.answers s.1 s.2 request).length)).sum) :
    x.AllReturned round segments request := by
  have hsubperm : ∀ e ∈ segments.zipIdx,
      (x.localIds round (.ofDocs e.1.1 e.1.2) e.2 request).Subperm
        ((SegmentReader.ofDocs e.1.1 e.1.2).places
          (x.Answers e.1.1 (SegmentReader.ofDocs e.1.1 e.1.2).liveDocuments request)) := by
    intro e he
    have hsize := hlen e.1 (List.fst_mem_of_mem_zipIdx he)
    exact (nodup_localIds hwithin hsize).subperm fun i hi =>
      mem_places_of_mem_localIds hwithin hboost hsize hi
  have hlength : ∀ e : (List Document × Bitmap) × Nat,
      ((SegmentReader.ofDocs e.1.1 e.1.2).places
        (x.Answers e.1.1 (SegmentReader.ofDocs e.1.1 e.1.2).liveDocuments request)).length
      = (x.answers e.1.1 e.1.2 request).length := fun _ => SegmentReader.length_places
  rw [totalHits_search_eq hm, ← sum_zipIdx] at htotal
  have heq := eq_of_sum_map_eq
    (fun e he => (hsubperm e he).length_le.trans_eq (hlength e)) htotal
  intro e he i hi
  have hperm := (hsubperm e he).perm_of_length_le ((hlength e).trans (heq e he).symm).le
  exact hperm.mem_iff.mpr hi

/-- **Totals and facets of all pages.**  They do not depend on the page, and are those of all
matching live documents, where 200 candidates are enough for every segment; and only there, if no
document that a fallback could return is found by two tokens. -/
theorem totals_of_all_pages_iff (m : MultiSegmentSearcher)
    (segments : List (List Document × Bitmap)) (request : SearchRequest)
    (hm : m.executor = x.columnExecutor round) (hwithin : x.analysis.Within)
    (hboost : PositiveBoosts x.schema) (hlen : ∀ s ∈ segments, s.1.length ≤ u32Max) :
    (x.AllRetrieved segments request → x.TotalsOfAllPages m segments request) ∧
    ((∀ s ∈ segments, x.FoundOnce s.1 s.2 request) →
      (x.TotalsOfAllPages m segments request ↔ x.AllRetrieved segments request)) := by
  have hpage : ∀ offset limit, x.AllRetrieved segments request →
      x.CountsAnswers segments request
        (m.search (readers segments) (onPage request offset limit)) := by
    intro offset limit h
    refine countsAnswers_of_allReturned hm hwithin hboost hlen fun e he i hi => ?_
    have hmem := List.fst_mem_of_mem_zipIdx he
    have hretrieved : request.query.isEmpty = true ∨ x.queryTokens request = [] ∨
        x.Retrieved e.1.1 e.1.2 (onPage request offset limit) 200 :=
      h.imp_right (Or.imp_right fun hall => ⟨(hall e.1 hmem).matching, (hall e.1 hmem).fallback⟩)
    exact mem_localIds_of_retrieved hwithin hboost (hlen e.1 hmem) (le_candidateCount _)
      hretrieved hi
  have hall : x.AllRetrieved segments request → x.TotalsOfAllPages m segments request := by
    intro h offset limit offset' limit'
    obtain ⟨htotal, hfacets⟩ := hpage offset limit h
    obtain ⟨htotal', hfacets'⟩ := hpage offset' limit' h
    exact ⟨⟨htotal.trans htotal'.symm, fun field hfield value =>
      (hfacets field hfield value).trans (hfacets' field hfield value).symm⟩, htotal, hfacets⟩
  refine ⟨hall, fun honce => ⟨fun htotals => ?_, hall⟩⟩
  -- the first page has room for 200 candidates
  obtain ⟨-, htotal, -⟩ := htotals 0 0 0 0
  have hreturned := allReturned_of_totalHits hm hwithin hboost hlen htotal
  cases hquery : request.query.isEmpty with
  | true => exact Or.inl hquery
  | false =>
    by_cases hne : x.queryTokens request = []
    · exact Or.inr (Or.inl hne)
    · refine Or.inr (Or.inr fun s hs => ?_)
      obtain ⟨n, hn⟩ := List.getElem?_of_mem hs
      have he : (s, n) ∈ segments.zipIdx := List.mem_zipIdx_iff_getElem?.mpr hn
      have h : x.Retrieved s.1 s.2 (onPage request 0 0) 200 := retrieved_of_complete hwithin hboost
        (hlen s hs) hquery hne (honce s hs) (hreturned (s, n) he)
      exact ⟨h.matching, h.fallback⟩

end

/-- A searcher for numbers, which reads the columns of its segments. -/
noncomputable def columnSearcher : MultiSegmentSearcher :=
  { plainSearcher with executor := plain.columnExecutor (fun _ => F32.one) }

/-- The totals of the query "1 2" on the titles "1 2" and "1", in two segments, are those of all
pages. -/
theorem totals_of_all_pages_one_two :
    plain.TotalsOfAllPages columnSearcher twoSegments { query := "1 2" } := by
  have honce : ∀ s ∈ twoSegments, plain.FoundOnce s.1 s.2 { query := "1 2" } :=
    fun _ _ => foundOnce_of_length_le (by decide)
  have hall : plain.AllRetrieved twoSegments { query := "1 2" } := by
    refine Or.inr (Or.inr fun s hs => ?_)
    simp only [twoSegments, List.mem_cons, List.not_mem_nil, or_false] at hs
    rcases hs with rfl | rfl
    · exact ⟨by decide, by decide⟩
    · exact ⟨by decide, by decide⟩
  exact ((totals_of_all_pages_iff columnSearcher twoSegments { query := "1 2" } rfl
    within_plainAnalysis positiveBoosts_defaultProductSchema (by decide)).2 honce).mpr hall

/-! ## 7. One document more -/

/-- This many documents with the title "1". -/
def manyOnes (n : Nat) : List Document := (List.range n).map (fun i => titled (.ofNat i) "1")

theorem queryTokens_one : plain.queryTokens { query := "1" } = ["1"] := by
  decide

/-- The query "1" finds all of them. -/
theorem matches_manyOnes {n : Nat} {doc : Document} (hdoc : doc ∈ manyOnes n) :
    plain.Matches (manyOnes n) { query := "1" } doc := by
  obtain ⟨i, -, rfl⟩ := List.mem_map.mp hdoc
  have hterm : "1" ∈ plain.schema.docTokens plain.analysis (titled (.ofNat i) "1") := by
    have hwords : "1" ∈ splitWords "1" := by decide
    rw [plain, docTokens_defaultProductSchema]
    simp [plainAnalysis, titled, hwords]
  refine ⟨rfl, fun token ht => Or.inl ⟨"1", hterm, ?_⟩⟩
  rw [queryTokens_one] at ht
  obtain rfl := List.mem_singleton.mp ht
  decide

theorem liveDocuments_manyOnes (n : Nat) :
    (SegmentReader.ofDocs (manyOnes n) ∅).liveDocuments = manyOnes n :=
  SegmentReader.liveDocuments_ofDocs_empty _

theorem length_matches_manyOnes (n : Nat) :
    ((SegmentReader.ofDocs (manyOnes n) ∅).liveDocuments.filter
      (fun doc => plain.Matches (manyOnes n) { query := "1" } doc)).length = n := by
  rw [liveDocuments_manyOnes, List.filter_eq_self.mpr]
  · rw [manyOnes, List.length_map, List.length_range]
  · exact fun doc hdoc => decide_eq_true (matches_manyOnes hdoc)

theorem answers_manyOnes (n : Nat) :
    plain.answers (manyOnes n) ∅ { query := "1" } = manyOnes n := by
  rw [answers]
  simp only [liveDocuments_manyOnes]
  refine List.filter_eq_self.mpr fun doc hdoc => decide_eq_true ?_
  have hmatch := matches_manyOnes hdoc
  exact ⟨hmatch.1, Or.inr ⟨by rw [queryTokens_one]; exact List.cons_ne_nil _ _, Or.inl hmatch⟩⟩

/-- They have no other term. -/
theorem eq_one_of_searchTerm {n : Nat} {term : String} {pl : PostingList ℝ}
    (h : (SegmentReader.ofDocs (manyOnes n) ∅).searchTerm plain.schema plain.analysis term
      = some pl) : term = "1" := by
  obtain ⟨doc, hdoc, hterm⟩ := SegmentReader.exists_doc_of_searchTerm h
  obtain ⟨i, -, rfl⟩ := List.mem_map.mp hdoc
  have hwords : splitWords "1" ++ splitWords "" = ["1"] := by decide
  rw [plain, docTokens_defaultProductSchema] at hterm
  have hone : term ∈ splitWords "1" ++ splitWords "" := by
    simpa [plainAnalysis, titled] using hterm
  rw [hwords] at hone
  exact List.mem_singleton.mp hone

theorem rare_manyOnes (n : Nat) : plain.Rare (.ofDocs (manyOnes n) ∅) { query := "1" } "1" :=
  totalDf_le within_plainAnalysis (length_rawLists_le fun _ _ h => eq_one_of_searchTerm h)

/-- Room for as many candidates is enough for them. -/
theorem retrieved_manyOnes (n : Nat) :
    plain.Retrieved (manyOnes n) ∅ { query := "1" } n where
  matching _ := ⟨⟨"1", queryTokens_one.symm ▸ List.mem_singleton_self "1", rare_manyOnes n⟩,
    (length_matches_manyOnes n).le⟩
  fallback _ hmulti := by
    rw [queryTokens_one] at hmulti
    exact absurd hmulti (Nat.lt_irrefl 1)

/-- **The total of the last page is another one**: the first page of the query "1" on 201 documents
with this title counts no more than 200, and the eleventh counts all. -/
theorem not_same_totals :
    (columnSearcher.search (readers [(manyOnes 201, ∅)]) (onPage { query := "1" } 0 20)).totalHits
      ≤ 200 ∧
    (columnSearcher.search (readers [(manyOnes 201, ∅)]) (onPage { query := "1" } 200 20)).totalHits
      = 201 := by
  have hlen : (manyOnes 201).length ≤ u32Max := by
    rw [manyOnes, List.length_map, List.length_range]
    decide
  have hexecutor : columnSearcher.executor = plain.columnExecutor (fun _ => F32.one) := rfl
  constructor
  · have htokens : plain.queryTokens (onPage { query := "1" } 0 20) = ["1"] := queryTokens_one
    have hroom : candidateCount (onPage { query := "1" } 0 20) = 200 := by decide
    rw [totalHits_search_eq hexecutor, ← hroom]
    simp only [List.zipIdx_singleton, List.map_singleton, List.sum_singleton]
    exact length_localIds_le within_plainAnalysis hlen rfl (by rw [htokens]; exact le_rfl)
  · have hretrieved : plain.Retrieved (manyOnes 201) ∅ (onPage { query := "1" } 200 20) 201 :=
      ⟨(retrieved_manyOnes 201).matching, (retrieved_manyOnes 201).fallback⟩
    have hcounts : plain.CountsAnswers [(manyOnes 201, ∅)] (onPage { query := "1" } 200 20)
        (columnSearcher.search (readers [(manyOnes 201, ∅)])
          (onPage { query := "1" } 200 20)) := by
      refine countsAnswers_of_allReturned hexecutor within_plainAnalysis
        positiveBoosts_defaultProductSchema (by simpa using hlen) fun e he i hi => ?_
      obtain rfl : e = ((manyOnes 201, ∅), 0) := by simpa using he
      exact mem_localIds_of_retrieved within_plainAnalysis positiveBoosts_defaultProductSchema hlen
        (by decide) (Or.inr (Or.inr hretrieved)) hi
    have hanswers : plain.answers (manyOnes 201) ∅ (onPage { query := "1" } 200 20)
        = manyOnes 201 := answers_manyOnes 201
    rw [hcounts.1, List.map_singleton, List.sum_singleton, hanswers, manyOnes, List.length_map,
      List.length_range]

end TextExecutor

end ZearchEngine
