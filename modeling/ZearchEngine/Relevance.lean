/-
# What a search shows is relevant

A document is relevant to a request if it passes the filters and every token of the query finds
it, by a term that starts with the token or by one that counts as similar.  The OR fallback of a
segment also returns documents of which some term starts with some token
(`QueryExecutor::execute`, `crates/query/src/executor.rs`).

So whatever is done to a shard before a search, and whichever page is asked for, the search shows
relevant documents only, of those that are visible, and none of them twice
(`ShardEngine.search_relevant`).  The router asks its shards for the same hits whatever page it is
asked for.  A fallback takes its scores out of a `HashMap`, in another order for each search; where
no segment falls back, all pages are cut out of one list, so that together they show nothing twice
either, and go down in score (`Router.pages_relevant`).
-/
import ZearchEngine.ClusterRuns
import ZearchEngine.Totals

namespace ZearchEngine

open ShardEngine KeyedStore

/-- What is chosen from a part of a list is part of what is chosen from the list. -/
theorem coe_filterMap_le {α β : Type} {l l' : List α} (f : α → Option β) (h : l.Subperm l') :
    (↑(l.filterMap f) : Multiset β) ≤ ↑(l'.filterMap f) := by
  have hle := Multiset.filterMap_le_filterMap f (Multiset.coe_le.mpr h)
  rwa [Multiset.filterMap_coe, Multiset.filterMap_coe] at hle

namespace TextExecutor

/-! ## 1. Relevant documents -/

/-- The token finds the document: a term starts with it, or counts as similar to it. -/
def Meets (x : TextExecutor) (request : SearchRequest) (token : String) (doc : Document) : Prop :=
  x.Starts token doc ∨ x.Similar request token doc

/-- What a response with this retrieval mode may show. -/
structure Relevant (x : TextExecutor) (request : SearchRequest) (mode : RetrievalMode)
    (doc : Document) : Prop where
  passes : request.passes x.schema doc = true
  /-- All tokens find it; after a fallback it may be that some find it, by their beginning. -/
  meets : request.query.isEmpty = false → x.queryTokens request ≠ [] ∧
    ((∀ token ∈ x.queryTokens request, x.Meets request token doc) ∨
      mode = .orFallback ∧ 1 < (x.queryTokens request).length ∧ x.HasPrefix request doc)

theorem Found.meets {x : TextExecutor} {docs : List Document} {request : SearchRequest}
    {token : String} {doc : Document} (h : x.Found docs request token doc) :
    x.Meets request token doc := by
  rcases h with hstarts | ⟨-, hsimilar⟩
  · exact Or.inl hstarts
  · exact Or.inr hsimilar

/-- A response with a fallback in some segment may show what all segments show. -/
theorem Relevant.of_mode {x : TextExecutor} {request : SearchRequest} {mode mode' : RetrievalMode}
    {doc : Document} (h : x.Relevant request mode doc)
    (hmode : mode = .orFallback → mode' = .orFallback) : x.Relevant request mode' doc where
  passes := h.passes
  meets hquery := by
    obtain ⟨hne, hall | ⟨hfallback, hmany⟩⟩ := h.meets hquery
    · exact ⟨hne, Or.inl hall⟩
    · exact ⟨hne, Or.inr ⟨hmode hfallback, hmany⟩⟩

section

variable {x : TextExecutor} {round : ℝ → F32} {request : SearchRequest} {docs : List Document}
  {del : Bitmap} {ord : Nat}

/-! ## 2. One segment -/

/-- With a query, the mode is that of the scoring. -/
theorem retrievalMode_execute {reader : SegmentReader} (hquery : request.query.isEmpty = false) :
    ((x.columnExecutor round).execute reader ord request).retrievalMode
      = (x.scoreQuery reader (.compute x.schema x.analysis reader) request
          (x.columnFilter round reader request)).2 := by
  have hquery' : ¬ request.query.isEmpty = true := by simp [hquery]
  simp only [QueryExecutor.execute, if_neg hquery']
  rfl

/-- **Everything a segment returns is relevant.** -/
theorem relevant_of_mem_localIds (hwithin : x.analysis.Within) (hboost : PositiveBoosts x.schema)
    (hlen : docs.length ≤ u32Max) {i : LocalDocId}
    (hi : i ∈ x.localIds round (.ofDocs docs del) ord request) :
    ∃ doc, (SegmentReader.ofDocs docs del).getDoc i = some doc ∧ x.Relevant request
      ((x.columnExecutor round).execute (.ofDocs docs del) ord request).retrievalMode doc := by
  obtain ⟨doc, hget, hanswer⟩ := SegmentReader.mem_places.mp
    (mem_places_of_mem_localIds hwithin hboost hlen hi)
  refine ⟨doc, hget, hanswer.1, fun hquery => ?_⟩
  have hne : x.queryTokens request ≠ [] := by
    intro hnone
    rw [localIds_of_no_tokens hquery hnone] at hi
    exact absurd hi List.not_mem_nil
  refine ⟨hne, ?_⟩
  rw [localIds_of_query hquery] at hi
  rw [retrievalMode_execute hquery]
  rw [scoreQuery] at hi ⊢
  split at hi
  · -- the fallback
    next hfallback =>
    rw [if_pos hfallback]
    obtain ⟨-, hmany⟩ := (Bool.and_eq_true _ _).mp hfallback
    obtain ⟨-, -, doc', hget', hprefix⟩ :=
      orAnswer_of_mem_scoreQueryOrFallback hwithin hboost hlen (totalDocs_compute _ _) hi
    obtain rfl := Option.some.inj (hget'.symm.trans hget)
    exact Or.inr ⟨rfl, of_decide_eq_true hmany, hprefix⟩
  · obtain ⟨hit, hhit, rfl⟩ := List.mem_map.mp hi
    obtain ⟨doc', hget', -, hfound⟩ := (mem_matching_iff_matches hwithin hne).mp
      (mem_matching_of_mem_scoreQueryWand hwithin hlen hhit)
    obtain rfl := Option.some.inj (hget'.symm.trans hget)
    exact Or.inl (fun token ht => (hfound token ht).meets)

/-- A segment returns each of its live documents at most once. -/
theorem filterMap_localIds_le (hwithin : x.analysis.Within) (hlen : docs.length ≤ u32Max) :
    (↑((x.localIds round (.ofDocs docs del) ord request).filterMap
        (SegmentReader.ofDocs docs del).getDoc) : Multiset Document)
      ≤ ↑(SegmentReader.ofDocs docs del).liveDocuments := by
  have hsome : (x.localIds round (.ofDocs docs del) ord request).filterMap
        (SegmentReader.ofDocs docs del).getDoc
      = ((x.localIds round (.ofDocs docs del) ord request).filter
          (fun i => ((SegmentReader.ofDocs docs del).getDoc i).isSome)).filterMap
          (SegmentReader.ofDocs docs del).getDoc := by
    rw [List.filterMap_filter]
    refine List.filterMap_congr (fun i _ => ?_)
    cases (SegmentReader.ofDocs docs del).getDoc i <;> rfl
  have hsubperm : ((x.localIds round (.ofDocs docs del) ord request).filter
      (fun i => ((SegmentReader.ofDocs docs del).getDoc i).isSome)).Subperm
      (SegmentReader.ofDocs docs del).allLiveDocs := by
    refine List.subperm_of_subset ((nodup_localIds hwithin hlen).filter _) (fun i hi => ?_)
    obtain ⟨doc, hget⟩ := Option.isSome_iff_exists.mp (List.mem_filter.mp hi).2
    exact mem_allLiveDocs_of_getDoc hget
  rw [hsome, ← SegmentReader.filterMap_allLiveDocs]
  exact coe_filterMap_le _ hsubperm

end

/-! ## 3. All segments -/

/-- Readers of whole segments that the format has room for. -/
def WithinFormat (segments : List SegmentReader) : Prop :=
  ∀ reader ∈ segments, ∃ docs del, reader = .ofDocs docs del ∧ docs.length ≤ u32Max

section

variable {x : TextExecutor} {round : ℝ → F32} {m : MultiSegmentSearcher}
  {request : SearchRequest} {segments : List SegmentReader}

theorem segmentOrd_of_mem_execute {e : QueryExecutor} {reader : SegmentReader} {ord : Nat}
    {scored : ScoredDoc} (h : scored ∈ (e.execute reader ord request).scoredDocs) :
    scored.segmentOrd = ord := by
  simp only [QueryExecutor.execute] at h
  split at h
  · obtain ⟨i, -, rfl⟩ := List.mem_map.mp h
    rfl
  · obtain ⟨hit, -, heq⟩ := List.mem_filterMap.mp h
    obtain ⟨doc, -, rfl⟩ := Option.map_eq_some_iff.mp heq
    rfl

/-- A candidate of the search is what its segment returned. -/
theorem mem_localIds_of_mem_results (hm : m.executor = x.columnExecutor round)
    {scored : ScoredDoc}
    (h : scored ∈ (m.results segments request).flatMap SegmentSearchResult.scoredDocs) :
    ∃ reader, segments[scored.segmentOrd]? = some reader ∧
      scored.localDocId ∈ x.localIds round reader scored.segmentOrd request ∧
      (x.columnExecutor round).execute reader scored.segmentOrd request
        ∈ m.results segments request := by
  obtain ⟨result, hresult, hmem⟩ := List.mem_flatMap.mp h
  obtain ⟨⟨reader, ord⟩, hreader, rfl⟩ := List.mem_map.mp hresult
  have hord := segmentOrd_of_mem_execute hmem
  rw [hm] at hmem hresult
  rw [hord]
  exact ⟨reader, List.mem_zipIdx_iff_getElem?.mp hreader, List.mem_map_of_mem hmem, hresult⟩

/-- The documents fetched for what a segment returned. -/
theorem filterMap_fetch_localIds {reader : SegmentReader} {ord : Nat}
    (hord : segments[ord]? = some reader) :
    (((x.columnExecutor round).execute reader ord request).scoredDocs.filterMap
        (MultiSegmentSearcher.fetch segments)).filterMap SearchHit.document
      = (x.localIds round reader ord request).filterMap reader.getDoc := by
  rw [List.filterMap_filterMap, localIds, List.filterMap_map]
  refine List.filterMap_congr (fun scored hscored => ?_)
  have hsegment : segments[scored.segmentOrd]? = some reader := by
    rw [segmentOrd_of_mem_execute hscored, hord]
  simp only [MultiSegmentSearcher.fetch, hsegment, Option.bind_eq_bind, Option.bind_some,
    Function.comp_apply]
  cases reader.getDoc scored.localDocId <;> rfl

/-- **A search shows relevant documents.** -/
theorem relevant_of_mem_hits (hm : m.executor = x.columnExecutor round)
    (hwithin : x.analysis.Within) (hboost : PositiveBoosts x.schema)
    (hwhole : WithinFormat segments) {hit : SearchHit}
    (h : hit ∈ (m.search segments request).hits) :
    ∃ doc, hit.document = some doc ∧ hit.id = doc.id ∧
      x.Relevant request (m.search segments request).retrievalMode doc := by
  obtain ⟨scored, hscored, hfetch⟩ := List.mem_filterMap.mp h
  obtain ⟨reader, hreader, hi, hresult⟩ := mem_localIds_of_mem_results hm
    (mem_of_mem_page (m := m) hscored)
  obtain ⟨docs, del, rfl, hlen⟩ := hwhole reader (List.mem_of_getElem? hreader)
  obtain ⟨doc, hget, hrelevant⟩ := relevant_of_mem_localIds hwithin hboost hlen hi
  simp only [MultiSegmentSearcher.fetch, Option.bind_eq_bind, hreader, hget,
    Option.bind_some, Option.some.injEq] at hfetch
  subst hfetch
  refine ⟨doc, rfl, rfl, hrelevant.of_mode (fun hmode => ?_)⟩
  have hany : (m.results segments request).any (fun r => r.retrievalMode = .orFallback) = true :=
    List.any_eq_true.mpr ⟨_, hresult, decide_eq_true hmode⟩
  simp only [MultiSegmentSearcher.search, hany, if_true]

/-- The documents fetched for all candidates, segment by segment. -/
theorem filterMap_fetch_results (hm : m.executor = x.columnExecutor round) :
    (((m.results segments request).flatMap SegmentSearchResult.scoredDocs).filterMap
        (MultiSegmentSearcher.fetch segments)).filterMap SearchHit.document
      = segments.zipIdx.flatMap (fun p => (x.localIds round p.1 p.2 request).filterMap
          p.1.getDoc) := by
  rw [List.filterMap_flatMap, List.filterMap_flatMap, MultiSegmentSearcher.results,
    List.flatMap_map, hm]
  exact List.flatMap_congr (fun p hp =>
    filterMap_fetch_localIds (List.mem_zipIdx_iff_getElem?.mp hp))

/-- **A search shows each live document at most once.** -/
theorem documents_search_le (hm : m.executor = x.columnExecutor round)
    (hwithin : x.analysis.Within) (hwhole : WithinFormat segments) :
    (m.search segments request).documents
      ≤ ↑(segments.flatMap SegmentReader.liveDocuments) := by
  have hpage : (m.page segments request).Subperm
      ((m.results segments request).flatMap SegmentSearchResult.scoredDocs) :=
    ((List.take_sublist _ _).trans (List.drop_sublist _ _)).subperm.trans
      (m.perm_sortUnstable _ _).subperm
  have hlive : segments.flatMap SegmentReader.liveDocuments
      = segments.zipIdx.flatMap (fun p => p.1.liveDocuments) := by
    conv_lhs => rw [← List.zipIdx_map_fst 0 segments, List.flatMap_map]
  calc ((m.search segments request).documents : Multiset Document)
      ≤ ↑((((m.results segments request).flatMap SegmentSearchResult.scoredDocs).filterMap
          (MultiSegmentSearcher.fetch segments)).filterMap SearchHit.document) := by
        rw [SearchResponse.documents, MultiSegmentSearcher.search, List.filterMap_filterMap,
          List.filterMap_filterMap]
        exact coe_filterMap_le _ hpage
    _ ≤ ↑(segments.flatMap SegmentReader.liveDocuments) := by
        rw [filterMap_fetch_results hm, hlive, coe_flatMap, coe_flatMap]
        refine List.sum_le_sum (fun p hp => ?_)
        obtain ⟨docs, del, heq, hlen⟩ := hwhole p.1
          (List.mem_of_getElem? (List.mem_zipIdx_iff_getElem?.mp hp))
        rw [heq]
        exact filterMap_localIds_le hwithin hlen

end

end TextExecutor

/-! ## 4. A shard, after any run -/

namespace ShardEngine

open TextExecutor

/-- The segments of a shard have room for what it was ever asked to index. -/
theorem Bounded.withinFormat {s : ShardEngine} {log : List WalEntry} (h : Bounded s log)
    (hinv : Inv s) (hlen : (indexedDocs log).length ≤ u32Max) : WithinFormat s.readers := by
  have hroom : ∀ docs : List Document,
      (↑docs : Multiset Document) ≤ SegmentDirs.stored s.dirs + ↑s.writeBuffer.docs →
      docs.length ≤ u32Max := fun docs hdocs =>
    (Multiset.card_le_card (hdocs.trans h.stored)).trans hlen
  intro reader hreader
  rcases List.mem_append.mp hreader with hsegment | hbuffer
  · obtain ⟨e, he, rfl⟩ := List.mem_map.mp hsegment
    obtain ⟨docs, deleted, deletions, hopen, hlook, -⟩ := hinv.synced.onDisk e he
    refine ⟨docs, deleted, hopen, hroom docs ?_⟩
    have hdir : SegmentDirs.stored s.dirs
        = share SegmentDir.stored (s.dirs.lookup e.segmentId)
          + SegmentDirs.stored (s.dirs.erase e.segmentId) :=
      total_erase SegmentDir.stored s.dirs e.segmentId
    rw [hlook, share_some, SegmentDir.stored_written] at hdir
    rw [hdir, add_assoc]
    exact Multiset.le_add_right _ _
  · unfold WriteBuffer.liveReader at hbuffer
    split at hbuffer
    · cases hbuffer
    · refine ⟨s.writeBuffer.allDocs, ∅, by simpa using hbuffer, hroom _ ?_⟩
      have hlive : (↑s.writeBuffer.allDocs : Multiset Document) ≤ ↑s.writeBuffer.docs :=
        Multiset.coe_le.mpr List.filter_sublist.subperm
      exact hlive.trans (Multiset.le_add_left _ _)

theorem withinFormat_runNew (writeBufferSize : Nat) (searcher : MultiSegmentSearcher)
    {ops : List Op} (hlen : (ops.flatMap Op.docs).length ≤ u32Max) :
    WithinFormat (runNew writeBufferSize searcher ops).readers := by
  refine (bounded_runNew writeBufferSize searcher ops).withinFormat
    (inv_runNew writeBufferSize searcher ops) ?_
  rwa [indexedDocs_flatMap_entries]

variable {x : TextExecutor} {round : ℝ → F32}

/-- **Searches show relevant documents, once.**  After any run of operations on a new shard (with
deletions, documents indexed again, flushes, merges, reindexes and restarts), whatever is searched
for, every hit has a relevant document under its id, and the documents of the hits are visible
ones, none of them more often than it is. -/
theorem search_relevant (hwithin : x.analysis.Within) (hboost : PositiveBoosts x.schema)
    (writeBufferSize : Nat) {searcher : MultiSegmentSearcher}
    (hsearcher : searcher.executor = x.columnExecutor round) {ops : List Op}
    (hlen : (ops.flatMap Op.docs).length ≤ u32Max) (request : SearchRequest) :
    let s := runNew writeBufferSize searcher ops
    ∃ response, (search request s).1 = .ok response ∧ response.documents ≤ s.visible ∧
      ∀ hit ∈ response.hits, ∃ doc, hit.document = some doc ∧ hit.id = doc.id ∧
        x.Relevant request response.retrievalMode doc := by
  intro s
  have hwhole : WithinFormat s.readers := withinFormat_runNew writeBufferSize searcher hlen
  have hexecutor : s.searcher.executor = x.columnExecutor round := by
    rw [show s.searcher = searcher from searcher_runNew writeBufferSize searcher ops, hsearcher]
  refine ⟨s.searcher.search s.readers request, ?_, ?_, fun hit hhit =>
    relevant_of_mem_hits hexecutor hwithin hboost hwhole hhit⟩
  · rw [ShardEngine.search_eq (inv_runNew writeBufferSize searcher ops)]
    rfl
  · rw [visible, Multiset.coe_add, ← flatMap_readers]
    exact documents_search_le hexecutor hwithin hwhole

/-- A document that is indexed again after a flush, and a restart. -/
theorem search_relevant_again :
    let s := runNew 1000 columnSearcher
      [.index (titled 1 "a"), .flush, .index (titled 1 "b"), .reopen]
    ∃ response, (search {} s).1 = .ok response ∧ response.documents ≤ s.visible ∧
      ∀ hit ∈ response.hits, ∃ doc, hit.document = some doc ∧ hit.id = doc.id ∧
        plain.Relevant {} response.retrievalMode doc :=
  search_relevant within_plainAnalysis positiveBoosts_defaultProductSchema 1000 rfl (by decide) {}

end ShardEngine

/-! ## 5. Other orders of the scores -/

/-- The executor during a search that iterates over the scores of fallbacks in this order. -/
def TextExecutor.withScores (x : TextExecutor) (order : Arrangement (LocalDocId × ℝ)) :
    TextExecutor :=
  { x with scoreOrder := order }

def MultiSegmentSearcher.withExecutor (m : MultiSegmentSearcher) (e : QueryExecutor) :
    MultiSegmentSearcher :=
  { m with executor := e }

def ShardEngine.withExecutor (s : ShardEngine) (e : QueryExecutor) : ShardEngine :=
  { s with searcher := s.searcher.withExecutor e }

/-- The second executor falls back in the same segments as the first, and returns the same in all
others. -/
def FallsBackLike (e e' : QueryExecutor) (request : SearchRequest) : Prop :=
  ∀ reader ord, (e'.execute reader ord request).retrievalMode
      = (e.execute reader ord request).retrievalMode ∧
    ((e.execute reader ord request).retrievalMode = .and →
      e'.execute reader ord request = e.execute reader ord request)

namespace TextExecutor

variable (x : TextExecutor) (order : Arrangement (LocalDocId × ℝ)) (round : ℝ → F32)
  (request : SearchRequest)

theorem scoreQuery_withScores (reader : SegmentReader) (stats : SegmentStatistics)
    (filter : Option Bitmap) :
    ((x.withScores order).scoreQuery reader stats request filter).2
        = (x.scoreQuery reader stats request filter).2 ∧
      ((x.scoreQuery reader stats request filter).2 = .and →
        (x.withScores order).scoreQuery reader stats request filter
          = x.scoreQuery reader stats request filter) := by
  have hand : (x.withScores order).scoreQueryWand reader stats request filter
      = x.scoreQueryWand reader stats request filter := rfl
  have htokens : (x.withScores order).queryTokens request = x.queryTokens request := rfl
  simp only [scoreQuery, hand, htokens]
  split
  · exact ⟨rfl, fun hmode => by cases hmode⟩
  · exact ⟨rfl, fun _ => rfl⟩

/-- **The order matters to fallbacks only.** -/
theorem fallsBackLike_withScores : FallsBackLike (x.columnExecutor round)
    ((x.withScores order).columnExecutor round) request := by
  intro reader ord
  obtain ⟨hmode, hsame⟩ := x.scoreQuery_withScores order request reader
    (.compute x.schema x.analysis reader) (x.columnFilter round reader request)
  cases hquery : request.query.isEmpty with
  | true =>
    -- without a query nothing is scored
    have heq : ((x.withScores order).columnExecutor round).execute reader ord request
        = (x.columnExecutor round).execute reader ord request := by
      simp only [QueryExecutor.execute, hquery, if_true]
      rfl
    rw [heq]
    exact ⟨rfl, fun _ => rfl⟩
  | false =>
    rw [retrievalMode_execute hquery, retrievalMode_execute hquery]
    refine ⟨hmode, fun hand => ?_⟩
    have hscored : ((x.withScores order).columnExecutor round).scoreQuery reader request
          (((x.withScores order).columnExecutor round).buildFilterBitmap reader request)
        = (x.columnExecutor round).scoreQuery reader request
          ((x.columnExecutor round).buildFilterBitmap reader request) :=
      congrArg (fun scored => (scored.1.map (fun hit => (hit.1, round hit.2)), scored.2))
        (hsame hand)
    simp only [QueryExecutor.execute, hquery, Bool.false_eq_true, if_false, hscored]
    rfl

end TextExecutor

theorem RetrievalMode.eq_of_orFallback_iff {mode mode' : RetrievalMode}
    (h : mode = .orFallback ↔ mode' = .orFallback) : mode = mode' := by
  cases mode <;> cases mode' <;> simp_all

namespace FallsBackLike

variable {e e' : QueryExecutor} {request : SearchRequest}

/-- So do the searches of all segments. -/
theorem search (h : FallsBackLike e e' request) (m : MultiSegmentSearcher)
    (segments : List SegmentReader) :
    ((m.withExecutor e').search segments request).retrievalMode
        = ((m.withExecutor e).search segments request).retrievalMode ∧
      (((m.withExecutor e).search segments request).retrievalMode = .and →
        (m.withExecutor e').search segments request
          = (m.withExecutor e).search segments request) := by
  have hany : ((m.withExecutor e').results segments request).any
        (fun r => r.retrievalMode = .orFallback)
      = ((m.withExecutor e).results segments request).any
        (fun r => r.retrievalMode = .orFallback) := by
    rw [MultiSegmentSearcher.results, MultiSegmentSearcher.results, List.any_map, List.any_map]
    refine congrArg (segments.zipIdx.any ·) (funext fun p => ?_)
    exact congrArg (fun mode => decide (mode = RetrievalMode.orFallback)) (h p.1 p.2).1
  refine ⟨?_, fun hand => ?_⟩
  · simp only [MultiSegmentSearcher.search, hany]
  · have hresults : (m.withExecutor e').results segments request
        = (m.withExecutor e).results segments request := by
      refine List.map_congr_left (fun p hp => (h p.1 p.2).2 ?_)
      cases hmode : (e.execute p.1 p.2 request).retrievalMode with
      | and => rfl
      | orFallback =>
        have hor : ((m.withExecutor e).results segments request).any
            (fun r => r.retrievalMode = .orFallback) = true :=
          List.any_eq_true.mpr ⟨_, List.mem_map_of_mem hp, decide_eq_true hmode⟩
        simp only [MultiSegmentSearcher.search, hor, if_true] at hand
        cases hand
    simp only [MultiSegmentSearcher.search, hresults]
    rfl

end FallsBackLike

/-! ## 6. The pages of a router -/

/-- A score is that of a request without a query, or a rounded one. -/
theorem TextExecutor.key_score {x : TextExecutor} {round : ℝ → F32}
    (hround : ∀ score, (round score).key ≠ none) {reader : SegmentReader} {ord : Nat}
    {request : SearchRequest} {scored : ScoredDoc}
    (h : scored ∈ ((x.columnExecutor round).execute reader ord request).scoredDocs) :
    scored.score.key ≠ none := by
  simp only [QueryExecutor.execute] at h
  split at h
  · obtain ⟨i, -, rfl⟩ := List.mem_map.mp h
    exact (by decide : F32.one.key ≠ none)
  · obtain ⟨hit, hhit, heq⟩ := List.mem_filterMap.mp h
    obtain ⟨doc, -, rfl⟩ := Option.map_eq_some_iff.mp heq
    obtain ⟨unrounded, -, rfl⟩ := List.mem_map.mp hhit
    exact hround unrounded.2

namespace Router

open TextExecutor Components

variable {r : Router} {engines : Fin r.shards → ShardEngine}
  {docs : Fin r.shards → List Document} {request : Request} {x : TextExecutor}
  {round : ℝ → F32}

/-- A response comes from a fallback if some shard fell back. -/
def gatheredMode (r : Router) (answers : Answers r.shards) (request : Request) : RetrievalMode :=
  if (r.gather answers request).any ShardSearchResult.usedOrFallback then .orFallback else .and

/-- A document with its score, as a response shows it. -/
def shownHit (found : Document × F32) : SearchHit := ⟨found.1.id, found.2, some found.1⟩

/-- What the shards find for a request, by score. -/
def foundHits (r : Router) (engines : Fin r.shards → ShardEngine)
    (docs : Fin r.shards → List Document) (request : Request) : List (Document × F32) :=
  (r.sortedHits (r.engineAnswers engines request) request).filterMap
    (fun hit => (r.placedDoc docs hit.1).map (fun doc => (doc, hit.2)))

namespace Placed

section

variable (h : r.Placed engines docs)
include h

theorem exists_found {hit : ShardHit}
    (hhit : hit ∈ r.sortedHits (r.engineAnswers engines request) request) :
    ∃ doc, r.placedDoc docs hit.1 = some doc ∧ doc.id = hit.1 := by
  obtain ⟨doc, hdoc, hid⟩ := h.exists_placed hhit
  exact ⟨doc, (placedDoc_eq_some h.nodup).mpr ⟨hdoc, hid⟩, hid⟩

/-- A response comes from a fallback exactly if that of some shard does. -/
theorem gatheredMode_eq_orFallback_iff :
    r.gatheredMode (r.engineAnswers engines request) request = .orFallback ↔
      ∃ i, ((engines i).searcher.search (engines i).readers
        (r.shardRequest request)).retrievalMode = .orFallback := by
  have hany : (r.gather (r.engineAnswers engines request) request).any
      ShardSearchResult.usedOrFallback = true ↔
      ∃ i, ((engines i).searcher.search (engines i).readers
        (r.shardRequest request)).retrievalMode = .orFallback := by
    rw [h.gather_eq, List.any_map, List.any_eq_true]
    exact ⟨fun ⟨i, _, hi⟩ => ⟨i, of_decide_eq_true hi⟩,
      fun ⟨i, hi⟩ => ⟨i, List.mem_finRange i, decide_eq_true hi⟩⟩
  rw [gatheredMode, ← hany]
  split
  · next hsome => exact iff_of_true rfl hsome
  · next hnone => exact iff_of_false (fun heq => by cases heq) hnone

/-- The hits, with the documents that the shards hold for them. -/
theorem map_shownHit_foundHits : (r.foundHits engines docs request).map shownHit
    = (r.sortedHits (r.engineAnswers engines request) request).map
        (fun hit => ⟨hit.1, hit.2, r.placedDoc docs hit.1⟩) := by
  rw [foundHits, List.map_filterMap, ← List.filterMap_eq_map]
  refine List.filterMap_congr (fun hit hhit => ?_)
  obtain ⟨doc, hdoc, hid⟩ := h.exists_found hhit
  simp only [hdoc, Option.map_some, Function.comp_apply, shownHit, hid]

/-- **Every response shows a page of what is found.** -/
theorem page_foundHits (hranker : r.ranker = noopRanker) (hscatter : r.scatterLimit < 2 ^ 64)
    (hzone : request.NoZone) (hinclude : request.includeDocs = true) :
    ∃ response, (r.searchLocal engines request).1 = .ok response ∧
      response.retrievalMode = r.gatheredMode (r.engineAnswers engines request) request ∧
      response.hits = (page request.offset request.limit (r.foundHits engines docs request)).map
        shownHit := by
  let answers := r.engineAnswers engines request
  have hgather := h.gather_ne_nil request
  obtain ⟨cached, hcached, hhits⟩ := hits_scatterGather hranker hzone hgather
  rw [h.fetchedHits_eq] at hhits
  have hmode : cached.retrievalMode = r.gatheredMode answers request := by
    have hempty : (r.gather answers request).isEmpty = false := by simpa using hgather
    simp only [scatterGather] at hcached
    rw [show (r.gather (r.engineAnswers engines request) request).isEmpty = false from hempty,
      if_neg Bool.false_ne_true, Except.ok.injEq] at hcached
    rw [← hcached]
    rfl
  let response := r.respond answers request (docMap (r.candidateDocs answers request)) false cached
  refine ⟨response, ?_, hmode, ?_⟩
  · show r.search answers none request = _
    rw [search, hcached]
    rfl
  · have hdocument : ∀ hit ∈ response.hits, (⟨hit.id, hit.score, r.placedDoc docs hit.id⟩ :
        SearchHit) = hit := fun hit hhit => by
      rw [← h.document_shown hscatter hinclude (fun shardHit hmem => by rwa [hhits] at hmem) hhit]
    have hpage := map_hits_respond answers request (docMap (r.candidateDocs answers request)) false
      cached
    rw [hhits] at hpage
    calc response.hits
        = (response.hits.map (fun hit => (hit.id, hit.score))).map
            (fun hit => ⟨hit.1, hit.2, r.placedDoc docs hit.1⟩) := by
          rw [List.map_map]
          exact (List.map_id _).symm.trans (List.map_congr_left (fun hit hhit =>
            (hdocument hit hhit).symm))
      _ = _ := by rw [hpage, ← page_map, ← page_map, h.map_shownHit_foundHits]

end

variable (h : r.Placed engines docs)
  (hexecutor : ∀ i, (engines i).searcher.executor = x.columnExecutor round)
  (hwithin : x.analysis.Within) (hwhole : ∀ i, WithinFormat (engines i).readers)
include h hexecutor

/-- What is found comes by score. -/
theorem foundHits_ordered (hround : ∀ score, (round score).key ≠ none) :
    (r.foundHits engines docs request).Pairwise
      (fun a b => partialCmp b.2.key a.2.key ≠ .gt) := by
  have hkeys : ∀ hit ∈ r.allHits (r.engineAnswers engines request) request,
      hit.2.key ≠ none := by
    intro hit hhit
    rw [h.allHits_eq] at hhit
    obtain ⟨i, -, hmem⟩ := List.mem_flatMap.mp hhit
    obtain ⟨searchHit, hsearchHit, rfl⟩ := List.mem_map.mp hmem
    obtain ⟨scored, hscored, hfetch⟩ := List.mem_filterMap.mp hsearchHit
    obtain ⟨result, hresult, hin⟩ := List.mem_flatMap.mp (mem_of_mem_page hscored)
    obtain ⟨⟨reader, ord⟩, -, rfl⟩ := List.mem_map.mp hresult
    rw [hexecutor i] at hin
    simp only [MultiSegmentSearcher.fetch, Option.bind_eq_bind, Option.bind_eq_some_iff,
      Option.some.injEq] at hfetch
    obtain ⟨reader', -, doc, -, rfl⟩ := hfetch
    exact key_score hround hin
  refine (r.sortHits.sorted _ hkeys).filterMap _ (fun a b hab p hp q hq => ?_)
  obtain ⟨doc, -, rfl⟩ := Option.map_eq_some_iff.mp hp
  obtain ⟨doc', -, rfl⟩ := Option.map_eq_some_iff.mp hq
  exact hab

omit hexecutor in
/-- The documents that are found are those of the shards' responses. -/
theorem map_fst_foundHits_perm : ((r.foundHits engines docs request).map Prod.fst).Perm
    ((List.finRange r.shards).flatMap (fun i => ((engines i).searcher.search (engines i).readers
      (r.shardRequest request)).hits.filterMap SearchHit.document)) := by
  have hshard : ∀ i, ((r.shardResult engines request i).hits.map Prod.fst).filterMap
      (r.placedDoc docs)
      = ((engines i).searcher.search (engines i).readers
          (r.shardRequest request)).hits.filterMap SearchHit.document := by
    intro i
    rw [shardResult, List.map_map, List.filterMap_map]
    refine List.filterMap_congr (fun hit hhit => ?_)
    obtain ⟨doc, hdoc, hid, hdocument⟩ := (h.inv i).document_of_mem_hits hhit
    rw [h.visible i, Multiset.mem_coe] at hdoc
    rw [hdocument]
    have hplaced : r.placedDoc docs hit.id = some doc :=
      (placedDoc_eq_some h.nodup).mpr ⟨by rwa [hid, h.assigned i doc hdoc], hid.symm⟩
    exact hplaced
  have hsorted := (r.sortHits.perm (r.allHits (r.engineAnswers engines request) request)).map
    Prod.fst
  have hfound : (r.foundHits engines docs request).map Prod.fst
      = ((r.sortedHits (r.engineAnswers engines request) request).map Prod.fst).filterMap
          (r.placedDoc docs) := by
    rw [foundHits, List.map_filterMap, List.filterMap_map]
    refine List.filterMap_congr (fun hit _ => ?_)
    rw [Option.map_map, Function.comp_apply]
    exact congrFun Option.map_id _
  rw [hfound]
  refine (hsorted.filterMap _).trans (List.Perm.of_eq ?_)
  rw [h.allHits_eq, List.map_flatMap, List.filterMap_flatMap]
  exact List.flatMap_congr (fun i _ => hshard i)

include hwithin hwhole

/-- **Each document is found at most once.** -/
theorem foundHits_le : (↑((r.foundHits engines docs request).map Prod.fst) : Multiset Document)
    ≤ ↑((List.finRange r.shards).flatMap docs) := by
  rw [Multiset.coe_eq_coe.mpr h.map_fst_foundHits_perm, coe_flatMap, coe_flatMap]
  refine List.sum_le_sum (fun i _ => ?_)
  have hle : ((engines i).searcher.search (engines i).readers
      (r.shardRequest request)).documents
      ≤ ↑((engines i).readers.flatMap SegmentReader.liveDocuments) :=
    documents_search_le (hexecutor i) hwithin (hwhole i)
  rw [flatMap_readers, ← Multiset.coe_add] at hle
  rw [← h.visible i]
  exact hle

/-- **What is found is relevant.** -/
theorem foundHits_relevant (hboost : PositiveBoosts x.schema) {p : Document × F32}
    (hp : p ∈ r.foundHits engines docs request) : x.Relevant request.toSearchRequest
      (r.gatheredMode (r.engineAnswers engines request) request) p.1 := by
  obtain ⟨hit, hhit, heq⟩ := List.mem_filterMap.mp hp
  obtain ⟨placed, hplaced, rfl⟩ := Option.map_eq_some_iff.mp heq
  have hall := mem_sortedHits.mp hhit
  rw [h.allHits_eq] at hall
  obtain ⟨i, -, hmem⟩ := List.mem_flatMap.mp hall
  obtain ⟨searchHit, hsearchHit, rfl⟩ := List.mem_map.mp hmem
  obtain ⟨doc, hdocument, hid, hrelevant⟩ := relevant_of_mem_hits (hexecutor i) hwithin hboost
    (hwhole i) hsearchHit
  obtain ⟨shown, hshown, hshownId, hshownDoc⟩ := (h.inv i).document_of_mem_hits hsearchHit
  obtain rfl : shown = doc := Option.some.inj (hshownDoc.symm.trans hdocument)
  rw [h.visible i, Multiset.mem_coe] at hshown
  have hsame : r.placedDoc docs searchHit.id = some shown :=
    (placedDoc_eq_some h.nodup).mpr ⟨by rwa [hid, h.assigned i shown hshown], hid.symm⟩
  obtain rfl : placed = shown := Option.some.inj (hplaced.symm.trans hsame)
  have hrelevant' : x.Relevant request.toSearchRequest _ placed :=
    ⟨hrelevant.passes, hrelevant.meets⟩
  exact hrelevant'.of_mode (fun hmode => h.gatheredMode_eq_orFallback_iff.mpr ⟨i, hmode⟩)

end Placed

/-- The shards during a search that iterates over the scores of fallbacks in this order. -/
noncomputable def scoring {n : Nat} (x : TextExecutor) (round : ℝ → F32)
    (order : Arrangement (LocalDocId × ℝ)) (engines : Fin n → ShardEngine) : Fin n → ShardEngine :=
  fun i => (engines i).withExecutor ((x.withScores order).columnExecutor round)

namespace Placed

variable (h : r.Placed engines docs) (order : Arrangement (LocalDocId × ℝ))
include h

variable (x round) in
/-- They hold the same documents. -/
theorem scoring : r.Placed (scoring x round order engines) docs where
  inv i := ⟨(h.inv i).synced, (h.inv i).intact, (h.inv i).coherent⟩
  visible := h.visible
  found := h.found
  nodup := h.nodup
  assigned := h.assigned

/-- The order does not decide whether a shard falls back. -/
theorem gatheredMode_scoring :
    r.gatheredMode (r.engineAnswers (Router.scoring x round order engines) request) request
      = r.gatheredMode (r.engineAnswers (Router.scoring x round x.scoreOrder engines) request)
          request := by
  refine RetrievalMode.eq_of_orFallback_iff ?_
  rw [(h.scoring x round order).gatheredMode_eq_orFallback_iff,
    (h.scoring x round x.scoreOrder).gatheredMode_eq_orFallback_iff]
  refine exists_congr (fun i => iff_of_eq (congrArg (· = RetrievalMode.orFallback) ?_))
  exact ((x.fallsBackLike_withScores order round _).search (engines i).searcher _).1

/-- **Without a fallback, the same is found in any order.** -/
theorem foundHits_scoring
    (hand : r.gatheredMode (r.engineAnswers (Router.scoring x round x.scoreOrder engines) request)
      request = .and) :
    r.foundHits (Router.scoring x round order engines) docs request
      = r.foundHits (Router.scoring x round x.scoreOrder engines) docs request := by
  have hshard : ∀ i, (r.shardResult (Router.scoring x round order engines) request i).hits
      = (r.shardResult (Router.scoring x round x.scoreOrder engines) request i).hits := by
    intro i
    have hmode : (((engines i).searcher.withExecutor (x.columnExecutor round)).search
        (engines i).readers (r.shardRequest request)).retrievalMode = .and := by
      cases hor : (((engines i).searcher.withExecutor (x.columnExecutor round)).search
        (engines i).readers (r.shardRequest request)).retrievalMode with
      | and => rfl
      | orFallback =>
        rw [(h.scoring x round x.scoreOrder).gatheredMode_eq_orFallback_iff.mpr ⟨i, hor⟩] at hand
        cases hand
    have hsearch := ((x.fallsBackLike_withScores order round (r.shardRequest request)).search
      (engines i).searcher (engines i).readers).2 hmode
    exact congrArg (fun response => response.hits.map (fun hit => (hit.id, hit.score))) hsearch
  have hsorted : r.sortedHits (r.engineAnswers (Router.scoring x round order engines) request)
        request
      = r.sortedHits (r.engineAnswers (Router.scoring x round x.scoreOrder engines) request)
        request := by
    rw [sortedHits, sortedHits, (h.scoring x round order).allHits_eq,
      (h.scoring x round x.scoreOrder).allHits_eq]
    exact congrArg r.sortHits.run (List.flatMap_congr fun i _ => hshard i)
  rw [foundHits, foundHits, hsorted]

end Placed

/-- No shard is asked to index more than the calls are. -/
theorem withinFormat_ranTasks (writeBufferSize : Nat) (searcher : MultiSegmentSearcher)
    {calls : List (Call r.shards)} (hlen : (calls.flatMap Call.docs).length ≤ u32Max)
    {events : List (Fin r.shards × Op)} (hevents : events.Perm (calls.flatMap r.tasks))
    (i : Fin r.shards) :
    WithinFormat (r.ranTasks writeBufferSize searcher events i).readers := by
  have hsub : (r.taskDocs events i).Sublist
      ((List.finRange r.shards).flatMap (r.taskDocs events)) :=
    List.sublist_flatten_of_mem (List.mem_map_of_mem (List.mem_finRange i))
  rw [ranTasks_apply]
  exact withinFormat_runNew writeBufferSize searcher
    ((hsub.length_le.trans (flatMap_docs_perm hevents).length_eq.le).trans hlen)

variable (r request) in
/-- **The pages of a search** for anything, once calls that delete nothing, over documents with
distinct ids, are through, their tasks interleaved in any way, are cut out of lists of indexed
documents that are relevant to the request, each at most once, with scores that go down.  Without
a fallback they are all pages of one list; after a fallback each search has its own order of the
scores, and with it its own list. -/
theorem pages_relevant (hranker : r.ranker = noopRanker) (hscatter : r.scatterLimit < 2 ^ 64)
    (hwithin : x.analysis.Within) (hboost : PositiveBoosts x.schema)
    (hround : ∀ score, (round score).key ≠ none) (writeBufferSize : Nat)
    (searcher : MultiSegmentSearcher)
    (calls : List (Call r.shards)) (hcalls : ∀ call ∈ calls, call.AppendOnly)
    (hids : ((calls.flatMap Call.docs).map Document.id).Nodup)
    (hlen : (calls.flatMap Call.docs).length ≤ u32Max)
    (events : List (Fin r.shards × Op)) (hevents : events.Perm (calls.flatMap r.tasks))
    (hzone : request.NoZone) (hinclude : request.includeDocs = true) :
    ∃ (found : List (Document × F32)) (mode : RetrievalMode), ∀ order offset limit,
      ∃ response own,
        (r.searchLocal (scoring x round order (r.ranTasks writeBufferSize searcher events))
          (request.onPage offset limit)).1 = .ok response ∧
        response.retrievalMode = mode ∧
        (mode = .and → own = found) ∧
        response.hits = (page offset limit own).map shownHit ∧
        (own.map Prod.fst).Subperm (calls.flatMap Call.docs) ∧
        own.Pairwise (fun a b => partialCmp b.2.key a.2.key ≠ .gt) ∧
        ∀ p ∈ own, x.Relevant request.toSearchRequest mode p.1 := by
  have hplaced : r.Placed (r.ranTasks writeBufferSize searcher events) (r.taskDocs events) :=
    placed_ranTasks writeBufferSize searcher hcalls hids hevents
  have hperm : ((List.finRange r.shards).flatMap (r.taskDocs events)).Perm
      (calls.flatMap Call.docs) := flatMap_docs_perm hevents
  have hwhole : ∀ i, WithinFormat (r.ranTasks writeBufferSize searcher events i).readers :=
    withinFormat_ranTasks writeBufferSize searcher hlen hevents
  let found := fun order => r.foundHits
    (scoring x round order (r.ranTasks writeBufferSize searcher events)) (r.taskDocs events) request
  refine ⟨found x.scoreOrder, r.gatheredMode (r.engineAnswers
    (scoring x round x.scoreOrder (r.ranTasks writeBufferSize searcher events)) request) request,
    fun order offset limit => ?_⟩
  have hscoring := hplaced.scoring x round order
  have hexecutor : ∀ i, (scoring x round order (r.ranTasks writeBufferSize searcher events)
      i).searcher.executor = (x.withScores order).columnExecutor round := fun _ => rfl
  have hzone' : (request.onPage offset limit).NoZone := hzone
  obtain ⟨response, hok, hmode, hhits⟩ := hscoring.page_foundHits hranker hscatter hzone' hinclude
  have hsame : r.gatheredMode (r.engineAnswers (scoring x round order _) request) request = _ :=
    hplaced.gatheredMode_scoring order
  refine ⟨response, found order, hok, hmode.trans hsame, hplaced.foundHits_scoring order, hhits, ?_,
    hscoring.foundHits_ordered hexecutor hround, fun p hp => ?_⟩
  · exact (Multiset.coe_le.mp (hscoring.foundHits_le hexecutor hwithin hwhole)).trans hperm.subperm
  · have hrelevant := hscoring.foundHits_relevant hexecutor hwithin hwhole hboost hp
    rw [hsame] at hrelevant
    exact ⟨hrelevant.passes, hrelevant.meets⟩

/-- Three documents on two shards. -/
theorem pages_relevant_paired :
    ∃ (found : List (Document × F32)) (mode : RetrievalMode), ∀ order offset limit,
      ∃ response own,
        (paired.searchLocal (scoring plain (fun _ => F32.one) order
          (paired.ranTasks 1000 columnSearcher (pairedCalls.flatMap paired.tasks).reverse))
          (Request.onPage { includeDocs := true } offset limit)).1 = .ok response ∧
        response.retrievalMode = mode ∧
        (mode = .and → own = found) ∧
        response.hits = (page offset limit own).map shownHit ∧
        (own.map Prod.fst).Subperm (pairedCalls.flatMap Call.docs) ∧
        own.Pairwise (fun a b => partialCmp b.2.key a.2.key ≠ .gt) ∧
        ∀ p ∈ own, plain.Relevant {} mode p.1 :=
  paired.pages_relevant { includeDocs := true } rfl (by decide) within_plainAnalysis
    positiveBoosts_defaultProductSchema (fun _ => (by decide : F32.one.key ≠ none)) 1000
    columnSearcher pairedCalls (by decide) (by decide) (by decide)
    (pairedCalls.flatMap paired.tasks).reverse (List.reverse_perm _) (by decide) rfl

end Router

end ZearchEngine
