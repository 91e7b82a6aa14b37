/-
# Searching open segments

`MultiSegmentSearcher::search`, `QueryExecutor::execute` and `TopNCollector::collect`
(`crates/query/src/multi.rs`, `executor.rs`, `collector.rs`).  Each segment yields scored local
ids, the collector sorts and cuts the page out of all of them, and the page's documents are
fetched from the segments.

Scoring computes with floats over automata and postings and is a parameter of the executor,
with the column filters and counts; so is the order in which `sort_unstable_by` leaves documents
that compare as equal, and the order in which a `HashMap` of counts is iterated.  Whatever they
are, every hit is a document an open segment can read (`exists_reader_of_mem_hits`), and a
match-all request returns all of these documents (`documents_search_matchAll`).
-/
import ZearchEngine.Float
import ZearchEngine.Lib.Arrangement
import ZearchEngine.Segment
import Mathlib.Algebra.GroupWithZero.Nat
import Mathlib.Data.List.Dedup
import Mathlib.Data.List.Sort
import Mathlib.Data.Multiset.Basic

namespace ZearchEngine

/-! ## 1. Requests and responses -/

/-- Filter value in a search request. -/
inductive FilterValue where
  | equality (eq : String)
  | range (gte lte : Option F64)
  | multiValue (values : List String)
deriving DecidableEq

inductive SortOrder where
  | desc | asc
deriving DecidableEq

/-- Sort specification. -/
structure SortSpec where
  field : String
  order : SortOrder := .desc
deriving DecidableEq

/-- What a shard reads of a search request. -/
structure SearchRequest where
  query : String := ""
  filters : List (String × FilterValue) := []
  aggregations : List String := []
  sort : Option SortSpec := none
  offset : Nat := 0
  limit : Nat := 20
  typoTolerance : Bool := true
deriving DecidableEq

/-- A scored search hit. -/
structure SearchHit where
  id : DocId
  score : F32
  document : Option Document
deriving DecidableEq

inductive RetrievalMode where
  | and | orFallback
deriving DecidableEq

/-- The counts of an aggregation, by value. -/
abbrev Counts := List (String × Nat)

/-- A search response; the time it took is left out. -/
structure SearchResponse where
  hits : List SearchHit
  totalHits : Nat
  aggregations : List (String × Counts)
  reranked : Bool
  retrievalMode : RetrievalMode
  cacheHit : Bool
deriving DecidableEq

/-- The documents of the hits. -/
def SearchResponse.documents (resp : SearchResponse) : Multiset Document :=
  ↑(resp.hits.filterMap SearchHit.document)

/-- The hits are these documents, each under its own id. -/
def SearchResponse.Returns (resp : SearchResponse) (docs : Multiset Document) : Prop :=
  (↑(resp.hits.map (fun hit => (hit.id, hit.document))) : Multiset (DocId × Option Document))
    = docs.map (fun doc => (doc.id, some doc))

/-- A scored document candidate from a segment. -/
structure ScoredDoc where
  segmentOrd : Nat
  localDocId : LocalDocId
  globalDocId : DocId
  score : F32
  sortValue : Option F64
deriving DecidableEq

structure SegmentSearchResult where
  scoredDocs : List ScoredDoc
  totalHits : Nat
  aggregations : List (String × Counts)
  retrievalMode : RetrievalMode

/-! ## 2. One segment -/

/-- The parts of `QueryExecutor` that depend on the scoring of queries and on the column
store. -/
structure QueryExecutor where
  /-- `score_query_wand` with its OR fallback: local ids with their scores. -/
  scoreQuery : SegmentReader → SearchRequest → Option Bitmap →
    List (LocalDocId × F32) × RetrievalMode
  /-- The filters of the column store, before deletions are taken off. -/
  columnFilter : List Document → String → FilterValue → Bitmap
  /-- `ColumnStore::aggregate_counts`. -/
  aggregateCounts : List Document → String → Bitmap → Counts

namespace QueryExecutor

/-- `sort_value`. -/
def sortValue (reader : SegmentReader) (localDocId : LocalDocId) (sort : Option SortSpec) :
    Option F64 := do
  let spec ← sort
  let doc ← reader.getDoc localDocId
  if spec.field = "price" then some doc.price
  else
    match doc.attributes.get spec.field with
    | some (.number v) => some v
    | _ => none

variable (x : QueryExecutor)

/-- `build_filter_bitmap`: none if there is no filter. -/
def buildFilterBitmap (reader : SegmentReader) (request : SearchRequest) : Option Bitmap :=
  if request.filters.isEmpty then none
  else some (request.filters.foldl (fun combined (field, filter) =>
    combined ∩ (x.columnFilter reader.columns field filter \ reader.docs.deletionBitmap))
    reader.allLiveDocs.toFinset)

/-- The local ids a request without a query matches: the live ones, as far as the filters go. -/
def matching (reader : SegmentReader) (request : SearchRequest) : List LocalDocId :=
  match x.buildFilterBitmap reader request with
  | some f => reader.allLiveDocs.filter (fun i => i ∈ f)
  | none => reader.allLiveDocs

/-- `execute`. -/
def execute (reader : SegmentReader) (segmentOrd : Nat) (request : SearchRequest) :
    SegmentSearchResult :=
  let filterBitmap := x.buildFilterBitmap reader request
  let (scored, retrievalMode) : List ScoredDoc × RetrievalMode :=
    if request.query.isEmpty then
      let live := reader.allLiveDocs
      let matching := match filterBitmap with
        | some f => live.filter (fun i => i ∈ f)
        | none => live
      (matching.map (fun i =>
        { segmentOrd
          localDocId := i
          globalDocId := ((reader.getDoc i).map Document.id).getD (UInt64.ofNat i)
          score := F32.one
          sortValue := sortValue reader i request.sort }), .and)
    else
      let (results, mode) := x.scoreQuery reader request filterBitmap
      (results.filterMap (fun (i, score) => (reader.getDoc i).map (fun doc =>
        { segmentOrd
          localDocId := i
          globalDocId := doc.id
          score
          sortValue := sortValue reader i request.sort })), mode)
  let matchingBitmap : Bitmap := (scored.map ScoredDoc.localDocId).toFinset
  { scoredDocs := scored
    totalHits := scored.length
    -- collected into a `HashMap`: a field named twice is counted once
    aggregations := request.aggregations.dedup.map (fun field =>
      (field, x.aggregateCounts reader.columns field matchingBitmap))
    retrievalMode }

end QueryExecutor

/-! ## 3. The collector -/

/-- The comparison of `collect` under a sort specification. -/
def SortSpec.compare (spec : SortSpec) (a b : Option F64) : Ordering :=
  let av := (a.getD .negInfinity).key
  let bv := (b.getD .negInfinity).key
  match spec.order with
  | .asc => partialCmp av bv
  | .desc => partialCmp bv av

namespace ScoredDoc

/-- The comparison of `collect`: as the request asks, or else by score, descending. -/
def compare (sort : Option SortSpec) (a b : ScoredDoc) : Ordering :=
  match sort with
  | some spec => spec.compare a.sortValue b.sortValue
  | none => partialCmp b.score.key a.score.key

/-- What `collect` sorts by; none for a NaN. -/
def sortKey (sort : Option SortSpec) (a : ScoredDoc) : Option Int :=
  match sort with
  | some _ => (a.sortValue.getD .negInfinity).key
  | none => a.score.key

/-- The order of `collect` on documents without a NaN. -/
def LeFor (sort : Option SortSpec) (a b : ScoredDoc) : Prop :=
  if sort.map SortSpec.order = some .asc then
    (a.sortKey sort).getD 0 ≤ (b.sortKey sort).getD 0
  else (b.sortKey sort).getD 0 ≤ (a.sortKey sort).getD 0

instance (sort : Option SortSpec) : DecidableRel (LeFor sort) := fun _ _ =>
  inferInstanceAs (Decidable (if _ = _ then _ ≤ _ else _ ≤ _))

instance (sort : Option SortSpec) : IsTrans ScoredDoc (LeFor sort) where
  trans a b c hab hbc := by
    unfold LeFor at *
    split_ifs at * <;> omega

instance (sort : Option SortSpec) : Std.Total (LeFor sort) where
  total a b := by
    unfold LeFor
    split_ifs <;> omega

theorem leFor_iff {sort : Option SortSpec} {a b : ScoredDoc} (ha : a.sortKey sort ≠ none)
    (hb : b.sortKey sort ≠ none) : LeFor sort a b ↔ compare sort a b ≠ .gt := by
  cases sort with
  | none => exact (partialCmp_ne_gt_iff hb ha).symm
  | some spec =>
    obtain ⟨field, order⟩ := spec
    cases order with
    | asc => exact (partialCmp_ne_gt_iff ha hb).symm
    | desc => exact (partialCmp_ne_gt_iff hb ha).symm

theorem compare_ne_gt_of_leFor (sort : Option SortSpec) (a b : ScoredDoc)
    (ha : a.sortKey sort ≠ none) (hb : b.sortKey sort ≠ none) (h : LeFor sort a b) :
    compare sort a b ≠ .gt := (leFor_iff ha hb).mp h

end ScoredDoc

/-- `sort_unstable_by` in `collect`. -/
abbrev CollectSort (sort : Option SortSpec) :=
  UnstableSort (ScoredDoc.compare sort) (fun a => a.sortKey sort ≠ none)

/-- The sort that leaves documents that compare as equal as they come. -/
def CollectSort.stable (sort : Option SortSpec) : CollectSort sort :=
  UnstableSort.stable (ScoredDoc.LeFor sort) (ScoredDoc.compare_ne_gt_of_leFor sort) .keep

/-! ## 4. All segments -/

/-- The searcher: the executor, what `sort_unstable_by` makes of documents that compare as equal
and the order in which the `HashMap` of a field's counts is iterated. -/
structure MultiSegmentSearcher where
  executor : QueryExecutor
  sortUnstable : ∀ sort, CollectSort sort
  bucketOrder : String → Arrangement (String × Nat)

namespace MultiSegmentSearcher

/-- `buckets.sort_by(|a, b| b.count.cmp(&a.count))`, of a `HashMap` iterated in some order. -/
def sortBuckets (order : Arrangement (String × Nat)) (counts : Counts) : Counts :=
  (order.run counts).insertionSort (fun a b => b.2 ≤ a.2)

/-- `*bucket.entry(value).or_default() += count`. -/
def addCount (counts : Counts) (count : String × Nat) : Counts :=
  if counts.any (fun c => c.1 = count.1) then
    counts.map (fun c => if c.1 = count.1 then (c.1, c.2 + count.2) else c)
  else counts ++ [count]

/-- The counts of one segment for one field, added to those of the segments before. -/
def addAggregation (merged : List (String × Counts)) (aggregation : String × Counts) :
    List (String × Counts) :=
  let merged := if merged.any (fun m => m.1 = aggregation.1) then merged
    else merged ++ [(aggregation.1, [])]
  merged.map (fun m =>
    if m.1 = aggregation.1 then (m.1, aggregation.2.foldl addCount m.2) else m)

variable (m : MultiSegmentSearcher)

/-- `TopNCollector::collect`: the page, and the number of documents before it was cut. -/
def collect (docs : List ScoredDoc) (sort : Option SortSpec) (offset limit : Nat) :
    List ScoredDoc × Nat :=
  ((((m.sortUnstable sort).run docs).drop offset).take limit, docs.length)

theorem perm_sortUnstable (sort : Option SortSpec) (docs : List ScoredDoc) :
    ((m.sortUnstable sort).run docs).Perm docs := (m.sortUnstable sort).perm docs

/-- The results of the segments, in order. -/
def results (segments : List SegmentReader) (request : SearchRequest) :
    List SegmentSearchResult :=
  segments.zipIdx.map (fun (reader, ord) => m.executor.execute reader ord request)

/-- Fetch the document of a scored candidate. -/
def fetch (segments : List SegmentReader) (scored : ScoredDoc) : Option SearchHit := do
  let reader ← segments[scored.segmentOrd]?
  let doc ← reader.getDoc scored.localDocId
  some { id := doc.id, score := scored.score, document := some doc }

/-- `search`. -/
def search (segments : List SegmentReader) (request : SearchRequest) : SearchResponse :=
  let results := m.results segments request
  let allScored := results.flatMap SegmentSearchResult.scoredDocs
  let (page, _) := m.collect allScored request.sort request.offset request.limit
  { hits := page.filterMap (fetch segments)
    totalHits := (results.map SegmentSearchResult.totalHits).sum
    aggregations := ((results.flatMap SegmentSearchResult.aggregations).foldl addAggregation []).map
      (fun (field, counts) => (field, sortBuckets (m.bucketOrder field) counts))
    reranked := false
    retrievalMode := if results.any (fun r => r.retrievalMode = .orFallback) then .orFallback
      else .and
    cacheHit := false }

/-! ## 5. What is found -/

theorem fetch_eq_some {segments : List SegmentReader} {scored : ScoredDoc} {hit : SearchHit}
    (h : fetch segments scored = some hit) :
    ∃ reader ∈ segments, ∃ doc, reader.getDoc scored.localDocId = some doc ∧
      hit.document = some doc ∧ hit.id = doc.id := by
  simp only [fetch, Option.bind_eq_bind, Option.bind_eq_some_iff, Option.some.injEq] at h
  obtain ⟨reader, hreader, doc, hdoc, rfl⟩ := h
  exact ⟨reader, List.mem_of_getElem? hreader, doc, hdoc, rfl, rfl⟩

/-- **Every hit is a document some open segment can read**, under its own id. -/
theorem exists_reader_of_mem_hits {segments : List SegmentReader} {request : SearchRequest}
    {hit : SearchHit} (h : hit ∈ (m.search segments request).hits) :
    ∃ reader ∈ segments, ∃ i doc, reader.getDoc i = some doc ∧ hit.document = some doc ∧
      hit.id = doc.id := by
  obtain ⟨scored, -, hfetch⟩ := List.mem_filterMap.mp h
  obtain ⟨reader, hmem, doc, hdoc⟩ := fetch_eq_some hfetch
  exact ⟨reader, hmem, scored.localDocId, doc, hdoc⟩

/-- Every hit has a document, and its id. -/
theorem map_hits_search (segments : List SegmentReader) (request : SearchRequest) :
    (m.search segments request).hits.map (fun hit => (hit.id, hit.document))
      = ((m.search segments request).hits.filterMap SearchHit.document).map
          (fun doc => (doc.id, some doc)) := by
  have hlist : ∀ hits : List SearchHit,
      (∀ hit ∈ hits, ∃ doc, hit.document = some doc ∧ hit.id = doc.id) →
      hits.map (fun hit => (hit.id, hit.document))
        = (hits.filterMap SearchHit.document).map (fun doc => (doc.id, some doc)) := by
    intro hits
    induction hits with
    | nil => exact fun _ => rfl
    | cons hit hits ih =>
      intro h
      obtain ⟨doc, hdoc, hid⟩ := h hit List.mem_cons_self
      rw [List.map_cons, ih (fun hit hmem => h hit (List.mem_cons_of_mem _ hmem)),
        List.filterMap_cons_some hdoc, List.map_cons, hdoc, hid]
  refine hlist _ (fun hit hhit => ?_)
  obtain ⟨reader, -, i, doc, -, hdoc, hid⟩ := m.exists_reader_of_mem_hits hhit
  exact ⟨doc, hdoc, hid⟩

/-- A search returns the documents of its hits. -/
theorem returns_documents (segments : List SegmentReader) (request : SearchRequest) :
    (m.search segments request).Returns (m.search segments request).documents := by
  rw [SearchResponse.Returns, map_hits_search]
  rfl

end MultiSegmentSearcher

/-- A response returns one multiset of documents. -/
theorem SearchResponse.Returns.unique {response : SearchResponse} {docs docs' : Multiset Document}
    (h : response.Returns docs) (h' : response.Returns docs') : docs = docs' := by
  have hinj : Function.Injective (fun doc : Document => (doc.id, some doc)) := fun a b hab =>
    Option.some.inj (congrArg Prod.snd hab)
  exact Multiset.map_injective hinj (h.symm.trans h')

/-- **The hits for one id**, when these documents are returned. -/
theorem SearchResponse.Returns.hits_eq {response : SearchResponse} {docs : Multiset Document}
    (h : response.Returns docs) (docId : DocId) :
    (↑((response.hits.filter (fun hit => hit.id = docId)).map SearchHit.document) : Multiset _)
      = (docs.filter (fun doc => doc.id = docId)).map some := by
  have hfilter := congrArg (fun m => (m.filter (fun p => p.1 = docId)).map Prod.snd) h
  simp only [Multiset.filter_map, Multiset.map_map, Multiset.filter_coe, Multiset.map_coe,
    List.filter_map, List.map_map] at hfilter
  exact hfilter

/-- A document is the one hit for its id, if it is the one returned document with it. -/
theorem SearchResponse.Returns.found_once_iff {response : SearchResponse}
    {docs : Multiset Document} (h : response.Returns docs) (doc : Document) :
    (response.hits.filter (fun hit => hit.id = doc.id)).map SearchHit.document = [some doc] ↔
      docs.filter (fun d => d.id = doc.id) = {doc} := by
  have hinj : Function.Injective (Multiset.map (some : Document → Option Document)) :=
    Multiset.map_injective (Option.some_injective Document)
  rw [← hinj.eq_iff, ← h.hits_eq doc.id, Multiset.map_singleton]
  exact Multiset.coe_eq_singleton.symm

/-- A request without a query whose page has room for `n` documents. -/
structure SearchRequest.Lists (request : SearchRequest) (n : Nat) : Prop where
  query : request.query = ""
  offset : request.offset = 0
  limit : n ≤ request.limit

/-- A match-all request whose page has room for `n` documents. -/
structure SearchRequest.MatchAll (request : SearchRequest) (n : Nat) : Prop where
  query : request.query = ""
  filters : request.filters = []
  offset : request.offset = 0
  limit : n ≤ request.limit

theorem SearchRequest.MatchAll.mono {request : SearchRequest} {m n : Nat}
    (h : request.MatchAll n) (hmn : m ≤ n) : request.MatchAll m :=
  ⟨h.query, h.filters, h.offset, hmn.trans h.limit⟩

theorem QueryExecutor.matching_of_no_filters {request : SearchRequest}
    (h : request.filters = []) (x : QueryExecutor) (reader : SegmentReader) :
    x.matching reader request = reader.allLiveDocs := by
  simp [matching, buildFilterBitmap, h]

namespace MultiSegmentSearcher

variable (m : MultiSegmentSearcher) {request : SearchRequest} {n : Nat}

/-- A request without a query scores what matches in a segment. -/
theorem scoredDocs_execute (h : request.query = "") (x : QueryExecutor) (reader : SegmentReader)
    (ord : Nat) :
    (x.execute reader ord request).scoredDocs.map (fun s => (s.segmentOrd, s.localDocId))
      = (x.matching reader request).map (fun i => (ord, i)) := by
  have hquery : request.query.isEmpty = true := by rw [h]; rfl
  simp only [QueryExecutor.execute, hquery, if_true, List.map_map]
  rfl

theorem totalHits_execute (h : request.query = "") (x : QueryExecutor) (reader : SegmentReader)
    (ord : Nat) :
    (x.execute reader ord request).totalHits = (x.matching reader request).length := by
  have hscored := congrArg List.length (scoredDocs_execute h x reader ord)
  simpa [QueryExecutor.execute] using hscored

/-- The documents fetched for what matches in the segment at position `ord`. -/
theorem filterMap_fetch_execute (h : request.query = "") {segments : List SegmentReader}
    {reader : SegmentReader} {ord : Nat} (hord : segments[ord]? = some reader) :
    ((m.executor.execute reader ord request).scoredDocs.filterMap (fetch segments)).filterMap
      SearchHit.document = (m.executor.matching reader request).filterMap reader.getDoc := by
  have hfetch : ∀ s : ScoredDoc, (fetch segments s).bind SearchHit.document
      = (segments[s.segmentOrd]?).bind (fun r => r.getDoc s.localDocId) := by
    intro s
    simp only [fetch, Option.bind_eq_bind]
    cases segments[s.segmentOrd]? with
    | none => rfl
    | some r => cases hr : r.getDoc s.localDocId <;> simp [hr]
  have hpair : (m.executor.execute reader ord request).scoredDocs.filterMap
        (fun s => (fetch segments s).bind SearchHit.document)
      = ((m.executor.execute reader ord request).scoredDocs.map
          (fun s => (s.segmentOrd, s.localDocId))).filterMap
          (fun p => (segments[p.1]?).bind (fun r => r.getDoc p.2)) := by
    rw [List.filterMap_map]
    exact List.filterMap_congr (fun s _ => hfetch s)
  rw [List.filterMap_filterMap, hpair, scoredDocs_execute h, List.filterMap_map]
  refine List.filterMap_congr (fun i _ => ?_)
  simp [hord]

/-- `total_hits` of a request without a query counts what matches. -/
theorem totalHits_search (h : request.query = "") (segments : List SegmentReader) :
    (m.search segments request).totalHits
      = (segments.map (fun r => (m.executor.matching r request).length)).sum := by
  rw [search]
  simp only [results, List.map_map]
  refine congrArg List.sum ?_
  conv_rhs => rw [← List.zipIdx_map_fst 0 segments, List.map_map]
  exact List.map_congr_left (fun p _ => totalHits_execute h m.executor p.1 p.2)

/-- **A search without a query returns what matches in the segments**, when the page has room
for it. -/
theorem documents_search (segments : List SegmentReader)
    (h : request.Lists (segments.map (fun r => (m.executor.matching r request).length)).sum) :
    (m.search segments request).documents
      = ↑(segments.flatMap (fun r => (m.executor.matching r request).filterMap r.getDoc)) := by
  have hall : ∀ p ∈ segments.zipIdx, segments[p.2]? = some p.1 := fun p hp =>
    List.mem_zipIdx_iff_getElem?.mp hp
  -- all candidates, as the segments yield them
  have hlen : ((m.results segments request).flatMap SegmentSearchResult.scoredDocs).length
      = (segments.map (fun r => (m.executor.matching r request).length)).sum := by
    rw [← m.totalHits_search h.query segments, search, List.length_flatMap]
    simp only [results, List.map_map]
    rfl
  have hpage : (m.collect ((m.results segments request).flatMap SegmentSearchResult.scoredDocs)
      request.sort request.offset request.limit).1
      = (m.sortUnstable request.sort).run
          ((m.results segments request).flatMap SegmentSearchResult.scoredDocs) := by
    rw [collect, h.offset, List.drop_zero, List.take_of_length_le]
    rw [(m.perm_sortUnstable _ _).length_eq, hlen]
    exact h.limit
  have hdocs : (((m.results segments request).flatMap SegmentSearchResult.scoredDocs).filterMap
      (fetch segments)).filterMap SearchHit.document
      = segments.flatMap (fun r => (m.executor.matching r request).filterMap r.getDoc) := by
    rw [List.filterMap_flatMap, List.filterMap_flatMap, results, List.flatMap_map]
    have hsegs : segments.flatMap (fun r => (m.executor.matching r request).filterMap r.getDoc)
        = segments.zipIdx.flatMap
            (fun p => (m.executor.matching p.1 request).filterMap p.1.getDoc) := by
      conv_lhs => rw [← List.zipIdx_map_fst 0 segments, List.flatMap_map]
    rw [hsegs]
    exact List.flatMap_congr (fun p hp => filterMap_fetch_execute m h.query (hall p hp))
  rw [SearchResponse.documents, search]
  simp only [hpage]
  rw [← hdocs]
  exact Multiset.coe_eq_coe.mpr
    (((m.perm_sortUnstable _ _).filterMap _).filterMap _)

/-- **A match-all search returns the live documents of all segments**, when the page has room
for them. -/
theorem documents_search_matchAll (segments : List SegmentReader)
    (h : request.MatchAll (segments.map (fun r => r.allLiveDocs.length)).sum) :
    (m.search segments request).documents = ↑(segments.flatMap SegmentReader.liveDocuments) := by
  have hmatching : ∀ r, m.executor.matching r request = r.allLiveDocs :=
    QueryExecutor.matching_of_no_filters h.filters m.executor
  have hlists : request.Lists
      (segments.map (fun r => (m.executor.matching r request).length)).sum := by
    simpa only [hmatching] using ⟨h.query, h.offset, h.limit⟩
  have hdocs := m.documents_search segments hlists
  simpa only [hmatching, SegmentReader.filterMap_allLiveDocs] using hdocs

/-- `total_hits` of a match-all search counts the live documents. -/
theorem totalHits_search_matchAll (h : request.MatchAll n) (segments : List SegmentReader) :
    (m.search segments request).totalHits
      = (segments.map (fun r => r.allLiveDocs.length)).sum := by
  rw [m.totalHits_search h.query]
  simp only [QueryExecutor.matching_of_no_filters h.filters]

/-- A searcher for requests without a query: nothing is scored, and documents and values that
compare as equal stay in order. -/
def unscored : MultiSegmentSearcher where
  executor :=
    { scoreQuery := fun _ _ _ => ([], .and)
      columnFilter := fun _ _ _ => ∅
      aggregateCounts := fun _ _ _ => [] }
  sortUnstable := .stable
  bucketOrder _ := .keep

end MultiSegmentSearcher

end ZearchEngine
