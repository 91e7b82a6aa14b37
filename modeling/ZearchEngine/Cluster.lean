/-
# Healthy shards behind the router

The shards a router scatters to are engines with their documents (`Placed`): every document is
shown by the shard its id is assigned to, and that shard finds it.  Then the document of every
hit comes back (`fetchedHits_eq`), and a search of the router shows a page of what the shards
answered (`searchLocal_eq`).
-/
import ZearchEngine.Proto
import ZearchEngine.Router

namespace ZearchEngine

open ShardEngine

/-! ## 1. A match-all search of one shard, with any limit -/

theorem filterMap_take_of_isSome {α β : Type*} {f : α → Option β} :
    ∀ {l : List α}, (∀ a ∈ l, (f a).isSome) → ∀ n, (l.take n).filterMap f = (l.filterMap f).take n
  | [], _, n => by simp
  | a :: l, h, 0 => by simp
  | a :: l, h, n + 1 => by
    obtain ⟨b, hb⟩ := Option.isSome_iff_exists.mp (h a List.mem_cons_self)
    have ih := filterMap_take_of_isSome (fun a ha => h a (List.mem_cons_of_mem _ ha)) n
    rw [List.take_succ_cons, List.filterMap_cons_some hb, List.filterMap_cons_some hb,
      List.take_succ_cons, ih]

/-- A request for everything, from some position on. -/
structure SearchRequest.Browses (request : SearchRequest) : Prop where
  query : request.query = ""
  filters : request.filters = []

namespace MultiSegmentSearcher

variable (m : MultiSegmentSearcher) {request : SearchRequest}

/-- What a segment yields for a match-all request does not depend on the page. -/
theorem scoredDocs_execute_limit (h : request.query = "") (x : QueryExecutor)
    (reader : SegmentReader) (ord limit : Nat) :
    (x.execute reader ord { request with limit := limit }).scoredDocs
      = (x.execute reader ord request).scoredDocs := by
  have hempty : request.query.isEmpty = true := by rw [h]; rfl
  simp only [QueryExecutor.execute, hempty, if_true]
  rfl

theorem scoredDocs_results_limit (h : request.query = "") (segments : List SegmentReader)
    (limit : Nat) :
    (m.results segments { request with limit := limit }).flatMap SegmentSearchResult.scoredDocs
      = (m.results segments request).flatMap SegmentSearchResult.scoredDocs := by
  rw [results, results, List.flatMap_map, List.flatMap_map]
  exact List.flatMap_congr (fun p _ => scoredDocs_execute_limit h m.executor p.1 p.2 limit)

/-- `total_hits` counts the candidates. -/
theorem length_scoredDocs_results (segments : List SegmentReader) (request : SearchRequest) :
    ((m.results segments request).flatMap SegmentSearchResult.scoredDocs).length
      = (m.search segments request).totalHits := by
  rw [List.length_flatMap, search, results, List.map_map, List.map_map]
  rfl

end MultiSegmentSearcher

namespace ShardEngine

/-- **A match-all search shows the first `limit` documents**, in some order of all. -/
theorem search_browse {s : ShardEngine} (h : Inv s) {request : SearchRequest}
    (hreq : request.Browses) (hoffset : request.offset = 0) :
    ∃ response, search request s = (.ok response, s.refreshed) ∧
      ∃ docs : List Document, (↑docs : Multiset Document) = s.visible ∧
        response.hits.map (fun hit => (hit.id, hit.document))
          = (docs.take request.limit).map (fun doc => (doc.id, some doc)) := by
  refine ⟨_, search_eq h request, ?_⟩
  -- the same search, with room for all documents
  let all : SearchRequest := { request with limit := s.visible.card }
  have hall : all.MatchAll s.visible.card :=
    ⟨hreq.query, hreq.filters, hoffset, Nat.le_refl _⟩
  obtain ⟨full, hfull, hdocs, -, htotal⟩ := search_matchAll h hall
  obtain rfl : s.searcher.search s.readers all = full := by
    rw [search_eq h all] at hfull
    exact Except.ok.inj (Prod.mk.inj hfull).1
  let scored := (s.searcher.sortUnstable request.sort).run
    ((s.searcher.results s.readers request).flatMap SegmentSearchResult.scoredDocs)
  have hlen : scored.length = s.visible.card := by
    rw [(s.searcher.perm_sortUnstable _ _).length_eq,
      ← s.searcher.scoredDocs_results_limit hreq.query s.readers s.visible.card,
      MultiSegmentSearcher.length_scoredDocs_results]
    exact htotal
  have hits : ∀ limit, (s.searcher.search s.readers { request with limit := limit }).hits
      = (scored.take limit).filterMap (MultiSegmentSearcher.fetch s.readers) := by
    intro limit
    have hscored := s.searcher.scoredDocs_results_limit hreq.query s.readers limit
    show ((((s.searcher.sortUnstable request.sort).run _).drop request.offset).take limit).filterMap _
      = _
    rw [hscored, hoffset, List.drop_zero]
  have hfullHits : (s.searcher.search s.readers all).hits
      = scored.filterMap (MultiSegmentSearcher.fetch s.readers) := by
    rw [hits, List.take_of_length_le (Nat.le_of_eq hlen)]
  have hmap := s.searcher.map_hits_search s.readers all
  -- no candidate is dropped: there are as many hits as candidates
  have hsome : ∀ a ∈ scored, (MultiSegmentSearcher.fetch s.readers a).isSome := by
    have hcard : (s.searcher.search s.readers all).hits.length = s.visible.card := by
      have hlength := congrArg List.length hmap
      rw [List.length_map, List.length_map] at hlength
      rw [hlength, ← hdocs]
      rfl
    rw [← List.filterMap_length_eq_length, ← hfullHits, hcard, hlen]
  refine ⟨(s.searcher.search s.readers all).hits.filterMap SearchHit.document, hdocs, ?_⟩
  have htake : (s.searcher.search s.readers request).hits
      = (s.searcher.search s.readers all).hits.take request.limit := by
    rw [hfullHits, ← filterMap_take_of_isSome hsome]
    exact hits request.limit
  calc (s.searcher.search s.readers request).hits.map (fun hit => (hit.id, hit.document))
      = ((s.searcher.search s.readers all).hits.map
          (fun hit => (hit.id, hit.document))).take request.limit := by
        rw [htake, List.map_take]
    _ = _ := by rw [hmap, List.map_take]

theorem readers_refreshed (s : ShardEngine) : s.refreshed.readers = s.readers := by
  have hlive : s.writeBuffer.refreshed.liveReader = s.writeBuffer.liveReader := by
    rw [WriteBuffer.liveReader, WriteBuffer.liveReader, WriteBuffer.allDocs, WriteBuffer.allDocs,
      WriteBuffer.refreshed_docs, WriteBuffer.refreshed_deletedIds]
  rw [readers, readers, refreshed, hlive]

theorem visible_refreshed (s : ShardEngine) : s.refreshed.visible = s.visible := by
  rw [visible, visible, refreshed, WriteBuffer.allDocs, WriteBuffer.allDocs,
    WriteBuffer.refreshed_docs, WriteBuffer.refreshed_deletedIds]

theorem getDocs_refreshed (s : ShardEngine) (docIds : List DocId) :
    s.refreshed.getDocs docIds = s.getDocs docIds := by
  rw [getDocs, getDocs, refreshed, WriteBuffer.refreshed_docs]

/-- A document that is found for its id is found among others. -/
theorem mem_getDocs {s : ShardEngine} {doc : Document} {docIds : List DocId}
    (hdoc : s.getDocs [doc.id] = [doc]) (hid : doc.id ∈ docIds) : doc ∈ s.getDocs docIds := by
  have hone : doc ∈ s.getDocs [doc.id] := by rw [hdoc]; exact List.mem_singleton_self doc
  rw [getDocs, List.mem_filterMap] at hone ⊢
  obtain ⟨id, hmem, hget⟩ := hone
  obtain rfl := List.mem_singleton.mp hmem
  exact ⟨doc.id, hid, hget⟩

/-- What `get_docs` finds, the shard holds. -/
theorem mem_holds_of_mem_getDocs {s : ShardEngine} (h : Inv s) {docIds : List DocId}
    {doc : Document} (hdoc : doc ∈ s.getDocs docIds) : doc ∈ s.holds := by
  obtain ⟨id, -, hget⟩ := List.mem_filterMap.mp hdoc
  refine Multiset.mem_add.mpr ?_
  split at hget
  · next found hsegments =>
    obtain rfl := Option.some.inj hget
    exact Or.inl (h.synced.of_getDoc_eq_some hsegments).1
  · exact Or.inr (List.mem_of_find?_eq_some hget)

/-- Every hit is a document the shard shows, and has it. -/
theorem Inv.document_of_mem_hits {s : ShardEngine} (h : Inv s) {request : SearchRequest}
    {hit : SearchHit} (hhit : hit ∈ (s.searcher.search s.readers request).hits) :
    ∃ doc ∈ s.visible, hit.id = doc.id ∧ hit.document = some doc := by
  obtain ⟨reader, hreader, i, doc, hget, hdoc, hid⟩ :=
    s.searcher.exists_reader_of_mem_hits hhit
  obtain ⟨docs, deleted, rfl⟩ := h.readable.ofDocs_of_mem_readers hreader
  refine ⟨doc, ?_, hid, hdoc⟩
  rw [visible, Multiset.coe_add, ← flatMap_readers, Multiset.mem_coe]
  exact List.mem_flatMap.mpr ⟨_, hreader, SegmentReader.mem_liveDocuments_of_getDoc hget⟩

theorem Inv.exists_visible_of_mem_hits {s : ShardEngine} (h : Inv s) {request : SearchRequest}
    {hit : SearchHit} (hhit : hit ∈ (s.searcher.search s.readers request).hits) :
    ∃ doc ∈ s.visible, doc.id = hit.id := by
  obtain ⟨doc, hdoc, hid, -⟩ := h.document_of_mem_hits hhit
  exact ⟨doc, hdoc, hid.symm⟩

end ShardEngine

/-! ## 2. Shards behind a router -/

/-- `LocalShardClient::search`: ids and scores only. -/
def LocalShardClient.search (request : SearchRequest) : ShardM ShardSearchResult := do
  let resp ← ShardEngine.search request
  pure
    { hits := resp.hits.map (fun hit => (hit.id, hit.score))
      totalHits := resp.totalHits
      aggregations := resp.aggregations
      usedOrFallback := resp.retrievalMode = .orFallback }

namespace Router

variable (r : Router)

/-- The shards after a search. -/
def searched (engines : Fin r.shards → ShardEngine) (request : Request) (i : Fin r.shards) :
    ShardEngine :=
  (LocalShardClient.search (r.shardRequest request) (engines i)).2

/-- What healthy shards answer to a search, and to the calls after it. -/
def engineAnswers (engines : Fin r.shards → ShardEngine) (request : Request) :
    Answers r.shards where
  search i request := (LocalShardClient.search request (engines i)).1.toOption
  candidateDocs i docIds := some (LocalShardClient.getDocs (r.searched engines request i) docIds)
  pageDocs i docIds := some (LocalShardClient.getDocs (r.searched engines request i) docIds)

/-- A search of healthy shards, with no cache. -/
def searchLocal (engines : Fin r.shards → ShardEngine) (request : Request) :
    Except RouterError SearchResponse × (Fin r.shards → ShardEngine) :=
  (r.search (r.engineAnswers engines request) none request, r.searched engines request)

/-- The documents of each shard: it shows them and finds them, their ids are distinct, and the
router assigns them to the shard. -/
structure Placed (engines : Fin r.shards → ShardEngine) (docs : Fin r.shards → List Document) :
    Prop where
  inv : ∀ i, Inv (engines i)
  visible : ∀ i, (engines i).visible = ↑(docs i)
  found : ∀ i, ∀ doc ∈ docs i, (engines i).getDocs [doc.id] = [doc]
  nodup : ∀ i, ((docs i).map Document.id).Nodup
  assigned : ∀ i, ∀ doc ∈ docs i, r.shardFor doc.id = i

/-- **Shards after runs that delete nothing** hold what was indexed through the router. -/
theorem placed_runNew (writeBufferSize : Nat) (searcher : MultiSegmentSearcher)
    (ops : Fin r.shards → List Op) (hops : ∀ i, ∀ op ∈ ops i, op.AppendOnly)
    (hids : ∀ i, (((ops i).flatMap Op.docs).map Document.id).Nodup)
    (hassigned : ∀ i, ∀ doc ∈ (ops i).flatMap Op.docs, r.shardFor doc.id = i) :
    r.Placed (fun i => runNew writeBufferSize searcher (ops i))
      (fun i => (ops i).flatMap Op.docs) where
  inv i := inv_runNew writeBufferSize searcher (ops i)
  visible i := by
    rw [(exact_runNew writeBufferSize searcher (hops i)).visible, indexedDocs_flatMap_entries]
  found i doc hdoc := by
    have hexact := exact_runNew writeBufferSize searcher (hops i)
    rw [← indexedDocs_flatMap_entries] at hdoc
    refine hexact.getDocs (inv_runNew writeBufferSize searcher (ops i)) ?_ hdoc
    rw [indexedDocs_flatMap_entries]
    exact hids i
  nodup := hids
  assigned := hassigned

/-- What one shard answers. -/
def shardResult (engines : Fin r.shards → ShardEngine) (request : Request) (i : Fin r.shards) :
    ShardSearchResult :=
  let response := (engines i).searcher.search (engines i).readers (r.shardRequest request)
  { hits := response.hits.map (fun hit => (hit.id, hit.score))
    totalHits := response.totalHits
    aggregations := response.aggregations
    usedOrFallback := response.retrievalMode = .orFallback }

variable {r} {engines : Fin r.shards → ShardEngine} {docs : Fin r.shards → List Document}
  {request : Request}

theorem localSearch_eq {i : Fin r.shards} (h : Inv (engines i)) (request : Request) :
    LocalShardClient.search (r.shardRequest request) (engines i)
      = (.ok (r.shardResult engines request i), (engines i).refreshed) := by
  rw [LocalShardClient.search, ShardM.bind_ok (ShardEngine.search_eq h (r.shardRequest request))]
  rfl

namespace Placed

variable (h : r.Placed engines docs)
include h

theorem searched_eq (request : Request) :
    r.searched engines request = fun i => (engines i).refreshed := by
  funext i
  rw [searched, localSearch_eq (h.inv i)]

theorem gather_eq (request : Request) : r.gather (r.engineAnswers engines request) request
    = (List.finRange r.shards).map (r.shardResult engines request) := by
  have hanswer : ∀ i, (r.engineAnswers engines request).search i (r.shardRequest request)
      = some (r.shardResult engines request i) := by
    intro i
    show (LocalShardClient.search (r.shardRequest request) (engines i)).1.toOption = _
    rw [localSearch_eq (h.inv i)]
    rfl
  rw [gather, List.filterMap_congr (fun i _ => hanswer i), List.filterMap_eq_map']

theorem allHits_eq (request : Request) :
    r.allHits (r.engineAnswers engines request) request
      = (List.finRange r.shards).flatMap (fun i => (r.shardResult engines request i).hits) := by
  rw [allHits, h.gather_eq, List.flatMap_map]

theorem gather_ne_nil (request : Request) :
    r.gather (r.engineAnswers engines request) request ≠ [] := by
  rw [h.gather_eq]
  exact List.ne_nil_of_mem (List.mem_map_of_mem (List.mem_finRange (r.shardFor 0)))

/-- Every hit is a document of its shard. -/
theorem exists_doc_of_mem_allHits {hit : ShardHit}
    (hhit : hit ∈ r.allHits (r.engineAnswers engines request) request) :
    ∃ i, ∃ doc ∈ docs i, doc.id = hit.1 := by
  rw [h.allHits_eq] at hhit
  obtain ⟨i, -, hmem⟩ := List.mem_flatMap.mp hhit
  obtain ⟨searchHit, hsearchHit, rfl⟩ := List.mem_map.mp hmem
  obtain ⟨doc, hdoc, hid⟩ := (h.inv i).exists_visible_of_mem_hits hsearchHit
  rw [h.visible i, Multiset.mem_coe] at hdoc
  exact ⟨i, doc, hdoc, hid⟩

/-- **The document of every hit comes back** from healthy shards. -/
theorem fetched {hit : ShardHit}
    (hhit : hit ∈ r.allHits (r.engineAnswers engines request) request) :
    r.Fetched (r.engineAnswers engines request) request hit.1 := by
  obtain ⟨i, doc, hdoc, hid⟩ := h.exists_doc_of_mem_allHits hhit
  refine ⟨doc, ?_, hid⟩
  let ids := ((r.sortedHits (r.engineAnswers engines request) request).map Prod.fst).filter
    (fun id => r.shardFor id = i)
  have hmem : doc.id ∈ ids := by
    refine List.mem_filter.mpr ⟨?_, by simpa using h.assigned i doc hdoc⟩
    rw [hid]
    exact List.mem_map_of_mem (mem_sortedHits.mpr hhit)
  have hne : ids.isEmpty = false := by simpa using List.ne_nil_of_mem hmem
  refine List.mem_flatMap.mpr ⟨i, List.mem_finRange i, ?_⟩
  show doc ∈ if ids.isEmpty then []
    else LocalShardClient.getDocs (r.searched engines request i) ids
  rw [hne, h.searched_eq]
  show doc ∈ (engines i).refreshed.getDocs ids
  rw [getDocs_refreshed]
  exact mem_getDocs (h.found i doc hdoc) hmem

theorem fetchedHits_eq (request : Request) :
    r.fetchedHits (r.engineAnswers engines request) request
      = r.sortedHits (r.engineAnswers engines request) request := by
  rw [fetchedHits, List.filter_eq_self]
  intro hit hhit
  exact isSome_docMap.mpr (h.fetched (mem_sortedHits.mp hhit))

/-- **A search of healthy shards** shows a page of what they answered. -/
theorem searchLocal_eq (hranker : r.ranker = noopRanker) (hzone : request.NoZone) :
    ∃ response, (r.searchLocal engines request).1 = .ok response ∧
      response.hits.map (fun hit => (hit.id, hit.score)) = page request.offset request.limit
        (r.sortedHits (r.engineAnswers engines request) request) := by
  obtain ⟨response, hok, hhits, -⟩ := search_eq hranker hzone (h.gather_ne_nil request)
  exact ⟨response, hok, by rw [hhits, h.fetchedHits_eq]⟩

/-- A search leaves the shards as they were, as far as they show. -/
theorem refreshed : r.Placed (fun i => (engines i).refreshed) docs where
  inv i := (h.inv i).refreshed
  visible i := by rw [visible_refreshed, h.visible]
  found i doc hdoc := by rw [getDocs_refreshed, h.found i doc hdoc]
  nodup := h.nodup
  assigned := h.assigned

theorem sortedHits_refreshed (request : Request) :
    r.sortedHits (r.engineAnswers (fun i => (engines i).refreshed) request) request
      = r.sortedHits (r.engineAnswers engines request) request := by
  rw [sortedHits, sortedHits, h.allHits_eq, h.refreshed.allHits_eq]
  have hshard : ∀ i, r.shardResult (fun i => (engines i).refreshed) request i
      = r.shardResult engines request i := by
    intro i
    rw [shardResult, shardResult, readers_refreshed]
    rfl
  simp only [hshard]

end Placed

end Router

end ZearchEngine
