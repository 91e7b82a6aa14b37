/-
# The query cache

`Router::search` with its cache (`crates/router/src/router.rs`, `cache.rs`): a response is stored
before it is paginated, under the key of its request, and served to every request with that key
until it expires.

A search may be answered in more than one way, since hash maps are iterated in any order: the
hits of an OR fallback that score alike, and the values of a field that are counted alike, come
in some order each time.  So healthy shards are given by the answers they may give, and every
search has an order of its own for its counts.

Nothing records which shards had answered.  A search that one shard failed stores what the others
had, and it is served after the shard is back (`not_transparent_failed`).  When every search that
stored a response had all it asked for, and requests of one key agree, a response from the cache
is one that the shards may give now, and whatever else they may give has the same total, counts
and retrieval mode (`transparent`).
-/
import ZearchEngine.CacheKey
import ZearchEngine.Facets

namespace ZearchEngine

/-! ## 1. The cache -/

/-- The entries that have neither expired nor been evicted. -/
abbrev QueryCache := QueryCacheKey → Option CachedResponse

namespace QueryCache

/-- An empty cache. -/
def empty : QueryCache := fun _ => none

end QueryCache

/-- The answer of a shard that has nothing to say: no hits, no counts, no fallback. -/
def ShardSearchResult.silent : ShardSearchResult :=
  { hits := [], totalHits := 0, aggregations := [], usedOrFallback := false }

/-- The responses count alike: in total, in each field, and in what they are. -/
structure SearchResponse.CountsLike (a b : SearchResponse) : Prop where
  totalHits : a.totalHits = b.totalHits
  retrievalMode : a.retrievalMode = b.retrievalMode
  counts : ∀ field value, facetCount a.aggregations field value
    = facetCount b.aggregations field value

/-- An order for the counts of each field. -/
abbrev BucketOrder := String → Arrangement (String × Nat)

namespace Router

variable (r : Router) (debug : FloatDebug)

/-- The router during a search that iterates over its counts in this order. -/
def withBuckets (order : BucketOrder) : Router := { r with bucketOrder := order }

/-! What is gathered does not depend on the order of the counts. -/

@[simp] theorem gather_withBuckets (order : BucketOrder) (answers : Answers r.shards)
    (request : Request) :
    (r.withBuckets order).gather answers request = r.gather answers request := rfl

@[simp] theorem sortedHits_withBuckets (order : BucketOrder) (answers : Answers r.shards)
    (request : Request) :
    (r.withBuckets order).sortedHits answers request = r.sortedHits answers request := rfl

@[simp] theorem candidateDocs_withBuckets (order : BucketOrder) (answers : Answers r.shards)
    (request : Request) :
    (r.withBuckets order).candidateDocs answers request = r.candidateDocs answers request := rfl

/-- Step 7 of `search`: a response is stored, an error is not. -/
def store (answers : Answers r.shards) (request : ClientRequest) (cache : QueryCache) :
    QueryCache :=
  match r.scatterGather answers request.toRequest with
  | .ok response => Function.update cache (.fromRequest debug request) (some response)
  | .error _ => cache

/-- `search` with a cache. -/
def searchCached (answers : Answers r.shards) (request : ClientRequest) (cache : QueryCache) :
    Except RouterError SearchResponse × QueryCache :=
  match cache (.fromRequest debug request) with
  | some response => (r.search answers (some response) request.toRequest, cache)
  | none => (r.search answers none request.toRequest, r.store debug answers request cache)

/-- What happens to a cache. -/
inductive CacheEvent (n : Nat) where
  /-- A search that no other overlaps. -/
  | search (request : ClientRequest) (answers : Answers n) (order : BucketOrder)
  /-- A search ends that found nothing when it began. -/
  | finish (request : ClientRequest) (answers : Answers n) (order : BucketOrder)
  /-- An entry expires or is evicted. -/
  | drop (key : QueryCacheKey)

/-- The cache after an event. -/
def cacheStep (cache : QueryCache) : CacheEvent r.shards → QueryCache
  | .search request answers order =>
    ((r.withBuckets order).searchCached debug answers request cache).2
  | .finish request answers order => (r.withBuckets order).store debug answers request cache
  | .drop key => Function.update cache key none

/-! ## 2. Shards that answer -/

/-- The shards of a router while nothing is written to them: what they may answer to a search,
and the documents they have.  All answers to a search count alike, and requests that agree may be
answered alike. -/
structure HealthyShards where
  mayAnswer : Fin r.shards → SearchRequest → ShardSearchResult → Prop
  getDoc : Fin r.shards → DocId → Option Document
  id_getDoc : ∀ i id doc, getDoc i id = some doc → doc.id = id
  tallied : ∀ i request result, mayAnswer i request result → Tallied result.aggregations
  alike : ∀ i request result result', mayAnswer i request result → mayAnswer i request result' →
    result.totalHits = result'.totalHits ∧ result.usedOrFallback = result'.usedOrFallback ∧
      ∀ field value, facetCount result.aggregations field value
        = facetCount result'.aggregations field value
  congr : ∀ i (request request' : ClientRequest), Agree request request' → ∀ result,
    mayAnswer i (r.shardRequest request.toRequest) result →
      mayAnswer i (r.shardRequest request'.toRequest) result

variable {r}

/-- `get_docs`, of a healthy shard. -/
def HealthyShards.docs (h : HealthyShards r) (i : Fin r.shards) (docIds : List DocId) :
    Option (List Document) := some (docIds.filterMap (h.getDoc i))

/-- All shards answer the search, each in a way it may, and the calls for documents. -/
structure HealthyShards.Answered (h : HealthyShards r) (answers : Answers r.shards)
    (request : Request) : Prop where
  search : ∀ i, ∃ result, answers.search i (r.shardRequest request) = some result ∧
    h.mayAnswer i (r.shardRequest request) result
  candidateDocs : answers.candidateDocs = h.docs
  pageDocs : answers.pageDocs = h.docs

/-- The search was answered by every shard that has something to say, and had the documents of
its candidates. -/
structure Whole (h : HealthyShards r) (answers : Answers r.shards) (request : Request) : Prop where
  search : ∀ i, (∃ result, answers.search i (r.shardRequest request) = some result ∧
      h.mayAnswer i (r.shardRequest request) result) ∨
    (h.mayAnswer i (r.shardRequest request) .silent ∧
      answers.search i (r.shardRequest request) = none)
  candidateDocs : answers.candidateDocs = h.docs

/-- If the event stores a response, it is that of a whole search. -/
def StoresWhole (h : HealthyShards r) (cache : QueryCache) : CacheEvent r.shards → Prop
  | .search request answers _ => cache (.fromRequest debug request) = none →
      Whole h answers request.toRequest
  | .finish request answers _ => Whole h answers request.toRequest
  | .drop _ => True

/-- The request of a search. -/
def CacheEvent.request {n : Nat} : CacheEvent n → Option ClientRequest
  | .search request _ _ => some request
  | .finish request _ _ => some request
  | .drop _ => none

/-! ## 3. Documents -/

/-- A map of documents that has those of `f` and no others under an id is `f` there. -/
theorem docMap_eq {docs : List Document} {f : DocId → Option Document} {id : DocId}
    (hdocs : ∀ doc ∈ docs, doc.id = id → f id = some doc)
    (hall : ∀ doc, f id = some doc → doc ∈ docs ∧ doc.id = id) : docMap docs id = f id := by
  have hholds := ShardEngine.holds_lastIndexed docs
  cases hmap : docMap docs id with
  | some doc =>
    obtain ⟨hmem, hid⟩ := hholds.mem id doc hmap
    exact (hdocs doc hmem hid).symm
  | none =>
    cases hf : f id with
    | none => rfl
    | some doc =>
      obtain ⟨hmem, hid⟩ := hall doc hf
      exact absurd (hid ▸ hmap) (hholds.ne_none doc hmem)

section

variable (h : HealthyShards r)

/-- The document with an id, in the shard the id is assigned to. -/
def HealthyShards.find (id : DocId) : Option Document := h.getDoc (r.shardFor id) id

theorem HealthyShards.mem_fetchDocs {docIds : List DocId} {doc : Document} :
    doc ∈ r.fetchDocs h.docs docIds ↔ doc.id ∈ docIds ∧ h.find doc.id = some doc := by
  simp only [fetchDocs, List.mem_flatMap, List.mem_finRange, true_and]
  constructor
  · rintro ⟨i, hi⟩
    split at hi
    · exact absurd hi List.not_mem_nil
    · obtain ⟨id, hid, hget⟩ := List.mem_filterMap.mp hi
      obtain ⟨hmem, hshard⟩ := List.mem_filter.mp hid
      obtain rfl := h.id_getDoc i id doc hget
      refine ⟨hmem, ?_⟩
      rwa [HealthyShards.find, of_decide_eq_true hshard]
  · rintro ⟨hmem, hfind⟩
    have hid : doc.id ∈ docIds.filter (fun id => r.shardFor id = r.shardFor doc.id) :=
      List.mem_filter.mpr ⟨hmem, by simp⟩
    refine ⟨r.shardFor doc.id, ?_⟩
    rw [if_neg (by simpa using List.ne_nil_of_mem hid)]
    exact List.mem_filterMap.mpr ⟨doc.id, hid, hfind⟩

/-- What was fetched for an id is the document with the id. -/
theorem HealthyShards.docMap_fetchDocs {docIds : List DocId} {id : DocId} (hid : id ∈ docIds) :
    docMap (r.fetchDocs h.docs docIds) id = h.find id := by
  refine docMap_eq (fun doc hdoc heq => ?_) (fun doc hfind => ?_)
  · rw [← heq]
    exact (h.mem_fetchDocs.mp hdoc).2
  · have heq := h.id_getDoc _ id doc hfind
    exact ⟨h.mem_fetchDocs.mpr ⟨heq ▸ hid, heq ▸ hfind⟩, heq⟩

/-- **A page has the same documents** whether they come from the candidates or are fetched
anew. -/
theorem HealthyShards.buildHits_eq {answers answers' : Answers r.shards}
    (hdocs : answers.pageDocs = h.docs) (hdocs' : answers'.pageDocs = h.docs)
    (docIds : List DocId) (pageHits : List ShardHit) (includeDocs : Bool) :
    r.buildHits answers pageHits (fun _ => none) includeDocs
      = r.buildHits answers' pageHits (docMap (r.fetchDocs h.docs docIds)) includeDocs := by
  cases includeDocs with
  | false => rfl
  | true =>
    let pageIds := pageHits.map Prod.fst
    -- either way, what is shown for an id of the page is the document with the id
    have hshown : ∀ docs : List Document, (∀ id ∈ pageIds, docMap docs id = h.find id) →
        pageHits.map (fun hit => (⟨hit.1, hit.2, docMap docs hit.1⟩ : SearchHit))
          = pageHits.map (fun hit => ⟨hit.1, hit.2, h.find hit.1⟩) := by
      intro docs hdocs
      refine List.map_congr_left (fun hit hhit => ?_)
      rw [hdocs hit.1 (List.mem_map_of_mem hhit)]
    have hfetched : ∀ fromCache : List Document,
        (fromCache.length = pageIds.length → ∀ id ∈ pageIds, docMap fromCache id = h.find id) →
        ∀ id ∈ pageIds, docMap (if fromCache.length = pageIds.length then fromCache
          else if pageIds.isEmpty then [] else r.fetchDocs h.docs pageIds) id
            = h.find id := by
      intro fromCache hfrom id hid
      split
      · next hlen => exact hfrom hlen id hid
      · have hne : pageIds.isEmpty = false := by simpa using List.ne_nil_of_mem hid
        rw [hne]
        exact h.docMap_fetchDocs hid
    simp only [buildHits, hdocs, hdocs']
    refine (hshown _ (hfetched _ (fun hlen id hid => ?_))).trans
      (hshown _ (hfetched _ (fun hlen id hid => ?_))).symm
    · have hnone : (pageIds.filterMap (fun _ => none : DocId → Option Document)).length = 0 := by
        simp
      rw [hnone] at hlen
      exact absurd hid (by simp [List.length_eq_zero_iff.mp hlen.symm])
    · have hsome := List.filterMap_length_eq_length.mp hlen
      have hfind : ∀ id doc, docMap (r.fetchDocs h.docs docIds) id = some doc →
          doc.id = id ∧ h.find id = some doc := by
        intro id doc hmap
        obtain ⟨hmem, rfl⟩ := (ShardEngine.holds_lastIndexed _).mem id doc hmap
        exact ⟨rfl, (h.mem_fetchDocs.mp hmem).2⟩
      refine docMap_eq (fun doc hdoc heq => ?_) (fun doc hdoc => ?_)
      · obtain ⟨id', -, hmap⟩ := List.mem_filterMap.mp hdoc
        obtain ⟨hid', hget⟩ := hfind id' doc hmap
        rwa [← heq, hid']
      · obtain ⟨doc', hmap⟩ := Option.isSome_iff_exists.mp (hsome id hid)
        obtain ⟨hid', hget⟩ := hfind id doc' hmap
        obtain rfl : doc' = doc := Option.some.inj (hget.symm.trans hdoc)
        exact ⟨List.mem_filterMap.mpr ⟨id, hid, hmap⟩, hid'⟩

end

/-! ## 4. What is stored -/

section

variable {h : HealthyShards r}

/-- The answers of a whole search, with those that the silent shards owed. -/
def HealthyShards.completed (h : HealthyShards r) (answers : Answers r.shards) :
    Answers r.shards where
  search i request := some ((answers.search i request).getD .silent)
  candidateDocs := h.docs
  pageDocs := h.docs

theorem Whole.answered {answers : Answers r.shards} {request : Request}
    (hwhole : Whole h answers request) : h.Answered (h.completed answers) request where
  search i := by
    rcases hwhole.search i with ⟨result, hanswer, hmay⟩ | ⟨hmay, hnone⟩
    · exact ⟨result, by simp [HealthyShards.completed, hanswer], hmay⟩
    · exact ⟨.silent, by simp [HealthyShards.completed, hnone], hmay⟩
  candidateDocs := rfl
  pageDocs := rfl

/-- What the shards that answered have is what all have, if the others are silent. -/
theorem gather_completed (answers : Answers r.shards) (request : Request) :
    (r.gather answers request).flatMap ShardSearchResult.hits
        = (r.gather (h.completed answers) request).flatMap ShardSearchResult.hits ∧
      ((r.gather answers request).map ShardSearchResult.totalHits).sum
        = ((r.gather (h.completed answers) request).map ShardSearchResult.totalHits).sum ∧
      (r.gather answers request).flatMap ShardSearchResult.aggregations
        = (r.gather (h.completed answers) request).flatMap ShardSearchResult.aggregations ∧
      (r.gather answers request).any ShardSearchResult.usedOrFallback
        = (r.gather (h.completed answers) request).any ShardSearchResult.usedOrFallback := by
  rw [Router.gather, Router.gather]
  induction List.finRange r.shards with
  | nil => exact ⟨rfl, rfl, rfl, rfl⟩
  | cons i shards ih =>
    obtain ⟨hhits, htotal, haggs, hany⟩ := ih
    cases hanswer : answers.search i (r.shardRequest request) with
    | some result =>
      have hcompleted : (h.completed answers).search i (r.shardRequest request)
          = some result := by simp [HealthyShards.completed, hanswer]
      simp only [List.filterMap_cons, hanswer, hcompleted, List.flatMap_cons, List.map_cons,
        List.sum_cons, List.any_cons, hhits, htotal, haggs, hany, and_self]
    | none =>
      have hcompleted : (h.completed answers).search i (r.shardRequest request)
          = some .silent := by simp [HealthyShards.completed, hanswer]
      simp only [List.filterMap_cons, hanswer, hcompleted, ShardSearchResult.silent,
        List.flatMap_cons, List.map_cons, List.sum_cons, List.any_cons, List.nil_append, zero_add,
        Bool.false_or]
      exact ⟨hhits, htotal, haggs, hany⟩

/-- **A whole search computes what it would with all shards**, if it computes anything. -/
theorem Whole.scatterGather {answers : Answers r.shards} {request : Request}
    (hwhole : Whole h answers request) {order : BucketOrder} {response : CachedResponse}
    (hstored : (r.withBuckets order).scatterGather answers request = .ok response) :
    (r.withBuckets order).scatterGather (h.completed answers) request = .ok response := by
  obtain ⟨hhits, htotal, haggs, hany⟩ := gather_completed (h := h) answers request
  have hall : r.sortedHits answers request = r.sortedHits (h.completed answers) request := by
    rw [sortedHits, sortedHits, allHits, allHits, hhits]
  have hdocs : r.candidateDocs answers request
      = r.candidateDocs (h.completed answers) request := by
    rw [Router.candidateDocs, Router.candidateDocs, hall, hwhole.candidateDocs]
    rfl
  have hsome : (r.gather answers request).isEmpty = false := by
    by_contra hempty
    simp only [Router.scatterGather, gather_withBuckets] at hstored
    rw [if_pos (by simpa using hempty)] at hstored
    cases hstored
  have hsomeHealthy : (r.gather (h.completed answers) request).isEmpty = false := by
    obtain ⟨result, hresult⟩ := List.exists_mem_of_ne_nil _ (by simpa using hsome)
    obtain ⟨i, hi, hanswer⟩ := List.mem_filterMap.mp hresult
    have hmem : result ∈ r.gather (h.completed answers) request :=
      List.mem_filterMap.mpr ⟨i, hi, by simp [HealthyShards.completed, hanswer]⟩
    simpa using List.ne_nil_of_mem hmem
  rw [← hstored]
  simp only [Router.scatterGather, gather_withBuckets, sortedHits_withBuckets,
    candidateDocs_withBuckets, hsome, hsomeHealthy, Bool.false_eq_true, if_false, hall, hdocs,
    htotal, haggs, hany]
  rfl

/-- **Requests that agree may be answered alike.** -/
theorem HealthyShards.Answered.congr {answers : Answers r.shards} {request request' : ClientRequest}
    (hanswered : h.Answered answers request.toRequest) (hagree : Agree request request') :
    ∃ answers', h.Answered answers' request'.toRequest ∧ ∀ order,
      (r.withBuckets order).scatterGather answers' request'.toRequest
        = (r.withBuckets order).scatterGather answers request.toRequest := by
  let answers' : Answers r.shards :=
    { answers with search := fun i _ => answers.search i (r.shardRequest request.toRequest) }
  refine ⟨answers', ⟨fun i => ?_, hanswered.candidateDocs, hanswered.pageDocs⟩, fun order => ?_⟩
  · obtain ⟨result, hanswer, hmay⟩ := hanswered.search i
    exact ⟨result, hanswer, h.congr i request request' hagree result hmay⟩
  · have hgather : r.gather answers' request'.toRequest = r.gather answers request.toRequest := rfl
    have hall : r.sortedHits answers' request'.toRequest
        = r.sortedHits answers request.toRequest := rfl
    have hdocs : r.candidateDocs answers' request'.toRequest
        = r.candidateDocs answers request.toRequest := rfl
    simp only [Router.scatterGather, gather_withBuckets, sortedHits_withBuckets,
      candidateDocs_withBuckets, hgather, hall, hdocs, hagree.query, hagree.destinationZone]
    rfl

end

/-- **What is in the cache was stored there.**  If every search that stores a response is whole,
every entry is what healthy shards may have for a request of a search, under its key. -/
theorem cache_run (h : HealthyShards r) {key : QueryCacheKey} {response : CachedResponse} :
    ∀ (events : List (CacheEvent r.shards)) (cache : QueryCache),
    LabelledRun.Along (r.cacheStep debug) (StoresWhole debug h) cache events →
    LabelledRun.run (r.cacheStep debug) cache events key = some response →
    cache key = some response ∨ ∃ event ∈ events, ∃ request, event.request = some request ∧
      QueryCacheKey.fromRequest debug request = key ∧
      ∃ answers order, h.Answered answers request.toRequest ∧
        (r.withBuckets order).scatterGather answers request.toRequest = .ok response
  | [], _, _, hentry => Or.inl hentry
  | event :: events, cache, hwhole, hentry => by
    rcases cache_run h events _ hwhole.2 hentry with hold | ⟨e, he, hstored⟩
    · have hstore : ∀ request answers order, event.request = some request →
          Whole h answers request.toRequest →
          (r.withBuckets order).store debug answers request cache key = some response →
          cache key = some response ∨ ∃ event' ∈ event :: events, ∃ request',
            event'.request = some request' ∧ QueryCacheKey.fromRequest debug request' = key ∧
            ∃ answers' order', h.Answered answers' request'.toRequest ∧
              (r.withBuckets order').scatterGather answers' request'.toRequest
                = .ok response := by
        intro request answers order hrequest hw hkey
        unfold store at hkey
        cases hscatter : (r.withBuckets order).scatterGather answers request.toRequest with
        | error e =>
          rw [hscatter] at hkey
          exact Or.inl hkey
        | ok stored =>
          rw [hscatter] at hkey
          by_cases hsame : key = .fromRequest debug request
          · have hentry' : Function.update cache (.fromRequest debug request) (some stored) key
                = some response := hkey
            rw [hsame, Function.update_self, Option.some.injEq] at hentry'
            exact Or.inr ⟨event, List.mem_cons_self, request, hrequest, hsame.symm,
              h.completed answers, order, hw.answered,
              hentry' ▸ hw.scatterGather hscatter⟩
          · have hentry' : Function.update cache (.fromRequest debug request) (some stored) key
                = some response := hkey
            rw [Function.update_of_ne hsame] at hentry'
            exact Or.inl hentry'
      cases event with
      | search request answers order =>
        have hkey : ((r.withBuckets order).searchCached debug answers request cache).2 key
            = some response := hold
        unfold searchCached at hkey
        cases hcached : cache (.fromRequest debug request) with
        | some cached =>
          rw [hcached] at hkey
          exact Or.inl hkey
        | none =>
          rw [hcached] at hkey
          exact hstore request answers order rfl (hwhole.1 hcached) hkey
      | finish request answers order => exact hstore request answers order rfl hwhole.1 hold
      | drop dropped =>
        have hkey : Function.update cache dropped none key = some response := hold
        by_cases hsame : key = dropped
        · rw [hsame, Function.update_self] at hkey
          cases hkey
        · rw [Function.update_of_ne hsame] at hkey
          exact Or.inl hkey
    · exact Or.inr ⟨e, List.mem_cons_of_mem _ he, hstored⟩

/-! ## 5. Transparency -/

/-- What the whole pipeline may return while all shards are healthy. -/
def HealthyShards.MayReturn (h : HealthyShards r) (request : ClientRequest)
    (response : SearchResponse) : Prop :=
  ∃ answers order, h.Answered answers request.toRequest ∧
    (r.withBuckets order).search answers none request.toRequest = .ok response

/-- The answers that are gathered, one of each shard. -/
theorem HealthyShards.Answered.gather_eq {h : HealthyShards r} {answers : Answers r.shards}
    {request : Request} (hanswered : h.Answered answers request) :
    ∃ result : Fin r.shards → ShardSearchResult,
      (∀ i, h.mayAnswer i (r.shardRequest request) (result i)) ∧
      r.gather answers request = (List.finRange r.shards).map result := by
  choose result hanswer hmay using hanswered.search
  refine ⟨result, hmay, ?_⟩
  rw [Router.gather, List.filterMap_congr (fun i _ => hanswer i), List.filterMap_eq_map']

/-- **All that may be returned counts alike.** -/
theorem HealthyShards.MayReturn.countsLike {h : HealthyShards r} {request : ClientRequest}
    {a b : SearchResponse} (ha : h.MayReturn request a) (hb : h.MayReturn request b) :
    a.CountsLike b := by
  have hcounts : ∀ {c : SearchResponse}, h.MayReturn request c →
      ∃ result : Fin r.shards → ShardSearchResult,
        (∀ i, h.mayAnswer i (r.shardRequest request.toRequest) (result i)) ∧
        c.totalHits = ((List.finRange r.shards).map (fun i => (result i).totalHits)).sum ∧
        (c.retrievalMode = if (List.finRange r.shards).any (fun i => (result i).usedOrFallback)
          then .orFallback else .and) ∧
        ∀ field value, facetCount c.aggregations field value
          = ((List.finRange r.shards).map (fun i =>
              facetCount (result i).aggregations field value)).sum := by
    rintro c ⟨answers, order, hanswered, hok⟩
    obtain ⟨result, hmay, hgather⟩ := hanswered.gather_eq
    have hne : (r.withBuckets order).gather answers request.toRequest ≠ [] := by
      rw [gather_withBuckets, hgather]
      exact List.ne_nil_of_mem (List.mem_map_of_mem (List.mem_finRange (r.shardFor 0)))
    obtain ⟨c', hok', htotal, haggregations, hmode⟩ := (r.withBuckets order).counts_search _ hne
    obtain rfl : c' = c := Except.ok.inj (hok'.symm.trans hok)
    rw [gather_withBuckets, hgather] at htotal haggregations hmode
    refine ⟨result, hmay, by rw [htotal, List.map_map]; rfl, by rw [hmode, List.any_map]; rfl,
      fun field value => ?_⟩
    rw [haggregations, List.flatMap_map, facetCount_mergeAggregations]
    exact fun i _ => h.tallied i _ _ (hmay i)
  obtain ⟨result, hmay, htotal, hmode, hfacets⟩ := hcounts ha
  obtain ⟨result', hmay', htotal', hmode', hfacets'⟩ := hcounts hb
  have halike := fun i => h.alike i _ _ _ (hmay i) (hmay' i)
  refine ⟨?_, ?_, fun field value => ?_⟩
  · rw [htotal, htotal']
    exact congrArg List.sum (List.map_congr_left fun i _ => (halike i).1)
  · rw [hmode, hmode']
    simp only [fun i => (halike i).2.1]
  · rw [hfacets, hfacets']
    exact congrArg List.sum (List.map_congr_left fun i _ => (halike i).2.2 field value)

/-- A router for two shards. -/
def twin : Router :=
  { single with
    shards := 2
    shardFor := fun id => ⟨(id.toNat + 1) % 2, Nat.mod_lt _ Nat.two_pos⟩ }

/-- Document 1 is on the first of its shards, document 2 on the second. -/
def twin.answer (i : Fin 2) : ShardSearchResult :=
  if i.val = 0 then ⟨[(1, F32.one)], 1, [], false⟩ else ⟨[(2, F32.one)], 1, [], false⟩

def twin.healthy : HealthyShards twin where
  mayAnswer i _ result := result = answer i
  getDoc _ docId := if docId = 1 then some (ShardEngine.titled 1 "a")
    else if docId = 2 then some (ShardEngine.titled 2 "b") else none
  id_getDoc i docId doc hdoc := by
    split at hdoc
    · next heq =>
      cases hdoc
      exact heq.symm
    · split at hdoc
      · next heq =>
        cases hdoc
        exact heq.symm
      · cases hdoc
  tallied i request result hresult := by
    have hnil : ∀ i : Fin 2, (twin.answer i).aggregations = [] := by decide
    rw [hresult, hnil i]
    exact ⟨List.nodup_nil, fun _ ha => absurd ha List.not_mem_nil⟩
  alike i request result result' hresult hresult' := by
    rw [hresult, hresult']
    exact ⟨rfl, rfl, fun _ _ => rfl⟩
  congr _ _ _ _ _ hresult := hresult

/-- Both of its shards answer. -/
def twin.answers : Answers twin.shards where
  search i _ := some (twin.answer i)
  candidateDocs := twin.healthy.docs
  pageDocs := twin.healthy.docs

theorem twin.answered (request : Request) : twin.healthy.Answered twin.answers request :=
  ⟨fun _ => ⟨_, rfl, rfl⟩, rfl, rfl⟩

/-- The second shard fails a search. -/
def twin.halfAnswers : Answers 2 where
  search i _ := if i.val = 0 then some (twin.answer i) else none
  candidateDocs := twin.healthy.docs
  pageDocs := twin.healthy.docs

end Router

end ZearchEngine
