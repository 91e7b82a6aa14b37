/-
# Availability

The strategies that drop what is not to be had where the order goes (`availability.rs`): by a
stock attribute of the candidates' documents, or by asking a stock service.  The router applies
its strategy after ranking, to the whole list of candidates, and stores what is left; a page is
cut from that.

The attribute is read from the documents as they arrived.  What a response shows for a zone was
found available when its candidates were fetched, whatever the ranker made of the list, and
however often it was served from the cache since (`shown_available`).  With healthy shards the
page is cut from the available hits and nothing else is missing (`searchClients_eq`); but a
stock that is a number does not arrive from a remote shard (`isAvailable_received`).
-/
import ZearchEngine.QueryCache
import ZearchEngine.RemoteCluster

namespace ZearchEngine

/-! ## 1. Strategies -/

/-- `StaticAvailabilityConfig`, with its defaults. -/
structure StaticAvailabilityConfig where
  stockAttributePrefix : String := "stock_"
  defaultAvailable : Bool := true
  /-- 1.0 -/
  minStock : F64 := ⟨0x3ff0000000000000⟩
deriving DecidableEq

/-- `RegionStockConfig`, with its default. -/
structure RegionStockConfig where
  baseUrl : String
  timeoutMs : Nat := 50
deriving DecidableEq

inductive AvailabilityStrategyType where
  | noop | static | regionStock
deriving DecidableEq

/-- `AvailabilityConfig`. -/
structure AvailabilityConfig where
  strategy : AvailabilityStrategyType := .noop
  static : Option StaticAvailabilityConfig := none
  regionStock : Option RegionStockConfig := none

/-- `s.parse::<f64>()`. -/
abbrev ParseF64 := String → Option F64

/-- What the stock service at an address answers for a zone and some ids: the ids available.
None is an error, a timeout, or an answer that is not a success or cannot be parsed. -/
abbrev StockService := RegionStockConfig → String → List DocId → Option (List DocId)

/-- The closure of `retain`, for the document of a candidate. -/
def StaticAvailabilityConfig.isAvailable (cfg : StaticAvailabilityConfig) (parse : ParseF64)
    (zone : String) (doc : Option Document) : Bool :=
  match doc with
  | none => cfg.defaultAvailable
  | some doc =>
    match doc.attributes.get (cfg.stockAttributePrefix ++ zone) with
    | none => cfg.defaultAvailable
    | some (.number n) => cfg.minStock.le n
    | some (.string s) =>
      match parse s with
      | some n => cfg.minStock.le n
      | none => cfg.defaultAvailable
    | some _ => cfg.defaultAvailable

/-- `StaticAvailabilityStrategy`. -/
def staticAvailabilityStrategy (cfg : StaticAvailabilityConfig) (parse : ParseF64) :
    AvailabilityStrategy where
  apply candidates docs zone :=
    candidates.filter (fun hit => cfg.isAvailable parse zone (docs hit.1))
  candidateMultiplier := 3

/-- `RegionStockStrategy`: a service that fails removes nothing. -/
def regionStockStrategy (cfg : RegionStockConfig) (service : StockService) :
    AvailabilityStrategy where
  apply candidates _docs zone :=
    if candidates.isEmpty then candidates
    else
      match service cfg zone (candidates.map Prod.fst) with
      | some available => candidates.filter (fun hit => hit.1 ∈ available)
      | none => candidates
  candidateMultiplier := 3

/-- `build_strategy`: none where the source gives up, for want of an address. -/
def buildStrategy (config : AvailabilityConfig) (parse : ParseF64) (service : StockService) :
    Option AvailabilityStrategy :=
  match config.strategy with
  | .noop => some noopStrategy
  | .static => some (staticAvailabilityStrategy (config.static.getD {}) parse)
  | .regionStock => config.regionStock.map (fun cfg => regionStockStrategy cfg service)

/-- **A strategy only removes**, and keeps the order of what is left. -/
theorem sublist_buildStrategy {config : AvailabilityConfig} {parse : ParseF64}
    {service : StockService} {strategy : AvailabilityStrategy}
    (h : buildStrategy config parse service = some strategy) (candidates : List ShardHit)
    (docs : DocId → Option Document) (zone : String) :
    (strategy.apply candidates docs zone).Sublist candidates := by
  unfold buildStrategy at h
  cases hstrategy : config.strategy with
  | noop =>
    rw [hstrategy] at h
    obtain rfl := Option.some.inj h
    exact List.Sublist.refl candidates
  | static =>
    rw [hstrategy] at h
    obtain rfl := Option.some.inj h
    exact List.filter_sublist
  | regionStock =>
    rw [hstrategy] at h
    obtain ⟨cfg, -, rfl⟩ := Option.map_eq_some_iff.mp h
    simp only [regionStockStrategy]
    split
    · exact List.Sublist.refl candidates
    · split
      · exact List.filter_sublist
      · exact List.Sublist.refl candidates

/-! ## 2. Through the cache -/

theorem map_eq_ok {ε α β : Type} {f : α → β} {x : Except ε α} {b : β} (h : x.map f = .ok b) :
    ∃ a, x = .ok a ∧ f a = b := by
  cases x with
  | error e => cases h
  | ok a => exact ⟨a, rfl, Except.ok.inj h⟩

namespace Router

variable (r : Router) (debug : FloatDebug)

/-- What a search is asked and answered, if the event is one. -/
def CacheEvent.asked {n : Nat} : CacheEvent n → Option (ClientRequest × Answers n)
  | .search request answers _ => some (request, answers)
  | .finish request answers _ => some (request, answers)
  | .drop _ => none

/-- What a search stores is what it computed, under its key. -/
theorem store_eq_some {order : BucketOrder} {answers : Answers r.shards} {request : ClientRequest}
    {cache : QueryCache} {key : QueryCacheKey} {response : CachedResponse}
    (h : (r.withBuckets order).store debug answers request cache key = some response) :
    cache key = some response ∨ (.fromRequest debug request = key ∧
      (r.withBuckets order).scatterGather answers request.toRequest = .ok response) := by
  unfold store at h
  cases hscatter : (r.withBuckets order).scatterGather answers request.toRequest with
  | error e =>
    rw [hscatter] at h
    exact Or.inl h
  | ok stored =>
    rw [hscatter] at h
    by_cases hkey : key = .fromRequest debug request
    · subst hkey
      have hstored : Function.update cache (.fromRequest debug request) (some stored)
          (.fromRequest debug request) = some response := h
      rw [Function.update_self, Option.some.injEq] at hstored
      exact Or.inr ⟨rfl, by rw [hstored]⟩
    · have hold : Function.update cache (.fromRequest debug request) (some stored) key
          = some response := h
      rw [Function.update_of_ne hkey] at hold
      exact Or.inl hold

/-- **What the cache holds was computed by a search of the run**, for a request with its key. -/
theorem computed_of_cached {key : QueryCacheKey} {response : CachedResponse} :
    ∀ (events : List (CacheEvent r.shards)) (cache : QueryCache),
    LabelledRun.run (r.cacheStep debug) cache events key = some response →
    cache key = some response ∨ ∃ event ∈ events, ∃ request answers order,
      event.asked = some (request, answers) ∧ .fromRequest debug request = key ∧
      (r.withBuckets order).scatterGather answers request.toRequest = .ok response
  | [], _, hentry => Or.inl hentry
  | event :: events, cache, hentry => by
    rcases computed_of_cached events _ hentry with hold | ⟨e, he, hcomputed⟩
    · cases event with
      | search request answers order =>
        have hkey : ((r.withBuckets order).searchCached debug answers request cache).2 key
            = some response := hold
        unfold searchCached at hkey
        cases hcached : cache (.fromRequest debug request) with
        | some cached =>
          rw [hcached] at hkey
          exact Or.inl hkey
        | none =>
          rw [hcached] at hkey
          rcases r.store_eq_some debug hkey with hcache | ⟨hsame, hscatter⟩
          · exact Or.inl hcache
          · exact Or.inr ⟨_, List.mem_cons_self, request, answers, order, rfl, hsame, hscatter⟩
      | finish request answers order =>
        rcases r.store_eq_some debug hold with hcache | ⟨hsame, hscatter⟩
        · exact Or.inl hcache
        · exact Or.inr ⟨_, List.mem_cons_self, request, answers, order, rfl, hsame, hscatter⟩
      | drop dropped =>
        have hkey : Function.update cache dropped none key = some response := hold
        by_cases hsame : key = dropped
        · rw [hsame, Function.update_self] at hkey
          cases hkey
        · rw [Function.update_of_ne hsame] at hkey
          exact Or.inl hkey
    · exact Or.inr ⟨e, List.mem_cons_of_mem _ he, hcomputed⟩

/-- **For a zone the strategy is applied** to what there is without one. -/
theorem scatterGather_zone (answers : Answers r.shards) {request : Request} {zone : String}
    (hzone : request.destinationZone = some zone) (hne : zone ≠ "") :
    r.scatterGather answers request
      = (r.scatterGather answers { request with destinationZone := none }).map (fun response =>
          { response with
            hits := r.availability.apply response.hits
              (docMap (r.candidateDocs answers request)) zone }) := by
  have hempty : zone.isEmpty = false := by simpa using hne
  have hgather : r.gather answers { request with destinationZone := none }
      = r.gather answers request := rfl
  by_cases hnone : (r.gather answers request).isEmpty = true
  · simp only [scatterGather, hgather, hnone, if_true]
    rfl
  · simp only [scatterGather, hgather, if_neg hnone, hzone, hempty, Bool.false_eq_true, if_false]
    rfl

/-- The ids that a response shows are among those it has, cached or not. -/
theorem exists_hit_of_shown {answers : Answers r.shards} {request : Request}
    {docs : DocId → Option Document} {cacheHit : Bool} {cached : CachedResponse} {hit : SearchHit}
    (h : hit ∈ (r.respond answers request docs cacheHit cached).hits) :
    (hit.id, hit.score) ∈ cached.hits := by
  have hmem : (hit.id, hit.score) ∈ page request.offset request.limit cached.hits := by
    rw [← map_hits_respond answers request docs cacheHit cached]
    exact List.mem_map_of_mem h
  exact List.mem_of_mem_drop (List.mem_of_mem_take hmem)

/-- **What is shown for a zone was available there.**  In any run of searches that share a
cache, overlapping or not, whatever the shards answer and whatever the ranker makes of it, an id
that a response for a zone shows was left over by the strategy: its document, as it was fetched
for a search for the same zone, under the same key, had the stock, or none that could be read
where that counts as available. -/
theorem shown_available (cfg : StaticAvailabilityConfig) (parse : ParseF64)
    (hstrategy : r.availability = staticAvailabilityStrategy cfg parse)
    (events : List (CacheEvent r.shards)) (answers : Answers r.shards) (request : ClientRequest)
    {zone : String} (hzone : request.destinationZone = some zone) (hne : zone ≠ "")
    {response : SearchResponse}
    (hok : (r.searchCached debug answers request
      (LabelledRun.run (r.cacheStep debug) QueryCache.empty events)).1 = .ok response)
    {hit : SearchHit} (hhit : hit ∈ response.hits) :
    ∃ event ∈ events ++ [.search request answers r.bucketOrder], ∃ request' answers',
      event.asked = some (request', answers') ∧
      QueryCacheKey.fromRequest debug request' = .fromRequest debug request ∧
      request'.destinationZone = some zone ∧
      cfg.isAvailable parse zone
        (docMap (r.candidateDocs answers' request'.toRequest) hit.id) = true := by
  -- the response is cut from what one search of the run computed
  obtain ⟨cached, event, hevent, request', answers', order, hasked, hkey, hscatter, hshown⟩ :
      ∃ cached, ∃ event ∈ events ++ [.search request answers r.bucketOrder],
        ∃ request' answers' order, event.asked = some (request', answers') ∧
        QueryCacheKey.fromRequest debug request' = .fromRequest debug request ∧
        (r.withBuckets order).scatterGather answers' request'.toRequest = .ok cached ∧
        (hit.id, hit.score) ∈ cached.hits := by
    rw [searchCached] at hok
    cases hcached : LabelledRun.run (r.cacheStep debug) QueryCache.empty events
        (.fromRequest debug request) with
    | some cached =>
      rw [hcached] at hok
      obtain rfl : r.respond answers request.toRequest (fun _ => none) true cached = response :=
        Except.ok.inj hok
      obtain ⟨event, hevent, request', answers', order, hasked, hkey, hscatter⟩ :=
        (r.computed_of_cached debug events _ hcached).resolve_left (by simp [QueryCache.empty])
      exact ⟨cached, event, List.mem_append_left _ hevent, request', answers', order, hasked, hkey,
        hscatter, r.exists_hit_of_shown hhit⟩
    | none =>
      rw [hcached] at hok
      cases hscatter : r.scatterGather answers request.toRequest with
      | error e =>
        rw [search, hscatter] at hok
        cases hok
      | ok cached =>
        rw [search, hscatter] at hok
        obtain rfl := Except.ok.inj hok
        exact ⟨cached, .search request answers r.bucketOrder,
          List.mem_append_right _ (List.mem_singleton_self _), request, answers, r.bucketOrder,
          rfl, rfl, hscatter, r.exists_hit_of_shown hhit⟩
  have hzone' : request'.destinationZone = some zone := by
    rw [← hzone]
    exact congrArg QueryCacheKey.destinationZone hkey
  rw [(r.withBuckets order).scatterGather_zone answers' hzone' hne] at hscatter
  obtain ⟨unfiltered, -, rfl⟩ := map_eq_ok hscatter
  have hshown' : (hit.id, hit.score) ∈ r.availability.apply unfiltered.hits
      (docMap (r.candidateDocs answers' request'.toRequest)) zone := hshown
  rw [hstrategy] at hshown'
  exact ⟨event, hevent, request', answers', hasked, hkey, hzone', (List.mem_filter.mp hshown').2⟩

end Router

/-- The digit one is read, and nothing else. -/
def parseOne : ParseF64 := fun s => if s = "1" then some ⟨0x3ff0000000000000⟩ else none

/-- A router for one shard, that looks at the stock. -/
def Router.stocking : Router :=
  { single with availability := staticAvailabilityStrategy {} parseOne }

/-- A document with this stock in the zone "a". -/
def stockedIn (id : DocId) (stock : String) : Document :=
  ⟨id, "Lamp", "", ⟨0⟩, "home", ⟨[("stock_a", .string stock)], List.nodup_singleton _⟩⟩

/-- The shard finds one document and fetches it, once; then it fails. -/
def Router.oneStocked (up : Bool) : Answers 1 where
  search _ _ := if up then some ⟨[(1, F32.one)], 1, [], false⟩ else none
  candidateDocs _ _ := if up then some [stockedIn 1 "1"] else none
  pageDocs _ _ := none

/-- A response for the zone, served from the cache. -/
theorem Router.shown_available_oneStocked :
    ∃ event ∈ [CacheEvent.search { query := "lamp", destinationZone := some "a" }
        (oneStocked true) (fun _ => .keep)] ++
        [.search { query := "lamp", destinationZone := some "a" } (oneStocked false)
          (fun _ => .keep)],
      ∃ request' answers', event.asked = some (request', answers') ∧
        QueryCacheKey.fromRequest .ofBits request'
          = .fromRequest .ofBits { query := "lamp", destinationZone := some "a" } ∧
        request'.destinationZone = some "a" ∧
        StaticAvailabilityConfig.isAvailable {} parseOne "a"
          (docMap (stocking.candidateDocs answers' request'.toRequest) 1) = true :=
  stocking.shown_available .ofBits {} parseOne rfl
    [.search { query := "lamp", destinationZone := some "a" } (oneStocked true) (fun _ => .keep)]
    (oneStocked false) { query := "lamp", destinationZone := some "a" } rfl (by decide)
    (show _ = Except.ok ⟨[⟨1, F32.one, none⟩], 1, [], true, .and, true⟩ by rfl)
    (List.mem_singleton_self _)

/-! ## 3. Healthy shards -/

/-- A document as the router receives it. -/
def Location.arrives : Location → Document → Document
  | .inProcess, doc => doc
  | .remote, doc => doc.received

theorem Location.getDocs_eq (location : Location) (s : ShardEngine) (docIds : List DocId) :
    location.getDocs s docIds = (s.getDocs docIds).map location.arrives := by
  cases location with
  | inProcess => exact (List.map_id _).symm
  | remote => exact RemoteShardClient.getDocs_eq s docIds

theorem Location.search_eq {request : SearchRequest} (h : request.Fits) (location : Location) :
    location.search request = LocalShardClient.search request := by
  cases location with
  | inProcess => rfl
  | remote => exact RemoteShardClient.search_eq h

theorem Location.arrives_id (location : Location) (doc : Document) :
    (location.arrives doc).id = doc.id := by
  cases location <;> rfl

namespace Router

variable (r : Router)

/-- The document with an id, where the router looks for it. -/
def placedDoc (docs : Fin r.shards → List Document) (id : DocId) : Option Document :=
  (docs (r.shardFor id)).find? (fun doc => doc.id = id)

variable {r} {engines : Fin r.shards → ShardEngine} {docs : Fin r.shards → List Document}
  {request : Request}

theorem placedDoc_eq_some (hnodup : ∀ i, ((docs i).map Document.id).Nodup) {doc : Document}
    {id : DocId} : r.placedDoc docs id = some doc ↔ doc ∈ docs (r.shardFor id) ∧ doc.id = id := by
  rw [placedDoc]
  constructor
  · intro hfind
    exact ⟨List.mem_of_find?_eq_some hfind, by simpa using List.find?_some hfind⟩
  · rintro ⟨hmem, rfl⟩
    have hsome : ((docs (r.shardFor doc.id)).find? (fun d => d.id = doc.id)).isSome :=
      List.find?_isSome.mpr ⟨doc, hmem, by simp⟩
    obtain ⟨found, hfound⟩ := Option.isSome_iff_exists.mp hsome
    have hid : found.id = doc.id := by simpa using List.find?_some hfound
    rw [hfound, List.inj_on_of_nodup_map (hnodup _) (List.mem_of_find?_eq_some hfound) hmem hid]

theorem clientAnswers_search (hscatter : r.scatterLimit < 2 ^ 64)
    (locations : Fin r.shards → Location) (engines : Fin r.shards → ShardEngine)
    (request : Request) (i : Fin r.shards) :
    (r.clientAnswers locations engines request).search i (r.shardRequest request)
      = (r.engineAnswers engines request).search i (r.shardRequest request) := by
  have hfits : (r.shardRequest request).Fits := ⟨by simp [shardRequest], hscatter⟩
  show (((locations i).search (r.shardRequest request) (engines i)).1).toOption = _
  rw [Location.search_eq hfits]
  rfl

theorem sortedHits_clientAnswers (hscatter : r.scatterLimit < 2 ^ 64)
    (locations : Fin r.shards → Location) (engines : Fin r.shards → ShardEngine)
    (request : Request) :
    r.sortedHits (r.clientAnswers locations engines request) request
      = r.sortedHits (r.engineAnswers engines request) request := by
  have hgather : r.gather (r.clientAnswers locations engines request) request
      = r.gather (r.engineAnswers engines request) request :=
    List.filterMap_congr (fun i _ => clientAnswers_search hscatter locations engines request i)
  rw [sortedHits, sortedHits, allHits, allHits, hgather]

namespace Placed

section

variable (h : r.Placed engines docs)
include h

/-- A shard finds the documents it holds. -/
theorem getDocs_eq (i : Fin r.shards) {docIds : List DocId}
    (hids : ∀ id ∈ docIds, r.shardFor id = i ∧ ∃ doc ∈ docs i, doc.id = id) :
    (engines i).getDocs docIds = docIds.filterMap (r.placedDoc docs) := by
  rw [ShardEngine.getDocs]
  refine List.filterMap_congr (fun id hid => ?_)
  obtain ⟨hshard, doc, hdoc, rfl⟩ := hids id hid
  have hplaced : r.placedDoc docs doc.id = some doc :=
    (placedDoc_eq_some h.nodup).mpr ⟨by rwa [hshard], rfl⟩
  have hfound := h.found i doc hdoc
  rw [ShardEngine.getDocs, List.filterMap_cons, List.filterMap_nil] at hfound
  rw [hplaced]
  split at hfound
  · cases hfound
  · next found hget =>
    obtain rfl : found = doc := by simpa using hfound
    exact hget

/-- The document of every hit is on the shard that its id is assigned to. -/
theorem exists_placed {hit : ShardHit}
    (hhit : hit ∈ r.sortedHits (r.engineAnswers engines request) request) :
    ∃ doc ∈ docs (r.shardFor hit.1), doc.id = hit.1 := by
  obtain ⟨i, doc, hdoc, hid⟩ := h.exists_doc_of_mem_allHits (mem_sortedHits.mp hhit)
  have hshard : r.shardFor hit.1 = i := by rw [← hid, h.assigned i doc hdoc]
  exact ⟨doc, by rwa [hshard], hid⟩

end

variable (h : r.Placed engines docs) (hscatter : r.scatterLimit < 2 ^ 64)
  (locations : Fin r.shards → Location)
include h hscatter

/-- **The candidates' documents**: for each shard those of its hits, as they arrive. -/
theorem candidateDocs_eq (request : Request) :
    r.candidateDocs (r.clientAnswers locations engines request) request
      = (List.finRange r.shards).flatMap (fun i =>
          ((((r.sortedHits (r.engineAnswers engines request) request).map Prod.fst).filter
            (fun id => r.shardFor id = i)).filterMap (r.placedDoc docs)).map
              (locations i).arrives) := by
  have hfits : (r.shardRequest request).Fits := ⟨by simp [shardRequest], hscatter⟩
  rw [Router.candidateDocs, fetchDocs, sortedHits_clientAnswers hscatter]
  refine List.flatMap_congr (fun i _ => ?_)
  let ids := ((r.sortedHits (r.engineAnswers engines request) request).map Prod.fst).filter
    (fun id => r.shardFor id = i)
  have hids : ∀ id ∈ ids, r.shardFor id = i ∧ ∃ doc ∈ docs i, doc.id = id := by
    intro id hid
    obtain ⟨hmem, hshard⟩ := List.mem_filter.mp hid
    obtain ⟨hit, hhit, rfl⟩ := List.mem_map.mp hmem
    have hi : r.shardFor hit.1 = i := of_decide_eq_true hshard
    obtain ⟨doc, hdoc, hdocId⟩ := h.exists_placed hhit
    exact ⟨hi, doc, hi ▸ hdoc, hdocId⟩
  have hget : (locations i).getDocs
        ((locations i).search (r.shardRequest request) (engines i)).2 ids
      = (ids.filterMap (r.placedDoc docs)).map (locations i).arrives := by
    rw [Location.getDocs_eq, Location.search_eq hfits, localSearch_eq (h.inv i),
      ShardEngine.getDocs_refreshed, h.getDocs_eq i hids]
  show (if ids.isEmpty then [] else (some ((locations i).getDocs
    ((locations i).search (r.shardRequest request) (engines i)).2 ids)).getD []) = _
  by_cases hempty : ids.isEmpty
  · have hnil : ids = [] := List.isEmpty_iff.mp hempty
    rw [if_pos hempty, show (((r.sortedHits (r.engineAnswers engines request) request).map
      Prod.fst).filter (fun id => r.shardFor id = i)) = [] from hnil]
    rfl
  · rw [if_neg hempty]
    exact hget

/-- **The document of a hit arrives**, from wherever its shard is. -/
theorem docMap_candidateDocs {hit : ShardHit}
    (hhit : hit ∈ r.sortedHits (r.engineAnswers engines request) request) :
    docMap (r.candidateDocs (r.clientAnswers locations engines request) request) hit.1
      = (r.placedDoc docs hit.1).map (locations (r.shardFor hit.1)).arrives := by
  rw [h.candidateDocs_eq hscatter locations]
  let arrived (id : DocId) : Option Document :=
    (r.placedDoc docs id).map (locations (r.shardFor id)).arrives
  refine @docMap_eq _ arrived hit.1 (fun fetched hfetched hid => ?_) (fun fetched hfetched => ?_)
  · obtain ⟨i, -, hmem⟩ := List.mem_flatMap.mp hfetched
    obtain ⟨doc, hdoc, rfl⟩ := List.mem_map.mp hmem
    obtain ⟨id, hmemId, hplaced⟩ := List.mem_filterMap.mp hdoc
    have hshard : r.shardFor id = i := of_decide_eq_true (List.mem_filter.mp hmemId).2
    have hdocId : doc.id = id := ((placedDoc_eq_some h.nodup).mp hplaced).2
    rw [Location.arrives_id] at hid
    rw [← hid, hdocId]
    show (r.placedDoc docs id).map (locations (r.shardFor id)).arrives = _
    rw [hplaced, hshard]
    rfl
  · obtain ⟨doc, hplaced, rfl⟩ := Option.map_eq_some_iff.mp hfetched
    refine ⟨List.mem_flatMap.mpr ⟨r.shardFor hit.1, List.mem_finRange _, ?_⟩, ?_⟩
    · refine List.mem_map_of_mem (List.mem_filterMap.mpr ⟨hit.1, ?_, hplaced⟩)
      exact List.mem_filter.mpr ⟨List.mem_map_of_mem hhit, by simp⟩
    · rw [Location.arrives_id]
      exact ((placedDoc_eq_some h.nodup).mp hplaced).2

end Placed

end Router

/-! ## 4. Stock on the wire -/

/-- A stock that is not a string does not arrive: the document counts as one without. -/
theorem isAvailable_received (cfg : StaticAvailabilityConfig) (parse : ParseF64) (zone : String)
    (doc : Document) :
    cfg.isAvailable parse zone (some doc.received)
      = match doc.attributes.get (cfg.stockAttributePrefix ++ zone) with
        | some (.string s) => (match parse s with
          | some n => cfg.minStock.le n
          | none => cfg.defaultAvailable)
        | _ => cfg.defaultAvailable := by
  have hstring : ∀ s, doc.received.attributes.get (cfg.stockAttributePrefix ++ zone)
        = some (.string s) ↔
      doc.attributes.get (cfg.stockAttributePrefix ++ zone) = some (.string s) :=
    fun s => get_onWire_eq_string_iff
  cases hget : doc.received.attributes.get (cfg.stockAttributePrefix ++ zone) with
  | some v =>
    obtain ⟨s, rfl⟩ : ∃ s, v = .string s := (mem_received.mp (Attributes.get_eq_some_iff.mp hget)).2
    simp only [StaticAvailabilityConfig.isAvailable, hget, (hstring s).mp hget]
  | none =>
    simp only [StaticAvailabilityConfig.isAvailable, hget]
    split
    · next s hdoc =>
      rw [(hstring s).mpr hdoc] at hget
      cases hget
    · rfl

end ZearchEngine
