/-
# The router's search

`Router::search` (`crates/router/src/router.rs`) with the shard searches it scatters, the
candidates it gathers, sorts, fetches and has re-ranked, and the page it cuts out of them;
`rerank_with_fallback` and `NoopRanker` (`crates/ranker`), `NoopStrategy` (`availability.rs`).

What the endpoints answer is a parameter (`Answers`): the router knows of a shard what it
answers, and an endpoint that fails, times out or lags behind is one that answers accordingly.
So are the assignment of ids to shards, how `sort_unstable_by` orders hits of equal score, and
the order in which the `HashMap` of a field's counts is iterated.

The list of hits is rebuilt from the documents a second fan-out brings back, so a hit whose
document does not come back is lost, whether the response needs the document or not
(`showsPage_iff_fetched`).
-/
import ZearchEngine.Lib.Page
import ZearchEngine.AppendOnly
import ZearchEngine.Float
import Mathlib.Data.List.FinRange

namespace ZearchEngine

/-! ## 1. Order of hits -/

/-- A hit of a shard: an id with its score. -/
abbrev ShardHit := DocId × F32

/-- The comparison of the global sort: by score, descending. -/
def byScore (a b : ShardHit) : Ordering := partialCmp b.2.key a.2.key

/-- `sort_unstable_by` on hits. -/
abbrev HitSort := UnstableSort byScore (fun hit => hit.2.key ≠ none)

/-- Higher scores first; a NaN counts as zero. -/
def HigherFirst (a b : ShardHit) : Prop := b.2.key.getD 0 ≤ a.2.key.getD 0

instance : DecidableRel HigherFirst := fun _ _ => inferInstanceAs (Decidable (_ ≤ _))

instance : IsTrans ShardHit HigherFirst where
  trans _ _ _ hab hbc := Int.le_trans hbc hab

instance : Std.Total HigherFirst where
  total a b := Int.le_total (b.2.key.getD 0) (a.2.key.getD 0)

theorem byScore_ne_gt_iff {a b : ShardHit} (ha : a.2.key ≠ none) (hb : b.2.key ≠ none) :
    byScore a b ≠ .gt ↔ HigherFirst a b := partialCmp_ne_gt_iff hb ha

/-- A sort that leaves hits of equal score in some order. -/
def HitSort.stable (order : Arrangement ShardHit) : HitSort :=
  UnstableSort.stable HigherFirst (fun _ _ ha hb => (byScore_ne_gt_iff ha hb).mpr) order

/-! ## 2. Requests, answers, rankers -/

/-- A search request with what only the router reads of it. -/
structure Router.Request extends SearchRequest where
  destinationZone : Option String := none
  includeDocs : Bool := false
deriving DecidableEq

/-- The request for another page. -/
def Router.Request.onPage (request : Router.Request) (offset limit : Nat) : Router.Request :=
  { request with offset := offset, limit := limit }

/-- Per-shard search result. -/
structure ShardSearchResult where
  hits : List ShardHit
  totalHits : Nat
  aggregations : List (String × Counts)
  usedOrFallback : Bool
deriving DecidableEq

/-- What the endpoints of `n` shards answer during one search: to the scattered searches, and to
the `get_docs` calls for the candidates and for the page.  None is an error or a timeout. -/
structure Router.Answers (n : Nat) where
  search : Fin n → SearchRequest → Option ShardSearchResult
  candidateDocs : Fin n → List DocId → Option (List Document)
  pageDocs : Fin n → List DocId → Option (List Document)

structure RankCandidate where
  docId : DocId
  bm25Score : F32
  title : String
  category : String
  price : F64
  attributes : Attributes
deriving DecidableEq

structure RankedResult where
  docId : DocId
  score : F32
deriving DecidableEq

/-- `Ranker::rerank`, of the query and the candidates: none if it fails or times out. -/
abbrev Ranker := String → List RankCandidate → Option (List RankedResult)

/-- A candidate with the score it has. -/
def RankCandidate.unranked (c : RankCandidate) : RankedResult := ⟨c.docId, c.bm25Score⟩

/-- `NoopRanker`: candidates in their original order, unchanged. -/
def noopRanker : Ranker := fun _query candidates => some (candidates.map RankCandidate.unranked)

/-- `rerank_with_fallback`: the results, and whether the ranker succeeded. -/
def rerankWithFallback (ranker : Ranker) (query : String) (candidates : List RankCandidate) :
    List RankedResult × Bool :=
  match ranker query candidates with
  | some results => (results, true)
  | none => (candidates.map RankCandidate.unranked, false)

/-- `AvailabilityStrategy`. -/
structure AvailabilityStrategy where
  /-- Remove unavailable candidates. -/
  apply : List ShardHit → (DocId → Option Document) → String → List ShardHit
  candidateMultiplier : Nat := 1

/-- `NoopStrategy`. -/
def noopStrategy : AvailabilityStrategy where
  apply candidates _docs _zone := candidates

/-- `CachedResponse`: the candidates before they are paginated. -/
structure CachedResponse where
  hits : List ShardHit
  totalHits : Nat
  aggregations : List (String × Counts)
  reranked : Bool
  retrievalMode : RetrievalMode

/-- `search_core::Error`, as far as the router raises it. -/
inductive RouterError where
  | shard (message : String)
deriving DecidableEq

/-! ## 3. The router -/

/-- The router.  `shardFor` is the jump hash of an id; nothing here depends on which shard it
chooses.  `bucketOrder` is the order in which the `HashMap` of a field's counts is iterated. -/
structure Router where
  shards : Nat
  shardFor : DocId → Fin shards
  ranker : Ranker
  rankerCandidates : Nat
  availability : AvailabilityStrategy
  sortHits : HitSort
  bucketOrder : String → Arrangement (String × Nat)

/-- `docs.into_iter().map(|d| (d.id, d)).collect::<HashMap<_, _>>()`: a later document replaces
an earlier one. -/
def docMap (docs : List Document) : DocId → Option Document := ShardEngine.lastIndexed docs

namespace Router

variable (r : Router)

/-- `scatter_limit`. -/
def scatterLimit : Nat := r.rankerCandidates * r.availability.candidateMultiplier

/-- `shard_req`. -/
def shardRequest (request : Request) : SearchRequest :=
  { request.toSearchRequest with offset := 0, limit := r.scatterLimit }

/-- `fetch_docs`: the ids of each shard in one call; a call that fails brings nothing. -/
def fetchDocs (getDocs : Fin r.shards → List DocId → Option (List Document))
    (docIds : List DocId) : List Document :=
  (List.finRange r.shards).flatMap fun i =>
    let ids := docIds.filter (fun id => r.shardFor id = i)
    if ids.isEmpty then [] else (getDocs i ids).getD []

/-- The results of the shards that answered. -/
def gather (answers : Answers r.shards) (request : Request) : List ShardSearchResult :=
  (List.finRange r.shards).filterMap (fun i => answers.search i (r.shardRequest request))

/-- `all_hits`, as gathered. -/
def allHits (answers : Answers r.shards) (request : Request) : List ShardHit :=
  (r.gather answers request).flatMap ShardSearchResult.hits

/-- `all_hits`, sorted by score. -/
def sortedHits (answers : Answers r.shards) (request : Request) : List ShardHit :=
  r.sortHits.run (r.allHits answers request)

/-- `candidate_docs`. -/
def candidateDocs (answers : Answers r.shards) (request : Request) : List Document :=
  r.fetchDocs answers.candidateDocs ((r.sortedHits answers request).map Prod.fst)

/-- A hit as the ranker sees it, if its document was fetched. -/
def rankCandidate (docs : DocId → Option Document) (hit : ShardHit) : Option RankCandidate :=
  (docs hit.1).map (fun doc =>
    { docId := hit.1
      bm25Score := hit.2
      title := doc.title
      category := doc.category
      price := doc.price
      attributes := doc.attributes })

/-- Steps 1 to 6 of `search`: what is cached, before it is paginated. -/
def scatterGather (answers : Answers r.shards) (request : Request) :
    Except RouterError CachedResponse :=
  let results := r.gather answers request
  if results.isEmpty then .error (.shard "all shards failed")
  else
    let allHits := r.sortedHits answers request
    let docs := docMap (r.candidateDocs answers request)
    let (finalHits, reranked) : List ShardHit × Bool :=
      if allHits.isEmpty then (allHits, false)
      else
        let (ranked, didRerank) :=
          rerankWithFallback r.ranker request.query (allHits.filterMap (rankCandidate docs))
        (ranked.map (fun result => (result.docId, result.score)), didRerank)
    let finalHits := match request.destinationZone with
      | some zone => if zone.isEmpty then finalHits else r.availability.apply finalHits docs zone
      | none => finalHits
    let mergedAggs := (results.flatMap ShardSearchResult.aggregations).foldl
      MultiSegmentSearcher.addAggregation []
    .ok
      { hits := finalHits
        totalHits := (results.map ShardSearchResult.totalHits).sum
        aggregations := mergedAggs.map
          (fun (field, counts) =>
            (field, MultiSegmentSearcher.sortBuckets (r.bucketOrder field) counts))
        reranked
        retrievalMode := if results.any ShardSearchResult.usedOrFallback then .orFallback
          else .and }

/-- `build_hits`: the documents of the page, if they are asked for. -/
def buildHits (answers : Answers r.shards) (pageHits : List ShardHit)
    (candidateDocMap : DocId → Option Document) (includeDocs : Bool) : List SearchHit :=
  if !includeDocs then
    pageHits.map (fun (id, score) => { id, score, document := none })
  else
    let pageIds := pageHits.map Prod.fst
    let fromCache := pageIds.filterMap candidateDocMap
    let pageDocs := if fromCache.length = pageIds.length then fromCache
      else if pageIds.isEmpty then [] else r.fetchDocs answers.pageDocs pageIds
    pageHits.map (fun (id, score) => { id, score, document := docMap pageDocs id })

/-- Steps 8 and 9 of `search`, and `respond_from_cache`: the page, and its documents. -/
def respond (answers : Answers r.shards) (request : Request)
    (candidateDocMap : DocId → Option Document) (cacheHit : Bool) (response : CachedResponse) :
    SearchResponse where
  hits := r.buildHits answers (page request.offset request.limit response.hits) candidateDocMap
    request.includeDocs
  totalHits := response.totalHits
  aggregations := response.aggregations
  reranked := response.reranked
  retrievalMode := response.retrievalMode
  cacheHit := cacheHit

/-- `search`, where `cached` is what the cache has for the request: nothing, if there is no
cache. -/
def search (answers : Answers r.shards) (cached : Option CachedResponse) (request : Request) :
    Except RouterError SearchResponse :=
  match cached with
  | some response => .ok (r.respond answers request (fun _ => none) true response)
  | none => do
    let response ← r.scatterGather answers request
    .ok (r.respond answers request (docMap (r.candidateDocs answers request)) false response)

/-! ## 4. Without a ranker -/

theorem isSome_docMap {docs : List Document} {id : DocId} :
    (docMap docs id).isSome ↔ ∃ doc ∈ docs, doc.id = id := by
  have hholds := ShardEngine.holds_lastIndexed docs
  constructor
  · intro hsome
    obtain ⟨doc, hdoc⟩ := Option.isSome_iff_exists.mp hsome
    obtain ⟨hmem, hid⟩ := hholds.mem id doc hdoc
    exact ⟨doc, hmem, hid⟩
  · rintro ⟨doc, hmem, rfl⟩
    exact Option.isSome_iff_ne_none.mpr (hholds.ne_none doc hmem)

theorem rerankWithFallback_noopRanker (query : String) (candidates : List RankCandidate) :
    rerankWithFallback noopRanker query candidates
      = (candidates.map RankCandidate.unranked, true) := rfl

/-- Without a ranker the hits come back as they were, but for those without a document. -/
theorem unranked_rankCandidate (docs : DocId → Option Document) : ∀ hits : List ShardHit,
    ((hits.filterMap (rankCandidate docs)).map RankCandidate.unranked).map
        (fun result => (result.docId, result.score))
      = hits.filter (fun hit => (docs hit.1).isSome)
  | [] => rfl
  | hit :: hits => by
    have ih := unranked_rankCandidate docs hits
    cases hdoc : docs hit.1 with
    | none =>
      have hnone : rankCandidate docs hit = none := by rw [rankCandidate, hdoc]; rfl
      rw [List.filterMap_cons_none hnone, List.filter_cons_of_neg (by simp [hdoc]), ih]
    | some doc =>
      have hsome : rankCandidate docs hit = some
          { docId := hit.1, bm25Score := hit.2, title := doc.title, category := doc.category
            price := doc.price, attributes := doc.attributes } := by
        rw [rankCandidate, hdoc]
        rfl
      rw [List.filterMap_cons_some hsome, List.filter_cons_of_pos (by simp [hdoc]),
        List.map_cons, List.map_cons, ih]
      rfl

/-- The hits whose documents were fetched. -/
def fetchedHits (answers : Answers r.shards) (request : Request) : List ShardHit :=
  (r.sortedHits answers request).filter
    (fun hit => (docMap (r.candidateDocs answers request) hit.1).isSome)

/-- A request without a destination zone. -/
def Request.NoZone (request : Request) : Prop := request.destinationZone.getD "" = ""

instance (request : Request) : Decidable request.NoZone :=
  inferInstanceAs (Decidable (_ = _))

/-- A hit of a response without documents. -/
def bareHit (hit : ShardHit) : SearchHit := ⟨hit.1, hit.2, none⟩

variable {r} {answers : Answers r.shards} {request : Request}

theorem hits_scatterGather (hranker : r.ranker = noopRanker) (hzone : request.NoZone)
    (hanswer : r.gather answers request ≠ []) :
    ∃ response, r.scatterGather answers request = .ok response ∧
      response.hits = r.fetchedHits answers request := by
  have hempty : (r.gather answers request).isEmpty = false := by simpa using hanswer
  simp only [scatterGather, hempty, Bool.false_eq_true, if_false]
  refine ⟨_, rfl, ?_⟩
  have hhits : (if (r.sortedHits answers request).isEmpty then
        (r.sortedHits answers request, false)
      else
        (((rerankWithFallback r.ranker request.query ((r.sortedHits answers request).filterMap
          (rankCandidate (docMap (r.candidateDocs answers request))))).1.map
            (fun result => (result.docId, result.score))),
          (rerankWithFallback r.ranker request.query ((r.sortedHits answers request).filterMap
          (rankCandidate (docMap (r.candidateDocs answers request))))).2)).1
      = r.fetchedHits answers request := by
    rw [hranker, rerankWithFallback_noopRanker, unranked_rankCandidate, fetchedHits]
    split
    · next hnil => rw [List.isEmpty_iff.mp hnil]; rfl
    · rfl
  cases hdest : request.destinationZone with
  | none => exact hhits
  | some zone =>
    have hzoneEmpty : zone.isEmpty = true := by
      rw [Request.NoZone, hdest, Option.getD_some] at hzone
      rw [hzone]
      rfl
    simp only [hzoneEmpty, if_true]
    exact hhits

/-- Whatever is asked for, a response shows a page of the candidates. -/
theorem map_hits_respond (answers : Answers r.shards) (request : Request)
    (candidateDocMap : DocId → Option Document) (cacheHit : Bool) (response : CachedResponse) :
    (r.respond answers request candidateDocMap cacheHit response).hits.map
        (fun hit => (hit.id, hit.score))
      = page request.offset request.limit response.hits := by
  rw [respond, buildHits]
  cases request.includeDocs with
  | false => simp [Function.comp_def]
  | true => simp [Function.comp_def]

/-- **The response of a router without a ranker**: a page of the hits whose documents were
fetched. -/
theorem search_eq (hranker : r.ranker = noopRanker) (hzone : request.NoZone)
    (hanswer : r.gather answers request ≠ []) :
    ∃ response, r.search answers none request = .ok response ∧
      response.hits.map (fun hit => (hit.id, hit.score))
        = page request.offset request.limit (r.fetchedHits answers request) ∧
      (request.includeDocs = false → response.hits
        = (page request.offset request.limit (r.fetchedHits answers request)).map bareHit) := by
  obtain ⟨response, hok, hhits⟩ := hits_scatterGather hranker hzone hanswer
  refine ⟨r.respond answers request (docMap (r.candidateDocs answers request)) false response,
    ?_, ?_, fun hdocs => ?_⟩
  · rw [search, hok]
    rfl
  · rw [map_hits_respond, hhits]
  · rw [respond, buildHits, hdocs, hhits]
    rfl

/-! ## 5. What is lost between search and response -/

variable (r) in
/-- The response shows the page that was asked for of the hits of all shards that answered. -/
def ShowsPage (answers : Answers r.shards) (request : Request) : Prop :=
  ∃ response, r.search answers none request = .ok response ∧
    response.hits = (page request.offset request.limit (r.sortedHits answers request)).map bareHit

variable (r) in
/-- The `get_docs` calls for the candidates brought a document with this id. -/
def Fetched (answers : Answers r.shards) (request : Request) (id : DocId) : Prop :=
  ∃ doc ∈ r.candidateDocs answers request, doc.id = id

theorem bareHit_injective : Function.Injective bareHit := by
  intro a b heq
  injection heq with hid hscore
  exact Prod.ext hid hscore

theorem showsPage_iff_page (hranker : r.ranker = noopRanker) (hzone : request.NoZone)
    (hdocs : request.includeDocs = false) (hanswer : r.gather answers request ≠ []) :
    r.ShowsPage answers request ↔
      page request.offset request.limit (r.fetchedHits answers request)
        = page request.offset request.limit (r.sortedHits answers request) := by
  obtain ⟨response, hok, -, hbare⟩ := search_eq hranker hzone hanswer
  have hhits := hbare hdocs
  constructor
  · rintro ⟨response', hok', hhits'⟩
    obtain rfl : response' = response := by
      rw [hok, Except.ok.injEq] at hok'
      exact hok'.symm
    exact bareHit_injective.list_map (hhits.symm.trans hhits')
  · intro heq
    exact ⟨response, hok, by rw [hhits, heq]⟩

theorem mem_sortedHits {hit : ShardHit} :
    hit ∈ r.sortedHits answers request ↔ hit ∈ r.allHits answers request :=
  (r.sortHits.perm _).mem_iff

/-- **One page is right**, of hits without repetitions, exactly if it is empty or every hit up to
its end has its document fetched. -/
theorem showsPage_iff_of_nodup (hranker : r.ranker = noopRanker) (hzone : request.NoZone)
    (hdocs : request.includeDocs = false) (hanswer : r.gather answers request ≠ [])
    (hnodup : (r.allHits answers request).Nodup) :
    r.ShowsPage answers request ↔
      request.limit = 0 ∨ (r.allHits answers request).length ≤ request.offset ∨
        ∀ hit ∈ (r.sortedHits answers request).take (request.offset + request.limit),
          r.Fetched answers request hit.1 := by
  have hsorted : (r.sortedHits answers request).Nodup :=
    (r.sortHits.perm _).nodup_iff.mpr hnodup
  have hlen : (r.sortedHits answers request).length = (r.allHits answers request).length :=
    (r.sortHits.perm _).length_eq
  rw [showsPage_iff_page hranker hzone hdocs hanswer, fetchedHits, page_filter_eq_iff hsorted,
    hlen]
  simp only [isSome_docMap, Fetched]

/-- **No hit is lost exactly if the document of every hit comes back.**  Whatever the shards
answer, all pages are pages of the hits of the shards that answered, sorted by score, if and
only if the `get_docs` calls brought the document of each of these hits. -/
theorem showsPage_iff_fetched (r : Router) (answers : Answers r.shards) (request : Request)
    (hranker : r.ranker = noopRanker) (hzone : request.NoZone)
    (hdocs : request.includeDocs = false)
    (hanswer : ∃ i result, answers.search i (r.shardRequest request) = some result) :
    (∀ offset limit, r.ShowsPage answers (request.onPage offset limit)) ↔
      ∀ hit ∈ r.allHits answers request, r.Fetched answers request hit.1 := by
  have hgather : r.gather answers request ≠ [] := by
    obtain ⟨i, result, hresult⟩ := hanswer
    exact List.ne_nil_of_mem (List.mem_filterMap.mpr ⟨i, List.mem_finRange i, hresult⟩)
  have hpage : ∀ offset limit,
      r.ShowsPage answers (request.onPage offset limit) ↔
        page offset limit (r.fetchedHits answers request)
          = page offset limit (r.sortedHits answers request) := by
    intro offset limit
    have hzone' : (request.onPage offset limit).NoZone := hzone
    exact showsPage_iff_page hranker hzone' hdocs hgather
  have hfilter : r.fetchedHits answers request = r.sortedHits answers request ↔
      ∀ hit ∈ r.allHits answers request, r.Fetched answers request hit.1 := by
    rw [fetchedHits, List.filter_eq_self]
    simp only [isSome_docMap, mem_sortedHits, Fetched]
  rw [← hfilter]
  constructor
  · intro hall
    have hfull := (hpage 0 (r.sortedHits answers request).length).mp (hall 0 _)
    have hle : (r.fetchedHits answers request).length
        ≤ (r.sortedHits answers request).length := List.length_filter_le _ _
    rwa [page_zero_of_le hle, page_zero_of_le (Nat.le_refl _)] at hfull
  · intro heq offset limit
    rw [hpage, heq]

/-- A router for one shard, that leaves hits of equal score and values of equal count as they
come. -/
def single : Router where
  shards := 1
  shardFor _ := 0
  ranker := noopRanker
  rankerCandidates := 200
  availability := noopStrategy
  sortHits := .stable .keep
  bucketOrder _ := .keep

/-- The shard finds document 1 and then fetches these documents. -/
def oneHit (docs : Option (List Document)) : Answers 1 where
  search _ _ := some ⟨[(1, F32.one)], 1, [], false⟩
  candidateDocs _ _ := docs
  pageDocs _ _ := docs

/-- A shard that answers both calls. -/
theorem showsPage_iff_fetched_oneHit :
    (∀ offset limit, single.ShowsPage (oneHit (some [ShardEngine.titled 1 "a"]))
      (Request.onPage { query := "a" } offset limit)) ↔
      ∀ hit ∈ single.allHits (oneHit (some [ShardEngine.titled 1 "a"])) { query := "a" },
        single.Fetched (oneHit (some [ShardEngine.titled 1 "a"])) { query := "a" } hit.1 :=
  showsPage_iff_fetched single (oneHit (some [ShardEngine.titled 1 "a"])) { query := "a" }
    rfl (by decide) rfl ⟨(0 : Fin 1), _, rfl⟩

/-- **A hit is lost** when its shard answers the search and then fails. -/
theorem not_showsPage_oneHit : ¬ single.ShowsPage (oneHit none) { query := "a" } := by
  rintro ⟨response, hok, hhits⟩
  have hnone : (single.search (oneHit none) none { query := "a" }).toOption.map
      (fun response => response.hits) = some [] := by decide
  have hone : (page 0 20 (single.sortedHits (oneHit none) { query := "a" })).map bareHit
      = [⟨1, F32.one, none⟩] := by decide
  rw [hok] at hnone
  simp only [Except.toOption, Option.map_some, Option.some.injEq] at hnone
  rw [hnone] at hhits
  exact absurd (hhits.trans hone) (by simp)

end Router

end ZearchEngine
