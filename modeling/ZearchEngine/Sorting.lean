/-
# The requested order

A shard sorts its candidates as the request asks (`TopNCollector::collect`,
`crates/query/src/collector.rs`) and answers with the first of them.  The router puts the
answers of all shards together and sorts them by score, with the request's order forgotten.

So the hits come in the requested order exactly if the scores agree with it
(`sortReaches_iff`): of two matches that reach the router, the one that belongs in front must
have the higher score, or the same score where ties are left as they come and its shard is not
behind the other's.  On one shard a request without a query is such a case
(`sortReaches_one`), on two shards it is not.
-/
import ZearchEngine.Paging

namespace ZearchEngine

open ShardEngine

/-! ## 1. The order of a field -/

/-- The value a document is sorted by: its price or a numeric attribute. -/
def Document.sortValue (doc : Document) (field : String) : Option F64 :=
  if field = "price" then some doc.price
  else
    match doc.attributes.get field with
    | some (.number v) => some v
    | _ => none

/-- The candidates of a shard carry these values. -/
theorem QueryExecutor.sortValue_eq {reader : SegmentReader} {localDocId : LocalDocId}
    {doc : Document} (h : reader.getDoc localDocId = some doc) (spec : SortSpec) :
    QueryExecutor.sortValue reader localDocId (some spec) = doc.sortValue spec.field := by
  simp only [QueryExecutor.sortValue, h, Document.sortValue]
  rfl

theorem SortSpec.compare_self (spec : SortSpec) (a : Option F64) : spec.compare a a ≠ .gt := by
  rw [SortSpec.compare]
  cases spec.order with
  | asc => exact partialCmp_self _
  | desc => exact partialCmp_self _

/-! ## 2. What a shard collects and answers -/

section

variable {request : SearchRequest}

/-- A candidate of a segment stands for a document it can read. -/
theorem QueryExecutor.exists_doc_of_mem_scoredDocs {x : QueryExecutor} {reader : SegmentReader}
    (hread : ∀ i ∈ reader.allLiveDocs, (reader.getDoc i).isSome) {ord : Nat} {scored : ScoredDoc}
    (h : scored ∈ (x.execute reader ord request).scoredDocs) :
    ∃ doc, reader.getDoc scored.localDocId = some doc ∧ scored.segmentOrd = ord ∧
      scored.globalDocId = doc.id ∧
      scored.sortValue = sortValue reader scored.localDocId request.sort := by
  simp only [QueryExecutor.execute] at h
  split at h
  · obtain ⟨i, hi, rfl⟩ := List.mem_map.mp h
    have hlive : i ∈ reader.allLiveDocs := by
      revert hi
      cases x.buildFilterBitmap reader request with
      | none => exact id
      | some f => exact List.mem_of_mem_filter
    obtain ⟨doc, hdoc⟩ := Option.isSome_iff_exists.mp (hread i hlive)
    exact ⟨doc, hdoc, rfl, by simp [hdoc], rfl⟩
  · obtain ⟨hit, -, heq⟩ := List.mem_filterMap.mp h
    obtain ⟨doc, hdoc, rfl⟩ := Option.map_eq_some_iff.mp heq
    exact ⟨doc, hdoc, rfl, rfl, rfl⟩

/-- Without a query every candidate has the score one. -/
theorem QueryExecutor.score_of_mem_scoredDocs {x : QueryExecutor} {reader : SegmentReader}
    {ord : Nat} (hquery : request.query = "") {scored : ScoredDoc}
    (h : scored ∈ (x.execute reader ord request).scoredDocs) : scored.score = F32.one := by
  have hempty : request.query.isEmpty = true := by rw [hquery]; rfl
  simp only [QueryExecutor.execute, hempty, if_true] at h
  obtain ⟨i, -, rfl⟩ := List.mem_map.mp h
  rfl

end

theorem SegmentReader.isSome_getDoc_of_mem_allLiveDocs {docs : List Document} {del : Bitmap}
    {i : LocalDocId} (h : i ∈ (ofDocs docs del).allLiveDocs) :
    ((ofDocs docs del).getDoc i).isSome := by
  obtain ⟨hrange, hdel⟩ := List.mem_filter.mp h
  have hlt : i < docs.length := List.mem_range.mp hrange
  have hnot : i ∉ del := of_decide_eq_true hdel
  rw [getDoc_ofDocs, if_neg hnot, List.getElem?_eq_getElem hlt]
  rfl

namespace ShardEngine

/-- What the segments of a shard yield for a request, before it is collected. -/
def scored (s : ShardEngine) (request : SearchRequest) : List ScoredDoc :=
  (s.searcher.results s.readers request).flatMap SegmentSearchResult.scoredDocs

/-- The shard with another way to order candidates that compare as equal. -/
def withSort (s : ShardEngine) (sort : ∀ spec, CollectSort spec) : ShardEngine :=
  { s with searcher := { s.searcher with sortUnstable := sort } }

theorem Inv.withSort {s : ShardEngine} (h : Inv s) (sort : ∀ spec, CollectSort spec) :
    Inv (s.withSort sort) := ⟨h.synced, h.intact, h.coherent⟩

variable {s : ShardEngine} {request : SearchRequest}

/-- Every candidate of a shard stands for a document it shows. -/
theorem Inv.exists_doc_of_mem_scored (h : Inv s) {scored : ScoredDoc}
    (hscored : scored ∈ s.scored request) :
    ∃ reader doc, s.readers[scored.segmentOrd]? = some reader ∧
      reader.getDoc scored.localDocId = some doc ∧ doc ∈ s.visible ∧
      scored.globalDocId = doc.id ∧
      scored.sortValue = QueryExecutor.sortValue reader scored.localDocId request.sort := by
  obtain ⟨result, hresult, hmem⟩ := List.mem_flatMap.mp hscored
  obtain ⟨⟨reader, ord⟩, hreader, rfl⟩ := List.mem_map.mp hresult
  have hget := List.mem_zipIdx_iff_getElem?.mp hreader
  have hreader := List.mem_of_getElem? hget
  obtain ⟨docs, del, rfl⟩ := h.readable.ofDocs_of_mem_readers hreader
  obtain ⟨doc, hdoc, hord, hid, hvalue⟩ := QueryExecutor.exists_doc_of_mem_scoredDocs
    (fun i hi => SegmentReader.isSome_getDoc_of_mem_allLiveDocs hi) hmem
  refine ⟨_, doc, by rw [hord]; exact hget, hdoc, ?_, hid, hvalue⟩
  rw [visible, Multiset.coe_add, ← flatMap_readers, Multiset.mem_coe]
  exact List.mem_flatMap.mpr ⟨_, hreader, SegmentReader.mem_liveDocuments_of_getDoc hdoc⟩

/-- **A shard answers with the first of its candidates**, as the collector sorts them. -/
theorem Inv.map_hits_search (h : Inv s) (hoffset : request.offset = 0) :
    (s.searcher.search s.readers request).hits.map (fun hit => (hit.id, hit.score))
      = (((s.searcher.sortUnstable request.sort).run (s.scored request)).take request.limit).map
          (fun a => (a.globalDocId, a.score)) := by
  have hfetch : ∀ a ∈ (s.searcher.sortUnstable request.sort).run (s.scored request),
      (MultiSegmentSearcher.fetch s.readers a).map (fun hit => (hit.id, hit.score))
        = some (a.globalDocId, a.score) := by
    intro a ha
    obtain ⟨reader, doc, hreader, hdoc, -, hid, -⟩ :=
      h.exists_doc_of_mem_scored ((s.searcher.sortUnstable request.sort).mem_run.mp ha)
    simp [MultiSegmentSearcher.fetch, hreader, hdoc, hid]
  show (((((s.searcher.sortUnstable request.sort).run (s.scored request)).drop
    request.offset).take request.limit).filterMap _).map _ = _
  rw [hoffset, List.drop_zero, List.map_filterMap, ← List.filterMap_eq_map']
  exact List.filterMap_congr (fun a ha => hfetch a (List.mem_of_mem_take ha))

end ShardEngine

namespace Router

variable {r : Router} {engines : Fin r.shards → ShardEngine} {docs : Fin r.shards → List Document}
  {request : Request} {spec : SortSpec}

/-! ## 3. The order of the response -/

/-- In the requested order, the first of these documents does not belong behind the second. -/
def Ascends (spec : SortSpec) (docs : Fin r.shards → List Document) (a b : DocId) : Prop :=
  ∀ i, ∀ doc ∈ docs i, ∀ j, ∀ doc' ∈ docs j, doc.id = a → doc'.id = b →
    spec.compare (doc.sortValue spec.field) (doc'.sortValue spec.field) ≠ .gt

/-- The hits are ordered by the field, in the requested direction. -/
def InOrder (spec : SortSpec) (docs : Fin r.shards → List Document) (hits : List SearchHit) :
    Prop :=
  hits.Pairwise (fun a b => Ascends spec docs a.id b.id)

/-- How the sort by score treats hits of equal score: it keeps their order (`sort_unstable_by`
sorts at most 20 hits by insertion, and leaves hits that are already in order), or it puts them
in any order, which is all that its documentation says. -/
inductive Ties where
  | kept | any
deriving DecidableEq

def Ties.Allows (ties : Ties) (sort : HitSort) : Prop :=
  ties = .kept → ∀ hits, (∀ hit ∈ hits, hit.2.key ≠ none) →
    sort.run hits = hits.insertionSort HigherFirst

variable (r)

/-- The router with another way to order hits of equal score. -/
def withSort (sort : HitSort) : Router := { r with sortHits := sort }

/-- Every page is in the order the request asks for, whatever the shards' sorts make of documents
with the same value and the router's of hits with the same score. -/
def SortReaches (ties : Ties) (engines : Fin r.shards → ShardEngine)
    (docs : Fin r.shards → List Document) (request : Request) : Prop :=
  ∀ spec, request.sort = some spec →
    ∀ (collectSorts : Fin r.shards → ∀ spec, CollectSort spec) (sort : HitSort),
      ties.Allows sort → ∀ offset limit, ∃ response,
        ((r.withSort sort).searchLocal (fun i => (engines i).withSort (collectSorts i))
          (request.onPage offset limit)).1 = .ok response ∧ InOrder spec docs response.hits

/-- The documents that match on a shard, with their scores and the values to sort by. -/
def matchesOn (engines : Fin r.shards → ShardEngine) (request : Request) (i : Fin r.shards) :
    List ScoredDoc :=
  (engines i).scored (r.shardRequest request)

/-- The scores of the matches are numbers, and so are the values they are to be sorted by. -/
def Numbers (engines : Fin r.shards → ShardEngine) (request : Request) : Prop :=
  ∀ i, ∀ a ∈ r.matchesOn engines request i,
    a.score.key ≠ none ∧ a.sortKey request.sort ≠ none

instance (engines : Fin r.shards → ShardEngine) (request : Request) :
    Decidable (r.Numbers engines request) :=
  inferInstanceAs (Decidable (∀ i, ∀ a ∈ r.matchesOn engines request i, _ ≠ none ∧ _ ≠ none))

/-- Fewer matches of the shard belong before this one than the shard is asked for. -/
def MaySend (engines : Fin r.shards → ShardEngine) (request : Request) (i : Fin r.shards)
    (a : ScoredDoc) : Prop :=
  UnstableSort.belonging (ScoredDoc.compare request.sort) (r.matchesOn engines request i) a
    < r.scatterLimit

/-- Where a match belongs behind another, and both may reach the router, its score is the lower
one, or the same, where ties are kept and its shard is not the earlier one. -/
def ScoresAgree (ties : Ties) (engines : Fin r.shards → ShardEngine) (request : Request) : Prop :=
  ∀ i, ∀ a ∈ r.matchesOn engines request i, ∀ j, ∀ b ∈ r.matchesOn engines request j,
    ScoredDoc.compare request.sort a b = .gt →
    r.MaySend engines request i a → r.MaySend engines request j b →
      partialCmp a.score.key b.score.key = .lt ∨
        (ties = .kept ∧ partialCmp a.score.key b.score.key = .eq ∧ j ≤ i)

variable {r}

theorem inOrder_iff {hits : List SearchHit} : InOrder spec docs hits ↔
    (hits.map (fun hit => (hit.id, hit.score))).Pairwise
      (fun a b => Ascends spec docs a.1 b.1) := by
  rw [InOrder, List.pairwise_map]

/-- A hit of a candidate. -/
def hitOf (a : ScoredDoc) : ShardHit := (a.globalDocId, a.score)

/-- What the shards send under these sorts of theirs. -/
def sentHits (r : Router) (engines : Fin r.shards → ShardEngine) (request : Request)
    (collectSorts : Fin r.shards → ∀ spec, CollectSort spec) : List ShardHit :=
  (List.finRange r.shards).flatMap (fun i => ((((collectSorts i) request.sort).run
    (r.matchesOn engines request i)).take r.scatterLimit).map hitOf)

namespace Placed

variable (h : r.Placed engines docs)
include h

theorem withSorts (sort : HitSort) (collectSorts : Fin r.shards → ∀ spec, CollectSort spec) :
    (r.withSort sort).Placed (fun i => (engines i).withSort (collectSorts i)) docs where
  inv i := (h.inv i).withSort (collectSorts i)
  visible := h.visible
  found := h.found
  nodup := h.nodup
  assigned := h.assigned

/-- The hits the shards answer with. -/
theorem allHits_withSorts (collectSorts : Fin r.shards → ∀ spec, CollectSort spec) :
    r.allHits (r.engineAnswers (fun i => (engines i).withSort (collectSorts i)) request) request
      = r.sentHits engines request collectSorts := by
  have hplaced := h.withSorts r.sortHits collectSorts
  have hall : r.allHits (r.engineAnswers (fun i => (engines i).withSort (collectSorts i)) request)
      request = _ := hplaced.allHits_eq request
  rw [hall]
  refine List.flatMap_congr (fun i _ => ?_)
  exact ((h.inv i).withSort (collectSorts i)).map_hits_search rfl

/-- A page of the candidates, sorted by score. -/
theorem searchLocal_withSorts (hranker : r.ranker = noopRanker) (hzone : request.NoZone)
    (sort : HitSort) (collectSorts : Fin r.shards → ∀ spec, CollectSort spec)
    (offset limit : Nat) :
    ∃ response, ((r.withSort sort).searchLocal (fun i => (engines i).withSort (collectSorts i))
        (request.onPage offset limit)).1 = .ok response ∧
      response.hits.map (fun hit => (hit.id, hit.score)) = page offset limit (sort.run
        (r.allHits (r.engineAnswers (fun i => (engines i).withSort (collectSorts i)) request)
          request)) := by
  have hzone' : (request.onPage offset limit).NoZone := hzone
  exact (h.withSorts sort collectSorts).searchLocal_eq hranker hzone'

/-- A match and the document it stands for. -/
theorem exists_doc_of_mem_matchesOn (hsort : request.sort = some spec) {i : Fin r.shards}
    {a : ScoredDoc} (ha : a ∈ r.matchesOn engines request i) :
    ∃ doc ∈ docs i, a.globalDocId = doc.id ∧ a.sortValue = doc.sortValue spec.field := by
  obtain ⟨reader, doc, -, hdoc, hvisible, hid, hvalue⟩ :=
    (h.inv i).exists_doc_of_mem_scored ha
  rw [h.visible i, Multiset.mem_coe] at hvisible
  have hspec : (r.shardRequest request).sort = some spec := hsort
  rw [hspec, QueryExecutor.sortValue_eq hdoc] at hvalue
  exact ⟨doc, hvisible, hid, hvalue⟩

/-- The ids of two matches, in the order of their values. -/
theorem ascends_iff (hsort : request.sort = some spec) {i j : Fin r.shards} {a b : ScoredDoc}
    (ha : a ∈ r.matchesOn engines request i) (hb : b ∈ r.matchesOn engines request j) :
    Ascends spec docs a.globalDocId b.globalDocId ↔
      ScoredDoc.compare request.sort a b ≠ .gt := by
  obtain ⟨doc, hdoc, hid, hvalue⟩ := h.exists_doc_of_mem_matchesOn hsort ha
  obtain ⟨doc', hdoc', hid', hvalue'⟩ := h.exists_doc_of_mem_matchesOn hsort hb
  rw [hsort, ScoredDoc.compare, hvalue, hvalue']
  constructor
  · exact fun hascends => hascends i doc hdoc j doc' hdoc' hid.symm hid'.symm
  · intro hne i₁ d hd j₁ d' hd' heq heq'
    -- an id is that of one document, on one shard
    have hunique : ∀ {k k' : Fin r.shards} {e e' : Document}, e ∈ docs k → e' ∈ docs k' →
        e.id = e'.id → e = e' := by
      intro k k' e e' he he' hid
      obtain rfl : k = k' := by rw [← h.assigned k e he, ← h.assigned k' e' he', hid]
      exact List.inj_on_of_nodup_map (h.nodup k) he he' hid
    rw [hunique hd hdoc (heq.trans hid), hunique hd' hdoc' (heq'.trans hid')]
    exact hne

end Placed

/-! ## 4. When the order reaches the client -/

theorem shardFor_of_mem_matchesOn (h : r.Placed engines docs) (hsort : request.sort = some spec)
    {i : Fin r.shards} {a : ScoredDoc} (ha : a ∈ r.matchesOn engines request i) :
    r.shardFor a.globalDocId = i := by
  obtain ⟨doc, hdoc, hid, -⟩ := h.exists_doc_of_mem_matchesOn hsort ha
  rw [hid, h.assigned i doc hdoc]

/-- The scores of matches compare. -/
theorem Numbers.higherFirst_iff (hnumbers : r.Numbers engines request) {i j : Fin r.shards}
    {a b : ScoredDoc} (ha : a ∈ r.matchesOn engines request i)
    (hb : b ∈ r.matchesOn engines request j) :
    HigherFirst (hitOf a) (hitOf b) ↔ byScore (hitOf a) (hitOf b) ≠ .gt := by
  have hscore : (hitOf a).2.key ≠ none := (hnumbers i a ha).1
  have hscore' : (hitOf b).2.key ≠ none := (hnumbers j b hb).1
  exact (byScore_ne_gt_iff hscore hscore').symm

/-- What a shard sends may be sent. -/
theorem maySend_of_mem_take (hnumbers : r.Numbers engines request) {i : Fin r.shards}
    {collectSort : CollectSort request.sort} {a : ScoredDoc}
    (ha : a ∈ (collectSort.run (r.matchesOn engines request i)).take r.scatterLimit) :
    r.MaySend engines request i a := by
  refine UnstableSort.belonging_lt_of_mem_take (fun a => ?_) collectSort
    (fun a ha => (hnumbers i a ha).2) ha
  cases request.sort with
  | none => exact partialCmp_self _
  | some spec => exact spec.compare_self _

/-- Every hit that is sent is that of a match that may be sent. -/
theorem exists_match_of_mem_sentHits (hnumbers : r.Numbers engines request)
    {collectSorts : Fin r.shards → ∀ spec, CollectSort spec} {hit : ShardHit}
    (hhit : hit ∈ r.sentHits engines request collectSorts) :
    ∃ i, ∃ a ∈ r.matchesOn engines request i, r.MaySend engines request i a ∧ hitOf a = hit := by
  obtain ⟨i, -, hmem⟩ := List.mem_flatMap.mp hhit
  obtain ⟨a, ha, rfl⟩ := List.mem_map.mp hmem
  exact ⟨i, a, ((collectSorts i) request.sort).mem_run.mp (List.mem_of_mem_take ha),
    maySend_of_mem_take hnumbers ha, rfl⟩

theorem key_of_mem_sentHits (hnumbers : r.Numbers engines request)
    {collectSorts : Fin r.shards → ∀ spec, CollectSort spec} {hit : ShardHit}
    (hhit : hit ∈ r.sentHits engines request collectSorts) : hit.2.key ≠ none := by
  obtain ⟨i, a, ha, -, rfl⟩ := exists_match_of_mem_sentHits hnumbers hhit
  exact (hnumbers i a ha).1

theorem mem_sentHits {collectSorts : Fin r.shards → ∀ spec, CollectSort spec} {i : Fin r.shards}
    {a : ScoredDoc} (ha : a ∈ (((collectSorts i) request.sort).run
      (r.matchesOn engines request i)).take r.scatterLimit) :
    hitOf a ∈ r.sentHits engines request collectSorts :=
  List.mem_flatMap.mpr ⟨i, List.mem_finRange i, List.mem_map_of_mem ha⟩

/-- The hits of an earlier shard come first. -/
theorem pair_sublist_sentHits {collectSorts : Fin r.shards → ∀ spec, CollectSort spec}
    {i j : Fin r.shards} (hij : i < j) {a b : ScoredDoc}
    (ha : a ∈ (((collectSorts i) request.sort).run (r.matchesOn engines request i)).take
      r.scatterLimit)
    (hb : b ∈ (((collectSorts j) request.sort).run (r.matchesOn engines request j)).take
      r.scatterLimit) :
    [hitOf a, hitOf b].Sublist (r.sentHits engines request collectSorts) := by
  have hblocks : [i, j].Sublist (List.finRange r.shards) :=
    (List.pairwise_lt_finRange r.shards).pair_sublist (List.mem_finRange i)
      (List.mem_finRange j) hij.ne (lt_asymm hij)
  refine List.Sublist.trans ?_ (hblocks.flatMap _)
  rw [List.flatMap_cons, List.flatMap_singleton]
  exact (List.singleton_sublist.mpr (List.mem_map_of_mem ha)).append
    (List.singleton_sublist.mpr (List.mem_map_of_mem hb))

/-- The hits are those of an earlier shard and a later one, or of one shard in the order the
request asks for. -/
def Earlier (r : Router) (spec : SortSpec) (docs : Fin r.shards → List Document)
    (x y : ShardHit) : Prop :=
  r.shardFor x.1 < r.shardFor y.1 ∨
    (r.shardFor x.1 = r.shardFor y.1 ∧ Ascends spec docs x.1 y.1)

/-- The hits come shard by shard, and those of a shard in the order the request asks for. -/
theorem pairwise_sentHits (h : r.Placed engines docs) (hsort : request.sort = some spec)
    (hnumbers : r.Numbers engines request)
    (collectSorts : Fin r.shards → ∀ spec, CollectSort spec) :
    (r.sentHits engines request collectSorts).Pairwise (r.Earlier spec docs) := by
  rw [sentHits, List.pairwise_flatMap]
  constructor
  · intro i _
    have hsorted := ((collectSorts i) request.sort).sorted (r.matchesOn engines request i)
      (fun a ha => (hnumbers i a ha).2)
    refine List.pairwise_map.mpr ((hsorted.sublist (List.take_sublist _ _)).imp_of_mem ?_)
    intro a b ha hb hab
    have ha' := ((collectSorts i) request.sort).mem_run.mp (List.mem_of_mem_take ha)
    have hb' := ((collectSorts i) request.sort).mem_run.mp (List.mem_of_mem_take hb)
    refine Or.inr ⟨?_, (h.ascends_iff hsort ha' hb').mpr hab⟩
    exact (shardFor_of_mem_matchesOn h hsort ha').trans
      (shardFor_of_mem_matchesOn h hsort hb').symm
  · refine (List.pairwise_lt_finRange r.shards).imp (fun {i j} hij x hx y hy => ?_)
    obtain ⟨a, ha, rfl⟩ := List.mem_map.mp hx
    obtain ⟨b, hb, rfl⟩ := List.mem_map.mp hy
    have ha' := ((collectSorts i) request.sort).mem_run.mp (List.mem_of_mem_take ha)
    have hb' := ((collectSorts j) request.sort).mem_run.mp (List.mem_of_mem_take hb)
    have hlt : r.shardFor a.globalDocId < r.shardFor b.globalDocId := by
      rwa [shardFor_of_mem_matchesOn h hsort ha', shardFor_of_mem_matchesOn h hsort hb']
    exact Or.inl hlt

/-- Two hits that are sent are in order, if the score of the first is not lower, and it is the
earlier one where ties are kept and the scores are equal. -/
theorem ascends_of_scoresAgree (h : r.Placed engines docs) (hsort : request.sort = some spec)
    {ties : Ties} (hagree : r.ScoresAgree ties engines request) {i j : Fin r.shards}
    {a b : ScoredDoc} (ha : a ∈ r.matchesOn engines request i)
    (hb : b ∈ r.matchesOn engines request j) (hsa : r.MaySend engines request i a)
    (hsb : r.MaySend engines request j b) (hscore : byScore (hitOf a) (hitOf b) ≠ .gt)
    (htie : ties = .kept → partialCmp a.score.key b.score.key = .eq →
      r.Earlier spec docs (hitOf a) (hitOf b)) :
    Ascends spec docs a.globalDocId b.globalDocId := by
  refine (h.ascends_iff hsort ha hb).mpr (fun hgt => ?_)
  rcases hagree i a ha j b hb hgt hsa hsb with hlt | ⟨hkept, heq, hji⟩
  · exact hscore (partialCmp_eq_lt_iff.mp hlt)
  · rcases htie hkept heq with hlt | ⟨-, hascends⟩
    · have hij : i < j := by
        rw [← shardFor_of_mem_matchesOn h hsort ha, ← shardFor_of_mem_matchesOn h hsort hb]
        exact hlt
      exact absurd hij (not_lt.mpr hji)
    · exact (h.ascends_iff hsort ha hb).mp hascends hgt

/-- **Scores that agree keep the order**, whatever the sorts make of ties. -/
theorem inOrder_of_scoresAgree (h : r.Placed engines docs) (hsort : request.sort = some spec)
    (hnumbers : r.Numbers engines request) {ties : Ties}
    (hagree : r.ScoresAgree ties engines request)
    (collectSorts : Fin r.shards → ∀ spec, CollectSort spec) {sort : HitSort}
    (hties : ties.Allows sort) :
    (sort.run (r.allHits (r.engineAnswers (fun i => (engines i).withSort (collectSorts i))
      request) request)).Pairwise (fun a b => Ascends spec docs a.1 b.1) := by
  have hkeys : ∀ hit ∈ r.sentHits engines request collectSorts, hit.2.key ≠ none :=
    fun _ => key_of_mem_sentHits hnumbers
  rw [h.allHits_withSorts collectSorts]
  cases hcase : ties with
  | any =>
    refine (sort.sorted _ hkeys).imp_of_mem (fun {x y} hx hy hxy => ?_)
    obtain ⟨i, a, ha, hsa, rfl⟩ :=
      exists_match_of_mem_sentHits hnumbers (sort.mem_run.mp hx)
    obtain ⟨j, b, hb, hsb, rfl⟩ :=
      exists_match_of_mem_sentHits hnumbers (sort.mem_run.mp hy)
    refine ascends_of_scoresAgree h hsort hagree ha hb hsa hsb hxy (fun hkept => ?_)
    rw [hcase] at hkept
    cases hkept
  | kept =>
    have hearlier := pairwise_sentHits h hsort hnumbers collectSorts
    rw [hties hcase _ hkeys]
    refine (UnstableSort.pairwise_insertionSort_stable hearlier).imp_of_mem ?_
    intro x y hx hy hxy
    obtain ⟨i, a, ha, hsa, rfl⟩ :=
      exists_match_of_mem_sentHits hnumbers ((List.mem_insertionSort _).mp hx)
    obtain ⟨j, b, hb, hsb, rfl⟩ :=
      exists_match_of_mem_sentHits hnumbers ((List.mem_insertionSort _).mp hy)
    have hscore : byScore (hitOf a) (hitOf b) ≠ .gt :=
      (hnumbers.higherFirst_iff ha hb).mp hxy.1
    refine ascends_of_scoresAgree h hsort hagree ha hb hsa hsb hscore (fun _ heq => hxy.2 ?_)
    -- of equal scores, none is the higher one
    have hback : byScore (hitOf b) (hitOf a) ≠ .gt := ne_of_eq_of_ne heq (by decide)
    exact (hnumbers.higherFirst_iff hb ha).mpr hback

/-- The shards' sorts that put one candidate of a shard, and one of the others, before all that
compare as equal. -/
def puttingFirst (i : Fin r.shards) (a b : ScoredDoc) (j : Fin r.shards)
    (spec : Option SortSpec) : CollectSort spec :=
  UnstableSort.stable (ScoredDoc.LeFor spec) (ScoredDoc.compare_ne_gt_of_leFor spec)
    (.first (fun c => c = if j = i then a else b))

/-- Two matches that may be sent are sent, under some sorts of the shards. -/
theorem mem_take_puttingFirst (hnumbers : r.Numbers engines request) {i j : Fin r.shards}
    {a b : ScoredDoc} (ha : a ∈ r.matchesOn engines request i)
    (hb : b ∈ r.matchesOn engines request j) (hgt : ScoredDoc.compare request.sort a b = .gt)
    (hsa : r.MaySend engines request i a) (hsb : r.MaySend engines request j b) :
    a ∈ ((puttingFirst i a b i request.sort).run (r.matchesOn engines request i)).take
        r.scatterLimit ∧
      b ∈ ((puttingFirst i a b j request.sort).run (r.matchesOn engines request j)).take
        r.scatterLimit := by
  have hfirst : ∀ (k : Fin r.shards) {c : ScoredDoc}, c ∈ r.matchesOn engines request k →
      (c = if k = i then a else b) → r.MaySend engines request k c →
      c ∈ ((puttingFirst i a b k request.sort).run (r.matchesOn engines request k)).take
        r.scatterLimit := by
    intro k c hc heq hsend
    rw [puttingFirst, ← heq]
    exact UnstableSort.mem_take_stable (fun _ _ => ScoredDoc.leFor_iff)
      (fun c hc => (hnumbers k c hc).2) hc hsend
  have hsent := hfirst i ha (by rw [if_pos rfl]) hsa
  refine ⟨hsent, ?_⟩
  by_cases hji : j = i
  · subst hji
    exact UnstableSort.mem_take_of_gt _ (fun c hc => (hnumbers j c hc).2) hsent hb hgt
  · exact hfirst j hb (by rw [if_neg hji]) hsb

/-- **Scores that do not agree** put some hit before another that belongs in front of it. -/
theorem scoresAgree_of_inOrder (h : r.Placed engines docs) (hsort : request.sort = some spec)
    (hnumbers : r.Numbers engines request) {ties : Ties}
    (horder : ∀ (collectSorts : Fin r.shards → ∀ spec, CollectSort spec) (sort : HitSort),
      ties.Allows sort → (sort.run (r.allHits (r.engineAnswers
        (fun i => (engines i).withSort (collectSorts i)) request) request)).Pairwise
          (fun a b => Ascends spec docs a.1 b.1)) :
    r.ScoresAgree ties engines request := by
  intro i a ha j b hb hgt hsa hsb
  obtain ⟨hsenta, hsentb⟩ := mem_take_puttingFirst hnumbers ha hb hgt hsa hsb
  have horder' := horder (puttingFirst i a b)
  rw [h.allHits_withSorts (puttingFirst i a b)] at horder'
  have hmema : hitOf a ∈ r.sentHits engines request (puttingFirst i a b) := mem_sentHits hsenta
  have hmemb : hitOf b ∈ r.sentHits engines request (puttingFirst i a b) := mem_sentHits hsentb
  have hkeys : ∀ hit ∈ r.sentHits engines request (puttingFirst i a b), hit.2.key ≠ none :=
    fun _ => key_of_mem_sentHits hnumbers
  have hshards : i < j →
      [hitOf a, hitOf b].Sublist (r.sentHits engines request (puttingFirst i a b)) :=
    fun hij => pair_sublist_sentHits hij hsenta hsentb
  generalize r.sentHits engines request (puttingFirst i a b) = hits
    at horder' hmema hmemb hkeys hshards
  have hascends : ¬ Ascends spec docs (hitOf a).1 (hitOf b).1 := by
    intro hascends
    exact (h.ascends_iff hsort ha hb).mp hascends hgt
  have hne : hitOf a ≠ hitOf b := by
    intro heq
    have hself : Ascends spec docs (hitOf a).1 (hitOf a).1 :=
      (h.ascends_iff hsort ha ha).mpr (by
        rw [hsort]
        exact spec.compare_self _)
    rw [heq] at hself hascends
    exact hascends hself
  -- no sort that is allowed puts the first hit before the second
  have hnot : ∀ sort : HitSort, ties.Allows sort →
      ¬ [hitOf a, hitOf b].Sublist (sort.run hits) := by
    intro sort hallows hsub
    have hpair := (horder' sort hallows).sublist hsub
    exact hascends ((List.pairwise_cons.mp hpair).1 (hitOf b) (List.mem_singleton_self _))
  have hkept : ties.Allows (.stable .keep) := fun _ _ hkeys => if_pos hkeys
  have hkeep : (HitSort.stable .keep).run hits = hits.insertionSort HigherFirst := if_pos hkeys
  cases hcmp : partialCmp a.score.key b.score.key with
  | lt => exact Or.inl rfl
  | gt =>
    refine absurd ?_ (hnot _ hkept)
    have hsorted := (HitSort.stable .keep).sorted hits hkeys
    refine hsorted.pair_sublist ((HitSort.stable .keep).mem_run.mpr hmema)
      ((HitSort.stable .keep).mem_run.mpr hmemb) hne (fun hback => ?_)
    exact hback hcmp
  | eq =>
    have hab : HigherFirst (hitOf a) (hitOf b) := by
      refine (hnumbers.higherFirst_iff ha hb).mpr (fun hgt => ?_)
      have hlt := partialCmp_eq_lt_iff.mpr hgt
      exact absurd (hlt.symm.trans hcmp) (by decide)
    cases hcase : ties with
    | any =>
      refine absurd ?_ (hnot (.stable (.first (fun c => c = hitOf a))) (fun hk => ?_))
      · exact UnstableSort.pair_sublist_stable _ hkeys hmema hmemb hne hab
      · rw [hcase] at hk
        cases hk
    | kept =>
      refine Or.inr ⟨rfl, rfl, not_lt.mp (fun hij => hnot _ hkept ?_)⟩
      rw [hkeep]
      exact List.pair_sublist_insertionSort hab (hshards hij)

theorem sortReaches_of_scoresAgree (h : r.Placed engines docs) (hranker : r.ranker = noopRanker)
    (hzone : request.NoZone) (hnumbers : r.Numbers engines request) {ties : Ties}
    (hagree : r.ScoresAgree ties engines request) :
    r.SortReaches ties engines docs request := by
  intro spec hsort collectSorts sort hallows offset limit
  obtain ⟨response, hok, hpage⟩ :=
    h.searchLocal_withSorts hranker hzone sort collectSorts offset limit
  refine ⟨response, hok, ?_⟩
  rw [inOrder_iff, hpage]
  exact (inOrder_of_scoresAgree h hsort hnumbers hagree collectSorts hallows).sublist
    (page_sublist offset limit _)

/-- A router for two shards: document 1 is on the first. -/
def double : Router := { single with shards := 2, shardFor := fun id => if id = 1 then 0 else 1 }

/-- A document at a price. -/
def priced (id : DocId) (price : F64) : Document := { titled id "a" with price }

/-- One document on each shard: at 2.0 on the first, at 1.0 on the second. -/
def twoPrices (i : Fin double.shards) : List Document :=
  if i.val = 0 then [priced 1 ⟨0x4000000000000000⟩] else [priced 2 ⟨0x3ff0000000000000⟩]

def priceShards (i : Fin double.shards) : ShardEngine :=
  runNew 1000 .unscored ((twoPrices i).map .index)

/-- Without a query the scores of all matches are one. -/
theorem score_of_mem_matchesOn (hquery : request.query = "") {i : Fin r.shards} {a : ScoredDoc}
    (ha : a ∈ r.matchesOn engines request i) : a.score = F32.one := by
  obtain ⟨result, hresult, hmem⟩ := List.mem_flatMap.mp ha
  obtain ⟨⟨reader, ord⟩, -, rfl⟩ := List.mem_map.mp hresult
  have hquery' : (r.shardRequest request).query = "" := hquery
  exact QueryExecutor.score_of_mem_scoredDocs hquery' hmem

/-- **On one shard the order reaches the client without a query**, if ties are kept. -/
theorem sortReaches_one (h : r.Placed engines docs) (hranker : r.ranker = noopRanker)
    (hzone : request.NoZone) (hquery : request.query = "") (hone : r.shards = 1)
    (hvalues : ∀ i, ∀ a ∈ r.matchesOn engines request i, a.sortKey request.sort ≠ none) :
    r.SortReaches .kept engines docs request := by
  have hscore : ∀ i, ∀ a ∈ r.matchesOn engines request i, a.score = F32.one :=
    fun i a ha => score_of_mem_matchesOn hquery ha
  have hnumbers : r.Numbers engines request := by
    refine fun i a ha => ⟨?_, hvalues i a ha⟩
    rw [hscore i a ha]
    decide
  refine sortReaches_of_scoresAgree h hranker hzone hnumbers (fun i a ha j b hb _ _ _ => ?_)
  have hji : j = i := Fin.ext (by omega)
  rw [hscore i a ha, hscore j b hb, hji]
  exact Or.inr ⟨rfl, by decide, le_rfl⟩

end Router

end ZearchEngine
