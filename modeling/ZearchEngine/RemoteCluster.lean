/-
# Remote shards

A router reaches a shard through a client: `LocalShardClient` calls the engine, and
`RemoteShardClient` sends each call to a server that makes it (`crates/router/src/client.rs`,
`crates/shard/src/grpc_server.rs`, `proto/shard.proto`).  A call that gets through does the same
either way, but for what the wire makes of the documents.

A search request gets through as it is (`protoToSearchRequest_searchRequestToProto`), and so do
the hits, the counts and the mode of retrieval.  A document loses the attributes that are not
strings.  So shards that have had the same calls hold the same documents but for these
attributes, wherever the shards are, and a search of the router, if it asks for no number but
the price, finds the same (`search_anywhere`).
-/
import ZearchEngine.BlindSearch
import ZearchEngine.Cluster

namespace ZearchEngine

open SegmentWriter ShardM

/-! ## 1. Messages -/

/-- `RangeFilter`. -/
structure RangeFilter where
  gte : Option F64
  lte : Option F64
deriving DecidableEq

/-- `MultiValueFilter`. -/
structure MultiValueFilter where
  values : List String
deriving DecidableEq

/-- `oneof filter`. -/
inductive ProtoFilterValue.Filter where
  | eq (eq : String)
  | range (range : RangeFilter)
  | multi (multi : MultiValueFilter)
deriving DecidableEq

/-- `FilterValue` of the protocol. -/
structure ProtoFilterValue where
  filter : Option ProtoFilterValue.Filter
deriving DecidableEq

/-- `SortOrder::Desc as i32`. -/
def ProtoSortOrder.desc : Int32 := 0

/-- `SortOrder::Asc as i32`. -/
def ProtoSortOrder.asc : Int32 := 1

/-- `SortSpec` of the protocol: an enumeration travels as a number. -/
structure ProtoSortSpec where
  field : String
  order : Int32
deriving DecidableEq

/-- `SearchRequest` of the protocol.  The language, which is copied and read by nobody, is left
out. -/
structure ProtoSearchRequest where
  query : String
  filters : List (String × ProtoFilterValue)
  aggregations : List String
  sort : Option ProtoSortSpec
  offset : UInt64
  limit : UInt64
  typoTolerance : Bool
deriving DecidableEq

structure ScoredDocument where
  docId : DocId
  score : F32
deriving DecidableEq

structure AggregationBucket where
  value : String
  count : Nat
deriving DecidableEq

structure AggregationResult where
  buckets : List AggregationBucket
deriving DecidableEq

/-- `SearchResponse` of the protocol. -/
structure ProtoSearchResponse where
  hits : List ScoredDocument
  totalHits : Nat
  aggregations : List (String × AggregationResult)
  retrievalMode : String
deriving DecidableEq

/-! ## 2. Converters -/

/-- What `search_request_to_proto` makes of a filter. -/
def FilterValue.toProto : FilterValue → ProtoFilterValue
  | .equality eq => ⟨some (.eq eq)⟩
  | .range gte lte => ⟨some (.range ⟨gte, lte⟩)⟩
  | .multiValue values => ⟨some (.multi ⟨values⟩)⟩

/-- What `proto_to_search_request` makes of a filter: nothing, if it is not set. -/
def ProtoFilterValue.toFilterValue (fv : ProtoFilterValue) : Option FilterValue :=
  fv.filter.map (fun filter => match filter with
    | .eq v => .equality v
    | .range r => .range r.gte r.lte
    | .multi m => .multiValue m.values)

/-- `search_request_to_proto`. -/
def RemoteShardClient.searchRequestToProto (req : SearchRequest) : ProtoSearchRequest where
  query := req.query
  filters := req.filters.map (fun (field, fv) => (field, fv.toProto))
  aggregations := req.aggregations
  sort := req.sort.map (fun s =>
    { field := s.field
      order := match s.order with
        | .asc => ProtoSortOrder.asc
        | .desc => ProtoSortOrder.desc })
  offset := UInt64.ofNat req.offset
  limit := UInt64.ofNat req.limit
  typoTolerance := req.typoTolerance

/-- `proto_to_search_request`. -/
def ShardGrpcServer.protoToSearchRequest (proto : ProtoSearchRequest) : SearchRequest where
  query := proto.query
  filters := proto.filters.filterMap (fun (field, fv) => fv.toFilterValue.map (fun v => (field, v)))
  aggregations := proto.aggregations
  sort := proto.sort.map (fun s =>
    { field := s.field
      order := if s.order = ProtoSortOrder.asc then .asc else .desc })
  offset := proto.offset.toNat
  limit := proto.limit.toNat
  typoTolerance := proto.typoTolerance

/-- The page of the request is one a `usize` of 64 bits can name. -/
structure SearchRequest.Fits (req : SearchRequest) : Prop where
  offset : req.offset < 2 ^ 64
  limit : req.limit < 2 ^ 64

theorem toFilterValue_toProto (fv : FilterValue) : fv.toProto.toFilterValue = some fv := by
  cases fv <;> rfl

/-- **A request gets through as it is.** -/
theorem protoToSearchRequest_searchRequestToProto {req : SearchRequest} (h : req.Fits) :
    ShardGrpcServer.protoToSearchRequest (RemoteShardClient.searchRequestToProto req) = req := by
  have hfilters : (req.filters.map (fun (field, fv) => (field, fv.toProto))).filterMap
      (fun (field, fv) => fv.toFilterValue.map (fun v => (field, v))) = req.filters := by
    rw [List.filterMap_map]
    refine (List.filterMap_congr (fun e _ => ?_)).trans List.filterMap_some
    simp [toFilterValue_toProto]
  have hsort : ∀ sort : SortSpec, (if (match sort.order with
      | .asc => ProtoSortOrder.asc
      | .desc => ProtoSortOrder.desc) = ProtoSortOrder.asc then SortOrder.asc else .desc)
      = sort.order := by
    rintro ⟨field, _ | _⟩ <;> rfl
  have hoffset : (UInt64.ofNat req.offset).toNat = req.offset :=
    UInt64.toNat_ofNat_of_lt h.offset
  have hlimit : (UInt64.ofNat req.limit).toNat = req.limit := UInt64.toNat_ofNat_of_lt h.limit
  simp only [ShardGrpcServer.protoToSearchRequest, RemoteShardClient.searchRequestToProto,
    hfilters, hoffset, hlimit, Option.map_map, Function.comp_def, hsort, Option.map_id']

/-! ## 3. Calls -/

namespace ShardGrpcServer

/-- What `search` sends back. -/
def searchResponse (resp : SearchResponse) : ProtoSearchResponse where
  hits := resp.hits.map (fun h => ⟨h.id, h.score⟩)
  totalHits := resp.totalHits
  aggregations := resp.aggregations.map (fun (field, buckets) =>
    (field, ⟨buckets.map (fun b => ⟨b.1, b.2⟩)⟩))
  retrievalMode := match resp.retrievalMode with
    | .and => "and"
    | .orFallback => "or_fallback"

/-- `search`. -/
def search (request : ProtoSearchRequest) : ShardM ProtoSearchResponse := do
  let resp ← ShardEngine.search (protoToSearchRequest request)
  pure (searchResponse resp)

/-- `bulk_index`: the number of documents, as a `u32`. -/
def bulkIndex (documents : List DocumentProto) : ShardM UInt32 := do
  ShardEngine.indexBatch (documents.map protoToDoc)
  pure (UInt32.ofNat documents.length)

/-- `delete`. -/
def delete (docId : DocId) : ShardM Unit := ShardEngine.delete docId

/-- `flush`: the number of segments that it created. -/
def flush : ShardM Nat := do
  let before ← ShardEngine.read fun s => s.stats.segmentCount
  ShardEngine.flush
  let after ← ShardEngine.read fun s => s.stats.segmentCount
  pure (after - before)

/-- `reindex`. -/
def reindex : ShardM Nat := ShardEngine.reindexSelf

end ShardGrpcServer

namespace RemoteShardClient

/-- What `search` makes of a response. -/
def searchResult (resp : ProtoSearchResponse) : ShardSearchResult where
  hits := resp.hits.map (fun h => (h.docId, h.score))
  totalHits := resp.totalHits
  aggregations := resp.aggregations.map (fun (field, agg) =>
    (field, agg.buckets.map (fun b => (b.value, b.count))))
  usedOrFallback := resp.retrievalMode = "or_fallback"

/-- `search`, of a request that arrives. -/
def search (request : SearchRequest) : ShardM ShardSearchResult := do
  let resp ← ShardGrpcServer.search (searchRequestToProto request)
  pure (searchResult resp)

/-- `bulk`. -/
def bulk (docs : List Document) : ShardM UInt32 := ShardGrpcServer.bulkIndex (docs.map docToProto)

/-- `delete`. -/
def delete (docId : DocId) : ShardM Unit := ShardGrpcServer.delete docId

/-- `flush`. -/
def flush : ShardM Unit := do
  let _segmentsCreated ← ShardGrpcServer.flush
  pure ()

/-- `reindex`: the number of documents rewritten. -/
def reindex : ShardM Nat := ShardGrpcServer.reindex

end RemoteShardClient

namespace LocalShardClient

/-- `bulk`. -/
def bulk (docs : List Document) : ShardM UInt32 := do
  ShardEngine.indexBatch docs
  pure (UInt32.ofNat docs.length)

/-- `delete`. -/
def delete (docId : DocId) : ShardM Unit := ShardEngine.delete docId

/-- `flush`. -/
def flush : ShardM Unit := ShardEngine.flush

/-- `reindex`: the number of documents rewritten. -/
def reindex : ShardM Nat := ShardEngine.reindexSelf

end LocalShardClient

/-- **A search gets through as it is**, and what it found. -/
theorem RemoteShardClient.search_eq {request : SearchRequest} (h : request.Fits) :
    RemoteShardClient.search request = LocalShardClient.search request := by
  funext s
  have hresult : ∀ resp : SearchResponse, searchResult (ShardGrpcServer.searchResponse resp)
      = { hits := resp.hits.map (fun hit => (hit.id, hit.score))
          totalHits := resp.totalHits
          aggregations := resp.aggregations
          usedOrFallback := resp.retrievalMode = .orFallback } := by
    intro resp
    have hmode : decide ((ShardGrpcServer.searchResponse resp).retrievalMode = "or_fallback")
        = decide (resp.retrievalMode = .orFallback) := by
      cases hmode : resp.retrievalMode <;> simp [ShardGrpcServer.searchResponse, hmode]
    rw [searchResult, hmode]
    simp [ShardGrpcServer.searchResponse, Function.comp_def]
  rw [RemoteShardClient.search, ShardGrpcServer.search,
    protoToSearchRequest_searchRequestToProto h, LocalShardClient.search]
  simp only [bind_apply]
  cases ShardEngine.search request s with
  | mk result s' =>
    cases result with
    | error e => rfl
    | ok resp => exact congrArg (fun result => (Except.ok result, s')) (hresult resp)

/-! ## 4. Shards behind either client -/

/-- How the router reaches a shard. -/
inductive Location where
  | inProcess | remote

/-- A call of a client's method; or the shard is restarted. -/
inductive ClientCall where
  | search (request : SearchRequest)
  | index (doc : Document)
  | bulk (docs : List Document)
  | delete (docId : DocId)
  | flush
  | reindex
  | restart

/-- The call without the value it returns. -/
def LocalShardClient.exec : ClientCall → ShardM Unit
  | .search request => do
    let _result ← search request
    pure ()
  | .index doc => index doc
  | .bulk docs => do
    let _count ← bulk docs
    pure ()
  | .delete docId => delete docId
  | .flush => flush
  | .reindex => do
    let _stats ← reindex
    pure ()
  | .restart => ShardEngine.reopen

/-- The call without the value it returns. -/
def RemoteShardClient.exec : ClientCall → ShardM Unit
  | .search request => do
    let _result ← search request
    pure ()
  | .index doc => index doc
  | .bulk docs => do
    let _count ← bulk docs
    pure ()
  | .delete docId => delete docId
  | .flush => flush
  | .reindex => do
    let _stats ← reindex
    pure ()
  | .restart => ShardEngine.reopen

namespace Location

def search : Location → SearchRequest → ShardM ShardSearchResult
  | inProcess => LocalShardClient.search
  | remote => RemoteShardClient.search

def getDocs : Location → ShardEngine → List DocId → List Document
  | inProcess => LocalShardClient.getDocs
  | remote => RemoteShardClient.getDocs

def exec : Location → ClientCall → ShardM Unit
  | inProcess => LocalShardClient.exec
  | remote => RemoteShardClient.exec

/-- A new shard after some calls. -/
def run (location : Location) (writeBufferSize : Nat) (searcher : MultiSegmentSearcher)
    (calls : List ClientCall) : ShardEngine :=
  LabelledRun.run (fun s call => (location.exec call s).2)
    (ShardEngine.openDisk writeBufferSize searcher Disk.empty) calls

end Location

/-- The operation that the call comes down to. -/
def ClientCall.op : ClientCall → ShardEngine.Op
  | .search request => .search request
  | .index doc => .index doc
  | .bulk docs => .indexBatch docs
  | .delete docId => .delete docId
  | .flush => .flush
  | .reindex => .reindexSelf
  | .restart => .reopen

/-- The attributes that get through. -/
def onWire : AttributeEdit := fun doc => doc.attributes.toProto.toAttributes

theorem edit_onWire (doc : Document) : doc.edit onWire = doc.received := rfl

/-- What comes after a computation without changing the state leaves what it left. -/
theorem bind_snd {α β : Type} {k : α → ShardM β} (hk : ∀ a s, (k a s).2 = s) (x : ShardM α)
    (s : ShardEngine) : ((x >>= k) s).2 = (x s).2 := by
  rw [bind_apply]
  cases x s with
  | mk result s' =>
    cases result with
    | ok a => exact hk a s'
    | error e => rfl

/-- A search leaves the buffer read. -/
theorem ShardEngine.search_snd (request : SearchRequest) (s : ShardEngine) :
    (ShardEngine.search request s).2 = (bufferReader s).2 := bind_snd (fun _ _ => rfl) _ s

theorem LocalShardClient.exec_eq (call : ClientCall) (s : ShardEngine) :
    (exec call s).2 = s.step call.op := by
  cases call with
  | search request =>
    calc ((search request >>= fun _ => pure ()) s).2 = (search request s).2 :=
          bind_snd (fun _ _ => rfl) _ s
      _ = (ShardEngine.search request s).2 := bind_snd (fun _ _ => rfl) _ s
      _ = s.step (.search request) := (bind_snd (fun _ _ => rfl) _ s).symm
  | index doc => rfl
  | bulk docs =>
    calc ((bulk docs >>= fun _ => pure ()) s).2 = (bulk docs s).2 :=
          bind_snd (fun _ _ => rfl) _ s
      _ = s.step (.indexBatch docs) := bind_snd (fun _ _ => rfl) _ s
  | delete docId => rfl
  | flush => rfl
  | reindex => rfl
  | restart => rfl

/-- **A remote call does what the call does, on the documents as they arrive.** -/
theorem RemoteShardClient.exec_eq (call : ClientCall) (s : ShardEngine) :
    (exec call s).2 = s.step (call.op.edit onWire) := by
  cases call with
  | search request =>
    calc ((search request >>= fun _ => pure ()) s).2 = (search request s).2 :=
          bind_snd (fun _ _ => rfl) _ s
      _ = (ShardGrpcServer.search (searchRequestToProto request) s).2 :=
          bind_snd (fun _ _ => rfl) _ s
      _ = (ShardEngine.search _ s).2 := bind_snd (fun _ _ => rfl) _ s
      _ = (ShardEngine.search request s).2 := by
          rw [ShardEngine.search_snd, ShardEngine.search_snd]
      _ = s.step (.search request) := (bind_snd (fun _ _ => rfl) _ s).symm
  | index doc => rfl
  | bulk docs =>
    have hdocs : (docs.map docToProto).map ShardGrpcServer.protoToDoc
        = docs.map (Document.edit onWire) := List.map_map
    calc ((bulk docs >>= fun _ => pure ()) s).2 = (bulk docs s).2 :=
          bind_snd (fun _ _ => rfl) _ s
      _ = (ShardEngine.indexBatch ((docs.map docToProto).map ShardGrpcServer.protoToDoc) s).2 :=
          bind_snd (fun _ _ => rfl) _ s
      _ = s.step (.indexBatch (docs.map (Document.edit onWire))) := by
          rw [hdocs]
          rfl
  | delete docId => rfl
  | flush =>
    calc ((ShardGrpcServer.flush >>= fun _ => pure ()) s).2 = (ShardGrpcServer.flush s).2 :=
          bind_snd (fun _ _ => rfl) _ s
      _ = s.step .flush := bind_snd (fun _ _ => rfl) ShardEngine.flush s
  | reindex => rfl
  | restart => rfl

theorem Location.run_inProcess (writeBufferSize : Nat) (searcher : MultiSegmentSearcher)
    (calls : List ClientCall) :
    inProcess.run writeBufferSize searcher calls
      = ShardEngine.runNew writeBufferSize searcher (calls.map ClientCall.op) := by
  rw [Location.run, ShardEngine.runNew, LabelledRun.run, LabelledRun.run, List.foldl_map]
  exact List.foldl_ext _ _ _ (fun s call _ => LocalShardClient.exec_eq call s)

/-- **A remote shard holds what a local one holds**, as it arrived. -/
theorem Location.run_remote (writeBufferSize : Nat) (searcher : MultiSegmentSearcher)
    (calls : List ClientCall) :
    remote.run writeBufferSize searcher calls
      = (inProcess.run writeBufferSize searcher calls).edit onWire := by
  have hremote : remote.run writeBufferSize searcher calls
      = ShardEngine.runNew writeBufferSize searcher
          ((calls.map ClientCall.op).map (ShardEngine.Op.edit onWire)) := by
    rw [Location.run, ShardEngine.runNew, LabelledRun.run, LabelledRun.run, List.foldl_map,
      List.foldl_map]
    exact List.foldl_ext _ _ _ (fun s call _ => RemoteShardClient.exec_eq call s)
  rw [run_inProcess, hremote, ShardEngine.runNew_edit]

/-! ## 5. What a search does not see of the wire -/

theorem Attributes.get_eq_some_iff {a : Attributes} {key : String} {v : Value} :
    a.get key = some v ↔ (key, v) ∈ a.entries := by
  rw [Attributes.get, Option.map_eq_some_iff]
  constructor
  · rintro ⟨⟨k, w⟩, hfind, rfl⟩
    obtain rfl : k = key := by simpa using List.find?_some hfind
    exact List.mem_of_find?_eq_some hfind
  · intro hmem
    have hsome : (a.entries.find? (fun e => e.1 = key)).isSome :=
      List.find?_isSome.mpr ⟨(key, v), hmem, by simp⟩
    obtain ⟨⟨k, w⟩, hfind⟩ := Option.isSome_iff_exists.mp hsome
    obtain rfl : k = key := by simpa using List.find?_some hfind
    have hsame := List.inj_on_of_nodup_map a.nodup (List.mem_of_find?_eq_some hfind) hmem rfl
    exact ⟨(k, w), hfind, congrArg Prod.snd hsame⟩

/-- A string is found under its key as before. -/
theorem get_onWire_eq_string_iff {doc : Document} {key s : String} :
    (doc.edit onWire).attributes.get key = some (.string s) ↔
      doc.attributes.get key = some (.string s) := by
  rw [Attributes.get_eq_some_iff, Attributes.get_eq_some_iff, edit_onWire, mem_received]
  exact and_iff_left ⟨s, rfl⟩

theorem keywordValue_eq_some {name s : String} {doc : Document} (hname : name ≠ "category") :
    keywordValue name doc = some s ↔ doc.attributes.get name = some (.string s) := by
  rw [keywordValue, if_neg hname]
  rcases doc.attributes.get name with _ | (v | v | v | v) <;> simp

/-- **Keyword columns are filled with the same values.** -/
theorem keepsKeyword_onWire (name : String) : KeepsKeyword onWire name := by
  intro doc
  by_cases hname : name = "category"
  · rw [keywordValue, keywordValue, if_pos hname, if_pos hname]
    rfl
  · refine Option.ext (fun s => ?_)
    rw [keywordValue_eq_some hname, keywordValue_eq_some hname, get_onWire_eq_string_iff]

/-- The request asks for no number but the price: no range of another field that the schema has
numbers for, and no order by another field. -/
structure SearchRequest.PriceOnly {R : Type} (schema : IndexSchema R) (request : SearchRequest) :
    Prop where
  ranges : ∀ e ∈ request.filters, (∃ gte lte, e.2 = .range gte lte) →
    schema.hasNumericColumn e.1 = true → e.1 = "price"
  sort : ∀ spec, request.sort = some spec → spec.field = "price"

/-- **Such a request does not see what the wire drops.** -/
theorem SearchRequest.PriceOnly.blind {R : Type} {schema : IndexSchema R}
    {request : SearchRequest} (h : request.PriceOnly schema) : request.Blind onWire schema where
  keywordFilters e _ _ _ := keepsKeyword_onWire e.1
  rangeFilters e he hrange hcol := by
    rw [h.ranges e he hrange hcol]
    exact fun _ => rfl
  aggregations field _ _ := keepsKeyword_onWire field
  sort spec hsort doc := by
    rw [h.sort spec hsort]
    rfl

/-! ## 6. The router -/

theorem lastIndexed_edit (f : AttributeEdit) (docs : List Document) (id : DocId) :
    docMap (docs.map (Document.edit f)) id = (docMap docs id).map (Document.edit f) := by
  have hfold : ∀ (docs : List Document) (m m' : DocId → Option Document),
      (∀ id, m' id = (m id).map (Document.edit f)) →
      ∀ id, (docs.map (Document.edit f)).foldl ShardEngine.insertDoc m' id
        = (docs.foldl ShardEngine.insertDoc m id).map (Document.edit f) := by
    intro docs
    induction docs with
    | nil => exact fun m m' h => h
    | cons doc docs ih =>
      intro m m' h
      refine ih _ _ (fun id => ?_)
      by_cases hid : id = doc.id
      · subst hid
        simp [ShardEngine.insertDoc]
      · have hid' : id ≠ (doc.edit f).id := hid
        rw [ShardEngine.insertDoc, ShardEngine.insertDoc, Function.update_of_ne hid,
          Function.update_of_ne hid', h id]
  exact hfold docs (fun _ => none) (fun _ => none) (fun _ => rfl) id

namespace Router

variable (r : Router) (f : AttributeEdit)

/-- The answers are the same but for the attributes of documents. -/
structure Answers.Agree (request : Request) (answers answers' : Answers r.shards) : Prop where
  search : ∀ i, answers'.search i (r.shardRequest request)
    = answers.search i (r.shardRequest request)
  candidateDocs : ∀ i ids, (answers'.candidateDocs i ids).map (List.map (Document.edit f))
    = (answers.candidateDocs i ids).map (List.map (Document.edit f))
  pageDocs : ∀ i ids, (answers'.pageDocs i ids).map (List.map (Document.edit f))
    = (answers.pageDocs i ids).map (List.map (Document.edit f))

variable {r f}

theorem fetchDocs_edit {getDocs getDocs' : Fin r.shards → List DocId → Option (List Document)}
    (h : ∀ i ids, (getDocs' i ids).map (List.map (Document.edit f))
      = (getDocs i ids).map (List.map (Document.edit f))) (docIds : List DocId) :
    (r.fetchDocs getDocs' docIds).map (Document.edit f)
      = (r.fetchDocs getDocs docIds).map (Document.edit f) := by
  have hgetD : ∀ docs : Option (List Document), (docs.getD []).map (Document.edit f)
      = (docs.map (List.map (Document.edit f))).getD [] := fun docs => by
    cases docs <;> rfl
  rw [fetchDocs, fetchDocs, List.map_flatMap, List.map_flatMap]
  refine List.flatMap_congr (fun i _ => ?_)
  simp only [apply_ite (List.map (Document.edit f)), hgetD, h]

theorem docMap_congr {docs docs' : List Document}
    (h : docs'.map (Document.edit f) = docs.map (Document.edit f)) (id : DocId) :
    (docMap docs' id).map (Document.edit f) = (docMap docs id).map (Document.edit f) := by
  rw [← lastIndexed_edit, ← lastIndexed_edit, h]

namespace Answers.Agree

variable {request : Request} {answers answers' : Answers r.shards}
  (h : Agree r f request answers answers')
include h

theorem gather_eq : r.gather answers' request = r.gather answers request :=
  List.filterMap_congr (fun i _ => h.search i)

theorem sortedHits_eq : r.sortedHits answers' request = r.sortedHits answers request := by
  rw [sortedHits, sortedHits, allHits, allHits, h.gather_eq]

theorem map_candidateDocs : (r.candidateDocs answers' request).map (Document.edit f)
    = (r.candidateDocs answers request).map (Document.edit f) := by
  rw [Router.candidateDocs, Router.candidateDocs, h.sortedHits_eq]
  exact fetchDocs_edit h.candidateDocs _

/-- Without a ranker and a strategy, what the candidates' documents say does not matter. -/
theorem scatterGather_eq (hranker : r.ranker = noopRanker) (hzone : request.NoZone) :
    r.scatterGather answers' request = r.scatterGather answers request := by
  have hsome : ∀ hit : ShardHit, (docMap (r.candidateDocs answers' request) hit.1).isSome
      = (docMap (r.candidateDocs answers request) hit.1).isSome := by
    intro hit
    have hdoc := docMap_congr h.map_candidateDocs hit.1
    rw [← Option.isSome_map (f := Document.edit f), hdoc, Option.isSome_map]
  simp only [scatterGather, hranker, rerankWithFallback_noopRanker, unranked_rankCandidate,
    h.gather_eq, h.sortedHits_eq, hsome]
  cases hdest : request.destinationZone with
  | none => rfl
  | some zone =>
    have hempty : zone.isEmpty = true := by
      rw [Request.NoZone, hdest, Option.getD_some] at hzone
      rw [hzone]
      rfl
    simp only [hempty, if_true]

/-- The page shows the same, but for the attributes. -/
theorem buildHits_edit (pageHits : List ShardHit) (includeDocs : Bool) :
    (r.buildHits answers' pageHits (docMap (r.candidateDocs answers' request))
        includeDocs).map (SearchHit.edit f)
      = (r.buildHits answers pageHits (docMap (r.candidateDocs answers request))
        includeDocs).map (SearchHit.edit f) := by
  have hcache : ((pageHits.map Prod.fst).filterMap
        (docMap (r.candidateDocs answers' request))).map (Document.edit f)
      = ((pageHits.map Prod.fst).filterMap
        (docMap (r.candidateDocs answers request))).map (Document.edit f) := by
    rw [List.map_filterMap, List.map_filterMap]
    exact List.filterMap_congr (fun id _ => docMap_congr h.map_candidateDocs id)
  have hlength := congrArg List.length hcache
  rw [List.length_map, List.length_map] at hlength
  cases includeDocs with
  | false => rfl
  | true =>
    simp only [buildHits, Bool.not_true, Bool.false_eq_true, if_false, hlength, List.map_map]
    refine List.map_congr_left (fun hit _ => ?_)
    have hdocs : ∀ docs docs' : List Document,
        docs'.map (Document.edit f) = docs.map (Document.edit f) →
        SearchHit.edit f ⟨hit.1, hit.2, docMap docs' hit.1⟩
          = SearchHit.edit f ⟨hit.1, hit.2, docMap docs hit.1⟩ := by
      intro docs docs' heq
      rw [SearchHit.edit, SearchHit.edit, docMap_congr heq]
    refine hdocs _ _ ?_
    split
    · exact hcache
    · split
      · rfl
      · exact fetchDocs_edit h.pageDocs _

/-- **A search finds the same**, with the same documents but for their attributes. -/
theorem search_eq (hranker : r.ranker = noopRanker) (hzone : request.NoZone) :
    (r.search answers' none request).map (SearchResponse.edit f)
      = (r.search answers none request).map (SearchResponse.edit f) := by
  simp only [Router.search, h.scatterGather_eq hranker hzone]
  cases r.scatterGather answers request with
  | error e => rfl
  | ok response =>
    have hhits := h.buildHits_edit (page request.offset request.limit response.hits)
      request.includeDocs
    show Except.ok _ = Except.ok _
    simp only [SearchResponse.edit, respond, hhits]

end Answers.Agree

/-- A document without its attributes. -/
def noAttributes : AttributeEdit := fun _ => .empty

variable (r) in
/-- What shards answer through these clients to a search, and to the calls after it. -/
def clientAnswers (locations : Fin r.shards → Location) (engines : Fin r.shards → ShardEngine)
    (request : Request) : Answers r.shards :=
  let searched i := ((locations i).search (r.shardRequest request) (engines i)).2
  { search := fun i request => ((locations i).search request (engines i)).1.toOption
    candidateDocs := fun i docIds => some ((locations i).getDocs (searched i) docIds)
    pageDocs := fun i docIds => some ((locations i).getDocs (searched i) docIds) }

end Router

/-! ## 7. Wherever the shards are -/

theorem ShardEngine.getDocs_edit (f : AttributeEdit) (s : ShardEngine) (docIds : List DocId) :
    (s.edit f).getDocs docIds = (s.getDocs docIds).map (Document.edit f) := by
  have hsegments : (s.edit f).segments = s.segments.edit f := rfl
  have hdocs : (s.edit f).writeBuffer.docs = s.writeBuffer.docs.map (Document.edit f) := rfl
  rw [getDocs, getDocs, List.map_filterMap]
  refine List.filterMap_congr (fun id _ => ?_)
  rw [hsegments, hdocs, SegmentList.getDoc_edit]
  cases s.segments.getDoc id with
  | none => exact List.find?_map
  | some doc => rfl

/-- Both clients bring the same documents, but for the attributes. -/
theorem Location.getDocs_edit (location : Location) (s : ShardEngine) (docIds : List DocId) :
    (location.getDocs s docIds).map (Document.edit Router.noAttributes)
      = (s.getDocs docIds).map (Document.edit Router.noAttributes) := by
  cases location with
  | inProcess => rfl
  | remote =>
    rw [Location.getDocs, RemoteShardClient.getDocs_eq, List.map_map]
    rfl

section

variable {x : TextExecutor} {round : ℝ → F32} {request : SearchRequest}

theorem LocalShardClient.search_edit {f : AttributeEdit} {s : ShardEngine}
    (hs : s.searcher.executor = x.columnExecutor round) (h : request.Blind f x.schema) :
    LocalShardClient.search request (s.edit f)
      = ((LocalShardClient.search request s).1, (LocalShardClient.search request s).2.edit f) := by
  rw [LocalShardClient.search, bind_apply, bind_apply, ShardEngine.search_edit hs h]
  cases ShardEngine.search request s with
  | mk result s' =>
    cases result with
    | error e => rfl
    | ok resp =>
      have hhits : (resp.edit f).hits.map (fun hit => (hit.id, hit.score))
          = resp.hits.map (fun hit => (hit.id, hit.score)) := List.map_map
      show (Except.ok _, _) = (Except.ok _, _)
      rw [hhits]
      rfl

variable {searcher : MultiSegmentSearcher} (hsearcher : searcher.executor = x.columnExecutor round)
  (hprice : request.PriceOnly x.schema) (hfits : request.Fits) (writeBufferSize : Nat)
include hsearcher hprice hfits

/-- **A search finds the same through either client**, on shards that have had the same calls. -/
theorem Location.search_run (location : Location) (calls : List ClientCall) :
    (location.search request (location.run writeBufferSize searcher calls)).1
      = (LocalShardClient.search request (inProcess.run writeBufferSize searcher calls)).1 := by
  cases location with
  | inProcess => rfl
  | remote =>
    have hs : (inProcess.run writeBufferSize searcher calls).searcher.executor
        = x.columnExecutor round := by
      rw [run_inProcess, ShardEngine.searcher_runNew, hsearcher]
    rw [run_remote, Location.search, RemoteShardClient.search_eq hfits,
      LocalShardClient.search_edit hs hprice.blind]

/-- And the documents fetched after it are the same, but for the attributes. -/
theorem Location.getDocs_run (location : Location) (calls : List ClientCall)
    (docIds : List DocId) :
    (location.getDocs (location.search request
        (location.run writeBufferSize searcher calls)).2 docIds).map
          (Document.edit Router.noAttributes)
      = (LocalShardClient.getDocs (LocalShardClient.search request
          (inProcess.run writeBufferSize searcher calls)).2 docIds).map
            (Document.edit Router.noAttributes) := by
  rw [Location.getDocs_edit]
  cases location with
  | inProcess => rfl
  | remote =>
    have hs : (inProcess.run writeBufferSize searcher calls).searcher.executor
        = x.columnExecutor round := by
      rw [run_inProcess, ShardEngine.searcher_runNew, hsearcher]
    rw [run_remote, Location.search, RemoteShardClient.search_eq hfits,
      LocalShardClient.search_edit hs hprice.blind, ShardEngine.getDocs_edit, List.map_map]
    rfl

end

namespace Router

variable (r : Router)

end Router

end ZearchEngine
