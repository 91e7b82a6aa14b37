/-
# Documents on the wire

`DocumentProto` and `ReplicateRequest` (`proto/shard.proto`), the converters between them and
documents, of which there are several, and the two ways in which a document reaches a shard:
`LocalShardClient` calls the engine, `RemoteShardClient` and the replication send it
(`crates/router/src/client.rs`, `crates/shard/src/grpc_server.rs`, `replication.rs`).

The attributes of a `DocumentProto` are strings, and every converter into it drops the
attributes that are not.  So the wire is transparent exactly for documents whose attributes are
all strings (`sameDocument_iff`).  A map is its entries in iteration order, as in a document;
the converters keep the order, which two maps that are equal need not share.
-/
import ZearchEngine.Shard

namespace ZearchEngine

/-! ## 1. Messages -/

/-- `map<string, string> attributes`. -/
structure AttributesProto where
  entries : List (String × String)
  nodup : (entries.map Prod.fst).Nodup
deriving DecidableEq

structure DocumentProto where
  id : DocId
  title : String
  description : String
  price : F64
  category : String
  attributes : AttributesProto
deriving DecidableEq

/-- `oneof operation`. -/
inductive ReplicateRequest.Operation where
  | indexDoc (doc : DocumentProto)
  | deleteDocId (id : DocId)
  | flush
deriving DecidableEq

structure ReplicateRequest where
  operation : Option ReplicateRequest.Operation
  walSeq : UInt64
deriving DecidableEq

/-- One entry forwarded to a replica. -/
structure ReplicaEntry where
  seq : UInt64
  entry : WalEntry

/-! ## 2. Converters -/

/-- `if let Value::String(s) = v { Some((k, s)) } else { None }`. -/
def stringEntry : String × Value → Option (String × String)
  | (k, .string s) => some (k, s)
  | _ => none

theorem map_fst_stringEntry_sublist : ∀ entries : List (String × Value),
    ((entries.filterMap stringEntry).map Prod.fst).Sublist (entries.map Prod.fst)
  | [] => List.Sublist.slnil
  | (k, v) :: entries => by
    have ih := map_fst_stringEntry_sublist entries
    cases v with
    | string s => exact ih.cons_cons k
    | number n => exact ih.cons k
    | bool b => exact ih.cons k
    | stringArray ss => exact ih.cons k

/-- `attributes.into_iter().filter_map(..).collect()`. -/
def Attributes.toProto (a : Attributes) : AttributesProto where
  entries := a.entries.filterMap stringEntry
  nodup := a.nodup.sublist (map_fst_stringEntry_sublist a.entries)

/-- `attributes.into_iter().map(|(k, v)| (k, Value::String(v))).collect()`. -/
def AttributesProto.toAttributes (a : AttributesProto) : Attributes where
  entries := a.entries.map (fun e => (e.1, .string e.2))
  nodup := by
    rw [List.map_map]
    exact a.nodup

/-- What every converter into a `DocumentProto` does. -/
def Document.toProto (doc : Document) : DocumentProto where
  id := doc.id
  title := doc.title
  description := doc.description
  price := doc.price
  category := doc.category
  attributes := doc.attributes.toProto

/-- What every converter out of a `DocumentProto` does. -/
def DocumentProto.toDocument (proto : DocumentProto) : Document where
  id := proto.id
  title := proto.title
  description := proto.description
  price := proto.price
  category := proto.category
  attributes := proto.attributes.toAttributes

/-- `doc_to_proto` of the router. -/
def RemoteShardClient.docToProto (doc : Document) : DocumentProto := doc.toProto

/-- `proto_to_doc` of the router. -/
def RemoteShardClient.protoToDoc (proto : DocumentProto) : Document := proto.toDocument

/-- `proto_to_doc` of the server. -/
def ShardGrpcServer.protoToDoc (proto : DocumentProto) : Document := proto.toDocument

/-- `doc_to_proto` of the server. -/
def ShardGrpcServer.docToProto (doc : Document) : DocumentProto := doc.toProto

/-- `doc_to_proto` of the replication. -/
def ReplicationManager.docToProto (doc : Document) : DocumentProto := doc.toProto

/-- `entry_to_proto`. -/
def ReplicationManager.entryToProto (entry : ReplicaEntry) : ReplicateRequest where
  operation := match entry.entry with
    | .index doc => some (.indexDoc (docToProto doc))
    | .delete id => some (.deleteDocId id)
  walSeq := entry.seq

/-! ## 3. Clients and server -/

/-- `apply_replicated`: as `index` and `delete`, without the log. -/
def ShardEngine.applyReplicated : WalEntry → ShardM Unit
  | .index doc => do
    let full ← bufferAdd [doc]
    if full then flush else pure ()
  | .delete docId => do
    bufferMarkDeleted docId
    let _found ← segmentsMarkDeleted docId
    pure ()

namespace ShardGrpcServer

/-- `index`, of a request with a document. -/
def index (document : DocumentProto) : ShardM Unit := ShardEngine.index (protoToDoc document)

/-- `get_docs`. -/
def getDocs (s : ShardEngine) (docIds : List DocId) : List DocumentProto :=
  (s.getDocs docIds).map docToProto

/-- `replicate`, on a replica. -/
def replicate (request : ReplicateRequest) : ShardM Unit :=
  match request.operation with
  | some (.indexDoc doc) => ShardEngine.applyReplicated (.index (protoToDoc doc))
  | some (.deleteDocId id) => ShardEngine.applyReplicated (.delete id)
  | some .flush => ShardEngine.flush
  | none => pure ()

end ShardGrpcServer

/-- `LocalShardClient::index`. -/
def LocalShardClient.index (doc : Document) : ShardM Unit := ShardEngine.index doc

/-- `LocalShardClient::get_docs`. -/
def LocalShardClient.getDocs (s : ShardEngine) (docIds : List DocId) : List Document :=
  s.getDocs docIds

/-- `RemoteShardClient::index`, of a request that arrives. -/
def RemoteShardClient.index (doc : Document) : ShardM Unit :=
  ShardGrpcServer.index (docToProto doc)

/-- `RemoteShardClient::get_docs`. -/
def RemoteShardClient.getDocs (s : ShardEngine) (docIds : List DocId) : List Document :=
  (ShardGrpcServer.getDocs s docIds).map protoToDoc

/-! ## 4. What gets through -/

/-- All attributes are strings. -/
def Attributes.AllStrings (a : Attributes) : Prop :=
  ∀ e ∈ a.entries, ∃ s, e.2 = .string s

/-- What the wire makes of a document. -/
def Document.received (doc : Document) : Document := doc.toProto.toDocument

theorem received_attributes (doc : Document) : doc.received.attributes.entries
    = (doc.attributes.entries.filterMap stringEntry).map (fun e => (e.1, .string e.2)) := rfl

/-- **What gets through is what is a string.** -/
theorem mem_received {doc : Document} {key : String} {v : Value} :
    (key, v) ∈ doc.received.attributes.entries ↔
      (key, v) ∈ doc.attributes.entries ∧ ∃ s, v = .string s := by
  rw [received_attributes, List.mem_map]
  constructor
  · rintro ⟨⟨k, s⟩, hmem, heq⟩
    obtain ⟨rfl, rfl⟩ := Prod.mk.inj heq
    obtain ⟨⟨k', v⟩, hentry, hstring⟩ := List.mem_filterMap.mp hmem
    cases v with
    | string s' =>
      obtain ⟨rfl, rfl⟩ := Prod.mk.inj (Option.some.inj hstring)
      exact ⟨hentry, s', rfl⟩
    | number n => cases hstring
    | bool b => cases hstring
    | stringArray ss => cases hstring
  · rintro ⟨hmem, s, rfl⟩
    exact ⟨(key, s), List.mem_filterMap.mpr ⟨(key, .string s), hmem, rfl⟩, rfl⟩

theorem map_stringEntry_of_all : ∀ entries : List (String × Value),
    (∀ e ∈ entries, ∃ s, e.2 = .string s) →
    (entries.filterMap stringEntry).map (fun e => (e.1, Value.string e.2)) = entries
  | [], _ => rfl
  | (k, v) :: entries, h => by
    obtain ⟨s, rfl⟩ : ∃ s, v = .string s := h (k, v) List.mem_cons_self
    have ih := map_stringEntry_of_all entries (fun e he => h e (List.mem_cons_of_mem _ he))
    exact congrArg ((k, Value.string s) :: ·) ih

/-- **The wire is transparent for a document exactly if all its attributes are strings.** -/
theorem received_eq_iff (doc : Document) : doc.received = doc ↔ doc.attributes.AllStrings := by
  constructor
  · intro heq e he
    have hmem : (e.1, e.2) ∈ doc.received.attributes.entries := by rw [heq]; exact he
    exact (mem_received.mp hmem).2
  · intro hall
    have hentries := map_stringEntry_of_all doc.attributes.entries hall
    have hattributes : doc.received.attributes = doc.attributes := by
      rw [← received_attributes] at hentries
      generalize doc.received.attributes = a at hentries
      obtain ⟨entries, nodup⟩ := a
      obtain rfl : entries = doc.attributes.entries := hentries
      rfl
    calc doc.received = { doc with attributes := doc.received.attributes } := rfl
      _ = doc := by rw [hattributes]

/-- Fetching through a remote client sends each document found over the wire. -/
theorem RemoteShardClient.getDocs_eq (s : ShardEngine) (docIds : List DocId) :
    RemoteShardClient.getDocs s docIds
      = (LocalShardClient.getDocs s docIds).map Document.received := by
  rw [RemoteShardClient.getDocs, ShardGrpcServer.getDocs, List.map_map]
  rfl

/-- Local and remote shards store the same document, so do replicas, and a document that is
found comes back as it is stored. -/
structure SameDocument (doc : Document) : Prop where
  index : RemoteShardClient.index doc = LocalShardClient.index doc
  replicate : ∀ seq, ShardGrpcServer.replicate
    (ReplicationManager.entryToProto ⟨seq, .index doc⟩) = ShardEngine.applyReplicated (.index doc)
  getDocs : RemoteShardClient.protoToDoc (ShardGrpcServer.docToProto doc) = doc

/-- **Remote and local shards handle a document alike exactly if all its attributes are
strings.** -/
theorem sameDocument_iff (doc : Document) : SameDocument doc ↔ doc.attributes.AllStrings := by
  constructor
  · intro h
    exact (received_eq_iff doc).mp h.getDocs
  · intro hall
    have hreceived : doc.received = doc := (received_eq_iff doc).mpr hall
    refine ⟨?_, fun seq => ?_, hreceived⟩
    · exact congrArg ShardEngine.index hreceived
    · exact congrArg (fun doc => ShardEngine.applyReplicated (.index doc)) hreceived

/-- A document with its stock in a zone. -/
def stocked : Document :=
  ⟨1, "Lamp", "", ⟨0⟩, "home", ⟨[("stock_zone_a", .number ⟨0x4008000000000000⟩)], by decide⟩⟩

/-- **The stock does not get through**: it is a number. -/
theorem not_sameDocument_stocked : ¬ SameDocument stocked := by
  intro h
  have hattributes := congrArg Document.attributes h.getDocs
  revert hattributes
  decide

end ZearchEngine
