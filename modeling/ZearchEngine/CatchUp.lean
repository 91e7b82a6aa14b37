/-
# A replica catches up

`catch_up_from_primary` (`crates/shard/src/shard.rs`) and the two calls it makes of the
primary, `replicate_catch_up` and `full_sync` (`crates/shard/src/grpc_server.rs`).  A replica
asks for the log from its own next sequence number, applies what it is sent, and asks for a
full sync if the log was empty and no open segment of its own shows a document.

A replica never writes its log, so its next sequence number is 0 and it is always sent the
whole log of the primary, with whatever it has applied of it before, and nothing of what the
primary has flushed.  It takes the log into its buffer, and whenever that is full all of it goes
into a segment, deleted documents included.  So what a replay leaves behind depends on where the
buffer is full for the last time: what is deleted after that stays hidden, and what is deleted
before it comes back (`WriteBuffer.afterEntries_eq`).  From that, `catchUp_converges` tells for
each document whether the replica is left with it as the primary is.
-/
import ZearchEngine.Compaction
import ZearchEngine.Proto

namespace ZearchEngine

open KeyedStore

/-! ## 1. The primary's side -/

/-- `read_since`: the records with `seq >= from_seq`. -/
def Log.readSince (l : Log) (fromSeq : UInt64) : List WalRecord :=
  l.records.filter (fun r => r.seq ≥ fromSeq)

namespace ShardEngine

/-- `wal_records_since`. -/
def walRecordsSince (s : ShardEngine) (fromSeq : UInt64) : List WalRecord :=
  s.wal.readSince fromSeq

/-- `get_all_live_docs`: segments first, then the buffer. -/
def getAllLiveDocs (s : ShardEngine) : List Document :=
  s.segments.segments.flatMap (fun e => e.reader.allLiveDocs.filterMap e.reader.getDoc)
    ++ s.writeBuffer.allDocs

end ShardEngine

namespace ShardGrpcServer

/-- `replicate_catch_up`: what is sent. -/
def replicateCatchUp (primary : ShardEngine) (fromSeq : UInt64) : List ReplicateRequest :=
  (primary.walRecordsSince fromSeq).map (fun record =>
    { operation := some (match record.entry with
        | .index doc => .indexDoc doc.toProto
        | .delete id => .deleteDocId id)
      walSeq := record.seq })

/-- `full_sync`: what is sent. -/
def fullSync (primary : ShardEngine) : List DocumentProto :=
  primary.getAllLiveDocs.map Document.toProto

end ShardGrpcServer

/-! ## 2. The replica's side -/

/-- What a buffer shows of itself and these entries once it has taken them, with what went into
segments on the way: all buffered documents, deleted or not, whenever it was full. -/
def WriteBuffer.afterEntries : WriteBuffer → List WalEntry → List Document
  | b, [] => b.allDocs
  | b, .index doc :: entries =>
    if (b.add doc).1 then (b.add doc).2.docs ++ afterEntries (b.add doc).2.drain.2 entries
    else afterEntries (b.add doc).2 entries
  | b, .delete docId :: entries => afterEntries (b.markDeleted docId) entries

/-- The size a buffer counts for a document. -/
def Document.bufferBytes (doc : Document) : Nat :=
  doc.title.utf8ByteSize + doc.description.utf8ByteSize + doc.category.utf8ByteSize + 64

/-- The ids some entries delete. -/
def deletedBy (log : List WalEntry) : List DocId :=
  log.filterMap fun
    | .index _ => none
    | .delete id => some id

/-- The entries up to the last one that finds a buffer of this capacity and size full, and those
after it; nothing if none does. -/
def splitAtFull (capacity : Nat) : Nat → List WalEntry → Option (List WalEntry × List WalEntry)
  | _, [] => none
  | size, .index doc :: entries =>
    if size + doc.bufferBytes ≥ capacity then
      match splitAtFull capacity 0 entries with
      | some (upTo, rest) => some (.index doc :: upTo, rest)
      | none => some ([.index doc], entries)
    else (splitAtFull capacity (size + doc.bufferBytes) entries).map
      (Prod.map (.index doc :: ·) id)
  | size, .delete docId :: entries =>
    (splitAtFull capacity size entries).map (Prod.map (.delete docId :: ·) id)

namespace WriteBuffer

/-- The buffered documents that are shown after some entries: all of them if the buffer was full
on the way, and else those that neither it nor the entries delete. -/
def kept (b : WriteBuffer) (entries : List WalEntry) : List Document :=
  match splitAtFull b.capacityBytes b.currentSizeBytes entries with
  | none => b.allDocs.filter (fun d => d.id ∉ deletedBy entries)
  | some _ => b.docs

/-- The documents of some entries that are shown after them: those before the buffer was full for
the last time, and of the others those that are not deleted. -/
def taken (b : WriteBuffer) (entries : List WalEntry) : List Document :=
  match splitAtFull b.capacityBytes b.currentSizeBytes entries with
  | none => (indexedDocs entries).filter
      (fun d => d.id ∉ b.deletedIds ∧ d.id ∉ deletedBy entries)
  | some (upTo, rest) =>
    indexedDocs upTo ++ (indexedDocs rest).filter (fun d => d.id ∉ deletedBy rest)

theorem add_fst_iff (b : WriteBuffer) (doc : Document) :
    (b.add doc).1 = true ↔ b.currentSizeBytes + doc.bufferBytes ≥ b.capacityBytes := by
  rw [add, isFull, decide_eq_true_eq]
  rfl

section

variable {b : WriteBuffer} {entries upTo rest : List WalEntry}

theorem kept_of_none (h : splitAtFull b.capacityBytes b.currentSizeBytes entries = none) :
    b.kept entries = b.allDocs.filter (fun d => d.id ∉ deletedBy entries) := by
  rw [kept, h]

theorem kept_of_some
    (h : splitAtFull b.capacityBytes b.currentSizeBytes entries = some (upTo, rest)) :
    b.kept entries = b.docs := by
  rw [kept, h]

theorem taken_of_none (h : splitAtFull b.capacityBytes b.currentSizeBytes entries = none) :
    b.taken entries = (indexedDocs entries).filter
      (fun d => d.id ∉ b.deletedIds ∧ d.id ∉ deletedBy entries) := by
  rw [taken, h]

theorem taken_of_some
    (h : splitAtFull b.capacityBytes b.currentSizeBytes entries = some (upTo, rest)) :
    b.taken entries
      = indexedDocs upTo ++ (indexedDocs rest).filter (fun d => d.id ∉ deletedBy rest) := by
  rw [taken, h]

/-- If the buffer is never full, what is deleted at any time is hidden. -/
theorem kept_append_taken (h : splitAtFull b.capacityBytes b.currentSizeBytes entries = none) :
    b.kept entries ++ b.taken entries = (b.docs ++ indexedDocs entries).filter
      (fun d => d.id ∉ b.deletedIds ∧ d.id ∉ deletedBy entries) := by
  rw [kept_of_none h, taken_of_none h, allDocs, List.filter_filter, List.filter_append]
  refine congrArg (· ++ _) (List.filter_congr (fun d _ => ?_))
  rw [Bool.decide_and, Bool.and_comm]

end

/-- **What is shown after some entries**: what the buffer keeps, and what it takes. -/
theorem afterEntries_eq : ∀ (entries : List WalEntry) (b : WriteBuffer),
    b.afterEntries entries = b.kept entries ++ b.taken entries
  | [], b => by
    rw [kept_of_none rfl, taken_of_none rfl, afterEntries]
    simp [deletedBy, indexedDocs]
  | .index doc :: entries, b => by
    rw [afterEntries]
    by_cases hfull : b.currentSizeBytes + doc.bufferBytes ≥ b.capacityBytes
    · -- the buffer starts anew, with nothing in it and nothing deleted
      rw [if_pos ((add_fst_iff b doc).mpr hfull), afterEntries_eq entries]
      cases hrest : splitAtFull b.capacityBytes 0 entries with
      | none =>
        have hsplit : splitAtFull b.capacityBytes b.currentSizeBytes (.index doc :: entries)
            = some ([.index doc], entries) := by rw [splitAtFull, if_pos hfull, hrest]
        rw [kept_of_none (b := (b.add doc).2.drain.2) hrest,
          taken_of_none (b := (b.add doc).2.drain.2) hrest, kept_of_some hsplit,
          taken_of_some hsplit]
        simp [indexedDocs, allDocs, drain]
      | some split =>
        have hsplit : splitAtFull b.capacityBytes b.currentSizeBytes (.index doc :: entries)
            = some (.index doc :: split.1, split.2) := by rw [splitAtFull, if_pos hfull, hrest]
        rw [kept_of_some (b := (b.add doc).2.drain.2) hrest,
          taken_of_some (b := (b.add doc).2.drain.2) hrest, kept_of_some hsplit,
          taken_of_some hsplit]
        simp [indexedDocs, drain]
    · rw [if_neg ((add_fst_iff b doc).not.mpr hfull), afterEntries_eq entries]
      cases hrest : splitAtFull b.capacityBytes (b.currentSizeBytes + doc.bufferBytes) entries with
      | none =>
        have hsplit : splitAtFull b.capacityBytes b.currentSizeBytes (.index doc :: entries)
            = none := by rw [splitAtFull, if_neg hfull, hrest, Option.map_none]
        rw [kept_append_taken (b := (b.add doc).2) hrest, kept_append_taken hsplit, add_docs,
          add_deletedIds, List.append_assoc]
        rfl
      | some split =>
        have hsplit : splitAtFull b.capacityBytes b.currentSizeBytes (.index doc :: entries)
            = some (.index doc :: split.1, split.2) := by
          rw [splitAtFull, if_neg hfull, hrest]
          rfl
        rw [kept_of_some (b := (b.add doc).2) hrest, taken_of_some (b := (b.add doc).2) hrest,
          kept_of_some hsplit, taken_of_some hsplit]
        simp [indexedDocs]
  | .delete docId :: entries, b => by
    rw [afterEntries, afterEntries_eq entries]
    cases hrest : splitAtFull b.capacityBytes b.currentSizeBytes entries with
    | none =>
      have hsplit : splitAtFull b.capacityBytes b.currentSizeBytes (.delete docId :: entries)
          = none := by rw [splitAtFull, hrest, Option.map_none]
      rw [kept_append_taken (b := b.markDeleted docId) hrest, kept_append_taken hsplit]
      show (b.docs ++ indexedDocs entries).filter
          (fun d => d.id ∉ insert docId b.deletedIds ∧ d.id ∉ deletedBy entries)
        = (b.docs ++ indexedDocs entries).filter
          (fun d => d.id ∉ b.deletedIds ∧ d.id ∉ docId :: deletedBy entries)
      refine List.filter_congr (fun d _ => decide_eq_decide.mpr ?_)
      rw [Finset.mem_insert, List.mem_cons]
      tauto
    | some split =>
      have hsplit : splitAtFull b.capacityBytes b.currentSizeBytes (.delete docId :: entries)
          = some (.delete docId :: split.1, split.2) := by
        rw [splitAtFull, hrest]
        rfl
      rw [kept_of_some (b := b.markDeleted docId) hrest,
        taken_of_some (b := b.markDeleted docId) hrest, kept_of_some hsplit,
        taken_of_some hsplit]
      rfl

end WriteBuffer

/-- What the wire makes of an entry. -/
def WalEntry.received : WalEntry → WalEntry
  | .index doc => .index doc.received
  | .delete id => .delete id

theorem indexedDocs_map_received : ∀ log : List WalEntry,
    indexedDocs (log.map WalEntry.received) = (indexedDocs log).map Document.received
  | [] => rfl
  | .index doc :: log => congrArg (doc.received :: ·) (indexedDocs_map_received log)
  | .delete _ :: log => indexedDocs_map_received log

theorem deletedBy_map_received : ∀ log : List WalEntry,
    deletedBy (log.map WalEntry.received) = deletedBy log
  | [] => rfl
  | .index _ :: log => deletedBy_map_received log
  | .delete id :: log => congrArg (id :: ·) (deletedBy_map_received log)

/-- The wire leaves the sizes as they are. -/
theorem splitAtFull_map_received (capacity : Nat) : ∀ (entries : List WalEntry) (size : Nat),
    splitAtFull capacity size (entries.map WalEntry.received)
      = (splitAtFull capacity size entries).map
          (Prod.map (List.map WalEntry.received) (List.map WalEntry.received))
  | [], _ => rfl
  | .index doc :: entries, size => by
    have hbytes : doc.received.bufferBytes = doc.bufferBytes := rfl
    rw [List.map_cons, WalEntry.received, splitAtFull, splitAtFull, hbytes,
      splitAtFull_map_received capacity entries, splitAtFull_map_received capacity entries]
    split
    · cases splitAtFull capacity 0 entries with
      | none => rfl
      | some split => rfl
    · cases splitAtFull capacity (size + doc.bufferBytes) entries with
      | none => rfl
      | some split => rfl
  | .delete docId :: entries, size => by
    rw [List.map_cons, WalEntry.received, splitAtFull, splitAtFull,
      splitAtFull_map_received capacity entries]
    cases splitAtFull capacity size entries with
    | none => rfl
    | some split => rfl

/-- Nothing is lost in between. -/
theorem splitAtFull_append {capacity : Nat} : ∀ {entries upTo rest : List WalEntry} {size : Nat},
    splitAtFull capacity size entries = some (upTo, rest) → upTo ++ rest = entries
  | .index doc :: entries, upTo, rest, size, h => by
    rw [splitAtFull] at h
    split at h
    · cases hrest : splitAtFull capacity 0 entries with
      | none =>
        rw [hrest] at h
        obtain ⟨rfl, rfl⟩ := Prod.mk.inj (Option.some.inj h)
        rfl
      | some split =>
        rw [hrest] at h
        obtain ⟨rfl, rfl⟩ := Prod.mk.inj (Option.some.inj h)
        exact congrArg (.index doc :: ·) (splitAtFull_append hrest)
    · obtain ⟨split, hrest, heq⟩ := Option.map_eq_some_iff.mp h
      obtain ⟨rfl, rfl⟩ := Prod.mk.inj heq
      exact congrArg (.index doc :: ·) (splitAtFull_append hrest)
  | .delete docId :: entries, upTo, rest, size, h => by
    obtain ⟨split, hrest, heq⟩ := Option.map_eq_some_iff.mp h
    obtain ⟨rfl, rfl⟩ := Prod.mk.inj heq
    exact congrArg (.delete docId :: ·) (splitAtFull_append hrest)

namespace WriteBuffer

theorem kept_map_received (b : WriteBuffer) (entries : List WalEntry) :
    b.kept (entries.map WalEntry.received) = b.kept entries := by
  rw [kept, kept, splitAtFull_map_received, deletedBy_map_received]
  cases splitAtFull b.capacityBytes b.currentSizeBytes entries with
  | none => rfl
  | some split => rfl

theorem taken_map_received (b : WriteBuffer) (entries : List WalEntry) :
    b.taken (entries.map WalEntry.received) = (b.taken entries).map Document.received := by
  rw [taken, taken, splitAtFull_map_received, deletedBy_map_received, indexedDocs_map_received]
  cases splitAtFull b.capacityBytes b.currentSizeBytes entries with
  | none => exact List.filter_map
  | some split =>
    obtain ⟨upTo, rest⟩ := split
    simp only [Option.map_some, Prod.map_apply, indexedDocs_map_received, deletedBy_map_received,
      List.filter_map, List.map_append]
    rfl

theorem taken_sublist (b : WriteBuffer) (entries : List WalEntry) :
    List.Sublist (b.taken entries) (indexedDocs entries) := by
  cases hsplit : splitAtFull b.capacityBytes b.currentSizeBytes entries with
  | none =>
    rw [taken_of_none hsplit]
    exact List.filter_sublist
  | some split =>
    rw [taken_of_some hsplit, ← splitAtFull_append hsplit, indexedDocs_append]
    exact (List.Sublist.refl _).append List.filter_sublist

end WriteBuffer

namespace ShardEngine

/-- The loop of the WAL catch-up: `wal_count`. -/
def applyRequests : List ReplicateRequest → ShardM Nat
  | [] => pure 0
  | request :: requests =>
    match request.operation with
    | some (.indexDoc doc) => do
      applyReplicated (.index doc.toDocument)
      let walCount ← applyRequests requests
      pure (walCount + 1)
    | some (.deleteDocId id) => do
      applyReplicated (.delete id)
      let walCount ← applyRequests requests
      pure (walCount + 1)
    | some .flush => do
      flush
      applyRequests requests
    | none => applyRequests requests

/-- The loop of the full sync. -/
def applyDocuments : List DocumentProto → ShardM Unit
  | [] => pure ()
  | proto :: protos => do
    applyReplicated (.index proto.toDocument)
    applyDocuments protos

/-- `replica_has_data`. -/
def hasData (s : ShardEngine) : Bool :=
  s.segments.segments.any (fun e => !e.reader.allLiveDocs.isEmpty)

/-- `catch_up_from_primary`, while nobody writes to the primary. -/
def catchUpFromPrimary (primary : ShardEngine) : ShardM Unit := do
  let fromSeq ← read fun s => s.wal.nextSeq
  let walCount ← applyRequests (ShardGrpcServer.replicateCatchUp primary fromSeq)
  let replicaHasData ← read hasData
  if walCount = 0 ∧ replicaHasData = false then do
    applyDocuments (ShardGrpcServer.fullSync primary)
    flush
  else pure ()

/-- What a replica is asked to do: apply what its primary sends, and what needs no log. -/
inductive ReplicaCall where
  | replicate (request : ReplicateRequest)
  | unlogged (op : Op) (h : op.entries = [])

/-- The replica after a call. -/
def replicaStep (s : ShardEngine) : ReplicaCall → ShardEngine
  | .replicate request => (ShardGrpcServer.replicate request s).2
  | .unlogged op _ => s.step op

/-- A replica after a run of calls on a new shard. -/
def runReplica (writeBufferSize : Nat) (searcher : MultiSegmentSearcher)
    (calls : List ReplicaCall) : ShardEngine :=
  LabelledRun.run replicaStep (openDisk writeBufferSize searcher Disk.empty) calls

/-! ## 3. Applying what is sent -/

/-- An entry applied: replayed as on opening, with a flush when the buffer is full. -/
def applied (s : ShardEngine) (entry : WalEntry) : ShardEngine :=
  match entry with
  | .index doc =>
    if (s.writeBuffer.add doc).1 then
      LabelledRun.run change (s.replay entry) (s.replay entry).flushChanges
    else s.replay entry
  | .delete _ => s.replay entry

theorem Inv.applied {s : ShardEngine} (h : Inv s) (entry : WalEntry) : Inv (s.applied entry) := by
  cases entry with
  | index doc =>
    rw [ShardEngine.applied]
    split
    · exact (h.replay (.index doc)).run (along_flushChanges _)
    · exact h.replay (.index doc)
  | delete docId => exact h.replay (.delete docId)

theorem Inv.foldl_applied : ∀ (entries : List WalEntry) {s : ShardEngine}, Inv s →
    Inv (entries.foldl ShardEngine.applied s) := by
  intro entries
  induction entries with
  | nil => exact fun h => h
  | cons entry entries ih =>
    intro s h
    exact ih (h.applied entry)

/-- **`apply_replicated` succeeds.** -/
theorem applyReplicated_eq {s : ShardEngine} (h : Inv s) (entry : WalEntry) :
    applyReplicated entry s = (.ok (), s.applied entry) := by
  cases entry with
  | index doc =>
    have hadd : applyReplicated (.index doc) s
        = (if ((s.writeBuffer.add doc).1 || false) = true then flush else pure ())
          (s.replay (.index doc)) := rfl
    rw [hadd, ShardEngine.applied, Bool.or_false]
    split
    · exact flush_eq (h.replay (.index doc))
    · rfl
  | delete docId =>
    obtain ⟨found, hfound⟩ := h.synced.markDeleted_ok docId
    have hmark : segmentsMarkDeleted docId
        { s with writeBuffer := s.writeBuffer.markDeleted docId }
        = (.ok found, s.replay (.delete docId)) := by
      simp only [segmentsMarkDeleted, replay, ← hfound]
    have hdelete : applyReplicated (.delete docId) s = (do
        let _found ← segmentsMarkDeleted docId
        pure () : ShardM Unit)
        { s with writeBuffer := s.writeBuffer.markDeleted docId } := rfl
    rw [hdelete, ShardM.bind_ok hmark]
    rfl

theorem applyRequests_eq : ∀ (records : List WalRecord) {s : ShardEngine}, Inv s →
    applyRequests (records.map (fun record =>
      { operation := some (match record.entry with
          | .index doc => .indexDoc doc.toProto
          | .delete id => .deleteDocId id)
        walSeq := record.seq })) s
      = (.ok records.length,
        (records.map (fun record => record.entry.received)).foldl ShardEngine.applied s)
  | [], _, _ => rfl
  | ⟨seq, .index doc⟩ :: records, s, h => by
    have hfirst := applyReplicated_eq h (.index doc.received)
    have hrest := applyRequests_eq records (h.applied (.index doc.received))
    rw [List.map_cons, applyRequests]
    refine (ShardM.bind_ok hfirst).trans ?_
    rw [ShardM.bind_ok hrest]
    rfl
  | ⟨seq, .delete id⟩ :: records, s, h => by
    have hfirst := applyReplicated_eq h (.delete id)
    have hrest := applyRequests_eq records (h.applied (.delete id))
    rw [List.map_cons, applyRequests]
    refine (ShardM.bind_ok hfirst).trans ?_
    rw [ShardM.bind_ok hrest]
    rfl

theorem applyDocuments_eq : ∀ (docs : List Document) {s : ShardEngine}, Inv s →
    applyDocuments (docs.map Document.toProto) s
      = (.ok (), (docs.map (fun doc => WalEntry.index doc.received)).foldl
          ShardEngine.applied s) := by
  intro docs
  induction docs with
  | nil => exact fun _ => rfl
  | cons doc docs ih =>
    intro s h
    rw [List.map_cons, applyDocuments, ShardM.bind_ok (applyReplicated_eq h _)]
    exact ih (h.applied (.index doc.received))

/-! ## 4. What a replica has after it -/

/-- The replica is sent everything: the log is empty, and it shows no document from a segment. -/
def NeedsFullSync (primary replica : ShardEngine) : Prop :=
  primary.wal.readAll = [] ∧ replica.segments.liveDocuments = []

instance (primary replica : ShardEngine) : Decidable (NeedsFullSync primary replica) :=
  inferInstanceAs (Decidable (_ ∧ _))

/-- The replica once it has taken the log. -/
def tookLog (replica primary : ShardEngine) : ShardEngine :=
  (primary.wal.readAll.map WalEntry.received).foldl ShardEngine.applied replica

/-- The replica once it has taken all documents. -/
def tookDocuments (replica primary : ShardEngine) : ShardEngine :=
  let filled := (primary.getAllLiveDocs.map (fun doc => WalEntry.index doc.received)).foldl
    ShardEngine.applied replica
  LabelledRun.run change filled filled.flushChanges

theorem Inv.hasData_eq_false {s : ShardEngine} (h : Inv s) :
    s.hasData = false ↔ s.segments.liveDocuments = [] := by
  rw [hasData, List.any_eq_false, SegmentList.liveDocuments, List.flatMap_eq_nil_iff]
  refine forall₂_congr (fun e he => ?_)
  obtain ⟨docs, deleted, -, hreader, -, -⟩ := h.synced.onDisk e he
  have hlen := SegmentReader.length_liveDocuments_ofDocs docs deleted
  rw [hreader, ← List.length_eq_zero_iff, hlen]
  simp

/-- **`catch_up_from_primary`**, asked from sequence number 0. -/
theorem catchUpFromPrimary_eq {replica : ShardEngine} (h : Inv replica)
    (hseq : replica.wal.nextSeq = 0) (primary : ShardEngine) :
    catchUpFromPrimary primary replica = (.ok (),
      if NeedsFullSync primary replica then replica.tookDocuments primary
      else replica.tookLog primary) := by
  have hall : primary.walRecordsSince 0 = primary.wal.records := by
    rw [walRecordsSince, Log.readSince, List.filter_eq_self]
    intro record _
    simp
  have hlog := applyRequests_eq primary.wal.records h
  have htook : (primary.wal.records.map (fun record => record.entry.received)).foldl
      ShardEngine.applied replica = replica.tookLog primary := by
    rw [tookLog, Log.readAll, List.map_map]
    rfl
  rw [htook] at hlog
  have hcatch : catchUpFromPrimary primary replica = (do
      let walCount ← applyRequests (ShardGrpcServer.replicateCatchUp primary replica.wal.nextSeq)
      let replicaHasData ← read hasData
      if walCount = 0 ∧ replicaHasData = false then do
        applyDocuments (ShardGrpcServer.fullSync primary)
        flush
      else pure () : ShardM Unit) replica := rfl
  rw [hcatch, hseq, ShardGrpcServer.replicateCatchUp, hall, ShardM.bind_ok hlog, read,
    ShardM.step_bind]
  by_cases hneeds : NeedsFullSync primary replica
  · have hempty : primary.wal.records = [] := List.map_eq_nil_iff.mp hneeds.1
    have hsame : replica.tookLog primary = replica := by
      rw [tookLog, hneeds.1]
      rfl
    have hdata : replica.hasData = false := h.hasData_eq_false.mpr hneeds.2
    rw [hsame, if_pos ⟨List.length_eq_zero_iff.mpr hempty, hdata⟩, if_pos hneeds,
      ShardGrpcServer.fullSync, ShardM.bind_ok (applyDocuments_eq _ h)]
    exact flush_eq (Inv.foldl_applied _ h)
  · rw [if_neg hneeds, if_neg]
    · rfl
    · rintro ⟨hcount, hdata⟩
      have hempty : primary.wal.readAll = [] :=
        List.map_eq_nil_iff.mpr (List.length_eq_zero_iff.mp hcount)
      have hsame : replica.tookLog primary = replica := by
        rw [tookLog, hempty]
        rfl
      rw [hsame] at hdata
      exact hneeds ⟨hempty, h.hasData_eq_false.mp hdata⟩

/-! ## 5. Runs of a replica -/

/-- Nothing was ever logged. -/
def NoLog (s : ShardEngine) : Prop := s.wal = Log.openRecords []

theorem NoLog.change {s : ShardEngine} (h : s.NoLog) {c : Change} (hc : c.entries = []) :
    (s.change c).NoLog := by
  have htruncate : s.wal.truncate = Log.openRecords [] := by
    rw [h]
    rfl
  cases c with
  | accept docs =>
    obtain rfl : docs = [] := List.map_eq_nil_iff.mp hc
    show (s.wal.appendBatch []).2 = _
    rw [h]
    rfl
  | delete docId => cases hc
  | refresh => exact h
  | drop => exact h
  | flush => exact htruncate
  | merge ids => exact h
  | reindex => exact htruncate
  | reopen =>
    have hwal : s.disk.wal = [] := congrArg Log.records h
    show (openDisk s.writeBuffer.capacityBytes s.searcher s.disk).wal = _
    rw [openDisk, hwal]
    exact congrArg Log.openRecords hwal

theorem NoLog.runChanges {s : ShardEngine} (h : s.NoLog) {cs : List Change}
    (hcs : cs.flatMap Change.entries = []) : (LabelledRun.run ShardEngine.change s cs).NoLog :=
  LabelledRun.Along.inv (fun _ _ hs hc => hs.change hc) cs s
    (LabelledRun.along_of_forall (Q := fun c : Change => c.entries = []) cs s
      (List.flatMap_eq_nil_iff.mp hcs)) h

theorem NoLog.applied {s : ShardEngine} (h : s.NoLog) (entry : WalEntry) :
    (s.applied entry).NoLog := by
  have hreplay : (s.replay entry).NoLog := by
    cases entry with
    | index doc => exact h
    | delete docId => exact h
  cases entry with
  | index doc =>
    rw [ShardEngine.applied]
    split
    · exact hreplay.runChanges (entries_flushChanges _)
    · exact hreplay
  | delete docId => exact hreplay

/-- **A replica is in step and has logged nothing.** -/
theorem inv_runReplica (writeBufferSize : Nat) (searcher : MultiSegmentSearcher)
    (calls : List ReplicaCall) :
    Inv (runReplica writeBufferSize searcher calls) ∧
      (runReplica writeBufferSize searcher calls).NoLog := by
  refine LabelledRun.run_inv (I := fun s => Inv s ∧ s.NoLog) ?_ calls _
    ⟨inv_new writeBufferSize searcher, rfl⟩
  rintro s call ⟨hinv, hlog⟩
  have hentry : ∀ entry, Inv (applyReplicated entry s).2 ∧ (applyReplicated entry s).2.NoLog := by
    intro entry
    rw [applyReplicated_eq hinv]
    exact ⟨hinv.applied entry, hlog.applied entry⟩
  cases call with
  | replicate request =>
    obtain ⟨operation, walSeq⟩ := request
    cases operation with
    | none => exact ⟨hinv, hlog⟩
    | some operation =>
      cases operation with
      | indexDoc doc => exact hentry _
      | deleteDocId id => exact hentry _
      | flush =>
        show Inv (flush s).2 ∧ (flush s).2.NoLog
        rw [flush_eq hinv]
        exact ⟨hinv.run (along_flushChanges s), hlog.runChanges (entries_flushChanges s)⟩
  | unlogged op hop =>
    show Inv (s.step op) ∧ (s.step op).NoLog
    rw [step_eq hinv]
    exact ⟨hinv.run (along_changes s op), hlog.runChanges ((entries_changes s op).trans hop)⟩

/-! ## 6. What the replica shows -/

/-- A flush empties the buffer. -/
theorem writeBuffer_run_flushChanges (s : ShardEngine) :
    (LabelledRun.run change s s.flushChanges).writeBuffer = s.writeBuffer.drain.2 := by
  have hmerges : ∀ (groups : List (List SegmentId)) (t : ShardEngine),
      (LabelledRun.run change t (groups.map .merge)).writeBuffer = t.writeBuffer := by
    intro groups
    induction groups with
    | nil => exact fun t => rfl
    | cons group groups ih => exact fun t => ih _
  unfold flushChanges
  split
  · rfl
  · exact hmerges _ _

/-- A flush moves the buffered documents into the segments. -/
theorem coe_liveDocuments_run_flushChanges (s : ShardEngine) :
    (↑(LabelledRun.run change s s.flushChanges).segments.liveDocuments : Multiset Document)
      = s.holds := by
  have hvisible := s.visible_run_flushChanges
  rw [visible, writeBuffer_run_flushChanges] at hvisible
  exact (add_zero _).symm.trans hvisible

theorem holds_run_flushChanges (s : ShardEngine) :
    (LabelledRun.run change s s.flushChanges).holds = s.holds := by
  rw [holds, coe_liveDocuments_run_flushChanges, docs_run_flushChanges]
  exact add_zero _

/-- **What a replica shows after some entries.** -/
theorem visible_foldl_applied : ∀ (entries : List WalEntry) {s : ShardEngine}, Inv s →
    (entries.foldl ShardEngine.applied s).visible
      = ↑s.segments.liveDocuments + ↑(s.writeBuffer.afterEntries entries) := by
  intro entries
  induction entries with
  | nil => exact fun _ => rfl
  | cons entry entries ih =>
    intro s h
    rw [List.foldl_cons, ih (h.applied entry)]
    cases entry with
    | index doc =>
      rw [WriteBuffer.afterEntries, ShardEngine.applied]
      by_cases hfull : (s.writeBuffer.add doc).1 = true
      · rw [if_pos hfull, if_pos hfull, coe_liveDocuments_run_flushChanges,
          writeBuffer_run_flushChanges, ← Multiset.coe_add, ← add_assoc]
        rfl
      · rw [if_neg hfull, if_neg hfull]
        rfl
    | delete docId =>
      have hsegments : (s.replay (.delete docId)).segments.segments = s.segments.segments :=
        h.synced.segments_markDeleted docId
      rw [WriteBuffer.afterEntries, ShardEngine.applied, SegmentList.liveDocuments, hsegments]
      rfl

/-- What a replica holds after some documents. -/
theorem holds_foldl_applied : ∀ (docs : List Document) (s : ShardEngine),
    ((docs.map .index).foldl ShardEngine.applied s).holds = s.holds + ↑docs
  | [], s => (add_zero s.holds).symm
  | doc :: docs, s => by
    have hadded : (s.replay (.index doc)).holds = s.holds + {doc} := by
      show (↑s.segments.liveDocuments + ↑(s.writeBuffer.docs ++ [doc]) : Multiset Document) = _
      rw [← Multiset.coe_add, ← add_assoc]
      rfl
    have hfirst : (s.applied (.index doc)).holds = s.holds + {doc} := by
      rw [ShardEngine.applied]
      split
      · rw [holds_run_flushChanges, ← hadded]
      · exact hadded
    rw [List.map_cons, List.foldl_cons, holds_foldl_applied docs, hfirst, add_assoc]
    rfl

/-- What the replica still shows of its own once it has taken the log. -/
def keeps (replica primary : ShardEngine) : List Document :=
  replica.segments.liveDocuments ++ replica.writeBuffer.kept primary.wal.readAll

theorem visible_tookLog {replica : ShardEngine} (h : Inv replica) (primary : ShardEngine) :
    (replica.tookLog primary).visible
      = ↑(replica.keeps primary)
        + ↑((replica.writeBuffer.taken primary.wal.readAll).map Document.received) := by
  have htook : (replica.tookLog primary).visible = _ := visible_foldl_applied _ h
  rw [htook, WriteBuffer.afterEntries_eq, WriteBuffer.kept_map_received,
    WriteBuffer.taken_map_received, keeps, ← Multiset.coe_add, ← Multiset.coe_add, add_assoc]

theorem coe_getAllLiveDocs (s : ShardEngine) :
    (↑s.getAllLiveDocs : Multiset Document) = s.visible := by
  rw [getAllLiveDocs, visible, ← Multiset.coe_add]
  simp only [SegmentReader.filterMap_allLiveDocs, SegmentList.liveDocuments]

theorem visible_tookDocuments (replica primary : ShardEngine) :
    (replica.tookDocuments primary).visible
      = replica.holds + primary.visible.map Document.received := by
  have hentries : primary.getAllLiveDocs.map (fun doc => WalEntry.index doc.received)
      = (primary.getAllLiveDocs.map Document.received).map .index := by
    rw [List.map_map]
    rfl
  rw [tookDocuments, hentries]
  show (LabelledRun.run change _ (flushChanges _)).visible = _
  rw [visible_run_flushChanges]
  show holds _ = _
  rw [holds_foldl_applied, ← Multiset.map_coe, coe_getAllLiveDocs]

/-! ## 7. Catching up -/

/-- The replica shows what the primary shows, each document once. -/
structure SameLive (primary replica : ShardEngine) : Prop where
  once : replica.getAllLiveDocs.Nodup
  same : ∀ doc, doc ∈ replica.getAllLiveDocs ↔ doc ∈ primary.getAllLiveDocs

/-- So it is when the catch-up has returned `Ok`. -/
def CatchesUp (primary replica : ShardEngine) : Prop :=
  ∀ after, catchUpFromPrimary primary replica = (.ok (), after) → SameLive primary after

/-- The log makes the replica show what the primary shows. -/
structure LogSuffices (primary replica : ShardEngine) : Prop where
  /-- Of the documents that are not in the log it keeps those that the primary's segments
  show. -/
  flushed : (↑((replica.keeps primary).filter
      (fun d => d.id ∉ (indexedDocs primary.wal.readAll).map Document.id)) : Multiset Document)
    = ↑primary.segments.liveDocuments
  /-- A document of the log that the primary hides it neither keeps nor takes. -/
  hidden : ∀ doc ∈ indexedDocs primary.wal.readAll, doc.id ∈ primary.writeBuffer.deletedIds →
    doc ∉ replica.writeBuffer.taken primary.wal.readAll ∧
    (replica.keeps primary).filter (fun d => d.id = doc.id) = []
  /-- One that the primary shows it takes whole and had not, or has and does not take. -/
  buffered : ∀ doc ∈ indexedDocs primary.wal.readAll,
    doc.id ∉ primary.writeBuffer.deletedIds →
    if doc ∈ replica.writeBuffer.taken primary.wal.readAll then
      doc.attributes.AllStrings ∧ (replica.keeps primary).filter (fun d => d.id = doc.id) = []
    else (replica.keeps primary).filter (fun d => d.id = doc.id) = [doc]

/-- All a shard holds was indexed, and no more often. -/
theorem Bounded.holds_le {s : ShardEngine} {log : List WalEntry} (h : Bounded s log)
    (hinv : Inv s) : s.holds ≤ ↑(indexedDocs log) := by
  have hopen : ∀ id ∈ s.openIds, id ∈ s.openIds := fun _ hid => hid
  have hcollected := hinv.collected_le hopen
  rw [s.sources_openIds] at hcollected
  have hsegments : (↑s.segments.liveDocuments : Multiset Document) ≤ SegmentDirs.stored s.dirs := by
    rw [stored_eraseAll_add s.dirs s.openIds]
    exact hcollected.trans (Multiset.le_add_right _ _)
  exact (add_le_add_left hsegments _).trans h.stored

theorem Bounded.nodup_holds {s : ShardEngine} {log : List WalEntry} (h : Bounded s log)
    (hinv : Inv s) (hids : ((indexedDocs log).map Document.id).Nodup) :
    (s.holds.map Document.id).Nodup :=
  Multiset.nodup_of_le (Multiset.map_le_map (h.holds_le hinv)) (Multiset.coe_nodup.mpr hids)

/-- **The catch-up, as an equation between what the two show.** -/
theorem catchesUp_iff {primary replica : ShardEngine} (h : Inv replica)
    (hlog : replica.NoLog) (hnodup : primary.visible.Nodup) :
    CatchesUp primary replica ↔
      (if NeedsFullSync primary replica then replica.tookDocuments primary
        else replica.tookLog primary).visible = primary.visible := by
  have hseq : replica.wal.nextSeq = 0 := by
    rw [hlog]
    rfl
  have hrun := catchUpFromPrimary_eq h hseq primary
  have hsame : ∀ after : ShardEngine,
      SameLive primary after ↔ after.visible = primary.visible := by
    intro after
    constructor
    · rintro ⟨honce, hmem⟩
      rw [← Multiset.coe_nodup, coe_getAllLiveDocs] at honce
      refine (Multiset.Nodup.ext honce hnodup).mpr (fun doc => ?_)
      rw [← coe_getAllLiveDocs, ← coe_getAllLiveDocs]
      exact hmem doc
    · intro heq
      refine ⟨?_, fun doc => ?_⟩
      · rw [← Multiset.coe_nodup, coe_getAllLiveDocs, heq]
        exact hnodup
      · rw [← Multiset.mem_coe, ← Multiset.mem_coe, coe_getAllLiveDocs, coe_getAllLiveDocs, heq]
  constructor
  · intro hcatch
    exact (hsame _).mp (hcatch _ hrun)
  · rintro heq after hafter
    rw [hrun] at hafter
    obtain rfl := (Prod.mk.inj hafter).2
    exact (hsame _).mpr heq

/-- Documents with distinct ids come over the wire as they are exactly if each one does. -/
theorem map_received_eq_iff {docs : Multiset Document} (hids : (docs.map Document.id).Nodup) :
    docs.map Document.received = docs ↔ ∀ doc ∈ docs, doc.attributes.AllStrings := by
  constructor
  · intro heq doc hdoc
    have hmem : doc.received ∈ docs := by
      rw [← heq]
      exact Multiset.mem_map_of_mem _ hdoc
    exact (received_eq_iff doc).mp (Multiset.inj_on_of_nodup_map hids _ hmem _ hdoc rfl)
  · intro hall
    calc docs.map Document.received = docs.map id :=
          Multiset.map_congr rfl (fun doc hdoc => (received_eq_iff doc).mpr (hall doc hdoc))
      _ = docs := Multiset.map_id docs

/-- Documents are the same if for each id they are. -/
theorem eq_iff_filter_id {docs docs' : Multiset Document} :
    docs = docs' ↔ ∀ i, docs.filter (fun d => d.id = i) = docs'.filter (fun d => d.id = i) := by
  have hcount : ∀ (d : Document) (docs : Multiset Document),
      (docs.filter (fun d' => d'.id = d.id)).count d = docs.count d :=
    fun d docs => Multiset.count_filter_of_pos (p := fun d' : Document => d'.id = d.id) rfl
  constructor
  · rintro rfl i
    rfl
  · intro h
    refine Multiset.ext.mpr (fun d => ?_)
    rw [← hcount d docs, ← hcount d docs', h d.id]

theorem filter_id_of_notMem {docs : Multiset Document} {i : DocId}
    (h : i ∉ docs.map Document.id) : docs.filter (fun d => d.id = i) = 0 := by
  refine Multiset.filter_eq_nil.mpr (fun d hd hid => h ?_)
  exact hid ▸ Multiset.mem_map_of_mem _ hd

theorem filter_id_of_mem {docs : Multiset Document} (hids : (docs.map Document.id).Nodup)
    {doc : Document} (hdoc : doc ∈ docs) : docs.filter (fun d => d.id = doc.id) = {doc} := by
  obtain ⟨others, rfl⟩ := Multiset.exists_cons_of_mem hdoc
  rw [Multiset.map_cons, Multiset.nodup_cons] at hids
  have hfirst := Multiset.filter_cons_of_pos (p := fun d => d.id = doc.id) others rfl
  rw [hfirst, filter_id_of_notMem hids.1]
  rfl

/-- What a shard shows under the id of a buffered document. -/
theorem filter_id_visible {s : ShardEngine} (hids : (s.holds.map Document.id).Nodup)
    {doc : Document} (hdoc : doc ∈ s.writeBuffer.docs) :
    s.visible.filter (fun d => d.id = doc.id)
      = if doc.id ∈ s.writeBuffer.deletedIds then 0 else {doc} := by
  rw [holds, Multiset.map_add, Multiset.nodup_add] at hids
  have hsegments : doc.id ∉ (↑s.segments.liveDocuments : Multiset Document).map Document.id :=
    fun hmem => Multiset.disjoint_left.mp hids.2.2 hmem (Multiset.mem_map_of_mem _ hdoc)
  have hshown : (↑s.writeBuffer.allDocs : Multiset Document) ≤ ↑s.writeBuffer.docs :=
    Multiset.coe_le.mpr List.filter_sublist.subperm
  rw [visible, Multiset.filter_add, filter_id_of_notMem hsegments, zero_add]
  by_cases hdeleted : doc.id ∈ s.writeBuffer.deletedIds
  · rw [if_pos hdeleted]
    refine Multiset.filter_eq_nil.mpr (fun d hd hid => ?_)
    exact of_decide_eq_true (List.mem_filter.mp hd).2 (hid ▸ hdeleted)
  · rw [if_neg hdeleted]
    exact filter_id_of_mem (Multiset.nodup_of_le (Multiset.map_le_map hshown) hids.2.1)
      (List.mem_filter.mpr ⟨hdoc, decide_eq_true hdeleted⟩)

/-- Under any other id it shows what its segments show. -/
theorem filter_id_visible_of_notMem {s : ShardEngine} {i : DocId}
    (hi : i ∉ s.writeBuffer.docs.map Document.id) :
    s.visible.filter (fun d => d.id = i)
      = (↑s.segments.liveDocuments : Multiset Document).filter (fun d => d.id = i) := by
  have hbuffered : i ∉ (↑s.writeBuffer.allDocs : Multiset Document).map Document.id := by
    intro hmem
    obtain ⟨d, hd, rfl⟩ := Multiset.mem_map.mp hmem
    exact hi (List.mem_map_of_mem (List.mem_of_mem_filter hd))
  rw [visible, Multiset.filter_add, filter_id_of_notMem hbuffered, add_zero]

/-- What a buffer takes of some entries under the id of one of their documents. -/
theorem filter_id_taken {b : WriteBuffer} {entries : List WalEntry}
    (hids : ((indexedDocs entries).map Document.id).Nodup) {doc : Document}
    (hdoc : doc ∈ indexedDocs entries) :
    (↑((b.taken entries).map Document.received) : Multiset Document).filter
        (fun d => d.id = doc.id)
      = if doc ∈ b.taken entries then {doc.received} else 0 := by
  have hsame : ∀ docs : Multiset Document,
      (docs.map Document.received).filter (fun d => d.id = doc.id)
        = (docs.filter (fun d => d.id = doc.id)).map Document.received :=
    fun docs => Multiset.filter_map _ _ docs
  rw [← Multiset.map_coe, hsame]
  by_cases htaken : doc ∈ b.taken entries
  · have hnodup : ((↑(b.taken entries) : Multiset Document).map Document.id).Nodup :=
      Multiset.coe_nodup.mpr (hids.sublist ((b.taken_sublist entries).map Document.id))
    rw [if_pos htaken, filter_id_of_mem hnodup htaken]
    rfl
  · rw [if_neg htaken, filter_id_of_notMem (fun hmem => htaken ?_)]
    · rfl
    · obtain ⟨d, hd, hid⟩ := Multiset.mem_map.mp hmem
      have hd' : d ∈ indexedDocs entries := (b.taken_sublist entries).subset hd
      rwa [← List.inj_on_of_nodup_map hids hd' hdoc hid]

theorem filter_id_taken_of_notMem {b : WriteBuffer} {entries : List WalEntry} {i : DocId}
    (hi : i ∉ (indexedDocs entries).map Document.id) :
    (↑((b.taken entries).map Document.received) : Multiset Document).filter
      (fun d => d.id = i) = 0 := by
  refine filter_id_of_notMem (fun hmem => hi ?_)
  obtain ⟨d, hd, rfl⟩ := Multiset.mem_map.mp hmem
  obtain ⟨d', hd', rfl⟩ := List.mem_map.mp hd
  have hmem' : d'.id ∈ (indexedDocs entries).map Document.id :=
    List.mem_map_of_mem ((b.taken_sublist entries).subset hd')
  exact hmem'

section

variable {primary replica : ShardEngine}

/-- What the replica shows once it has taken the log. -/
theorem filter_id_tookLog (h : Inv replica) (i : DocId) :
    (replica.tookLog primary).visible.filter (fun d => d.id = i)
      = (↑(replica.keeps primary) : Multiset Document).filter (fun d => d.id = i)
        + (↑((replica.writeBuffer.taken primary.wal.readAll).map Document.received)
          : Multiset Document).filter (fun d => d.id = i) := by
  rw [visible_tookLog h, Multiset.filter_add]

/-- Under the id of a document of the log the two show the same exactly if neither shows a
document, or both show this one. -/
theorem filter_id_tookLog_iff (h : Inv replica)
    (hwal : indexedDocs primary.wal.readAll = primary.writeBuffer.docs)
    (hids : (primary.holds.map Document.id).Nodup) {doc : Document}
    (hdoc : doc ∈ indexedDocs primary.wal.readAll) :
    (replica.tookLog primary).visible.filter (fun d => d.id = doc.id)
        = primary.visible.filter (fun d => d.id = doc.id) ↔
      (doc.id ∈ primary.writeBuffer.deletedIds →
        doc ∉ replica.writeBuffer.taken primary.wal.readAll ∧
        (replica.keeps primary).filter (fun d => d.id = doc.id) = []) ∧
      (doc.id ∉ primary.writeBuffer.deletedIds →
        if doc ∈ replica.writeBuffer.taken primary.wal.readAll then
          doc.attributes.AllStrings ∧
          (replica.keeps primary).filter (fun d => d.id = doc.id) = []
        else (replica.keeps primary).filter (fun d => d.id = doc.id) = [doc]) := by
  have hlogged : ((indexedDocs primary.wal.readAll).map Document.id).Nodup := by
    rw [holds, Multiset.map_add, Multiset.nodup_add] at hids
    rw [hwal]
    exact hids.2.1
  rw [filter_id_tookLog h, filter_id_taken hlogged hdoc, filter_id_visible hids (hwal ▸ hdoc),
    Multiset.filter_coe]
  generalize (replica.keeps primary).filter (fun d => d.id = doc.id) = kept
  by_cases hdeleted : doc.id ∈ primary.writeBuffer.deletedIds
  · by_cases htaken : doc ∈ replica.writeBuffer.taken primary.wal.readAll
    · simp [hdeleted, htaken]
    · simp [hdeleted, htaken]
  · by_cases htaken : doc ∈ replica.writeBuffer.taken primary.wal.readAll
    · have hsingle : (↑kept + {doc.received} : Multiset Document) = {doc}
          ↔ doc.attributes.AllStrings ∧ kept = [] := by
        rw [← received_eq_iff]
        constructor
        · intro heq
          have hcard := congrArg Multiset.card heq
          rw [Multiset.card_add, Multiset.card_singleton, Multiset.card_singleton] at hcard
          have hkept := Multiset.card_eq_zero.mp (Nat.add_eq_right.mp hcard)
          rw [hkept, zero_add, Multiset.singleton_inj] at heq
          exact ⟨heq, (Multiset.coe_eq_zero _).mp hkept⟩
        · rintro ⟨hreceived, rfl⟩
          rw [hreceived]
          exact zero_add _
      simp [hdeleted, htaken, hsingle]
    · simp [hdeleted, htaken, Multiset.coe_eq_singleton]

/-- Under any other id they do exactly if the replica keeps what the segments show. -/
theorem filter_id_tookLog_iff_of_notMem (h : Inv replica)
    (hwal : indexedDocs primary.wal.readAll = primary.writeBuffer.docs) {i : DocId}
    (hi : i ∉ (indexedDocs primary.wal.readAll).map Document.id) :
    (replica.tookLog primary).visible.filter (fun d => d.id = i)
        = primary.visible.filter (fun d => d.id = i) ↔
      (↑((replica.keeps primary).filter
          (fun d => d.id ∉ (indexedDocs primary.wal.readAll).map Document.id))
          : Multiset Document).filter (fun d => d.id = i)
        = (↑primary.segments.liveDocuments : Multiset Document).filter (fun d => d.id = i) := by
  have hothers : (↑((replica.keeps primary).filter
        (fun d => d.id ∉ (indexedDocs primary.wal.readAll).map Document.id))
        : Multiset Document).filter (fun d => d.id = i)
      = (↑(replica.keeps primary) : Multiset Document).filter (fun d => d.id = i) := by
    rw [← Multiset.filter_coe, Multiset.filter_filter]
    exact Multiset.filter_congr (fun d _ => and_iff_left_of_imp (fun hid => hid ▸ hi))
  rw [filter_id_tookLog h, filter_id_taken_of_notMem hi, add_zero,
    filter_id_visible_of_notMem (hwal ▸ hi), hothers]

/-- **The replica is left with what the primary shows exactly if the log suffices**: id by id. -/
theorem visible_tookLog_eq_iff (h : Inv replica)
    (hwal : indexedDocs primary.wal.readAll = primary.writeBuffer.docs)
    (hids : (primary.holds.map Document.id).Nodup) :
    (replica.tookLog primary).visible = primary.visible ↔ LogSuffices primary replica := by
  have hparts := hids
  rw [holds, Multiset.map_add, Multiset.nodup_add] at hparts
  constructor
  · intro heq
    have hfilter := eq_iff_filter_id.mp heq
    have hlogged := fun (doc : Document) hdoc =>
      (filter_id_tookLog_iff h hwal hids hdoc).mp (hfilter doc.id)
    refine ⟨eq_iff_filter_id.mpr (fun i => ?_), fun doc hdoc => (hlogged doc hdoc).1,
      fun doc hdoc => (hlogged doc hdoc).2⟩
    by_cases hi : i ∈ (indexedDocs primary.wal.readAll).map Document.id
    · -- the ids of the log are in no segment
      rw [filter_id_of_notMem, filter_id_of_notMem]
      · rw [hwal] at hi
        exact fun hmem => Multiset.disjoint_left.mp hparts.2.2 hmem hi
      · intro hmem
        obtain ⟨d, hd, rfl⟩ := Multiset.mem_map.mp hmem
        exact of_decide_eq_true (List.mem_filter.mp hd).2 hi
    · exact (filter_id_tookLog_iff_of_notMem h hwal hi).mp (hfilter i)
  · intro hsuffices
    refine eq_iff_filter_id.mpr (fun i => ?_)
    by_cases hi : i ∈ (indexedDocs primary.wal.readAll).map Document.id
    · obtain ⟨doc, hdoc, rfl⟩ := List.mem_map.mp hi
      exact (filter_id_tookLog_iff h hwal hids hdoc).mpr
        ⟨hsuffices.hidden doc hdoc, hsuffices.buffered doc hdoc⟩
    · exact (filter_id_tookLog_iff_of_notMem h hwal hi).mpr
        (eq_iff_filter_id.mp hsuffices.flushed i)

end

/-- A replica that has what the primary has flushed, and takes the rest from the log. -/
theorem logSuffices_flushed :
    LogSuffices (runNew 1000 .unscored [.index (titled 1 "a"), .flush, .index (titled 2 "b")])
      (runReplica 1000 .unscored [.replicate ⟨some (.indexDoc (titled 1 "a").toProto), 0⟩,
        .unlogged .flush rfl]) := by
  refine ⟨by decide, by decide, fun doc hdoc hdeleted => ?_⟩
  obtain rfl := List.mem_singleton.mp hdoc
  exact ⟨fun e he => absurd he List.not_mem_nil, by decide⟩

end ShardEngine

end ZearchEngine
