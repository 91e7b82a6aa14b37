/-
# The shard engine

`ShardEngine` (`crates/shard/src/shard.rs`), without replicas.  The engine's state is the open
log, the write buffer, the segment list, and the directory below them.  Every method is a
sequence of steps, each under one lock or one file operation, that may stop with an error; the
steps are the definitions of section 2 and the methods those of section 3.

The file operations themselves do not fail here.  What can fail is what the source lets fail
on the contents of a directory: opening a segment, and saving a deletion into one.
-/
import ZearchEngine.Lib.LabelledRun
import ZearchEngine.Merge
import ZearchEngine.Search

namespace ZearchEngine

open KeyedStore

/-! ## 1. The engine -/

/-- A shard that is open. -/
structure ShardEngine where
  wal : Log
  writeBuffer : WriteBuffer
  segments : SegmentList
  searcher : MultiSegmentSearcher
  mergePolicy : TieredMergePolicy
  /-- The contents of `segments/`. -/
  dirs : SegmentDirs

/-- What is on disk. -/
def ShardEngine.disk (s : ShardEngine) : Disk where
  wal := s.wal.records
  segments := s.dirs

/-- A computation on the engine that may stop with an error. -/
def ShardM (α : Type) : Type := ShardEngine → Except Error α × ShardEngine

namespace ShardM

variable {α β : Type}

/-- `Ok(a)`. -/
protected def pure (a : α) : ShardM α := fun s => (.ok a, s)

/-- `x?` and then `f`. -/
protected def bind (x : ShardM α) (f : α → ShardM β) : ShardM β := fun s =>
  match x s with
  | (.ok a, s') => f a s'
  | (.error e, s') => (.error e, s')

instance : Monad ShardM where
  pure := ShardM.pure
  bind := ShardM.bind

/-- A step that always succeeds. -/
def step (f : ShardEngine → α × ShardEngine) : ShardM α := fun s => (.ok (f s).1, (f s).2)

theorem bind_apply (x : ShardM α) (f : α → ShardM β) (s : ShardEngine) :
    (x >>= f) s = match x s with
      | (.ok a, s') => f a s'
      | (.error e, s') => (.error e, s') := rfl

/-- A step succeeds, and the computation goes on from the state it leads to. -/
theorem step_bind (f : ShardEngine → α × ShardEngine) (k : α → ShardM β) (s : ShardEngine) :
    (step f >>= k) s = k (f s).1 (f s).2 := rfl

/-- A computation goes on from the state its first step succeeds in. -/
theorem bind_ok {x : ShardM α} {f : α → ShardM β} {s s' : ShardEngine} {a : α}
    (h : x s = (.ok a, s')) : (x >>= f) s = f a s' := by
  rw [bind_apply, h]

end ShardM

namespace ShardEngine

/-! ## 2. Steps -/

/-- `wal.append_batch`. -/
def walAppend (entries : List WalEntry) : ShardM (List UInt64) := .step fun s =>
  ((s.wal.appendBatch entries).1, { s with wal := (s.wal.appendBatch entries).2 })

/-- `wal.truncate`. -/
def walTruncate : ShardM Unit := .step fun s => ((), { s with wal := s.wal.truncate })

/-- The loop of `buf.add`. -/
def bufferAdd (docs : List Document) : ShardM Bool := .step fun s =>
  ((s.writeBuffer.addAll docs).1, { s with writeBuffer := (s.writeBuffer.addAll docs).2 })

/-- `buf.mark_deleted`. -/
def bufferMarkDeleted (docId : DocId) : ShardM Unit := .step fun s =>
  ((), { s with writeBuffer := s.writeBuffer.markDeleted docId })

/-- `buf.drain`. -/
def bufferDrain : ShardM (List Document × Finset DocId) := .step fun s =>
  (s.writeBuffer.drain.1, { s with writeBuffer := s.writeBuffer.drain.2 })

/-- `buf.reader_and_stats`. -/
def bufferReader : ShardM (Option SegmentReader) := fun s =>
  match s.writeBuffer.readerAndStats with
  | .ok (reader, b) => (.ok reader, { s with writeBuffer := b })
  | .error e => (.error e, s)

/-- `segs.mark_deleted`. -/
def segmentsMarkDeleted (docId : DocId) : ShardM Bool := fun s =>
  let (result, segments, dirs) := s.segments.markDeleted s.dirs docId
  (result, { s with segments, dirs })

/-- `segs.next_segment_id`. -/
def nextSegmentId : ShardM SegmentId := .step fun s =>
  (s.segments.nextSegmentId.1, { s with segments := s.segments.nextSegmentId.2 })

/-- `SegmentWriter::write` into `segments/`. -/
def writeSegment (id : SegmentId) (docs : List Document) : ShardM Unit := .step fun s =>
  ((), { s with dirs := (SegmentDirs.writeSegment id docs).foldl SegmentDirs.apply s.dirs })

/-- `SegmentReader::open`. -/
def openSegment (id : SegmentId) : ShardM SegmentReader := fun s =>
  match s.dirs.lookup id >>= SegmentReader.openDir with
  | some reader => (.ok reader, s)
  | none => (.error .io, s)

/-- `segs.add_segment`. -/
def addSegment (entry : SegmentEntry) : ShardM Unit := .step fun s =>
  ((), { s with segments := s.segments.addSegment entry })

/-- `segs.replace_segments`. -/
def replaceSegments (oldIds : List SegmentId) (newEntry : SegmentEntry) : ShardM Unit :=
  .step fun s => ((), { s with segments := s.segments.replaceSegments oldIds newEntry })

/-- `remove_dir_all` of each directory. -/
def removeDirs (ids : List SegmentId) : ShardM Unit := .step fun s =>
  ((), { s with dirs := eraseAll ids s.dirs })

/-- A value computed from the engine without changing it. -/
def read {α : Type} (f : ShardEngine → α) : ShardM α := .step fun s => (f s, s)

/-! ## 3. Methods -/

/-- The open segments with these ids, in the order of the list. -/
def sources (s : ShardEngine) (segmentIds : List SegmentId) : List SegmentEntry :=
  s.segments.segments.filter (fun e => e.segmentId ∈ segmentIds)

/-- `run_merge`. -/
def runMerge (segmentIds : List SegmentId) : ShardM Unit := do
  let newSegId ← nextSegmentId
  let mergedDocs ← read fun s => MergeScheduler.mergedDocs (s.sources segmentIds)
  writeSegment newSegId mergedDocs
  let reader ← openSegment newSegId
  replaceSegments segmentIds { segmentId := newSegId, reader }
  removeDirs segmentIds

/-- The loop of `maybe_merge`. -/
def runMerges : List (List SegmentId) → ShardM Unit
  | [] => pure ()
  | group :: groups => do
    runMerge group
    runMerges groups

/-- `maybe_merge`. -/
def maybeMerge : ShardM Unit := do
  let mergeGroups ← read fun s => s.mergePolicy.findMerges s.segments.segments
  runMerges mergeGroups

/-- `flush`: flush the write buffer to a new on-disk segment. -/
def flush : ShardM Unit := do
  let (docs, _deletedIds) ← bufferDrain
  if docs.isEmpty then pure ()
  else do
    let segId ← nextSegmentId
    writeSegment segId docs
    let reader ← openSegment segId
    addSegment { segmentId := segId, reader }
    walTruncate
    maybeMerge

/-- `index`: append to WAL, add to write buffer, flush if full. -/
def index (doc : Document) : ShardM Unit := do
  let _seq ← walAppend [.index doc]
  let full ← bufferAdd [doc]
  if full then flush else pure ()

/-- `index_batch`: single WAL fsync for the whole batch. -/
def indexBatch (docs : List Document) : ShardM Unit := do
  let _seqs ← walAppend (docs.map .index)
  let needsFlush ← bufferAdd docs
  if needsFlush then flush else pure ()

/-- `delete`: delete a document by global doc_id. -/
def delete (docId : DocId) : ShardM Unit := do
  let _seq ← walAppend [.delete docId]
  bufferMarkDeleted docId
  let _found ← segmentsMarkDeleted docId
  pure ()

/-- `search`: search across write buffer and all segments. -/
def search (request : SearchRequest) : ShardM SearchResponse := do
  let bufReader ← bufferReader
  read fun s => s.searcher.search
    (s.segments.segments.map SegmentEntry.reader ++ bufReader.toList) request

/-- `get_docs`: the segments first, then the first buffered document with the id. -/
def getDocs (s : ShardEngine) (docIds : List DocId) : List Document :=
  docIds.filterMap (fun id =>
    match s.segments.getDoc id with
    | some doc => some doc
    | none => s.writeBuffer.docs.find? (fun d => d.id = id))

/-- `ShardStats`. -/
structure ShardStats where
  docCount : Nat
  segmentCount : Nat
  bufferDocCount : Nat
  bufferSizeBytes : Nat

/-- `stats`: the live documents of the segments and all buffered ones are counted. -/
def stats (s : ShardEngine) : ShardStats where
  docCount := (s.segments.segments.map (fun e => e.reader.allLiveDocs.length)).sum
    + s.writeBuffer.docs.length
  segmentCount := s.segments.segments.length
  bufferDocCount := s.writeBuffer.docs.length
  bufferSizeBytes := s.writeBuffer.currentSizeBytes

/-- `reindex_self`: the number of documents rewritten. -/
def reindexSelf : ShardM Nat := do
  flush
  let docs ← read fun s =>
    s.segments.segments.flatMap (fun e => e.reader.allLiveDocs.filterMap e.reader.getDoc)
  if docs.isEmpty then pure 0
  else do
    let newSegId ← nextSegmentId
    writeSegment newSegId docs
    let reader ← openSegment newSegId
    let oldIds ← read fun s => s.segments.segments.map SegmentEntry.segmentId
    replaceSegments oldIds { segmentId := newSegId, reader }
    removeDirs oldIds
    walTruncate
    pure docs.length

/-- One entry of the WAL replay in `open`. -/
def replay (s : ShardEngine) : WalEntry → ShardEngine
  | .index doc => { s with writeBuffer := (s.writeBuffer.add doc).2 }
  | .delete docId =>
    let (_, segments, dirs) := s.segments.markDeleted s.dirs docId
    { s with writeBuffer := s.writeBuffer.markDeleted docId, segments, dirs }

/-- `open`, before the replay: the segments of the directory and an empty buffer. -/
def beforeReplay (writeBufferSize : Nat) (searcher : MultiSegmentSearcher) (d : Disk) :
    ShardEngine where
  wal := Log.openRecords d.wal
  writeBuffer := WriteBuffer.new writeBufferSize
  segments := SegmentList.openDirs d.segments
  searcher := searcher
  mergePolicy := .default
  dirs := d.segments

/-- `open`: the segments of the directory, and the WAL replayed into the buffer. -/
def openDisk (writeBufferSize : Nat) (searcher : MultiSegmentSearcher) (d : Disk) : ShardEngine :=
  (Log.openRecords d.wal).readAll.foldl replay (beforeReplay writeBufferSize searcher d)

/-! ## 4. Runs -/

/-- An operation on an open shard.  A merge is one `maybe_merge` could be asked for: of
segments that are open. -/
inductive Op where
  | index (doc : Document)
  | indexBatch (docs : List Document)
  | delete (docId : DocId)
  | search (request : SearchRequest)
  | flush
  | runMerge (segmentIds : List SegmentId)
  | reindexSelf
  | reopen

/-- Close and open again. -/
def reopen : ShardM Unit := .step fun s =>
  ((), openDisk s.writeBuffer.capacityBytes s.searcher s.disk)

/-- The operation, without the value it returns. -/
def exec : Op → ShardM Unit
  | .index doc => index doc
  | .indexBatch docs => indexBatch docs
  | .delete docId => delete docId
  | .search request => do
    let _response ← search request
    pure ()
  | .flush => flush
  | .runMerge segmentIds => do
    let openIds ← read fun s => s.segments.segments.map SegmentEntry.segmentId
    if ∀ id ∈ segmentIds, id ∈ openIds then runMerge segmentIds else pure ()
  | .reindexSelf => do
    let _stats ← reindexSelf
    pure ()
  | .reopen => reopen

/-- The engine after an operation. -/
def step (s : ShardEngine) (op : Op) : ShardEngine := (exec op s).2

/-- The engine after a run of operations on a new shard. -/
def runNew (writeBufferSize : Nat) (searcher : MultiSegmentSearcher) (ops : List Op) :
    ShardEngine :=
  LabelledRun.run step (openDisk writeBufferSize searcher Disk.empty) ops

end ShardEngine

end ZearchEngine
