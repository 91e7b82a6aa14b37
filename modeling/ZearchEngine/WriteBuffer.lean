/-
# The write buffer

`WriteBuffer` (`crates/shard/src/write_buffer.rs`): the documents not yet in a segment and the
ids deleted since the last flush.  Queries read it through a temporary segment that holds the
documents not deleted; it is rebuilt when the buffer has changed since it was built.

The buffer is read in two ways that must be kept apart: `reader_and_stats` filters by the
deleted ids, `drain` hands out both collections as they are.
-/
import ZearchEngine.Segment

namespace ZearchEngine

/-- `search_core::Error`, where no file operation fails but opening a directory that is not a
segment. -/
inductive Error where
  | io
deriving DecidableEq

/-- The buffer.  The temporary directory is private to it and is not modelled. -/
structure WriteBuffer where
  docs : List Document
  deletedIds : Finset DocId
  capacityBytes : Nat
  currentSizeBytes : Nat
  segmentReader : Option SegmentReader
  dirty : Bool
deriving DecidableEq

namespace WriteBuffer

/-- `WriteBuffer::new`. -/
def new (capacityBytes : Nat) : WriteBuffer where
  docs := []
  deletedIds := ∅
  capacityBytes := capacityBytes
  currentSizeBytes := 0
  segmentReader := none
  dirty := false

/-- `is_full`. -/
def isFull (b : WriteBuffer) : Bool := b.currentSizeBytes ≥ b.capacityBytes

/-- `add`: returns true if the buffer is now at or above capacity. -/
def add (b : WriteBuffer) (doc : Document) : Bool × WriteBuffer :=
  let b' := { b with
    currentSizeBytes := b.currentSizeBytes + (doc.title.utf8ByteSize
      + doc.description.utf8ByteSize + doc.category.utf8ByteSize + 64)
    docs := b.docs ++ [doc]
    dirty := true }
  (b'.isFull, b')

/-- The loop of `index_batch`: true if some `add` found the buffer full. -/
def addAll (b : WriteBuffer) : List Document → Bool × WriteBuffer
  | [] => (false, b)
  | doc :: docs =>
    let (full, b') := b.add doc
    let (needsFlush, b'') := addAll b' docs
    (full || needsFlush, b'')

/-- `mark_deleted`. -/
def markDeleted (b : WriteBuffer) (docId : DocId) : WriteBuffer :=
  { b with deletedIds := insert docId b.deletedIds, dirty := true }

/-- `all_docs`: the documents in the buffer that are not deleted. -/
def allDocs (b : WriteBuffer) : List Document := b.docs.filter (fun d => d.id ∉ b.deletedIds)

/-- `rebuild_segment`: write the live documents to a temporary segment and open it. -/
def rebuildSegment (b : WriteBuffer) : Except Error WriteBuffer :=
  let liveDocs := b.docs.filter (fun d => d.id ∉ b.deletedIds)
  if liveDocs.isEmpty then .ok { b with segmentReader := none }
  else
    match SegmentReader.openDir ((SegmentWriter.write liveDocs).foldl SegmentDir.write {}) with
    | none => .error .io
    | some reader => .ok { b with segmentReader := some reader }

/-- `reader_and_stats`: the reader of the temporary segment, rebuilt if need be.  The
statistics are a function of the reader. -/
def readerAndStats (b : WriteBuffer) : Except Error (Option SegmentReader × WriteBuffer) :=
  if b.docs.isEmpty then .ok (none, b)
  else if b.dirty then
    match b.rebuildSegment with
    | .error e => .error e
    | .ok b' => .ok (b'.segmentReader, { b' with dirty := false })
  else .ok (b.segmentReader, b)

/-- `drain`: all documents and all deleted ids; the buffer is empty afterwards. -/
def drain (b : WriteBuffer) : (List Document × Finset DocId) × WriteBuffer :=
  ((b.docs, b.deletedIds),
    { b with
      segmentReader := none
      dirty := false
      currentSizeBytes := 0
      docs := []
      deletedIds := ∅ })

/-! ## What the operations do -/

@[simp] theorem add_docs (b : WriteBuffer) (doc : Document) :
    (b.add doc).2.docs = b.docs ++ [doc] := rfl

@[simp] theorem add_deletedIds (b : WriteBuffer) (doc : Document) :
    (b.add doc).2.deletedIds = b.deletedIds := rfl

theorem addAll_cons (b : WriteBuffer) (doc : Document) (docs : List Document) :
    (b.addAll (doc :: docs)).2 = ((b.add doc).2.addAll docs).2 := rfl

@[simp] theorem addAll_docs : ∀ (docs : List Document) (b : WriteBuffer),
    (b.addAll docs).2.docs = b.docs ++ docs
  | [], b => (List.append_nil b.docs).symm
  | doc :: docs, b => by rw [addAll_cons, addAll_docs docs, add_docs, List.append_assoc]; rfl

@[simp] theorem addAll_deletedIds : ∀ (docs : List Document) (b : WriteBuffer),
    (b.addAll docs).2.deletedIds = b.deletedIds
  | [], _ => rfl
  | doc :: docs, b => by rw [addAll_cons, addAll_deletedIds docs, add_deletedIds]

theorem addAll_dirty : ∀ (docs : List Document) (b : WriteBuffer),
    (b.dirty = true ∨ docs ≠ []) → (b.addAll docs).2.dirty = true
  | [], _, h => h.elim id (fun hne => absurd rfl hne)
  | doc :: docs, b, _ => by rw [addAll_cons]; exact addAll_dirty docs _ (Or.inl rfl)

/-- The reader of the live documents, if there are any. -/
def liveReader (b : WriteBuffer) : Option SegmentReader :=
  if b.allDocs.isEmpty then none else some (SegmentReader.ofDocs b.allDocs ∅)

theorem rebuildSegment_eq (b : WriteBuffer) :
    b.rebuildSegment = .ok { b with segmentReader := b.liveReader } := by
  have hdef : b.rebuildSegment = if b.allDocs.isEmpty then .ok { b with segmentReader := none }
      else match SegmentReader.openDir
          ((SegmentWriter.write b.allDocs).foldl SegmentDir.write {}) with
        | none => .error .io
        | some reader => .ok { b with segmentReader := some reader } := rfl
  rw [hdef, liveReader, foldl_write, openDir_written]
  by_cases hempty : b.allDocs.isEmpty = true
  · rw [if_pos hempty, if_pos hempty]
  · rw [if_neg hempty, if_neg hempty]
    rfl

/-- The cached reader is the one a rebuild would make, whenever it would be used. -/
def Coherent (b : WriteBuffer) : Prop :=
  b.docs ≠ [] → b.dirty = false → b.segmentReader = b.liveReader

theorem coherent_new (capacityBytes : Nat) : (new capacityBytes).Coherent :=
  fun h => absurd rfl h

theorem coherent_of_dirty {b : WriteBuffer} (h : b.dirty = true) : b.Coherent := by
  intro _ hclean
  rw [h] at hclean
  cases hclean

theorem coherent_addAll {b : WriteBuffer} (h : b.Coherent) (docs : List Document) :
    (b.addAll docs).2.Coherent := by
  cases docs with
  | nil => exact h
  | cons doc docs => exact coherent_of_dirty (addAll_dirty _ b (Or.inr (by simp)))

/-- The buffer with its cache up to date. -/
def refreshed (b : WriteBuffer) : WriteBuffer :=
  if b.docs.isEmpty then b else { b with segmentReader := b.liveReader, dirty := false }

@[simp] theorem refreshed_docs (b : WriteBuffer) : b.refreshed.docs = b.docs := by
  unfold refreshed
  split <;> rfl

@[simp] theorem refreshed_deletedIds (b : WriteBuffer) :
    b.refreshed.deletedIds = b.deletedIds := by
  unfold refreshed
  split <;> rfl

theorem coherent_refreshed {b : WriteBuffer} (h : b.Coherent) : b.refreshed.Coherent := by
  unfold refreshed
  split
  · exact h
  · exact fun _ _ => rfl

/-- **Reading a coherent buffer** gives the reader of its live documents, and changes only the
cache. -/
theorem readerAndStats_eq {b : WriteBuffer} (h : b.Coherent) :
    b.readerAndStats = .ok (b.liveReader, b.refreshed) := by
  unfold readerAndStats refreshed
  by_cases hdocs : b.docs = []
  · simp [hdocs, liveReader, allDocs]
  · have hempty : b.docs.isEmpty = false := by simpa using hdocs
    by_cases hdirty : b.dirty = true
    · simp [hempty, hdirty, rebuildSegment_eq]
    · have hclean : b.dirty = false := by simpa using hdirty
      have hself : { b with segmentReader := b.segmentReader, dirty := false } = b := by
        rw [← hclean]
      rw [hempty, ← h hdocs hclean, hclean]
      simp only [Bool.false_eq_true, if_false, hself]

end WriteBuffer

end ZearchEngine
