/-
# The cached segment of the write buffer

`reader_and_stats` (`crates/shard/src/write_buffer.rs`) keeps a temporary segment of the live
documents of the buffer, with its statistics, and rebuilds it when the buffer is dirty.  Here
every file operation of a rebuild may fail: creating the temporary directory, writing the
segment, opening it.

A rebuild drops the cached segment before it does anything else, and the buffer stays dirty
unless the rebuild succeeds.  So a clean buffer with documents caches the segment of exactly its
live documents, or nothing if there are none (`Coherent`), after every sequence of calls
(`cache_coherent`).
-/
import ZearchEngine.WriteBuffer
import ZearchEngine.Lib.LabelledRun
import Mathlib

namespace ZearchEngine

/-! ## 1. The buffer with its cache -/

/-- A file operation of `rebuild_segment` that may fail. -/
inductive RebuildOp where
  | newTempDir | writeSegment | openSegment
deriving DecidableEq

/-- A temporary directory; `buf` is the segment in it, if one was written. -/
structure TempDir where
  buf : Option SegmentDir
deriving DecidableEq

/-- `WriteBuffer`, with the temporary directory and the statistics of the cached segment. -/
structure CachedBuffer (Stats : Type) extends WriteBuffer where
  segmentDir : Option TempDir
  segmentStats : Option Stats

/-- What a document adds to the size of the buffer. -/
def Document.bufferedSize (doc : Document) : Nat :=
  doc.title.utf8ByteSize + doc.description.utf8ByteSize + doc.category.utf8ByteSize + 64

namespace CachedBuffer

variable {Stats : Type}

/-- `WriteBuffer::new`. -/
def new (capacityBytes : Nat) : CachedBuffer Stats where
  toWriteBuffer := WriteBuffer.new capacityBytes
  segmentDir := none
  segmentStats := none

/-- `add`. -/
def add (b : CachedBuffer Stats) (doc : Document) : Bool × CachedBuffer Stats :=
  let (full, b') := b.toWriteBuffer.add doc
  (full, { b with toWriteBuffer := b' })

/-- `mark_deleted`. -/
def markDeleted (b : CachedBuffer Stats) (docId : DocId) : CachedBuffer Stats :=
  { b with toWriteBuffer := b.toWriteBuffer.markDeleted docId }

/-- `drain`. -/
def drain (b : CachedBuffer Stats) : (List Document × Finset DocId) × CachedBuffer Stats :=
  let (drained, b') := b.toWriteBuffer.drain
  (drained, { toWriteBuffer := b', segmentDir := none, segmentStats := none })

/-- `size_bytes`. -/
def sizeBytes (b : CachedBuffer Stats) : Nat := b.currentSizeBytes

/-- `rebuild_segment` first drops the cached segment. -/
def dropCache (b : CachedBuffer Stats) : CachedBuffer Stats :=
  { b with segmentReader := none, segmentStats := none, segmentDir := none }

section

variable (computeStats : SegmentReader → Stats) (fault : Option RebuildOp)

/-- `rebuild_segment`.  `computeStats` is `SegmentStatistics::compute` under the schema of the
buffer; `fault` is the operation that fails, if one does. -/
def rebuildSegment (b : CachedBuffer Stats) : Except Error Unit × CachedBuffer Stats :=
  let b := b.dropCache
  if fault = some .newTempDir then (.error .io, b)
  else
    let liveDocs := b.docs.filter (fun d => d.id ∉ b.deletedIds)
    if liveDocs.isEmpty then (.ok (), { b with segmentDir := some ⟨none⟩ })
    else if fault = some .writeSegment then (.error .io, b)
    else
      let buf := (SegmentWriter.write liveDocs).foldl SegmentDir.write {}
      if fault = some .openSegment then (.error .io, b)
      else
        match SegmentReader.openDir buf with
        | none => (.error .io, b)
        | some reader =>
          (.ok (), { b with
            segmentDir := some ⟨some buf⟩
            segmentReader := some reader
            segmentStats := some (computeStats reader) })

/-- The cached reader and its statistics. -/
def cached (b : CachedBuffer Stats) : Option (SegmentReader × Stats) :=
  match b.segmentReader, b.segmentStats with
  | some reader, some stats => some (reader, stats)
  | _, _ => none

/-- `reader_and_stats`. -/
def readerAndStats (b : CachedBuffer Stats) :
    Except Error (Option (SegmentReader × Stats)) × CachedBuffer Stats :=
  if b.docs.isEmpty then (.ok none, b)
  else if b.dirty then
    match b.rebuildSegment computeStats fault with
    | (.error e, b') => (.error e, b')
    | (.ok _, b') => (.ok b'.cached, { b' with dirty := false })
  else (.ok b.cached, b)

end

/-! ## 2. Coherence -/

/-- A clean buffer with documents caches the segment of its live documents, if there are any,
and the statistics of that segment. -/
structure Coherent (computeStats : SegmentReader → Stats) (b : CachedBuffer Stats) : Prop where
  reader : b.toWriteBuffer.Coherent
  stats : b.docs ≠ [] → b.dirty = false → b.segmentStats = b.liveReader.map computeStats

variable {computeStats : SegmentReader → Stats} {b : CachedBuffer Stats}

theorem coherent_of_dirty (h : b.dirty = true) : b.Coherent computeStats where
  reader := WriteBuffer.coherent_of_dirty h
  stats := fun _ hclean => by simp [h] at hclean

theorem coherent_of_no_docs (h : b.docs = []) : b.Coherent computeStats where
  reader := fun hdocs => absurd h hdocs
  stats := fun hdocs => absurd h hdocs

/-- **A rebuild** fails with nothing cached, or caches the segment of the live documents. -/
theorem rebuildSegment_cases (computeStats : SegmentReader → Stats) (fault : Option RebuildOp)
    (b : CachedBuffer Stats) :
    (fault ≠ none ∧ b.rebuildSegment computeStats fault = (.error .io, b.dropCache)) ∨
    ∃ dir, b.rebuildSegment computeStats fault = (.ok (),
      { b with
        segmentReader := b.liveReader
        segmentStats := b.liveReader.map computeStats
        segmentDir := dir }) := by
  have hdef : b.rebuildSegment computeStats fault =
      if fault = some .newTempDir then (.error .io, b.dropCache)
      else if b.allDocs.isEmpty then (.ok (), { b.dropCache with segmentDir := some ⟨none⟩ })
      else if fault = some .writeSegment then (.error .io, b.dropCache)
      else if fault = some .openSegment then (.error .io, b.dropCache)
      else (.ok (), { b.dropCache with
        segmentDir := some ⟨some (SegmentDir.written b.allDocs none)⟩
        segmentReader := some (SegmentReader.ofDocs b.allDocs ∅)
        segmentStats := some (computeStats (SegmentReader.ofDocs b.allDocs ∅)) }) := rfl
  rw [hdef]
  by_cases htemp : fault = some .newTempDir
  · exact Or.inl ⟨by simp [htemp], if_pos htemp⟩
  rw [if_neg htemp]
  by_cases hempty : b.allDocs.isEmpty = true
  · refine Or.inr ⟨some ⟨none⟩, ?_⟩
    rw [if_pos hempty, WriteBuffer.liveReader, if_pos hempty]
    rfl
  rw [if_neg hempty]
  by_cases hwrite : fault = some .writeSegment
  · exact Or.inl ⟨by simp [hwrite], if_pos hwrite⟩
  rw [if_neg hwrite]
  by_cases hopen : fault = some .openSegment
  · exact Or.inl ⟨by simp [hopen], if_pos hopen⟩
  refine Or.inr ⟨some ⟨some (SegmentDir.written b.allDocs none)⟩, ?_⟩
  rw [if_neg hopen, WriteBuffer.liveReader, if_neg hempty]
  rfl

theorem cached_eq (h : b.segmentStats = b.segmentReader.map computeStats) :
    b.cached = b.segmentReader.map (fun reader => (reader, computeStats reader)) := by
  unfold cached
  cases hreader : b.segmentReader with
  | none => rfl
  | some reader => simp [h, hreader]

/-- **What `reader_and_stats` does to a coherent buffer.**  It fails, with the buffer still
dirty, or returns the segment of the live documents; it changes nothing but the cache. -/
theorem readerAndStats_cases (fault : Option RebuildOp) (h : b.Coherent computeStats) :
    (fault ≠ none ∧ b.dirty = true ∧
      b.readerAndStats computeStats fault = (.error .io, b.dropCache)) ∨
    ∃ b', b.readerAndStats computeStats fault
        = (.ok (b.liveReader.map (fun reader => (reader, computeStats reader))), b') ∧
      b'.toWriteBuffer = b.toWriteBuffer.refreshed ∧ b'.Coherent computeStats := by
  unfold readerAndStats WriteBuffer.refreshed
  by_cases hdocs : b.docs = []
  · refine Or.inr ⟨b, ?_, ?_, h⟩ <;> simp [hdocs, WriteBuffer.liveReader, WriteBuffer.allDocs]
  have hempty : ¬ b.docs.isEmpty = true := by simpa using hdocs
  rw [if_neg hempty, if_neg hempty]
  by_cases hdirty : b.dirty = true
  · rw [if_pos hdirty]
    rcases rebuildSegment_cases computeStats fault b with ⟨hfault, heq⟩ | ⟨dir, heq⟩
    · exact Or.inl ⟨hfault, hdirty, by rw [heq]⟩
    · refine Or.inr ⟨{ b with
        segmentReader := b.liveReader
        segmentStats := b.liveReader.map computeStats
        segmentDir := dir
        dirty := false }, ?_, rfl, ⟨fun _ _ => rfl, fun _ _ => rfl⟩⟩
      rw [heq]
      exact congrArg (fun c => (Except.ok c, _)) (cached_eq rfl)
  · have hclean : b.dirty = false := by simpa using hdirty
    have hreader : b.segmentReader = b.liveReader := h.reader hdocs hclean
    refine Or.inr ⟨b, ?_, ?_, h⟩
    · rw [if_neg hdirty, cached_eq (hreader ▸ h.stats hdocs hclean), hreader]
    · rw [← hreader, ← hclean]

/-! ## 3. Any sequence of calls -/

/-- A call of the buffer; a rebuild may fail. -/
inductive BufferCall where
  | add (doc : Document)
  | markDeleted (docId : DocId)
  | drain
  | readerAndStats (fault : Option RebuildOp)

/-- The buffer after a call. -/
def call (computeStats : SegmentReader → Stats) (b : CachedBuffer Stats) :
    BufferCall → CachedBuffer Stats
  | .add doc => (b.add doc).2
  | .markDeleted docId => b.markDeleted docId
  | .drain => b.drain.2
  | .readerAndStats fault => (b.readerAndStats computeStats fault).2

/-- The documents added since the last `drain`. -/
def addedSinceDrain (added : List Document) : BufferCall → List Document
  | .add doc => added ++ [doc]
  | .drain => []
  | _ => added

/-- The buffer is coherent, and has the documents added since the last `drain`, and their
size. -/
structure Tracks (computeStats : SegmentReader → Stats) (b : CachedBuffer Stats)
    (added : List Document) : Prop where
  coherent : b.Coherent computeStats
  docs : b.docs = added
  size : b.sizeBytes = (added.map Document.bufferedSize).sum

theorem tracks_new (capacityBytes : Nat) :
    (new capacityBytes : CachedBuffer Stats).Tracks computeStats [] where
  coherent := coherent_of_no_docs rfl
  docs := rfl
  size := rfl

/-- **Every call keeps track.** -/
theorem Tracks.call {added : List Document} (h : b.Tracks computeStats added) (c : BufferCall) :
    (b.call computeStats c).Tracks computeStats (addedSinceDrain added c) := by
  cases c with
  | add doc =>
    refine ⟨coherent_of_dirty rfl, congrArg (· ++ [doc]) h.docs, ?_⟩
    have hsize : ((b.add doc).2).sizeBytes = b.sizeBytes + doc.bufferedSize := rfl
    rw [CachedBuffer.call, hsize, h.size]
    simp [addedSinceDrain]
  | markDeleted docId => exact ⟨coherent_of_dirty rfl, h.docs, h.size⟩
  | drain => exact ⟨coherent_of_no_docs rfl, rfl, rfl⟩
  | readerAndStats fault =>
    have hcall : b.call computeStats (.readerAndStats fault)
        = (b.readerAndStats computeStats fault).2 := rfl
    rw [hcall]
    rcases readerAndStats_cases fault h.coherent with ⟨-, hdirty, heq⟩ | ⟨b', heq, hbuffer, hb'⟩
    · rw [heq]
      exact ⟨coherent_of_dirty hdirty, h.docs, h.size⟩
    · rw [heq]
      have hsize : b'.currentSizeBytes = b.currentSizeBytes := by
        rw [hbuffer, WriteBuffer.refreshed]
        split <;> rfl
      refine ⟨hb', ?_, hsize.trans h.size⟩
      rw [hbuffer, WriteBuffer.refreshed_docs]
      exact h.docs

theorem tracks_run (computeStats : SegmentReader → Stats) (capacityBytes : Nat)
    (calls : List BufferCall) :
    (LabelledRun.run (call computeStats) (new capacityBytes) calls).Tracks computeStats
      (calls.foldl addedSinceDrain []) := by
  have hkept : LabelledRun.Along (call computeStats) (fun _ _ => True) (new capacityBytes) calls :=
    LabelledRun.along_of_forall calls _ (fun _ _ => trivial)
  exact LabelledRun.Along.ghost (I := Tracks computeStats) addedSinceDrain
    (fun _ c _ h _ => h.call c) calls (new capacityBytes) [] hkept (tracks_new capacityBytes)

/-- **The cached segment is coherent.**  After any calls, whether or not some rebuild failed,
`reader_and_stats` returns a segment of exactly `all_docs`, in order, with its statistics, or
fails; it returns none only if `all_docs` is empty; and `size_bytes` is the size of what was
added since the last `drain`. -/
theorem cache_coherent (computeStats : SegmentReader → Stats) (capacityBytes : Nat)
    (calls : List BufferCall) (fault : Option RebuildOp) :
    let b := LabelledRun.run (call computeStats) (new capacityBytes) calls
    let returned := b.readerAndStats computeStats fault
    (∀ reader stats, returned.1 = .ok (some (reader, stats)) →
      reader.liveDocuments = returned.2.allDocs ∧ stats = computeStats reader) ∧
    (returned.1 = .ok none → returned.2.allDocs = []) ∧
    b.sizeBytes = ((calls.foldl addedSinceDrain []).map Document.bufferedSize).sum := by
  intro b returned
  have h : b.Tracks computeStats (calls.foldl addedSinceDrain []) :=
    tracks_run computeStats capacityBytes calls
  have hreturned : ∀ found, returned.1 = .ok found →
      found = returned.2.liveReader.map (fun reader => (reader, computeStats reader)) := by
    intro found hok
    rcases readerAndStats_cases fault h.coherent with ⟨-, -, heq⟩ | ⟨b', heq, hbuffer, -⟩
    · simp [returned, heq] at hok
    · have hlive : b'.liveReader = b.liveReader := by
        simp [WriteBuffer.liveReader, WriteBuffer.allDocs, hbuffer]
      simpa [returned, heq, hlive] using hok.symm
  refine ⟨fun reader stats hok => ?_, fun hok => ?_, h.size⟩
  · have hfound := hreturned _ hok
    unfold WriteBuffer.liveReader at hfound
    by_cases hempty : returned.2.allDocs.isEmpty = true
    · simp [hempty] at hfound
    · rw [if_neg hempty, Option.map_some, Option.some.injEq, Prod.mk.injEq] at hfound
      obtain ⟨rfl, rfl⟩ := hfound
      exact ⟨SegmentReader.liveDocuments_ofDocs_empty _, rfl⟩
  · simpa [WriteBuffer.liveReader] using hreturned none hok

/-- After a failed rebuild nothing is cached, and the next read rebuilds. -/
example : ((LabelledRun.run (call (fun reader => reader.liveDocuments.length)) (new 100)
      [.add ⟨1, "a", "", ⟨0⟩, "", .empty⟩, .readerAndStats none, .markDeleted 2,
        .readerAndStats (some .writeSegment)]).readerAndStats
          (fun reader => reader.liveDocuments.length) none).1.toOption.map (·.map Prod.snd)
    = some (some 1) := by
  decide

end CachedBuffer

end ZearchEngine
