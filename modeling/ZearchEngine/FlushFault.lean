/-
# A flush that fails

`SegmentWriter::write` and `SegmentReader::open` may fail.  The new directory is left as far as
it was written, and `?` returns the error: out of `flush`, `run_merge` or `reindex_self`.  The
methods are those of the engine with the outcomes of these two calls as a parameter
(`CallIo`); without faults they are the engine's (`execIo_ok`).

`flush` empties the buffer before it writes the segment, and does not put the documents back.
So a flush that fails on its own segment keeps what was searchable exactly if the buffer held
nothing that the open segments do not hold too; what it keeps stays, through index calls, a
flush and a restart (`failed_flush_keeps`).
-/
import ZearchEngine.Compaction
import ZearchEngine.Crash

namespace ZearchEngine

open KeyedStore

/-! ## 1. Outcomes -/

/-- How writing and opening a new segment turns out. -/
inductive SegmentIo where
  | ok
  /-- `write` fails after some operations on the new directory; the next one may have begun. -/
  | writeFails (written : Nat) (torn : Bool)
  | openFails
deriving DecidableEq

/-- How it turns out for the new segments of one call. -/
structure CallIo where
  flush : SegmentIo := .ok
  merge : SegmentIo := .ok
  reindex : SegmentIo := .ok
deriving DecidableEq

namespace ShardEngine

/-- `SegmentWriter::write`. -/
def writeSegmentIo (io : SegmentIo) (id : SegmentId) (docs : List Document) : ShardM Unit :=
  match io with
  | .writeFails written torn => fun s =>
    (.error .io, { s with dirs := (s.disk.crash (CrashPoint.after
      ((SegmentDirs.writeSegment id docs).map .segments) written torn)).segments })
  | _ => writeSegment id docs

/-- `SegmentReader::open`. -/
def openSegmentIo (io : SegmentIo) (id : SegmentId) : ShardM SegmentReader :=
  match io with
  | .openFails => fun s => (.error .io, s)
  | _ => openSegment id

/-- `run_merge`. -/
def runMergeIo (io : SegmentIo) (segmentIds : List SegmentId) : ShardM Unit := do
  let newSegId ← nextSegmentId
  let mergedDocs ← read fun s => MergeScheduler.mergedDocs (s.sources segmentIds)
  writeSegmentIo io newSegId mergedDocs
  let reader ← openSegmentIo io newSegId
  replaceSegments segmentIds { segmentId := newSegId, reader }
  removeDirs segmentIds

/-- The loop of `maybe_merge`. -/
def runMergesIo (io : SegmentIo) : List (List SegmentId) → ShardM Unit
  | [] => pure ()
  | group :: groups => do
    runMergeIo io group
    runMergesIo io groups

/-- `maybe_merge`. -/
def maybeMergeIo (io : SegmentIo) : ShardM Unit := do
  let mergeGroups ← read fun s => s.mergePolicy.findMerges s.segments.segments
  runMergesIo io mergeGroups

/-- `flush`. -/
def flushIo (io : CallIo) : ShardM Unit := do
  let (docs, _deletedIds) ← bufferDrain
  if docs.isEmpty then pure ()
  else do
    let segId ← nextSegmentId
    writeSegmentIo io.flush segId docs
    let reader ← openSegmentIo io.flush segId
    addSegment { segmentId := segId, reader }
    walTruncate
    maybeMergeIo io.merge

/-- `index_batch`, and `index` of one document. -/
def indexBatchIo (io : CallIo) (docs : List Document) : ShardM Unit := do
  let _seqs ← walAppend (docs.map .index)
  let needsFlush ← bufferAdd docs
  if needsFlush then flushIo io else pure ()

/-- `reindex_self`. -/
def reindexSelfIo (io : CallIo) : ShardM Nat := do
  flushIo io
  let docs ← read fun s =>
    s.segments.segments.flatMap (fun e => e.reader.allLiveDocs.filterMap e.reader.getDoc)
  if docs.isEmpty then pure 0
  else do
    let newSegId ← nextSegmentId
    writeSegmentIo io.reindex newSegId docs
    let reader ← openSegmentIo io.reindex newSegId
    let oldIds ← read fun s => s.segments.segments.map SegmentEntry.segmentId
    replaceSegments oldIds { segmentId := newSegId, reader }
    removeDirs oldIds
    walTruncate
    pure docs.length

/-- The operation, without the value it returns. -/
def execIo (io : CallIo) : Op → ShardM Unit
  | .index doc => indexBatchIo io [doc]
  | .indexBatch docs => indexBatchIo io docs
  | .flush => flushIo io
  | .runMerge segmentIds => do
    let openIds ← read fun s => s.segments.segments.map SegmentEntry.segmentId
    if ∀ id ∈ segmentIds, id ∈ openIds then runMergeIo io.merge segmentIds else pure ()
  | .reindexSelf => do
    let _stats ← reindexSelfIo io
    pure ()
  | op => exec op

theorem runMergesIo_ok : ∀ groups : List (List SegmentId),
    runMergesIo .ok groups = runMerges groups
  | [] => rfl
  | group :: groups => by
    rw [runMergesIo, runMerges, runMergesIo_ok groups]
    rfl

theorem flushIo_ok : flushIo {} = flush := by
  have hmerge : maybeMergeIo .ok = maybeMerge := by
    rw [maybeMergeIo, maybeMerge]
    simp only [runMergesIo_ok]
  rw [flushIo, flush]
  simp only [hmerge]
  rfl

/-- **Without faults, the operations are the engine's.** -/
theorem execIo_ok (op : Op) : execIo {} op = exec op := by
  cases op with
  | index doc =>
    rw [execIo, indexBatchIo, flushIo_ok]
    rfl
  | indexBatch docs =>
    rw [execIo, indexBatchIo, flushIo_ok]
    rfl
  | flush => exact flushIo_ok
  | reindexSelf =>
    rw [execIo, reindexSelfIo, flushIo_ok]
    rfl
  | _ => rfl

/-- The engine after one call, returned or failed. -/
def stepIo (s : ShardEngine) (call : CallIo × Op) : ShardEngine := (execIo call.1 call.2 s).2

/-- The engine after a run of calls, some of which may have failed. -/
def runIo (writeBufferSize : Nat) (searcher : MultiSegmentSearcher) (calls : List (CallIo × Op)) :
    ShardEngine :=
  LabelledRun.run stepIo (openDisk writeBufferSize searcher Disk.empty) calls

/-! ## 2. What a failed operation leaves -/

/-- A segment name is used up, and its directory left as far as it was written. -/
def attempted (s : ShardEngine) (io : SegmentIo) (docs : List Document) : ShardEngine :=
  { s with
    segments := s.segments.nextSegmentId.2
    dirs := (writeSegmentIo io s.segments.nextSegmentId.1 docs s).2.dirs }

/-- A new segment that cannot be written or opened. -/
theorem newSegment_fails {β : Type} {io : SegmentIo} (hio : io ≠ .ok) (s : ShardEngine)
    (docs : List Document) (f : SegmentId → SegmentReader → ShardM β) :
    (do
      let segId ← nextSegmentId
      writeSegmentIo io segId docs
      let reader ← openSegmentIo io segId
      f segId reader) s = (.error .io, s.attempted io docs) := by
  rw [nextSegmentId, ShardM.step_bind]
  cases io with
  | ok => exact absurd rfl hio
  | writeFails written torn => rfl
  | openFails => rfl

/-- The new directory does not open or is whole, and nothing else changed. -/
theorem attempted_cases {s : ShardEngine} (h : Inv s) (io : SegmentIo) (docs : List Document) :
    (∃ d : Disk, Disk.Unfinished ⟨s.segments.nextSegmentSeq⟩ s.disk d ∧
      (s.attempted io docs).dirs = d.segments) ∨
    (s.attempted io docs).dirs
      = s.dirs.insert ⟨s.segments.nextSegmentSeq⟩ (SegmentDir.written docs none) := by
  have hnew : (⟨s.segments.nextSegmentSeq⟩ : SegmentId) ∉ s.disk.segments := h.synced.next_notMem
  cases io with
  | writeFails written torn =>
    rcases s.disk.crash_writeSegment hnew docs (List.append_nil _).symm
      (fun _ _ he => absurd he List.not_mem_nil) (CrashPoint.after
        ((SegmentDirs.writeSegment ⟨s.segments.nextSegmentSeq⟩ docs).map FileEffect.segments)
        written torn)
      with ⟨-, hunfinished⟩ | ⟨-, q, -, hwhole⟩
    · exact Or.inl ⟨_, hunfinished, rfl⟩
    · refine Or.inr ?_
      have hdone : q.done = [] := (List.append_eq_nil_iff.mp q.split.symm).1
      rw [hdone, List.foldl_nil] at hwhole
      exact congrArg Disk.segments hwhole
  | _ => exact Or.inr (SegmentDirs.foldl_writeSegment hnew docs)

theorem lookup_attempted {s : ShardEngine} (h : Inv s) (io : SegmentIo) (docs : List Document)
    {id : SegmentId} (hid : id ≠ ⟨s.segments.nextSegmentSeq⟩) :
    (s.attempted io docs).dirs.lookup id = s.dirs.lookup id := by
  rcases attempted_cases h io docs with ⟨d, hunfinished, hdirs⟩ | hdirs
  · rw [hdirs, hunfinished.others id hid]
    rfl
  · rw [hdirs, AList.lookup_insert_ne hid]

theorem Inv.attempted {s : ShardEngine} (h : Inv s) (io : SegmentIo) (docs : List Document) :
    Inv (s.attempted io docs) where
  synced :=
    { nodup := h.synced.nodup
      fresh := by
        intro id hid
        show id.seq < s.segments.nextSegmentSeq + 1
        by_cases hnew : id = ⟨s.segments.nextSegmentSeq⟩
        · rw [hnew]
          exact Nat.lt_succ_self _
        · obtain ⟨dir, hdir⟩ := mem_iff_lookup.mp hid
          rw [lookup_attempted h io docs hnew] at hdir
          exact (h.synced.fresh id (mem_iff_lookup.mpr ⟨dir, hdir⟩)).trans (Nat.lt_succ_self _)
      onDisk := by
        intro e he
        obtain ⟨docs', deleted, deletions, hreader, hlook, hsub⟩ := h.synced.onDisk e he
        have hne : e.segmentId ≠ ⟨s.segments.nextSegmentSeq⟩ := fun heq =>
          h.synced.next_notMem (heq ▸ h.synced.mem_dirs he)
        exact ⟨docs', deleted, deletions, hreader,
          (lookup_attempted h io docs hne).trans hlook, hsub⟩
      sound := h.synced.sound }
  intact := by
    rcases attempted_cases h io docs with ⟨d, hunfinished, hdirs⟩ | hdirs
    · rw [hdirs]
      exact hunfinished.intact h.intact
    · rw [hdirs]
      exact h.intact.insert _ _ none
  coherent := h.coherent

/-- What was live on disk still is. -/
theorem mem_live_attempted {s : ShardEngine} (h : Inv s) (io : SegmentIo) (docs : List Document)
    {doc : Document} (hdoc : doc ∈ SegmentDirs.live s.dirs) :
    doc ∈ SegmentDirs.live (s.attempted io docs).dirs := by
  have hnew : (⟨s.segments.nextSegmentSeq⟩ : SegmentId) ∉ s.disk.segments := h.synced.next_notMem
  rcases attempted_cases h io docs with ⟨d, hunfinished, hdirs⟩ | hdirs
  · rw [hdirs, hunfinished.live hnew]
    exact hdoc
  · rw [hdirs, SegmentDirs.live_insert h.synced.next_notMem]
    exact Multiset.mem_add.mpr (Or.inr hdoc)

/-! ## 3. Operations are their changes -/

/-- A change of the engine's state, or what a failed operation does instead. -/
inductive IoChange where
  | done (c : Change)
  | drain
  | attempt (io : SegmentIo) (docs : List Document)

def ioChange (s : ShardEngine) : IoChange → ShardEngine
  | .done c => s.change c
  | .drain => s.drained
  | .attempt io docs => s.attempted io docs

def IoEnabled (s : ShardEngine) : IoChange → Prop
  | .done c => s.Enabled c
  | _ => True

theorem Inv.afterIo {s : ShardEngine} (h : Inv s) {c : IoChange} (hc : s.IoEnabled c) :
    Inv (s.ioChange c) := by
  cases c with
  | done c => exact h.after hc
  | drain => exact h.drained
  | attempt io docs => exact h.attempted io docs

theorem Inv.runIoChanges {s : ShardEngine} (h : Inv s) {cs : List IoChange}
    (hcs : LabelledRun.Along ioChange IoEnabled s cs) : Inv (LabelledRun.run ioChange s cs) :=
  LabelledRun.Along.inv (fun _ _ hs hc => hs.afterIo hc) cs s hcs h

/-- The changes of some merges. -/
def mergeIoChanges (s : ShardEngine) (io : SegmentIo) (groups : List (List SegmentId)) :
    List IoChange :=
  if io = .ok then groups.map (fun group => .done (.merge group))
  else groups.head?.toList.map
    (fun group => .attempt io (MergeScheduler.mergedDocs (s.sources group)))

/-- The merges of a `flush`. -/
def flushMerges (s : ShardEngine) : List (List SegmentId) :=
  s.mergePolicy.findMerges s.flushed.segments.segments

/-- `flush` fails: on its own segment, or on that of a merge. -/
def FlushFails (s : ShardEngine) (io : CallIo) : Prop :=
  s.writeBuffer.docs ≠ [] ∧ (io.flush ≠ .ok ∨ io.merge ≠ .ok ∧ s.flushMerges ≠ [])

instance (s : ShardEngine) (io : CallIo) : Decidable (s.FlushFails io) :=
  inferInstanceAs (Decidable (_ ∧ _))

/-- The changes of `flush`. -/
def flushIoChanges (s : ShardEngine) (io : CallIo) : List IoChange :=
  if s.writeBuffer.docs.isEmpty then [.done .drop]
  else if io.flush = .ok then .done .flush :: s.flushed.mergeIoChanges io.merge s.flushMerges
  else [.drain, .attempt io.flush s.writeBuffer.docs]

theorem runMergeIo_fails {io : SegmentIo} (hio : io ≠ .ok) (s : ShardEngine)
    (ids : List SegmentId) : runMergeIo io ids s
      = (.error .io, s.attempted io (MergeScheduler.mergedDocs (s.sources ids))) :=
  newSegment_fails hio s (MergeScheduler.mergedDocs (s.sources ids)) (fun newSegId reader => do
    replaceSegments ids { segmentId := newSegId, reader }
    removeDirs ids)

theorem runMergesIo_eq {s : ShardEngine} (h : Inv s) (io : SegmentIo) :
    ∀ groups : List (List SegmentId), groups.length ≤ 1 → runMergesIo io groups s
      = (if io ≠ .ok ∧ groups ≠ [] then .error .io else .ok (),
        LabelledRun.run ioChange s (s.mergeIoChanges io groups))
  | [], _ => by
    have hnone : s.mergeIoChanges io [] = [] := by simp [mergeIoChanges]
    rw [hnone, if_neg (fun hand => hand.2 rfl)]
    rfl
  | [group], _ => by
    by_cases hio : io = .ok
    · have hrun := runMerges_eq h.synced [group] (Nat.le_refl 1)
      rw [hio, runMergesIo_ok, hrun]
      simp [mergeIoChanges]
      rfl
    · have hfails := runMergeIo_fails hio s group
      rw [runMergesIo, ShardM.bind_apply, hfails]
      simp [mergeIoChanges, hio]
      rfl
  | _ :: _ :: _, hlen => by simp at hlen

/-- **`flush`, with its faults.** -/
theorem flushIo_eq {s : ShardEngine} (h : Inv s) (io : CallIo) :
    flushIo io s = (if s.FlushFails io then .error .io else .ok (),
      LabelledRun.run ioChange s (s.flushIoChanges io)) := by
  have hflush : flushIo io s = (if s.writeBuffer.docs.isEmpty then pure () else do
      let segId ← nextSegmentId
      writeSegmentIo io.flush segId s.writeBuffer.docs
      let reader ← openSegmentIo io.flush segId
      addSegment { segmentId := segId, reader }
      walTruncate
      maybeMergeIo io.merge : ShardM Unit) s.drained := rfl
  rw [hflush, flushIoChanges]
  by_cases hdocs : s.writeBuffer.docs.isEmpty = true
  · have hnot : ¬ s.FlushFails io := fun hfails => hfails.1 (List.isEmpty_iff.mp hdocs)
    rw [if_pos hdocs, if_pos hdocs, if_neg hnot]
    rfl
  · have hne : s.writeBuffer.docs ≠ [] := by simpa using hdocs
    rw [if_neg hdocs, if_neg hdocs]
    by_cases hio : io.flush = .ok
    · rw [if_pos hio, hio]
      have hrun := writeSegment_openSegment
        (s := { s.drained with segments := s.segments.nextSegmentId.2 }) h.synced.next_notMem
        s.writeBuffer.docs (fun reader => do
          replaceSegments [] { segmentId := s.segments.nextSegmentId.1, reader }
          walTruncate
          maybeMergeIo io.merge)
      have hmerge := runMergesIo_eq h.flushed io.merge s.flushMerges
        (length_findMerges_le _ _)
      simp only [addSegment_eq]
      rw [nextSegmentId, ShardM.step_bind]
      refine hrun.trans (hmerge.trans ?_)
      simp [FlushFails, hne, hio]
      rfl
    · rw [if_neg hio, if_pos ⟨hne, Or.inl hio⟩]
      exact newSegment_fails hio s.drained s.writeBuffer.docs (fun segId reader => do
        addSegment { segmentId := segId, reader }
        walTruncate
        maybeMergeIo io.merge)

/-- The changes of `index` and `index_batch`. -/
def acceptIoChanges (s : ShardEngine) (io : CallIo) (docs : List Document) : List IoChange :=
  .done (.accept docs) ::
    if (s.writeBuffer.addAll docs).1 then (s.accepted docs).flushIoChanges io else []

/-- The changes of `reindex_self`. -/
def reindexIoChanges (s : ShardEngine) (io : CallIo) : List IoChange :=
  let live := (LabelledRun.run ioChange s (s.flushIoChanges io)).segments.liveDocuments
  s.flushIoChanges io ++
    if s.FlushFails io ∨ live.isEmpty then []
    else if io.reindex = .ok then [.done .reindex]
    else [.attempt io.reindex live]

/-- The changes of an operation. -/
def ioChanges (s : ShardEngine) (io : CallIo) : Op → List IoChange
  | .index doc => s.acceptIoChanges io [doc]
  | .indexBatch docs => s.acceptIoChanges io docs
  | .flush => s.flushIoChanges io
  | .runMerge segmentIds =>
    if ∀ id ∈ segmentIds, id ∈ s.openIds then s.mergeIoChanges io.merge [segmentIds] else []
  | .reindexSelf => s.reindexIoChanges io
  | op => (s.changes op).map .done

theorem run_map_done : ∀ (cs : List Change) (s : ShardEngine),
    LabelledRun.run ioChange s (cs.map .done) = LabelledRun.run change s cs
  | [], _ => rfl
  | c :: cs, s => run_map_done cs (s.change c)

theorem along_map_done : ∀ (cs : List Change) (s : ShardEngine),
    LabelledRun.Along change Enabled s cs → LabelledRun.Along ioChange IoEnabled s (cs.map .done)
  | [], _, _ => trivial
  | c :: cs, s, h => ⟨h.1, along_map_done cs (s.change c) h.2⟩

theorem along_mergeIoChanges {s : ShardEngine} (io : SegmentIo) {groups : List (List SegmentId)}
    (h : LabelledRun.Along change Enabled s (groups.map .merge)) :
    LabelledRun.Along ioChange IoEnabled s (s.mergeIoChanges io groups) := by
  rw [mergeIoChanges]
  split
  · have hdone := along_map_done (groups.map .merge) s h
    rwa [List.map_map] at hdone
  · cases groups with
    | nil => trivial
    | cons group groups => exact ⟨trivial, trivial⟩

theorem along_flushIoChanges (s : ShardEngine) (io : CallIo) :
    LabelledRun.Along ioChange IoEnabled s (s.flushIoChanges io) := by
  have halong := along_flushChanges s
  rw [flushChanges] at halong
  rw [flushIoChanges]
  split
  · next hdocs => exact ⟨List.isEmpty_iff.mp hdocs, trivial⟩
  · next hdocs =>
    rw [if_neg hdocs] at halong
    split
    · exact ⟨trivial, along_mergeIoChanges io.merge halong.2⟩
    · exact ⟨trivial, trivial, trivial⟩

theorem along_acceptIoChanges (s : ShardEngine) (io : CallIo) (docs : List Document) :
    LabelledRun.Along ioChange IoEnabled s (s.acceptIoChanges io docs) := by
  refine ⟨trivial, ?_⟩
  split
  · exact along_flushIoChanges (s.accepted docs) io
  · trivial

/-- **`index_batch`, with its faults.** -/
theorem indexBatchIo_eq {s : ShardEngine} (h : Inv s) (io : CallIo) (docs : List Document) :
    indexBatchIo io docs s =
      (if (s.writeBuffer.addAll docs).1 ∧ (s.accepted docs).FlushFails io then .error .io
        else .ok (),
        LabelledRun.run ioChange s (s.acceptIoChanges io docs)) := by
  have hacc : indexBatchIo io docs s
      = (if (s.writeBuffer.addAll docs).1 then flushIo io else pure ()) (s.accepted docs) := rfl
  rw [hacc, acceptIoChanges]
  by_cases hfull : (s.writeBuffer.addAll docs).1 = true
  · rw [if_pos hfull, if_pos hfull, flushIo_eq (h.accepted docs)]
    simp only [hfull, true_and]
    rfl
  · rw [if_neg hfull, if_neg hfull, if_neg (fun hand => hfull hand.1)]
    rfl

/-- The buffer is empty after a flush that succeeds. -/
theorem docs_run_flushIoChanges {s : ShardEngine} {io : CallIo} (hok : ¬ s.FlushFails io) :
    (LabelledRun.run ioChange s (s.flushIoChanges io)).writeBuffer.docs = [] := by
  rw [flushIoChanges]
  split
  · rfl
  · next hdocs =>
    have hne : s.writeBuffer.docs ≠ [] := by simpa using hdocs
    have hio : io.flush = .ok := by
      by_contra hnot
      exact hok ⟨hne, Or.inl hnot⟩
    have hrun : ∀ (cs : List IoChange) (t : ShardEngine), t.writeBuffer.docs = [] →
        (∀ c ∈ cs, (∃ ids, c = .done (.merge ids)) ∨ ∃ io docs, c = .attempt io docs) →
        (LabelledRun.run ioChange t cs).writeBuffer.docs = [] := by
      intro cs
      induction cs with
      | nil => exact fun t ht _ => ht
      | cons c cs ih =>
        intro t ht hcs
        refine ih _ ?_ (fun c hc => hcs c (List.mem_cons_of_mem _ hc))
        rcases hcs c List.mem_cons_self with ⟨ids, rfl⟩ | ⟨io, docs, rfl⟩
        · exact ht
        · exact ht
    rw [if_pos hio, LabelledRun.run_cons]
    refine hrun _ s.flushed rfl (fun c hc => ?_)
    rw [mergeIoChanges] at hc
    split at hc
    · obtain ⟨group, -, rfl⟩ := List.mem_map.mp hc
      exact Or.inl ⟨group, rfl⟩
    · obtain ⟨group, -, rfl⟩ := List.mem_map.mp hc
      exact Or.inr ⟨_, _, rfl⟩

theorem along_reindexIoChanges (s : ShardEngine) (io : CallIo) :
    LabelledRun.Along ioChange IoEnabled s (s.reindexIoChanges io) := by
  rw [reindexIoChanges]
  refine (LabelledRun.along_append _ _ _ _).mpr ⟨along_flushIoChanges s io, ?_⟩
  split
  · trivial
  · next hlive =>
    split
    · exact ⟨docs_run_flushIoChanges (fun hfails => hlive (Or.inl hfails)), trivial⟩
    · exact ⟨trivial, trivial⟩

/-- **`reindex_self`, with its faults**: the state it leaves. -/
theorem reindexSelfIo_eq {s : ShardEngine} (h : Inv s) (io : CallIo) :
    (reindexSelfIo io s).2 = LabelledRun.run ioChange s (s.reindexIoChanges io) := by
  have hinv := h.runIoChanges (along_flushIoChanges s io)
  have hflush := flushIo_eq h io
  rw [reindexIoChanges, LabelledRun.run_append, reindexSelfIo, ShardM.bind_apply, hflush]
  generalize LabelledRun.run ioChange s (s.flushIoChanges io) = t at hinv ⊢
  by_cases hfails : s.FlushFails io
  · simp only [hfails, if_true, true_or]
    rfl
  · simp only [hfails, if_false, false_or]
    have hdocs : t.segments.segments.flatMap
        (fun e => e.reader.allLiveDocs.filterMap e.reader.getDoc) = t.segments.liveDocuments := by
      simp only [SegmentReader.filterMap_allLiveDocs, SegmentList.liveDocuments]
    rw [read, ShardM.step_bind, hdocs]
    by_cases hempty : t.segments.liveDocuments.isEmpty = true
    · rw [if_pos hempty, if_pos hempty]
      rfl
    · rw [if_neg hempty, if_neg hempty]
      by_cases hio : io.reindex = .ok
      · rw [if_pos hio, hio, nextSegmentId, ShardM.step_bind]
        exact congrArg Prod.snd (writeSegment_openSegment
          (s := { t with segments := t.segments.nextSegmentId.2 }) hinv.synced.next_notMem
          t.segments.liveDocuments (fun reader => do
            let oldIds ← read fun s => s.segments.segments.map SegmentEntry.segmentId
            replaceSegments oldIds { segmentId := t.segments.nextSegmentId.1, reader }
            removeDirs oldIds
            walTruncate
            pure t.segments.liveDocuments.length))
      · rw [if_neg hio]
        exact congrArg Prod.snd (newSegment_fails hio t t.segments.liveDocuments
          (fun newSegId reader => do
            let oldIds ← read fun s => s.segments.segments.map SegmentEntry.segmentId
            replaceSegments oldIds { segmentId := newSegId, reader }
            removeDirs oldIds
            walTruncate
            pure t.segments.liveDocuments.length))

/-- **Every operation does its changes**, with the faults there are. -/
theorem execIo_eq {s : ShardEngine} (h : Inv s) (io : CallIo) (op : Op) :
    (execIo io op s).2 = LabelledRun.run ioChange s (s.ioChanges io op) := by
  have hother : ∀ op, (exec op s).2 = LabelledRun.run ioChange s ((s.changes op).map .done) := by
    intro op
    rw [run_map_done, exec_eq h]
  cases op with
  | index doc => exact congrArg Prod.snd (indexBatchIo_eq h io [doc])
  | indexBatch docs => exact congrArg Prod.snd (indexBatchIo_eq h io docs)
  | flush => exact congrArg Prod.snd (flushIo_eq h io)
  | runMerge segmentIds =>
    have hguard : execIo io (.runMerge segmentIds) s
        = (if ∀ id ∈ segmentIds, id ∈ s.openIds then runMergeIo io.merge segmentIds
          else pure ()) s := rfl
    rw [hguard, ioChanges]
    split
    · by_cases hio : io.merge = .ok
      · have hmerge := runMerge_eq h.synced segmentIds
        rw [hio]
        exact congrArg Prod.snd hmerge
      · rw [runMergeIo_fails hio s segmentIds]
        simp only [mergeIoChanges, hio, if_false]
        rfl
    · rfl
  | reindexSelf =>
    have hstate : (execIo io .reindexSelf s).2 = (reindexSelfIo io s).2 := by
      rw [execIo, ShardM.bind_apply]
      cases reindexSelfIo io s with
      | mk result t => cases result <;> rfl
    rw [hstate]
    exact reindexSelfIo_eq h io
  | delete docId => exact hother (.delete docId)
  | search request => exact hother (.search request)
  | reopen => exact hother .reopen

theorem along_ioChanges (s : ShardEngine) (io : CallIo) (op : Op) :
    LabelledRun.Along ioChange IoEnabled s (s.ioChanges io op) := by
  cases op with
  | index doc => exact along_acceptIoChanges s io [doc]
  | indexBatch docs => exact along_acceptIoChanges s io docs
  | flush => exact along_flushIoChanges s io
  | runMerge segmentIds =>
    rw [ioChanges]
    split
    · next hids =>
      have hmerge : LabelledRun.Along change Enabled s ([segmentIds].map .merge) :=
        ⟨hids, trivial⟩
      exact along_mergeIoChanges io.merge hmerge
    · trivial
  | reindexSelf => exact along_reindexIoChanges s io
  | delete docId => exact ⟨trivial, trivial⟩
  | search request => exact ⟨trivial, trivial⟩
  | reopen => exact ⟨trivial, trivial⟩

theorem Inv.execIo {s : ShardEngine} (h : Inv s) (io : CallIo) (op : Op) :
    Inv (execIo io op s).2 := by
  rw [execIo_eq h]
  exact h.runIoChanges (along_ioChanges s io op)

theorem inv_runIo (writeBufferSize : Nat) (searcher : MultiSegmentSearcher)
    (calls : List (CallIo × Op)) : Inv (runIo writeBufferSize searcher calls) :=
  LabelledRun.Along.inv (fun _ call hs _ => hs.execIo call.1 call.2) calls _
    (LabelledRun.along_of_forall (Q := fun _ => True) calls _ (fun _ _ => trivial))
    (inv_new writeBufferSize searcher)

/-! ## 4. What stays -/

/-- A document that an open segment shows, and a segment on disk. -/
structure Kept (s : ShardEngine) (doc : Document) : Prop where
  shown : doc ∈ s.segments.liveDocuments
  onDisk : doc ∈ SegmentDirs.live s.dirs

/-- Replaced directories show no more than the readers that were open on them. -/
theorem Inv.mem_live_installed {s : ShardEngine} (h : Inv s) {ids : List SegmentId}
    (hids : ∀ id ∈ ids, id ∈ s.openIds) {docs : List Document}
    (hdocs : ∀ e ∈ s.sources ids, ∀ doc ∈ e.reader.liveDocuments, doc ∈ docs) {doc : Document}
    (hdoc : doc ∈ SegmentDirs.live s.dirs) :
    doc ∈ SegmentDirs.live (s.installed ids docs).dirs := by
  obtain ⟨id, dir, hlook, hlive⟩ := SegmentDirs.mem_live.mp hdoc
  have hlookup := s.segments.lookup_installDirs s.dirs ids docs
  have hnext : (⟨s.segments.nextSegmentSeq⟩ : SegmentId) ∉ ids := fun hmem =>
    h.synced.next_notMem (h.mem_dirs (hids _ hmem))
  by_cases hid : id ∈ ids
  · obtain ⟨e, he, rfl⟩ := List.mem_map.mp (hids id hid)
    obtain ⟨docs', deleted, deletions, hreader, hlook', hsub⟩ := h.synced.onDisk e he
    obtain rfl : dir = SegmentDir.written docs' deletions := by
      rw [hlook, Option.some.injEq] at hlook'
      exact hlook'
    have hread : doc ∈ e.reader.liveDocuments := by
      have hsub' : (some deleted).getD ∅ ⊆ deletions.getD ∅ := hsub
      have hold := SegmentDir.mem_live_of_subset hsub' hlive
      rw [SegmentDir.live_of_open (openDir_written _ _)] at hold
      rw [hreader]
      exact hold
    refine SegmentDirs.mem_live.mpr ⟨⟨s.segments.nextSegmentSeq⟩, SegmentDir.written docs none,
      ?_, ?_⟩
    · show (s.segments.installDirs s.dirs ids docs).lookup _ = _
      rw [hlookup, if_neg hnext, if_pos rfl]
    · rw [SegmentDir.live_written_none]
      exact hdocs e (List.mem_filter.mpr ⟨he, by simpa using hid⟩) doc hread
  · have hne : id ≠ ⟨s.segments.nextSegmentSeq⟩ := by
      rintro rfl
      exact h.synced.next_notMem (mem_iff_lookup.mpr ⟨dir, hlook⟩)
    refine SegmentDirs.mem_live.mpr ⟨id, dir, ?_, hlive⟩
    show (s.segments.installDirs s.dirs ids docs).lookup _ = _
    rw [hlookup, if_neg hid, if_neg hne, hlook]

/-- What `index` and `flush` do to the state: no deletion, no restart. -/
def OnlyAdds : IoChange → Prop
  | .done (.accept _) | .done .drop | .done .flush | .done (.merge _) => True
  | .done _ => False
  | _ => True

/-- **A document that is kept stays kept**, whatever fails. -/
theorem Kept.afterIo {s : ShardEngine} {doc : Document} (hkept : s.Kept doc) (h : Inv s)
    {c : IoChange} (hc : s.IoEnabled c) (honly : OnlyAdds c) : (s.ioChange c).Kept doc := by
  cases c with
  | done c =>
    cases c with
    | accept docs => exact ⟨hkept.shown, hkept.onDisk⟩
    | drop => exact ⟨hkept.shown, hkept.onDisk⟩
    | flush =>
      have hnone : ∀ id ∈ ([] : List SegmentId), id ∈ s.drained.openIds := by simp
      refine ⟨?_, h.drained.mem_live_installed hnone (by simp [sources]) hkept.onDisk⟩
      have hshown : doc ∈ (↑s.segments.liveDocuments : Multiset Document)
          + ↑s.writeBuffer.docs := Multiset.mem_add.mpr (Or.inl hkept.shown)
      rw [← coe_liveDocuments_flushed] at hshown
      exact hshown
    | merge ids =>
      refine ⟨?_, h.mem_live_installed hc ?_ hkept.onDisk⟩
      · have hshown : doc ∈ (↑s.segments.liveDocuments : Multiset Document) := hkept.shown
        rw [← s.coe_liveDocuments_merged ids] at hshown
        exact hshown
      · intro e he d hd
        rw [mergedDocs_eq]
        exact List.mem_flatMap.mpr ⟨e, he, hd⟩
    | delete docId => exact absurd honly id
    | refresh => exact absurd honly id
    | reindex => exact absurd honly id
    | reopen => exact absurd honly id
  | drain => exact ⟨hkept.shown, hkept.onDisk⟩
  | attempt io docs => exact ⟨hkept.shown, mem_live_attempted h io docs hkept.onDisk⟩

theorem Kept.runIoChanges {s : ShardEngine} {doc : Document} (hkept : s.Kept doc) (h : Inv s)
    {cs : List IoChange} (hcs : LabelledRun.Along ioChange IoEnabled s cs)
    (honly : ∀ c ∈ cs, OnlyAdds c) : (LabelledRun.run ioChange s cs).Kept doc := by
  have halong := LabelledRun.Along.and cs s hcs (LabelledRun.along_of_forall cs s honly)
  exact (LabelledRun.Along.inv (I := fun s => Inv s ∧ s.Kept doc)
    (fun _ _ hs hc => ⟨hs.1.afterIo hc.1, hs.2.afterIo hs.1 hc.1 hc.2⟩) cs s halong
    ⟨h, hkept⟩).2

theorem segments_foldl_replay : ∀ (entries : List WalEntry) {s : ShardEngine}, Inv s →
    (entries.foldl replay s).segments.segments = s.segments.segments
  | [], _, _ => rfl
  | entry :: entries, s, h => by
    rw [List.foldl_cons, segments_foldl_replay entries (h.replay entry)]
    cases entry with
    | index doc => rfl
    | delete docId => exact h.synced.segments_markDeleted docId

/-- A restart shows what is kept. -/
theorem Kept.reopened {s : ShardEngine} {doc : Document} (hkept : s.Kept doc) (h : Inv s) :
    doc ∈ s.reopened.visible := by
  have hsegments : s.reopened.segments.segments = (SegmentList.openDirs s.dirs).segments :=
    segments_foldl_replay _ (inv_beforeReplay h.intact)
  have hlive : doc ∈ (↑(SegmentList.openDirs s.dirs).liveDocuments : Multiset Document) := by
    rw [SegmentList.coe_liveDocuments_openDirs]
    exact hkept.onDisk
  refine Multiset.mem_add.mpr (Or.inl ?_)
  rw [SegmentList.liveDocuments, hsegments]
  exact hlive

theorem Kept.visible {s : ShardEngine} {doc : Document} (hkept : s.Kept doc) :
    doc ∈ s.visible :=
  Multiset.mem_add.mpr (Or.inl hkept.shown)

/-- The buffered documents, deleted or not, are kept by a flush. -/
theorem kept_flushed {s : ShardEngine} (h : Inv s) {doc : Document}
    (hdoc : doc ∈ s.writeBuffer.docs) : s.flushed.Kept doc := by
  refine ⟨?_, ?_⟩
  · have hshown : doc ∈ (↑s.segments.liveDocuments : Multiset Document)
        + ↑s.writeBuffer.docs := Multiset.mem_add.mpr (Or.inr hdoc)
    rw [← coe_liveDocuments_flushed] at hshown
    exact hshown
  · show doc ∈ SegmentDirs.live (s.segments.installDirs s.dirs [] s.writeBuffer.docs)
    rw [SegmentDirs.live, h.synced.total_installDirs (by simp), SegmentDir.live_written_none]
    exact Multiset.mem_add.mpr (Or.inl hdoc)

/-! ## 5. A flush that fails -/

/-- `index` and `index_batch`. -/
def Op.Indexes : Op → Prop
  | .index _ | .indexBatch _ => True
  | _ => False

/-- The operations that flush: `flush` itself, and `index` and `index_batch` once the buffer is
full. -/
def Op.Flushes : Op → Prop
  | .flush => True
  | op => op.Indexes

theorem onlyAdds_mergeIoChanges (s : ShardEngine) (io : SegmentIo)
    (groups : List (List SegmentId)) : ∀ c ∈ s.mergeIoChanges io groups, OnlyAdds c := by
  intro c hc
  rw [mergeIoChanges] at hc
  split at hc
  · obtain ⟨group, -, rfl⟩ := List.mem_map.mp hc
    trivial
  · obtain ⟨group, -, rfl⟩ := List.mem_map.mp hc
    trivial

theorem onlyAdds_flushIoChanges (s : ShardEngine) (io : CallIo) :
    ∀ c ∈ s.flushIoChanges io, OnlyAdds c := by
  intro c hc
  rw [flushIoChanges] at hc
  split at hc
  · obtain rfl := List.mem_singleton.mp hc
    trivial
  · split at hc
    · rcases List.mem_cons.mp hc with rfl | hc
      · trivial
      · exact onlyAdds_mergeIoChanges _ _ _ c hc
    · rcases List.mem_cons.mp hc with rfl | hc
      · trivial
      · obtain rfl := List.mem_singleton.mp hc
        trivial

theorem onlyAdds_acceptIoChanges (s : ShardEngine) (io : CallIo) (docs : List Document) :
    ∀ c ∈ s.acceptIoChanges io docs, OnlyAdds c := by
  intro c hc
  rcases List.mem_cons.mp hc with rfl | hc
  · trivial
  · split at hc
    · exact onlyAdds_flushIoChanges _ io c hc
    · cases hc

/-- **Index calls and flushes keep what is kept**, whatever fails. -/
theorem Kept.execIo {s : ShardEngine} {doc : Document} (hkept : s.Kept doc) (h : Inv s)
    (io : CallIo) {op : Op} (hop : op.Flushes) : (execIo io op s).2.Kept doc := by
  rw [execIo_eq h]
  refine hkept.runIoChanges h (along_ioChanges s io op) ?_
  cases op with
  | index d => exact onlyAdds_acceptIoChanges s io [d]
  | indexBatch docs => exact onlyAdds_acceptIoChanges s io docs
  | flush => exact onlyAdds_flushIoChanges s io
  | delete _ | search _ | runMerge _ | reindexSelf | reopen => exact absurd hop id

theorem Op.Indexes.flushes {op : Op} (h : op.Indexes) : op.Flushes := by
  cases op with
  | flush => trivial
  | _ => exact h

theorem Kept.runStepIo {s : ShardEngine} {doc : Document} (hkept : s.Kept doc) (h : Inv s)
    {later : List (CallIo × Op)} (hlater : ∀ call ∈ later, call.2.Indexes) :
    Inv (LabelledRun.run stepIo s later) ∧ (LabelledRun.run stepIo s later).Kept doc :=
  LabelledRun.Along.inv (I := fun s => Inv s ∧ s.Kept doc)
    (fun _ call hs hc => ⟨hs.1.execIo call.1 call.2, hs.2.execIo hs.1 call.1 hc.flushes⟩) later s
    (LabelledRun.along_of_forall (Q := fun call : CallIo × Op => call.2.Indexes) later s hlater)
    ⟨h, hkept⟩

/-- Nothing that `s` shows is lost in `s'`: it is shown there, and shown again after any index
calls, a flush that succeeds and a restart. -/
structure LosesNothing (s s' : ShardEngine) : Prop where
  searchable : ∀ doc ∈ s.visible, doc ∈ s'.visible
  durable : ∀ (later : List (CallIo × Op)) (io : CallIo), (∀ call ∈ later, call.2.Indexes) →
    (flushIo io (LabelledRun.run stepIo s' later)).1 = .ok () →
    ∀ doc ∈ s.visible,
      doc ∈ (flushIo io (LabelledRun.run stepIo s' later)).2.reopened.visible

theorem losesNothing_of_kept {s s' : ShardEngine} (h : Inv s')
    (hkept : ∀ doc ∈ s.visible, s'.Kept doc) : LosesNothing s s' where
  searchable := fun doc hdoc => (hkept doc hdoc).visible
  durable := by
    intro later io hlater _ doc hdoc
    obtain ⟨hinv, hrun⟩ := (hkept doc hdoc).runStepIo h hlater
    have hflush : (execIo io .flush (LabelledRun.run stepIo s' later)).2.Kept doc :=
      hrun.execIo hinv io trivial
    exact hflush.reopened (hinv.execIo io .flush)

/-- A call that fails has failed in its `flush`, on a buffer with the documents there were. -/
theorem flushFails_of_error {s : ShardEngine} (h : Inv s) {io : CallIo} {op : Op}
    (hop : op.Flushes) (herr : (execIo io op s).1 = .error .io) :
    ∃ t : ShardEngine, Inv t ∧ t.segments = s.segments ∧ t.dirs = s.dirs ∧
      (∀ doc ∈ s.writeBuffer.allDocs, doc ∈ t.writeBuffer.docs) ∧ t.FlushFails io ∧
      (execIo io op s).2 = LabelledRun.run ioChange t (t.flushIoChanges io) := by
  have hbatch : ∀ docs, (indexBatchIo io docs s).1 = .error .io →
      ∃ t : ShardEngine, Inv t ∧ t.segments = s.segments ∧ t.dirs = s.dirs ∧
        (∀ doc ∈ s.writeBuffer.allDocs, doc ∈ t.writeBuffer.docs) ∧ t.FlushFails io ∧
        (indexBatchIo io docs s).2 = LabelledRun.run ioChange t (t.flushIoChanges io) := by
    intro docs herr
    rw [indexBatchIo_eq h] at herr ⊢
    split at herr
    · next hfails =>
      refine ⟨s.accepted docs, h.accepted docs, rfl, rfl, ?_, hfails.2, ?_⟩
      · intro doc hdoc
        show doc ∈ (s.writeBuffer.addAll docs).2.docs
        rw [WriteBuffer.addAll_docs]
        exact List.mem_append_left _ (List.mem_of_mem_filter hdoc)
      · rw [acceptIoChanges, if_pos hfails.1]
        rfl
    · cases herr
  cases op with
  | index doc => exact hbatch [doc] herr
  | indexBatch docs => exact hbatch docs herr
  | flush =>
    refine ⟨s, h, rfl, rfl, fun doc hdoc => List.mem_of_mem_filter hdoc, ?_, ?_⟩
    · by_contra hnot
      rw [execIo, flushIo_eq h, if_neg hnot] at herr
      cases herr
    · rw [execIo, flushIo_eq h]
  | delete _ | search _ | runMerge _ | reindexSelf | reopen => exact absurd hop id

/-- A flush that fails on its own segment leaves an empty buffer and the segments there were. -/
theorem visible_flush_fails {t : ShardEngine} {io : CallIo} (hfails : t.FlushFails io)
    (hio : io.flush ≠ .ok) :
    (LabelledRun.run ioChange t (t.flushIoChanges io)).visible = ↑t.segments.liveDocuments := by
  have hdocs : ¬ t.writeBuffer.docs.isEmpty = true := by
    simpa using hfails.1
  rw [flushIoChanges, if_neg hdocs, if_neg hio]
  show (↑t.segments.liveDocuments : Multiset Document) + 0 = _
  rw [add_zero]

/-- A flush that fails on the segment of a merge has kept what was buffered. -/
theorem kept_of_merge_fails {t : ShardEngine} (h : Inv t) {io : CallIo} (hfails : t.FlushFails io)
    (hio : io.flush = .ok) {doc : Document} (hdoc : doc ∈ t.writeBuffer.docs) :
    (LabelledRun.run ioChange t (t.flushIoChanges io)).Kept doc := by
  have hdocs : ¬ t.writeBuffer.docs.isEmpty = true := by
    simpa using hfails.1
  have halong := along_flushIoChanges t io
  rw [flushIoChanges, if_neg hdocs, if_pos hio] at halong ⊢
  exact (kept_flushed h hdoc).runIoChanges h.flushed halong.2 (onlyAdds_mergeIoChanges _ _ _)

/-- **When a failed flush loses nothing.**  Take any run, calls that failed included, and a call
that fails because a segment could not be written or opened.  If nothing is lost, then either
the buffered documents were written (the fault is that of a merge), or the open segments show
every one of them too.  Conversely nothing is lost then, where no document the open segments
show has been deleted on disk. -/
theorem failed_flush_keeps (writeBufferSize : Nat) (searcher : MultiSegmentSearcher)
    (calls : List (CallIo × Op)) (io : CallIo) (op : Op) (hop : op.Flushes)
    (herr : (execIo io op (runIo writeBufferSize searcher calls)).1 = .error .io) :
    let s := runIo writeBufferSize searcher calls
    (LosesNothing s (execIo io op s).2 →
      io.flush = .ok ∨ ∀ doc ∈ s.writeBuffer.allDocs, doc ∈ s.segments.liveDocuments) ∧
    ((∀ doc ∈ s.segments.liveDocuments, doc ∈ SegmentDirs.live s.dirs) →
      (io.flush = .ok ∨ ∀ doc ∈ s.writeBuffer.allDocs, doc ∈ s.segments.liveDocuments) →
      LosesNothing s (execIo io op s).2) := by
  intro s
  have hinv : Inv s := inv_runIo writeBufferSize searcher calls
  obtain ⟨t, ht, hsegments, hdirs, hbuffer, hfails, hstate⟩ := flushFails_of_error hinv hop herr
  refine ⟨fun hnothing => ?_, fun hsettled hcond => ?_⟩
  · by_cases hio : io.flush = .ok
    · exact Or.inl hio
    · refine Or.inr (fun doc hdoc => ?_)
      have hshown := hnothing.searchable doc (Multiset.mem_add.mpr (Or.inr hdoc))
      rw [hstate, visible_flush_fails hfails hio, hsegments] at hshown
      exact hshown
  · refine losesNothing_of_kept (hinv.execIo io op) (fun doc hdoc => ?_)
    have hold : doc ∈ s.segments.liveDocuments → (execIo io op s).2.Kept doc := fun hlive =>
      Kept.execIo ⟨hlive, hsettled doc hlive⟩ hinv io hop
    rcases Multiset.mem_add.mp hdoc with hlive | hbuffered
    · exact hold hlive
    · rcases hcond with hio | hboth
      · rw [hstate]
        exact kept_of_merge_fails ht hfails hio (hbuffer doc hbuffered)
      · exact hold (hboth doc hbuffered)

/-- The document is in a segment and again in the buffer. -/
theorem failed_flush_keeps_twice :
    (execIo { flush := .writeFails 0 false } .flush (runIo 1000 .unscored
      [({}, .index (titled 1 "a")), ({}, .flush), ({}, .index (titled 1 "a"))])).1 = .error .io ∧
    LosesNothing (runIo 1000 .unscored
      [({}, .index (titled 1 "a")), ({}, .flush), ({}, .index (titled 1 "a"))])
      (execIo { flush := .writeFails 0 false } .flush (runIo 1000 .unscored
        [({}, .index (titled 1 "a")), ({}, .flush), ({}, .index (titled 1 "a"))])).2 :=
  ⟨by decide, (failed_flush_keeps 1000 .unscored
    [({}, .index (titled 1 "a")), ({}, .flush), ({}, .index (titled 1 "a"))]
    { flush := .writeFails 0 false } .flush trivial (by decide)).2 (by decide) (by decide)⟩

/-- One document in the buffer: it is gone from search, and after another index call, a flush
and a restart it is gone for good. -/
theorem failed_flush_loses :
    (execIo { flush := .writeFails 0 false } .flush
      (runIo 1000 .unscored [({}, .index (titled 1 "a"))])).1 = .error .io ∧
    ¬ LosesNothing (runIo 1000 .unscored [({}, .index (titled 1 "a"))])
      (execIo { flush := .writeFails 0 false } .flush
        (runIo 1000 .unscored [({}, .index (titled 1 "a"))])).2 ∧
    titled 1 "a" ∉ (runIo 1000 .unscored [({}, .index (titled 1 "a")),
      ({ flush := .writeFails 0 false }, .flush), ({}, .index (titled 2 "b")),
      ({}, .flush)]).reopened.visible := by
  refine ⟨by decide, fun hnothing => ?_, by decide⟩
  have hshown := hnothing.searchable (titled 1 "a") (by decide)
  revert hshown
  decide

end ShardEngine

end ZearchEngine
