/-
# Threads on one shard

Any number of threads call `index`, `index_batch` and `flush` on one shard.  A thread gives up
control between any two steps: each step is one critical section under one lock, or one file
operation.  `Pc` is where a thread is, with the local variables it still needs, and `cstep` lets
a thread begin a call or take its next step.  A thread that writes segment files under the read
lock of the segment list can be interrupted here by one that needs the write lock; there are
more interleavings than in the source, and none fewer.

The steps of a call that no other thread comes between are the method (`alone_flush`,
`alone_indexBatch`).
-/
import ZearchEngine.Change

namespace ZearchEngine

open KeyedStore

namespace Concurrent

/-! ## 1. Threads -/

/-- What a thread is writing a segment for. -/
inductive Job where
  | flush
  | merge (segmentIds : List SegmentId) (groups : List (List SegmentId))

/-- Where a thread is.  `call` are the documents its call of `index` or `index_batch` has
logged; a call of `flush` has none. -/
inductive Pc where
  | idle
  /-- Logged, not yet in the buffer. -/
  | appended (docs : List Document)
  /-- In `flush`, before the drain. -/
  | flushing (call : List Document)
  /-- The drained documents have no segment yet. -/
  | drained (call docs : List Document)
  /-- These operations are left of writing the segment. -/
  | writing (call : List Document) (job : Job) (segId : SegmentId) (docs : List Document)
      (left : List DirEffect)
  /-- The segment is written and open. -/
  | opened (call : List Document) (job : Job) (segId : SegmentId) (reader : SegmentReader)
  /-- The flushed segment is in the list; the log is next. -/
  | registered (call : List Document)
  /-- The log is empty; `maybe_merge` is next. -/
  | truncated (call : List Document)
  /-- In the loop of `maybe_merge`. -/
  | merging (call : List Document) (groups : List (List SegmentId))
  /-- In `run_merge`, with the id of the new segment. -/
  | numbered (call : List Document) (segId : SegmentId) (segmentIds : List SegmentId)
      (groups : List (List SegmentId))
  /-- These operations are left of removing the old directories. -/
  | removing (call : List Document) (left : List DirEffect) (groups : List (List SegmentId))

/-- A shard with its threads, and the documents of the calls that have returned `Ok`. -/
structure Running where
  engine : ShardEngine
  threads : Nat → Pc
  acked : List Document

/-- The operations that remove the directories, where `names` says in which order a directory
lists its files. -/
def removeDirs (names : SegmentId → List SegmentFileName) (segmentIds : List SegmentId) :
    List DirEffect :=
  segmentIds.flatMap (fun id => SegmentDirs.removeDirAll id (names id))

/-- The next step of a thread: the engine, the thread, and the documents it acknowledges. -/
def advance (names : SegmentId → List SegmentFileName) (s : ShardEngine) :
    Pc → ShardEngine × Pc × List Document
  | .idle => (s, .idle, [])
  | .appended docs =>
    let (full, writeBuffer) := s.writeBuffer.addAll docs
    if full then ({ s with writeBuffer }, .flushing docs, [])
    else ({ s with writeBuffer }, .idle, docs)
  | .flushing call =>
    let ((docs, _), writeBuffer) := s.writeBuffer.drain
    if docs.isEmpty then ({ s with writeBuffer }, .idle, call)
    else ({ s with writeBuffer }, .drained call docs, [])
  | .drained call docs =>
    let (segId, segments) := s.segments.nextSegmentId
    ({ s with segments }, .writing call .flush segId docs (SegmentDirs.writeSegment segId docs), [])
  | .writing call job segId docs (e :: left) =>
    ({ s with dirs := s.dirs.apply e }, .writing call job segId docs left, [])
  | .writing call job segId _ [] =>
    match s.dirs.lookup segId >>= SegmentReader.openDir with
    | some reader => (s, .opened call job segId reader, [])
    | none => (s, .idle, [])
  | .opened call .flush segId reader =>
    ({ s with segments := s.segments.addSegment ⟨segId, reader⟩ }, .registered call, [])
  | .opened call (.merge segmentIds groups) segId reader =>
    ({ s with segments := s.segments.replaceSegments segmentIds ⟨segId, reader⟩ },
      .removing call (removeDirs names segmentIds) groups, [])
  | .registered call => ({ s with wal := s.wal.truncate }, .truncated call, [])
  | .truncated call => (s, .merging call (s.mergePolicy.findMerges s.segments.segments), [])
  | .merging call [] => (s, .idle, call)
  | .merging call (segmentIds :: groups) =>
    let (segId, segments) := s.segments.nextSegmentId
    ({ s with segments }, .numbered call segId segmentIds groups, [])
  | .numbered call segId segmentIds groups =>
    let docs := MergeScheduler.mergedDocs (s.sources segmentIds)
    (s, .writing call (.merge segmentIds groups) segId docs
      (SegmentDirs.writeSegment segId docs), [])
  | .removing call (e :: left) groups =>
    ({ s with dirs := s.dirs.apply e }, .removing call left groups, [])
  | .removing call [] groups => (s, .merging call groups, [])

/-- The scheduler's choice: a thread begins a call, or takes its next step. -/
inductive Action where
  | index (thread : Nat) (docs : List Document)
  | flush (thread : Nat)
  | step (thread : Nat)

/-- The shard after an action.  A thread that is in a call does not begin another. -/
def cstep (names : SegmentId → List SegmentFileName) (c : Running) : Action → Running
  | .index t docs =>
    match c.threads t with
    | .idle =>
      { c with
        engine := { c.engine with wal := (c.engine.wal.appendBatch (docs.map .index)).2 }
        threads := Function.update c.threads t (.appended docs) }
    | _ => c
  | .flush t =>
    match c.threads t with
    | .idle => { c with threads := Function.update c.threads t (.flushing []) }
    | _ => c
  | .step t =>
    let (engine, pc, acked) := advance names c.engine (c.threads t)
    { engine, threads := Function.update c.threads t pc, acked := c.acked ++ acked }

/-- A new shard that no thread uses. -/
def Running.new (writeBufferSize : Nat) (searcher : MultiSegmentSearcher) : Running where
  engine := ShardEngine.openDisk writeBufferSize searcher Disk.empty
  threads := fun _ => .idle
  acked := []

/-- The shard after a run of actions on a new one. -/
def runNew (names : SegmentId → List SegmentFileName) (writeBufferSize : Nat)
    (searcher : MultiSegmentSearcher) (actions : List Action) : Running :=
  LabelledRun.run (cstep names) (Running.new writeBufferSize searcher) actions

/-! ## 2. Crashes -/

/-- The file operation a thread is about to carry out. -/
def Pc.nextEffect : Pc → Option DirEffect
  | .writing _ _ _ _ (e :: _) => some e
  | .removing _ (e :: _) _ => some e
  | _ => none

/-- A thread dies in the middle of its next file operation. -/
def tearNext (threads : Nat → Pc) (dirs : SegmentDirs) (t : Nat) : SegmentDirs :=
  match (threads t).nextEffect with
  | some e => dirs.tear e
  | none => dirs

/-- What the process leaves when it dies: the documents of an append that has got as far as
`extra` are in the log, and the threads of `torn` are in the middle of a file operation. -/
def Running.crash (c : Running) (extra : List Document) (torn : List Nat) : Disk where
  wal := (c.engine.wal.appendBatch (extra.map .index)).2.records
  segments := torn.foldl (tearNext c.threads) c.engine.dirs

/-! ## 3. A thread on its own -/

/-- The shard with one thread at `pc`. -/
def Running.set (c : Running) (t : Nat) (s : ShardEngine) (pc : Pc) (acked : List Document) :
    Running where
  engine := s
  threads := Function.update c.threads t pc
  acked := acked

/-- The thread takes some steps, and no other does. -/
def Alone (names : SegmentId → List SegmentFileName) (t : Nat) (c c' : Running) : Prop :=
  ∃ n, c' = LabelledRun.run (cstep names) c (List.replicate n (.step t))

/-- Removing directories one by one. -/
theorem foldl_removeDirs (names : SegmentId → List SegmentFileName) :
    ∀ (ids : List SegmentId) (dirs : SegmentDirs),
    (removeDirs names ids).foldl SegmentDirs.apply dirs = eraseAll ids dirs := by
  intro ids
  induction ids with
  | nil => exact fun _ => rfl
  | cons id ids ih =>
    intro dirs
    have hsplit : removeDirs names (id :: ids)
        = SegmentDirs.removeDirAll id (names id) ++ removeDirs names ids := rfl
    rw [hsplit, List.foldl_append, SegmentDirs.foldl_removeDirAll, ih]
    rfl

section

variable {names : SegmentId → List SegmentFileName} {t : Nat} {c : Running}

theorem Alone.refl (c : Running) : Alone names t c c := ⟨0, rfl⟩

theorem Alone.trans {a b c : Running} (hab : Alone names t a b) (hbc : Alone names t b c) :
    Alone names t a c := by
  obtain ⟨m, rfl⟩ := hab
  obtain ⟨n, rfl⟩ := hbc
  exact ⟨m + n, by rw [List.replicate_add, LabelledRun.run_append]⟩

/-- One step. -/
theorem Alone.next {s s' : ShardEngine} {pc pc' : Pc} {acked done : List Document}
    (h : advance names s pc = (s', pc', done)) :
    Alone names t (c.set t s pc acked) (c.set t s' pc' (acked ++ done)) := by
  refine ⟨1, ?_⟩
  simp only [List.replicate_one, LabelledRun.run_cons, LabelledRun.run_nil, cstep, Running.set,
    Function.update_self, h, Function.update_idem]

/-- One step that acknowledges nothing. -/
theorem Alone.quiet {s s' : ShardEngine} {pc pc' : Pc} {acked : List Document}
    (h : advance names s pc = (s', pc', [])) :
    Alone names t (c.set t s pc acked) (c.set t s' pc' acked) := by
  have hnext : Alone names t (c.set t s pc acked) (c.set t s' pc' (acked ++ [])) := Alone.next h
  rwa [List.append_nil] at hnext

end

section

variable (names : SegmentId → List SegmentFileName) (t : Nat) (c : Running) (call : List Document)

/-- Writing what is left of a segment. -/
theorem alone_write (job : Job) (segId : SegmentId) (docs acked : List Document) :
    ∀ (left : List DirEffect) (s : ShardEngine),
    Alone names t (c.set t s (.writing call job segId docs left) acked)
      (c.set t { s with dirs := left.foldl SegmentDirs.apply s.dirs }
        (.writing call job segId docs []) acked) := by
  intro left
  induction left with
  | nil => exact fun _ => Alone.refl _
  | cons e left ih =>
    intro s
    exact (Alone.quiet rfl).trans (ih { s with dirs := s.dirs.apply e })

/-- Removing what is left of the old directories. -/
theorem alone_remove (groups : List (List SegmentId)) (acked : List Document) :
    ∀ (left : List DirEffect) (s : ShardEngine),
    Alone names t (c.set t s (.removing call left groups) acked)
      (c.set t { s with dirs := left.foldl SegmentDirs.apply s.dirs } (.merging call groups)
        acked) := by
  intro left
  induction left with
  | nil => exact fun _ => Alone.quiet rfl
  | cons e left ih =>
    intro s
    exact (Alone.quiet rfl).trans (ih { s with dirs := s.dirs.apply e })

/-- Writing a whole segment under the next id, and opening it. -/
theorem alone_open {s : ShardEngine} (h : Synced s.segments s.dirs) (job : Job)
    (docs acked : List Document) :
    Alone names t
      (c.set t { s with segments := s.segments.nextSegmentId.2 }
        (.writing call job s.segments.nextSegmentId.1 docs
          (SegmentDirs.writeSegment s.segments.nextSegmentId.1 docs)) acked)
      (c.set t
        { s with
          segments := s.segments.nextSegmentId.2
          dirs := s.dirs.insert s.segments.nextSegmentId.1 (SegmentDir.written docs none) }
        (.opened call job s.segments.nextSegmentId.1 (SegmentReader.ofDocs docs ∅)) acked) := by
  have hwrite := alone_write names t c call job s.segments.nextSegmentId.1 docs acked
    (SegmentDirs.writeSegment s.segments.nextSegmentId.1 docs)
    { s with segments := s.segments.nextSegmentId.2 }
  have hdirs : (SegmentDirs.writeSegment s.segments.nextSegmentId.1 docs).foldl SegmentDirs.apply
      s.dirs = s.dirs.insert s.segments.nextSegmentId.1 (SegmentDir.written docs none) :=
    SegmentDirs.foldl_writeSegment h.next_notMem docs
  simp only [hdirs] at hwrite
  refine hwrite.trans (Alone.quiet ?_)
  simp only [advance, AList.lookup_insert, Option.bind_eq_bind, Option.bind_some,
    openDir_written, Option.getD_none]

/-- One turn of the loop of `maybe_merge` is a merge. -/
theorem alone_merge {s : ShardEngine} (h : Synced s.segments s.dirs)
    (segmentIds : List SegmentId) (groups : List (List SegmentId)) (acked : List Document) :
    Alone names t (c.set t s (.merging call (segmentIds :: groups)) acked)
      (c.set t (s.merged segmentIds) (.merging call groups) acked) := by
  have hnumber : Alone names t (c.set t s (.merging call (segmentIds :: groups)) acked)
      (c.set t { s with segments := s.segments.nextSegmentId.2 }
        (.numbered call s.segments.nextSegmentId.1 segmentIds groups) acked) := Alone.quiet rfl
  have hcollect : Alone names t
      (c.set t { s with segments := s.segments.nextSegmentId.2 }
        (.numbered call s.segments.nextSegmentId.1 segmentIds groups) acked)
      (c.set t { s with segments := s.segments.nextSegmentId.2 }
        (.writing call (.merge segmentIds groups) s.segments.nextSegmentId.1
          (MergeScheduler.mergedDocs (s.sources segmentIds))
          (SegmentDirs.writeSegment s.segments.nextSegmentId.1
            (MergeScheduler.mergedDocs (s.sources segmentIds)))) acked) := Alone.quiet rfl
  have hopen := alone_open names t c call h (.merge segmentIds groups)
    (MergeScheduler.mergedDocs (s.sources segmentIds)) acked
  refine (hnumber.trans hcollect).trans (hopen.trans ((Alone.quiet rfl).trans ?_))
  have hremove := alone_remove names t c call groups acked (removeDirs names segmentIds)
    { s with
      segments := SegmentList.replaceSegments s.segments.nextSegmentId.2 segmentIds
        ⟨s.segments.nextSegmentId.1,
          SegmentReader.ofDocs (MergeScheduler.mergedDocs (s.sources segmentIds)) ∅⟩
      dirs := s.dirs.insert s.segments.nextSegmentId.1
        (SegmentDir.written (MergeScheduler.mergedDocs (s.sources segmentIds)) none) }
  rw [foldl_removeDirs] at hremove
  exact hremove

/-- The loop of `maybe_merge`, which has at most one group. -/
theorem alone_merges {s : ShardEngine} (h : Synced s.segments s.dirs) (acked : List Document) :
    ∀ groups : List (List SegmentId), groups.length ≤ 1 →
    Alone names t (c.set t s (.merging call groups) acked)
      (c.set t (LabelledRun.run ShardEngine.change s (groups.map .merge)) .idle (acked ++ call))
  | [], _ => Alone.next rfl
  | [segmentIds], _ => (alone_merge names t c call h segmentIds [] acked).trans (Alone.next rfl)
  | _ :: _ :: _, hlen => by simp at hlen

/-- **A flush that no other thread comes between is `flush`.** -/
theorem alone_flush {s : ShardEngine} (h : ShardEngine.Inv s) (acked : List Document) :
    Alone names t (c.set t s (.flushing call) acked)
      (c.set t (ShardEngine.flush s).2 .idle (acked ++ call)) := by
  rw [ShardEngine.flush_eq h, ShardEngine.flushChanges]
  by_cases hempty : s.writeBuffer.docs.isEmpty = true
  · rw [if_pos hempty]
    exact Alone.next (by simp only [advance, WriteBuffer.drain, hempty, if_true]; rfl)
  · rw [if_neg hempty]
    have hdrain : Alone names t (c.set t s (.flushing call) acked)
        (c.set t s.drained (.drained call s.writeBuffer.docs) acked) :=
      Alone.quiet (by simp only [advance, WriteBuffer.drain, hempty]; rfl)
    have hnumber : Alone names t (c.set t s.drained (.drained call s.writeBuffer.docs) acked)
        (c.set t { s.drained with segments := s.segments.nextSegmentId.2 }
          (.writing call .flush s.segments.nextSegmentId.1 s.writeBuffer.docs
            (SegmentDirs.writeSegment s.segments.nextSegmentId.1 s.writeBuffer.docs)) acked) :=
      Alone.quiet rfl
    have hopen := alone_open names t c call h.drained.synced .flush s.writeBuffer.docs acked
    have hregister : Alone names t
        (c.set t
          { s.drained with
            segments := s.segments.nextSegmentId.2
            dirs := s.dirs.insert s.segments.nextSegmentId.1
              (SegmentDir.written s.writeBuffer.docs none) }
          (.opened call .flush s.segments.nextSegmentId.1
            (SegmentReader.ofDocs s.writeBuffer.docs ∅)) acked)
        (c.set t (s.drained.installed [] s.writeBuffer.docs) (.registered call) acked) :=
      Alone.quiet (by simp only [advance, SegmentList.addSegment_eq]; rfl)
    have htruncate : Alone names t
        (c.set t (s.drained.installed [] s.writeBuffer.docs) (.registered call) acked)
        (c.set t s.flushed (.truncated call) acked) := Alone.quiet rfl
    have hplan : Alone names t (c.set t s.flushed (.truncated call) acked)
        (c.set t s.flushed
          (.merging call (s.mergePolicy.findMerges s.flushed.segments.segments)) acked) :=
      Alone.quiet rfl
    have hmerges := alone_merges names t c call h.flushed.synced acked
      (s.mergePolicy.findMerges s.flushed.segments.segments)
      (ShardEngine.length_findMerges_le _ _)
    exact (hdrain.trans hnumber).trans (hopen.trans (hregister.trans (htruncate.trans
      (hplan.trans hmerges))))

/-- **A call that no other thread comes between is the method.**  From an idle thread,
`index_batch` runs to the state the method computes and acknowledges its documents. -/
theorem alone_indexBatch (hidle : c.threads t = .idle) (h : ShardEngine.Inv c.engine)
    (docs : List Document) :
    Alone names t (cstep names c (.index t docs))
      (c.set t (ShardEngine.indexBatch docs c.engine).2 .idle (c.acked ++ docs)) := by
  have hbegin : cstep names c (.index t docs)
      = c.set t { c.engine with wal := (c.engine.wal.appendBatch (docs.map .index)).2 }
          (.appended docs) c.acked := by
    simp only [cstep, hidle, Running.set]
  rw [hbegin, ShardEngine.indexBatch_eq h, ShardEngine.acceptChanges]
  by_cases hfull : (c.engine.writeBuffer.addAll docs).1 = true
  · have hadd : Alone names t
        (c.set t { c.engine with wal := (c.engine.wal.appendBatch (docs.map .index)).2 }
          (.appended docs) c.acked)
        (c.set t (c.engine.accepted docs) (.flushing docs) c.acked) :=
      Alone.quiet (by simp only [advance, hfull, if_true]; rfl)
    have hflush := alone_flush names t c docs (h.accepted docs) c.acked
    rw [ShardEngine.flush_eq (h.accepted docs)] at hflush
    rw [if_pos hfull]
    exact hadd.trans hflush
  · rw [if_neg hfull]
    exact Alone.next (by simp only [advance, hfull]; rfl)

end

end Concurrent

end ZearchEngine
