/-
# What an operation does

Every operation of the engine is a sequence of *changes*: documents are accepted into log and
buffer, the buffer becomes a segment, segments are merged, and so on.  `change` gives each
change as a function of the state, `changes` the changes of an operation, and `exec_eq` says
that in a state where list and directory are in step (`Inv`) the operation succeeds and is
exactly its changes.  What every change preserves therefore holds after every run; no later
proof goes through the code of an operation again.
-/
import ZearchEngine.Shard
import ZearchEngine.Sync

namespace ZearchEngine

open KeyedStore

namespace ShardEngine

/-! ## 1. Changes -/

/-- The ids of the open segments. -/
def openIds (s : ShardEngine) : List SegmentId := s.segments.segments.map SegmentEntry.segmentId

/-- Documents go to the log and into the buffer. -/
def accepted (s : ShardEngine) (docs : List Document) : ShardEngine :=
  { s with
    wal := (s.wal.appendBatch (docs.map .index)).2
    writeBuffer := (s.writeBuffer.addAll docs).2 }

/-- An id is logged as deleted, and deleted in the buffer and on disk. -/
def deleted (s : ShardEngine) (docId : DocId) : ShardEngine :=
  { s with
    wal := (s.wal.appendBatch [.delete docId]).2
    writeBuffer := s.writeBuffer.markDeleted docId
    segments := (s.segments.markDeleted s.dirs docId).2.1
    dirs := (s.segments.markDeleted s.dirs docId).2.2 }

/-- The buffer's temporary segment is brought up to date. -/
def refreshed (s : ShardEngine) : ShardEngine := { s with writeBuffer := s.writeBuffer.refreshed }

/-- The buffer is emptied. -/
def drained (s : ShardEngine) : ShardEngine := { s with writeBuffer := s.writeBuffer.drain.2 }

/-- A new segment takes the place of old ones, in memory and on disk. -/
def installed (s : ShardEngine) (oldIds : List SegmentId) (docs : List Document) : ShardEngine :=
  { s with
    segments := s.segments.install oldIds docs
    dirs := s.segments.installDirs s.dirs oldIds docs }

/-- The buffered documents become a segment and the log is emptied. -/
def flushed (s : ShardEngine) : ShardEngine :=
  { s.drained.installed [] s.writeBuffer.docs with wal := s.wal.truncate }

/-- Segments are merged into one. -/
def merged (s : ShardEngine) (segmentIds : List SegmentId) : ShardEngine :=
  s.installed segmentIds (MergeScheduler.mergedDocs (s.sources segmentIds))

/-- All segments are rewritten as one and the log is emptied. -/
def reindexed (s : ShardEngine) : ShardEngine :=
  { s.installed s.openIds s.segments.liveDocuments with wal := s.wal.truncate }

/-- The shard is closed and opened again. -/
def reopened (s : ShardEngine) : ShardEngine :=
  openDisk s.writeBuffer.capacityBytes s.searcher s.disk

/-- A change of the engine's state. -/
inductive Change where
  | accept (docs : List Document)
  | delete (docId : DocId)
  | refresh
  | drop
  | flush
  | merge (segmentIds : List SegmentId)
  | reindex
  | reopen

/-- The state after a change. -/
def change (s : ShardEngine) : Change → ShardEngine
  | .accept docs => s.accepted docs
  | .delete docId => s.deleted docId
  | .refresh => s.refreshed
  | .drop => s.drained
  | .flush => s.flushed
  | .merge segmentIds => s.merged segmentIds
  | .reindex => s.reindexed
  | .reopen => s.reopened

/-- When a change can happen. -/
def Enabled (s : ShardEngine) : Change → Prop
  | .drop => s.writeBuffer.docs = []
  | .merge segmentIds => ∀ id ∈ segmentIds, id ∈ s.openIds
  | .reindex => s.writeBuffer.docs = []
  | _ => True

/-- The changes of `flush`. -/
def flushChanges (s : ShardEngine) : List Change :=
  if s.writeBuffer.docs.isEmpty then [.drop]
  else .flush :: (s.mergePolicy.findMerges s.flushed.segments.segments).map .merge

/-- The changes of `index` and `index_batch`. -/
def acceptChanges (s : ShardEngine) (docs : List Document) : List Change :=
  .accept docs :: if (s.writeBuffer.addAll docs).1 then flushChanges (s.accepted docs) else []

/-- The changes of an operation. -/
def changes (s : ShardEngine) : Op → List Change
  | .index doc => s.acceptChanges [doc]
  | .indexBatch docs => s.acceptChanges docs
  | .delete docId => [.delete docId]
  | .search _ => [.refresh]
  | .flush => s.flushChanges
  | .runMerge segmentIds => if ∀ id ∈ segmentIds, id ∈ s.openIds then [.merge segmentIds] else []
  | .reindexSelf => s.flushChanges ++
      if (LabelledRun.run change s s.flushChanges).segments.liveDocuments.isEmpty then []
      else [.reindex]
  | .reopen => [.reopen]

/-- List and directory are in step, and the buffer's cache is sound. -/
structure Inv (s : ShardEngine) : Prop where
  synced : Synced s.segments s.dirs
  intact : Intact s.dirs
  coherent : s.writeBuffer.Coherent

/-! ## 2. Every change keeps the invariant -/

theorem Inv.accepted {s : ShardEngine} (h : Inv s) (docs : List Document) :
    Inv (s.accepted docs) where
  synced := h.synced
  intact := h.intact
  coherent := WriteBuffer.coherent_addAll h.coherent docs

theorem Inv.deleted {s : ShardEngine} (h : Inv s) (docId : DocId) : Inv (s.deleted docId) where
  synced := h.synced.markDeleted docId
  intact := h.intact.markDeleted h.synced docId
  coherent := WriteBuffer.coherent_of_dirty rfl

/-- The open segments go on showing what they showed. -/
theorem Inv.liveDocuments_deleted {s : ShardEngine} (h : Inv s) (docId : DocId) :
    (s.deleted docId).segments.liveDocuments = s.segments.liveDocuments :=
  congrArg (List.flatMap fun e : SegmentEntry => e.reader.liveDocuments)
    (h.synced.segments_markDeleted docId)

theorem Inv.refreshed {s : ShardEngine} (h : Inv s) : Inv s.refreshed where
  synced := h.synced
  intact := h.intact
  coherent := WriteBuffer.coherent_refreshed h.coherent

theorem Inv.drained {s : ShardEngine} (h : Inv s) : Inv s.drained where
  synced := h.synced
  intact := h.intact
  coherent := fun hne => absurd rfl hne

theorem Inv.mem_dirs {s : ShardEngine} (h : Inv s) {id : SegmentId} (hid : id ∈ s.openIds) :
    id ∈ s.dirs := by
  obtain ⟨e, he, rfl⟩ := List.mem_map.mp hid
  exact h.synced.mem_dirs he

theorem Inv.installed {s : ShardEngine} (h : Inv s) {oldIds : List SegmentId}
    (hold : ∀ id ∈ oldIds, id ∈ s.openIds) (docs : List Document) :
    Inv (s.installed oldIds docs) where
  synced := h.synced.install (fun id hid => h.mem_dirs (hold id hid)) docs
  intact := h.intact.install _ oldIds docs
  coherent := h.coherent

theorem Inv.flushed {s : ShardEngine} (h : Inv s) : Inv s.flushed := by
  have hnone : ∀ id ∈ ([] : List SegmentId), id ∈ s.drained.openIds := by simp
  have hinst := h.drained.installed hnone s.writeBuffer.docs
  exact ⟨hinst.synced, hinst.intact, hinst.coherent⟩

theorem Inv.reindexed {s : ShardEngine} (h : Inv s) : Inv s.reindexed := by
  have hopen : ∀ id ∈ s.openIds, id ∈ s.openIds := fun _ hid => hid
  have hinst := h.installed hopen s.segments.liveDocuments
  exact ⟨hinst.synced, hinst.intact, hinst.coherent⟩

/-- The replay of a log entry keeps the invariant: a deletion may find its document in a
segment and save the bit once more. -/
theorem Inv.replay {s : ShardEngine} (h : Inv s) (entry : WalEntry) : Inv (s.replay entry) := by
  cases entry with
  | index doc =>
    exact ⟨h.synced, h.intact, WriteBuffer.coherent_addAll h.coherent [doc]⟩
  | delete docId =>
    exact ⟨h.synced.markDeleted docId, h.intact.markDeleted h.synced docId,
      WriteBuffer.coherent_of_dirty rfl⟩

theorem inv_beforeReplay {writeBufferSize : Nat} {searcher : MultiSegmentSearcher} {d : Disk}
    (h : Intact d.segments) : Inv (beforeReplay writeBufferSize searcher d) where
  synced := h.synced
  intact := h
  coherent := WriteBuffer.coherent_new writeBufferSize

theorem Inv.foldl_replay : ∀ (entries : List WalEntry) {s : ShardEngine}, Inv s →
    Inv (entries.foldl ShardEngine.replay s) := by
  intro entries
  induction entries with
  | nil => exact fun h => h
  | cons entry entries ih =>
    intro s h
    exact ih (h.replay entry)

/-- **Opening a directory where whatever opens is whole** gives a state in step. -/
theorem inv_openDisk {writeBufferSize : Nat} {searcher : MultiSegmentSearcher} {d : Disk}
    (h : Intact d.segments) : Inv (openDisk writeBufferSize searcher d) :=
  Inv.foldl_replay _ (inv_beforeReplay h)

theorem Inv.reopened {s : ShardEngine} (h : Inv s) : Inv s.reopened :=
  inv_openDisk h.intact

theorem Inv.after {s : ShardEngine} (h : Inv s) {c : Change} (hc : s.Enabled c) :
    Inv (s.change c) := by
  cases c with
  | accept docs => exact h.accepted docs
  | delete docId => exact h.deleted docId
  | refresh => exact h.refreshed
  | drop => exact h.drained
  | flush => exact h.flushed
  | merge segmentIds => exact h.installed hc _
  | reindex => exact h.reindexed
  | reopen => exact h.reopened

/-! ## 3. Operations are their changes -/

/-- Writing a segment under an unused name and opening it. -/
theorem writeSegment_openSegment {β : Type} {s : ShardEngine} {id : SegmentId} (h : id ∉ s.dirs)
    (docs : List Document) (f : SegmentReader → ShardM β) :
    (do writeSegment id docs; let reader ← openSegment id; f reader) s
      = f (SegmentReader.ofDocs docs ∅)
          { s with dirs := s.dirs.insert id (SegmentDir.written docs none) } := by
  have hwrite : writeSegment id docs s
      = (.ok (), { s with dirs := s.dirs.insert id (SegmentDir.written docs none) }) := by
    rw [writeSegment, ShardM.step, SegmentDirs.foldl_writeSegment h]
  rw [ShardM.bind_ok hwrite]
  refine ShardM.bind_ok ?_
  simp only [openSegment, AList.lookup_insert, Option.bind_eq_bind, Option.bind_some,
    openDir_written, Option.getD_none]

/-- **`run_merge` is a merge.** -/
theorem runMerge_eq {s : ShardEngine} (h : Synced s.segments s.dirs)
    (segmentIds : List SegmentId) : runMerge segmentIds s = (.ok (), s.merged segmentIds) := by
  have hrun := writeSegment_openSegment
    (s := { s with segments := s.segments.nextSegmentId.2 }) h.next_notMem
    (MergeScheduler.mergedDocs (s.sources segmentIds))
    (fun reader => do
      replaceSegments segmentIds { segmentId := s.segments.nextSegmentId.1, reader }
      removeDirs segmentIds)
  rw [runMerge, nextSegmentId, ShardM.step_bind, read, ShardM.step_bind]
  exact hrun

theorem length_findMerges_le (policy : TieredMergePolicy) (segments : List SegmentEntry) :
    (policy.findMerges segments).length ≤ 1 := by
  unfold TieredMergePolicy.findMerges
  split
  · simp
  · simp only
    split <;> simp

/-- The groups of a `maybe_merge` are merged one after the other; there is at most one. -/
theorem runMerges_eq {s : ShardEngine} (h : Synced s.segments s.dirs) :
    ∀ groups : List (List SegmentId), groups.length ≤ 1 →
      runMerges groups s = (.ok (), LabelledRun.run change s (groups.map .merge))
  | [], _ => rfl
  | [group], _ => by
    rw [runMerges, ShardM.bind_ok (runMerge_eq h group)]
    rfl
  | _ :: _ :: _, hlen => by simp at hlen

theorem maybeMerge_eq {s : ShardEngine} (h : Synced s.segments s.dirs) :
    maybeMerge s = (.ok (), LabelledRun.run change s
      ((s.mergePolicy.findMerges s.segments.segments).map .merge)) :=
  runMerges_eq h _ (length_findMerges_le _ _)

theorem addSegment_eq (entry : SegmentEntry) : addSegment entry = replaceSegments [] entry := by
  funext s
  simp only [addSegment, replaceSegments, ShardM.step, SegmentList.addSegment_eq]

/-- Past the drain, `flush` is a branch on the drained documents. -/
theorem flush_apply (s : ShardEngine) :
    flush s = (if s.writeBuffer.docs.isEmpty then pure () else do
      let segId ← nextSegmentId
      writeSegment segId s.writeBuffer.docs
      let reader ← openSegment segId
      replaceSegments [] { segmentId := segId, reader }
      walTruncate
      maybeMerge : ShardM Unit) s.drained := by
  simp only [flush, addSegment_eq]
  rfl

/-- **`flush` is its changes.** -/
theorem flush_eq {s : ShardEngine} (h : Inv s) :
    flush s = (.ok (), LabelledRun.run change s s.flushChanges) := by
  rw [flush_apply, flushChanges]
  by_cases hdocs : s.writeBuffer.docs.isEmpty = true
  · rw [if_pos hdocs, if_pos hdocs]
    rfl
  · rw [if_neg hdocs, if_neg hdocs]
    have hrun := writeSegment_openSegment
      (s := { s.drained with segments := s.segments.nextSegmentId.2 }) h.synced.next_notMem
      s.writeBuffer.docs (fun reader => do
        replaceSegments [] { segmentId := s.segments.nextSegmentId.1, reader }
        walTruncate
        maybeMerge)
    have hmerge : maybeMerge s.flushed = (.ok (), LabelledRun.run change s.flushed
        ((s.mergePolicy.findMerges s.flushed.segments.segments).map .merge)) :=
      maybeMerge_eq h.flushed.synced
    rw [nextSegmentId, ShardM.step_bind]
    exact hrun.trans hmerge

/-- The changes of a flush can happen. -/
theorem along_flushChanges (s : ShardEngine) :
    LabelledRun.Along change Enabled s s.flushChanges := by
  have hmerges : ∀ groups : List (List SegmentId), groups.length ≤ 1 →
      (∀ group ∈ groups, ∀ id ∈ group, id ∈ s.flushed.openIds) →
      LabelledRun.Along change Enabled s.flushed (groups.map .merge)
    | [], _, _ => trivial
    | [group], _, hids => ⟨hids group List.mem_cons_self, trivial⟩
    | _ :: _ :: _, hlen, _ => by simp at hlen
  unfold flushChanges
  split
  · next hdocs => exact ⟨List.isEmpty_iff.mp hdocs, trivial⟩
  · refine ⟨trivial, hmerges _ (length_findMerges_le _ _) ?_⟩
    intro group hgroup id hid
    obtain ⟨e, he, rfl⟩ := mem_of_mem_findMerges hgroup hid
    exact List.mem_map_of_mem he

theorem Inv.run {s : ShardEngine} (h : Inv s) {cs : List Change}
    (hcs : LabelledRun.Along change Enabled s cs) : Inv (LabelledRun.run change s cs) :=
  LabelledRun.Along.inv (fun _ _ hs hc => hs.after hc) cs s hcs h

/-- A flush leaves the buffer empty. -/
theorem docs_run_flushChanges (s : ShardEngine) :
    (LabelledRun.run change s s.flushChanges).writeBuffer.docs = [] := by
  have hmerges : ∀ (groups : List (List SegmentId)) (t : ShardEngine), t.writeBuffer.docs = [] →
      (LabelledRun.run change t (groups.map .merge)).writeBuffer.docs = [] := by
    intro groups
    induction groups with
    | nil => exact fun t ht => ht
    | cons group groups ih => exact fun t ht => ih _ ht
  unfold flushChanges
  split
  · rfl
  · exact hmerges _ _ rfl

/-- **`index` and `index_batch` are their changes.** -/
theorem indexBatch_eq {s : ShardEngine} (h : Inv s) (docs : List Document) :
    indexBatch docs s = (.ok (), LabelledRun.run change s (s.acceptChanges docs)) := by
  have hbatch : indexBatch docs s
      = (if (s.writeBuffer.addAll docs).1 then flush else pure ()) (s.accepted docs) := rfl
  rw [hbatch, acceptChanges]
  split
  · exact flush_eq (h.accepted docs)
  · rfl

/-- **`delete` is its change**: marking the document deleted succeeds. -/
theorem delete_eq {s : ShardEngine} (h : Inv s) (docId : DocId) :
    delete docId s = (.ok (), s.deleted docId) := by
  obtain ⟨found, hfound⟩ := h.synced.markDeleted_ok docId
  have hdelete : delete docId s = (do
        let _found ← segmentsMarkDeleted docId
        pure () : ShardM Unit)
      { s with
        wal := (s.wal.appendBatch [.delete docId]).2
        writeBuffer := s.writeBuffer.markDeleted docId } := rfl
  have hmark : segmentsMarkDeleted docId
      { s with
        wal := (s.wal.appendBatch [.delete docId]).2
        writeBuffer := s.writeBuffer.markDeleted docId } = (.ok found, s.deleted docId) := by
    simp only [segmentsMarkDeleted, deleted, ← hfound]
  rw [hdelete, ShardM.bind_ok hmark]
  rfl

/-- **`search`** reads the open segments and the live part of the buffer, and refreshes the
buffer's cache. -/
theorem search_eq_of_coherent {s : ShardEngine} (h : s.writeBuffer.Coherent)
    (request : SearchRequest) :
    search request s = (.ok (s.searcher.search (s.segments.segments.map SegmentEntry.reader
      ++ s.writeBuffer.liveReader.toList) request), s.refreshed) := by
  have hreader : bufferReader s = (.ok s.writeBuffer.liveReader, s.refreshed) := by
    simp only [bufferReader, WriteBuffer.readerAndStats_eq h, refreshed]
  rw [search, ShardM.bind_ok hreader]
  rfl

theorem search_eq {s : ShardEngine} (h : Inv s) (request : SearchRequest) :
    search request s = (.ok (s.searcher.search (s.segments.segments.map SegmentEntry.reader
      ++ s.writeBuffer.liveReader.toList) request), s.refreshed) :=
  search_eq_of_coherent h.coherent request

/-- **`reindex_self` is its changes**: a flush, and a rewrite unless nothing is live. -/
theorem reindexSelf_eq {s : ShardEngine} (h : Inv s) :
    reindexSelf s = (.ok (LabelledRun.run change s s.flushChanges).segments.liveDocuments.length,
      LabelledRun.run change s (s.changes .reindexSelf)) := by
  have hinv := h.run (along_flushChanges s)
  rw [changes, LabelledRun.run_append]
  generalize ht : LabelledRun.run change s s.flushChanges = t at hinv ⊢
  have hdocs : t.segments.segments.flatMap (fun e => e.reader.allLiveDocs.filterMap e.reader.getDoc)
      = t.segments.liveDocuments := by
    simp only [SegmentReader.filterMap_allLiveDocs, SegmentList.liveDocuments]
  have hreindex : reindexSelf s = (if t.segments.liveDocuments.isEmpty then pure 0 else do
        let newSegId ← nextSegmentId
        writeSegment newSegId t.segments.liveDocuments
        let reader ← openSegment newSegId
        let oldIds ← read fun s => s.segments.segments.map SegmentEntry.segmentId
        replaceSegments oldIds { segmentId := newSegId, reader }
        removeDirs oldIds
        walTruncate
        pure t.segments.liveDocuments.length : ShardM Nat) t := by
    rw [reindexSelf, ShardM.bind_ok (flush_eq h), ht, ← hdocs]
    rfl
  rw [hreindex]
  by_cases hempty : t.segments.liveDocuments.isEmpty = true
  · rw [if_pos hempty, if_pos hempty, List.isEmpty_iff.mp hempty]
    rfl
  · rw [if_neg hempty, if_neg hempty, nextSegmentId, ShardM.step_bind]
    exact writeSegment_openSegment
      (s := { t with segments := t.segments.nextSegmentId.2 }) hinv.synced.next_notMem
      t.segments.liveDocuments (fun reader => do
        let oldIds ← read fun s => s.segments.segments.map SegmentEntry.segmentId
        replaceSegments oldIds { segmentId := t.segments.nextSegmentId.1, reader }
        removeDirs oldIds
        walTruncate
        pure t.segments.liveDocuments.length)

/-- **Every operation succeeds and is its changes.** -/
theorem exec_eq {s : ShardEngine} (h : Inv s) (op : Op) :
    exec op s = (.ok (), LabelledRun.run change s (s.changes op)) := by
  cases op with
  | index doc => exact indexBatch_eq h [doc]
  | indexBatch docs => exact indexBatch_eq h docs
  | delete docId => exact delete_eq h docId
  | search request =>
    rw [exec, ShardM.bind_ok (search_eq h request)]
    rfl
  | flush => exact flush_eq h
  | runMerge segmentIds =>
    have hguard : exec (.runMerge segmentIds) s
        = (if ∀ id ∈ segmentIds, id ∈ s.openIds then runMerge segmentIds else pure ()) s := rfl
    rw [hguard, changes]
    split
    · exact runMerge_eq h.synced segmentIds
    · rfl
  | reindexSelf =>
    rw [exec, ShardM.bind_ok (reindexSelf_eq h)]
    rfl
  | reopen => rfl

theorem step_eq {s : ShardEngine} (h : Inv s) (op : Op) :
    s.step op = LabelledRun.run change s (s.changes op) := by
  rw [step, exec_eq h]

/-- The changes of an operation can happen. -/
theorem along_changes (s : ShardEngine) (op : Op) :
    LabelledRun.Along change Enabled s (s.changes op) := by
  have haccept : ∀ docs, LabelledRun.Along change Enabled s (s.acceptChanges docs) := by
    intro docs
    refine ⟨trivial, ?_⟩
    split
    · exact along_flushChanges (s.accepted docs)
    · trivial
  cases op with
  | index doc => exact haccept [doc]
  | indexBatch docs => exact haccept docs
  | delete docId => exact ⟨trivial, trivial⟩
  | search request => exact ⟨trivial, trivial⟩
  | flush => exact along_flushChanges s
  | runMerge segmentIds =>
    show LabelledRun.Along change Enabled s
      (if ∀ id ∈ segmentIds, id ∈ s.openIds then [.merge segmentIds] else [])
    split
    · next hids => exact ⟨hids, trivial⟩
    · trivial
  | reindexSelf =>
    refine (LabelledRun.along_append _ _ _ _).mpr ⟨along_flushChanges s, ?_⟩
    split
    · trivial
    · exact ⟨docs_run_flushChanges s, trivial⟩
  | reopen => exact ⟨trivial, trivial⟩

/-! ## 4. Runs -/

/-- The changes of a run of operations. -/
def runChanges : ShardEngine → List Op → List Change
  | _, [] => []
  | s, op :: ops => s.changes op ++ runChanges (s.step op) ops

/-- **A run of operations is a run of changes.** -/
theorem run_step_eq : ∀ (ops : List Op) (s : ShardEngine), Inv s →
    LabelledRun.run step s ops = LabelledRun.run change s (s.runChanges ops) := by
  intro ops
  induction ops with
  | nil => exact fun _ _ => rfl
  | cons op ops ih =>
    intro s h
    have hstep := step_eq h op
    have hinv : Inv (s.step op) := hstep ▸ h.run (along_changes s op)
    rw [LabelledRun.run_cons, ih _ hinv, runChanges, LabelledRun.run_append, hstep]

theorem along_runChanges : ∀ (ops : List Op) (s : ShardEngine), Inv s →
    LabelledRun.Along change Enabled s (s.runChanges ops) := by
  intro ops
  induction ops with
  | nil => exact fun _ _ => trivial
  | cons op ops ih =>
    intro s h
    have hstep := step_eq h op
    have hinv : Inv (s.step op) := hstep ▸ h.run (along_changes s op)
    rw [runChanges, LabelledRun.along_append, ← hstep]
    exact ⟨along_changes s op, ih _ hinv⟩

theorem Inv.runStep {s : ShardEngine} (h : Inv s) (ops : List Op) :
    Inv (LabelledRun.run step s ops) := by
  rw [run_step_eq ops s h]
  exact h.run (along_runChanges ops s h)

/-- A new shard is in step. -/
theorem inv_new (writeBufferSize : Nat) (searcher : MultiSegmentSearcher) :
    Inv (openDisk writeBufferSize searcher Disk.empty) :=
  inv_openDisk (fun _ _ hlook => by simp [Disk.empty] at hlook)

theorem inv_runNew (writeBufferSize : Nat) (searcher : MultiSegmentSearcher) (ops : List Op) :
    Inv (runNew writeBufferSize searcher ops) :=
  (inv_new writeBufferSize searcher).runStep ops

/-! ## 5. What a run is asked to do -/

/-- The entries an operation logs: the documents it indexes and the id it deletes. -/
def Op.entries : Op → List WalEntry
  | .index doc => [.index doc]
  | .indexBatch docs => docs.map .index
  | .delete docId => [.delete docId]
  | _ => []

/-- The entries a change logs. -/
def Change.entries : Change → List WalEntry
  | .accept docs => docs.map .index
  | .delete docId => [.delete docId]
  | _ => []

theorem entries_flushChanges (s : ShardEngine) : s.flushChanges.flatMap Change.entries = [] := by
  unfold flushChanges
  split
  · rfl
  · simp [Change.entries, List.flatMap_eq_nil_iff]

theorem entries_acceptChanges (s : ShardEngine) (docs : List Document) :
    (s.acceptChanges docs).flatMap Change.entries = docs.map .index := by
  rw [acceptChanges, List.flatMap_cons]
  split
  · rw [entries_flushChanges, List.append_nil]
    rfl
  · exact List.append_nil _

/-- **The changes of an operation log what the operation logs.** -/
theorem entries_changes (s : ShardEngine) (op : Op) :
    (s.changes op).flatMap Change.entries = op.entries := by
  cases op with
  | index doc => exact entries_acceptChanges s [doc]
  | indexBatch docs => exact entries_acceptChanges s docs
  | delete docId => rfl
  | search request => rfl
  | flush => exact entries_flushChanges s
  | runMerge segmentIds =>
    show (if ∀ id ∈ segmentIds, id ∈ s.openIds then [Change.merge segmentIds] else []).flatMap
      Change.entries = []
    split <;> rfl
  | reindexSelf =>
    rw [changes, List.flatMap_append, entries_flushChanges]
    split <;> rfl
  | reopen => rfl

theorem entries_runChanges : ∀ (ops : List Op) (s : ShardEngine),
    (s.runChanges ops).flatMap Change.entries = ops.flatMap Op.entries := by
  intro ops
  induction ops with
  | nil => exact fun _ => rfl
  | cons op ops ih =>
    intro s
    rw [runChanges, List.flatMap_append, entries_changes, ih, List.flatMap_cons]

/-- The log so far, with the entries of one more change. -/
theorem foldl_entries : ∀ (cs : List Change) (log : List WalEntry),
    cs.foldl (fun log c => log ++ c.entries) log = log ++ cs.flatMap Change.entries := by
  intro cs
  induction cs with
  | nil => simp
  | cons c cs ih =>
    intro log
    rw [List.foldl_cons, ih, List.flatMap_cons, List.append_assoc]

/-- What holds of all entries of a run holds of those of each change. -/
theorem along_entries {Q : WalEntry → Prop} {s : ShardEngine} {ops : List Op}
    (hops : ∀ entry ∈ ops.flatMap Op.entries, Q entry) :
    LabelledRun.Along change (fun _ c => ∀ entry ∈ c.entries, Q entry) s (s.runChanges ops) := by
  refine LabelledRun.along_of_forall (Q := fun c : Change => ∀ entry ∈ c.entries, Q entry) _ s ?_
  intro c hc entry hentry
  refine hops entry ?_
  rw [← entries_runChanges ops s]
  exact List.mem_flatMap.mpr ⟨c, hc, hentry⟩

/-- **The rule for runs.**  What every change that meets `P` preserves, together with the
entries logged so far, holds after every run of operations whose changes all meet `P`. -/
theorem run_inv {I : ShardEngine → List WalEntry → Prop} {P : ShardEngine → Change → Prop}
    (hchange : ∀ s c log, Inv s → s.Enabled c → P s c → I s log →
      I (s.change c) (log ++ c.entries))
    {s : ShardEngine} {log : List WalEntry} (hs : Inv s) (hI : I s log) {ops : List Op}
    (hops : LabelledRun.Along change P s (s.runChanges ops)) :
    I (LabelledRun.run step s ops) (log ++ ops.flatMap Op.entries) := by
  have halong := LabelledRun.Along.and _ s (along_runChanges ops s hs) hops
  have hrun := LabelledRun.Along.ghost (I := fun s log => Inv s ∧ I s log)
    (fun log c => log ++ c.entries)
    (fun s c log h hc => ⟨h.1.after hc.1, hchange s c log h.1 hc.1 hc.2 h.2⟩) _ s log halong
    ⟨hs, hI⟩
  rw [run_step_eq ops s hs, ← entries_runChanges ops s, ← foldl_entries]
  exact hrun.2

end ShardEngine

end ZearchEngine
