/-
# A crash during a merge or a reindex

`run_merge` and `reindex_self` write a new segment with the documents of the old ones and then
remove the old directories, one after the other and each file by file
(`Compaction.effects`).  No file says which directories are live, so opening takes all that
open.

* Until `meta.json` is whole only the old segments open.
* From then on the new segment opens, and with it every old one that is not yet removed: each
  of its live documents is there twice.  An old directory that has lost its deletion bitmap
  first shows its deleted documents as well.

So the documents are the ones before, each as often as before, exactly while `meta.json` is not
whole and, if the open readers had the bitmaps on disk, once every old directory is spent
(`compaction_crash_iff`).
-/
import ZearchEngine.Compaction
import ZearchEngine.Crash

namespace ZearchEngine

open KeyedStore

/-- The directory operations among some file effects. -/
def dirEffects (effects : List FileEffect) : List DirEffect :=
  effects.filterMap fun
    | .segments effect => some effect
    | .truncateWal => none

theorem mem_dirEffects {effects : List FileEffect} {e : DirEffect} :
    e ∈ dirEffects effects ↔ .segments e ∈ effects := by
  rw [dirEffects, List.mem_filterMap]
  constructor
  · rintro ⟨effect, hmem, heq⟩
    cases effect with
    | segments e' =>
      obtain rfl : e' = e := Option.some.inj heq
      exact hmem
    | truncateWal => cases heq
  · exact fun hmem => ⟨_, hmem, rfl⟩

/-- The directories after some file effects: only the directory operations count. -/
theorem Disk.segments_foldl : ∀ (effects : List FileEffect) (d : Disk),
    (effects.foldl Disk.apply d).segments
      = (dirEffects effects).foldl SegmentDirs.apply d.segments
  | [], _ => rfl
  | .segments e :: effects, d => Disk.segments_foldl effects (d.apply (.segments e))
  | .truncateWal :: effects, d => Disk.segments_foldl effects (d.apply .truncateWal)

/-- An empty log stays empty. -/
theorem Disk.wal_foldl {d : Disk} (h : d.wal = []) (effects : List FileEffect) :
    (effects.foldl Disk.apply d).wal = [] := by
  refine CrashPoint.foldl_inv (I := fun d : Disk => d.wal = []) effects d ?_ h
  intro d e _ hd
  cases e with
  | segments e => exact hd
  | truncateWal => rfl

/-- The open reader of the segment shows what its directory shows. -/
def SegmentEntry.ShowsDir (dirs : SegmentDirs) (e : SegmentEntry) : Prop :=
  share SegmentDir.live (dirs.lookup e.segmentId) = ↑e.reader.liveDocuments

namespace ShardEngine

/-! ## 1. The file effects -/

/-- An operation that replaces segments by one. -/
inductive Compaction where
  | runMerge (segmentIds : List SegmentId)
  | reindexSelf

namespace Compaction

/-- The operation. -/
def op : Compaction → Op
  | .runMerge segmentIds => .runMerge segmentIds
  | .reindexSelf => .reindexSelf

/-- The segments it replaces. -/
def oldIds (s : ShardEngine) : Compaction → List SegmentId
  | .runMerge segmentIds => segmentIds
  | .reindexSelf => s.openIds

/-- The documents it collects. -/
def docs (s : ShardEngine) : Compaction → List Document
  | .runMerge segmentIds => MergeScheduler.mergedDocs (s.sources segmentIds)
  | .reindexSelf => s.segments.liveDocuments

/-- The file effects of writing the new segment. -/
def writes (s : ShardEngine) (c : Compaction) : List FileEffect :=
  (SegmentDirs.writeSegment s.segments.nextSegmentId.1 (c.docs s)).map .segments

/-- The file effects of removing the old directories, where `names` says in which order a
directory lists its files. -/
def removals (s : ShardEngine) (names : SegmentId → List SegmentFileName) (c : Compaction) :
    List FileEffect :=
  (c.oldIds s).flatMap (fun id => (SegmentDirs.removeDirAll id (names id)).map .segments)

/-- The file effects of the operation, when the buffer is empty.  A reindex without documents
does nothing, and one with documents empties the log at the end. -/
def effects (s : ShardEngine) (names : SegmentId → List SegmentFileName) :
    Compaction → List FileEffect
  | .runMerge segmentIds =>
    (Compaction.runMerge segmentIds).writes s ++ (Compaction.runMerge segmentIds).removals s names
  | .reindexSelf =>
    if s.segments.liveDocuments.isEmpty then []
    else Compaction.reindexSelf.writes s
      ++ (Compaction.reindexSelf.removals s names ++ [.truncateWal])

end Compaction

/-- Removing the old directories, each in its own order. -/
theorem foldl_removals (names : SegmentId → List SegmentFileName) :
    ∀ (ids : List SegmentId) (d : Disk),
    (ids.flatMap (fun id => (SegmentDirs.removeDirAll id (names id)).map .segments)).foldl
      Disk.apply d = { d with segments := eraseAll ids d.segments }
  | [], _ => rfl
  | id :: ids, d => by
    rw [List.flatMap_cons, List.foldl_append, Disk.foldl_segments,
      SegmentDirs.foldl_removeDirAll, foldl_removals names ids]
    rfl

/-- **These are the effects of the operation**: carried out in full they leave the disk that
the operation leaves. -/
theorem Compaction.foldl_effects {s : ShardEngine} (h : Inv s) (hempty : s.writeBuffer.docs = [])
    (c : Compaction) (hold : ∀ id ∈ c.oldIds s, id ∈ s.openIds)
    (names : SegmentId → List SegmentFileName) :
    (c.effects s names).foldl Disk.apply s.disk = (s.step c.op).disk := by
  have hwrite := SegmentDirs.foldl_writeSegment h.synced.next_notMem (c.docs s)
  have hwrites : (c.writes s).foldl Disk.apply s.disk
      = ⟨s.wal.records, s.dirs.insert s.segments.nextSegmentId.1
          (SegmentDir.written (c.docs s) none)⟩ := by
    rw [writes, Disk.foldl_segments]
    exact congrArg (Disk.mk s.wal.records) hwrite
  rw [step_eq h]
  cases c with
  | runMerge segmentIds =>
    have hchanges : s.changes (Compaction.runMerge segmentIds).op = [.merge segmentIds] :=
      if_pos hold
    rw [hchanges, effects, List.foldl_append, hwrites, removals, foldl_removals]
    rfl
  | reindexSelf =>
    have hflush : s.flushChanges = [.drop] := if_pos (by rw [hempty]; rfl)
    have hchanges : s.changes Compaction.reindexSelf.op
        = .drop :: if s.segments.liveDocuments.isEmpty then [] else [.reindex] := by
      show s.changes .reindexSelf = _
      rw [changes, hflush]
      rfl
    rw [hchanges, effects]
    split
    · rfl
    · rw [List.foldl_append, hwrites, List.foldl_append, removals, foldl_removals]
      rfl

/-! ## 2. What a crash leaves -/

/-- **What a compaction collects** is at least what the directories show, and no more exactly
when each open reader shows what its directory shows. -/
theorem Inv.collected_spec {s : ShardEngine} (h : Inv s) {ids : List SegmentId}
    (hids : ∀ id ∈ ids, id ∈ s.openIds) :
    ∑ id ∈ ids.toFinset, share SegmentDir.live (s.dirs.lookup id)
      ≤ ↑((s.sources ids).flatMap (fun e => e.reader.liveDocuments)) ∧
    (∑ id ∈ ids.toFinset, share SegmentDir.live (s.dirs.lookup id)
      = ↑((s.sources ids).flatMap (fun e => e.reader.liveDocuments)) ↔
      ∀ e ∈ s.sources ids, e.ShowsDir s.dirs) := by
  have hle : ∀ e ∈ (s.sources ids).toFinset,
      share SegmentDir.live (s.dirs.lookup e.segmentId) ≤ ↑e.reader.liveDocuments := fun e he =>
    h.synced.share_live_le (List.mem_of_mem_filter (List.mem_toFinset.mp he))
  rw [h.collected_eq_sum, h.sum_sources hids]
  refine ⟨Finset.sum_le_sum hle, (Finset.sum_eq_sum_iff_of_le hle).trans ?_⟩
  exact forall_congr' (fun e => by rw [List.mem_toFinset]; rfl)

/-- Once the new segment is whole the directories show it, what is left of the old ones, and the
others. -/
theorem live_partly_removed {s : ShardEngine} (h : Inv s) {ids : List SegmentId}
    (hids : ∀ id ∈ ids, id ∈ s.openIds) (docs : List Document)
    {es : List DirEffect} (hes : ∀ e ∈ es, e.target ∈ ids) :
    SegmentDirs.live (es.foldl SegmentDirs.apply
        (s.dirs.insert ⟨s.segments.nextSegmentSeq⟩ (SegmentDir.written docs none)))
      = (∑ id ∈ ids.toFinset, share SegmentDir.live ((es.foldl SegmentDirs.apply
          (s.dirs.insert ⟨s.segments.nextSegmentSeq⟩ (SegmentDir.written docs none))).lookup id))
        + (↑docs + total SegmentDir.live (eraseAll ids s.dirs)) := by
  have hold : ∀ id ∈ ids, id ∈ s.dirs := fun id hid => h.mem_dirs (hids id hid)
  have hothers : total SegmentDir.live (eraseAll ids (es.foldl SegmentDirs.apply
        (s.dirs.insert ⟨s.segments.nextSegmentSeq⟩ (SegmentDir.written docs none))))
      = total SegmentDir.live (s.segments.installDirs s.dirs ids docs) := by
    refine total_congr _ (fun id => congrArg (share SegmentDir.live) ?_)
    rw [SegmentList.installDirs, lookup_eraseAll, lookup_eraseAll]
    by_cases hid : id ∈ ids
    · rw [if_pos hid, if_pos hid]
    · -- no operation is about a directory that is not replaced
      have hnone : es.filter (fun e => e.target = id) = [] := by
        rw [List.filter_eq_nil_iff]
        intro e he
        have hne : e.target ≠ id := fun heq => hid (heq ▸ hes e he)
        simpa using hne
      rw [if_neg hid, if_neg hid, SegmentDirs.lookup_foldl_apply, hnone, List.foldl_nil]
  rw [SegmentDirs.live, total_eraseAll SegmentDir.live _ ids, hothers,
    h.synced.total_installDirs hold, SegmentDir.live_written_none]

/-- Behind the writes of the new segment come removals, which a crash does not tear. -/
theorem tear_of_isRemoval {rest : List FileEffect} (hrest : ∀ e ∈ dirEffects rest, e.IsRemoval) :
    ∀ d : Disk, ∀ e ∈ rest, d.tear e = d := by
  intro d e he
  cases e with
  | truncateWal => rfl
  | segments e =>
    have hremoval := hrest e (mem_dirEffects.mpr he)
    cases e with
    | unlink id name => rfl
    | removeDir id => rfl
    | createDir id => exact hremoval.elim
    | write id file => exact hremoval.elim

/-- The removals among the operations done are none of the writes of the new segment. -/
theorem mem_dirEffects_append {id : SegmentId} {docs : List Document} {rest : List FileEffect}
    {e : DirEffect} (he : e.IsRemoval) :
    e ∈ dirEffects ((SegmentDirs.writeSegment id docs).map .segments ++ rest) ↔
      e ∈ dirEffects rest := by
  rw [mem_dirEffects, mem_dirEffects, List.mem_append]
  refine ⟨fun hor => hor.resolve_left (fun hwrite => ?_), Or.inr⟩
  rw [Disk.map_writeSegment] at hwrite
  cases e with
  | unlink id' name => simp [Disk.writeFiles, Disk.writeMeta] at hwrite
  | removeDir id' => simp [Disk.writeFiles, Disk.writeMeta] at hwrite
  | createDir id' => exact he
  | write id' file => exact he

/-- An open segment's directory is whole, also beside a new one. -/
theorem Inv.lookup_insert_next {s : ShardEngine} (h : Inv s) {id : SegmentId}
    (hid : id ∈ s.openIds) (dir : SegmentDir) :
    (s.dirs.insert ⟨s.segments.nextSegmentSeq⟩ dir).lookup id = s.dirs.lookup id ∧
      ∃ docs deletions, s.dirs.lookup id = some (SegmentDir.written docs deletions) := by
  obtain ⟨e, he, rfl⟩ := List.mem_map.mp hid
  obtain ⟨docs, -, deletions, -, hlook, -⟩ := h.synced.onDisk e he
  have hne : e.segmentId ≠ ⟨s.segments.nextSegmentSeq⟩ := fun heq =>
    h.synced.next_notMem (heq ▸ h.synced.mem_dirs he)
  exact ⟨AList.lookup_insert_ne hne, docs, deletions, hlook⟩

/-- With the new segment whole and some removals done, the directories show what they showed
exactly when every old one is spent and nothing but what they showed was collected. -/
theorem live_partly_removed_iff {s : ShardEngine} (h : Inv s) {ids : List SegmentId}
    (hids : ∀ id ∈ ids, id ∈ s.openIds) {docs : List Document}
    (hdocs : ∑ id ∈ ids.toFinset, share SegmentDir.live (s.dirs.lookup id) ≤ ↑docs)
    {es : List DirEffect} (hes : ∀ e ∈ es, e.IsRemoval ∧ e.target ∈ ids) :
    SegmentDirs.live (es.foldl SegmentDirs.apply
        (s.dirs.insert ⟨s.segments.nextSegmentSeq⟩ (SegmentDir.written docs none)))
      = SegmentDirs.live s.dirs ↔
    (∀ id ∈ ids, Spent s.dirs es id) ∧
      ∑ id ∈ ids.toFinset, share SegmentDir.live (s.dirs.lookup id) = ↑docs := by
  have hremovals : ∀ e ∈ es, e.IsRemoval := fun e he => (hes e he).1
  have hshare : ∀ id ∈ ids, share SegmentDir.live ((es.foldl SegmentDirs.apply
      (s.dirs.insert ⟨s.segments.nextSegmentSeq⟩ (SegmentDir.written docs none))).lookup id) = 0 ↔
      Spent s.dirs es id := by
    intro id hid
    obtain ⟨hsame, docs', deletions, hlook⟩ := h.lookup_insert_next (hids id hid)
      (SegmentDir.written docs none)
    rw [live_removed_eq_zero_iff hremovals (hsame.trans hlook)]
    exact spent_congr hsame (fun _ _ => Iff.rfl)
  have hspent : (∀ id ∈ ids, Spent s.dirs es id) ↔
      ∑ id ∈ ids.toFinset, share SegmentDir.live ((es.foldl SegmentDirs.apply
        (s.dirs.insert ⟨s.segments.nextSegmentSeq⟩ (SegmentDir.written docs none))).lookup id)
        = 0 := by
    rw [Finset.sum_eq_zero_iff]
    constructor
    · exact fun hall id hid =>
        (hshare id (List.mem_toFinset.mp hid)).mpr (hall id (List.mem_toFinset.mp hid))
    · exact fun hzero id hid => (hshare id hid).mp (hzero id (List.mem_toFinset.mpr hid))
  -- what the new segment has beside what was shown
  obtain ⟨extra, hextra⟩ := Multiset.le_iff_exists_add.mp hdocs
  rw [hspent, live_partly_removed h hids docs (fun e he => (hes e he).2), SegmentDirs.live,
    total_eraseAll SegmentDir.live s.dirs ids, ← add_assoc, add_left_inj, hextra, left_eq_add,
    add_left_comm, add_eq_left, add_eq_zero]

/-- With an empty log, a shard shows what its directories show. -/
theorem visible_openDisk_of_wal_eq_nil {writeBufferSize : Nat} {searcher : MultiSegmentSearcher}
    {d : Disk} (h : d.wal = []) :
    (openDisk writeBufferSize searcher d).visible = SegmentDirs.live d.segments := by
  have hnone : d.wal.map WalRecord.entry = ([] : List Document).map .index := by
    rw [h]
    rfl
  rw [visible_openDisk hnone, Multiset.coe_nil, add_zero]

/-- A crash during a compaction with an empty log: opening shows what the directories showed
exactly while the new segment is unfinished, and once every old directory is spent if nothing
else was collected. -/
theorem visible_crash_compaction {s : ShardEngine} (h : Inv s) (hwal : s.wal.records = [])
    {ids : List SegmentId} (hids : ∀ id ∈ ids, id ∈ s.openIds) {docs : List Document}
    (hdocs : ∑ id ∈ ids.toFinset, share SegmentDir.live (s.dirs.lookup id) ≤ ↑docs)
    {effects rest : List FileEffect}
    (heffects : effects
      = (SegmentDirs.writeSegment ⟨s.segments.nextSegmentSeq⟩ docs).map .segments ++ rest)
    (hrest : ∀ e ∈ dirEffects rest, e.IsRemoval ∧ e.target ∈ ids)
    (writeBufferSize : Nat) (searcher : MultiSegmentSearcher) (p : CrashPoint effects) :
    Intact (s.disk.crash p).segments ∧
    ((openDisk writeBufferSize searcher (s.disk.crash p)).visible = SegmentDirs.live s.dirs ↔
      (Disk.writeMeta ⟨s.segments.nextSegmentSeq⟩ docs ∉ p.done ∨
        (∀ id ∈ ids, Spent s.dirs (dirEffects p.done) id) ∧
          ∑ id ∈ ids.toFinset, share SegmentDir.live (s.dirs.lookup id) = ↑docs)) := by
  have hnew := h.synced.next_notMem
  rcases s.disk.crash_writeSegment hnew docs heffects
    (tear_of_isRemoval (fun e he => (hrest e he).1)) p with
    ⟨hmeta, hcrash⟩ | ⟨hmeta, q, hdone, hcrash⟩
  · refine ⟨hcrash.intact h.intact, iff_of_true ?_ (Or.inl hmeta)⟩
    rw [visible_openDisk_of_wal_eq_nil (hcrash.wal.trans hwal), hcrash.live hnew]
    rfl
  · have hwalCrash : (s.disk.crash p).wal = [] := by
      rw [hcrash]
      exact Disk.wal_foldl hwal q.done
    have hsegs : (s.disk.crash p).segments = (dirEffects q.done).foldl SegmentDirs.apply
        (s.dirs.insert ⟨s.segments.nextSegmentSeq⟩ (SegmentDir.written docs none)) := by
      rw [hcrash, Disk.segments_foldl]
      rfl
    have hes : ∀ e ∈ dirEffects q.done, e.IsRemoval ∧ e.target ∈ ids := by
      intro e he
      refine hrest e (mem_dirEffects.mpr ?_)
      rw [q.split]
      exact List.mem_append_left _ (mem_dirEffects.mp he)
    have hspent : (∀ id ∈ ids, Spent s.dirs (dirEffects q.done) id) ↔
        ∀ id ∈ ids, Spent s.dirs (dirEffects p.done) id := by
      refine forall₂_congr (fun id _ => spent_congr rfl (fun e he => ?_))
      rw [hdone, mem_dirEffects_append he]
    refine ⟨?_, ?_⟩
    · rw [hsegs]
      refine (h.intact.insert _ _ none).removed (fun e he => (hes e he).1) (fun e he => ?_)
      obtain ⟨hsame, docs', deletions, hlook⟩ := h.lookup_insert_next (hids _ (hes e he).2)
        (SegmentDir.written docs none)
      exact ⟨docs', deletions, hsame.trans hlook⟩
    · rw [visible_openDisk_of_wal_eq_nil hwalCrash, hsegs, live_partly_removed_iff h hids hdocs hes,
        hspent]
      exact ⟨Or.inr, fun hor => hor.resolve_left (fun hnot => hnot hmeta)⟩

/-! ## 3. The crash points -/

/-- Freshly opened readers show what their directories show. -/
theorem showsDir_openDirs {dirs : SegmentDirs} {e : SegmentEntry}
    (he : e ∈ (SegmentList.openDirs dirs).segments) : e.ShowsDir dirs := by
  obtain ⟨dir, hlook, hopen⟩ := SegmentList.mem_segments_openDirs.mp he
  rw [SegmentEntry.ShowsDir, hlook, share_some, SegmentDir.live_of_open hopen]

theorem Compaction.dirEffects_removals {s : ShardEngine} (c : Compaction)
    (names : SegmentId → List SegmentFileName) :
    ∀ e ∈ dirEffects (c.removals s names), e.IsRemoval ∧ e.target ∈ c.oldIds s := by
  intro e he
  obtain ⟨id, hid, hmem⟩ := List.mem_flatMap.mp (mem_dirEffects.mp he)
  obtain ⟨e', hmem', heq⟩ := List.mem_map.mp hmem
  obtain rfl : e' = e := FileEffect.segments.inj heq
  obtain ⟨hremoval, htarget⟩ := of_mem_removeDirAll hmem'
  exact ⟨hremoval, htarget ▸ hid⟩

/-- **A crash during a merge or a reindex keeps every document as it was, except while the new
segment stands beside an old one.**  Segments of a shard with an empty log are merged, or all
are reindexed, each old directory being removed in whatever order it lists its files.  List and
directories are in step (`Inv`), as they are when a shard opens any segments (`inv_openDisk`)
and after every run of operations (`inv_runNew`).  The process dies at any point.  When the
shard is opened again, a search returns the documents that were live on disk before, each as
often as before, if and only if the new `meta.json` was not yet whole; or every old directory
is spent, that is, it is gone, or has lost a file it does not open without, or has nothing to
show, and the readers the documents were collected from showed what their directories showed,
which those of a shard just opened do (`showsDir_openDirs`). -/
theorem compaction_crash_iff (writeBufferSize : Nat) (searcher : MultiSegmentSearcher)
    {s : ShardEngine} (hinv : Inv s) (hwal : s.wal.records = []) (c : Compaction)
    (hold : ∀ id ∈ c.oldIds s, id ∈ s.openIds) (names : SegmentId → List SegmentFileName)
    (p : CrashPoint (c.effects s names)) :
    (openDisk writeBufferSize searcher (s.disk.crash p)).Shows (SegmentDirs.live s.dirs) ↔
      (Disk.writeMeta s.segments.nextSegmentId.1 (c.docs s) ∉ p.done ∨
        (∀ id ∈ c.oldIds s, Spent s.dirs (dirEffects p.done) id) ∧
          ∀ e ∈ s.sources (c.oldIds s), e.ShowsDir s.dirs) := by
  have hdocs : c.docs s = (s.sources (c.oldIds s)).flatMap (fun e => e.reader.liveDocuments) := by
    cases c with
    | runMerge segmentIds => rfl
    | reindexSelf =>
      rw [Compaction.oldIds, sources_openIds]
      rfl
  obtain ⟨hle, heq⟩ := hinv.collected_spec hold
  rw [← hdocs] at hle heq
  have hgoal : ∀ {rest : List FileEffect},
      c.effects s names = c.writes s ++ rest →
      (∀ e ∈ dirEffects rest, e.IsRemoval ∧ e.target ∈ c.oldIds s) →
      ((openDisk writeBufferSize searcher (s.disk.crash p)).Shows (SegmentDirs.live s.dirs) ↔
        (Disk.writeMeta s.segments.nextSegmentId.1 (c.docs s) ∉ p.done ∨
          (∀ id ∈ c.oldIds s, Spent s.dirs (dirEffects p.done) id) ∧
            ∀ e ∈ s.sources (c.oldIds s), e.ShowsDir s.dirs)) := by
    intro rest heffects hrest
    obtain ⟨hintact, hiff⟩ := visible_crash_compaction hinv hwal hold hle heffects hrest
      writeBufferSize searcher p
    rw [heq] at hiff
    exact ((inv_openDisk hintact).shows_iff _).trans hiff
  cases c with
  | runMerge segmentIds => exact hgoal rfl (Compaction.dirEffects_removals _ names)
  | reindexSelf =>
    by_cases hempty : s.segments.liveDocuments.isEmpty = true
    · -- nothing to rewrite, and nothing is written
      have heffects : Compaction.reindexSelf.effects s names = [] := if_pos hempty
      obtain ⟨hdone, hstate⟩ := p.of_eq_nil heffects
      have hcrash : s.disk.crash p = s.disk := hstate s.disk
      refine iff_of_true ?_ (Or.inl (by rw [hdone]; exact List.not_mem_nil))
      rw [hcrash, (inv_openDisk hinv.intact).shows_iff, visible_openDisk_of_wal_eq_nil hwal]
      rfl
    · refine hgoal (if_neg hempty) (fun e he => ?_)
      rcases List.mem_append.mp (mem_dirEffects.mp he) with hmem | hmem
      · exact Compaction.dirEffects_removals .reindexSelf names e (mem_dirEffects.mpr hmem)
      · simp at hmem

/-- One segment with one document. -/
def oneSegment : SegmentDirs :=
  AList.insert ⟨1⟩ (SegmentDir.written [titled 1 "a"] none) ∅

theorem intact_oneSegment : Intact oneSegment :=
  Intact.insert (fun _ _ hlook => by simp at hlook) ⟨1⟩ [titled 1 "a"] none

/-- A shard opened on it. -/
def openedOne : ShardEngine := openDisk 1000 .unscored ⟨[], oneSegment⟩

/-- A crash when the first file of the old directory is gone. -/
theorem compaction_crash_iff_spent :
    (openDisk 1000 .unscored (openedOne.disk.crash (CrashPoint.after
        ((Compaction.runMerge [⟨1⟩]).effects openedOne SegmentDirs.plainFiles) 7 false))).Shows
      (SegmentDirs.live openedOne.dirs) ↔
      (Disk.writeMeta openedOne.segments.nextSegmentId.1
          ((Compaction.runMerge [⟨1⟩]).docs openedOne) ∉ (CrashPoint.after
            ((Compaction.runMerge [⟨1⟩]).effects openedOne SegmentDirs.plainFiles) 7 false).done ∨
        (∀ id ∈ (Compaction.runMerge [⟨1⟩]).oldIds openedOne, Spent openedOne.dirs
          (dirEffects (CrashPoint.after ((Compaction.runMerge [⟨1⟩]).effects openedOne
            SegmentDirs.plainFiles) 7 false).done) id) ∧
          ∀ e ∈ openedOne.sources ((Compaction.runMerge [⟨1⟩]).oldIds openedOne),
            e.ShowsDir openedOne.dirs) :=
  compaction_crash_iff 1000 .unscored (inv_openDisk intact_oneSegment) rfl (.runMerge [⟨1⟩])
    (by decide) SegmentDirs.plainFiles (CrashPoint.after _ 7 false)

/-- A crash when the new segment is whole and the old one is still there. -/
theorem reindex_crash_twice :
    ¬ ∀ p : CrashPoint (Compaction.reindexSelf.effects openedOne SegmentDirs.plainFiles),
      (openDisk 1000 .unscored (openedOne.disk.crash p)).Shows
        (SegmentDirs.live openedOne.dirs) := by
  intro hshows
  obtain ⟨response, hok, hreturns⟩ :=
    hshows (CrashPoint.after _ 6 false) {} ⟨rfl, rfl, rfl, by decide⟩
  have hone := congrArg Multiset.card hreturns
  have htwo : (search {} (openDisk 1000 .unscored (openedOne.disk.crash (CrashPoint.after
      (Compaction.reindexSelf.effects openedOne SegmentDirs.plainFiles) 6
        false)))).1.toOption.map (fun response => response.hits.length) = some 2 := by
    decide
  rw [hok, Except.toOption, Option.map_some, Option.some.injEq] at htwo
  rw [Multiset.coe_card, List.length_map, htwo, Multiset.card_map] at hone
  exact absurd hone (by decide)

end ShardEngine

end ZearchEngine
