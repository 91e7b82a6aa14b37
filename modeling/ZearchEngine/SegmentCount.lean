/-
# How many segments a shard has

`find_merges` with its default bounds (`TieredMergePolicy`, `crates/shard/src/merge.rs`), as a flush
uses it (`maybe_merge`, `crates/shard/src/shard.rs`).  A flush that writes adds a segment; once
there are three, up to ten of them become one (`segmentCount_run_flushChanges`).

So a shard has at most two segments between calls, whatever they index, delete or rewrite and
however often it is opened again; and if it was opened with more, every flush that writes takes
eight off, until there are two (`segments_bounded`).
-/
import ZearchEngine.Reinsertion

namespace ZearchEngine

open KeyedStore

/-! ## 1. What the policy chooses -/

/-- Taking some of the entries of a list without repetition. -/
theorem length_filter_notMem {α : Type} [DecidableEq α] {l ids : List α} (hl : l.Nodup)
    (hids : ids.Nodup) (hsub : ids ⊆ l) :
    (l.filter (fun a => a ∉ ids)).length = l.length - ids.length := by
  have hsplit := List.length_eq_length_filter_add (l := l) (fun a => decide (a ∉ ids))
  have hmem : (l.filter (fun a => !decide (a ∉ ids))).Perm ids := by
    refine (List.perm_ext_iff_of_nodup (hl.filter _) hids).mpr (fun a => ?_)
    simp only [List.mem_filter, decide_not, Bool.not_not, decide_eq_true_eq]
    exact ⟨fun h => h.2, fun h => ⟨hsub h, h⟩⟩
  rw [hmem.length_eq] at hsplit
  omega

/-- **The default policy**: nothing below three segments; else one group of up to ten. -/
theorem findMerges_default {segments : List SegmentEntry}
    (hnodup : (segments.map SegmentEntry.segmentId).Nodup) :
    (segments.length < 3 → TieredMergePolicy.default.findMerges segments = []) ∧
    (3 ≤ segments.length → ∃ group, TieredMergePolicy.default.findMerges segments = [group] ∧
      group.Nodup ∧ group ⊆ segments.map SegmentEntry.segmentId ∧
      group.length = min segments.length 10) := by
  refine ⟨fun hfew => if_pos hfew, fun hmany => ?_⟩
  let indexed := segments.map (fun e => (e.segmentId, e.reader.segmentMeta.docCount))
  let sorted := indexed.insertionSort (fun a b => a.2 ≤ b.2)
  have hperm : (sorted.map Prod.fst).Perm (segments.map SegmentEntry.segmentId) := by
    have hsorted := (List.perm_insertionSort (fun a b : SegmentId × Nat => a.2 ≤ b.2) indexed).map
      Prod.fst
    rwa [List.map_map] at hsorted
  have hlen : ((sorted.take 10).map Prod.fst).length = min segments.length 10 := by
    rw [List.length_map, List.length_take, List.length_insertionSort, List.length_map, min_comm]
  have hsub : ((sorted.take 10).map Prod.fst).Sublist (sorted.map Prod.fst) :=
    (List.take_sublist 10 sorted).map Prod.fst
  refine ⟨(sorted.take 10).map Prod.fst, ?_, (hperm.nodup_iff.mpr hnodup).sublist hsub,
    fun id hid => hperm.mem_iff.mp (hsub.mem hid), hlen⟩
  have hnot : ¬ segments.length < TieredMergePolicy.default.minSegmentsToMerge :=
    Nat.not_lt.mpr hmany
  have henough : ((sorted.take 10).map Prod.fst).length
      ≥ TieredMergePolicy.default.minSegmentsToMerge := by
    rw [hlen]
    exact le_min hmany (by decide)
  rw [TieredMergePolicy.findMerges, if_neg hnot]
  exact if_pos henough

namespace ShardEngine

/-! ## 2. What an operation leaves -/

/-- `segment_count`. -/
def segmentCount (s : ShardEngine) : Nat := s.segments.segments.length

/-- The change writes a segment of buffered documents. -/
def Change.isFlush : Change → Bool
  | .flush => true
  | _ => false

/-- A client can ask for the operation: a merge is only ever started by a flush. -/
def Op.Requested : Op → Prop
  | .runMerge _ => False
  | _ => True

instance : DecidablePred Op.Requested
  | .runMerge _ => isFalse id
  | .index _ | .indexBatch _ | .delete _ | .search _ | .flush | .reindexSelf | .reopen =>
    isTrue trivial

/-- A shard with the default policy whose directories are those of its segments. -/
structure Tended (s : ShardEngine) : Prop where
  inv : Inv s
  registered : Registered s.segments s.dirs
  policy : s.mergePolicy = .default

theorem mergePolicy_foldl_replay : ∀ (entries : List WalEntry) (s : ShardEngine),
    (entries.foldl replay s).mergePolicy = s.mergePolicy
  | [], _ => rfl
  | .index _ :: entries, _ => mergePolicy_foldl_replay entries _
  | .delete _ :: entries, _ => mergePolicy_foldl_replay entries _

theorem Tended.change {s : ShardEngine} (h : s.Tended) {c : Change} (hc : s.Enabled c) :
    (s.change c).Tended := by
  refine ⟨h.inv.after hc, registered_change h.inv h.registered c, ?_⟩
  cases c with
  | reopen => exact mergePolicy_foldl_replay _ _
  | _ => exact h.policy

theorem Tended.run {s : ShardEngine} (h : s.Tended) {cs : List Change}
    (hcs : LabelledRun.Along ShardEngine.change Enabled s cs) :
    (LabelledRun.run ShardEngine.change s cs).Tended :=
  LabelledRun.Along.inv (fun _ _ hs hc => hs.change hc) cs s hcs h

theorem Tended.step {s : ShardEngine} (h : s.Tended) (op : Op) : (s.step op).Tended := by
  rw [step_eq h.inv]
  exact h.run (along_changes s op)

/-- A merge of open segments leaves one in their place. -/
theorem segmentCount_merged {s : ShardEngine} (h : Inv s) {ids : List SegmentId}
    (hids : ids.Nodup) (hsub : ids ⊆ s.openIds) :
    (s.merged ids).segmentCount = s.segmentCount - ids.length + 1 := by
  have hfilter := length_filter_notMem h.synced.nodup hids hsub
  rw [List.filter_map, List.length_map, List.length_map] at hfilter
  show (s.segments.install ids _).segments.length = _
  rw [SegmentList.segments_install, List.length_append]
  exact congrArg (· + 1) hfilter

theorem segmentCount_flushed (s : ShardEngine) : s.flushed.segmentCount = s.segmentCount + 1 := by
  show (s.segments.install [] s.writeBuffer.docs).segments.length = _
  rw [SegmentList.segments_install, List.length_append]
  simp [segmentCount]

theorem segmentCount_reindexed (s : ShardEngine) : s.reindexed.segmentCount = 1 := by
  have hnone : s.segments.segments.filter (fun e => e.segmentId ∉ s.openIds) = [] := by
    rw [List.filter_eq_nil_iff]
    intro e he
    have hid : e.segmentId ∈ s.openIds := List.mem_map_of_mem he
    simpa using hid
  show (s.segments.install s.openIds s.segments.liveDocuments).segments.length = 1
  rw [SegmentList.segments_install, hnone]
  rfl

/-- **A flush**, with the merge it starts. -/
theorem segmentCount_run_flushChanges {s : ShardEngine} (h : s.Tended) :
    (LabelledRun.run change s s.flushChanges).segmentCount
      ≤ max 2 (s.segmentCount - 8 * s.flushChanges.countP Change.isFlush) := by
  rw [flushChanges]
  split
  · exact Nat.le_max_right _ _
  · have hflushed := h.change (c := .flush) trivial
    have hcount := s.segmentCount_flushed
    have hmerges : ∀ groups : List (List SegmentId),
        (groups.map Change.merge).countP Change.isFlush = 0 := by
      intro groups
      simp [List.countP_eq_zero, Change.isFlush]
    rw [List.countP_cons_of_pos rfl, hmerges, h.policy]
    obtain ⟨hfew, hmany⟩ := findMerges_default hflushed.inv.synced.nodup
    by_cases hlen : s.flushed.segments.segments.length < 3
    · have hnone := hfew hlen
      show (LabelledRun.run change s (.flush :: (TieredMergePolicy.default.findMerges
        (s.change .flush).segments.segments).map .merge)).segmentCount ≤ _
      rw [hnone]
      exact Nat.le_trans (Nat.le_of_lt_succ hlen) (Nat.le_max_left _ _)
    · obtain ⟨group, hgroup, hids, hsub, hgroupLen⟩ := hmany (Nat.not_lt.mp hlen)
      show (LabelledRun.run change s (.flush :: (TieredMergePolicy.default.findMerges
        (s.change .flush).segments.segments).map .merge)).segmentCount ≤ _
      rw [hgroup]
      show (s.flushed.merged group).segmentCount ≤ _
      have hmerged := segmentCount_merged hflushed.inv hids hsub
      have hmerged' : (s.flushed.merged group).segmentCount
          = s.flushed.segmentCount - group.length + 1 := hmerged
      have hgroupLen' : group.length = min s.flushed.segmentCount 10 := hgroupLen
      rw [hmerged', hgroupLen', hcount]
      omega

/-- Opening a shard again opens the same segments. -/
theorem segmentCount_reopened {s : ShardEngine} (h : s.Tended) :
    s.reopened.segmentCount = s.segmentCount := by
  have hperm : ((SegmentList.openDirs s.dirs).segments.map SegmentEntry.segmentId).Perm
      s.openIds := by
    refine (List.perm_ext_iff_of_nodup (SegmentList.nodup_openDirs s.dirs)
      h.inv.synced.nodup).mpr (fun id => ?_)
    constructor
    · intro hid
      obtain ⟨e, he, rfl⟩ := List.mem_map.mp hid
      obtain ⟨dir, hlook, hopen⟩ := SegmentList.mem_segments_openDirs.mp he
      obtain ⟨e', he', hid'⟩ := h.registered e.segmentId dir hlook (by simp [hopen])
      exact hid' ▸ List.mem_map_of_mem he'
    · intro hid
      obtain ⟨e, he, rfl⟩ := List.mem_map.mp hid
      obtain ⟨docs, deleted, deletions, -, hlook, -⟩ := h.inv.synced.onDisk e he
      exact List.mem_map.mpr ⟨⟨e.segmentId, .ofDocs docs (deletions.getD ∅)⟩,
        SegmentList.mem_segments_openDirs.mpr ⟨_, hlook, openDir_written docs deletions⟩, rfl⟩
  have hsegments : s.reopened.segments.segments = (SegmentList.openDirs s.dirs).segments :=
    (replayed_reopened h.inv).segments
  have hlen := hperm.length_eq
  rw [List.length_map, openIds, List.length_map] at hlen
  rw [segmentCount, hsegments, hlen, segmentCount]

/-- **An operation**: what it flushes counts. -/
theorem segmentCount_step {s : ShardEngine} (h : s.Tended) {op : Op} (hop : op.Requested) :
    (s.step op).segmentCount
      ≤ max 2 (s.segmentCount - 8 * (s.changes op).countP Change.isFlush) := by
  have haccept : ∀ docs, (LabelledRun.run change s (s.acceptChanges docs)).segmentCount
      ≤ max 2 (s.segmentCount - 8 * (s.acceptChanges docs).countP Change.isFlush) := by
    intro docs
    have haccepted : (s.accepted docs).Tended := h.change (c := .accept docs) trivial
    rw [acceptChanges]
    split
    · exact segmentCount_run_flushChanges haccepted
    · exact Nat.le_max_right _ _
  rw [step_eq h.inv]
  cases op with
  | index doc => exact haccept [doc]
  | indexBatch docs => exact haccept docs
  | delete docId =>
    have hsegments : (s.change (.delete docId)).segments.segments = s.segments.segments :=
      h.inv.synced.segments_markDeleted docId
    show (s.change (.delete docId)).segments.segments.length ≤ max 2 (s.segmentCount - 8 * 0)
    rw [hsegments]
    exact Nat.le_max_right _ _
  | search request => exact Nat.le_max_right _ _
  | flush => exact segmentCount_run_flushChanges h
  | runMerge segmentIds => exact hop.elim
  | reindexSelf =>
    rw [changes, LabelledRun.run_append, List.countP_append]
    have hflush := segmentCount_run_flushChanges h
    split
    · exact hflush
    · show (LabelledRun.run change s s.flushChanges).reindexed.segmentCount ≤ _
      rw [segmentCount_reindexed]
      exact (Nat.le_succ 1).trans (Nat.le_max_left _ _)
  | reopen =>
    show s.reopened.segmentCount ≤ max 2 (s.segmentCount - 8 * 0)
    rw [segmentCount_reopened h]
    exact Nat.le_max_right _ _

/-! ## 3. Runs -/

/-- How many flushes of a run write a segment. -/
def flushes (s : ShardEngine) (ops : List Op) : Nat := (s.runChanges ops).countP Change.isFlush

theorem segmentCount_run : ∀ (ops : List Op) {s : ShardEngine}, s.Tended →
    (∀ op ∈ ops, op.Requested) →
    (LabelledRun.run step s ops).segmentCount ≤ max 2 (s.segmentCount - 8 * s.flushes ops)
  | [], _, _, _ => Nat.le_max_right _ _
  | op :: ops, s, h, hops => by
    have hstep := segmentCount_step h (hops op List.mem_cons_self)
    have hrest := segmentCount_run ops (h.step op) (fun op' hop' =>
      hops op' (List.mem_cons_of_mem _ hop'))
    have hcount : s.flushes (op :: ops)
        = (s.changes op).countP Change.isFlush + (s.step op).flushes ops := by
      rw [flushes, runChanges, List.countP_append]
      rfl
    rw [LabelledRun.run_cons, hcount]
    omega

theorem tended_openDisk (writeBufferSize : Nat) (searcher : MultiSegmentSearcher) {d : Disk}
    (hd : Intact d.segments) : (openDisk writeBufferSize searcher d).Tended where
  inv := inv_openDisk hd
  registered := (replayed_foldl _ (inv_beforeReplay hd)).registered (Registered.openDirs d.segments)
  policy := mergePolicy_foldl_replay _ _

/-- **The number of segments is bounded.**  In every run of operations that clients ask for, on a
shard opened on any directory (with half written segments or without), the shard never has more
than two segments, or than it was opened with less eight for every flush that has written one. -/
theorem segments_bounded (writeBufferSize : Nat) (searcher : MultiSegmentSearcher) {d : Disk}
    (hd : Intact d.segments) {ops : List Op} (hops : ∀ op ∈ ops, op.Requested) :
    let opened := openDisk writeBufferSize searcher d
    (LabelledRun.run step opened ops).segmentCount
      ≤ max 2 (opened.segmentCount - 8 * opened.flushes ops) :=
  segmentCount_run ops (tended_openDisk writeBufferSize searcher hd) hops

/-- A new shard that flushes three times. -/
theorem segments_bounded_new :
    (runNew 1000 .unscored [.index (titled 1 "a"), .flush, .index (titled 2 "b"), .flush,
      .index (titled 3 "c"), .flush]).segmentCount ≤ 2 :=
  segments_bounded 1000 .unscored (fun _ _ hlook => by simp [Disk.empty] at hlook) (by decide)

end ShardEngine

end ZearchEngine
