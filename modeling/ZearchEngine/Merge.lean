/-
# Merging segments

`TieredMergePolicy` and `MergeScheduler::execute_merge` (`crates/shard/src/merge.rs`).  The
policy chooses the segments with the fewest documents, once there are three.  A merge collects
the documents its sources' *open readers* can read.
-/
import ZearchEngine.SegmentList

namespace ZearchEngine

/-- Tiered merge policy: select groups of segments to merge. -/
structure TieredMergePolicy where
  minSegmentsToMerge : Nat
  maxMergeAtOnce : Nat

/-- `TieredMergePolicy::default`. -/
def TieredMergePolicy.default : TieredMergePolicy where
  minSegmentsToMerge := 3
  maxMergeAtOnce := 10

/-- `find_merges`: at most one group, the segments with the fewest documents first.  The sort
is stable. -/
def TieredMergePolicy.findMerges (policy : TieredMergePolicy) (segments : List SegmentEntry) :
    List (List SegmentId) :=
  if segments.length < policy.minSegmentsToMerge then []
  else
    let indexed := segments.map (fun e => (e.segmentId, e.reader.segmentMeta.docCount))
    let sorted := indexed.insertionSort (fun a b => a.2 ≤ b.2)
    let toMerge := (sorted.take policy.maxMergeAtOnce).map Prod.fst
    if toMerge.length ≥ policy.minSegmentsToMerge then [toMerge] else []

/-- The documents `execute_merge` collects. -/
def MergeScheduler.mergedDocs (sources : List SegmentEntry) : List Document :=
  sources.flatMap (fun e => (List.range e.reader.segmentMeta.docCount).filterMap e.reader.getDoc)

/-- A merge group consists of open segments. -/
theorem mem_of_mem_findMerges {policy : TieredMergePolicy} {segments : List SegmentEntry}
    {group : List SegmentId} (h : group ∈ policy.findMerges segments) {id : SegmentId}
    (hid : id ∈ group) : ∃ e ∈ segments, e.segmentId = id := by
  unfold TieredMergePolicy.findMerges at h
  split at h
  · cases h
  · simp only at h
    split at h
    · obtain rfl := List.mem_singleton.mp h
      obtain ⟨p, hp, rfl⟩ := List.mem_map.mp hid
      have hsorted := List.mem_of_mem_take hp
      have hindexed := (List.perm_insertionSort _ _).mem_iff.mp hsorted
      obtain ⟨e, he, rfl⟩ := List.mem_map.mp hindexed
      exact ⟨e, he, rfl⟩
    · cases h

end ZearchEngine
