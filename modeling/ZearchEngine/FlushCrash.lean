/-
# A crash during a flush

`flush` writes the files of the new segment, `meta.json` last, and then empties the log
(`flushEffects`).  Opening trusts both: every directory with a whole `meta.json` is a segment,
and every record of the log goes into the buffer.

* Until `meta.json` is whole the new directory does not open, and the log has the documents.
* Once the log is empty the segment has them.
* In between both have them, and a search finds each of them twice.

So every acknowledged document is found exactly once except at the crash points of the third
kind (`flush_crash_iff`), which are those a flush with acknowledged documents always passes.
-/
import ZearchEngine.AppendOnly
import ZearchEngine.Crash

namespace ZearchEngine

open KeyedStore

namespace ShardEngine

/-! ## 1. The file effects of a flush -/

/-- The file effects of `flush`: the segment, and the log.  The merge it may go on with is an
operation of its own. -/
def flushEffects (s : ShardEngine) : List FileEffect :=
  if s.writeBuffer.docs.isEmpty then []
  else (SegmentDirs.writeSegment s.segments.nextSegmentId.1 s.writeBuffer.docs).map .segments
    ++ [.truncateWal]

/-- **These are the effects of `flush`**: carried out in full they leave the disk `flush`
leaves, before it merges. -/
theorem foldl_flushEffects {s : ShardEngine} (h : Inv s) :
    ∃ (c : Change) (groups : List (List SegmentId)), s.flushChanges = c :: groups.map .merge ∧
      s.flushEffects.foldl Disk.apply s.disk = (s.change c).disk := by
  unfold flushChanges flushEffects
  split
  · exact ⟨.drop, [], rfl, rfl⟩
  · refine ⟨.flush, _, rfl, ?_⟩
    have hwrite := SegmentDirs.foldl_writeSegment h.synced.next_notMem s.writeBuffer.docs
    rw [List.foldl_append, Disk.foldl_segments]
    exact congrArg (Disk.mk []) hwrite

/-! ## 2. Exactly once -/

/-- A match-all search with room for all documents finds each of these once, with its fields. -/
def ExactlyOnce (s : ShardEngine) (docs : List Document) : Prop :=
  ∀ request : SearchRequest, request.MatchAll s.stats.docCount →
    ∃ response, (search request s).1 = .ok response ∧ ∀ doc ∈ docs,
      (response.hits.filter (fun hit => hit.id = doc.id)).map SearchHit.document = [some doc]

/-- A search finds what the shard shows. -/
theorem exactlyOnce_iff {s : ShardEngine} (h : Inv s) (docs : List Document) :
    s.ExactlyOnce docs ↔
      ∀ doc ∈ docs, s.visible.filter (fun d => d.id = doc.id) = {doc} := by
  constructor
  · intro honce doc hdoc
    obtain ⟨response, hok, hhits⟩ := honce _ s.matchAll_docCount
    have hreturns := h.readable.returns_of_search s.matchAll_docCount hok
    exact (hreturns.found_once_iff doc).mp (hhits doc hdoc)
  · intro hvisible request hreq
    obtain ⟨response, hok, hreturns⟩ := h.search_returns hreq
    exact ⟨response, hok, fun doc hdoc =>
      (hreturns.found_once_iff doc).mpr (hvisible doc hdoc)⟩

/-! ## 3. The crash points -/

/-- The new segment is whole and the log still has its documents. -/
def BetweenSwitches (s : ShardEngine) (p : CrashPoint s.flushEffects) : Prop :=
  Disk.writeMeta s.segments.nextSegmentId.1 s.writeBuffer.docs ∈ p.done ∧ .truncateWal ∉ p.done

instance (s : ShardEngine) (p : CrashPoint s.flushEffects) : Decidable (s.BetweenSwitches p) :=
  inferInstanceAs (Decidable (_ ∧ _))

/-- **What a crash during a flush shows**: everything indexed, and between the switches the
buffer once more. -/
theorem Exact.visible_crash_flush {s : ShardEngine} {log : List WalEntry} (h : Exact s log)
    (hinv : Inv s) (writeBufferSize : Nat) (searcher : MultiSegmentSearcher)
    (p : CrashPoint s.flushEffects) :
    Intact (s.disk.crash p).segments ∧
    (openDisk writeBufferSize searcher (s.disk.crash p)).visible
      = ↑(indexedDocs log) + if s.BetweenSwitches p then ↑s.writeBuffer.docs else 0 := by
  have hall : SegmentDirs.live s.dirs + ↑s.writeBuffer.docs = ↑(indexedDocs log) := by
    rw [h.live_dirs hinv, h.content]
  have hwal : s.disk.wal.map WalRecord.entry = s.writeBuffer.docs.map .index := h.wal
  by_cases hempty : s.writeBuffer.docs.isEmpty = true
  · have heffects : s.flushEffects = [] := if_pos hempty
    obtain ⟨hdone, hstate⟩ := p.of_eq_nil heffects
    have hcrash : s.disk.crash p = s.disk := hstate s.disk
    have hnot : ¬ s.BetweenSwitches p := fun hbetween => by
      rw [BetweenSwitches, hdone] at hbetween
      exact List.not_mem_nil hbetween.1
    rw [hcrash, if_neg hnot, add_zero, visible_openDisk hwal]
    exact ⟨hinv.intact, hall⟩
  · have hnew : s.segments.nextSegmentId.1 ∉ s.disk.segments := hinv.synced.next_notMem
    have heffects : s.flushEffects = (SegmentDirs.writeSegment s.segments.nextSegmentId.1
        s.writeBuffer.docs).map .segments ++ [.truncateWal] := if_neg hempty
    rcases s.disk.crash_writeSegment hnew s.writeBuffer.docs heffects (by simp [Disk.tear]) p with
      ⟨hmeta, hcrash⟩ | ⟨hmeta, q, hdone, hcrash⟩
    · have hnot : ¬ s.BetweenSwitches p := fun hbetween => hmeta hbetween.1
      refine ⟨hcrash.intact hinv.intact, ?_⟩
      rw [if_neg hnot, add_zero, visible_openDisk (hcrash.wal ▸ hwal), hcrash.live hnew]
      exact hall
    · rcases q.done_singleton with hnone | hall'
      · have hbetween : s.BetweenSwitches p := by
          refine ⟨hmeta, ?_⟩
          rw [hdone, hnone, Disk.map_writeSegment]
          simp [Disk.writeFiles, Disk.writeMeta]
        rw [hnone, List.foldl_nil] at hcrash
        have hwal' : (s.disk.crash p).wal.map WalRecord.entry
            = s.writeBuffer.docs.map .index := by
          rw [hcrash]
          exact hwal
        rw [if_pos hbetween, visible_openDisk hwal', hcrash, SegmentDirs.live_insert hnew, ← hall,
          add_comm (↑s.writeBuffer.docs : Multiset Document)]
        exact ⟨hinv.intact.insert _ _ none, rfl⟩
      · have htruncated : .truncateWal ∈ p.done := by
          rw [hdone, hall']
          exact List.mem_append_right _ List.mem_cons_self
        have hnot : ¬ s.BetweenSwitches p := fun hbetween => hbetween.2 htruncated
        rw [hall', List.foldl_cons, List.foldl_nil] at hcrash
        have hwal' : (s.disk.crash p).wal.map WalRecord.entry
            = ([] : List Document).map .index := by
          rw [hcrash]
          rfl
        have hsegs : (s.disk.crash p).segments = s.disk.segments.insert
            s.segments.nextSegmentId.1 (SegmentDir.written s.writeBuffer.docs none) := by
          rw [hcrash]
          rfl
        rw [if_neg hnot, add_zero, visible_openDisk hwal', hsegs, SegmentDirs.live_insert hnew,
          Multiset.coe_nil, add_zero, add_comm]
        exact ⟨hinv.intact.insert _ _ none, hall⟩

/-- No document of `acked` shares its id with one of `buffered ++ pending`, where `buffered` are
some of them and `pending` have other ids: there are none buffered. -/
theorem forall_filter_id_eq_zero_iff {acked buffered pending : List Document}
    (hids : ((acked ++ pending).map Document.id).Nodup) (hsub : ∀ doc ∈ buffered, doc ∈ acked) :
    (∀ doc ∈ acked, (↑(buffered ++ pending) : Multiset Document).filter
      (fun d => d.id = doc.id) = 0) ↔ buffered = [] := by
  constructor
  · intro hnone
    rw [List.eq_nil_iff_forall_not_mem]
    intro doc hdoc
    have hmem : doc ∈ (↑(buffered ++ pending) : Multiset Document).filter
        (fun d => d.id = doc.id) :=
      Multiset.mem_filter.mpr ⟨Multiset.mem_coe.mpr (List.mem_append_left _ hdoc), rfl⟩
    rw [hnone doc (hsub doc hdoc)] at hmem
    exact Multiset.notMem_zero doc hmem
  · rintro rfl doc hdoc
    rw [List.nil_append, Multiset.filter_eq_nil]
    intro d hd hid
    rw [List.map_append, List.nodup_append] at hids
    exact hids.2.2 doc.id (List.mem_map_of_mem hdoc) d.id
      (List.mem_map_of_mem (Multiset.mem_coe.mp hd)) hid.symm

/-- **A crash during a flush loses and duplicates nothing, except between the two switches.**
After any run without deletions over documents with distinct ids, a flush runs, either on its
own or inside a call with the documents `pending`, which has not returned.  The process dies at
any point of the flush.  When the shard is opened again, a search finds every document
acknowledged before exactly once if and only if the new `meta.json` was not yet whole, or the
log was already empty, or no acknowledged document was in the buffer. -/
theorem flush_crash_iff (writeBufferSize : Nat) (searcher : MultiSegmentSearcher)
    (ops : List Op) (hops : ∀ op ∈ ops, op.AppendOnly) (pending : List Document)
    (hids : ((ops.flatMap Op.docs ++ pending).map Document.id).Nodup)
    (p : CrashPoint ((runNew writeBufferSize searcher ops).accepted pending).flushEffects) :
    let s := runNew writeBufferSize searcher ops
    let t := s.accepted pending
    (openDisk writeBufferSize searcher (t.disk.crash p)).ExactlyOnce (ops.flatMap Op.docs) ↔
      (Disk.writeMeta t.segments.nextSegmentId.1 t.writeBuffer.docs ∉ p.done ∨
        .truncateWal ∈ p.done ∨ s.writeBuffer.docs = []) := by
  intro s t
  have hinv : Inv s := inv_runNew writeBufferSize searcher ops
  have hexact : Exact s (ops.flatMap Op.entries) := exact_runNew writeBufferSize searcher hops
  obtain ⟨hintact, hvisible⟩ := (hexact.accepted pending).visible_crash_flush
    (hinv.accepted pending) writeBufferSize searcher p
  rw [indexedDocs_append, indexedDocs_flatMap_entries, indexedDocs_map_index] at hvisible
  have hone : ∀ doc ∈ ops.flatMap Op.docs,
      (↑(ops.flatMap Op.docs ++ pending) : Multiset Document).filter (fun d => d.id = doc.id)
        = {doc} := by
    intro doc hdoc
    rw [Multiset.filter_coe, filter_id_eq hids (List.mem_append_left _ hdoc)]
    rfl
  have honce : (openDisk writeBufferSize searcher (t.disk.crash p)).ExactlyOnce
      (ops.flatMap Op.docs) ↔ ∀ doc ∈ ops.flatMap Op.docs,
        (if t.BetweenSwitches p then (↑t.writeBuffer.docs : Multiset Document) else 0).filter
          (fun d => d.id = doc.id) = 0 := by
    rw [exactlyOnce_iff (inv_openDisk hintact), hvisible]
    refine forall₂_congr (fun doc hdoc => ?_)
    rw [Multiset.filter_add, hone doc hdoc, add_eq_left]
  rw [honce]
  by_cases hbetween : t.BetweenSwitches p
  · -- an acknowledged document in the buffer is in the segment and in the log
    have hbuffer : t.writeBuffer.docs = s.writeBuffer.docs ++ pending :=
      WriteBuffer.addAll_docs pending s.writeBuffer
    have hacked : ∀ doc ∈ s.writeBuffer.docs, doc ∈ ops.flatMap Op.docs := by
      intro doc hdoc
      rw [← indexedDocs_flatMap_entries, ← Multiset.mem_coe, ← hexact.content]
      exact Multiset.mem_add.mpr (Or.inr (Multiset.mem_coe.mpr hdoc))
    have hiff := forall_filter_id_eq_zero_iff hids hacked
    rw [← hbuffer] at hiff
    rw [if_pos hbetween, hiff]
    constructor
    · exact fun hempty => Or.inr (Or.inr hempty)
    · rintro (hmeta | htruncated | hempty)
      · exact absurd hbetween.1 hmeta
      · exact absurd htruncated hbetween.2
      · exact hempty
  · rw [if_neg hbetween]
    refine iff_of_true (fun doc _ => Multiset.filter_zero _) ?_
    by_contra hnot
    rw [not_or, not_or, not_not] at hnot
    exact hbetween ⟨hnot.1, hnot.2.1⟩

/-- A crash after the log was emptied. -/
theorem flush_crash_iff_truncated :
    (openDisk 1000 .unscored (((runNew 1000 .unscored [.index (titled 1 "a")]).accepted
        [titled 2 "b"]).disk.crash (CrashPoint.after ((runNew 1000 .unscored
          [.index (titled 1 "a")]).accepted [titled 2 "b"]).flushEffects 7 false))).ExactlyOnce
      [titled 1 "a"] ↔
      (Disk.writeMeta ⟨1⟩ [titled 1 "a", titled 2 "b"] ∉ (CrashPoint.after ((runNew 1000 .unscored
          [.index (titled 1 "a")]).accepted [titled 2 "b"]).flushEffects 7 false).done ∨
        .truncateWal ∈ (CrashPoint.after ((runNew 1000 .unscored
          [.index (titled 1 "a")]).accepted [titled 2 "b"]).flushEffects 7 false).done ∨
        [titled 1 "a"] = []) :=
  flush_crash_iff 1000 .unscored [.index (titled 1 "a")] (by decide) [titled 2 "b"] (by decide)
    (CrashPoint.after _ 7 false)

/-- A crash between the two switches shows the document twice. -/
theorem flush_crash_twice :
    ¬ ∀ p : CrashPoint (runNew 1000 .unscored [.index (titled 1 "a")]).flushEffects,
      (openDisk 1000 .unscored ((runNew 1000 .unscored
        [.index (titled 1 "a")]).disk.crash p)).ExactlyOnce [titled 1 "a"] := by
  intro honce
  obtain ⟨response, hok, hhits⟩ := honce (CrashPoint.after _ 6 false) {} ⟨rfl, rfl, rfl, by decide⟩
  have hone := congrArg List.length (hhits (titled 1 "a") List.mem_cons_self)
  have htwo : (search {} (openDisk 1000 .unscored ((runNew 1000 .unscored
      [.index (titled 1 "a")]).disk.crash (CrashPoint.after (runNew 1000 .unscored
        [.index (titled 1 "a")]).flushEffects 6 false)))).1.toOption.map (fun response =>
          ((response.hits.filter (fun hit => hit.id = (titled 1 "a").id)).map
            SearchHit.document).length) = some 2 := by
    decide
  rw [hok, Except.toOption, Option.map_some, Option.some.injEq, hone] at htwo
  cases htwo

end ShardEngine

end ZearchEngine
