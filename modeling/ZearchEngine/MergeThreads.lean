/-
# Merges beside one another

`run_merge` chooses its group, reads it and replaces it in three critical sections.  Another
merge may replace a segment of the group after it was read: its documents are then in the
segments of both.

The documents of a shard are kept as an account.  What the segments and the buffer hold and what
threads carry from the one to the other is what the calls have brought, plus a surplus that each
merge adds when it replaces less than it has read (`Conserves`).  A surplus never goes away.  So
when all calls have returned, every document is shown exactly once if and only if every merge of
the run replaced just what it had read (`merges_show_once_iff`).
-/
import ZearchEngine.ReindexThreads
import Mathlib.Algebra.BigOperators.Group.Finset.Piecewise
import Mathlib.Data.Multiset.OrderedMonoid
import Mathlib.Tactic.Abel

namespace ZearchEngine

open KeyedStore

namespace Concurrent

/-! ## 1. One action -/

/-- The thread whose choice an action is. -/
def Action.thread : Action → Nat
  | .index t _ | .flush t | .step t => t

/-- The documents of the call an action begins. -/
def Action.docs : Action → List Document
  | .index _ docs => docs
  | _ => []

/-- What a thread at `pc` does when it is chosen: it logs the documents of a new call, begins a
flush, or takes its next step. -/
inductive Takes (names : SegmentId → List SegmentFileName) (s : ShardEngine) :
    Pc → List Document → ShardEngine → Pc → List Document → Prop where
  | log (docs : List Document) : Takes names s .idle docs
      { s with wal := (s.wal.appendBatch (docs.map .index)).2 } (.appended docs) []
  | begin : Takes names s .idle [] s (.flushing []) []
  | advance (pc : Pc) : Takes names s pc [] (advance names s pc).1 (advance names s pc).2.1
      (advance names s pc).2.2

/-- The action is a step of a call that has begun. -/
def Action.IsStep : Action → Prop
  | .step _ => True
  | _ => False

/-- **What an action does**: a call is not begun on a thread that is in one, and otherwise the
thread does something. -/
theorem cstep_cases (names : SegmentId → List SegmentFileName) (c : Running) (a : Action) :
    (¬ a.IsStep ∧ cstep names c a = c) ∨ ∃ s' pc' acked,
      (a.IsStep ∨ c.threads a.thread = .idle) ∧
      Takes names c.engine (c.threads a.thread) a.docs s' pc' acked ∧
      cstep names c a = ⟨s', Function.update c.threads a.thread pc', c.acked ++ acked⟩ := by
  cases a with
  | index t docs =>
    cases hpc : c.threads t with
    | idle =>
      have htakes : Takes names c.engine .idle docs _ _ _ := .log docs
      rw [← hpc] at htakes
      exact Or.inr ⟨_, _, _, Or.inr hpc, htakes,
        by simp only [cstep, hpc, Action.thread, List.append_nil]⟩
    | _ => exact Or.inl ⟨id, by simp only [cstep, hpc]⟩
  | flush t =>
    cases hpc : c.threads t with
    | idle =>
      have htakes : Takes names c.engine .idle [] _ _ _ := .begin
      rw [← hpc] at htakes
      exact Or.inr ⟨_, _, _, Or.inr hpc, htakes,
        by simp only [cstep, hpc, Action.thread, List.append_nil]⟩
    | _ => exact Or.inl ⟨id, by simp only [cstep, hpc]⟩
  | step t => exact Or.inr ⟨_, _, _, Or.inl trivial, .advance (c.threads t), rfl⟩

/-! ## 2. Without the log -/

/-- The shard with another log. -/
def Running.withLog (c : Running) (wal : Log) : Running :=
  { c with engine := { c.engine with wal } }

/-- What the threads' invariant says of segments and directories.  A log that is emptied too
early does not touch it: it is as if there were a log that never lost a document. -/
def Laid (c : Running) : Prop := ∃ wal, Inv (c.withLog wal)

/-- A thread looks at the log only to empty it. -/
theorem advance_withLog (names : SegmentId → List SegmentFileName) (s : ShardEngine) (wal : Log)
    (pc : Pc) (hpc : ∀ call, pc ≠ .registered call) :
    advance names { s with wal } pc
      = ({ (advance names s pc).1 with wal }, (advance names s pc).2) := by
  cases pc with
  | registered call => exact absurd rfl (hpc call)
  | appended docs =>
    simp only [advance]
    split <;> rfl
  | flushing call =>
    simp only [advance]
    split <;> rfl
  | writing call job segId docs left =>
    cases left with
    | cons e left => rfl
    | nil =>
      simp only [advance]
      cases s.dirs.lookup segId >>= SegmentReader.openDir <;> rfl
  | opened call job segId reader => cases job <;> rfl
  | merging call groups => cases groups <;> rfl
  | removing call left groups => cases left <;> rfl
  | _ => rfl

/-- **Whatever a thread does is something it may do**, under a log that is never emptied. -/
theorem Takes.advances {c : Running} {wal : Log} {t : Nat} {s' : ShardEngine} {pc' : Pc}
    {brought acked : List Document} {names : SegmentId → List SegmentFileName}
    (h : Takes names c.engine (c.threads t) brought s' pc' acked) (hinv : Inv (c.withLog wal)) :
    ∃ wal', Advances (c.withLog wal).engine (c.threads t) { s' with wal := wal' } pc' acked := by
  have hw : IndexOnly (c.withLog wal).engine := hinv.wal
  generalize hpc : c.threads t = pc at h
  cases h with
  | log => exact ⟨_, Advances.append hw brought⟩
  | begin =>
    exact ⟨wal, .quiet hw rfl rfl rfl (Or.inl rfl) (fun _ hid => absurd hid List.not_mem_nil)
      trivial (fun _ hdoc => absurd hdoc List.not_mem_nil)⟩
  | advance pc =>
    refine ⟨wal, ?_⟩
    by_cases hreg : ∃ call, pc = .registered call
    · obtain ⟨call, rfl⟩ := hreg
      exact .quiet hw rfl rfl rfl (Or.inl rfl) (fun _ hid => absurd hid List.not_mem_nil) trivial
        (fun _ hdoc => by simpa [Concurrent.advance, Pc.call] using hdoc)
    · have hne : ∀ call, pc ≠ .registered call := fun call heq => hreg ⟨call, heq⟩
      have hcovered : TruncateCovered (c.withLog wal) (.step t) := by
        show Pc.Covered _ (c.threads t)
        rw [hpc]
        cases pc with
        | registered call => exact absurd rfl (hne call)
        | _ => trivial
      have hadvances := hinv.advances names hcovered
      have hstep := advance_withLog names c.engine wal pc hne
      have hthread : (c.withLog wal).threads t = pc := hpc
      rw [hthread] at hadvances
      have hengine : (c.withLog wal).engine = { c.engine with wal } := rfl
      rw [hengine, hstep] at hadvances
      exact hadvances

/-- What a thread relies on has nothing to do with the log. -/
theorem Laid.sound {c : Running} (h : Laid c) (t : Nat) : (c.threads t).Sound c.engine := by
  obtain ⟨wal, hinv⟩ := h
  have hsound : (c.threads t).Sound (c.withLog wal).engine := hinv.sound t
  exact hsound.frame (fun _ _ => rfl) (fun _ he => Or.inl he)

/-- **Every action keeps it**, whether truncations are covered or not. -/
theorem Laid.step {c : Running} (h : Laid c) (names : SegmentId → List SegmentFileName)
    (a : Action) : Laid (cstep names c a) := by
  obtain ⟨wal, hinv⟩ := h
  rcases cstep_cases names c a with ⟨-, hsame⟩ | ⟨s', pc', acked, -, htakes, hstep⟩
  · rw [hsame]
    exact ⟨wal, hinv⟩
  · obtain ⟨wal', hadvances⟩ := htakes.advances hinv
    rw [hstep]
    exact ⟨wal', hinv.after hadvances⟩

/-! ## 3. What a merge has read -/

/-- The documents are those of the open segments of the group, and of segments that were, in
the order of the list. -/
def Collects (s : ShardEngine) (segmentIds : List SegmentId) (docs : List Document) : Prop :=
  (MergeScheduler.mergedDocs (s.sources segmentIds)).Sublist docs ∧
    ∀ doc ∈ docs, doc ∈ s.segments.liveDocuments

/-- What holds of the documents a merge has read. -/
def Pc.Collected (s : ShardEngine) : Pc → Prop
  | .writing _ (.merge segmentIds _) _ docs _ => Collects s segmentIds docs
  | .opened _ (.merge segmentIds _) _ reader => Collects s segmentIds reader.liveDocuments
  | _ => True

/-- The documents a merge is about to add to those of the segments it replaces. -/
def Pc.surplus (s : ShardEngine) : Pc → Multiset Document
  | .opened _ (.merge segmentIds _) _ reader =>
    ↑reader.liveDocuments - ↑(MergeScheduler.mergedDocs (s.sources segmentIds))
  | _ => 0

/-- If the thread is about to replace a group, the segments it replaces hold just the documents
it has read. -/
def Pc.Undisturbed (s : ShardEngine) : Pc → Prop
  | .opened _ (.merge segmentIds _) _ reader =>
    MergeScheduler.mergedDocs (s.sources segmentIds) = reader.liveDocuments
  | _ => True

instance (s : ShardEngine) : DecidablePred (Pc.Undisturbed s)
  | .opened _ (.merge segmentIds _) _ _ =>
    inferInstanceAs (Decidable (MergeScheduler.mergedDocs (s.sources segmentIds) = _))
  | .opened _ .flush _ _ | .idle | .appended _ | .flushing _ | .drained _ _ | .writing _ _ _ _ _
  | .registered _ | .truncated _ | .merging _ _ | .numbered _ _ _ _ | .removing _ _ _ =>
    isTrue trivial

/-- A merge that replaces a group replaces just what it has read. -/
def MergeUndisturbed (c : Running) : Action → Prop
  | .step t => (c.threads t).Undisturbed c.engine
  | _ => True

instance (c : Running) : DecidablePred (MergeUndisturbed c)
  | .step t => inferInstanceAs (Decidable ((c.threads t).Undisturbed c.engine))
  | .index _ _ | .flush _ => isTrue trivial

/-- There is no surplus just when the merge was not disturbed. -/
theorem Pc.Collected.surplus_eq_zero_iff {s : ShardEngine} {pc : Pc} (h : pc.Collected s) :
    pc.surplus s = 0 ↔ pc.Undisturbed s := by
  cases pc with
  | opened call job segId reader =>
    cases job with
    | flush => exact iff_of_true rfl trivial
    | merge segmentIds groups =>
      obtain ⟨hsub, -⟩ := h
      show (↑reader.liveDocuments - ↑(MergeScheduler.mergedDocs (s.sources segmentIds)) :
        Multiset Document) = 0 ↔ MergeScheduler.mergedDocs (s.sources segmentIds) = _
      rw [tsub_eq_zero_iff_le]
      constructor
      · exact fun hle => hsub.eq_of_length_le (Multiset.card_le_card hle)
      · intro heq
        rw [heq]
  | _ => exact iff_of_true rfl trivial

theorem Pc.Collected.mem_of_mem_surplus {s : ShardEngine} {pc : Pc} (h : pc.Collected s) :
    ∀ doc ∈ pc.surplus s, doc ∈ s.segments.liveDocuments := by
  intro doc hdoc
  cases pc with
  | opened call job segId reader =>
    cases job with
    | flush => exact absurd hdoc (Multiset.notMem_zero doc)
    | merge segmentIds groups => exact h.2 doc (Multiset.mem_of_le (Multiset.sub_le_self _ _) hdoc)
  | _ => exact absurd hdoc (Multiset.notMem_zero doc)

/-! ## 4. The account of one step -/

/-- **What one step of a thread does to the documents.**  They move between the list, the
buffer and the thread; a call brings its own, and acknowledges them in the end; and a merge adds
its surplus. -/
structure Conserves (s : ShardEngine) (pc : Pc) (brought : List Document) (s' : ShardEngine)
    (pc' : Pc) (acked : List Document) : Prop where
  balance : s'.holds + ↑pc'.carrying = s.holds + ↑pc.carrying + pc.surplus s + ↑brought
  calls : pc'.call ++ acked = pc.call ++ brought
  kept : ∀ doc ∈ s.segments.liveDocuments, doc ∈ s'.segments.liveDocuments
  sources : ∀ ids, (∀ id, pc.pending = some id → id ∉ ids) →
    (s'.sources ids).Sublist (s.sources ids)
  collected : pc'.Collected s'
  coherent : s.writeBuffer.Coherent → s'.writeBuffer.Coherent
  undeleted : s.writeBuffer.deletedIds = ∅ → s'.writeBuffer.deletedIds = ∅

/-- A step that leaves the list alone. -/
theorem Conserves.of_segments_eq {s s' : ShardEngine} {pc pc' : Pc} {brought acked : List Document}
    (hsegs : s'.segments.segments = s.segments.segments)
    (hbalance : (↑s'.writeBuffer.docs + ↑pc'.carrying : Multiset Document)
      = ↑s.writeBuffer.docs + ↑pc.carrying + ↑brought)
    (hcalls : pc'.call ++ acked = pc.call ++ brought)
    (hsurplus : pc.surplus s = 0) (hcollected : pc'.Collected s')
    (hcoherent : s.writeBuffer.Coherent → s'.writeBuffer.Coherent)
    (hundeleted : s.writeBuffer.deletedIds = ∅ → s'.writeBuffer.deletedIds = ∅) :
    Conserves s pc brought s' pc' acked where
  balance := by
    rw [hsurplus, add_zero, ShardEngine.holds, ShardEngine.holds, SegmentList.liveDocuments,
      SegmentList.liveDocuments,
      hsegs, add_assoc, hbalance]
    simp only [add_assoc]
  calls := hcalls
  kept := fun doc hdoc => by rwa [SegmentList.liveDocuments, hsegs]
  sources := fun ids _ => by rw [ShardEngine.sources, hsegs, ShardEngine.sources]
  collected := hcollected
  coherent := hcoherent
  undeleted := hundeleted

/-- A step that leaves list and buffer alone. -/
theorem Conserves.quiet {s s' : ShardEngine} {pc pc' : Pc} {acked : List Document}
    (hsegs : s'.segments.segments = s.segments.segments)
    (hbuffer : s'.writeBuffer = s.writeBuffer) (hcarrying : pc'.carrying = pc.carrying)
    (hcalls : pc'.call ++ acked = pc.call) (hsurplus : pc.surplus s = 0)
    (hcollected : pc'.Collected s') : Conserves s pc [] s' pc' acked :=
  .of_segments_eq hsegs (by rw [hbuffer, hcarrying, Multiset.coe_nil, add_zero])
    (by rw [hcalls, List.append_nil]) hsurplus hcollected (fun h => by rwa [hbuffer])
    (fun h => by rwa [hbuffer])

/-- Registering a segment in place of others, whose documents are among its own. -/
theorem Conserves.register {s : ShardEngine} {pc pc' : Pc} {segId : SegmentId}
    {docs : List Document} {oldIds : List SegmentId} (hpending : pc.pending = some segId)
    (hdocs : (↑docs : Multiset Document) = ↑pc.carrying + pc.surplus s
      + ↑(MergeScheduler.mergedDocs (s.sources oldIds)))
    (hcarrying : pc'.carrying = []) (hcall : pc'.call = pc.call)
    (hcollected : pc'.Collected
      { s with segments := s.segments.replaceSegments oldIds ⟨segId, .ofDocs docs ∅⟩ }) :
    Conserves s pc []
      { s with segments := s.segments.replaceSegments oldIds ⟨segId, .ofDocs docs ∅⟩ } pc' [] := by
  have hsplit := s.segments.coe_liveDocuments_split oldIds
  have hlive : (↑(s.segments.replaceSegments oldIds ⟨segId, .ofDocs docs ∅⟩).liveDocuments :
      Multiset Document)
      = ↑((s.segments.segments.filter (fun e => e.segmentId ∉ oldIds)).flatMap
          (fun e => e.reader.liveDocuments)) + ↑docs := by
    rw [SegmentList.liveDocuments, SegmentList.replaceSegments, List.flatMap_append,
      ← Multiset.coe_add]
    simp
  have hmerged : MergeScheduler.mergedDocs (s.sources oldIds)
      = (s.segments.segments.filter (fun e => e.segmentId ∈ oldIds)).flatMap
          (fun e => e.reader.liveDocuments) := rfl
  rw [hmerged] at hdocs
  refine ⟨?_, by rw [hcall], fun doc hdoc => ?_, fun ids hids => ?_, hcollected, id, id⟩
  · rw [ShardEngine.holds, ShardEngine.holds, hlive, hsplit, hdocs, hcarrying, Multiset.coe_nil]
    abel
  · rw [← Multiset.mem_coe, hlive, hdocs]
    rw [← Multiset.mem_coe, hsplit] at hdoc
    rcases Multiset.mem_add.mp hdoc with hkept | hold
    · exact Multiset.mem_add.mpr (Or.inl hkept)
    · exact Multiset.mem_add.mpr (Or.inr (Multiset.mem_add.mpr (Or.inr hold)))
  · have hnew : segId ∉ ids := hids segId hpending
    have hsources : ShardEngine.sources
        { s with segments := s.segments.replaceSegments oldIds ⟨segId, .ofDocs docs ∅⟩ } ids
        = (s.segments.segments.filter (fun e => e.segmentId ∉ oldIds)).filter
            (fun e => e.segmentId ∈ ids) := by
      simp [ShardEngine.sources, SegmentList.replaceSegments, hnew]
    rw [hsources]
    exact List.filter_sublist.filter _

/-- A change of the directories and the counter is none of the list. -/
theorem Collects.of_segments_eq {s s' : ShardEngine} {segmentIds : List SegmentId}
    {docs : List Document} (h : Collects s segmentIds docs)
    (hsegs : s'.segments.segments = s.segments.segments) : Collects s' segmentIds docs := by
  rw [Collects, ShardEngine.sources, SegmentList.liveDocuments, hsegs]
  exact h

/-- **Whatever a thread does is accounted for.** -/
theorem Takes.conserves {s s' : ShardEngine} {pc pc' : Pc} {brought acked : List Document}
    {names : SegmentId → List SegmentFileName} (h : Takes names s pc brought s' pc' acked)
    (hsound : pc.Sound s) (hcollected : pc.Collected s) :
    Conserves s pc brought s' pc' acked := by
  cases h with
  | log =>
    exact .of_segments_eq rfl (by simp [Pc.carrying]) (List.append_nil brought) rfl trivial id id
  | begin => exact .quiet rfl rfl rfl rfl rfl trivial
  | advance pc =>
    cases pc with
    | idle => exact .quiet rfl rfl rfl rfl rfl trivial
    | appended docs =>
      have hbalance : (↑(s.writeBuffer.addAll docs).2.docs + ↑([] : List Document) :
          Multiset Document) = ↑s.writeBuffer.docs + ↑docs + ↑([] : List Document) := by
        simp
      by_cases hfull : (s.writeBuffer.addAll docs).1 = true
      · simp only [Concurrent.advance, hfull, if_true]
        exact .of_segments_eq rfl hbalance rfl rfl trivial
          (fun hcoh => WriteBuffer.coherent_addAll hcoh docs)
          (fun hnone => (WriteBuffer.addAll_deletedIds docs _).trans hnone)
      · simp only [Concurrent.advance, hfull]
        exact .of_segments_eq rfl hbalance (List.append_nil docs).symm rfl trivial
          (fun hcoh => WriteBuffer.coherent_addAll hcoh docs)
          (fun hnone => (WriteBuffer.addAll_deletedIds docs _).trans hnone)
    | flushing call =>
      by_cases hempty : s.writeBuffer.docs.isEmpty = true
      · simp only [Concurrent.advance, WriteBuffer.drain, hempty, if_true]
        exact .of_segments_eq rfl (by rw [List.isEmpty_iff.mp hempty]; rfl)
          (List.append_nil call).symm rfl trivial (fun _ hne => absurd rfl hne) (fun _ => rfl)
      · simp only [Concurrent.advance, WriteBuffer.drain, hempty]
        exact .of_segments_eq rfl (by simp [Pc.carrying]) rfl rfl trivial
          (fun _ hne => absurd rfl hne) (fun _ => rfl)
    | drained call docs =>
      exact .quiet rfl rfl rfl (List.append_nil _) rfl trivial
    | writing call job segId docs left =>
      cases left with
      | cons e left =>
        cases job with
        | flush => exact .quiet rfl rfl rfl (List.append_nil _) rfl trivial
        | merge segmentIds groups =>
          exact .quiet rfl rfl rfl (List.append_nil _) rfl
            (Collects.of_segments_eq hcollected rfl)
      | nil =>
        obtain ⟨-, hopen⟩ := hsound.openDir
        simp only [Concurrent.advance, hopen]
        cases job with
        | flush =>
          exact .quiet rfl rfl (SegmentReader.liveDocuments_ofDocs_empty docs)
            (List.append_nil _) rfl trivial
        | merge segmentIds groups =>
          refine .quiet rfl rfl rfl (List.append_nil _) rfl ?_
          show Collects s segmentIds (SegmentReader.ofDocs docs ∅).liveDocuments
          rw [SegmentReader.liveDocuments_ofDocs_empty]
          exact hcollected
    | opened call job segId reader =>
      obtain ⟨docs, -, rfl, -⟩ := hsound
      cases job with
      | flush =>
        simp only [Concurrent.advance, SegmentList.addSegment_eq]
        refine .register rfl ?_ rfl rfl trivial
        simp [Pc.carrying, Pc.surplus, ShardEngine.sources, MergeScheduler.mergedDocs]
      | merge segmentIds groups =>
        simp only [Concurrent.advance]
        refine .register rfl ?_ rfl rfl trivial
        obtain ⟨hsub, -⟩ := hcollected
        have hle := Multiset.coe_le.mpr hsub.subperm
        simp only [Pc.carrying, Pc.surplus, Multiset.coe_nil, zero_add]
        rw [SegmentReader.liveDocuments_ofDocs_empty] at hle ⊢
        exact (tsub_add_cancel_of_le hle).symm
    | registered call => exact .quiet rfl rfl rfl (List.append_nil _) rfl trivial
    | truncated call => exact .quiet rfl rfl rfl (List.append_nil _) rfl trivial
    | merging call groups =>
      cases groups with
      | nil => exact .quiet rfl rfl rfl rfl rfl trivial
      | cons segmentIds groups => exact .quiet rfl rfl rfl (List.append_nil _) rfl trivial
    | numbered call segId segmentIds groups =>
      refine .quiet rfl rfl rfl (List.append_nil _) rfl ⟨List.Sublist.refl _, fun doc hdoc => ?_⟩
      obtain ⟨e, he, hlive⟩ := List.mem_flatMap.mp hdoc
      exact List.mem_flatMap.mpr ⟨e, List.mem_of_mem_filter he, hlive⟩
    | removing call left groups =>
      cases left with
      | nil | cons e left => exact .quiet rfl rfl rfl (List.append_nil _) rfl trivial

/-! ## 5. The invariant -/

/-- What holds in every run: the segments are laid out soundly, what merges have read is still
there, and the buffer shows all it holds. -/
structure Orderly (c : Running) : Prop where
  laid : Laid c
  collected : ∀ t, (c.threads t).Collected c.engine
  coherent : c.engine.writeBuffer.Coherent
  undeleted : c.engine.writeBuffer.deletedIds = ∅

/-- **Frame.**  What a merge has read is left alone by a step that registers none of the segments
it is to replace and loses no document. -/
theorem Pc.Collected.frame {pc : Pc} {s s' : ShardEngine} (h : pc.Collected s)
    (hsources : ∀ ids, (∀ id ∈ ids, id ∈ pc.replacing) → (s'.sources ids).Sublist (s.sources ids))
    (hkept : ∀ doc ∈ s.segments.liveDocuments, doc ∈ s'.segments.liveDocuments) :
    pc.Collected s' := by
  have hcollects : ∀ {ids : List SegmentId} {docs : List Document},
      (∀ id ∈ ids, id ∈ pc.replacing) → Collects s ids docs → Collects s' ids docs := by
    intro ids docs hids hcollects
    exact ⟨((hsources ids hids).flatMap _).trans hcollects.1,
      fun doc hdoc => hkept doc (hcollects.2 doc hdoc)⟩
  cases pc with
  | writing call job segId docs left =>
    cases job with
    | flush => trivial
    | merge segmentIds groups => exact hcollects (fun _ hid => List.mem_append_left _ hid) h
  | opened call job segId reader =>
    cases job with
    | flush => trivial
    | merge segmentIds groups => exact hcollects (fun _ hid => List.mem_append_left _ hid) h
  | _ => trivial

theorem Orderly.step {c : Running} (h : Orderly c) (names : SegmentId → List SegmentFileName)
    (a : Action) : Orderly (cstep names c a) := by
  have hlaid := h.laid.step names a
  rcases cstep_cases names c a with ⟨-, hsame⟩ | ⟨s', pc', acked, -, htakes, hstep⟩
  · rw [hsame]
    exact h
  · have hconserves := htakes.conserves (h.laid.sound a.thread) (h.collected a.thread)
    rw [hstep] at hlaid ⊢
    refine ⟨hlaid, fun u => ?_, hconserves.coherent h.coherent, hconserves.undeleted h.undeleted⟩
    show (Function.update c.threads a.thread pc' u).Collected s'
    by_cases hut : u = a.thread
    · rw [hut, Function.update_self]
      exact hconserves.collected
    · rw [Function.update_of_ne hut]
      refine (h.collected u).frame (fun ids hids => hconserves.sources ids ?_) hconserves.kept
      intro id hpending hid
      obtain ⟨wal, hinv⟩ := h.laid
      exact hinv.pendingKept a.thread u id hpending (hids id hid)

/-- A shard after a run of operations, whose documents are acknowledged, before any thread
begins another call. -/
def Running.after (writeBufferSize : Nat) (searcher : MultiSegmentSearcher)
    (ops : List ShardEngine.Op) : Running where
  engine := ShardEngine.runNew writeBufferSize searcher ops
  threads := fun _ => .idle
  acked := ops.flatMap ShardEngine.Op.docs

/-- **Runs that delete nothing leave a shard in order.** -/
theorem orderly_after (writeBufferSize : Nat) (searcher : MultiSegmentSearcher)
    {ops : List ShardEngine.Op} (hops : ∀ op ∈ ops, op.AppendOnly) :
    Orderly (Running.after writeBufferSize searcher ops) := by
  have hinv := ShardEngine.inv_runNew writeBufferSize searcher ops
  have hexact := ShardEngine.exact_runNew writeBufferSize searcher hops
  obtain ⟨log, hlog⟩ : ∃ log : Log,
      log.readAll = (ops.flatMap ShardEngine.Op.docs).map .index := by
    refine ⟨((Log.openRecords []).appendBatch ((ops.flatMap ShardEngine.Op.docs).map .index)).2, ?_⟩
    rw [Log.readAll_appendBatch, Log.readAll_openRecords]
    rfl
  have hwal : log.readAll = (indexedDocs log.readAll).map .index := by
    rw [hlog, indexedDocs_map_index]
  have hacked : ∀ doc ∈ ops.flatMap ShardEngine.Op.docs, WalEntry.index doc ∈ log.readAll := by
    intro doc hdoc
    rw [hlog]
    exact List.mem_map_of_mem hdoc
  exact ⟨⟨log, inv_idle hexact.onDisk hinv.synced.fresh hwal
    fun doc hdoc => Or.inl (hacked doc hdoc)⟩, fun _ => trivial, hinv.coherent, hexact.deletedIds⟩

/-- Searches find the shard readable at any moment. -/
theorem Orderly.readable {c : Running} (h : Orderly c) : c.engine.Readable where
  whole := fun e he => by
    obtain ⟨wal, hinv⟩ := h.laid
    obtain ⟨docs, hreader, -⟩ := hinv.plain e he
    exact ⟨docs, ∅, hreader⟩
  coherent := h.coherent

/-- A shard shows what it holds. -/
theorem Orderly.visible {c : Running} (h : Orderly c) : c.engine.visible = c.engine.holds := by
  simp [ShardEngine.visible, ShardEngine.holds, WriteBuffer.allDocs, h.undeleted]

/-! ## 6. The account of a run -/

/-- What the threads of `T` carry. -/
def Running.carried (T : Finset Nat) (c : Running) : Multiset Document :=
  T.sum (fun t => ↑(c.threads t).carrying)

/-- The documents of the calls they are in. -/
def Running.called (T : Finset Nat) (c : Running) : Multiset Document :=
  T.sum (fun t => ↑(c.threads t).call)

/-- **The account**: what the shard holds and the threads carry is what the calls have brought,
and a surplus of documents among them. -/
structure Balance (T : Finset Nat) (c : Running) (surplus : Multiset Document) : Prop where
  held : c.engine.holds + c.carried T = ↑c.acked + c.called T + surplus
  known : ∀ doc ∈ surplus, doc ∈ ↑c.acked + c.called T

theorem carried_of_idle {T : Finset Nat} {c : Running} (h : ∀ t, c.threads t = .idle) :
    c.carried T = 0 :=
  Finset.sum_eq_zero (fun t _ => by rw [h t]; rfl)

theorem called_of_idle {T : Finset Nat} {c : Running} (h : ∀ t, c.threads t = .idle) :
    c.called T = 0 :=
  Finset.sum_eq_zero (fun t _ => by rw [h t]; rfl)

/-- A sum over threads when one of them has moved. -/
theorem sum_update {T : Finset Nat} {t : Nat} (ht : t ∈ T) (threads : Nat → Pc) (pc' : Pc)
    (f : Pc → Multiset Document) :
    T.sum (fun u => f (Function.update threads t pc' u)) + f (threads t)
      = T.sum (fun u => f (threads u)) + f pc' := by
  have hrest : (T.erase t).sum (fun u => f (Function.update threads t pc' u))
      = (T.erase t).sum (fun u => f (threads u)) :=
    Finset.sum_congr rfl (fun u hu => by rw [Function.update_of_ne (Finset.ne_of_mem_erase hu)])
  rw [← Finset.add_sum_erase T _ ht, ← Finset.add_sum_erase T (fun u => f (threads u)) ht, hrest,
    Function.update_self]
  abel

/-- What the calls have brought grows by what a new call brings. -/
theorem called_update {T : Finset Nat} {t : Nat} (ht : t ∈ T) {threads : Nat → Pc} {pc' : Pc}
    {brought acked : List Document} (before : List Document)
    (hcalls : pc'.call ++ acked = (threads t).call ++ brought) :
    (↑(before ++ acked) : Multiset Document)
        + T.sum (fun u => ↑(Function.update threads t pc' u).call)
      = ↑before + T.sum (fun u => ↑(threads u).call) + ↑brought := by
  have hsum := sum_update ht threads pc' (fun pc => ↑pc.call)
  have hcoe := congrArg (fun docs : List Document => (↑docs : Multiset Document)) hcalls
  refine Multiset.ext.mpr (fun doc => ?_)
  replace hsum := congrArg (Multiset.count doc) hsum
  replace hcoe := congrArg (Multiset.count doc) hcoe
  simp only [← Multiset.coe_add, Multiset.count_add] at hsum hcoe ⊢
  omega

/-- **An action adds its surplus to the account**, which is none if no merge is disturbed. -/
theorem Balance.step {T : Finset Nat} {c : Running} {E : Multiset Document} (h : Balance T c E)
    (horderly : Orderly c) (names : SegmentId → List SegmentFileName) {a : Action}
    (ha : a.thread ∈ T) :
    ∃ E', Balance T (cstep names c a) (E + E') ∧ (E' = 0 ↔ MergeUndisturbed c a) := by
  rcases cstep_cases names c a with ⟨hcall, hsame⟩ | ⟨s', pc', acked, hkind, htakes, hstep⟩
  · refine ⟨0, by rwa [hsame, add_zero], iff_of_true rfl ?_⟩
    cases a with
    | step t => exact absurd trivial hcall
    | _ => trivial
  · have hcollected := horderly.collected a.thread
    have hconserves := htakes.conserves (horderly.laid.sound a.thread) hcollected
    refine ⟨(c.threads a.thread).surplus c.engine, ?_, ?_⟩
    · have hcarried := sum_update ha c.threads pc' (fun pc => ↑pc.carrying)
      have hcalled := called_update ha c.acked hconserves.calls
      have hheld := h.held
      have hbalance := hconserves.balance
      have hsurplus : ∀ doc ∈ (c.threads a.thread).surplus c.engine,
          doc ∈ c.engine.segments.liveDocuments := hcollected.mem_of_mem_surplus
      rw [hstep]
      refine ⟨Multiset.ext.mpr (fun doc => ?_), fun doc hdoc => ?_⟩
      · replace hcarried := congrArg (Multiset.count doc) hcarried
        replace hcalled := congrArg (Multiset.count doc) hcalled
        replace hheld := congrArg (Multiset.count doc) hheld
        replace hbalance := congrArg (Multiset.count doc) hbalance
        simp only [Running.carried, Running.called, ← Multiset.coe_add, Multiset.count_add] at *
        omega
      · have hgrown : ↑c.acked + c.called T ≤ ↑(c.acked ++ acked)
            + T.sum (fun u => ↑(Function.update c.threads a.thread pc' u).call) := by
          rw [hcalled]
          exact Multiset.le_add_right _ _
        refine Multiset.mem_of_le hgrown ?_
        rcases Multiset.mem_add.mp hdoc with hold | hnew
        · exact h.known doc hold
        · -- the surplus is of documents that registered segments hold
          have hholds : doc ∈ c.engine.holds + c.carried T :=
            Multiset.mem_add.mpr (Or.inl (Multiset.mem_add.mpr (Or.inl (hsurplus doc hnew))))
          rw [h.held] at hholds
          rcases Multiset.mem_add.mp hholds with hcall | hold
          · exact hcall
          · exact h.known doc hold
    · rw [hcollected.surplus_eq_zero_iff]
      rcases hkind with hkind | hidle
      · cases a with
        | step t => exact Iff.rfl
        | _ => exact absurd hkind id
      · rw [hidle]
        cases a with
        | step t =>
          have hthread : c.threads t = .idle := hidle
          rw [MergeUndisturbed, hthread]
        | _ => exact Iff.rfl

/-- **A run adds the surplus of its actions**, which is none if no merge is disturbed. -/
theorem Balance.run {T : Finset Nat} (names : SegmentId → List SegmentFileName) :
    ∀ (actions : List Action) (c : Running) (E : Multiset Document), Balance T c E → Orderly c →
    (∀ a ∈ actions, a.thread ∈ T) →
    ∃ E', Balance T (LabelledRun.run (cstep names) c actions) (E + E') ∧
      (E' = 0 ↔ LabelledRun.Along (cstep names) MergeUndisturbed c actions) := by
  intro actions
  induction actions with
  | nil =>
    intro c E h _ _
    exact ⟨0, by rwa [add_zero], iff_of_true rfl trivial⟩
  | cons a actions ih =>
    intro c E h horderly hT
    obtain ⟨E₁, hstep, hzero⟩ := h.step horderly names (hT a List.mem_cons_self)
    obtain ⟨E₂, hrun, hzeros⟩ := ih (cstep names c a) (E + E₁) hstep
      (horderly.step names a) (fun b hb => hT b (List.mem_cons_of_mem _ hb))
    refine ⟨E₁ + E₂, ?_, ?_⟩
    · rw [← add_assoc]
      exact hrun
    · rw [add_eq_zero, hzero, hzeros]
      exact Iff.rfl

/-- The threads of a run. -/
def actors (actions : List Action) : Finset Nat := (actions.map Action.thread).toFinset

/-- A thread that is never chosen is idle. -/
theorem threads_run_of_notMem (names : SegmentId → List SegmentFileName) {t : Nat} :
    ∀ (actions : List Action) (c : Running), t ∉ actions.map Action.thread →
    (LabelledRun.run (cstep names) c actions).threads t = c.threads t := by
  intro actions
  induction actions with
  | nil => exact fun _ _ => rfl
  | cons a actions ih =>
    intro c ht
    rw [List.map_cons, List.mem_cons, not_or] at ht
    rw [LabelledRun.run_cons, ih _ ht.2]
    rcases cstep_cases names c a with ⟨-, hsame⟩ | ⟨s', pc', acked, -, -, hstep⟩
    · rw [hsame]
    · rw [hstep]
      exact Function.update_of_ne ht.1 pc' c.threads

/-- The thread is in no call. -/
def Pc.isIdle : Pc → Bool
  | .idle => true
  | _ => false

/-- A shard after a run of operations, and then actions of threads. -/
def runAfter (names : SegmentId → List SegmentFileName) (writeBufferSize : Nat)
    (searcher : MultiSegmentSearcher) (ops : List ShardEngine.Op) (actions : List Action) :
    Running :=
  LabelledRun.run (cstep names) (Running.after writeBufferSize searcher ops) actions

section

variable {names : SegmentId → List SegmentFileName} {writeBufferSize : Nat}
  {searcher : MultiSegmentSearcher} {ops : List ShardEngine.Op} {actions : List Action}

/-- All calls have returned when those of the run's threads have. -/
theorem idle_runAfter
    (h : ∀ t ∈ actors actions,
      ((runAfter names writeBufferSize searcher ops actions).threads t).isIdle = true) (t : Nat) :
    (runAfter names writeBufferSize searcher ops actions).threads t = .idle := by
  by_cases ht : t ∈ actors actions
  · have hidle := h t ht
    cases hpc : (runAfter names writeBufferSize searcher ops actions).threads t with
    | idle => rfl
    | _ =>
      rw [hpc] at hidle
      cases hidle
  · have hnot : t ∉ actions.map Action.thread := fun hmem => ht (List.mem_toFinset.mpr hmem)
    rw [runAfter, threads_run_of_notMem names actions _ hnot]
    rfl

/-- Nothing is in surplus before threads begin. -/
theorem balance_after (T : Finset Nat) (hops : ∀ op ∈ ops, op.AppendOnly) :
    Balance T (Running.after writeBufferSize searcher ops) 0 := by
  refine ⟨?_, fun doc hdoc => absurd hdoc (Multiset.notMem_zero doc)⟩
  have hcontent := (ShardEngine.exact_runNew writeBufferSize searcher hops).content
  rw [ShardEngine.indexedDocs_flatMap_entries] at hcontent
  rw [carried_of_idle (fun _ => rfl), called_of_idle (fun _ => rfl), add_zero, add_zero, add_zero]
  exact hcontent

theorem orderly_runAfter (hops : ∀ op ∈ ops, op.AppendOnly) :
    Orderly (runAfter names writeBufferSize searcher ops actions) :=
  LabelledRun.run_inv (fun _ a h => h.step names a) actions _
    (orderly_after writeBufferSize searcher hops)

end

/-- Documents with distinct ids are there once each just when none of them is there besides. -/
theorem once_iff_surplus_eq_zero {docs : List Document} (hids : (docs.map Document.id).Nodup)
    {surplus : Multiset Document} (hknown : ∀ doc ∈ surplus, doc ∈ docs) :
    (∀ doc ∈ docs, (↑docs + surplus).filter (fun d => d.id = doc.id) = {doc}) ↔ surplus = 0 := by
  have hown : ∀ doc ∈ docs, (↑docs : Multiset Document).filter (fun d => d.id = doc.id) = {doc} :=
    fun doc hdoc => by
      rw [Multiset.filter_coe, ShardEngine.filter_id_eq hids hdoc]
      rfl
  constructor
  · intro honce
    refine Multiset.eq_zero_of_forall_notMem (fun doc hdoc => ?_)
    have hfilter := honce doc (hknown doc hdoc)
    rw [Multiset.filter_add, hown doc (hknown doc hdoc), add_eq_left] at hfilter
    have hmem : doc ∈ surplus.filter (fun d => d.id = doc.id) :=
      Multiset.mem_filter.mpr ⟨hdoc, rfl⟩
    rw [hfilter] at hmem
    exact Multiset.notMem_zero doc hmem
  · rintro rfl doc hdoc
    rw [add_zero, hown doc hdoc]

/-- **Merges show every document once just when they are not disturbed.**  Take a shard after any
run that deletes nothing, then any number of threads that index and flush it, until all calls
have returned, and let the documents these calls and the run have brought have distinct ids.  Then
every match-all search shows each of these documents exactly once, if and only if every merge of
the threads found, when it replaced its group, open segments that held just the documents it had
read. -/
theorem merges_show_once_iff (names : SegmentId → List SegmentFileName) (writeBufferSize : Nat)
    (searcher : MultiSegmentSearcher) (ops : List ShardEngine.Op)
    (hops : ∀ op ∈ ops, op.AppendOnly) (actions : List Action) :
    let c := runAfter names writeBufferSize searcher ops actions
    (∀ t, c.threads t = .idle) → (c.acked.map Document.id).Nodup →
    ((∀ doc ∈ c.acked, c.engine.ShowsOnce doc) ↔
      LabelledRun.Along (cstep names) MergeUndisturbed
        (Running.after writeBufferSize searcher ops) actions) := by
  intro c hidle hids
  have horderly : Orderly c := orderly_runAfter hops
  obtain ⟨E, hbalance, hzero⟩ := Balance.run names actions _ 0
    (balance_after (actors actions) hops) (orderly_after writeBufferSize searcher hops)
    (fun a ha => List.mem_toFinset.mpr (List.mem_map_of_mem ha))
  replace hbalance : Balance (actors actions) c E := by rwa [zero_add] at hbalance
  have hvisible : c.engine.visible = ↑c.acked + E := by
    have hheld := hbalance.held
    rwa [carried_of_idle hidle, called_of_idle hidle, add_zero, add_zero,
      ← horderly.visible] at hheld
  have hknown : ∀ doc ∈ E, doc ∈ c.acked := by
    intro doc hdoc
    have hcalled := hbalance.known doc hdoc
    rwa [called_of_idle hidle, add_zero] at hcalled
  rw [← hzero, ← once_iff_surplus_eq_zero hids hknown, ← hvisible]
  exact forall₂_congr (fun doc _ => horderly.readable.showsOnce_iff doc)

/-- Two segments, and a restart. -/
def twoSegments : List ShardEngine.Op :=
  [.index (ShardEngine.titled 1 "a"), .flush, .index (ShardEngine.titled 2 "b"), .flush, .reopen]

/-- A flush makes a third, and merges the three. -/
def mergeAlone : List Action :=
  [.index 0 [ShardEngine.titled 3 "c"], .step 0, .flush 0] ++ List.replicate 42 (.step 0)

theorem merges_show_once_alone :
    (runAfter SegmentDirs.plainFiles 1000 .unscored twoSegments mergeAlone).engine.ShowsOnce
      (ShardEngine.titled 1 "a") :=
  (merges_show_once_iff SegmentDirs.plainFiles 1000 .unscored twoSegments (by decide) mergeAlone
    (idle_runAfter (by decide +kernel)) (by decide +kernel)).mpr (by decide +kernel)
    (ShardEngine.titled 1 "a") (by decide +kernel)

/-- A flush writes the merge of three segments, and before it replaces them another flush writes
the merge of four. -/
def mergesOverlap : List Action :=
  [.index 0 [ShardEngine.titled 3 "c"], .step 0, .flush 0] ++ List.replicate 21 (.step 0)
    ++ [.index 1 [ShardEngine.titled 4 "d"], .step 1, .flush 1] ++ List.replicate 21 (.step 1)
    ++ List.replicate 21 (.step 0) ++ List.replicate 27 (.step 1)

/-- **Both merges register the documents of the first three segments.** -/
theorem not_merges_show_once :
    (∀ t, (runAfter SegmentDirs.plainFiles 1000 .unscored twoSegments
      mergesOverlap).threads t = .idle) ∧
    ((runAfter SegmentDirs.plainFiles 1000 .unscored twoSegments
      mergesOverlap).acked.map Document.id).Nodup ∧
    ¬ ∀ doc ∈ (runAfter SegmentDirs.plainFiles 1000 .unscored twoSegments mergesOverlap).acked,
      (runAfter SegmentDirs.plainFiles 1000 .unscored twoSegments
        mergesOverlap).engine.ShowsOnce doc := by
  refine ⟨idle_runAfter (by decide +kernel), by decide +kernel, fun honce => ?_⟩
  have horderly : Orderly (runAfter SegmentDirs.plainFiles 1000 .unscored twoSegments
      mergesOverlap) := orderly_runAfter (by decide)
  have hfilter := (horderly.readable.showsOnce_iff _).mp (honce (ShardEngine.titled 1 "a")
    (by decide +kernel))
  exact absurd hfilter (by decide +kernel)

end Concurrent

end ZearchEngine
