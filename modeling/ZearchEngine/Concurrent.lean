/-
# Writers beside a flush

`flush` empties the log *after* it has drained the buffer, in a critical section of its own.  A
document logged in between is in the log that is emptied, and in no segment.  As long as every
truncation finds only documents that some registered segment holds (`TruncateCovered`), nothing
acknowledged is lost in any run of any number of threads, wherever the process dies
(`acked_survive`).
-/
import ZearchEngine.AppendOnly
import ZearchEngine.Crash
import ZearchEngine.Threads

namespace ZearchEngine

open KeyedStore

namespace Concurrent

/-! ## 1. Truncations -/

/-- If the thread is about to empty the log, registered segments hold all documents in it. -/
def Pc.Covered (s : ShardEngine) : Pc → Prop
  | .registered _ => ∀ doc ∈ indexedDocs s.wal.readAll,
      ∃ e ∈ s.segments.segments, doc ∈ e.reader.liveDocuments
  | _ => True

instance (s : ShardEngine) : DecidablePred (Pc.Covered s)
  | .registered _ => inferInstanceAs (Decidable (∀ doc ∈ indexedDocs s.wal.readAll, _))
  | .idle | .appended _ | .flushing _ | .drained _ _ | .writing _ _ _ _ _ | .opened _ _ _ _
  | .truncated _ | .merging _ _ | .numbered _ _ _ _ | .removing _ _ _ => isTrue trivial

/-- A truncation finds only documents that a registered segment holds. -/
def TruncateCovered (c : Running) : Action → Prop
  | .step t => (c.threads t).Covered c.engine
  | _ => True

instance (c : Running) : DecidablePred (TruncateCovered c)
  | .step t => inferInstanceAs (Decidable ((c.threads t).Covered c.engine))
  | .index _ _ | .flush _ => isTrue trivial

/-! ## 2. What a thread holds -/

/-- The document is in the log, or in a registered segment. -/
def Durable (s : ShardEngine) (doc : Document) : Prop :=
  .index doc ∈ s.wal.readAll ∨ ∃ e ∈ s.segments.segments, doc ∈ e.reader.liveDocuments

/-- A registered segment, without deletions, and its directory. -/
def Plain (dirs : SegmentDirs) (e : SegmentEntry) : Prop :=
  ∃ docs, e.reader = SegmentReader.ofDocs docs ∅ ∧
    dirs.lookup e.segmentId = some (SegmentDir.written docs none)

/-- The documents a thread has logged in its call. -/
def Pc.call : Pc → List Document
  | .idle => []
  | .appended docs => docs
  | .flushing call | .drained call _ | .writing call _ _ _ _ | .opened call _ _ _
  | .registered call | .truncated call | .merging call _ | .numbered call _ _ _
  | .removing call _ _ => call

/-- The id a thread has taken for a segment that is not registered yet. -/
def Pc.pending : Pc → Option SegmentId
  | .writing _ _ segId _ _ | .opened _ _ segId _ | .numbered _ segId _ _ => some segId
  | _ => none

/-- The segments a job is to replace, now or later. -/
def Job.replacing : Job → List SegmentId
  | .flush => []
  | .merge segmentIds groups => segmentIds ++ groups.flatten

/-- The segments a thread may replace, now or later, or is removing. -/
def Pc.replacing : Pc → List SegmentId
  | .writing _ job _ _ _ | .opened _ job _ _ => job.replacing
  | .merging _ groups => groups.flatten
  | .numbered _ _ segmentIds groups => segmentIds ++ groups.flatten
  | .removing _ left groups => left.map DirEffect.target ++ groups.flatten
  | _ => []

/-- The documents include those of every registered segment that the job replaces. -/
def Job.Covers (s : ShardEngine) (docs : List Document) : Job → Prop
  | .flush => True
  | .merge segmentIds _ => ∀ e ∈ s.segments.segments, e.segmentId ∈ segmentIds →
      ∀ doc ∈ e.reader.liveDocuments, doc ∈ docs

/-- What holds of the segment a thread is working on. -/
def Pc.Sound (s : ShardEngine) : Pc → Prop
  | .writing _ job segId docs left => job.Covers s docs ∧
      ∃ done, SegmentDirs.writeSegment segId docs = done ++ left ∧
        s.dirs.lookup segId = done.foldl DirEffect.on none
  | .opened _ job segId reader => ∃ docs, job.Covers s docs ∧
      reader = SegmentReader.ofDocs docs ∅ ∧
      s.dirs.lookup segId = some (SegmentDir.written docs none)
  | .numbered _ segId _ _ => s.dirs.lookup segId = none
  | .removing _ left _ => ∀ e ∈ left, e.IsRemoval ∧ e.target ∉ s.openIds
  | _ => True

/-- **Frame.**  What a thread relies on is left alone by a step that does not touch its pending
directory and registers none of the segments it is to replace. -/
theorem Pc.Sound.frame {pc : Pc} {s s' : ShardEngine} (h : pc.Sound s)
    (hdirs : ∀ id, pc.pending = some id → s'.dirs.lookup id = s.dirs.lookup id)
    (hsegs : ∀ e ∈ s'.segments.segments,
      e ∈ s.segments.segments ∨ e.segmentId ∉ pc.replacing) : pc.Sound s' := by
  have hcovers : ∀ {docs : List Document} {job : Job},
      (∀ e ∈ s'.segments.segments, e ∈ s.segments.segments ∨ e.segmentId ∉ job.replacing) →
      job.Covers s docs → job.Covers s' docs := by
    intro docs job hjob hcov
    cases job with
    | flush => trivial
    | merge segmentIds groups =>
      intro e he hid
      rcases hjob e he with hold | hnot
      · exact hcov e hold hid
      · exact absurd (List.mem_append_left _ hid) hnot
  cases pc with
  | writing call job segId docs left =>
    obtain ⟨hcov, done, hsplit, hlook⟩ := h
    exact ⟨hcovers hsegs hcov, done, hsplit, (hdirs segId rfl).trans hlook⟩
  | opened call job segId reader =>
    obtain ⟨docs, hcov, hreader, hlook⟩ := h
    exact ⟨docs, hcovers hsegs hcov, hreader, (hdirs segId rfl).trans hlook⟩
  | numbered call segId segmentIds groups => exact (hdirs segId rfl).trans h
  | removing call left groups =>
    refine fun e he => ⟨(h e he).1, fun hopen => ?_⟩
    obtain ⟨entry, hentry, hid⟩ := List.mem_map.mp hopen
    rcases hsegs entry hentry with hold | hnot
    · exact (h e he).2 (hid ▸ List.mem_map_of_mem hold)
    · exact hnot (hid ▸ List.mem_append_left _ (List.mem_map_of_mem he))
  | _ => trivial

/-- A segment whose operations are all done opens, with its documents. -/
theorem Pc.Sound.openDir {s : ShardEngine} {call : List Document} {job : Job} {segId : SegmentId}
    {docs : List Document} (h : (Pc.writing call job segId docs []).Sound s) :
    s.dirs.lookup segId = some (SegmentDir.written docs none) ∧
      s.dirs.lookup segId >>= SegmentReader.openDir = some (SegmentReader.ofDocs docs ∅) := by
  obtain ⟨-, done, hsplit, hlook⟩ := h
  rw [List.append_nil] at hsplit
  rw [hlook, ← hsplit]
  exact ⟨rfl, rfl⟩

/-! ## 3. The invariant -/

/-- The registered segments are whole, no two threads work on one segment, and what has been
logged and not failed is durable. -/
structure Inv (c : Running) : Prop where
  plain : ∀ e ∈ c.engine.segments.segments, Plain c.engine.dirs e
  fresh : ∀ id ∈ c.engine.dirs, id.seq < c.engine.segments.nextSegmentSeq
  pendingLt : ∀ t id, (c.threads t).pending = some id → id.seq < c.engine.segments.nextSegmentSeq
  pendingNew : ∀ t id, (c.threads t).pending = some id → id ∉ c.engine.openIds
  pendingOwn : ∀ t u id, (c.threads t).pending = some id → (c.threads u).pending = some id → t = u
  pendingKept : ∀ t u id, (c.threads t).pending = some id → id ∉ (c.threads u).replacing
  replacingLt : ∀ t, ∀ id ∈ (c.threads t).replacing, id.seq < c.engine.segments.nextSegmentSeq
  sound : ∀ t, (c.threads t).Sound c.engine
  wal : c.engine.wal.readAll = (indexedDocs c.engine.wal.readAll).map .index
  call : ∀ t, ∀ doc ∈ (c.threads t).call, Durable c.engine doc
  acked : ∀ doc ∈ c.acked, Durable c.engine doc

/-- A registered id is in use. -/
theorem Inv.openLt {c : Running} (h : Inv c) {id : SegmentId} (hid : id ∈ c.engine.openIds) :
    id.seq < c.engine.segments.nextSegmentSeq := by
  obtain ⟨e, he, rfl⟩ := List.mem_map.mp hid
  obtain ⟨docs, -, hlook⟩ := h.plain e he
  exact h.fresh _ (mem_iff_lookup.mpr ⟨_, hlook⟩)

/-- **What one step of a thread may do.**  It registers no segment but its pending one; it takes
an id only from the counter; it touches no directory but its pending one and those it is
removing; and what was durable stays so. -/
structure Advances (s : ShardEngine) (pc : Pc) (s' : ShardEngine) (pc' : Pc)
    (acked : List Document) : Prop where
  next : s.segments.nextSegmentSeq ≤ s'.segments.nextSegmentSeq
  segments : ∀ e ∈ s'.segments.segments, e ∈ s.segments.segments ∨
    (pc.pending = some e.segmentId ∧ pc'.pending = none ∧ Plain s'.dirs e)
  pending : pc'.pending = none ∨ pc'.pending = pc.pending ∨
    (pc'.pending = some ⟨s.segments.nextSegmentSeq⟩ ∧
      s.segments.nextSegmentSeq < s'.segments.nextSegmentSeq)
  replacing : ∀ id ∈ pc'.replacing, id ∈ pc.replacing ∨ id ∈ s.openIds
  dirs : ∀ id, s'.dirs.lookup id = s.dirs.lookup id ∨ pc.pending = some id ∨
    (id ∈ pc.replacing ∧ id ∉ s.openIds)
  fresh : ∀ id ∈ s'.dirs, id ∈ s.dirs ∨ pc.pending = some id
  sound : pc'.Sound s'
  wal : s'.wal.readAll = (indexedDocs s'.wal.readAll).map .index
  durable : ∀ doc, Durable s doc → Durable s' doc
  call : ∀ doc ∈ pc'.call ++ acked, doc ∈ pc.call ∨ Durable s' doc

section

variable {c : Running} {t : Nat} {s' : ShardEngine} {pc' : Pc} {acked : List Document}

/-- The ids of registered segments: those from before, and the thread's own. -/
theorem Advances.of_mem_openIds (ha : Advances c.engine (c.threads t) s' pc' acked)
    {id : SegmentId} (hid : id ∈ s'.openIds) :
    id ∈ c.engine.openIds ∨ ((c.threads t).pending = some id ∧ pc'.pending = none) := by
  obtain ⟨e, he, rfl⟩ := List.mem_map.mp hid
  rcases ha.segments e he with hold | ⟨hpend, hnone, -⟩
  · exact Or.inl (List.mem_map_of_mem hold)
  · exact Or.inr ⟨hpend, hnone⟩

/-- What a thread has pending: what it had, and a new id for the thread that moved. -/
theorem Advances.pending_update (ha : Advances c.engine (c.threads t) s' pc' acked) {u : Nat}
    {id : SegmentId} (hu : (Function.update c.threads t pc' u).pending = some id) :
    (c.threads u).pending = some id ∨ (u = t ∧ id = ⟨c.engine.segments.nextSegmentSeq⟩ ∧
      c.engine.segments.nextSegmentSeq < s'.segments.nextSegmentSeq) := by
  by_cases hut : u = t
  · subst hut
    rw [Function.update_self] at hu
    rcases ha.pending with hnone | hsame | ⟨hnew, hlt⟩
    · rw [hnone] at hu
      cases hu
    · exact Or.inl (hsame ▸ hu)
    · rw [hnew, Option.some.injEq] at hu
      exact Or.inr ⟨rfl, hu.symm, hlt⟩
  · rw [Function.update_of_ne hut] at hu
    exact Or.inl hu

/-- What a thread may replace: what it could, and segments registered when it moved. -/
theorem Advances.replacing_update (ha : Advances c.engine (c.threads t) s' pc' acked) {u : Nat}
    {id : SegmentId} (hid : id ∈ (Function.update c.threads t pc' u).replacing) :
    id ∈ (c.threads u).replacing ∨ id ∈ c.engine.openIds := by
  by_cases hut : u = t
  · subst hut
    rw [Function.update_self] at hid
    exact ha.replacing id hid
  · rw [Function.update_of_ne hut] at hid
    exact Or.inl hid

/-- The thread that moved is sound, and the others are as they were. -/
theorem Inv.sound_update (h : Inv c) (ha : Advances c.engine (c.threads t) s' pc' acked)
    (u : Nat) : (Function.update c.threads t pc' u).Sound s' := by
  by_cases hut : u = t
  · subst hut
    rw [Function.update_self]
    exact ha.sound
  · rw [Function.update_of_ne hut]
    refine (h.sound u).frame (fun id hid => ?_) (fun e he => ?_)
    · rcases ha.dirs id with hsame | hpend | ⟨hrep, -⟩
      · exact hsame
      · exact absurd (h.pendingOwn u t id hid hpend) hut
      · exact absurd hrep (h.pendingKept u t id hid)
    · rcases ha.segments e he with hold | ⟨hpend, -, -⟩
      · exact Or.inl hold
      · exact Or.inr (h.pendingKept t u _ hpend)

/-- What the calls have logged stays durable. -/
theorem Inv.call_update (h : Inv c) (ha : Advances c.engine (c.threads t) s' pc' acked)
    (u : Nat) : ∀ doc ∈ (Function.update c.threads t pc' u).call, Durable s' doc := by
  intro doc hdoc
  by_cases hut : u = t
  · subst hut
    rw [Function.update_self] at hdoc
    rcases ha.call doc (List.mem_append_left _ hdoc) with hold | hdur
    · exact ha.durable doc (h.call u doc hold)
    · exact hdur
  · rw [Function.update_of_ne hut] at hdoc
    exact ha.durable doc (h.call u doc hdoc)

/-- **Whatever a thread's step may do keeps the invariant**, for this thread and the others. -/
theorem Inv.after (h : Inv c) (ha : Advances c.engine (c.threads t) s' pc' acked) :
    Inv
      { engine := s'
        threads := Function.update c.threads t pc'
        acked := c.acked ++ acked } where
  plain := by
    intro e he
    rcases ha.segments e he with hold | ⟨-, -, hplain⟩
    · obtain ⟨docs, hreader, hlook⟩ := h.plain e hold
      have hid : e.segmentId ∈ c.engine.openIds := List.mem_map_of_mem hold
      refine ⟨docs, hreader, ?_⟩
      rcases ha.dirs e.segmentId with hsame | hpend | ⟨-, hnot⟩
      · exact hsame.trans hlook
      · exact absurd hid (h.pendingNew t _ hpend)
      · exact absurd hid hnot
    · exact hplain
  fresh := by
    intro id hid
    rcases ha.fresh id hid with hold | hpend
    · exact (h.fresh id hold).trans_le ha.next
    · exact (h.pendingLt t id hpend).trans_le ha.next
  pendingLt := by
    intro u id hu
    rcases ha.pending_update hu with hold | ⟨-, rfl, hlt⟩
    · exact (h.pendingLt u id hold).trans_le ha.next
    · exact hlt
  pendingNew := by
    intro u id hu hid
    rcases ha.pending_update hu with hold | ⟨rfl, rfl, -⟩
    · rcases ha.of_mem_openIds hid with hreg | ⟨hpend, hnone⟩
      · exact h.pendingNew u id hold hreg
      · -- the id was registered by the thread that had it pending, which no longer has it
        obtain rfl := h.pendingOwn u t id hold hpend
        have hself : (Function.update c.threads u pc' u).pending = some id := hu
        rw [Function.update_self, hnone] at hself
        cases hself
    · rcases ha.of_mem_openIds hid with hreg | ⟨hpend, -⟩
      · exact Nat.lt_irrefl _ (h.openLt hreg)
      · exact Nat.lt_irrefl _ (h.pendingLt _ _ hpend)
  pendingOwn := by
    intro u v id hu hv
    rcases ha.pending_update hu with hold | ⟨rfl, rfl, -⟩ <;>
      rcases ha.pending_update hv with hold' | ⟨rfl, hnew, -⟩
    · exact h.pendingOwn u v id hold hold'
    · exact absurd (hnew ▸ h.pendingLt u id hold) (Nat.lt_irrefl _)
    · exact absurd (h.pendingLt v _ hold') (Nat.lt_irrefl _)
    · rfl
  pendingKept := by
    intro u v id hu hid
    rcases ha.replacing_update hid with hrep | hreg
    · rcases ha.pending_update hu with hold | ⟨-, rfl, -⟩
      · exact h.pendingKept u v id hold hrep
      · exact Nat.lt_irrefl _ (h.replacingLt v _ hrep)
    · rcases ha.pending_update hu with hold | ⟨-, rfl, -⟩
      · exact h.pendingNew u id hold hreg
      · exact Nat.lt_irrefl _ (h.openLt hreg)
  replacingLt := by
    intro u id hid
    rcases ha.replacing_update hid with hrep | hreg
    · exact (h.replacingLt u id hrep).trans_le ha.next
    · exact (h.openLt hreg).trans_le ha.next
  sound := h.sound_update ha
  wal := ha.wal
  call := h.call_update ha
  acked := by
    intro doc hdoc
    rcases List.mem_append.mp hdoc with hold | hnew
    · exact ha.durable doc (h.acked doc hold)
    · rcases ha.call doc (List.mem_append_right _ hnew) with hcall | hdur
      · exact ha.durable doc (h.call t doc hcall)
      · exact hdur

end

/-! ## 4. The steps -/

/-- The log has only documents. -/
def IndexOnly (s : ShardEngine) : Prop :=
  s.wal.readAll = (indexedDocs s.wal.readAll).map .index

/-- A step that changes neither the list, nor the directories, nor the log. -/
theorem Advances.quiet {s s' : ShardEngine} {pc pc' : Pc} {acked : List Document}
    (hw : IndexOnly s) (hsegs : s'.segments = s.segments) (hdirs : s'.dirs = s.dirs)
    (hwal : s'.wal = s.wal) (hpending : pc'.pending = none ∨ pc'.pending = pc.pending)
    (hreplacing : ∀ id ∈ pc'.replacing, id ∈ pc.replacing ∨ id ∈ s.openIds)
    (hsound : pc'.Sound s') (hcall : ∀ doc ∈ pc'.call ++ acked, doc ∈ pc.call) :
    Advances s pc s' pc' acked where
  next := by rw [hsegs]
  segments := fun e he => Or.inl (by rwa [hsegs] at he)
  pending := hpending.imp_right Or.inl
  replacing := hreplacing
  dirs := fun id => Or.inl (by rw [hdirs])
  fresh := fun id hid => Or.inl (by rwa [hdirs] at hid)
  sound := hsound
  wal := by rwa [hwal]
  durable := fun doc hdoc => by rwa [Durable, hwal, hsegs]
  call := fun doc hdoc => Or.inl (hcall doc hdoc)

/-- Taking an id from the counter. -/
theorem Advances.number {s : ShardEngine} {pc pc' : Pc} (hw : IndexOnly s)
    (hpending : pc'.pending = some ⟨s.segments.nextSegmentSeq⟩)
    (hreplacing : ∀ id ∈ pc'.replacing, id ∈ pc.replacing)
    (hsound : pc'.Sound { s with segments := s.segments.nextSegmentId.2 })
    (hcall : ∀ doc ∈ pc'.call, doc ∈ pc.call) :
    Advances s pc { s with segments := s.segments.nextSegmentId.2 } pc' [] where
  next := Nat.le_succ _
  segments := fun _ he => Or.inl he
  pending := Or.inr (Or.inr ⟨hpending, Nat.lt_succ_self _⟩)
  replacing := fun id hid => Or.inl (hreplacing id hid)
  dirs := fun _ => Or.inl rfl
  fresh := fun _ hid => Or.inl hid
  sound := hsound
  wal := hw
  durable := fun _ hdoc => hdoc
  call := fun doc hdoc => Or.inl (hcall doc (by rwa [List.append_nil] at hdoc))

/-- An operation on the pending directory, or on one that is being removed. -/
theorem Advances.effect {s : ShardEngine} {pc pc' : Pc} {e : DirEffect} (hw : IndexOnly s)
    (htarget : pc.pending = some e.target ∨
      (e.IsRemoval ∧ e.target ∈ pc.replacing ∧ e.target ∉ s.openIds))
    (hpending : pc'.pending = pc.pending) (hreplacing : ∀ id ∈ pc'.replacing, id ∈ pc.replacing)
    (hsound : pc'.Sound { s with dirs := s.dirs.apply e })
    (hcall : ∀ doc ∈ pc'.call, doc ∈ pc.call) :
    Advances s pc { s with dirs := s.dirs.apply e } pc' [] where
  next := Nat.le_refl _
  segments := fun _ he => Or.inl he
  pending := Or.inr (Or.inl hpending)
  replacing := fun id hid => Or.inl (hreplacing id hid)
  dirs := fun id => by
    by_cases hid : e.target = id
    · subst hid
      exact Or.inr (htarget.imp_right And.right)
    · exact Or.inl (SegmentDirs.lookup_apply_of_ne _ hid)
  fresh := fun id hid => by
    by_cases htid : e.target = id
    · subst htid
      rcases htarget with hpend | ⟨hrem, -, -⟩
      · exact Or.inr hpend
      · obtain ⟨dir, hdir⟩ := mem_iff_lookup.mp hid
        refine Or.inl ?_
        cases hlook : s.dirs.lookup e.target with
        | some dir' => exact mem_iff_lookup.mpr ⟨dir', hlook⟩
        | none =>
          have happly : (s.dirs.apply e).lookup e.target = some dir := hdir
          rw [SegmentDirs.lookup_apply_target, hlook] at happly
          cases e with
          | createDir id => exact hrem.elim
          | write id file => exact hrem.elim
          | unlink id name => cases happly
          | removeDir id => cases happly
    · obtain ⟨dir, hdir⟩ := mem_iff_lookup.mp hid
      have happly : (s.dirs.apply e).lookup id = some dir := hdir
      rw [SegmentDirs.lookup_apply_of_ne _ htid] at happly
      exact Or.inl (mem_iff_lookup.mpr ⟨dir, happly⟩)
  sound := hsound
  wal := hw
  durable := fun _ hdoc => hdoc
  call := fun doc hdoc => Or.inl (hcall doc (by rwa [List.append_nil] at hdoc))

/-- Registering the pending segment in place of segments whose documents it has. -/
theorem Advances.register {s : ShardEngine} {pc pc' : Pc} {segId : SegmentId}
    {docs : List Document} {oldIds : List SegmentId} (hw : IndexOnly s)
    (hpending : pc.pending = some segId) (hdone : pc'.pending = none)
    (hlook : s.dirs.lookup segId = some (SegmentDir.written docs none))
    (hcovers : ∀ e ∈ s.segments.segments, e.segmentId ∈ oldIds →
      ∀ doc ∈ e.reader.liveDocuments, doc ∈ docs)
    (hreplacing : ∀ id ∈ pc'.replacing, id ∈ pc.replacing)
    (hsound : pc'.Sound
      { s with segments := s.segments.replaceSegments oldIds ⟨segId, .ofDocs docs ∅⟩ })
    (hcall : ∀ doc ∈ pc'.call, doc ∈ pc.call) :
    Advances s pc
      { s with segments := s.segments.replaceSegments oldIds ⟨segId, .ofDocs docs ∅⟩ } pc' [] where
  next := Nat.le_refl _
  segments := fun e he => by
    rcases List.mem_append.mp he with hold | hnew
    · exact Or.inl (List.mem_of_mem_filter hold)
    · obtain rfl := List.mem_singleton.mp hnew
      exact Or.inr ⟨hpending, hdone, docs, rfl, hlook⟩
  pending := Or.inl hdone
  replacing := fun id hid => Or.inl (hreplacing id hid)
  dirs := fun _ => Or.inl rfl
  fresh := fun _ hid => Or.inl hid
  sound := hsound
  wal := hw
  durable := fun doc hdoc => by
    rcases hdoc with hlog | ⟨e, he, hlive⟩
    · exact Or.inl hlog
    · by_cases hold : e.segmentId ∈ oldIds
      · refine Or.inr ⟨⟨segId, SegmentReader.ofDocs docs ∅⟩,
          List.mem_append_right _ List.mem_cons_self, ?_⟩
        rw [SegmentReader.liveDocuments_ofDocs_empty]
        exact hcovers e he hold doc hlive
      · exact Or.inr ⟨e, List.mem_append_left _
          (List.mem_filter.mpr ⟨he, by simpa using hold⟩), hlive⟩
  call := fun doc hdoc => Or.inl (hcall doc (by rwa [List.append_nil] at hdoc))

/-- Emptying the log, when registered segments hold all its documents. -/
theorem Advances.truncate {s : ShardEngine} {call : List Document}
    (hcovered : ∀ doc ∈ indexedDocs s.wal.readAll,
      ∃ e ∈ s.segments.segments, doc ∈ e.reader.liveDocuments) :
    Advances s (.registered call) { s with wal := s.wal.truncate } (.truncated call) [] where
  next := Nat.le_refl _
  segments := fun _ he => Or.inl he
  pending := Or.inl rfl
  replacing := fun _ hid => nomatch hid
  dirs := fun _ => Or.inl rfl
  fresh := fun _ hid => Or.inl hid
  sound := trivial
  wal := rfl
  durable := fun doc hdoc => by
    rcases hdoc with hlog | hseg
    · exact Or.inr (hcovered doc (List.mem_filterMap.mpr ⟨_, hlog, rfl⟩))
    · exact Or.inr hseg
  call := fun _ hdoc => Or.inl (by rwa [List.append_nil] at hdoc)

/-- Logging the documents of a call. -/
theorem Advances.append {s : ShardEngine} (hw : IndexOnly s) (docs : List Document) :
    Advances s .idle { s with wal := (s.wal.appendBatch (docs.map .index)).2 } (.appended docs)
      [] where
  next := Nat.le_refl _
  segments := fun _ he => Or.inl he
  pending := Or.inl rfl
  replacing := fun _ hid => nomatch hid
  dirs := fun _ => Or.inl rfl
  fresh := fun _ hid => Or.inl hid
  sound := trivial
  wal := by
    show (s.wal.appendBatch (docs.map .index)).2.readAll
      = (indexedDocs (s.wal.appendBatch (docs.map .index)).2.readAll).map .index
    rw [Log.readAll_appendBatch, indexedDocs_append, indexedDocs_map_index, List.map_append, ← hw]
  durable := fun doc hdoc => by
    rcases hdoc with hlog | hseg
    · refine Or.inl ?_
      show _ ∈ (s.wal.appendBatch (docs.map .index)).2.readAll
      rw [Log.readAll_appendBatch]
      exact List.mem_append_left _ hlog
    · exact Or.inr hseg
  call := fun doc hdoc => by
    refine Or.inr (Or.inl ?_)
    show _ ∈ (s.wal.appendBatch (docs.map .index)).2.readAll
    rw [Log.readAll_appendBatch]
    rw [List.append_nil] at hdoc
    exact List.mem_append_right _ (List.mem_map_of_mem hdoc)

/-- A step of writing a segment: its next file operation, or opening it. -/
theorem advances_writing {s : ShardEngine} (hw : IndexOnly s)
    (names : SegmentId → List SegmentFileName) {call : List Document} {job : Job}
    {segId : SegmentId} {docs : List Document} {left : List DirEffect}
    (hsound : (Pc.writing call job segId docs left).Sound s) :
    Advances s (.writing call job segId docs left)
      (advance names s (.writing call job segId docs left)).1
      (advance names s (.writing call job segId docs left)).2.1
      (advance names s (.writing call job segId docs left)).2.2 := by
  cases left with
  | cons e left =>
    obtain ⟨hcovers, done, hsplit, hlook⟩ := hsound
    have htarget : e.target = segId := SegmentDirs.target_of_mem_writeSegment
      (hsplit ▸ List.mem_append_right _ List.mem_cons_self)
    have hstep : (s.dirs.apply e).lookup segId = (done ++ [e]).foldl DirEffect.on none := by
      rw [← htarget, SegmentDirs.lookup_apply_target, htarget, hlook, List.foldl_append]
      rfl
    simp only [advance]
    refine .effect hw (Or.inl (by rw [htarget]; rfl)) rfl (fun _ hid => hid)
      ⟨?_, done ++ [e], ?_, hstep⟩ (fun _ hdoc => hdoc)
    · cases job with
      | flush => trivial
      | merge segmentIds groups => exact hcovers
    · rw [hsplit, List.append_assoc]
      rfl
  | nil =>
    obtain ⟨hwhole, hopen⟩ := hsound.openDir
    simp only [advance, hopen]
    exact .quiet hw rfl rfl rfl (Or.inr rfl) (fun _ hid => Or.inl hid)
      ⟨docs, hsound.1, rfl, hwhole⟩ (by simp [Pc.call])

/-- Removing directories is removals of them. -/
theorem removeDirs_spec {names : SegmentId → List SegmentFileName} {segmentIds : List SegmentId}
    {e : DirEffect} (he : e ∈ removeDirs names segmentIds) :
    e.IsRemoval ∧ e.target ∈ segmentIds := by
  obtain ⟨id, hid, hmem⟩ := List.mem_flatMap.mp he
  obtain ⟨hremoval, htarget⟩ := of_mem_removeDirAll hmem
  exact ⟨hremoval, htarget ▸ hid⟩

/-- Registering a written segment. -/
theorem advances_opened {s : ShardEngine} (hw : IndexOnly s)
    (names : SegmentId → List SegmentFileName) {call : List Document} {job : Job}
    {segId : SegmentId} {reader : SegmentReader}
    (hsound : (Pc.opened call job segId reader).Sound s) (hkept : segId ∉ job.replacing) :
    Advances s (.opened call job segId reader)
      (advance names s (.opened call job segId reader)).1
      (advance names s (.opened call job segId reader)).2.1
      (advance names s (.opened call job segId reader)).2.2 := by
  obtain ⟨docs, hcovers, rfl, hlook⟩ := hsound
  cases job with
  | flush =>
    simp only [advance, SegmentList.addSegment_eq]
    exact .register hw rfl rfl hlook (by simp) (by simp [Pc.replacing]) trivial
      (fun _ hdoc => hdoc)
  | merge segmentIds groups =>
    simp only [advance]
    refine .register hw rfl rfl hlook hcovers (fun id hid => ?_) (fun e he => ?_)
      (fun _ hdoc => hdoc)
    · rcases List.mem_append.mp hid with hleft | hgroups
      · obtain ⟨e, he, rfl⟩ := List.mem_map.mp hleft
        exact List.mem_append_left _ (removeDirs_spec he).2
      · exact List.mem_append_right _ hgroups
    · obtain ⟨hremoval, htarget⟩ := removeDirs_spec he
      refine ⟨hremoval, fun hopen => ?_⟩
      obtain ⟨entry, hentry, hid⟩ := List.mem_map.mp hopen
      rcases List.mem_append.mp hentry with hold | hnew
      · exact of_decide_eq_true (List.mem_filter.mp hold).2 (hid ▸ htarget)
      · obtain rfl := List.mem_singleton.mp hnew
        have hsame : segId = e.target := hid
        exact hkept (List.mem_append_left _ (by rw [hsame]; exact htarget))

/-- **Every step of a thread is one it may do**, when truncations are covered. -/
theorem Inv.advances {c : Running} (h : Inv c) (names : SegmentId → List SegmentFileName) {t : Nat}
    (hcovered : TruncateCovered c (.step t)) :
    Advances c.engine (c.threads t) (advance names c.engine (c.threads t)).1
      (advance names c.engine (c.threads t)).2.1 (advance names c.engine (c.threads t)).2.2 := by
  have hw : IndexOnly c.engine := h.wal
  have hnext : c.engine.dirs.lookup ⟨c.engine.segments.nextSegmentSeq⟩ = none :=
    AList.lookup_eq_none.mpr (fun hmem => Nat.lt_irrefl _ (h.fresh _ hmem))
  have hsound := h.sound t
  have hkept := fun id hid => h.pendingKept t t id hid
  have hcov : (c.threads t).Covered c.engine := hcovered
  clear hcovered h
  generalize c.threads t = pc at *
  generalize c.engine = s at *
  cases pc with
  | idle =>
    simp only [advance]
    exact .quiet hw rfl rfl rfl (Or.inl rfl) (by simp [Pc.replacing]) trivial (by simp [Pc.call])
  | appended docs =>
    by_cases hfull : (s.writeBuffer.addAll docs).1 = true
    · simp only [advance, hfull, if_true]
      exact .quiet hw rfl rfl rfl (Or.inl rfl) (by simp [Pc.replacing]) trivial (by simp [Pc.call])
    · simp only [advance, hfull]
      exact .quiet hw rfl rfl rfl (Or.inl rfl) (by simp [Pc.replacing]) trivial (by simp [Pc.call])
  | flushing call =>
    by_cases hempty : s.writeBuffer.docs.isEmpty = true
    · simp only [advance, WriteBuffer.drain, hempty, if_true]
      exact .quiet hw rfl rfl rfl (Or.inl rfl) (by simp [Pc.replacing]) trivial (by simp [Pc.call])
    · simp only [advance, WriteBuffer.drain, hempty]
      exact .quiet hw rfl rfl rfl (Or.inl rfl) (by simp [Pc.replacing]) trivial (by simp [Pc.call])
  | drained call docs =>
    simp only [advance]
    exact .number hw rfl (by simp [Pc.replacing, Job.replacing]) ⟨trivial, [], rfl, hnext⟩
      (fun _ hdoc => hdoc)
  | writing call job segId docs left => exact advances_writing hw names hsound
  | opened call job segId reader => exact advances_opened hw names hsound (hkept segId rfl)
  | registered call =>
    simp only [advance]
    exact .truncate hcov
  | truncated call =>
    simp only [advance]
    refine .quiet hw rfl rfl rfl (Or.inl rfl) (fun id hid => Or.inr ?_) trivial
      (by simp [Pc.call])
    obtain ⟨group, hgroup, hid⟩ := List.mem_flatten.mp hid
    obtain ⟨e, he, rfl⟩ := mem_of_mem_findMerges hgroup hid
    exact List.mem_map_of_mem he
  | merging call groups =>
    cases groups with
    | nil =>
      simp only [advance]
      exact .quiet hw rfl rfl rfl (Or.inl rfl) (by simp [Pc.replacing]) trivial (by simp [Pc.call])
    | cons segmentIds groups =>
      simp only [advance]
      exact .number hw rfl (by simp [Pc.replacing]) hnext (fun _ hdoc => hdoc)
  | numbered call segId segmentIds groups =>
    simp only [advance]
    refine .quiet hw rfl rfl rfl (Or.inr rfl) (fun _ hid => Or.inl hid) ⟨?_, [], rfl, hsound⟩
      (by simp [Pc.call])
    intro e he hid doc hdoc
    exact List.mem_flatMap.mpr ⟨e, List.mem_filter.mpr ⟨he, by simpa using hid⟩, hdoc⟩
  | removing call left groups =>
    cases left with
    | nil =>
      simp only [advance]
      exact .quiet hw rfl rfl rfl (Or.inl rfl) (fun _ hid => Or.inl hid) trivial (by simp [Pc.call])
    | cons e left =>
      obtain ⟨hremoval, htarget⟩ := hsound e List.mem_cons_self
      simp only [advance]
      exact .effect hw (Or.inr ⟨hremoval, List.mem_cons_self, htarget⟩) rfl
        (fun _ hid => List.mem_cons_of_mem _ hid)
        (fun e he => hsound e (List.mem_cons_of_mem _ he)) (fun _ hdoc => hdoc)

/-- **Every action keeps the invariant**, when truncations are covered. -/
theorem Inv.step {c : Running} (h : Inv c) (names : SegmentId → List SegmentFileName) {a : Action}
    (hcovered : TruncateCovered c a) : Inv (cstep names c a) := by
  cases a with
  | index t docs =>
    cases hpc : c.threads t with
    | idle =>
      have hnext := h.after (t := t) (by rw [hpc]; exact Advances.append h.wal docs)
      rw [List.append_nil] at hnext
      simpa only [cstep, hpc] using hnext
    | _ => simpa only [cstep, hpc] using h
  | flush t =>
    cases hpc : c.threads t with
    | idle =>
      have hquiet : Advances c.engine (c.threads t) c.engine (.flushing []) [] := by
        rw [hpc]
        exact .quiet h.wal rfl rfl rfl (Or.inl rfl) (by simp [Pc.replacing]) trivial
          (by simp [Pc.call])
      have hnext := h.after hquiet
      rw [List.append_nil] at hnext
      simpa only [cstep, hpc] using hnext
    | _ => simpa only [cstep, hpc] using h
  | step t => exact h.after (h.advances names hcovered)

/-- Where all threads are idle, it is about the engine only. -/
theorem inv_idle {s : ShardEngine} {acked : List Document}
    (hplain : ∀ e ∈ s.segments.segments, Plain s.dirs e)
    (hfresh : ∀ id ∈ s.dirs, id.seq < s.segments.nextSegmentSeq)
    (hwal : s.wal.readAll = (indexedDocs s.wal.readAll).map .index)
    (hacked : ∀ doc ∈ acked, Durable s doc) : Inv ⟨s, fun _ => .idle, acked⟩ where
  plain := hplain
  fresh := hfresh
  pendingLt := fun _ _ hid => nomatch hid
  pendingNew := fun _ _ hid => nomatch hid
  pendingOwn := fun _ _ _ hid => nomatch hid
  pendingKept := fun _ _ _ hid => nomatch hid
  replacingLt := fun _ _ hid => nomatch hid
  sound := fun _ => trivial
  wal := hwal
  call := fun _ _ hdoc => nomatch hdoc
  acked := hacked

theorem inv_new (writeBufferSize : Nat) (searcher : MultiSegmentSearcher) :
    Inv (Running.new writeBufferSize searcher) :=
  inv_idle (fun _ he => nomatch he) (fun _ hid => absurd hid (AList.notMem_empty _)) rfl
    (fun _ hdoc => nomatch hdoc)

/-! ## 5. After a crash -/

/-- A thread in the middle of a file operation does not touch a registered directory. -/
theorem Inv.lookup_tearNext {c : Running} (h : Inv c) {id : SegmentId}
    (hid : id ∈ c.engine.openIds) (dirs : SegmentDirs) (t : Nat) :
    (tearNext c.threads dirs t).lookup id = dirs.lookup id := by
  have hsound := h.sound t
  have hnew := h.pendingNew t
  unfold tearNext
  generalize c.threads t = pc at hsound hnew
  cases pc with
  | writing call job segId docs left =>
    cases left with
    | nil => rfl
    | cons e left =>
      obtain ⟨-, done, hsplit, -⟩ := hsound
      have htarget : e.target = segId := SegmentDirs.target_of_mem_writeSegment
        (hsplit ▸ List.mem_append_right _ List.mem_cons_self)
      refine SegmentDirs.lookup_tear_of_ne dirs (fun heq => ?_)
      exact hnew segId rfl (by rw [← htarget, heq]; exact hid)
  | removing call left groups =>
    cases left with
    | nil => rfl
    | cons e left =>
      refine SegmentDirs.lookup_tear_of_ne dirs (fun heq => ?_)
      exact (hsound e List.mem_cons_self).2 (by rw [heq]; exact hid)
  | _ => rfl

/-- **What is durable is there after a crash.** -/
theorem Inv.mem_visible_crash {c : Running} (h : Inv c) (writeBufferSize : Nat)
    (searcher : MultiSegmentSearcher) (extra : List Document) (torn : List Nat) {doc : Document}
    (hdoc : Durable c.engine doc) :
    doc ∈ (ShardEngine.openDisk writeBufferSize searcher (c.crash extra torn)).visible := by
  have hwal : (c.crash extra torn).wal.map WalRecord.entry
      = (indexedDocs c.engine.wal.readAll ++ extra).map .index := by
    have happend := Log.readAll_appendBatch c.engine.wal (extra.map .index)
    rw [List.map_append, ← h.wal]
    exact happend
  rw [ShardEngine.visible_openDisk hwal, Multiset.mem_add]
  rcases hdoc with hlog | ⟨e, he, hlive⟩
  · exact Or.inr (List.mem_append_left _ (List.mem_filterMap.mpr ⟨_, hlog, rfl⟩))
  · obtain ⟨docs, hreader, hlook⟩ := h.plain e he
    have hid : e.segmentId ∈ c.engine.openIds := List.mem_map_of_mem he
    have htorn : ∀ (ts : List Nat) (dirs : SegmentDirs),
        (ts.foldl (tearNext c.threads) dirs).lookup e.segmentId = dirs.lookup e.segmentId := by
      intro ts
      induction ts with
      | nil => exact fun _ => rfl
      | cons t ts ih => exact fun dirs => (ih _).trans (h.lookup_tearNext hid dirs t)
    refine Or.inl (SegmentDirs.mem_live.mpr ⟨e.segmentId, _, (htorn torn _).trans hlook, ?_⟩)
    rw [SegmentDir.live_written_none]
    rw [hreader, SegmentReader.liveDocuments_ofDocs_empty] at hlive
    exact hlive

/-- **No acknowledged document is lost, as long as truncations are covered.**  In every run of
any number of threads that index and flush, in which the log is only ever emptied when
registered segments hold all documents in it, and wherever the process dies: every document
whose call has returned `Ok` is there when the shard is opened again. -/
theorem acked_survive (names : SegmentId → List SegmentFileName) (writeBufferSize : Nat)
    (searcher : MultiSegmentSearcher) (actions : List Action)
    (hcovered : LabelledRun.Along (cstep names) TruncateCovered
      (Running.new writeBufferSize searcher) actions)
    (extra : List Document) (torn : List Nat) :
    let c := runNew names writeBufferSize searcher actions
    ∀ doc ∈ c.acked,
      doc ∈ (ShardEngine.openDisk writeBufferSize searcher (c.crash extra torn)).visible := by
  intro c doc hdoc
  have hinv : Inv c := LabelledRun.Along.inv (fun _ _ h hcov => h.step names hcov) actions _
    hcovered (inv_new writeBufferSize searcher)
  exact hinv.mem_visible_crash writeBufferSize searcher extra torn (hinv.acked doc hdoc)

/-- Two writers before a flush. -/
def writesThenFlush : List Action :=
  [.index 0 [ShardEngine.titled 1 "a"], .index 1 [ShardEngine.titled 2 "b"], .step 1, .step 0]
    ++ .flush 2 :: List.replicate 11 (.step 2)

/-- The log is emptied when the flushed segment has both documents. -/
theorem acked_survive_writesThenFlush :
    ShardEngine.titled 2 "b" ∈ (ShardEngine.openDisk 1000 .unscored
      ((runNew SegmentDirs.plainFiles 1000 .unscored writesThenFlush).crash
        [ShardEngine.titled 3 "c"] [2])).visible :=
  acked_survive SegmentDirs.plainFiles 1000 .unscored writesThenFlush (by decide)
    [ShardEngine.titled 3 "c"] [2] (ShardEngine.titled 2 "b") (by decide)

/-- A writer between the drain and the truncation of a flush. -/
def writeInFlush : List Action :=
  [.index 0 [ShardEngine.titled 1 "a"], .step 0] ++ .flush 2 :: List.replicate 10 (.step 2)
    ++ [.index 1 [ShardEngine.titled 2 "b"], .step 1, .step 2]

/-- Its document is acknowledged, and gone after a crash. -/
theorem acked_lost :
    ¬ ∀ doc ∈ (runNew SegmentDirs.plainFiles 1000 .unscored writeInFlush).acked,
      doc ∈ (ShardEngine.openDisk 1000 .unscored
        ((runNew SegmentDirs.plainFiles 1000 .unscored writeInFlush).crash [] [])).visible := by
  decide

end Concurrent

end ZearchEngine
