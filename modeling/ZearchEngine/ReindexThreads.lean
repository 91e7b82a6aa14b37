/-
# A reindex beside writers

`reindex_self` takes no lock from its beginning to its end.  It reads the live documents of
the open segments at one moment, the ids of the segments it is going to replace at another, and
empties the log at a third.  A flush that registers its segment between the first two loses that
segment; a document that is logged before the third and is in no segment by then is in memory
only.

`ReindexPc` is where the call of `reindex_self` is, beside the threads of `Running`, and `view`
shows it as one of these threads.  In every run in which the ids are read while the collected
documents include those of all registered segments, and the log is only ever emptied when
registered segments hold all documents in it, the acknowledged documents are found when all
calls have returned, and after a crash at any moment (`reindex_keeps`).
-/
import ZearchEngine.Concurrent

namespace ZearchEngine

open KeyedStore

namespace Concurrent

/-! ## 1. The call of `reindex_self` -/

/-- Where the call is, with the local variables it still needs. -/
inductive ReindexPc where
  | idle
  /-- In its `flush`. -/
  | flushing (pc : Pc)
  /-- The flush has returned; the live documents are next. -/
  | flushed
  /-- The live documents are collected. -/
  | collected (docs : List Document)
  /-- These operations are left of writing the new segment. -/
  | writing (segId : SegmentId) (docs : List Document) (left : List DirEffect)
  /-- The new segment is written and open; the ids of the old ones are next. -/
  | opened (segId : SegmentId) (reader : SegmentReader)
  /-- The swap is next. -/
  | swapping (segId : SegmentId) (reader : SegmentReader) (oldIds : List SegmentId)
  /-- These operations are left of removing the old directories. -/
  | removing (left : List DirEffect)
  /-- The log is next. -/
  | truncating
  | returned

/-- A shard with its threads and a call of `reindex_self`. -/
structure Reindexing where
  running : Running
  reindexer : ReindexPc

/-- Where a step of `flush` leads the call.  A thread that was to open a segment and is idle has
failed. -/
def ReindexPc.afterFlush : Pc → Pc → ReindexPc
  | .writing _ _ _ _ _, .idle => .returned
  | _, .idle => .flushed
  | _, pc => .flushing pc

/-- The next step of the call. -/
def reindexAdvance (names : SegmentId → List SegmentFileName) (s : ShardEngine) :
    ReindexPc → ShardEngine × ReindexPc
  | .idle => (s, .idle)
  | .flushing pc =>
    let (s', pc', _) := advance names s pc
    (s', .afterFlush pc pc')
  | .flushed =>
    let docs := s.segments.segments.flatMap
      (fun e => e.reader.allLiveDocs.filterMap e.reader.getDoc)
    if docs.isEmpty then (s, .returned) else (s, .collected docs)
  | .collected docs =>
    let (segId, segments) := s.segments.nextSegmentId
    ({ s with segments }, .writing segId docs (SegmentDirs.writeSegment segId docs))
  | .writing segId docs (e :: left) =>
    ({ s with dirs := s.dirs.apply e }, .writing segId docs left)
  | .writing segId _ [] =>
    match s.dirs.lookup segId >>= SegmentReader.openDir with
    | some reader => (s, .opened segId reader)
    | none => (s, .returned)
  | .opened segId reader => (s, .swapping segId reader s.openIds)
  | .swapping segId reader oldIds =>
    ({ s with segments := s.segments.replaceSegments oldIds ⟨segId, reader⟩ },
      .removing (removeDirs names oldIds))
  | .removing (e :: left) => ({ s with dirs := s.dirs.apply e }, .removing left)
  | .removing [] => (s, .truncating)
  | .truncating => ({ s with wal := s.wal.truncate }, .returned)
  | .returned => (s, .returned)

/-- The scheduler's choice: an action of a thread, or the reindex begins or takes its next
step. -/
inductive ReindexAction where
  | thread (action : Action)
  | begin
  | step

/-- The shard after an action. -/
def rstep (names : SegmentId → List SegmentFileName) (c : Reindexing) :
    ReindexAction → Reindexing
  | .thread action => { c with running := cstep names c.running action }
  | .begin =>
    match c.reindexer with
    | .idle => { c with reindexer := .flushing (.flushing []) }
    | _ => c
  | .step =>
    let (engine, reindexer) := reindexAdvance names c.running.engine c.reindexer
    { running := { c.running with engine }, reindexer }

/-- A new shard. -/
def Reindexing.new (writeBufferSize : Nat) (searcher : MultiSegmentSearcher) : Reindexing where
  running := Running.new writeBufferSize searcher
  reindexer := .idle

/-- The shard after a run of actions on a new one. -/
def runReindexing (names : SegmentId → List SegmentFileName) (writeBufferSize : Nat)
    (searcher : MultiSegmentSearcher) (actions : List ReindexAction) : Reindexing :=
  LabelledRun.run (rstep names) (Reindexing.new writeBufferSize searcher) actions

/-- All calls have returned. -/
def Reindexing.Returned (c : Reindexing) : Prop :=
  (∀ t, c.running.threads t = .idle) ∧ (c.reindexer = .idle ∨ c.reindexer = .returned)

/-- What the call relies on at its next step: when it reads the ids, that the new segment has
the documents of all registered ones, and when it empties the log, that these have all documents
in it. -/
def ReindexPc.Covered (s : ShardEngine) : ReindexPc → Prop
  | .flushing pc => pc.Covered s
  | .opened _ reader => ∀ e ∈ s.segments.segments, ∀ doc ∈ e.reader.liveDocuments,
      doc ∈ reader.liveDocuments
  | .truncating => ∀ doc ∈ indexedDocs s.wal.readAll,
      ∃ e ∈ s.segments.segments, doc ∈ e.reader.liveDocuments
  | _ => True

instance (s : ShardEngine) : DecidablePred (ReindexPc.Covered s)
  | .flushing pc => inferInstanceAs (Decidable (pc.Covered s))
  | .opened _ reader => inferInstanceAs (Decidable (∀ e ∈ s.segments.segments,
      ∀ doc ∈ e.reader.liveDocuments, doc ∈ reader.liveDocuments))
  | .truncating => inferInstanceAs (Decidable (∀ doc ∈ indexedDocs s.wal.readAll, _))
  | .idle | .flushed | .collected _ | .writing _ _ _ | .swapping _ _ _ | .removing _
  | .returned => isTrue trivial

/-- Every step of the reindex and every truncation of a flush is covered. -/
def ReindexCovered (c : Reindexing) : ReindexAction → Prop
  | .thread action => TruncateCovered c.running action
  | .begin => True
  | .step => c.reindexer.Covered c.running.engine

instance (c : Reindexing) : DecidablePred (ReindexCovered c)
  | .thread action => inferInstanceAs (Decidable (TruncateCovered c.running action))
  | .begin => isTrue trivial
  | .step => inferInstanceAs (Decidable (c.reindexer.Covered c.running.engine))

/-! ## 2. The call on its own -/

/-- The call takes some steps, and nothing comes between them. -/
def ReindexAlone (names : SegmentId → List SegmentFileName) (a b : ShardEngine × ReindexPc) :
    Prop :=
  ∃ n, (fun p : ShardEngine × ReindexPc => reindexAdvance names p.1 p.2)^[n] a = b

section

variable {names : SegmentId → List SegmentFileName}

theorem ReindexAlone.next {a b : ShardEngine × ReindexPc}
    (h : reindexAdvance names a.1 a.2 = b) : ReindexAlone names a b := ⟨1, h⟩

theorem ReindexAlone.trans {a b c : ShardEngine × ReindexPc} (hab : ReindexAlone names a b)
    (hbc : ReindexAlone names b c) : ReindexAlone names a c := by
  obtain ⟨m, rfl⟩ := hab
  obtain ⟨n, rfl⟩ := hbc
  exact ⟨n + m, Function.iterate_add_apply _ n m a⟩

variable (names)

theorem reindexAlone_write (segId : SegmentId) (docs : List Document) :
    ∀ (left : List DirEffect) (s : ShardEngine),
    ReindexAlone names (s, .writing segId docs left)
      ({ s with dirs := left.foldl SegmentDirs.apply s.dirs }, .writing segId docs [])
  | [], _ => ⟨0, rfl⟩
  | e :: left, s =>
    (ReindexAlone.next rfl).trans (reindexAlone_write segId docs left
      { s with dirs := s.dirs.apply e })

theorem reindexAlone_remove : ∀ (left : List DirEffect) (s : ShardEngine),
    ReindexAlone names (s, .removing left)
      ({ s with dirs := left.foldl SegmentDirs.apply s.dirs }, .truncating)
  | [], _ => .next rfl
  | e :: left, s =>
    (ReindexAlone.next rfl).trans (reindexAlone_remove left { s with dirs := s.dirs.apply e })

/-- **Past its flush, a call that nothing comes between is `reindex_self`.** -/
theorem reindexAlone_flushed {s : ShardEngine} (h : Synced s.segments s.dirs) :
    ReindexAlone names (s, .flushed)
      (if s.segments.liveDocuments.isEmpty then s else s.reindexed, .returned) := by
  have hdocs : s.segments.segments.flatMap
      (fun e => e.reader.allLiveDocs.filterMap e.reader.getDoc) = s.segments.liveDocuments := by
    simp only [SegmentReader.filterMap_allLiveDocs, SegmentList.liveDocuments]
  have hcollect : reindexAdvance names s .flushed
      = if s.segments.liveDocuments.isEmpty then (s, .returned)
        else (s, .collected s.segments.liveDocuments) := by
    simp only [reindexAdvance, hdocs]
  by_cases hempty : s.segments.liveDocuments.isEmpty = true
  · rw [if_pos hempty] at hcollect ⊢
    exact .next hcollect
  · rw [if_neg hempty] at hcollect ⊢
    have hnumber : ReindexAlone names (s, .collected s.segments.liveDocuments)
        ({ s with segments := s.segments.nextSegmentId.2 },
          .writing ⟨s.segments.nextSegmentSeq⟩ s.segments.liveDocuments
            (SegmentDirs.writeSegment ⟨s.segments.nextSegmentSeq⟩ s.segments.liveDocuments)) :=
      .next rfl
    have hwrite := reindexAlone_write names ⟨s.segments.nextSegmentSeq⟩
      s.segments.liveDocuments
      (SegmentDirs.writeSegment ⟨s.segments.nextSegmentSeq⟩ s.segments.liveDocuments)
      { s with segments := s.segments.nextSegmentId.2 }
    have hdirs := SegmentDirs.foldl_writeSegment h.next_notMem s.segments.liveDocuments
    simp only [hdirs] at hwrite
    have hopen : ReindexAlone names
        ({ s with
            segments := s.segments.nextSegmentId.2
            dirs := s.dirs.insert ⟨s.segments.nextSegmentSeq⟩
              (SegmentDir.written s.segments.liveDocuments none) },
          .writing ⟨s.segments.nextSegmentSeq⟩ s.segments.liveDocuments [])
        ({ s with
            segments := s.segments.nextSegmentId.2
            dirs := s.dirs.insert ⟨s.segments.nextSegmentSeq⟩
              (SegmentDir.written s.segments.liveDocuments none) },
          .opened ⟨s.segments.nextSegmentSeq⟩
            (SegmentReader.ofDocs s.segments.liveDocuments ∅)) := by
      refine .next ?_
      simp only [reindexAdvance, AList.lookup_insert, Option.bind_eq_bind, Option.bind_some,
        openDir_written, Option.getD_none]
    have hremove := reindexAlone_remove names (removeDirs names s.openIds)
      { s with
        segments := s.segments.install s.openIds s.segments.liveDocuments
        dirs := s.dirs.insert ⟨s.segments.nextSegmentSeq⟩
          (SegmentDir.written s.segments.liveDocuments none) }
    rw [foldl_removeDirs] at hremove
    exact (((ReindexAlone.next hcollect).trans hnumber).trans (hwrite.trans hopen)).trans
      ((ReindexAlone.next rfl).trans ((ReindexAlone.next rfl).trans
        (hremove.trans (.next rfl))))

end

/-! ## 3. The call as a thread -/

/-- The call, seen as a thread: it writes its segment as a merge would, of no segments until it
has read the ids. -/
def ReindexPc.asPc : ReindexPc → Pc
  | .idle | .flushed | .collected _ | .returned => .idle
  | .flushing pc => pc
  | .writing segId docs left => .writing [] (.merge [] []) segId docs left
  | .opened segId reader => .opened [] (.merge [] []) segId reader
  | .swapping segId reader oldIds => .opened [] (.merge oldIds []) segId reader
  | .removing left => .removing [] left []
  | .truncating => .registered []

/-- The threads, with the call as the first of them. -/
def Reindexing.threads (c : Reindexing) : Nat → Pc
  | 0 => c.reindexer.asPc
  | t + 1 => c.running.threads t

/-- The shard with the call as one of its threads. -/
def Reindexing.view (c : Reindexing) : Running where
  engine := c.running.engine
  threads := c.threads
  acked := c.running.acked

/-- The action of a thread, where the first thread is the reindex. -/
def Action.shift : Action → Action
  | .index t docs => .index (t + 1) docs
  | .flush t => .flush (t + 1)
  | .step t => .step (t + 1)

theorem Reindexing.threads_update (c : Reindexing) (t : Nat) (pc : Pc) (s : ShardEngine)
    (acked : List Document) :
    Reindexing.threads ⟨⟨s, Function.update c.running.threads t pc, acked⟩, c.reindexer⟩
      = Function.update c.threads (t + 1) pc := by
  funext u
  cases u with
  | zero => rw [Function.update_of_ne (Nat.zero_ne_add_one t)]; rfl
  | succ u =>
    show Function.update c.running.threads t pc u = _
    by_cases hut : u = t
    · rw [hut, Function.update_self, Function.update_self]
    · rw [Function.update_of_ne hut, Function.update_of_ne (by omega)]
      rfl

/-- **An action of a thread is one in the view.** -/
theorem view_thread (names : SegmentId → List SegmentFileName) (c : Reindexing) (a : Action) :
    (rstep names c (.thread a)).view = cstep names c.view a.shift := by
  have hview : ∀ (t : Nat) (pc : Pc) (s : ShardEngine) (acked : List Document),
      Reindexing.view ⟨⟨s, Function.update c.running.threads t pc, acked⟩, c.reindexer⟩
        = ⟨s, Function.update c.threads (t + 1) pc, acked⟩ := by
    intro t pc s acked
    rw [Reindexing.view, c.threads_update]
  have hthread : ∀ t, c.view.threads (t + 1) = c.running.threads t := fun _ => rfl
  cases a with
  | index t docs =>
    simp only [rstep, Action.shift, cstep, hthread]
    cases c.running.threads t with
    | idle => exact hview _ _ _ _
    | _ => rfl
  | flush t =>
    simp only [rstep, Action.shift, cstep, hthread]
    cases c.running.threads t with
    | idle => exact hview _ _ _ _
    | _ => rfl
  | step t => exact hview _ _ _ _

/-- A step of the call, in the view. -/
theorem view_step (c : Reindexing) (s : ShardEngine) (reindexer : ReindexPc) :
    Reindexing.view ⟨{ c.running with engine := s }, reindexer⟩
      = ⟨s, Function.update c.view.threads 0 reindexer.asPc, c.view.acked ++ []⟩ := by
  have hthreads : Reindexing.threads ⟨{ c.running with engine := s }, reindexer⟩
      = Function.update c.threads 0 reindexer.asPc := by
    funext u
    cases u with
    | zero => rw [Function.update_self]; rfl
    | succ u => rw [Function.update_of_ne (Nat.add_one_ne_zero u)]; rfl
  rw [List.append_nil, Reindexing.view, hthreads]
  rfl

/-! ## 4. Its steps -/

/-- A step that acknowledges documents may acknowledge none. -/
theorem Advances.unacked {s s' : ShardEngine} {pc pc' : Pc} {acked : List Document}
    (h : Advances s pc s' pc' acked) : Advances s pc s' pc' [] :=
  { h with
    call := fun doc hdoc => h.call doc (List.mem_append_left _ (by rwa [List.append_nil] at hdoc)) }

/-- The call returns once it has emptied the log. -/
theorem Advances.returned {s s' : ShardEngine} {pc : Pc}
    (h : Advances s pc s' (.truncated []) []) : Advances s pc s' .idle [] where
  next := h.next
  segments := h.segments
  pending := Or.inl rfl
  replacing := fun _ hid => absurd hid List.not_mem_nil
  dirs := h.dirs
  fresh := h.fresh
  sound := trivial
  wal := h.wal
  durable := h.durable
  call := fun _ hdoc => absurd hdoc List.not_mem_nil

theorem asPc_afterFlush (pc pc' : Pc) : (ReindexPc.afterFlush pc pc').asPc = pc' := by
  cases pc' with
  | idle => cases pc <;> rfl
  | _ => cases pc <;> rfl

/-- **Every step of the call is one a thread may do**, when it is covered. -/
theorem Inv.reindexAdvances {c : Reindexing} (h : Inv c.view)
    (names : SegmentId → List SegmentFileName)
    (hcovered : c.reindexer.Covered c.running.engine) :
    Advances c.view.engine (c.view.threads 0)
      (reindexAdvance names c.running.engine c.reindexer).1
      (reindexAdvance names c.running.engine c.reindexer).2.asPc [] := by
  have hw : IndexOnly c.running.engine := h.wal
  have hnext : c.running.engine.dirs.lookup ⟨c.running.engine.segments.nextSegmentSeq⟩ = none :=
    AList.lookup_eq_none.mpr (fun hmem => Nat.lt_irrefl _ (h.fresh _ hmem))
  have hsound : c.reindexer.asPc.Sound c.running.engine := h.sound 0
  have hadvance : c.reindexer.asPc.Covered c.running.engine →
      Advances c.running.engine c.reindexer.asPc
        (advance names c.running.engine c.reindexer.asPc).1
        (advance names c.running.engine c.reindexer.asPc).2.1 [] := by
    intro hcov
    have hstep : TruncateCovered c.view (.step 0) := hcov
    exact (h.advances names hstep).unacked
  show Advances c.running.engine c.reindexer.asPc _ _ []
  clear h
  generalize c.reindexer = pc at *
  generalize c.running.engine = s at *
  cases pc with
  | idle => exact hadvance trivial
  | returned => exact hadvance trivial
  | flushing pc =>
    simp only [reindexAdvance, asPc_afterFlush]
    exact hadvance hcovered
  | flushed =>
    have hidle : Advances s .idle s .idle [] := hadvance trivial
    simp only [reindexAdvance]
    split
    · exact hidle
    · exact hidle
  | collected docs =>
    simp only [reindexAdvance]
    refine .number hw rfl (fun _ hid => absurd hid List.not_mem_nil) ⟨?_, [], rfl, hnext⟩
      (fun _ hdoc => hdoc)
    exact fun _ _ hid => absurd hid List.not_mem_nil
  | writing segId docs left =>
    have hwriting := hadvance trivial
    cases left with
    | cons e left => exact hwriting
    | nil =>
      simp only [ReindexPc.asPc, advance] at hwriting
      simp only [reindexAdvance]
      cases hopen : s.dirs.lookup segId >>= SegmentReader.openDir with
      | none =>
        simp only [hopen] at hwriting
        exact hwriting
      | some reader =>
        simp only [hopen] at hwriting
        exact hwriting
  | opened segId reader =>
    obtain ⟨docs, -, rfl, hlook⟩ := hsound
    refine .quiet hw rfl rfl rfl (Or.inr rfl) (fun id hid => Or.inr ?_)
      ⟨docs, fun e he _ doc hdoc => ?_, rfl, hlook⟩ (fun _ hdoc => absurd hdoc List.not_mem_nil)
    · have hopen : id ∈ s.openIds ++ [] := hid
      rwa [List.append_nil] at hopen
    · have hcollected := hcovered e he doc hdoc
      rwa [SegmentReader.liveDocuments_ofDocs_empty] at hcollected
  | swapping segId reader oldIds => exact hadvance trivial
  | removing left =>
    cases left with
    | cons e left => exact hadvance trivial
    | nil =>
      exact .quiet hw rfl rfl rfl (Or.inl rfl) (fun _ hid => absurd hid List.not_mem_nil) trivial
        (by simp [ReindexPc.asPc, reindexAdvance, Pc.call])
  | truncating => exact (hadvance hcovered).returned

/-- **Every action keeps the invariant**, when it is covered. -/
theorem Inv.rstep {c : Reindexing} (h : Inv c.view) (names : SegmentId → List SegmentFileName)
    {a : ReindexAction} (hcovered : ReindexCovered c a) : Inv (rstep names c a).view := by
  cases a with
  | thread a =>
    rw [view_thread]
    refine h.step names ?_
    cases a with
    | index t docs => trivial
    | flush t => trivial
    | step t => exact hcovered
  | begin =>
    cases hpc : c.reindexer with
    | idle =>
      have hthread : c.view.threads 0 = .idle := congrArg ReindexPc.asPc hpc
      have hquiet : Advances c.view.engine (c.view.threads 0) c.view.engine (.flushing []) [] := by
        rw [hthread]
        exact .quiet h.wal rfl rfl rfl (Or.inl rfl) (by simp [Pc.replacing]) trivial
          (by simp [Pc.call])
      have hnext := h.after hquiet
      have hview := view_step c c.running.engine (.flushing (.flushing []))
      simp only [Concurrent.rstep, hpc]
      exact hview ▸ hnext
    | _ => simpa only [Concurrent.rstep, hpc] using h
  | step =>
    have hnext := h.after (h.reindexAdvances names hcovered)
    simp only [Concurrent.rstep]
    rw [view_step]
    exact hnext

/-! ## 5. Where the documents are -/

/-- The documents a thread has taken, for the buffer or out of it. -/
def Pc.carrying : Pc → List Document
  | .appended docs => docs
  | .drained _ docs => docs
  | .writing _ .flush _ docs _ => docs
  | .opened _ .flush _ reader => reader.liveDocuments
  | _ => []

/-- The document is in the buffer or in a registered segment. -/
def Here (s : ShardEngine) (doc : Document) : Prop :=
  doc ∈ s.writeBuffer.docs ∨ ∃ e ∈ s.segments.segments, doc ∈ e.reader.liveDocuments

/-- Or a thread carries it. -/
def Located (c : Running) (doc : Document) : Prop :=
  Here c.engine doc ∨ ∃ t, doc ∈ (c.threads t).carrying

/-- Every document that was logged and not failed is somewhere, and none is deleted. -/
structure Found (c : Running) : Prop where
  call : ∀ t, ∀ doc ∈ (c.threads t).call, Located c doc
  acked : ∀ doc ∈ c.acked, Located c doc
  undeleted : c.engine.writeBuffer.deletedIds = ∅

/-- **Where one step of a thread leaves the documents.** -/
structure Moves (s : ShardEngine) (pc : Pc) (s' : ShardEngine) (pc' : Pc)
    (acked : List Document) : Prop where
  here : ∀ doc, Here s doc → Here s' doc ∨ doc ∈ pc'.carrying
  carried : ∀ doc ∈ pc.carrying, Here s' doc ∨ doc ∈ pc'.carrying
  call : ∀ doc ∈ pc'.call ++ acked, doc ∈ pc.call ∨ doc ∈ pc'.carrying
  undeleted : s.writeBuffer.deletedIds = ∅ → s'.writeBuffer.deletedIds = ∅

section

variable {c : Running} {t : Nat} {s' : ShardEngine} {pc' : Pc} {acked : List Document}

theorem Located.after {doc : Document} (h : Located c doc)
    (hm : Moves c.engine (c.threads t) s' pc' acked) :
    Located ⟨s', Function.update c.threads t pc', c.acked ++ acked⟩ doc := by
  have hmoved : Here s' doc ∨ doc ∈ pc'.carrying →
      Located ⟨s', Function.update c.threads t pc', c.acked ++ acked⟩ doc := by
    rintro (hhere | hcarried)
    · exact Or.inl hhere
    · refine Or.inr ⟨t, ?_⟩
      show doc ∈ (Function.update c.threads t pc' t).carrying
      rwa [Function.update_self]
  rcases h with hhere | ⟨u, hu⟩
  · exact hmoved (hm.here doc hhere)
  · by_cases hut : u = t
    · rw [hut] at hu
      exact hmoved (hm.carried doc hu)
    · refine Or.inr ⟨u, ?_⟩
      show doc ∈ (Function.update c.threads t pc' u).carrying
      rwa [Function.update_of_ne hut]

/-- **Documents that are somewhere stay somewhere.** -/
theorem Found.after (h : Found c) (hm : Moves c.engine (c.threads t) s' pc' acked) :
    Found ⟨s', Function.update c.threads t pc', c.acked ++ acked⟩ := by
  have hmine : ∀ doc ∈ pc'.call ++ acked,
      Located ⟨s', Function.update c.threads t pc', c.acked ++ acked⟩ doc := by
    intro doc hdoc
    rcases hm.call doc hdoc with hold | hcarried
    · exact (h.call t doc hold).after hm
    · refine Or.inr ⟨t, ?_⟩
      show doc ∈ (Function.update c.threads t pc' t).carrying
      rwa [Function.update_self]
  refine ⟨fun u doc hdoc => ?_, fun doc hdoc => ?_, hm.undeleted h.undeleted⟩
  · by_cases hut : u = t
    · have hcall : doc ∈ (Function.update c.threads t pc' u).call := hdoc
      rw [hut, Function.update_self] at hcall
      exact hmine doc (List.mem_append_left _ hcall)
    · have hcall : doc ∈ (Function.update c.threads t pc' u).call := hdoc
      rw [Function.update_of_ne hut] at hcall
      exact (h.call u doc hcall).after hm
  · rcases List.mem_append.mp hdoc with hold | hnew
    · exact (h.acked doc hold).after hm
    · exact hmine doc (List.mem_append_right _ hnew)

end

/-- A step that leaves buffer and list alone. -/
theorem Moves.quiet {s s' : ShardEngine} {pc pc' : Pc} {acked : List Document}
    (hbuffer : s'.writeBuffer = s.writeBuffer)
    (hsegs : s'.segments.segments = s.segments.segments)
    (hcarried : ∀ doc ∈ pc.carrying, doc ∈ pc'.carrying)
    (hcall : ∀ doc ∈ pc'.call ++ acked, doc ∈ pc.call) : Moves s pc s' pc' acked where
  here := fun doc hdoc => Or.inl (by rwa [Here, hbuffer, hsegs])
  carried := fun doc hdoc => Or.inr (hcarried doc hdoc)
  call := fun doc hdoc => Or.inl (hcall doc hdoc)
  undeleted := fun h => by rwa [hbuffer]

/-- Registering a segment in place of segments whose documents it has. -/
theorem Moves.register {s : ShardEngine} {pc pc' : Pc} {segId : SegmentId}
    {docs : List Document} {oldIds : List SegmentId}
    (hcovers : ∀ e ∈ s.segments.segments, e.segmentId ∈ oldIds →
      ∀ doc ∈ e.reader.liveDocuments, doc ∈ docs)
    (hcarried : ∀ doc ∈ pc.carrying, doc ∈ docs)
    (hcall : ∀ doc ∈ pc'.call, doc ∈ pc.call) :
    Moves s pc { s with segments := s.segments.replaceSegments oldIds ⟨segId, .ofDocs docs ∅⟩ }
      pc' [] := by
  have hnew : ∀ doc ∈ docs,
      Here { s with segments := s.segments.replaceSegments oldIds ⟨segId, .ofDocs docs ∅⟩ }
        doc := by
    intro doc hdoc
    refine Or.inr ⟨⟨segId, .ofDocs docs ∅⟩, List.mem_append_right _ List.mem_cons_self, ?_⟩
    rwa [SegmentReader.liveDocuments_ofDocs_empty]
  refine ⟨fun doc hdoc => Or.inl ?_, fun doc hdoc => Or.inl (hnew doc (hcarried doc hdoc)),
    fun doc hdoc => Or.inl (hcall doc (by rwa [List.append_nil] at hdoc)), id⟩
  rcases hdoc with hbuffer | ⟨e, he, hlive⟩
  · exact Or.inl hbuffer
  · by_cases hold : e.segmentId ∈ oldIds
    · exact hnew doc (hcovers e he hold doc hlive)
    · exact Or.inr ⟨e, List.mem_append_left _
        (List.mem_filter.mpr ⟨he, by simpa using hold⟩), hlive⟩

/-- Handing the documents of the call to the buffer. -/
theorem Moves.add {s : ShardEngine} {docs : List Document} {pc' : Pc} {acked : List Document}
    (hcall : ∀ doc ∈ pc'.call ++ acked, doc ∈ docs) :
    Moves s (.appended docs) { s with writeBuffer := (s.writeBuffer.addAll docs).2 } pc' acked := by
  have hadded : ∀ doc, doc ∈ s.writeBuffer.docs ∨ doc ∈ docs →
      doc ∈ (s.writeBuffer.addAll docs).2.docs := by
    intro doc hdoc
    rw [WriteBuffer.addAll_docs]
    exact List.mem_append.mpr hdoc
  refine ⟨fun doc hdoc => Or.inl ?_, fun doc hdoc => Or.inl (Or.inl (hadded doc (Or.inr hdoc))),
    fun doc hdoc => Or.inl (hcall doc hdoc),
    fun hnone => (WriteBuffer.addAll_deletedIds docs _).trans hnone⟩
  rcases hdoc with hbuffer | hseg
  · exact Or.inl (hadded doc (Or.inl hbuffer))
  · exact Or.inr hseg

/-- Taking the documents of the buffer out of it. -/
theorem Moves.drain {s : ShardEngine} {call : List Document} {pc' : Pc} {acked : List Document}
    (hcarried : ∀ doc ∈ s.writeBuffer.docs, doc ∈ pc'.carrying)
    (hcall : ∀ doc ∈ pc'.call ++ acked, doc ∈ call) :
    Moves s (.flushing call) { s with writeBuffer := s.writeBuffer.drain.2 } pc' acked := by
  refine ⟨fun doc hdoc => ?_, fun _ hdoc => absurd hdoc List.not_mem_nil,
    fun doc hdoc => Or.inl (hcall doc hdoc), fun _ => rfl⟩
  rcases hdoc with hbuffer | hseg
  · exact Or.inr (hcarried doc hbuffer)
  · exact Or.inl (Or.inr hseg)

/-- **Every step of a thread moves its documents on.** -/
theorem Inv.moves {c : Running} (h : Inv c) (names : SegmentId → List SegmentFileName) (t : Nat) :
    Moves c.engine (c.threads t) (advance names c.engine (c.threads t)).1
      (advance names c.engine (c.threads t)).2.1 (advance names c.engine (c.threads t)).2.2 := by
  have hsound := h.sound t
  clear h
  generalize c.threads t = pc at *
  generalize c.engine = s at *
  cases pc with
  | idle => exact .quiet rfl rfl (fun _ hdoc => hdoc) (fun _ hdoc => absurd hdoc List.not_mem_nil)
  | appended docs =>
    by_cases hfull : (s.writeBuffer.addAll docs).1 = true
    · simp only [advance, hfull, if_true]
      exact .add (fun doc hdoc => by simpa [Pc.call] using hdoc)
    · simp only [advance, hfull]
      exact .add (fun doc hdoc => by simpa [Pc.call] using hdoc)
  | flushing call =>
    by_cases hempty : s.writeBuffer.docs.isEmpty = true
    · simp only [advance, WriteBuffer.drain, hempty, if_true]
      refine .drain (fun doc hdoc => ?_) (fun doc hdoc => by simpa [Pc.call] using hdoc)
      rw [List.isEmpty_iff.mp hempty] at hdoc
      exact absurd hdoc List.not_mem_nil
    · simp only [advance, WriteBuffer.drain, hempty]
      exact .drain (fun _ hdoc => hdoc) (fun doc hdoc => by simpa [Pc.call] using hdoc)
  | writing call job segId docs left =>
    cases left with
    | cons e left =>
      refine .quiet rfl rfl (fun _ hdoc => ?_)
        (fun _ hdoc => by simpa [advance, Pc.call] using hdoc)
      cases job with
      | flush => exact hdoc
      | merge segmentIds groups => exact hdoc
    | nil =>
      obtain ⟨-, hopen⟩ := hsound.openDir
      simp only [advance, hopen]
      refine .quiet rfl rfl (fun doc hdoc => ?_) (fun _ hdoc => by simpa [Pc.call] using hdoc)
      cases job with
      | flush =>
        show doc ∈ (SegmentReader.ofDocs docs ∅).liveDocuments
        rw [SegmentReader.liveDocuments_ofDocs_empty]
        exact hdoc
      | merge segmentIds groups => exact hdoc
  | opened call job segId reader =>
    obtain ⟨docs, hcovers, rfl, -⟩ := hsound
    cases job with
    | flush =>
      simp only [advance, SegmentList.addSegment_eq]
      refine .register (fun _ _ hid => absurd hid List.not_mem_nil) (fun doc hdoc => ?_)
        (fun _ hdoc => hdoc)
      have hlive : doc ∈ (SegmentReader.ofDocs docs ∅).liveDocuments := hdoc
      rwa [SegmentReader.liveDocuments_ofDocs_empty] at hlive
    | merge segmentIds groups =>
      exact .register hcovers (fun _ hdoc => absurd hdoc List.not_mem_nil) (fun _ hdoc => hdoc)
  | drained call _ | registered call | truncated call | numbered call _ _ _ =>
    exact .quiet rfl rfl (fun _ hdoc => hdoc) (fun _ hdoc => by simpa [advance, Pc.call] using hdoc)
  | merging call groups =>
    cases groups with
    | nil | cons segmentIds groups =>
      exact .quiet rfl rfl (fun _ hdoc => hdoc)
        (fun _ hdoc => by simpa [advance, Pc.call] using hdoc)
  | removing call left groups =>
    cases left with
    | nil | cons e left =>
      exact .quiet rfl rfl (fun _ hdoc => hdoc)
        (fun _ hdoc => by simpa [advance, Pc.call] using hdoc)

/-- **Every action of a thread leaves every document somewhere.** -/
theorem Found.step {c : Running} (h : Found c) (hinv : Inv c)
    (names : SegmentId → List SegmentFileName) (a : Action) : Found (cstep names c a) := by
  cases a with
  | index t docs =>
    cases hpc : c.threads t with
    | idle =>
      have hmoves : Moves c.engine (c.threads t)
          { c.engine with wal := (c.engine.wal.appendBatch (docs.map .index)).2 }
          (.appended docs) [] := by
        rw [hpc]
        refine ⟨fun _ hdoc => Or.inl hdoc, fun _ hdoc => absurd hdoc List.not_mem_nil,
          fun doc hdoc => ?_, id⟩
        rw [List.append_nil] at hdoc
        exact Or.inr hdoc
      have hnext := h.after hmoves
      rw [List.append_nil] at hnext
      simpa only [cstep, hpc] using hnext
    | _ => simpa only [cstep, hpc] using h
  | flush t =>
    cases hpc : c.threads t with
    | idle =>
      have hmoves : Moves c.engine (c.threads t) c.engine (.flushing []) [] := by
        rw [hpc]
        exact .quiet rfl rfl (fun _ hdoc => hdoc) (fun _ hdoc => absurd hdoc List.not_mem_nil)
      have hnext := h.after hmoves
      rw [List.append_nil] at hnext
      simpa only [cstep, hpc] using hnext
    | _ => simpa only [cstep, hpc] using h
  | step t => exact h.after (hinv.moves names t)

/-- **Every step of the reindex moves its documents on.** -/
theorem Inv.reindexMoves {c : Reindexing} (h : Inv c.view)
    (names : SegmentId → List SegmentFileName) :
    Moves c.view.engine (c.view.threads 0)
      (reindexAdvance names c.running.engine c.reindexer).1
      (reindexAdvance names c.running.engine c.reindexer).2.asPc [] := by
  have hadvance : Moves c.running.engine c.reindexer.asPc
      (advance names c.running.engine c.reindexer.asPc).1
      (advance names c.running.engine c.reindexer.asPc).2.1 [] := by
    have hmoves := h.moves names 0
    exact { hmoves with
      call := fun doc hdoc =>
        hmoves.call doc (List.mem_append_left _ (by rwa [List.append_nil] at hdoc)) }
  show Moves c.running.engine c.reindexer.asPc _ _ []
  clear h
  generalize c.reindexer = pc at *
  generalize c.running.engine = s at *
  cases pc with
  | idle => exact hadvance
  | returned => exact hadvance
  | flushing pc =>
    simp only [reindexAdvance, asPc_afterFlush]
    exact hadvance
  | flushed =>
    have hidle : Moves s .idle s .idle [] := hadvance
    simp only [reindexAdvance]
    split
    · exact hidle
    · exact hidle
  | collected docs =>
    exact .quiet rfl rfl (fun _ hdoc => hdoc) (fun _ hdoc => absurd hdoc List.not_mem_nil)
  | writing segId docs left =>
    cases left with
    | cons e left => exact hadvance
    | nil =>
      simp only [ReindexPc.asPc, advance] at hadvance
      simp only [reindexAdvance]
      cases hopen : s.dirs.lookup segId >>= SegmentReader.openDir with
      | none =>
        simp only [hopen] at hadvance
        exact hadvance
      | some reader =>
        simp only [hopen] at hadvance
        exact hadvance
  | opened segId reader =>
    exact .quiet rfl rfl (fun _ hdoc => hdoc) (fun _ hdoc => absurd hdoc List.not_mem_nil)
  | swapping segId reader oldIds => exact hadvance
  | removing left =>
    cases left with
    | cons e left => exact hadvance
    | nil => exact .quiet rfl rfl (fun _ hdoc => hdoc) (fun _ hdoc => absurd hdoc List.not_mem_nil)
  | truncating =>
    exact .quiet rfl rfl (fun _ hdoc => hdoc) (fun _ hdoc => absurd hdoc List.not_mem_nil)

theorem Found.rstep {c : Reindexing} (h : Found c.view) (hinv : Inv c.view)
    (names : SegmentId → List SegmentFileName) (a : ReindexAction) :
    Found (rstep names c a).view := by
  cases a with
  | thread a =>
    rw [view_thread]
    exact h.step hinv names a.shift
  | begin =>
    cases hpc : c.reindexer with
    | idle =>
      have hthread : c.view.threads 0 = .idle := congrArg ReindexPc.asPc hpc
      have hmoves : Moves c.view.engine (c.view.threads 0) c.view.engine (.flushing []) [] := by
        rw [hthread]
        exact .quiet rfl rfl (fun _ hdoc => hdoc) (fun _ hdoc => absurd hdoc List.not_mem_nil)
      have hnext := h.after hmoves
      have hview := view_step c c.running.engine (.flushing (.flushing []))
      simp only [Concurrent.rstep, hpc]
      exact hview ▸ hnext
    | _ => simpa only [Concurrent.rstep, hpc] using h
  | step =>
    have hnext := h.after (hinv.reindexMoves names)
    simp only [Concurrent.rstep]
    rw [view_step]
    exact hnext

/-- Documents that are somewhere are shown once no call has any of them. -/
theorem Located.visible {c : Running} {doc : Document} (h : Located c doc)
    (hundeleted : c.engine.writeBuffer.deletedIds = ∅)
    (hidle : ∀ t, (c.threads t).carrying = []) : doc ∈ c.engine.visible := by
  rcases h with (hbuffer | ⟨e, he, hlive⟩) | ⟨t, ht⟩
  · refine Multiset.mem_add.mpr (Or.inr (Multiset.mem_coe.mpr (List.mem_filter.mpr ⟨hbuffer, ?_⟩)))
    rw [hundeleted]
    simp
  · exact Multiset.mem_add.mpr (Or.inl (List.mem_flatMap.mpr ⟨e, he, hlive⟩))
  · rw [hidle t] at ht
    cases ht

/-! ## 6. What a reindex keeps -/

theorem inv_newReindexing (writeBufferSize : Nat) (searcher : MultiSegmentSearcher) :
    Inv (Reindexing.new writeBufferSize searcher).view ∧
      Found (Reindexing.new writeBufferSize searcher).view := by
  have hview : (Reindexing.new writeBufferSize searcher).view
      = Running.new writeBufferSize searcher := by
    rw [Reindexing.view, Running.new, Running.mk.injEq]
    refine ⟨rfl, funext fun t => ?_, rfl⟩
    cases t with
    | zero => rfl
    | succ t => rfl
  rw [hview]
  exact ⟨inv_new writeBufferSize searcher, fun _ _ hdoc => absurd hdoc List.not_mem_nil,
    fun _ hdoc => absurd hdoc List.not_mem_nil, rfl⟩

/-- **A covered reindex loses nothing.**  Take any run of a reindex beside any number of threads
that index and flush, in which every step is covered: the ids of the old segments are read while
the new segment has the documents of all that are registered, and the log is only emptied, by
the reindex or by a flush, when registered segments hold all documents in it.  Then every
document whose call has returned `Ok` is shown when all calls have returned, and wherever the
process dies it is there when the shard is opened again. -/
theorem reindex_keeps (names : SegmentId → List SegmentFileName) (writeBufferSize : Nat)
    (searcher : MultiSegmentSearcher) (actions : List ReindexAction)
    (hcovered : LabelledRun.Along (rstep names) ReindexCovered
      (Reindexing.new writeBufferSize searcher) actions) :
    let c := runReindexing names writeBufferSize searcher actions
    ∀ doc ∈ c.running.acked,
      (c.Returned → doc ∈ c.running.engine.visible) ∧
      ∀ (extra : List Document) (torn : List Nat),
        doc ∈ (ShardEngine.openDisk writeBufferSize searcher
          (c.view.crash extra torn)).visible := by
  intro c doc hdoc
  obtain ⟨hinv, hfound⟩ : Inv c.view ∧ Found c.view :=
    LabelledRun.Along.inv (I := fun c : Reindexing => Inv c.view ∧ Found c.view)
      (fun _ a h hcov => ⟨h.1.rstep names hcov, h.2.rstep h.1 names a⟩) actions _ hcovered
      (inv_newReindexing writeBufferSize searcher)
  refine ⟨fun hreturned => ?_, fun extra torn => ?_⟩
  · refine (hfound.acked doc hdoc).visible hfound.undeleted (fun t => ?_)
    cases t with
    | zero =>
      show c.reindexer.asPc.carrying = []
      rcases hreturned.2 with hpc | hpc
      · rw [hpc]
        rfl
      · rw [hpc]
        rfl
    | succ t =>
      show (c.running.threads t).carrying = []
      rw [hreturned.1 t]
      rfl
  · exact hinv.mem_visible_crash writeBufferSize searcher extra torn (hinv.acked doc hdoc)

/-- Writes before and after a reindex, and a flush in it that finds nothing to do. -/
def writesAroundReindex : List ReindexAction :=
  [.thread (.index 0 [ShardEngine.titled 1 "a"]), .thread (.step 0), .begin]
    ++ List.replicate 14 .step ++ [.thread (.flush 2), .thread (.step 2)]
    ++ List.replicate 18 .step
    ++ [.thread (.index 1 [ShardEngine.titled 2 "b"]), .thread (.step 1)]

theorem reindex_keeps_around :
    ShardEngine.titled 1 "a" ∈ (runReindexing SegmentDirs.plainFiles 1000 .unscored
      writesAroundReindex).running.engine.visible ∧
    ShardEngine.titled 1 "a" ∈ (ShardEngine.openDisk 1000 .unscored
      ((runReindexing SegmentDirs.plainFiles 1000 .unscored writesAroundReindex).view.crash
        [] [])).visible := by
  obtain ⟨hreturned, hcrash⟩ := reindex_keeps SegmentDirs.plainFiles 1000 .unscored
    writesAroundReindex (by decide) (ShardEngine.titled 1 "a") (by decide)
  refine ⟨hreturned ⟨fun t => ?_, Or.inr rfl⟩, hcrash [] []⟩
  match t with
  | 0 | 1 | 2 => rfl
  | _ + 3 => rfl

/-- A write and a flush after the reindex has collected the documents. -/
def flushInReindex : List ReindexAction :=
  [.thread (.index 0 [ShardEngine.titled 1 "a"]), .thread (.step 0), .begin]
    ++ List.replicate 14 .step
    ++ [.thread (.index 1 [ShardEngine.titled 2 "b"]), .thread (.step 1), .thread (.flush 2)]
    ++ List.replicate 13 (.thread (.step 2)) ++ List.replicate 24 .step

/-- **The flushed segment is replaced by one that does not have its document**: when all calls
have returned, the document is neither shown nor on disk. -/
theorem reindex_loses :
    (runReindexing SegmentDirs.plainFiles 1000 .unscored flushInReindex).Returned ∧
    (¬ ∀ doc ∈ (runReindexing SegmentDirs.plainFiles 1000 .unscored flushInReindex).running.acked,
      doc ∈ (runReindexing SegmentDirs.plainFiles 1000 .unscored
        flushInReindex).running.engine.visible) ∧
    ¬ ∀ doc ∈ (runReindexing SegmentDirs.plainFiles 1000 .unscored flushInReindex).running.acked,
      doc ∈ (ShardEngine.openDisk 1000 .unscored
        ((runReindexing SegmentDirs.plainFiles 1000 .unscored flushInReindex).view.crash
          [] [])).visible := by
  refine ⟨⟨fun t => ?_, Or.inr rfl⟩, by decide, by decide⟩
  match t with
  | 0 | 1 | 2 => rfl
  | _ + 3 => rfl

end Concurrent

end ZearchEngine
