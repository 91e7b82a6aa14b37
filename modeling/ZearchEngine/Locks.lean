/-
# The locks of the shard engine

`ShardEngine` (`crates/shard/src/shard.rs`) has a mutex for the log and a readers-writer lock each
for the write buffer and the segment list.  A method is a sequence of sections, in each of which
it takes the locks it needs and gives all of them back; files are read and written between the
sections, or under a lock.

`search`, `get_docs` and `stats` hold two locks at once, the list before the buffer, and `search`
takes the buffer's for writing, since it may rebuild the buffer's segment.  No method takes the
list's lock while it holds the buffer's, and none takes the log's with another.  So the locks are
taken in one order, and no calls of any threads can block each other for good (`no_deadlock`).
-/
import ZearchEngine.Lib.LockOrder
import Mathlib

namespace ZearchEngine

open LockOrder

/-! ## 1. Locks and methods -/

/-- The fields of `ShardEngine` that are locked; `wal` is a mutex. -/
inductive EngineLock where
  | segments | writeBuffer | wal

namespace EngineLock

/-- The place of a lock in the order they are taken in. -/
def place : EngineLock → Fin 3
  | segments => 0
  | writeBuffer => 1
  | wal => 2

theorem place_injective : Function.Injective place := by
  intro l l' h
  cases l <;> cases l' <;> first | rfl | cases h

instance : LinearOrder EngineLock := LinearOrder.lift' place place_injective

instance : Finite EngineLock := Finite.of_injective place place_injective

end EngineLock

/-- What a thread does between taking its first lock and giving back its last. -/
abbrev LockSection := List (Action EngineLock)

/-- Work under one lock: `{ let guard = lock.write().unwrap(); .. }`. -/
def locked (l : EngineLock) (m : Mode) : LockSection := [.acquire l m, .work, .release l]

/-- Work under the list's lock and the buffer's.  The guards are dropped in the reverse order. -/
def lockedBoth (m : Mode) : LockSection :=
  [ .acquire .segments .read, .acquire .writeBuffer m, .work, .release .writeBuffer
  , .release .segments ]

/-- Work without a lock. -/
def unlocked : LockSection := [.work]

namespace ShardEngine

/-- `run_merge`. -/
def runMergeSections : List LockSection :=
  [ locked .segments .write  -- `next_segment_id`
  , locked .segments .read   -- `execute_merge`
  , locked .segments .write  -- `replace_segments`
  , unlocked ]               -- `remove_dir_all`

/-- `maybe_merge`, for a number of groups. -/
def maybeMergeSections (groups : Nat) : List LockSection :=
  locked .segments .read :: (List.replicate groups runMergeSections).flatten

/-- What a flush finds: an empty buffer, or documents, and then a number of groups to merge. -/
inductive FlushRun where
  | empty
  | flushed (groups : Nat)

/-- `flush`.  Of an empty buffer it returns at once, and its caller goes on. -/
def flushSections : FlushRun → List LockSection
  | .empty => [locked .writeBuffer .write]
  | .flushed groups =>
    [ locked .writeBuffer .write  -- `drain`
    , locked .segments .write     -- `next_segment_id`
    , unlocked                    -- `SegmentWriter::write`, `SegmentReader::open`
    , locked .segments .write     -- `add_segment`
    , locked .wal .write ]        -- `truncate`
    ++ maybeMergeSections groups

/-- The loop over `buf.add`, and the flush after it if it is needed. -/
def addSections (found : Option FlushRun) : List LockSection :=
  locked .writeBuffer .write :: (found.map flushSections).getD []

/-- An entry that a replica applies. -/
inductive ReplicatedCall where
  | index (found : Option FlushRun)
  | delete
  | flush (found : FlushRun)

/-- `apply_replicated`, and `flush` where the request is one. -/
def ReplicatedCall.sections : ReplicatedCall → List LockSection
  | index found => addSections found
  | delete => [locked .writeBuffer .write, locked .segments .write]
  | flush found => flushSections found

/-- A call of a method, with what decides which sections it has. -/
inductive EngineCall where
  | index (found : Option FlushRun)
  | indexBatch (found : Option FlushRun)
  | delete
  | search
  | getDocs
  | stats
  | flush (found : FlushRun)
  | reindexSelf (found : FlushRun)
  | applyReplicated (call : ReplicatedCall)
  | getAllLiveDocs
  | walRecordsSince
  | catchUpFromPrimary (streamed synced : List ReplicatedCall) (found : FlushRun)

/-- The sections of a call that goes through to its end.  Entries are queued for the replicas
without a lock. -/
def EngineCall.sections : EngineCall → List LockSection
  | index found => locked .wal .write :: unlocked :: addSections found
  | indexBatch found => locked .wal .write :: unlocked :: addSections found
  | delete => [ locked .wal .write, unlocked, locked .writeBuffer .write
              , locked .segments .write ]
  | search => [lockedBoth .write]
  | getDocs => [lockedBoth .read]
  | stats => [lockedBoth .read]
  | flush found => flushSections found
  | reindexSelf found =>
    flushSections found ++
      [ locked .segments .read   -- the documents
      , locked .segments .write  -- `next_segment_id`
      , unlocked                 -- `SegmentWriter::write`, `SegmentReader::open`
      , locked .segments .read   -- the old ids
      , locked .segments .write  -- `replace_segments`
      , unlocked                 -- `remove_dir_all`
      , locked .wal .write ]     -- `truncate`
  | applyReplicated call => call.sections
  | getAllLiveDocs => [locked .segments .read, locked .writeBuffer .read]
  | walRecordsSince => [locked .wal .write]
  | catchUpFromPrimary streamed synced found =>
    locked .wal .write :: streamed.flatMap ReplicatedCall.sections ++
      (locked .segments .read :: synced.flatMap ReplicatedCall.sections ++ flushSections found)

/-- A call that returns after this many sections at the latest.  An error, or having nothing left
to do, ends a call between two sections: guards are dropped on the way out of one. -/
structure EngineRun where
  call : EngineCall
  sections : Nat

/-- What the call does. -/
def EngineRun.actions (run : EngineRun) : List (Action EngineLock) :=
  (run.call.sections.take run.sections).flatten

/-- Threads that call methods, one after the other. -/
def threads {ι : Type} (calls : ι → List EngineRun) (i : ι) : Thread EngineLock :=
  .start ((calls i).flatMap EngineRun.actions)

/-! ## 2. Every section is in order -/

/-- In each of the sections the locks are taken in their order, and all are given back. -/
def InOrder (sections : List LockSection) : Prop := ∀ s ∈ sections, Ordered [] s

theorem InOrder.append {sections sections' : List LockSection} (h : InOrder sections)
    (h' : InOrder sections') : InOrder (sections ++ sections') := by
  intro s hs
  rcases List.mem_append.mp hs with hmem | hmem
  · exact h s hmem
  · exact h' s hmem

theorem InOrder.cons {s : LockSection} {sections : List LockSection} (hs : Ordered [] s)
    (h : InOrder sections) : InOrder (s :: sections) :=
  List.forall_mem_cons.mpr ⟨hs, h⟩

theorem InOrder.flatMap {α : Type} {f : α → List LockSection} (h : ∀ a, InOrder (f a))
    (as : List α) : InOrder (as.flatMap f) := by
  intro s hs
  obtain ⟨a, -, hmem⟩ := List.mem_flatMap.mp hs
  exact h a s hmem

theorem ordered_locked (l : EngineLock) (m : Mode) : Ordered [] (locked l m) := ordered_section l m

theorem ordered_unlocked : Ordered [] unlocked := rfl

/-- The list's lock comes before the buffer's. -/
theorem ordered_lockedBoth (m : Mode) : Ordered [] (lockedBoth m) := by
  have hlt : EngineLock.segments < EngineLock.writeBuffer := by decide
  simp [lockedBoth, Ordered, hlt]

theorem inOrder_flush (found : FlushRun) : InOrder (flushSections found) := by
  cases found with
  | empty => simp [InOrder, flushSections, ordered_locked]
  | flushed groups =>
    have hmerge : InOrder runMergeSections := by
      simp [InOrder, runMergeSections, ordered_locked, ordered_unlocked]
    have hmerges : InOrder (List.replicate groups runMergeSections).flatten := by
      intro s hs
      obtain ⟨merge, hmem, hs⟩ := List.mem_flatten.mp hs
      rw [List.eq_of_mem_replicate hmem] at hs
      exact hmerge s hs
    refine InOrder.append ?_ (.cons (ordered_locked _ _) hmerges)
    simp [InOrder, ordered_locked, ordered_unlocked]

theorem inOrder_add (found : Option FlushRun) : InOrder (addSections found) := by
  refine .cons (ordered_locked _ _) ?_
  cases found with
  | none => exact fun _ hs => absurd hs List.not_mem_nil
  | some found => exact inOrder_flush found

theorem inOrder_replicated (call : ReplicatedCall) : InOrder call.sections := by
  cases call with
  | index found => exact inOrder_add found
  | delete => simp [InOrder, ReplicatedCall.sections, ordered_locked]
  | flush found => exact inOrder_flush found

/-- **Every method takes the locks in their order.** -/
theorem inOrder_sections (call : EngineCall) : InOrder call.sections := by
  have hindex : ∀ found : Option FlushRun,
      InOrder (locked .wal .write :: unlocked :: addSections found) := fun found =>
    .cons (ordered_locked _ _) (.cons ordered_unlocked (inOrder_add found))
  cases call with
  | index found => exact hindex found
  | indexBatch found => exact hindex found
  | delete => simp [InOrder, EngineCall.sections, ordered_locked, ordered_unlocked]
  | search => exact .cons (ordered_lockedBoth _) (fun _ hs => absurd hs List.not_mem_nil)
  | getDocs => exact .cons (ordered_lockedBoth _) (fun _ hs => absurd hs List.not_mem_nil)
  | stats => exact .cons (ordered_lockedBoth _) (fun _ hs => absurd hs List.not_mem_nil)
  | flush found => exact inOrder_flush found
  | reindexSelf found =>
    refine (inOrder_flush found).append ?_
    simp [InOrder, ordered_locked, ordered_unlocked]
  | applyReplicated call => exact inOrder_replicated call
  | getAllLiveDocs => simp [InOrder, EngineCall.sections, ordered_locked]
  | walRecordsSince => simp [InOrder, EngineCall.sections, ordered_locked]
  | catchUpFromPrimary streamed synced found =>
    have hstreamed := InOrder.flatMap inOrder_replicated streamed
    have hsynced := InOrder.flatMap inOrder_replicated synced
    exact (InOrder.cons (ordered_locked _ _) hstreamed).append
      ((InOrder.cons (ordered_locked _ _) hsynced).append (inOrder_flush found))

/-! ## 3. Any threads -/

theorem sound_threads {ι : Type} (calls : ι → List EngineRun) : Sound (threads calls) := by
  refine sound_start (fun i => ?_)
  rw [List.flatMap]
  refine Ordered.flatten (fun actions hactions => ?_)
  obtain ⟨run, -, rfl⟩ := List.mem_map.mp hactions
  exact Ordered.flatten (fun s hs => inOrder_sections run.call s (List.mem_of_mem_take hs))

/-- **No deadlock.**  However many threads call methods of the engine, and in whatever order their
steps come, as long as some thread is not done some thread can go on, even if no reader takes a
lock that a writer waits for. -/
theorem no_deadlock {ι : Type} [DecidableEq ι] (calls : ι → List EngineRun) {is : List ι}
    (hrun : Schedule (threads calls) is) {i : ι} (hi : ¬ (after (threads calls) is i).Finished) :
    ∃ j, CanProceed (after (threads calls) is) j :=
  ((sound_threads calls).after hrun).exists_canProceed hi

/-- One thread searches, the other flushes the buffer and merges. -/
def searchAndFlush (flushes : Bool) : List EngineRun :=
  if flushes then [⟨.flush (.flushed 1), 10⟩] else [⟨.search, 1⟩]

/-- The search takes the list, and the flush the buffer. -/
theorem schedule_searchAndFlush : Schedule (threads searchAndFlush) [false, true] := by
  refine ⟨?_, ?_, trivial⟩
  · rintro (_ | _) h hh <;> exact absurd hh List.not_mem_nil
  · rintro (_ | _) h hh heq
    · rw [List.mem_singleton.mp hh] at heq
      cases heq
    · exact absurd hh List.not_mem_nil

/-- The search waits for the buffer, with the list locked. -/
theorem no_deadlock_searchAndFlush :
    ∃ j, CanProceed (after (threads searchAndFlush) [false, true]) j := by
  have hflush : ¬ (after (threads searchAndFlush) [false, true] true).Finished :=
    List.cons_ne_nil _ _
  exact no_deadlock searchAndFlush schedule_searchAndFlush hflush

/-- **All calls return.**  A run of finitely many threads is at most as long as the calls are all
together; and when no thread can go on, it is as long, and all calls have returned. -/
theorem calls_return {ι : Type} [DecidableEq ι] [Fintype ι] (calls : ι → List EngineRun)
    {is : List ι} (hrun : Schedule (threads calls) is) :
    is.length ≤ ∑ i, ((calls i).flatMap EngineRun.actions).length ∧
    ((∀ i, ¬ CanProceed (after (threads calls) is) i) →
      (∀ i, (after (threads calls) is i).Finished) ∧
      is.length = ∑ i, ((calls i).flatMap EngineRun.actions).length) := by
  have htotal : is.length + remaining (after (threads calls) is)
      = ∑ i, ((calls i).flatMap EngineRun.actions).length := length_le_remaining hrun
  refine ⟨by omega, fun hstuck => ?_⟩
  have hdone := ((sound_threads calls).after hrun).finished_of_stuck hstuck
  have hnothing : remaining (after (threads calls) is) = 0 := by
    rw [remaining, Finset.sum_eq_zero_iff]
    exact fun i _ => List.length_eq_zero_iff.mpr (hdone i)
  exact ⟨hdone, by omega⟩

theorem calls_return_searchAndFlush :
    [false, true].length ≤ ∑ i, ((searchAndFlush i).flatMap EngineRun.actions).length ∧
    ((∀ i, ¬ CanProceed (after (threads searchAndFlush) [false, true]) i) →
      (∀ i, (after (threads searchAndFlush) [false, true] i).Finished) ∧
      [false, true].length = ∑ i, ((searchAndFlush i).flatMap EngineRun.actions).length) :=
  calls_return searchAndFlush schedule_searchAndFlush

end ShardEngine

end ZearchEngine
