/-
# Names of segment directories

The counter behind `next_segment_id` is kept in memory only.  After a restart
`SegmentList::open` finds it again in the names of the directories, whatever they hold: whole
segments, half-written ones, and such as a merge had not removed yet.  But `open` does not stop
at a directory it cannot read: `read_dir` may fail, or an entry of it, or `is_dir`, and whatever
is not seen does not count.  Then names of directories that are there are given out again
(`not_neverReuses_unseen`).

Any number of threads are in `index`, `flush` (with the merges it runs) and `reindex_self`.  A
call takes its steps one at a time, as in `Threads` and `ReindexThreads`; it may fail before any
of them, with a file half written; the removal of old directories goes on after errors; and the
process may die at any moment and be started again.  As long as every start sees all directories
and the counter does not wrap, an id that is returned is new in its process and names no
directory on disk, and no file is written where there is one (`names_never_reused`).

The counter is a `u64`.  An addition that overflows panics if the build checks for it, and else
wraps.
-/
import ZearchEngine.ReindexThreads
import ZearchEngine.SegmentName

namespace ZearchEngine

open KeyedStore

/-! ## 1. Names on disk -/

/-- The names of the directories, as `open` sorts them. -/
def SegmentDirs.names (dirs : SegmentDirs) : List (List Char) :=
  (SegmentList.sortedDirs dirs).map (fun dir => dir.1.name)

/-- `next_segment_seq: max_seq + 1`. -/
def openCounter (overflowChecks : Bool) (names : List (List Char)) : Option Nat :=
  if maxSeq names + 1 < 2 ^ 64 then some (maxSeq names + 1)
  else if overflowChecks then none
  else some 0

theorem SegmentDirs.mem_names {dirs : SegmentDirs} {name : List Char} :
    name ∈ dirs.names ↔ ∃ id ∈ dirs, id.name = name := by
  unfold SegmentDirs.names
  rw [List.mem_map]
  constructor
  · rintro ⟨dir, hdir, rfl⟩
    have hentry := (SegmentList.perm_sortedDirs dirs).mem_iff.mp hdir
    exact ⟨dir.1, mem_iff_lookup.mpr ⟨dir.2, AList.mem_lookup_iff.mpr hentry⟩, rfl⟩
  · rintro ⟨id, hid, rfl⟩
    obtain ⟨dir, hlook⟩ := mem_iff_lookup.mp hid
    exact ⟨⟨id, dir⟩, (SegmentList.perm_sortedDirs dirs).mem_iff.mpr
      (AList.mem_lookup_iff.mp hlook), rfl⟩

/-- A directory is there if its name is. -/
theorem SegmentDirs.name_mem_names {dirs : SegmentDirs} {id : SegmentId} :
    id.name ∈ dirs.names ↔ id ∈ dirs := by
  rw [mem_names]
  constructor
  · rintro ⟨id', hid', heq⟩
    exact SegmentId.name_injective heq ▸ hid'
  · exact fun hid => ⟨id, hid, rfl⟩

/-- The counter is a `u64`, above every number that can be read back, if it has not wrapped. -/
theorem openCounter_spec {overflowChecks : Bool} {dirs : SegmentDirs} {next : Nat}
    (hwrap : overflowChecks = true ∨ maxSeq dirs.names + 1 < 2 ^ 64)
    (h : openCounter overflowChecks dirs.names = some next) :
    next < 2 ^ 64 ∧ ∀ id ∈ dirs, id.seq < 2 ^ 64 → id.seq < next := by
  have hlt : maxSeq dirs.names + 1 < 2 ^ 64 := by
    rcases hwrap with rfl | hlt
    · unfold openCounter at h
      split at h
      · next hlt => exact hlt
      · cases h
    · exact hlt
  rw [openCounter, if_pos hlt, Option.some.injEq] at h
  rw [← h]
  refine ⟨hlt, fun id hid hseq => Nat.lt_succ_of_le ?_⟩
  exact le_foldl_countSeq.2 id.name (SegmentDirs.name_mem_names.mpr hid) id.seq
    (parseSeq_name hseq)

/-- **Reading the numbers from the names** finds the numbers of the directories. -/
theorem SegmentList.nextSegmentSeq_openDirs {dirs : SegmentDirs}
    (h : ∀ id ∈ dirs, id.seq < 2 ^ 64) :
    (openDirs dirs).nextSegmentSeq = maxSeq dirs.names + 1 := by
  have hparse : ∀ dir ∈ sortedDirs dirs, dir.1.seq < 2 ^ 64 := by
    intro dir hdir
    have hentry := (perm_sortedDirs dirs).mem_iff.mp hdir
    exact h dir.1 (mem_iff_lookup.mpr ⟨dir.2, AList.mem_lookup_iff.mpr hentry⟩)
  have hfold : ∀ (sorted : List (Sigma fun _ : SegmentId => SegmentDir))
      (acc : List SegmentEntry × DocIdMap × Nat), (∀ dir ∈ sorted, dir.1.seq < 2 ^ 64) →
      (sorted.foldl openOne acc).2.2
        = (sorted.map (fun dir => dir.1.name)).foldl countSeq acc.2.2 := by
    intro sorted
    induction sorted with
    | nil => exact fun _ _ => rfl
    | cons dir sorted ih =>
      intro acc hseq
      have hone : (openOne acc dir).2.2 = countSeq acc.2.2 dir.1.name := by
        unfold openOne countSeq
        rw [parseSeq_name (hseq dir List.mem_cons_self)]
        cases SegmentReader.openDir dir.2 <;> rfl
      rw [List.foldl_cons, ih _ (fun dir hdir => hseq dir (List.mem_cons_of_mem _ hdir)), hone,
        List.map_cons, List.foldl_cons]
  exact congrArg (· + 1) (hfold (sortedDirs dirs) ([], fun _ => none, 0) hparse)

/-- The directory has a file of this name. -/
def SegmentDir.has (dir : SegmentDir) : SegmentFileName → Bool
  | .invertedFst => dir.invertedFst.isSome
  | .invertedPost => dir.invertedPost.isSome
  | .columns => dir.columns.isSome
  | .docs => dir.docs.isSome
  | .metaJson => dir.metaJson.isSome
  | .deletions => dir.deletions.isSome

theorem SegmentDir.has_write_of_ne {dir : SegmentDir} {file : SegmentFile} {name : SegmentFileName}
    (h : file.name ≠ name) : (dir.write file).has name = dir.has name := by
  cases file <;> cases name <;> first | rfl | exact absurd rfl h

/-- Removing a file adds none. -/
theorem SegmentDir.has_of_unlink {dir : SegmentDir} {name name' : SegmentFileName}
    (h : (dir.unlink name).has name' = true) : dir.has name' = true := by
  cases name <;> cases name' <;> first | exact h | exact absurd h Bool.false_ne_true

namespace Concurrent

/-! ## 2. Calls -/

/-- A segment that is being written: its id, and the operations that are left. -/
structure Writing where
  segId : SegmentId
  left : List DirEffect

/-- The segment a thread is writing.  One that has an id and no documents yet begins with the
directory. -/
def Pc.segment : Pc → Option Writing
  | .numbered _ segId _ _ => some ⟨segId, [.createDir segId]⟩
  | .writing _ _ segId _ left => some ⟨segId, left⟩
  | _ => none

/-- The operations that are left of removing old directories. -/
def Pc.removals : Pc → List DirEffect
  | .removing _ left _ => left
  | _ => []

/-- The next step calls `next_segment_id`. -/
def Pc.numbers : Pc → Bool
  | .drained _ _ | .merging _ (_ :: _) => true
  | _ => false

/-- An operation of a removal fails, and the removal goes on. -/
def Pc.skip : Pc → Pc
  | .removing call (_ :: left) groups => .removing call left groups
  | pc => pc

namespace ReindexPc

def segment : ReindexPc → Option Writing
  | .flushing pc => pc.segment
  | .writing segId _ left => some ⟨segId, left⟩
  | _ => none

def removals : ReindexPc → List DirEffect
  | .flushing pc => pc.removals
  | .removing left => left
  | _ => []

def numbers : ReindexPc → Bool
  | .flushing pc => pc.numbers
  | .collected _ => true
  | _ => false

def skip : ReindexPc → ReindexPc
  | .flushing pc => .flushing pc.skip
  | .removing (_ :: left) => .removing left
  | pc => pc

def nextEffect : ReindexPc → Option DirEffect
  | .flushing pc => pc.nextEffect
  | .writing _ _ (e :: _) => some e
  | .removing (e :: _) => some e
  | _ => none

end ReindexPc

/-- A thread, in a call of `index` or `flush` or in one of `reindex_self`. -/
inductive Caller where
  | thread (pc : Pc)
  | reindex (pc : ReindexPc)

namespace Caller

/-- In no call. -/
def atRest : Caller → Bool
  | .thread .idle | .reindex .returned => true
  | _ => false

def segment : Caller → Option Writing
  | .thread pc => pc.segment
  | .reindex pc => pc.segment

def removals : Caller → List DirEffect
  | .thread pc => pc.removals
  | .reindex pc => pc.removals

def numbers : Caller → Bool
  | .thread pc => pc.numbers
  | .reindex pc => pc.numbers

def skip : Caller → Caller
  | .thread pc => .thread pc.skip
  | .reindex pc => .reindex pc.skip

def nextEffect : Caller → Option DirEffect
  | .thread pc => pc.nextEffect
  | .reindex pc => pc.nextEffect

/-- The next step of the call. -/
def advance (names : SegmentId → List SegmentFileName) (s : ShardEngine) :
    Caller → ShardEngine × Caller
  | .thread pc =>
    let (s', pc', _) := Concurrent.advance names s pc
    (s', .thread pc')
  | .reindex pc =>
    let (s', pc') := reindexAdvance names s pc
    (s', .reindex pc')

end Caller

/-! ## 3. Processes -/

/-- A process, with the ids that `next_segment_id` has returned in it. -/
structure Process where
  engine : ShardEngine
  callers : Nat → Caller
  returned : List SegmentId

/-- The data directory without a process, or with one. -/
inductive Site where
  | down (disk : Disk)
  | up (process : Process)

/-- The scheduler's choice: a thread begins a call, takes its next step, or fails at it, with the
file it was to write half written or not written; or the process dies, where the log has got
`extra` and the threads of `torn` are in the middle of a file operation; or it is started, and
does not see the directories `unseen` (all of them, where `read_dir` fails). -/
inductive SiteAction where
  | index (thread : Nat) (docs : List Document)
  | flush (thread : Nat)
  | reindex (thread : Nat)
  | step (thread : Nat)
  | fail (thread : Nat) (torn : Bool)
  | skip (thread : Nat)
  | crash (extra : List Document) (torn : List Nat)
  | start (unseen : List SegmentId)

namespace Process

/-- The directories when a thread dies in the middle of its next file operation. -/
def tearNext (p : Process) (dirs : SegmentDirs) (t : Nat) : SegmentDirs :=
  match (p.callers t).nextEffect with
  | some e => dirs.tear e
  | none => dirs

/-- A thread begins a call, if it is in none. -/
def begin (p : Process) (t : Nat) (engine : ShardEngine) (caller : Caller) : Process :=
  if (p.callers t).atRest then { p with engine, callers := Function.update p.callers t caller }
  else p

/-- The id that the next step of a thread gets from `next_segment_id`. -/
def returns (overflowChecks : Bool) (p : Process) (t : Nat) : Option SegmentId :=
  if (p.callers t).numbers ∧
      (overflowChecks = true → p.engine.segments.nextSegmentSeq + 1 < 2 ^ 64) then
    some p.engine.segments.nextSegmentId.1
  else none

/-- The call of a thread ends with an error, or with a panic. -/
def fail (p : Process) (t : Nat) (dirs : SegmentDirs) : Process :=
  { p with
    engine := { p.engine with dirs }
    callers := Function.update p.callers t (.thread .idle) }

/-- The counter, as it is in 64 bits. -/
def wrapCounter (s : ShardEngine) : ShardEngine :=
  { s with segments :=
    { s.segments with nextSegmentSeq := s.segments.nextSegmentSeq % 2 ^ 64 } }

/-- The next step of a thread. -/
def step (names : SegmentId → List SegmentFileName) (overflowChecks : Bool) (p : Process)
    (t : Nat) : Process :=
  if (p.callers t).numbers ∧ p.returns overflowChecks t = none then p.fail t p.engine.dirs
  else
    let (engine, caller) := (p.callers t).advance names p.engine
    { engine := wrapCounter engine
      callers := Function.update p.callers t caller
      returned := p.returned ++ (p.returns overflowChecks t).toList }

/-- What the process leaves when it dies. -/
def crash (p : Process) (extra : List Document) (torn : List Nat) : Disk where
  wal := (p.engine.wal.appendBatch (extra.map .index)).2.records
  segments := torn.foldl p.tearNext p.engine.dirs

end Process

/-- The engine a process starts with: `open` reads the directories it sees, and the others stay
where they are. -/
def openSeen (writeBufferSize : Nat) (searcher : MultiSegmentSearcher) (disk : Disk)
    (unseen : List SegmentId) (next : Nat) : ShardEngine :=
  let engine := ShardEngine.openDisk writeBufferSize searcher
    { disk with segments := eraseAll unseen disk.segments }
  { engine with
    segments := { engine.segments with nextSegmentSeq := next }
    dirs := engine.dirs ∪ disk.segments }

/-- The site after an action.  An overflow of the counter stops a process that starts, if it is
checked for. -/
def Site.act (names : SegmentId → List SegmentFileName) (overflowChecks : Bool)
    (writeBufferSize : Nat) (searcher : MultiSegmentSearcher) : Site → SiteAction → Site
  | .down disk, .start unseen =>
    match openCounter overflowChecks (SegmentDirs.names (eraseAll unseen disk.segments)) with
    | some next =>
      .up
        { engine := openSeen writeBufferSize searcher disk unseen next
          callers := fun _ => .thread .idle
          returned := [] }
    | none => .down disk
  | .down disk, _ => .down disk
  | .up p, .index t docs =>
    .up (p.begin t { p.engine with wal := (p.engine.wal.appendBatch (docs.map .index)).2 }
      (.thread (.appended docs)))
  | .up p, .flush t => .up (p.begin t p.engine (.thread (.flushing [])))
  | .up p, .reindex t => .up (p.begin t p.engine (.reindex (.flushing (.flushing []))))
  | .up p, .step t => .up (p.step names overflowChecks t)
  | .up p, .fail t torn =>
    .up (p.fail t (if torn then p.tearNext p.engine.dirs t else p.engine.dirs))
  | .up p, .skip t => .up { p with callers := Function.update p.callers t (p.callers t).skip }
  | .up p, .crash extra torn => .down (p.crash extra torn)
  | .up p, .start _ => .up p

/-- The site after a run of actions on a directory without a process. -/
def runSite (names : SegmentId → List SegmentFileName) (overflowChecks : Bool)
    (writeBufferSize : Nat) (searcher : MultiSegmentSearcher) (disk : Disk)
    (actions : List SiteAction) : Site :=
  LabelledRun.run (Site.act names overflowChecks writeBufferSize searcher) (.down disk) actions

/-- A start sees every directory, and nowhere does the counter wrap. -/
def CountsOn (overflowChecks : Bool) : Site → SiteAction → Prop
  | .down disk, .start unseen =>
    (∀ id ∈ unseen, id ∉ disk.segments) ∧
      (overflowChecks = true ∨ maxSeq disk.segments.names + 1 < 2 ^ 64)
  | .up p, .step t => (p.callers t).numbers = true →
      overflowChecks = true ∨ p.engine.segments.nextSegmentSeq + 1 < 2 ^ 64
  | _, _ => True

/-! ## 4. A segment under its own name -/

/-- No file that is left to be written is there, and neither is the directory as long as it is
to be made. -/
def Writing.Fresh (dirs : SegmentDirs) : Writing → Prop
  | ⟨segId, left⟩ => ∃ files : List SegmentFile, (files.map SegmentFile.name).Nodup ∧
    (left = .createDir segId :: files.map (.write segId) ∧ segId ∉ dirs ∨
      left = files.map (.write segId) ∧
        ∀ dir, dirs.lookup segId = some dir → ∀ file ∈ files, dir.has file.name = false)

theorem Writing.fresh_new {dirs : SegmentDirs} {segId : SegmentId} (h : segId ∉ dirs) :
    Writing.Fresh dirs ⟨segId, [.createDir segId]⟩ :=
  ⟨[], List.nodup_nil, Or.inl ⟨rfl, h⟩⟩

theorem Writing.fresh_writeSegment {dirs : SegmentDirs} {segId : SegmentId} (h : segId ∉ dirs)
    (docs : List Document) :
    Writing.Fresh dirs ⟨segId, SegmentDirs.writeSegment segId docs⟩ :=
  ⟨SegmentWriter.write docs, by simp [SegmentWriter.write, SegmentFile.name], Or.inl ⟨rfl, h⟩⟩

/-- The first operation makes a new directory, or writes a new file. -/
theorem Writing.Fresh.head {dirs : SegmentDirs} {segId : SegmentId} {e : DirEffect}
    {left : List DirEffect} (h : Writing.Fresh dirs ⟨segId, e :: left⟩) :
    e = .createDir segId ∧ segId ∉ dirs ∨ ∃ file, e = .write segId file ∧
      ∀ dir, dirs.lookup segId = some dir → dir.has file.name = false := by
  obtain ⟨files, -, ⟨hleft, hnew⟩ | ⟨hleft, hlacks⟩⟩ := h
  · exact Or.inl ⟨(List.cons.inj hleft).1, hnew⟩
  · cases files with
    | nil => cases hleft
    | cons file files =>
      exact Or.inr ⟨file, (List.cons.inj hleft).1,
        fun dir hdir => hlacks dir hdir file List.mem_cons_self⟩

/-- **Carrying out the first operation** leaves the others as they were to be. -/
theorem Writing.Fresh.apply {dirs : SegmentDirs} {segId : SegmentId} {e : DirEffect}
    {left : List DirEffect} (h : Writing.Fresh dirs ⟨segId, e :: left⟩) :
    Writing.Fresh (dirs.apply e) ⟨segId, left⟩ := by
  obtain ⟨files, hnodup, ⟨hleft, hnew⟩ | ⟨hleft, hlacks⟩⟩ := h
  · obtain ⟨rfl, rfl⟩ := List.cons.inj hleft
    refine ⟨files, hnodup, Or.inr ⟨rfl, fun dir hdir file _ => ?_⟩⟩
    have hlook := SegmentDirs.lookup_apply_target dirs (.createDir segId)
    rw [DirEffect.target, AList.lookup_eq_none.mpr hnew] at hlook
    rw [hlook] at hdir
    obtain rfl := Option.some.inj hdir
    cases file <;> rfl
  · cases files with
    | nil => cases hleft
    | cons file files =>
      obtain ⟨rfl, rfl⟩ := List.cons.inj hleft
      obtain ⟨hfile, hrest⟩ := List.nodup_cons.mp hnodup
      refine ⟨files, hrest, Or.inr ⟨rfl, fun dir hdir file' hmem => ?_⟩⟩
      have hlook := SegmentDirs.lookup_apply_target dirs (.write segId file)
      rw [DirEffect.target] at hlook
      rw [hlook] at hdir
      obtain ⟨dir', hdir', rfl⟩ := Option.map_eq_some_iff.mp hdir
      have hne : file.name ≠ file'.name := fun heq => hfile (heq ▸ List.mem_map_of_mem hmem)
      rw [SegmentDir.has_write_of_ne hne]
      exact hlacks dir' hdir' file' (List.mem_cons_of_mem _ hmem)

/-- The directory is what it was, or lacks more. -/
def Shrinks (dirs dirs' : SegmentDirs) (id : SegmentId) : Prop :=
  ∀ dir', dirs'.lookup id = some dir' → ∃ dir, dirs.lookup id = some dir ∧
    ∀ name, dir'.has name = true → dir.has name = true

theorem Shrinks.of_lookup_eq {dirs dirs' : SegmentDirs} {id : SegmentId}
    (h : dirs'.lookup id = dirs.lookup id) : Shrinks dirs dirs' id :=
  fun dir' hdir' => ⟨dir', h ▸ hdir', fun _ hname => hname⟩

/-- **Frame.**  What others do elsewhere, and the files they remove, do not matter. -/
theorem Writing.Fresh.shrinks {dirs dirs' : SegmentDirs} {w : Writing} (h : w.Fresh dirs)
    (hs : Shrinks dirs dirs' w.segId) : w.Fresh dirs' := by
  obtain ⟨files, hnodup, ⟨hleft, hnew⟩ | ⟨hleft, hlacks⟩⟩ := h
  · refine ⟨files, hnodup, Or.inl ⟨hleft, fun hmem => hnew ?_⟩⟩
    obtain ⟨dir', hdir'⟩ := mem_iff_lookup.mp hmem
    obtain ⟨dir, hdir, -⟩ := hs dir' hdir'
    exact mem_iff_lookup.mpr ⟨dir, hdir⟩
  · refine ⟨files, hnodup, Or.inr ⟨hleft, fun dir' hdir' file hfile => ?_⟩⟩
    obtain ⟨dir, hdir, hhas⟩ := hs dir' hdir'
    exact Bool.eq_false_of_not_eq_true
      (fun htrue => Bool.false_ne_true ((hlacks dir hdir file hfile).symm.trans (hhas _ htrue)))

theorem shrinks_apply {dirs : SegmentDirs} {e : DirEffect} (h : e.IsRemoval) (id : SegmentId) :
    Shrinks dirs (dirs.apply e) id := by
  by_cases hid : e.target = id
  · intro dir' hdir'
    rw [← hid, SegmentDirs.lookup_apply_target] at hdir'
    rw [← hid]
    cases e with
    | createDir id => exact h.elim
    | write id file => exact h.elim
    | unlink id name =>
      obtain ⟨dir, hdir, rfl⟩ := Option.map_eq_some_iff.mp hdir'
      exact ⟨dir, hdir, fun _ => SegmentDir.has_of_unlink⟩
    | removeDir id => cases hdir'
  · exact Shrinks.of_lookup_eq (SegmentDirs.lookup_apply_of_ne dirs hid)

/-- An operation makes no directory but the one it is to make. -/
theorem mem_of_mem_apply {dirs : SegmentDirs} {e : DirEffect} {id : SegmentId}
    (h : id ∈ dirs.apply e) : id ∈ dirs ∨ e = .createDir id := by
  by_cases hid : e.target = id
  · obtain ⟨dir', hdir'⟩ := mem_iff_lookup.mp h
    rw [← hid, SegmentDirs.lookup_apply_target] at hdir'
    subst hid
    cases e with
    | createDir id => exact Or.inr rfl
    | write id file =>
      obtain ⟨dir, hdir, -⟩ := Option.map_eq_some_iff.mp hdir'
      exact Or.inl (mem_iff_lookup.mpr ⟨dir, hdir⟩)
    | unlink id name =>
      obtain ⟨dir, hdir, -⟩ := Option.map_eq_some_iff.mp hdir'
      exact Or.inl (mem_iff_lookup.mpr ⟨dir, hdir⟩)
    | removeDir id => cases hdir'
  · left
    rw [← AList.lookup_isSome, SegmentDirs.lookup_apply_of_ne dirs hid, AList.lookup_isSome] at h
    exact h

theorem mem_tear {dirs : SegmentDirs} {e : DirEffect} {id : SegmentId} :
    id ∈ dirs.tear e ↔ id ∈ dirs := by
  cases e with
  | write id' file =>
    rw [← AList.lookup_isSome, ← AList.lookup_isSome]
    by_cases hid : id = id'
    · rw [hid, SegmentDirs.tear, lookup_alter_self, Option.isSome_map]
    · rw [SegmentDirs.tear, lookup_alter_of_ne hid]
  | createDir id' => exact Iff.rfl
  | unlink id' name => exact Iff.rfl
  | removeDir id' => exact Iff.rfl

/-! ## 5. What a step of a call does -/

/-- **What one step of a call may do** to the counter and the directories: it takes the next id
(then, and only then, the flag is set), carries out the next operation on its own segment,
collects the documents of that segment, or ends its work on it and removes other directories. -/
inductive CallStep (s s' : ShardEngine) : Bool → Option Writing → Option Writing → Prop
  | number {left : List DirEffect}
      (next : s'.segments.nextSegmentSeq = s.segments.nextSegmentSeq + 1) (dirs : s'.dirs = s.dirs)
      (fresh : (⟨s.segments.nextSegmentSeq⟩ : SegmentId) ∉ s.dirs →
        Writing.Fresh s.dirs ⟨⟨s.segments.nextSegmentSeq⟩, left⟩) :
      CallStep s s' true none (some ⟨⟨s.segments.nextSegmentSeq⟩, left⟩)
  | write {segId : SegmentId} {e : DirEffect} {left : List DirEffect}
      (next : s'.segments.nextSegmentSeq = s.segments.nextSegmentSeq)
      (dirs : s'.dirs = s.dirs.apply e) :
      CallStep s s' false (some ⟨segId, e :: left⟩) (some ⟨segId, left⟩)
  | collect {segId : SegmentId} {docs : List Document}
      (next : s'.segments.nextSegmentSeq = s.segments.nextSegmentSeq) (dirs : s'.dirs = s.dirs) :
      CallStep s s' false (some ⟨segId, [.createDir segId]⟩)
        (some ⟨segId, SegmentDirs.writeSegment segId docs⟩)
  | finish {w : Option Writing}
      (next : s'.segments.nextSegmentSeq = s.segments.nextSegmentSeq)
      (dirs : s'.dirs = s.dirs ∨ ∃ e : DirEffect, e.IsRemoval ∧ s'.dirs = s.dirs.apply e) :
      CallStep s s' false w none

/-- The counter stays a `u64` unless it overflows. -/
theorem CallStep.limit {s s' : ShardEngine} {numbers : Bool} {w w' : Option Writing}
    (h : CallStep s s' numbers w w') (hlimit : s.segments.nextSegmentSeq < 2 ^ 64)
    (hnumber : numbers = true → s.segments.nextSegmentSeq + 1 < 2 ^ 64) :
    s'.segments.nextSegmentSeq < 2 ^ 64 := by
  cases h with
  | number hnext hdirs hfresh => exact hnext ▸ hnumber rfl
  | write hnext hdirs => exact hnext ▸ hlimit
  | collect hnext hdirs => exact hnext ▸ hlimit
  | finish hnext hdirs => exact hnext ▸ hlimit

theorem isRemoval_of_mem_removeDirs {names : SegmentId → List SegmentFileName}
    {segmentIds : List SegmentId} {e : DirEffect} (h : e ∈ removeDirs names segmentIds) :
    e.IsRemoval := by
  obtain ⟨id, -, he⟩ := List.mem_flatMap.mp h
  exact (of_mem_removeDirAll he).1

theorem segment_afterFlush (pc pc' : Pc) : (ReindexPc.afterFlush pc pc').segment = pc'.segment := by
  cases pc' <;> cases pc <;> rfl

theorem removals_afterFlush (pc pc' : Pc) :
    (ReindexPc.afterFlush pc pc').removals = pc'.removals := by
  cases pc' <;> cases pc <;> rfl

theorem Pc.callStep (names : SegmentId → List SegmentFileName) (s : ShardEngine) (pc : Pc)
    (hremovals : ∀ e ∈ pc.removals, e.IsRemoval) :
    CallStep s (Concurrent.advance names s pc).1 pc.numbers pc.segment
        (Concurrent.advance names s pc).2.1.segment ∧
      ∀ e ∈ (Concurrent.advance names s pc).2.1.removals, e.IsRemoval := by
  cases pc with
  | idle => exact ⟨.finish rfl (Or.inl rfl), nofun⟩
  | appended docs =>
    unfold Concurrent.advance
    dsimp only
    split
    · exact ⟨.finish rfl (Or.inl rfl), nofun⟩
    · exact ⟨.finish rfl (Or.inl rfl), nofun⟩
  | flushing call =>
    unfold Concurrent.advance
    dsimp only
    split
    · exact ⟨.finish rfl (Or.inl rfl), nofun⟩
    · exact ⟨.finish rfl (Or.inl rfl), nofun⟩
  | drained call docs =>
    exact ⟨.number rfl rfl (fun h => Writing.fresh_writeSegment h docs), nofun⟩
  | writing call job segId docs left =>
    cases left with
    | cons e left => exact ⟨.write rfl rfl, nofun⟩
    | nil =>
      unfold Concurrent.advance
      dsimp only
      split
      · exact ⟨.finish rfl (Or.inl rfl), nofun⟩
      · exact ⟨.finish rfl (Or.inl rfl), nofun⟩
  | opened call job segId reader =>
    cases job with
    | flush => exact ⟨.finish rfl (Or.inl rfl), nofun⟩
    | merge segmentIds groups =>
      exact ⟨.finish rfl (Or.inl rfl), fun _ => isRemoval_of_mem_removeDirs⟩
  | registered call => exact ⟨.finish rfl (Or.inl rfl), nofun⟩
  | truncated call => exact ⟨.finish rfl (Or.inl rfl), nofun⟩
  | merging call groups =>
    cases groups with
    | nil => exact ⟨.finish rfl (Or.inl rfl), nofun⟩
    | cons segmentIds groups => exact ⟨.number rfl rfl Writing.fresh_new, nofun⟩
  | numbered call segId segmentIds groups => exact ⟨.collect rfl rfl, nofun⟩
  | removing call left groups =>
    cases left with
    | nil => exact ⟨.finish rfl (Or.inl rfl), nofun⟩
    | cons e left =>
      exact ⟨.finish rfl (Or.inr ⟨e, hremovals e List.mem_cons_self, rfl⟩),
        fun e he => hremovals e (List.mem_cons_of_mem _ he)⟩

theorem ReindexPc.callStep (names : SegmentId → List SegmentFileName) (s : ShardEngine)
    (pc : ReindexPc) (hremovals : ∀ e ∈ pc.removals, e.IsRemoval) :
    CallStep s (reindexAdvance names s pc).1 pc.numbers pc.segment
        (reindexAdvance names s pc).2.segment ∧
      ∀ e ∈ (reindexAdvance names s pc).2.removals, e.IsRemoval := by
  cases pc with
  | flushing pc =>
    have hpc := Pc.callStep names s pc hremovals
    unfold reindexAdvance
    dsimp only
    rw [segment_afterFlush, removals_afterFlush]
    exact hpc
  | flushed =>
    unfold reindexAdvance
    dsimp only
    split
    · exact ⟨.finish rfl (Or.inl rfl), nofun⟩
    · exact ⟨.finish rfl (Or.inl rfl), nofun⟩
  | collected docs =>
    exact ⟨.number rfl rfl (fun h => Writing.fresh_writeSegment h docs), nofun⟩
  | writing segId docs left =>
    cases left with
    | cons e left => exact ⟨.write rfl rfl, nofun⟩
    | nil =>
      unfold reindexAdvance
      dsimp only
      split
      · exact ⟨.finish rfl (Or.inl rfl), nofun⟩
      · exact ⟨.finish rfl (Or.inl rfl), nofun⟩
  | swapping segId reader oldIds =>
    exact ⟨.finish rfl (Or.inl rfl), fun _ => isRemoval_of_mem_removeDirs⟩
  | removing left =>
    cases left with
    | nil => exact ⟨.finish rfl (Or.inl rfl), nofun⟩
    | cons e left =>
      exact ⟨.finish rfl (Or.inr ⟨e, hremovals e List.mem_cons_self, rfl⟩),
        fun e he => hremovals e (List.mem_cons_of_mem _ he)⟩
  | idle => exact ⟨.finish rfl (Or.inl rfl), nofun⟩
  | opened segId reader => exact ⟨.finish rfl (Or.inl rfl), nofun⟩
  | truncating => exact ⟨.finish rfl (Or.inl rfl), nofun⟩
  | returned => exact ⟨.finish rfl (Or.inl rfl), nofun⟩

theorem Caller.callStep (names : SegmentId → List SegmentFileName) (s : ShardEngine)
    (caller : Caller) (hremovals : ∀ e ∈ caller.removals, e.IsRemoval) :
    CallStep s (caller.advance names s).1 caller.numbers caller.segment
        (caller.advance names s).2.segment ∧
      ∀ e ∈ (caller.advance names s).2.removals, e.IsRemoval := by
  cases caller with
  | thread pc => exact pc.callStep names s hremovals
  | reindex pc => exact pc.callStep names s hremovals

/-- Skipping an operation of a removal changes nothing else. -/
theorem Caller.skip_spec (caller : Caller) (hremovals : ∀ e ∈ caller.removals, e.IsRemoval) :
    caller.skip.segment = caller.segment ∧ ∀ e ∈ caller.skip.removals, e.IsRemoval := by
  have hpc : ∀ pc : Pc, (∀ e ∈ pc.removals, e.IsRemoval) →
      pc.skip.segment = pc.segment ∧ ∀ e ∈ pc.skip.removals, e.IsRemoval := by
    intro pc h
    cases pc with
    | removing call left groups =>
      cases left with
      | nil => exact ⟨rfl, h⟩
      | cons e left => exact ⟨rfl, fun e he => h e (List.mem_cons_of_mem _ he)⟩
    | _ => exact ⟨rfl, h⟩
  cases caller with
  | thread pc => exact hpc pc hremovals
  | reindex pc =>
    cases pc with
    | flushing pc => exact hpc pc hremovals
    | removing left =>
      cases left with
      | nil => exact ⟨rfl, hremovals⟩
      | cons e left => exact ⟨rfl, fun e he => hremovals e (List.mem_cons_of_mem _ he)⟩
    | _ => exact ⟨rfl, hremovals⟩

/-- An operation a call is about to carry out is the first on its own segment, or removes. -/
theorem Caller.nextEffect_cases {caller : Caller} {e : DirEffect}
    (h : caller.nextEffect = some e) :
    (∃ segId left, caller.segment = some ⟨segId, e :: left⟩) ∨ e ∈ caller.removals := by
  have hpc : ∀ pc : Pc, pc.nextEffect = some e →
      (∃ segId left, pc.segment = some ⟨segId, e :: left⟩) ∨ e ∈ pc.removals := by
    intro pc hpc
    unfold Pc.nextEffect at hpc
    split at hpc
    · obtain rfl := Option.some.inj hpc
      exact Or.inl ⟨_, _, rfl⟩
    · obtain rfl := Option.some.inj hpc
      exact Or.inr List.mem_cons_self
    · cases hpc
  cases caller with
  | thread pc => exact hpc pc h
  | reindex pc =>
    have hre : pc.nextEffect = some e := h
    unfold ReindexPc.nextEffect at hre
    split at hre
    · exact hpc _ hre
    · obtain rfl := Option.some.inj hre
      exact Or.inl ⟨_, _, rfl⟩
    · obtain rfl := Option.some.inj hre
      exact Or.inr List.mem_cons_self
    · cases hre

/-! ## 6. The invariant -/

/-- The counter is above all numbers in use, and no two calls write under one id. -/
structure Process.Numbered (p : Process) : Prop where
  limit : p.engine.segments.nextSegmentSeq < 2 ^ 64
  dirs : ∀ id ∈ p.engine.dirs, id.seq < 2 ^ 64 → id.seq < p.engine.segments.nextSegmentSeq
  returned : ∀ id ∈ p.returned, id.seq < p.engine.segments.nextSegmentSeq
  nodup : p.returned.Nodup
  removals : ∀ t, ∀ e ∈ (p.callers t).removals, e.IsRemoval
  fresh : ∀ t w, (p.callers t).segment = some w → w.Fresh p.engine.dirs
  bounded : ∀ t w, (p.callers t).segment = some w → w.segId.seq < p.engine.segments.nextSegmentSeq
  own : ∀ t u w v, (p.callers t).segment = some w → (p.callers u).segment = some v →
    w.segId = v.segId → t = u

namespace Process

variable {p : Process}

/-- The next id is in no use. -/
theorem Numbered.next_notMem (h : p.Numbered) :
    (⟨p.engine.segments.nextSegmentSeq⟩ : SegmentId) ∉ p.engine.dirs :=
  fun hmem => Nat.lt_irrefl _ (h.dirs _ hmem h.limit)

/-- **One thread moves**: the others keep what they rely on if their directories do not grow, and
the id that the thread writes under is not theirs. -/
theorem Numbered.move (h : p.Numbered) {t : Nat} {engine : ShardEngine} {caller : Caller}
    {returned : List SegmentId}
    (hnext : p.engine.segments.nextSegmentSeq ≤ engine.segments.nextSegmentSeq)
    (hlimit : engine.segments.nextSegmentSeq < 2 ^ 64)
    (hdirs : ∀ id ∈ engine.dirs, id ∈ p.engine.dirs ∨ id.seq < engine.segments.nextSegmentSeq)
    (hreturned : ∀ id ∈ returned, id.seq < engine.segments.nextSegmentSeq)
    (hnodup : returned.Nodup) (hremovals : ∀ e ∈ caller.removals, e.IsRemoval)
    (hothers : ∀ u ≠ t, ∀ w, (p.callers u).segment = some w →
      Shrinks p.engine.dirs engine.dirs w.segId)
    (hown : ∀ w, caller.segment = some w → w.Fresh engine.dirs ∧
      w.segId.seq < engine.segments.nextSegmentSeq ∧
      ∀ u ≠ t, ∀ v, (p.callers u).segment = some v → w.segId ≠ v.segId) :
    Numbered ⟨engine, Function.update p.callers t caller, returned⟩ where
  limit := hlimit
  dirs := by
    intro id hid hseq
    rcases hdirs id hid with hold | hlt
    · exact (h.dirs id hold hseq).trans_le hnext
    · exact hlt
  returned := hreturned
  nodup := hnodup
  removals := by
    intro u
    by_cases hu : u = t
    · simpa [hu] using hremovals
    · simpa [Function.update_of_ne hu] using h.removals u
  fresh := by
    intro u w hw
    by_cases hu : u = t
    · exact (hown w (by simpa [hu] using hw)).1
    · have hw' : (p.callers u).segment = some w := by simpa [Function.update_of_ne hu] using hw
      exact (h.fresh u w hw').shrinks (hothers u hu w hw')
  bounded := by
    intro u w hw
    by_cases hu : u = t
    · exact (hown w (by simpa [hu] using hw)).2.1
    · exact (h.bounded u w (by simpa [Function.update_of_ne hu] using hw)).trans_le hnext
  own := by
    intro u v w x hw hx heq
    by_cases hu : u = t
    · by_cases hv : v = t
      · exact hu.trans hv.symm
      · exact absurd heq ((hown w (by simpa [hu] using hw)).2.2 v hv x
          (by simpa [Function.update_of_ne hv] using hx))
    · by_cases hv : v = t
      · exact absurd heq.symm ((hown x (by simpa [hv] using hx)).2.2 u hu w
          (by simpa [Function.update_of_ne hu] using hw))
      · exact h.own u v w x (by simpa [Function.update_of_ne hu] using hw)
          (by simpa [Function.update_of_ne hv] using hx) heq

/-- A call that writes no segment begins, or ends; the directories may shrink. -/
theorem Numbered.quiet (h : p.Numbered) {t : Nat} {engine : ShardEngine} {caller : Caller}
    (hnext : engine.segments.nextSegmentSeq = p.engine.segments.nextSegmentSeq)
    (hdirs : ∀ id ∈ engine.dirs, id ∈ p.engine.dirs)
    (hothers : ∀ u ≠ t, ∀ w, (p.callers u).segment = some w →
      Shrinks p.engine.dirs engine.dirs w.segId)
    (hsegment : caller.segment = none) (hremovals : ∀ e ∈ caller.removals, e.IsRemoval) :
    Numbered ⟨engine, Function.update p.callers t caller, p.returned⟩ :=
  h.move hnext.ge (hnext ▸ h.limit) (fun id hid => Or.inl (hdirs id hid))
    (fun id hid => hnext ▸ h.returned id hid) h.nodup hremovals hothers
    (fun w hw => by rw [hsegment] at hw; cases hw)

theorem Numbered.begin (h : p.Numbered) {t : Nat} {engine : ShardEngine} {caller : Caller}
    (hsegments : engine.segments = p.engine.segments) (hdirs : engine.dirs = p.engine.dirs)
    (hsegment : caller.segment = none) (hremovals : caller.removals = []) :
    (p.begin t engine caller).Numbered := by
  unfold Process.begin
  split
  · refine h.quiet (by rw [hsegments]) (fun id hid => hdirs ▸ hid)
      (fun u _ w _ => Shrinks.of_lookup_eq (by rw [hdirs])) hsegment (fun e he => ?_)
    rw [hremovals] at he
    cases he
  · exact h

theorem Numbered.skip (h : p.Numbered) (t : Nat) :
    Numbered { p with callers := Function.update p.callers t (p.callers t).skip } := by
  obtain ⟨hsegment, hremovals⟩ := (p.callers t).skip_spec (h.removals t)
  refine h.move le_rfl h.limit (fun id hid => Or.inl hid) h.returned h.nodup hremovals
    (fun u _ w _ => Shrinks.of_lookup_eq rfl) (fun w hw => ?_)
  rw [hsegment] at hw
  exact ⟨h.fresh t w hw, h.bounded t w hw, fun u hu v hv heq => hu (h.own t u w v hw hv heq).symm⟩

/-- What a thread may do to a directory in the middle of an operation, it does to its own. -/
theorem Numbered.lookup_tearNext (h : p.Numbered) (dirs : SegmentDirs) (t : Nat) {u : Nat}
    (hu : u ≠ t) {w : Writing} (hw : (p.callers u).segment = some w) :
    (p.tearNext dirs t).lookup w.segId = dirs.lookup w.segId := by
  unfold tearNext
  split
  · next e he =>
    rcases Caller.nextEffect_cases he with ⟨segId, left, hseg⟩ | hremoval
    · have hne : segId ≠ w.segId := fun heq => hu (h.own t u _ w hseg hw heq).symm
      rcases (h.fresh t _ hseg).head with ⟨rfl, -⟩ | ⟨file, rfl, -⟩
      · rfl
      · exact SegmentDirs.lookup_tear_of_ne dirs hne
    · have hrem := h.removals t e hremoval
      cases e with
      | createDir id => exact hrem.elim
      | write id file => exact hrem.elim
      | unlink id name => rfl
      | removeDir id => rfl
  · rfl

theorem mem_tearNext {dirs : SegmentDirs} {t : Nat} {id : SegmentId} :
    id ∈ p.tearNext dirs t ↔ id ∈ dirs := by
  unfold tearNext
  split
  · exact mem_tear
  · exact Iff.rfl

theorem Numbered.fail (h : p.Numbered) (t : Nat) (torn : Bool) :
    (p.fail t (if torn then p.tearNext p.engine.dirs t else p.engine.dirs)).Numbered := by
  refine h.quiet rfl (fun id hid => ?_) (fun u hu w hw => Shrinks.of_lookup_eq ?_) rfl nofun
  · cases torn with
    | true => exact mem_tearNext.mp hid
    | false => exact hid
  · cases torn with
    | true => exact h.lookup_tearNext p.engine.dirs t hu hw
    | false => rfl

/-- A call takes the next id, and will write under it. -/
theorem Numbered.takeNumber (h : p.Numbered) {t : Nat} {engine : ShardEngine} {caller : Caller}
    {left : List DirEffect}
    (hnext : engine.segments.nextSegmentSeq = p.engine.segments.nextSegmentSeq + 1)
    (hlimit : p.engine.segments.nextSegmentSeq + 1 < 2 ^ 64)
    (hdirs : engine.dirs = p.engine.dirs)
    (hfresh : Writing.Fresh p.engine.dirs ⟨⟨p.engine.segments.nextSegmentSeq⟩, left⟩)
    (hsegment : caller.segment = some ⟨⟨p.engine.segments.nextSegmentSeq⟩, left⟩)
    (hremovals : ∀ e ∈ caller.removals, e.IsRemoval) :
    Numbered ⟨engine, Function.update p.callers t caller,
      p.returned ++ [⟨p.engine.segments.nextSegmentSeq⟩]⟩ := by
  have hnodup :
      (p.returned ++ [(⟨p.engine.segments.nextSegmentSeq⟩ : SegmentId)]).Nodup := by
    refine List.nodup_append.mpr ⟨h.nodup, List.nodup_singleton _, ?_⟩
    rintro id hold id' hnew rfl
    have hlt := h.returned id hold
    rw [List.mem_singleton.mp hnew] at hlt
    exact Nat.lt_irrefl _ hlt
  refine h.move (by omega) (by omega) (fun id hid => Or.inl (hdirs ▸ hid)) (fun id hid => ?_)
    hnodup hremovals (fun u _ w _ => Shrinks.of_lookup_eq (by rw [hdirs])) (fun w hw => ?_)
  · rcases List.mem_append.mp hid with hold | hnew
    · exact (h.returned id hold).trans (by omega)
    · rw [List.mem_singleton.mp hnew]
      exact hnext ▸ Nat.lt_succ_self _
  · rw [hsegment, Option.some.injEq] at hw
    subst hw
    refine ⟨hdirs ▸ hfresh, hnext ▸ Nat.lt_succ_self _, fun u _ v hv heq => ?_⟩
    have hlt := h.bounded u v hv
    rw [← heq] at hlt
    exact Nat.lt_irrefl _ hlt

/-- A call goes on with its own segment, and changes no directory but that one. -/
theorem Numbered.goOn (h : p.Numbered) {t : Nat} {engine : ShardEngine} {caller : Caller}
    {w w' : Writing} (hsegment : (p.callers t).segment = some w)
    (hsegment' : caller.segment = some w') (hid : w'.segId = w.segId)
    (hnext : engine.segments.nextSegmentSeq = p.engine.segments.nextSegmentSeq)
    (hdirs : ∀ id ≠ w.segId, engine.dirs.lookup id = p.engine.dirs.lookup id)
    (hfresh : w'.Fresh engine.dirs) (hremovals : ∀ e ∈ caller.removals, e.IsRemoval) :
    Numbered ⟨engine, Function.update p.callers t caller, p.returned⟩ := by
  have hbound := h.bounded t w hsegment
  refine h.move hnext.ge (hnext ▸ h.limit) (fun id hmem => ?_)
    (fun id hmem => hnext ▸ h.returned id hmem) h.nodup hremovals (fun u hu v hv => ?_)
    (fun w'' hw => ?_)
  · by_cases heq : id = w.segId
    · exact Or.inr (hnext ▸ heq ▸ hbound)
    · obtain ⟨dir, hdir⟩ := mem_iff_lookup.mp hmem
      exact Or.inl (mem_iff_lookup.mpr ⟨dir, (hdirs id heq) ▸ hdir⟩)
  · exact Shrinks.of_lookup_eq
      (hdirs v.segId fun heq => hu (h.own t u w v hsegment hv heq.symm).symm)
  · obtain rfl := Option.some.inj (hsegment'.symm.trans hw)
    exact ⟨hfresh, hid ▸ hnext ▸ hbound,
      fun u hu v hv heq => hu (h.own t u w v hsegment hv (hid ▸ heq)).symm⟩

/-- A call that has no segment any more may have removed something. -/
theorem Numbered.finish (h : p.Numbered) {t : Nat} {engine : ShardEngine} {caller : Caller}
    (hnext : engine.segments.nextSegmentSeq = p.engine.segments.nextSegmentSeq)
    (hdirs : engine.dirs = p.engine.dirs ∨
      ∃ e : DirEffect, e.IsRemoval ∧ engine.dirs = p.engine.dirs.apply e)
    (hsegment : caller.segment = none) (hremovals : ∀ e ∈ caller.removals, e.IsRemoval) :
    Numbered ⟨engine, Function.update p.callers t caller, p.returned⟩ := by
  rcases hdirs with hdirs | ⟨e, hremoval, hdirs⟩
  · exact h.quiet hnext (fun id hid => hdirs ▸ hid)
      (fun u _ w _ => Shrinks.of_lookup_eq (by rw [hdirs])) hsegment hremovals
  · refine h.quiet hnext (fun id hid => ?_) (fun u _ w _ => ?_) hsegment hremovals
    · rw [hdirs] at hid
      rcases mem_of_mem_apply hid with hold | rfl
      · exact hold
      · exact hremoval.elim
    · rw [hdirs]
      exact shrinks_apply hremoval w.segId

/-- A counter that has not overflowed is as it is. -/
theorem wrapCounter_eq {s : ShardEngine} (h : s.segments.nextSegmentSeq < 2 ^ 64) :
    wrapCounter s = s := by
  rw [wrapCounter, Nat.mod_eq_of_lt h]

/-- **Every step of a call keeps the invariant**, unless the counter wraps. -/
theorem Numbered.step (h : p.Numbered) (names : SegmentId → List SegmentFileName)
    {overflowChecks : Bool} (t : Nat) (hwrap : (p.callers t).numbers = true →
      overflowChecks = true ∨ p.engine.segments.nextSegmentSeq + 1 < 2 ^ 64) :
    (p.step names overflowChecks t).Numbered := by
  unfold Process.step
  split
  · exact h.fail t false
  · next hok =>
    obtain ⟨hstep, hremovals⟩ := (p.callers t).callStep names p.engine (h.removals t)
    generalize hres : (p.callers t).advance names p.engine = res at hstep hremovals
    obtain ⟨engine, caller⟩ := res
    dsimp only at hstep hremovals ⊢
    have hnumber : (p.callers t).numbers = true →
        p.returns overflowChecks t = some ⟨p.engine.segments.nextSegmentSeq⟩ ∧
          p.engine.segments.nextSegmentSeq + 1 < 2 ^ 64 := by
      intro hnumbers
      by_cases hlt : p.engine.segments.nextSegmentSeq + 1 < 2 ^ 64
      · exact ⟨if_pos ⟨hnumbers, fun _ => hlt⟩, hlt⟩
      · have hchecks := (hwrap hnumbers).resolve_right hlt
        exact absurd ⟨hnumbers, if_neg (fun hboth => hlt (hboth.2 hchecks))⟩ hok
    rw [wrapCounter_eq (hstep.limit h.limit (fun hnumbers => (hnumber hnumbers).2))]
    have hkeep : (p.callers t).numbers = false →
        p.returned ++ (p.returns overflowChecks t).toList = p.returned := by
      intro hnot
      simp [returns, hnot]
    generalize (p.callers t).numbers = numbers at hstep hkeep hnumber
    generalize hsegment : (p.callers t).segment = segment at hstep
    generalize hsegment' : caller.segment = segment' at hstep
    cases hstep with
    | number hnext hdirs hfresh =>
      rw [(hnumber rfl).1]
      exact h.takeNumber hnext (hnumber rfl).2 hdirs (hfresh h.next_notMem) hsegment' hremovals
    | @write segId e left hnext hdirs =>
      rw [hkeep rfl]
      have hw := h.fresh t _ hsegment
      have htarget : e.target = segId := by
        rcases hw.head with ⟨rfl, -⟩ | ⟨file, rfl, -⟩
        · rfl
        · rfl
      refine h.goOn hsegment hsegment' rfl hnext (fun id hne => ?_) (hdirs ▸ hw.apply) hremovals
      rw [hdirs]
      exact SegmentDirs.lookup_apply_of_ne _ (fun heq => hne (heq ▸ htarget))
    | @collect segId docs hnext hdirs =>
      rw [hkeep rfl]
      have hnew : segId ∉ p.engine.dirs := by
        rcases (h.fresh t _ hsegment).head with ⟨-, hnew⟩ | ⟨file, heq, -⟩
        · exact hnew
        · cases heq
      exact h.goOn hsegment hsegment' rfl hnext (fun id _ => by rw [hdirs])
        (hdirs ▸ Writing.fresh_writeSegment hnew docs) hremovals
    | finish hnext hdirs =>
      rw [hkeep rfl]
      exact h.finish hnext hdirs hsegment' hremovals

/-- **No name is used twice**: the names that were returned differ, the next one to be returned is
not among them and on no directory, a directory that is made is not there yet, and neither is a
file that is written. -/
structure NeverReuses (overflowChecks : Bool) (p : Process) : Prop where
  returned : (p.returned.map SegmentId.name).Nodup
  returns : ∀ t id, p.returns overflowChecks t = some id →
    id.name ∉ p.returned.map SegmentId.name ∧ id.name ∉ p.engine.dirs.names
  makes : ∀ t id, (p.callers t).nextEffect = some (.createDir id) → id.name ∉ p.engine.dirs.names
  writes : ∀ t id file, (p.callers t).nextEffect = some (.write id file) →
    ∀ dir, p.engine.dirs.lookup id = some dir → dir.has file.name = false

theorem Numbered.neverReuses (h : p.Numbered) (overflowChecks : Bool) :
    p.NeverReuses overflowChecks where
  returned := h.nodup.map SegmentId.name_injective
  returns := by
    intro t id hid
    have hnext : (⟨p.engine.segments.nextSegmentSeq⟩ : SegmentId) = id := by
      unfold Process.returns at hid
      split at hid
      · exact Option.some.inj hid
      · cases hid
    rw [← hnext, List.mem_map_of_injective SegmentId.name_injective, SegmentDirs.name_mem_names]
    exact ⟨fun hmem => Nat.lt_irrefl _ (h.returned _ hmem), h.next_notMem⟩
  makes := by
    intro t id he
    rw [SegmentDirs.name_mem_names]
    rcases Caller.nextEffect_cases he with ⟨segId, left, hseg⟩ | hremoval
    · rcases (h.fresh t _ hseg).head with ⟨heq, hnew⟩ | ⟨file, heq, -⟩
      · cases heq
        exact hnew
      · cases heq
    · exact (h.removals t _ hremoval).elim
  writes := by
    intro t id file he
    rcases Caller.nextEffect_cases he with ⟨segId, left, hseg⟩ | hremoval
    · rcases (h.fresh t _ hseg).head with ⟨heq, -⟩ | ⟨file', heq, hlacks⟩
      · cases heq
      · cases heq
        exact hlacks
    · exact (h.removals t _ hremoval).elim

end Process

/-- The invariant of a site. -/
def Site.Numbered : Site → Prop
  | .down _ => True
  | .up p => p.Numbered

/-- No name is used twice in the process, if there is one. -/
def Site.NeverReuses (overflowChecks : Bool) : Site → Prop
  | .down _ => True
  | .up p => p.NeverReuses overflowChecks

/-- Marking a document deleted makes no directory. -/
theorem mem_of_mem_markDeleted {l : SegmentList} {dirs : SegmentDirs} {docId : DocId}
    {id : SegmentId} (h : id ∈ (l.markDeleted dirs docId).2.2) : id ∈ dirs := by
  unfold SegmentList.markDeleted at h
  split at h
  · exact h
  · split at h
    · exact h
    · next entry _ =>
      split at h
      · exact h
      · next dir hdir =>
        obtain ⟨old, hold, -⟩ := Option.bind_eq_some_iff.mp hdir
        rcases (AList.mem_insert dirs).mp h with rfl | hmem
        · exact mem_iff_lookup.mpr ⟨old, hold⟩
        · exact hmem

theorem mem_of_mem_openDisk {writeBufferSize : Nat} {searcher : MultiSegmentSearcher} {disk : Disk}
    {id : SegmentId} (h : id ∈ (ShardEngine.openDisk writeBufferSize searcher disk).dirs) :
    id ∈ disk.segments := by
  have hreplay : ∀ (entries : List WalEntry) (s : ShardEngine),
      id ∈ (entries.foldl ShardEngine.replay s).dirs → id ∈ s.dirs := by
    intro entries
    induction entries with
    | nil => exact fun _ hid => hid
    | cons entry entries ih =>
      intro s hid
      have hone := ih (s.replay entry) hid
      cases entry with
      | index doc => exact hone
      | delete docId => exact mem_of_mem_markDeleted hone
  exact hreplay _ _ h

/-- Nothing else is on disk after a start. -/
theorem mem_of_mem_openSeen {writeBufferSize : Nat} {searcher : MultiSegmentSearcher} {disk : Disk}
    {unseen : List SegmentId} {next : Nat} {id : SegmentId}
    (h : id ∈ (openSeen writeBufferSize searcher disk unseen next).dirs) : id ∈ disk.segments := by
  rcases AList.mem_union.mp h with hopened | hdisk
  · have hseen : id ∈ eraseAll unseen disk.segments := mem_of_mem_openDisk hopened
    rw [← AList.lookup_isSome, lookup_eraseAll] at hseen
    split at hseen
    · cases hseen
    · exact AList.lookup_isSome.mp hseen
  · exact hdisk

theorem Site.Numbered.act {site : Site} (h : site.Numbered)
    (names : SegmentId → List SegmentFileName) {overflowChecks : Bool} (writeBufferSize : Nat)
    (searcher : MultiSegmentSearcher) {a : SiteAction} (ha : CountsOn overflowChecks site a) :
    (site.act names overflowChecks writeBufferSize searcher a).Numbered := by
  cases site with
  | down disk =>
    cases a with
    | start unseen =>
      obtain ⟨hseen, hwrap⟩ := ha
      have hsame : eraseAll unseen disk.segments = disk.segments :=
        eraseAll_of_notMem unseen hseen
      unfold Site.act
      dsimp only
      rw [hsame]
      split
      · next next hnext =>
        obtain ⟨hlimit, hdirs⟩ := openCounter_spec hwrap hnext
        exact
          { limit := hlimit
            dirs := fun id hid => hdirs id (mem_of_mem_openSeen hid)
            returned := fun id hid => absurd hid List.not_mem_nil
            nodup := List.nodup_nil
            removals := fun t => nofun
            fresh := fun t => nofun
            bounded := fun t => nofun
            own := fun t u => nofun }
      · trivial
    | _ => trivial
  | up p =>
    have hp : p.Numbered := h
    cases a with
    | index t docs => exact hp.begin rfl rfl rfl rfl
    | flush t => exact hp.begin rfl rfl rfl rfl
    | reindex t => exact hp.begin rfl rfl rfl rfl
    | step t => exact hp.step names t ha
    | fail t torn => exact hp.fail t torn
    | skip t => exact hp.skip t
    | crash extra torn => trivial
    | start unseen => exact hp

/-- **Segment directories are not reused** in any run of calls that fail at any point, of crashes
and of restarts, on any data directory, as long as every start sees all directories and the
counter does not wrap. -/
theorem names_never_reused (names : SegmentId → List SegmentFileName) (overflowChecks : Bool)
    (writeBufferSize : Nat) (searcher : MultiSegmentSearcher) (disk : Disk)
    (actions : List SiteAction)
    (h : LabelledRun.Along (Site.act names overflowChecks writeBufferSize searcher)
      (CountsOn overflowChecks) (.down disk) actions) :
    (runSite names overflowChecks writeBufferSize searcher disk actions).NeverReuses
      overflowChecks := by
  have hnumbered :
      (runSite names overflowChecks writeBufferSize searcher disk actions).Numbered :=
    LabelledRun.Along.inv (fun _ _ hs ha => hs.act names writeBufferSize searcher ha) actions _ h
      trivial
  generalize runSite names overflowChecks writeBufferSize searcher disk actions = site
    at hnumbered ⊢
  cases site with
  | down disk => trivial
  | up p => exact Process.Numbered.neverReuses hnumbered overflowChecks

/-! ## 7. A restart that does not see a segment -/

/-- Where overflows are checked for, only starts are in question. -/
theorem countsOn_checked {site : Site} {a : SiteAction}
    (ha : ∀ unseen, a = .start unseen → unseen = []) : CountsOn true site a := by
  cases site with
  | down disk =>
    cases a with
    | start unseen =>
      obtain rfl := ha unseen rfl
      exact ⟨nofun, Or.inl rfl⟩
    | _ => trivial
  | up p =>
    cases a with
    | step t => exact fun _ => Or.inl rfl
    | _ => trivial

/-- What a shard leaves that has flushed one document and logged another. -/
def flushedDisk : Disk :=
  (ShardEngine.runNew 1000 .unscored [.index (ShardEngine.titled 1 "a"), .flush,
    .index (ShardEngine.titled 2 "b")]).disk

theorem names_never_reused_flushed :
    (runSite SegmentDirs.plainFiles true 1000 .unscored flushedDisk
      [.start [], .flush 0, .step 0]).NeverReuses true :=
  names_never_reused SegmentDirs.plainFiles true 1000 .unscored flushedDisk
    [.start [], .flush 0, .step 0]
    ⟨countsOn_checked (by simp), countsOn_checked (by simp), countsOn_checked (by simp), trivial⟩

/-- **A flush takes the name of a segment that the start has not seen.** -/
theorem not_neverReuses_unseen :
    ¬ (runSite SegmentDirs.plainFiles true 1000 .unscored flushedDisk
      [.start [⟨1⟩], .flush 0, .step 0]).NeverReuses true := by
  have hsite : ∃ p, runSite SegmentDirs.plainFiles true 1000 .unscored flushedDisk
      [.start [⟨1⟩], .flush 0, .step 0] = .up p ∧
      p.returns true 0 = some ⟨1⟩ ∧ ⟨1⟩ ∈ p.engine.dirs :=
    ⟨_, rfl, by decide, by decide⟩
  obtain ⟨p, hup, hreturns, hthere⟩ := hsite
  intro hnever
  rw [hup] at hnever
  exact (hnever.returns 0 ⟨1⟩ hreturns).2 (SegmentDirs.name_mem_names.mpr hthere)

end Concurrent

end ZearchEngine
