/-
# The shard's directory

What a shard keeps on disk: `wal.bin`, as its records, and the segment directories, named
`seg-` and a sequence number.  The file operations of the shard are `FileEffect`s on it.  A
crash may tear the write of a file; creating, removing and emptying files is atomic.

`std::fs::remove_dir_all` removes the files of a directory one by one, in whatever order the
directory lists them, and then the directory.
-/
import ZearchEngine.Lib.CrashPoint
import ZearchEngine.Lib.KeyedStore
import ZearchEngine.Segment
import ZearchEngine.Wal.Log
import Mathlib.Data.Char

namespace ZearchEngine

open KeyedStore

/-! ## 1. Segment directories -/

/-- The name of a segment: `format!("seg-{:06}", seq)`.  The sequence number is a `u64` in the
source. -/
structure SegmentId where
  seq : Nat
deriving DecidableEq

/-- The directory name, which is what `dirs.sort()` compares. -/
def SegmentId.name (id : SegmentId) : List Char :=
  let digits := Nat.toDigits 10 id.seq
  ['s', 'e', 'g', '-'] ++ List.replicate (6 - digits.length) '0' ++ digits

/-- The order of the directory names. -/
def SegmentId.nameLe (a b : SegmentId) : Prop := a.name ≤ b.name

instance : DecidableRel SegmentId.nameLe := fun a b =>
  inferInstanceAs (Decidable (a.name ≤ b.name))

/-- The contents of `segments/`. -/
abbrev SegmentDirs := Store SegmentId SegmentDir

/-- An operation on the segment directories. -/
inductive DirEffect where
  | createDir (id : SegmentId)
  | write (id : SegmentId) (file : SegmentFile)
  | unlink (id : SegmentId) (name : SegmentFileName)
  | removeDir (id : SegmentId)
deriving DecidableEq

/-- The directory an operation is about. -/
def DirEffect.target : DirEffect → SegmentId
  | .createDir id | .write id _ | .unlink id _ | .removeDir id => id

/-- What the operation makes of that directory. -/
def DirEffect.on (dir : Option SegmentDir) : DirEffect → Option SegmentDir
  | .createDir _ => some (dir.getD {})
  | .write _ file => dir.map (fun dir => dir.write file)
  | .unlink _ name => dir.map (fun dir => dir.unlink name)
  | .removeDir _ => none

namespace SegmentDirs

/-- The effect of an operation. -/
def apply (dirs : SegmentDirs) : DirEffect → SegmentDirs
  | .createDir id => if id ∈ dirs then dirs else dirs.insert id {}
  | .write id file => alter id (fun dir => dir.write file) dirs
  | .unlink id name => alter id (fun dir => dir.unlink name) dirs
  | .removeDir id => dirs.erase id

/-- What an operation leaves when the process dies in the middle of it. -/
def tear (dirs : SegmentDirs) : DirEffect → SegmentDirs
  | .write id file => alter id (fun dir => dir.tear file.name) dirs
  | _ => dirs

/-- An operation changes no directory but the one it is about. -/
theorem lookup_apply_of_ne (dirs : SegmentDirs) {e : DirEffect} {id : SegmentId}
    (h : e.target ≠ id) : (dirs.apply e).lookup id = dirs.lookup id := by
  cases e with
  | createDir id' =>
    show (if id' ∈ dirs then dirs else dirs.insert id' {}).lookup id = _
    split
    · rfl
    · exact AList.lookup_insert_ne (Ne.symm h)
  | write id' file => exact lookup_alter_of_ne (Ne.symm h) _ _
  | unlink id' name => exact lookup_alter_of_ne (Ne.symm h) _ _
  | removeDir id' => exact AList.lookup_erase_ne (Ne.symm h)

theorem lookup_apply_target (dirs : SegmentDirs) (e : DirEffect) :
    (dirs.apply e).lookup e.target = e.on (dirs.lookup e.target) := by
  cases e with
  | createDir id =>
    show (if id ∈ dirs then dirs else dirs.insert id {}).lookup id
      = some ((dirs.lookup id).getD {})
    split
    · next hmem =>
      obtain ⟨dir, hdir⟩ := mem_iff_lookup.mp hmem
      rw [hdir]
      rfl
    · next hmem =>
      rw [AList.lookup_insert, AList.lookup_eq_none.mpr hmem]
      rfl
  | write id file => exact lookup_alter_self _ _ _
  | unlink id name => exact lookup_alter_self _ _ _
  | removeDir id => exact AList.lookup_erase _ _

/-- **A directory after some operations**: only those about it count. -/
theorem lookup_foldl_apply : ∀ (es : List DirEffect) (dirs : SegmentDirs) (id : SegmentId),
    (es.foldl apply dirs).lookup id
      = (es.filter (fun e => e.target = id)).foldl DirEffect.on (dirs.lookup id)
  | [], _, _ => rfl
  | e :: es, dirs, id => by
    rw [List.foldl_cons, lookup_foldl_apply es]
    by_cases hid : e.target = id
    · rw [List.filter_cons_of_pos (by simpa using hid), List.foldl_cons, ← hid,
        lookup_apply_target]
    · rw [lookup_apply_of_ne dirs hid, List.filter_cons_of_neg (by simpa using hid)]

theorem lookup_tear_of_ne (dirs : SegmentDirs) {e : DirEffect} {id : SegmentId}
    (h : e.target ≠ id) : (dirs.tear e).lookup id = dirs.lookup id := by
  cases e with
  | write id' file => exact lookup_alter_of_ne (Ne.symm h) _ _
  | createDir id' => rfl
  | unlink id' name => rfl
  | removeDir id' => rfl

/-- `create_dir_all` and `SegmentWriter::write`. -/
def writeSegment (id : SegmentId) (docs : List Document) : List DirEffect :=
  .createDir id :: (SegmentWriter.write docs).map (.write id)

theorem target_of_mem_writeSegment {id : SegmentId} {docs : List Document} {e : DirEffect}
    (h : e ∈ writeSegment id docs) : e.target = id := by
  rcases List.mem_cons.mp h with rfl | hfile
  · rfl
  · obtain ⟨file, -, rfl⟩ := List.mem_map.mp hfile
    rfl

/-- `remove_dir_all`, where the directory lists its files as `names`. -/
def removeDirAll (id : SegmentId) (names : List SegmentFileName) : List DirEffect :=
  names.map (.unlink id) ++ [.removeDir id]

/-- The files of a segment without deletions, as a directory may list them. -/
def plainFiles (_ : SegmentId) : List SegmentFileName :=
  [.columns, .docs, .invertedFst, .invertedPost, .metaJson]

/-- **A segment written under a new name** is a whole one, and nothing else changes. -/
theorem foldl_writeSegment {dirs : SegmentDirs} {id : SegmentId} (h : id ∉ dirs)
    (docs : List Document) :
    (writeSegment id docs).foldl apply dirs = dirs.insert id (SegmentDir.written docs none) := by
  simp only [writeSegment, List.foldl_cons, apply, if_neg h, List.foldl_map]
  have hfiles : ∀ (files : List SegmentFile) (dir : SegmentDir),
      files.foldl (fun dirs file => alter id (fun dir => dir.write file) dirs) (dirs.insert id dir)
        = dirs.insert id (files.foldl SegmentDir.write dir) := by
    intro files
    induction files with
    | nil => intro dir; rfl
    | cons file files ih => intro dir; rw [List.foldl_cons, alter_insert, ih, List.foldl_cons]
  rw [hfiles, foldl_write]

/-- Removing a directory, file by file, removes it. -/
theorem foldl_removeDirAll (dirs : SegmentDirs) (id : SegmentId) (names : List SegmentFileName) :
    (removeDirAll id names).foldl apply dirs = dirs.erase id := by
  induction names generalizing dirs with
  | nil => rfl
  | cons name names ih =>
    have hstep : (removeDirAll id (name :: names)).foldl apply dirs
        = (removeDirAll id names).foldl apply (apply dirs (.unlink id name)) := rfl
    rw [hstep, ih, apply, alter]
    split
    · rfl
    · exact AList.ext (List.kerase_cons_eq rfl)

end SegmentDirs

/-! ## 2. The whole directory -/

/-- What survives a crash. -/
structure Disk where
  wal : List WalRecord
  segments : SegmentDirs

/-- A file operation of the shard outside the log's appends. -/
inductive FileEffect where
  | segments (effect : DirEffect)
  | truncateWal
deriving DecidableEq

namespace Disk

/-- An empty directory. -/
def empty : Disk := { wal := [], segments := ∅ }

/-- The effect of an operation. -/
def apply (d : Disk) : FileEffect → Disk
  | .segments effect => { d with segments := d.segments.apply effect }
  | .truncateWal => { d with wal := [] }

/-- What an operation leaves when the process dies in the middle of it. -/
def tear (d : Disk) : FileEffect → Disk
  | .segments effect => { d with segments := d.segments.tear effect }
  | .truncateWal => d

theorem foldl_segments (d : Disk) (effects : List DirEffect) :
    (effects.map FileEffect.segments).foldl apply d
      = { d with segments := effects.foldl SegmentDirs.apply d.segments } := by
  induction effects generalizing d with
  | nil => rfl
  | cons effect effects ih => rw [List.map_cons, List.foldl_cons, ih]; rfl

/-- What is found after a crash at `p`. -/
abbrev crash (d : Disk) {effects : List FileEffect} (p : CrashPoint effects) : Disk :=
  p.state apply tear d

end Disk

end ZearchEngine
