/-
# The log as a list of records

The shard never looks at the bytes of `wal.bin`: it appends entries, empties the file, and
reads all entries when it opens.  `Log` is the log at that level, and `Repr` relates it to the
bytes of `Wal/File.lean`.  Every operation preserves `Repr`, and so does a crash in the middle
of an append, which leaves some of the batch's records whole and perhaps a torn one.
-/
import ZearchEngine.Wal.File

namespace ZearchEngine

open LengthPrefix

/-- The records in the file and the next sequence number to assign. -/
structure Log where
  records : List WalRecord
  nextSeq : UInt64
deriving DecidableEq

namespace Log

/-- `open` on a file holding `records`. -/
def openRecords (records : List WalRecord) : Log where
  records := records
  nextSeq := (records.getLast?.map (fun last => last.seq + 1)).getD 0

/-- `read_all`. -/
def readAll (l : Log) : List WalEntry := l.records.map WalRecord.entry

/-- `append_batch`. -/
def appendBatch (l : Log) (entries : List WalEntry) : List UInt64 × Log :=
  let records := numbered l.nextSeq entries
  (records.map WalRecord.seq,
    { records := l.records ++ records, nextSeq := l.nextSeq + UInt64.ofNat entries.length })

/-- `truncate`. -/
def truncate (l : Log) : Log := { l with records := [] }

@[simp] theorem readAll_openRecords (records : List WalRecord) :
    (openRecords records).readAll = records.map WalRecord.entry := rfl

@[simp] theorem readAll_appendBatch (l : Log) (entries : List WalEntry) :
    (l.appendBatch entries).2.readAll = l.readAll ++ entries := by
  simp [appendBatch, readAll]

/-! ## The bytes below -/

variable (c : Codec WalRecord)

/-- The byte-level log `w` holds the records of `l` and nothing else. -/
structure Repr (l : Log) (w : WriteAheadLog) : Prop where
  file : w.file = frames c l.records
  nextSeq : w.nextSeq = l.nextSeq
  fits : ∀ r ∈ l.records, Fits c r

variable {c} {l : Log} {w : WriteAheadLog}

theorem Repr.readAll (h : l.Repr c w) : w.readAll c = l.readAll := by
  rw [WriteAheadLog.readAll, WriteAheadLog.readRecords, h.file, scan_frames c h.fits, Log.readAll]

theorem Repr.truncate (h : l.Repr c w) : l.truncate.Repr c w.truncate where
  file := rfl
  nextSeq := h.nextSeq
  fits := by simp [Log.truncate]

/-- **An append at the byte level is an append of records**, and returns the same numbers. -/
theorem Repr.appendBatch (h : l.Repr c w) {entries : List WalEntry}
    (hfit : ∀ r ∈ numbered l.nextSeq entries, Fits c r) :
    (w.appendBatch c entries).1 = (l.appendBatch entries).1 ∧
    (l.appendBatch entries).2.Repr c (w.appendBatch c entries).2 := by
  rw [WriteAheadLog.appendBatch_eq, h.nextSeq]
  refine ⟨rfl, ?_, rfl, ?_⟩
  · simp only [Log.appendBatch, frames_append, h.file]
  · intro r hr
    exact (List.mem_append.mp hr).elim (h.fits r) (hfit r)

theorem repr_openRecords {records : List WalRecord} (hfit : ∀ r ∈ records, Fits c r) :
    (openRecords records).Repr c (WriteAheadLog.openFile c (frames c records)) where
  file := rfl
  nextSeq := by rw [WriteAheadLog.openFile_nextSeq, scan_frames c hfit]; rfl
  fits := hfit

end Log

end ZearchEngine
