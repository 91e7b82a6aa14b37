/-
# The write-ahead log as a file

`WriteAheadLog` (`crates/shard/src/wal.rs`) over the bytes of `wal.bin`.  A record is the
little-endian `u32` length of its bincode encoding followed by the encoding, so the file is a
stream in the sense of `Lib/LengthPrefix.lean`: `append_batch` writes `frame`s at the end and
the loop of `read_records` is `scan`.

bincode is a parameter, the codec `c`.  Sequence numbers are `u64` and wrap as the release
build's do.  No file operation fails here, so `append_batch` always returns its numbers; what a
crash leaves behind is the file cut at some byte.
-/
import ZearchEngine.Document
import ZearchEngine.Lib.LengthPrefix

namespace ZearchEngine

open LengthPrefix

/-- One logged operation. -/
inductive WalEntry where
  | index (doc : Document)
  | delete (docId : DocId)
deriving DecidableEq

/-- WAL entry with a monotonically increasing sequence number. -/
structure WalRecord where
  seq : UInt64
  entry : WalEntry
deriving DecidableEq

/-- The open log: the bytes of the file and the next sequence number to assign. -/
structure WriteAheadLog where
  file : Bytes
  nextSeq : UInt64
deriving DecidableEq

namespace WriteAheadLog

variable (c : Codec WalRecord)

/-- `read_records`: all valid records; a partial trailing record is silently discarded. -/
def readRecords (w : WriteAheadLog) : List WalRecord := scan c w.file

/-- `read_all`: the entries, without sequence numbers. -/
def readAll (w : WriteAheadLog) : List WalEntry := (w.readRecords c).map WalRecord.entry

/-- `read_since`: the records with `seq >= from_seq`. -/
def readSince (w : WriteAheadLog) (fromSeq : UInt64) : List WalRecord :=
  (w.readRecords c).filter (fun r => fromSeq ≤ r.seq)

/-- `open`: the file is opened in append mode, as it stands, and scanned for the highest
sequence number. -/
def openFile (file : Bytes) : WriteAheadLog :=
  let wal : WriteAheadLog := { file := file, nextSeq := 0 }
  { wal with
    nextSeq := match (wal.readRecords c).getLast? with
      | some last => last.seq + 1
      | none => wal.nextSeq }

/-- `append_batch`: each entry takes the next number and goes to the end of the file. -/
def appendBatch (w : WriteAheadLog) : List WalEntry → List UInt64 × WriteAheadLog
  | [] => ([], w)
  | entry :: entries =>
    let seq := w.nextSeq
    let record : WalRecord := { seq := seq, entry := entry }
    let w' : WriteAheadLog := { file := w.file ++ frame c record, nextSeq := w.nextSeq + 1 }
    let (seqs, w'') := appendBatch w' entries
    (seq :: seqs, w'')

/-- `append`: a batch of one. -/
def append (w : WriteAheadLog) (entry : WalEntry) : List UInt64 × WriteAheadLog :=
  w.appendBatch c [entry]

/-- `truncate`: the file is emptied; the counter is kept. -/
def truncate (w : WriteAheadLog) : WriteAheadLog := { w with file := [] }

end WriteAheadLog

/-! ## What an append writes -/

/-- The records a batch becomes: consecutive numbers from `seq` on. -/
def numbered : UInt64 → List WalEntry → List WalRecord
  | _, [] => []
  | seq, entry :: entries => { seq := seq, entry := entry } :: numbered (seq + 1) entries

@[simp] theorem numbered_length : ∀ (seq : UInt64) (es : List WalEntry),
    (numbered seq es).length = es.length
  | _, [] => rfl
  | seq, _ :: es => by simp [numbered, numbered_length (seq + 1) es]

@[simp] theorem map_entry_numbered : ∀ (seq : UInt64) (es : List WalEntry),
    (numbered seq es).map WalRecord.entry = es
  | _, [] => rfl
  | seq, _ :: es => by simp [numbered, map_entry_numbered (seq + 1) es]

/-- The `i`-th record of a batch carries the number `i` places after the first. -/
theorem seq_numbered : ∀ (es : List WalEntry) (seq : UInt64) (i : Nat)
    (h : i < (numbered seq es).length), (numbered seq es)[i].seq = seq + UInt64.ofNat i
  | _ :: _, seq, 0, _ => by simp [numbered]
  | _ :: es, seq, i + 1, h => by
    have hi : i < (numbered (seq + 1) es).length := by simpa [numbered] using h
    have ih := seq_numbered es (seq + 1) i hi
    simp only [numbered, List.getElem_cons_succ, ih, UInt64.ofNat_add]
    rw [UInt64.add_assoc, UInt64.add_comm 1]
    rfl

theorem numbered_append : ∀ (es fs : List WalEntry) (seq : UInt64),
    numbered seq (es ++ fs) = numbered seq es ++ numbered (seq + UInt64.ofNat es.length) fs
  | [], fs, seq => by simp [numbered]
  | e :: es, fs, seq => by
    have hseq : seq + 1 + UInt64.ofNat es.length = seq + UInt64.ofNat (es.length + 1) := by
      rw [UInt64.ofNat_add, UInt64.add_assoc, UInt64.add_comm 1]
      rfl
    simp only [List.cons_append, numbered, numbered_append es fs (seq + 1), List.length_cons, hseq]

namespace WriteAheadLog

variable (c : Codec WalRecord)

/-- **What `append_batch` does**: the numbered records go to the end of the file, the numbers
are returned, and the counter moves past them. -/
theorem appendBatch_eq : ∀ (es : List WalEntry) (w : WriteAheadLog),
    w.appendBatch c es =
      ((numbered w.nextSeq es).map WalRecord.seq,
        { file := w.file ++ frames c (numbered w.nextSeq es),
          nextSeq := w.nextSeq + UInt64.ofNat es.length })
  | [], w => by simp [appendBatch, numbered]
  | e :: es, w => by
    have hseq : w.nextSeq + 1 + UInt64.ofNat es.length
        = w.nextSeq + UInt64.ofNat (es.length + 1) := by
      rw [UInt64.ofNat_add, UInt64.add_assoc, UInt64.add_comm 1]
      rfl
    simp only [appendBatch, appendBatch_eq es, numbered, frames_cons, List.map_cons,
      List.append_assoc, List.length_cons, hseq]

@[simp] theorem readRecords_openFile (file : Bytes) :
    (openFile c file).readRecords c = scan c file := rfl

@[simp] theorem openFile_file (file : Bytes) : (openFile c file).file = file := rfl

/-- The counter after `open`: one past the last record that can be read. -/
theorem openFile_nextSeq (file : Bytes) :
    (openFile c file).nextSeq =
      ((scan c file).getLast?.map (fun last => last.seq + 1)).getD 0 := by
  simp only [openFile, readRecords]
  cases (scan c file).getLast? <;> rfl

end WriteAheadLog

end ZearchEngine
