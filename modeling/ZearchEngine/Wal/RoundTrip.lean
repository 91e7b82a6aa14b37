/-
# The log reads back what was appended

A `WriteAheadLog` opened on a file of whole records, and any sequence of `append` and
`append_batch` calls on it.  The file stays a stream of whole records: the earlier ones, then
the appended entries in call order, numbered from `next_seq` on.  So it is read back exactly,
and a crash, which cuts the file at some byte, costs exactly the records that reach past the
cut.
-/
import ZearchEngine.Wal.Bincode

namespace ZearchEngine

open LengthPrefix

/-- One call on an open log. -/
inductive WalCall where
  | append (entry : WalEntry)
  | appendBatch (entries : List WalEntry)

/-- The entries a call appends. -/
def WalCall.entries : WalCall → List WalEntry
  | .append entry => [entry]
  | .appendBatch entries => entries

namespace WriteAheadLog

variable (c : Codec WalRecord)

/-- A call: the sequence numbers it returns, and the log after it. -/
def call (w : WriteAheadLog) : WalCall → List UInt64 × WriteAheadLog
  | .append entry => w.append c entry
  | .appendBatch entries => w.appendBatch c entries

/-- A sequence of calls: all the numbers returned, in order, and the log after them. -/
def runCalls (w : WriteAheadLog) : List WalCall → List UInt64 × WriteAheadLog
  | [] => ([], w)
  | k :: ks => ((w.call c k).1 ++ (runCalls (w.call c k).2 ks).1, (runCalls (w.call c k).2 ks).2)

theorem call_eq (w : WriteAheadLog) (k : WalCall) :
    w.call c k = w.appendBatch c k.entries := by
  cases k <;> rfl

/-- A sequence of calls writes what one batch of all their entries would. -/
theorem runCalls_eq : ∀ (ks : List WalCall) (w : WriteAheadLog),
    w.runCalls c ks = w.appendBatch c (ks.flatMap WalCall.entries)
  | [], w => rfl
  | k :: ks, w => by
    simp only [runCalls, runCalls_eq ks, call_eq, appendBatch_eq, List.flatMap_cons,
      numbered_append, frames_append, List.map_append, List.length_append, UInt64.ofNat_add,
      List.append_assoc, UInt64.add_assoc]

/-- The numbers of a batch, written out. -/
theorem map_seq_numbered (seq : UInt64) (es : List WalEntry) :
    (numbered seq es).map WalRecord.seq
      = (List.range es.length).map (fun i => seq + UInt64.ofNat i) := by
  refine List.ext_getElem (by simp) (fun i h1 _ => ?_)
  have hi : i < (numbered seq es).length := by simpa using h1
  simp [seq_numbered es seq i hi]

/-- The file after a sequence of calls on a log opened on whole records. -/
theorem file_runCalls (rs : List WalRecord) (ks : List WalCall) :
    ((openFile c (frames c rs)).runCalls c ks).2.file
      = frames c (rs ++ numbered (openFile c (frames c rs)).nextSeq
          (ks.flatMap WalCall.entries)) := by
  rw [runCalls_eq, appendBatch_eq, openFile_file, frames_append]

/-- **Round trip and prefix safety.**  On a file of whole records `rs`, after any calls: the
log reads as `rs` followed by the appended entries in call order; the calls returned the
consecutive numbers from `next_seq`; and the file cut to its first `m` bytes reads as exactly
the records whose encoding ends within those bytes. -/
theorem readRecords_runCalls (rs : List WalRecord) (ks : List WalCall)
    (hfit : ∀ r ∈ rs ++ numbered (openFile c (frames c rs)).nextSeq
      (ks.flatMap WalCall.entries), Fits c r) :
    let w := openFile c (frames c rs)
    let es := ks.flatMap WalCall.entries
    let records := rs ++ numbered w.nextSeq es
    (w.runCalls c ks).2.readRecords c = records ∧
    (w.runCalls c ks).1 = (List.range es.length).map (fun i => w.nextSeq + UInt64.ofNat i) ∧
    ∀ m : Nat, ∃ k,
      (openFile c ((w.runCalls c ks).2.file.take m)).readRecords c = records.take k ∧
      ∀ j < records.length, (j < k ↔ (frames c (records.take (j + 1))).length ≤ m) := by
  intro w es records
  refine ⟨?_, ?_, ?_⟩
  · rw [readRecords, file_runCalls]
    exact scan_frames c hfit
  · rw [runCalls_eq, appendBatch_eq]
    exact map_seq_numbered w.nextSeq es
  · intro m
    rw [readRecords_openFile, file_runCalls]
    exact scan_take_frames c hfit m

/-- The round trip at one log: a deletion on file, then an `append` and a batch of two. -/
theorem readRecords_runCalls_deletions :
    ((openFile Bincode.walCodec (frames Bincode.walCodec [⟨6, .delete 1⟩])).runCalls
      Bincode.walCodec [.append (.delete 2), .appendBatch [.delete 3, .delete 4]]).2.readRecords
        Bincode.walCodec
      = [⟨6, .delete 1⟩, ⟨7, .delete 2⟩, ⟨8, .delete 3⟩, ⟨9, .delete 4⟩] := by
  have hrs : ∀ r ∈ [(⟨6, .delete 1⟩ : WalRecord)], Fits Bincode.walCodec r := by decide
  have hseq : (openFile Bincode.walCodec (frames Bincode.walCodec [⟨6, .delete 1⟩])).nextSeq
      = 7 := by
    rw [openFile_nextSeq, scan_frames _ hrs]
    rfl
  have h := (readRecords_runCalls Bincode.walCodec [⟨6, .delete 1⟩]
    [.append (.delete 2), .appendBatch [.delete 3, .delete 4]] (by rw [hseq]; decide)).1
  rw [hseq] at h
  exact h

end WriteAheadLog

end ZearchEngine
