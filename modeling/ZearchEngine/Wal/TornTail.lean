/-
# A torn tail swallows what is appended after it

`WriteAheadLog::open` opens the file in append mode and leaves its bytes as they stand, so when
a crash has left a proper prefix `p` of a record at the end, the next record goes *behind* `p`.
The reader is stopped by `p`, and once there are bytes behind it, it no longer sees where the
new record starts: it takes the length word from `p` and the bytes that follow.

What the reader makes of those bytes depends on them, and it is not excluded that they happen
to decode.  But no tail is survived: the reader takes the low byte of a deleted id from a
place that was written before the id was, so a deletion of an id with another low byte is lost,
and everything appended after it.
-/
import ZearchEngine.Wal.RoundTrip

namespace ZearchEngine

open LengthPrefix

/-- What is used of bincode's layout: a deletion is its number, the variant index `1` and the
id, little-endian, and a decoder that returns a deletion has read it from the front. -/
structure DeleteLayout (c : Codec WalRecord) : Prop where
  serialize_delete : ∀ seq docId, c.serialize ⟨seq, .delete docId⟩
    = leBytes 8 seq.toNat ++ (leBytes 4 1 ++ leBytes 8 docId.toNat)
  deserialize_delete : ∀ bs seq docId, c.deserialize bs = some ⟨seq, .delete docId⟩ →
    c.serialize ⟨seq, .delete docId⟩ <+: bs

theorem Bincode.deleteLayout : DeleteLayout Bincode.walCodec where
  serialize_delete := Bincode.serialize_delete
  deserialize_delete _ _ _ := Bincode.deserialize_delete

namespace WriteAheadLog

variable (c : Codec WalRecord)

/-- The log survives the tail `p` behind the records `rs` under the calls `ks`: it reads as
`rs` and the entries appended, at once and after another `open`. -/
def SurvivesTail (rs : List WalRecord) (p : Bytes) (ks : List WalCall) : Prop :=
  let w := openFile c (frames c rs ++ p)
  let records := rs ++ numbered w.nextSeq (ks.flatMap WalCall.entries)
  (w.runCalls c ks).2.readRecords c = records ∧
  (openFile c (w.runCalls c ks).2.file).readRecords c = records

/-! ## 1. Reading behind a tail -/

/-- The reader gets past the whole records and then reads the tail and what was appended. -/
theorem readRecords_tail {rs : List WalRecord} (hrs : ∀ r ∈ rs, Fits c r) (p : Bytes)
    (ks : List WalCall) :
    ((openFile c (frames c rs ++ p)).runCalls c ks).2.readRecords c
      = rs ++ scan c (p ++ frames c (numbered (openFile c (frames c rs ++ p)).nextSeq
          (ks.flatMap WalCall.entries))) := by
  rw [readRecords, runCalls_eq, appendBatch_eq, openFile_file, List.append_assoc]
  exact scan_frames_append c rs hrs _

/-! ## 2. The byte the reader takes for the id's low byte -/

/-- The bytes that are in the file before a deleted id is: the tail, the deletion's length
word, its number and its variant index. -/
def beforeId (p : Bytes) (seq : UInt64) : Bytes :=
  p ++ (leBytes 4 20 ++ (leBytes 8 seq.toNat ++ leBytes 4 1))

variable {c}

/-- The reader skips four bytes for the length, eight for the number and four for the variant
index, and is still within `beforeId` when it comes to the id. -/
theorem sixteen_lt_beforeId {p : Bytes} (hp : p ≠ []) (seq : UInt64) :
    16 < (beforeId p seq).length := by
  have h : 0 < p.length := List.length_pos_iff.mpr hp
  simp only [beforeId, List.length_append, leBytes_length]
  omega

theorem frame_delete (hc : DeleteLayout c) (seq : UInt64) (docId : DocId) :
    frame c ⟨seq, .delete docId⟩
      = leBytes 4 20 ++ (leBytes 8 seq.toNat ++ (leBytes 4 1 ++ leBytes 8 docId.toNat)) := by
  rw [frame, hc.serialize_delete]
  simp

theorem fits_delete (hc : DeleteLayout c) (seq : UInt64) (docId : DocId) :
    Fits c ⟨seq, .delete docId⟩ := by
  rw [Fits, hc.serialize_delete]
  simp

/-- The place a decoded deletion has its id's low byte from. -/
theorem low_byte_of_deserialize (hc : DeleteLayout c) {bs : Bytes} {seq : UInt64}
    {docId : DocId} (h : c.deserialize bs = some ⟨seq, .delete docId⟩) :
    bs[12]? = some (UInt8.ofNat docId.toNat) := by
  obtain ⟨rest, rfl⟩ := hc.deserialize_delete bs seq docId h
  rw [hc.serialize_delete, List.append_assoc, List.append_assoc,
    List.getElem?_append_right (by simp), List.getElem?_append_right (by simp),
    List.getElem?_append_left (by simp)]
  simpa using leBytes_head 7 docId.toNat

/-- If the reader, behind a tail, returns a deletion first, then the low byte of its id was in
the file before the id was written. -/
theorem low_byte_of_scan (hc : DeleteLayout c) {p : Bytes} (hp : p ≠ []) {seq : UInt64}
    {docId : DocId} {rest : Bytes} {rs : List WalRecord}
    (h : scan c (p ++ (frame c ⟨seq, .delete docId⟩ ++ rest)) = ⟨seq, .delete docId⟩ :: rs) :
    (beforeId p seq)[16]? = some (UInt8.ofNat docId.toNat) := by
  have hsplit : p ++ (frame c ⟨seq, .delete docId⟩ ++ rest)
      = beforeId p seq ++ (leBytes 8 docId.toNat ++ rest) := by
    simp only [frame_delete hc, beforeId, List.append_assoc]
  have hdes := low_byte_of_deserialize hc (deserialize_of_scan_eq_cons c h)
  rw [hsplit] at hdes
  rw [← hdes, List.getElem?_take]
  split
  · rw [List.getElem?_drop, List.getElem?_append_left (sixteen_lt_beforeId hp seq)]
  · -- a body of at most twelve bytes would not have decoded to a deletion
    rename_i hshort
    rw [List.getElem?_take, if_neg hshort] at hdes
    cases hdes

/-! ## 3. No tail is survived -/

/-- **A deletion behind a torn tail is lost**, and so the log is not read back, whatever is
appended after it, unless the low byte of its id is the byte the reader finds in its place. -/
theorem not_survivesTail_delete (hc : DeleteLayout c) {rs : List WalRecord}
    (hrs : ∀ r ∈ rs, Fits c r) {p : Bytes} (hp : p ≠ []) {docId : DocId}
    (hid : (beforeId p (openFile c (frames c rs ++ p)).nextSeq)[16]?
      ≠ some (UInt8.ofNat docId.toNat)) (ks : List WalCall) :
    ¬ SurvivesTail c rs p (.append (.delete docId) :: ks) := by
  rintro ⟨hread, -⟩
  rw [readRecords_tail c hrs] at hread
  have hscan := List.append_cancel_left hread
  exact hid (low_byte_of_scan hc hp hscan)

/-- Two ids have different low bytes, so one of them differs from any given byte. -/
theorem exists_low_byte_ne (b : Option UInt8) :
    ∃ docId : DocId, b ≠ some (UInt8.ofNat docId.toNat) := by
  by_cases h : b = some (UInt8.ofNat (0 : DocId).toNat)
  · exact ⟨1, by rw [h]; decide⟩
  · exact ⟨0, h⟩

/-- **The log survives no torn tail.**  Whatever whole records `rs` the file holds and whatever
proper prefix `p` of a further record stands behind them, the log still reads as `rs` when it
is opened, but there are entries that are appended successfully and not read back. -/
theorem not_survivesTail (hc : DeleteLayout c) (rs : List WalRecord) (r : WalRecord) (p : Bytes)
    (hrs : ∀ r ∈ rs, Fits c r) (hr : Fits c r) (hp : p <+: frame c r) (hne : p ≠ [])
    (hlt : p.length < (frame c r).length) :
    (openFile c (frames c rs ++ p)).readRecords c = rs ∧
    ¬ ∀ ks : List WalCall,
        (∀ r ∈ numbered (openFile c (frames c rs ++ p)).nextSeq (ks.flatMap WalCall.entries),
          Fits c r) →
        SurvivesTail c rs p ks := by
  refine ⟨?_, fun hall => ?_⟩
  · rw [readRecords_openFile, scan_frames_append c rs hrs, scan_eq_nil_of_torn c hr hp hlt,
      List.append_nil]
  · obtain ⟨docId, hid⟩ :=
      exists_low_byte_ne (beforeId p (openFile c (frames c rs ++ p)).nextSeq)[16]?
    refine not_survivesTail_delete hc hrs hne hid [] (hall _ ?_)
    intro r hr
    obtain rfl : r = ⟨_, .delete docId⟩ := by simpa [numbered, WalCall.entries] using hr
    exact fits_delete hc _ _

/-- One byte of a record, left behind by a crash in the first write to a new log. -/
theorem not_survivesTail_one_byte :
    (openFile Bincode.walCodec (frames Bincode.walCodec [] ++ [20])).readRecords
      Bincode.walCodec = [] ∧
    ¬ ∀ ks : List WalCall,
        (∀ r ∈ numbered (openFile Bincode.walCodec (frames Bincode.walCodec [] ++ [20])).nextSeq
          (ks.flatMap WalCall.entries), Fits Bincode.walCodec r) →
        SurvivesTail Bincode.walCodec [] [20] ks :=
  not_survivesTail Bincode.deleteLayout [] ⟨0, .delete 9⟩ [20] (by decide) (by decide)
    (by decide) (by decide) (by decide)

/-- Behind that byte the next deletion is not read back: the reader asks for a body of 5140
bytes. -/
theorem not_survivesTail_retried_deletion :
    [20] <+: frame Bincode.walCodec ⟨0, .delete 9⟩ ∧
    [20].length < (frame Bincode.walCodec ⟨0, .delete 9⟩).length ∧
    ¬ SurvivesTail Bincode.walCodec [] [20] [.append (.delete 9)] := by
  refine ⟨by decide, by decide, fun h => ?_⟩
  have hseq : (openFile Bincode.walCodec (frames Bincode.walCodec [] ++ [20])).nextSeq = 0 := by
    rw [openFile_nextSeq, scan_eq_nil_of_short_word Bincode.walCodec (by decide)]
    rfl
  have hread := h.1
  rw [readRecords_tail Bincode.walCodec (by simp), hseq,
    scan_eq_nil_of_short_body Bincode.walCodec (by decide)] at hread
  cases hread

end WriteAheadLog

end ZearchEngine
