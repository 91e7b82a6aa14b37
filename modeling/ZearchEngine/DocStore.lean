/-
# The document store as bytes

`docs.bin` and `deletions.bin` as `DocStoreWriter::write` and `DeletionBitmap::mark_deleted` write
them and `DocStoreReader` reads them (`crates/index/src/docstore.rs`).  A document is found through
its offset: the writer counts the bytes it has written so far, the reader adds what it finds in
the table to the end of the table.

What was written is read back, unless it was marked deleted (`docstore_round_trip`), so that the
store of `ZearchEngine.Segment`, which leaves the bytes out, is what these files hold.  Whatever
the number of documents and their sizes, the reader takes no slice outside a file that the
writer has finished (`get_written`).

A slice outside the data panics, and so do an overflow and a `Vec` of more than `isize::MAX`
bytes.  bincode and the format of the `roaring` crate are parameters.
-/
import ZearchEngine.Lib.OffsetTable
import ZearchEngine.Segment
import ZearchEngine.Wal.Bincode
import Mathlib

namespace ZearchEngine

open LengthPrefix OffsetTable

/-! ## 1. Calls on files -/

/-- How a call ends. -/
inductive IoOutcome (α : Type) where
  | ok (a : α)
  | error
  | panic
deriving DecidableEq

namespace IoOutcome

variable {α β : Type}

/-- The rest of a call runs if the first part has a value. -/
def bind : IoOutcome α → (α → IoOutcome β) → IoOutcome β
  | .ok a, f => f a
  | .error, _ => .error
  | .panic, _ => .panic

instance : Monad IoOutcome where
  pure := .ok
  bind := bind

/-- `unwrap`, or an index. -/
def orPanic : Option α → IoOutcome α
  | some a => .ok a
  | none => .panic

/-- `?` on a failed read. -/
def orError : Option α → IoOutcome α
  | some a => .ok a
  | none => .error

@[simp] theorem ok_bind (a : α) (f : α → IoOutcome β) : (IoOutcome.ok a >>= f) = f a := rfl

@[simp] theorem error_bind (f : α → IoOutcome β) : ((.error : IoOutcome α) >>= f) = .error := rfl

@[simp] theorem panic_bind (f : α → IoOutcome β) : ((.panic : IoOutcome α) >>= f) = .panic := rfl

@[simp] theorem orPanic_some (a : α) : orPanic (some a) = .ok a := rfl

@[simp] theorem orError_some (a : α) : orError (some a) = .ok a := rfl

@[simp] theorem orError_none : orError (none : Option α) = .error := rfl

end IoOutcome

/-- Addition of `usize`. -/
def addUsize (a b : Nat) : IoOutcome Nat := if a + b < 2 ^ 64 then .ok (a + b) else .panic

namespace Raw

/-- A segment directory: the bytes of its files. -/
abbrev Dir := SegmentFileName → Option Bytes

/-- `std::fs::write`. -/
def Dir.write (dir : Dir) (name : SegmentFileName) (data : Bytes) : Dir :=
  Function.update dir name (some data)

@[simp] theorem Dir.write_self (dir : Dir) (name : SegmentFileName) (data : Bytes) :
    dir.write name data name = some data := Function.update_self _ _ _

theorem Dir.write_of_ne {dir : Dir} {name name' : SegmentFileName} (h : name' ≠ name)
    (data : Bytes) : dir.write name data name' = dir name' := Function.update_of_ne h _ _

/-- `serialize_into` and `deserialize_from` of a `RoaringBitmap`. -/
structure BitmapFormat where
  serialize : Bitmap → Bytes
  deserialize : Bytes → Option Bitmap

variable (c : Codec Document) (format : BitmapFormat)

/-! ## 2. Writing -/

namespace DocStoreWriter

/-- The loop of `write`: `doc_data` and `offsets` after one more document. -/
def writeOne (acc : Bytes × List Nat) (doc : Document) : Bytes × List Nat :=
  let (docData, offsets) := acc
  let encoded := c.serialize doc
  (docData ++ (leBytes 4 encoded.length ++ encoded), offsets ++ [docData.length])

/-- The contents of `docs.bin`. -/
def fileData (docs : List Document) : Bytes :=
  let (docData, offsets) := docs.foldl (writeOne c) ([], [])
  leBytes 4 docs.length ++ (offsets.flatMap (leBytes 8) ++ docData)

/-- `write`. -/
def write (docs : List Document) (dir : Dir) : IoOutcome Dir :=
  let data := fileData c docs
  if data.length < 2 ^ 63 then .ok (dir.write .docs data) else .panic

/-- What the loop has counted and written. -/
theorem foldl_writeOne (docs : List Document) : docs.foldl (writeOne c) ([], [])
    = (frames c docs, (List.range docs.length).map (startOf (docs.map (frame c)))) := by
  induction docs using List.reverseRecOn with
  | nil => rfl
  | append_singleton docs doc ih =>
    have hlength : (docs.map (frame c)).length = docs.length := List.length_map _
    have hstart : startOf ((docs ++ [doc]).map (frame c)) docs.length
        = (frames c docs).length := by
      rw [startOf, List.map_append, ← hlength, List.take_left, List.flatten_eq_flatMap,
        List.flatMap_map]
      rfl
    have hbefore : ∀ i ∈ List.range docs.length, startOf (docs.map (frame c)) i
        = startOf ((docs ++ [doc]).map (frame c)) i := by
      intro i hi
      have hle : i ≤ (docs.map (frame c)).length := by
        rw [hlength]
        exact (List.mem_range.mp hi).le
      rw [startOf, startOf, List.map_append, List.take_append_of_le_length hle]
    rw [List.foldl_append, ih, List.length_append, List.length_singleton, List.range_succ,
      List.map_append, List.map_singleton, hstart, ← List.map_congr_left hbefore]
    simp [writeOne, frame]

/-- **The file** is the encoded documents behind a table of offsets. -/
theorem fileData_eq (docs : List Document) :
    fileData c docs = file (docs.map (frame c)) := by
  unfold fileData
  rw [foldl_writeOne]
  simp only [file, table, List.length_map, List.flatMap_map, List.flatten_eq_flatMap, frames]
  rfl

theorem write_of_lt {docs : List Document} (h : (fileData c docs).length < 2 ^ 63) (dir : Dir) :
    write c docs dir = .ok (dir.write .docs (fileData c docs)) := if_pos h

theorem write_eq_ok {docs : List Document} {dir dir' : Dir} (h : write c docs dir = .ok dir') :
    dir' = dir.write .docs (fileData c docs) ∧ (fileData c docs).length < 2 ^ 63 := by
  unfold write at h
  dsimp only at h
  split at h
  · next hlt => exact ⟨(IoOutcome.ok.inj h).symm, hlt⟩
  · cases h

end DocStoreWriter

/-! ## 3. Reading -/

/-- `DocStoreReader`. -/
structure DocStoreReader where
  data : Bytes
  docCount : Nat
  offsetTableStart : Nat
  dataStart : Nat
  deletionBitmap : Bitmap

namespace DocStoreReader

/-- `load_deletion_bitmap`. -/
def loadDeletionBitmap (dir : Dir) : IoOutcome Bitmap :=
  match dir .deletions with
  | some data => .orError (format.deserialize data)
  | none => .ok ∅

/-- `open`. -/
def openDir (dir : Dir) : IoOutcome DocStoreReader := do
  let data ← .orError (dir .docs)
  let count ← .orPanic (slice data 0 4)
  let docCount := leNat count
  let offsetTableStart := 4
  let dataStart := offsetTableStart + docCount * 8
  let deletionBitmap ← loadDeletionBitmap format dir
  .ok { data, docCount, offsetTableStart, dataStart, deletionBitmap }

/-- `get`: `None` if deleted or out of range. -/
def get (r : DocStoreReader) (localDocId : LocalDocId) : IoOutcome (Option Document) :=
  if r.docCount ≤ localDocId ∨ localDocId ∈ r.deletionBitmap then .ok none
  else do
    let offsetPos := r.offsetTableStart + localDocId * 8
    let word ← .orPanic (slice r.data offsetPos (offsetPos + 8))
    let relativeOffset := leNat word
    let absOffset ← addUsize r.dataStart relativeOffset
    let lenWord ← .orPanic (slice r.data absOffset (absOffset + 4))
    let docLen := leNat lenWord
    let docData ← .orPanic (slice r.data (absOffset + 4) (absOffset + 4 + docLen))
    .ok (c.deserialize docData)

/-- `live_doc_count`: a subtraction of `u32`. -/
def liveDocCount (r : DocStoreReader) : IoOutcome Nat :=
  let deleted := r.deletionBitmap.card % 2 ^ 32
  if deleted ≤ r.docCount then .ok (r.docCount - deleted) else .panic

end DocStoreReader

namespace DeletionBitmap

/-- `save`. -/
def save (bitmap : Bitmap) (dir : Dir) : Dir := dir.write .deletions (format.serialize bitmap)

/-- `mark_deleted`. -/
def markDeleted (localDocId : LocalDocId) (dir : Dir) : IoOutcome (Bitmap × Dir) := do
  let bitmap ← DocStoreReader.loadDeletionBitmap format dir
  let bitmap := insert localDocId bitmap
  .ok (bitmap, save format bitmap dir)

/-- One call after the other. -/
def markAll : List LocalDocId → Dir → IoOutcome Dir
  | [], dir => .ok dir
  | localDocId :: ids, dir => do
    let (_, dir) ← markDeleted format localDocId dir
    markAll ids dir

end DeletionBitmap

/-! ## 4. What is read of what was written -/

/-- The reader of these documents, with this bitmap. -/
def DocStoreReader.ofDocs (docs : List Document) (deletionBitmap : Bitmap) : DocStoreReader where
  data := DocStoreWriter.fileData c docs
  docCount := docs.length % 2 ^ 32
  offsetTableStart := 4
  dataStart := 4 + docs.length % 2 ^ 32 * 8
  deletionBitmap := deletionBitmap

variable {c format}

/-- Opening a directory with the documents and a bitmap. -/
theorem openDir_fileData {dir : Dir} {docs : List Document} {bitmap : Bitmap}
    (hdocs : dir .docs = some (DocStoreWriter.fileData c docs))
    (hbitmap : DocStoreReader.loadDeletionBitmap format dir = .ok bitmap) :
    DocStoreReader.openDir format dir = .ok (.ofDocs c docs bitmap) := by
  have hcount : slice (DocStoreWriter.fileData c docs) 0 4 = some (leBytes 4 docs.length) := by
    rw [DocStoreWriter.fileData_eq, slice_count, List.length_map]
  unfold DocStoreReader.openDir
  rw [hdocs]
  simp only [IoOutcome.orError_some, IoOutcome.ok_bind, hcount, IoOutcome.orPanic_some, hbitmap,
    leNat_leBytes]
  rfl

/-- The slices that `get` takes of the table and of the length of a document. -/
theorem get_ofDocs {docs : List Document} {bitmap : Bitmap} {i : Nat} {doc : Document}
    (hlen : (DocStoreWriter.fileData c docs).length < 2 ^ 63) (hi : i < docs.length % 2 ^ 32)
    (hbit : i ∉ bitmap) (hdoc : docs[i]? = some doc) :
    (DocStoreReader.ofDocs c docs bitmap).get c i = (do
      let absOffset := 4 + docs.length % 2 ^ 32 * 8 + startOf (docs.map (frame c)) i
      let lenWord ← .orPanic (slice (DocStoreWriter.fileData c docs) absOffset (absOffset + 4))
      let docData ← .orPanic (slice (DocStoreWriter.fileData c docs) (absOffset + 4)
        (absOffset + 4 + leNat lenWord))
      .ok (c.deserialize docData)) := by
  have hrecord : (docs.map (frame c))[i]? = some (frame c doc) := by
    rw [List.getElem?_map, hdoc]
    rfl
  have hbound := startOf_add_le hrecord
  rw [DocStoreWriter.fileData_eq, length_file, List.length_map] at hlen
  have hn : i < docs.length := (List.getElem?_eq_some_iff.mp hdoc).1
  have hmod := Nat.mod_le docs.length (2 ^ 32)
  have hstart : leNat (leBytes 8 (startOf (docs.map (frame c)) i))
      = startOf (docs.map (frame c)) i := leNat_leBytes_of_lt (by omega)
  have htable := slice_table (show i < (docs.map (frame c)).length by rwa [List.length_map])
  unfold DocStoreReader.get DocStoreReader.ofDocs
  rw [if_neg (by simp only [not_or, not_le]; exact ⟨hi, hbit⟩)]
  simp only [DocStoreWriter.fileData_eq, htable, IoOutcome.orPanic_some, IoOutcome.ok_bind, hstart,
    addUsize]
  rw [if_pos (by omega)]
  rfl

/-- The length word of a document, where the document begins. -/
theorem slice_lenWord {docs : List Document} {i : Nat} {doc : Document}
    (hdoc : docs[i]? = some doc) :
    slice (DocStoreWriter.fileData c docs)
        (4 + docs.length * 8 + startOf (docs.map (frame c)) i)
        (4 + docs.length * 8 + startOf (docs.map (frame c)) i + 4)
      = some (leBytes 4 (c.serialize doc).length) := by
  have hrecord : (docs.map (frame c))[i]? = some (frame c doc) := by
    rw [List.getElem?_map, hdoc]
    rfl
  have hword : slice (frame c doc) 0 4 = some (leBytes 4 (c.serialize doc).length) := by
    have hmiddle := slice_middle [] (leBytes 4 (c.serialize doc).length) (c.serialize doc)
    rw [leBytes_length] at hmiddle
    exact hmiddle
  have hslice := slice_record hrecord 0 (show 4 ≤ (frame c doc).length by rw [frame_length]; omega)
  rw [List.length_map, Nat.add_zero, hword] at hslice
  rw [DocStoreWriter.fileData_eq, Nat.mul_comm docs.length 8]
  exact hslice

/-- Its bytes, behind the length word. -/
theorem slice_docData {docs : List Document} {i : Nat} {doc : Document}
    (hdoc : docs[i]? = some doc) :
    slice (DocStoreWriter.fileData c docs)
        (4 + docs.length * 8 + startOf (docs.map (frame c)) i + 4)
        (4 + docs.length * 8 + startOf (docs.map (frame c)) i + 4 + (c.serialize doc).length)
      = some (c.serialize doc) := by
  have hrecord : (docs.map (frame c))[i]? = some (frame c doc) := by
    rw [List.getElem?_map, hdoc]
    rfl
  have hbody : slice (frame c doc) 4 (4 + (c.serialize doc).length) = some (c.serialize doc) := by
    have hmiddle := slice_middle (leBytes 4 (c.serialize doc).length) (c.serialize doc) []
    rw [leBytes_length, List.append_nil] at hmiddle
    exact hmiddle
  have hslice := slice_record hrecord 4 (frame_length c doc).ge
  rw [List.length_map, hbody, ← Nat.add_assoc] at hslice
  rw [DocStoreWriter.fileData_eq, Nat.mul_comm docs.length 8]
  exact hslice

/-- **Every document is read as it was written**, unless its bit is set: the byte-level store is
the store of documents. -/
theorem get_eq {docs : List Document} {bitmap : Bitmap}
    (hlen : (DocStoreWriter.fileData c docs).length < 2 ^ 63) (hcount : docs.length < 2 ^ 32)
    (hfits : ∀ doc ∈ docs, Fits c doc) (i : Nat) :
    (DocStoreReader.ofDocs c docs bitmap).get c i
      = .ok ((⟨docs, bitmap⟩ : ZearchEngine.DocStoreReader).get i) := by
  have hmod : docs.length % 2 ^ 32 = docs.length := Nat.mod_eq_of_lt hcount
  unfold ZearchEngine.DocStoreReader.get
  by_cases hbit : i ∈ bitmap
  · rw [if_pos hbit]
    exact if_pos (Or.inr hbit)
  · rw [if_neg hbit]
    by_cases hi : i < docs.length
    · have hdoc : docs[i]? = some docs[i] := List.getElem?_eq_getElem hi
      have hfit := hfits docs[i] (List.getElem_mem hi)
      rw [get_ofDocs hlen (by rwa [hmod]) hbit hdoc]
      simp only [hmod, slice_lenWord hdoc, IoOutcome.orPanic_some, IoOutcome.ok_bind]
      rw [leNat_leBytes_of_lt hfit, slice_docData hdoc]
      simp only [IoOutcome.orPanic_some, IoOutcome.ok_bind, c.roundtrip _ hfit, hdoc]
    · rw [List.getElem?_eq_none (Nat.le_of_not_lt hi)]
      refine if_pos (Or.inl ?_)
      show docs.length % 2 ^ 32 ≤ i
      omega

/-- **No slice is taken outside a finished file**, even where the count and the lengths of the
documents do not fit their words. -/
theorem get_written {docs : List Document} (bitmap : Bitmap)
    (hlen : (DocStoreWriter.fileData c docs).length < 2 ^ 63) (i : Nat) :
    ∃ doc, (DocStoreReader.ofDocs c docs bitmap).get c i = .ok doc := by
  by_cases hnone : docs.length % 2 ^ 32 ≤ i ∨ i ∈ bitmap
  · exact ⟨none, if_pos hnone⟩
  · obtain ⟨hcount, hbit⟩ := not_or.mp hnone
    have hmod := Nat.mod_le docs.length (2 ^ 32)
    have hi : i < docs.length := by omega
    have hdoc : docs[i]? = some docs[i] := List.getElem?_eq_getElem hi
    have hrecord : (docs.map (frame c))[i]? = some (frame c docs[i]) := by
      rw [List.getElem?_map, hdoc]
      rfl
    have hbound := startOf_add_le hrecord
    have hsize : (DocStoreWriter.fileData c docs).length
        = 4 + 8 * docs.length + (docs.map (frame c)).flatten.length := by
      rw [DocStoreWriter.fileData_eq, length_file, List.length_map]
    rw [frame_length] at hbound
    rw [get_ofDocs hlen (by omega) hbit hdoc]
    dsimp only
    have hfirst : 4 + docs.length % 2 ^ 32 * 8 + startOf (docs.map (frame c)) i + 4
        ≤ (DocStoreWriter.fileData c docs).length := by omega
    obtain ⟨word, hword, hwordLen⟩ := slice_of_le (Nat.le_add_right _ 4) hfirst
    have hinside : 4 + docs.length % 2 ^ 32 * 8 + startOf (docs.map (frame c)) i + 4 + leNat word
        ≤ (DocStoreWriter.fileData c docs).length := by
      by_cases hsmall : docs.length < 2 ^ 32
      · -- the word is the length of the document, or less
        rw [Nat.mod_eq_of_lt hsmall, slice_lenWord hdoc, Option.some.injEq] at hword
        have hle : leNat word ≤ (c.serialize docs[i]).length := by
          rw [← hword, leNat_leBytes]
          exact Nat.mod_le _ _
        omega
      · -- the entries of the table that are not counted take up more than any word asks for
        have hlt := leNat_lt word
        rw [hwordLen, Nat.add_sub_cancel_left] at hlt
        have hdiv := Nat.div_add_mod docs.length (2 ^ 32)
        have hpos : 1 ≤ docs.length / 2 ^ 32 := Nat.div_pos (by omega) (by omega)
        omega
    obtain ⟨docData, hdocData, -⟩ := slice_of_le (Nat.le_add_right _ (leNat word)) hinside
    rw [hword]
    simp only [IoOutcome.orPanic_some, IoOutcome.ok_bind]
    rw [hdocData]
    exact ⟨c.deserialize docData, rfl⟩

/-! ## 5. Deletions -/

/-- A bitmap of ids below `n` is read as it was saved. -/
def BitmapFormat.RoundTrips (format : BitmapFormat) (n : Nat) : Prop :=
  ∀ bitmap : Bitmap, (∀ i ∈ bitmap, i < n) →
    format.deserialize (format.serialize bitmap) = some bitmap

/-- **Marking documents deleted** adds their bits to those on disk, and touches no other file. -/
theorem markAll_eq {n : Nat} (hformat : format.RoundTrips n) : ∀ (ids : List LocalDocId) (dir : Dir)
    (bitmap : Bitmap), (∀ i ∈ ids, i < n) → (∀ i ∈ bitmap, i < n) →
    DocStoreReader.loadDeletionBitmap format dir = .ok bitmap →
    ∃ dir', DeletionBitmap.markAll format ids dir = .ok dir' ∧ dir' .docs = dir .docs ∧
      DocStoreReader.loadDeletionBitmap format dir' = .ok (ids.toFinset ∪ bitmap)
  | [], dir, bitmap, _, _, hload =>
    ⟨dir, rfl, rfl, by rw [hload, List.toFinset_nil, Finset.empty_union]⟩
  | i :: ids, dir, bitmap, hids, hbitmap, hload => by
    have hinsert : ∀ j ∈ insert i bitmap, j < n := by
      intro j hj
      rcases Finset.mem_insert.mp hj with rfl | hj
      · exact hids _ List.mem_cons_self
      · exact hbitmap j hj
    have hsaved : DocStoreReader.loadDeletionBitmap format
        (DeletionBitmap.save format (insert i bitmap) dir) = .ok (insert i bitmap) := by
      unfold DocStoreReader.loadDeletionBitmap DeletionBitmap.save
      simp [hformat _ hinsert]
    obtain ⟨dir', hall, hdocs, hload'⟩ := markAll_eq hformat ids _ (insert i bitmap)
      (fun j hj => hids j (List.mem_cons_of_mem _ hj)) hinsert hsaved
    refine ⟨dir', ?_, ?_, ?_⟩
    · unfold DeletionBitmap.markAll DeletionBitmap.markDeleted
      rw [hload]
      exact hall
    · rw [hdocs, DeletionBitmap.save, Dir.write_of_ne (by decide)]
    · rw [hload', List.toFinset_cons, Finset.union_insert, Finset.insert_union]

/-- **The document store round trip.**  Documents are written into a directory without deletions,
and some of them are marked deleted, in any order.  The store opens; `get` returns nothing for an
id that is out of range or was marked, and else the document that was written, without a slice
outside the file; and as many documents are live as were written and not marked. -/
theorem docstore_round_trip (c : Codec Document) (format : BitmapFormat) {docs : List Document}
    {ids : List LocalDocId} {dir dir' : Dir} (hcount : docs.length < 2 ^ 32)
    (hfits : ∀ doc ∈ docs, Fits c doc) (hids : ∀ i ∈ ids, i < docs.length)
    (hformat : format.RoundTrips docs.length) (hnew : dir .deletions = none)
    (hwrite : DocStoreWriter.write c docs dir = .ok dir') :
    ∃ dir'' reader, DeletionBitmap.markAll format ids dir' = .ok dir'' ∧
      DocStoreReader.openDir format dir'' = .ok reader ∧
      (∀ i, reader.get c i = .ok (if docs.length ≤ i ∨ i ∈ ids then none else docs[i]?)) ∧
      reader.liveDocCount = .ok (docs.length - ids.toFinset.card) := by
  obtain ⟨rfl, hlen⟩ := DocStoreWriter.write_eq_ok c hwrite
  have hload : DocStoreReader.loadDeletionBitmap format
      (dir.write .docs (DocStoreWriter.fileData c docs)) = .ok ∅ := by
    unfold DocStoreReader.loadDeletionBitmap
    rw [Dir.write_of_ne (by decide), hnew]
  obtain ⟨dir'', hall, hdocs, hload'⟩ := markAll_eq hformat ids _ ∅ hids (by simp) hload
  have hfile : dir'' .docs = some (DocStoreWriter.fileData c docs) := by
    rw [hdocs, Dir.write_self]
  rw [Finset.union_empty] at hload'
  refine ⟨dir'', _, hall, openDir_fileData hfile hload', fun i => ?_, ?_⟩
  · rw [get_eq hlen hcount hfits]
    unfold ZearchEngine.DocStoreReader.get
    simp only [List.mem_toFinset]
    by_cases hi : docs.length ≤ i
    · simp [hi]
    · simp [hi]
  · have hcard : ids.toFinset.card ≤ docs.length := by
      have hsub : ids.toFinset ⊆ Finset.range docs.length := fun i hi =>
        Finset.mem_range.mpr (hids i (List.mem_toFinset.mp hi))
      simpa using Finset.card_le_card hsub
    have hmod : ids.toFinset.card % 2 ^ 32 = ids.toFinset.card :=
      Nat.mod_eq_of_lt (hcard.trans_lt hcount)
    unfold DocStoreReader.liveDocCount DocStoreReader.ofDocs
    simp only [hmod, Nat.mod_eq_of_lt hcount, if_pos hcard]

/-! ## 6. The format of the bitmaps -/

/-- Words of two bytes. -/
def getWords : Nat → Bytes → Option (List Nat)
  | 0, _ => some []
  | n + 1, data => do
    let (word, data) ← takeBytes 2 data
    let words ← getWords n data
    some (leNat word :: words)

theorem getWords_flatMap : ∀ (words : List Nat), (∀ n ∈ words, n < 2 ^ 16) →
    getWords words.length (words.flatMap (leBytes 2)) = some words
  | [], _ => rfl
  | n :: words, h => by
    have hn : leNat (leBytes 2 n) = n := leNat_leBytes_of_lt (h n List.mem_cons_self)
    rw [List.length_cons, getWords, List.flatMap_cons, takeBytes_append (leBytes_length 2 n)]
    simp [hn, getWords_flatMap words (fun m hm => h m (List.mem_cons_of_mem _ hm))]

/-- What `roaring` writes for at most 4096 ids of at most 16 bits: a cookie, the number of
containers, the key and the size of the one there is, where it begins, and its ids. -/
def roaring : BitmapFormat where
  serialize bitmap :=
    let ids := (List.range (bitmap.sup (· + 1))).filter (· ∈ bitmap)
    leBytes 4 12346 ++ (if ids = [] then leBytes 4 0
      else leBytes 4 1 ++ (leBytes 2 0 ++ (leBytes 2 (ids.length - 1) ++
        (leBytes 4 16 ++ ids.flatMap (leBytes 2)))))
  deserialize data := do
    let (cookie, data) ← takeBytes 4 data
    let (size, data) ← takeBytes 4 data
    if leNat cookie ≠ 12346 then none
    else if leNat size = 0 then some ∅
    else do
      let (_key, data) ← takeBytes 2 data
      let (count, data) ← takeBytes 2 data
      let (_offset, data) ← takeBytes 4 data
      let ids ← getWords (leNat count + 1) data
      some ids.toFinset

theorem roundTrips_roaring {n : Nat} (h : n ≤ 4096) : roaring.RoundTrips n := by
  intro bitmap hbitmap
  have hsup : bitmap.sup (· + 1) ≤ n := Finset.sup_le hbitmap
  have hids : ((List.range (bitmap.sup (· + 1))).filter (· ∈ bitmap)).toFinset = bitmap := by
    ext i
    simp only [List.mem_toFinset, List.mem_filter, List.mem_range, decide_eq_true_eq,
      and_iff_right_iff_imp]
    exact fun hi => Finset.le_sup (f := (· + 1)) hi
  have hlength : ((List.range (bitmap.sup (· + 1))).filter (· ∈ bitmap)).length ≤ n := by
    refine (List.length_filter_le _ _).trans ?_
    rwa [List.length_range]
  have hwords : ∀ i ∈ (List.range (bitmap.sup (· + 1))).filter (· ∈ bitmap), i < 2 ^ 16 := by
    intro i hi
    have hlt : i < n := (List.mem_range.mp (List.mem_of_mem_filter hi)).trans_le hsup
    exact lt_of_lt_of_le hlt (h.trans (by decide))
  unfold roaring
  dsimp only
  generalize (List.range (bitmap.sup (· + 1))).filter (· ∈ bitmap) = ids at *
  have hcookie : leNat (leBytes 4 12346) = 12346 := by decide
  rw [takeBytes_append (leBytes_length 4 _)]
  by_cases hnil : ids = []
  · rw [if_pos hnil]
    have hzero := takeBytes_append (leBytes_length 4 0) []
    rw [List.append_nil] at hzero
    rw [Option.bind_eq_bind, Option.bind_some]
    dsimp only
    rw [hzero]
    simp only [Option.bind_eq_bind, Option.bind_some, hcookie, ne_eq, not_true_eq_false, if_false]
    rw [← hids, hnil]
    rfl
  · have hcount : leNat (leBytes 2 (ids.length - 1)) + 1 = ids.length := by
      have hpos := List.length_pos_iff.mpr hnil
      rw [leNat_leBytes_of_lt (show ids.length - 1 < 256 ^ 2 by omega)]
      omega
    have hone : leNat (leBytes 4 1) = 1 := by decide
    rw [if_neg hnil]
    simp only [Option.bind_eq_bind, Option.bind_some, takeBytes_append (leBytes_length _ _),
      hcookie, hone, ne_eq, not_true_eq_false, if_false, one_ne_zero, hcount,
      getWords_flatMap ids hwords, hids]

/-- Three small documents. -/
def threeDocs : List Document :=
  [⟨1, "a", "", ⟨0⟩, "", .empty⟩, ⟨2, "bc", "", ⟨0⟩, "", .empty⟩, ⟨3, "", "", ⟨0⟩, "", .empty⟩]

/-- The first and the last of them deleted, and the last one twice. -/
theorem docstore_round_trip_three :
    ∃ dir dir' reader,
      DocStoreWriter.write Bincode.document.codec threeDocs (fun _ => none) = .ok dir ∧
      DeletionBitmap.markAll roaring [2, 0, 2] dir = .ok dir' ∧
      DocStoreReader.openDir roaring dir' = .ok reader ∧
      reader.get Bincode.document.codec 0 = .ok none ∧
      reader.get Bincode.document.codec 1 = .ok (some ⟨2, "bc", "", ⟨0⟩, "", .empty⟩) ∧
      reader.get Bincode.document.codec 3 = .ok none ∧ reader.liveDocCount = .ok 1 := by
  have hlen : (DocStoreWriter.fileData Bincode.document.codec threeDocs).length < 2 ^ 63 := by
    decide +kernel
  have hwrite := DocStoreWriter.write_of_lt Bincode.document.codec hlen (fun _ => none)
  have hids : ∀ i ∈ ([2, 0, 2] : List LocalDocId), i < threeDocs.length := by decide
  obtain ⟨dir', reader, hall, hopen, hget, hlive⟩ := docstore_round_trip Bincode.document.codec
    roaring (by decide) (by decide +kernel) hids (roundTrips_roaring (by decide)) rfl hwrite
  exact ⟨_, dir', reader, hwrite, hall, hopen, hget 0, hget 1, hget 3,
    hlive.trans (congrArg IoOutcome.ok (by decide))⟩

end Raw

end ZearchEngine
