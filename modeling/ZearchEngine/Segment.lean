/-
# Segments

A segment is a directory (`crates/index/src/segment.rs`, `docstore.rs`): the term dictionary
and the postings of the inverted index, the column store, the stored documents, the metadata,
and, once a document of it has been deleted, a deletion bitmap.  `SegmentWriter::write` writes
the first five, `meta.json` last; `SegmentReader::open` reads `meta.json` first and fails if a
file is missing or cannot be decoded; `DeletionBitmap::mark_deleted` rewrites the sixth.

The encodings of the files return what was written, and are left out: an index file *is* the
list of documents it was built from, the document store the list of documents, a bitmap the
finite set of its bits.  Document counts are `u32` in the source and natural numbers here, and
so are local document ids.  What a crash may leave of a file is `Stored.torn`.  A torn index or
store file is never read, because `meta.json` is written after it and opened before it.
-/
import ZearchEngine.Document
import Mathlib.Data.Finset.Basic
import Mathlib.Data.Finset.Insert
import Mathlib.Data.Multiset.Filter

namespace ZearchEngine

/-! ## 1. Files -/

/-- A file as it may be found after a crash: written whole, or cut short. -/
inductive Stored (α : Type) where
  | whole (a : α)
  | torn
deriving DecidableEq

/-- Reading and decoding a file: a torn file does not decode. -/
def Stored.read {α : Type} : Stored α → Option α
  | .whole a => some a
  | .torn => none

/-- Position of a document in its segment. -/
abbrev LocalDocId := Nat

/-- `RoaringBitmap`: a set of local document ids, iterated in ascending order. -/
abbrev Bitmap := Finset LocalDocId

/-- Metadata for a segment. -/
structure SegmentMeta where
  docCount : Nat
deriving DecidableEq

/-- The files of a segment directory. -/
inductive SegmentFileName where
  | invertedFst | invertedPost | columns | docs | metaJson | deletions
deriving DecidableEq

/-- A file to be written, with its contents. -/
inductive SegmentFile where
  | invertedFst (docs : List Document)
  | invertedPost (docs : List Document)
  | columns (docs : List Document)
  | docs (docs : List Document)
  | metaJson (segmentMeta : SegmentMeta)
  | deletions (bitmap : Bitmap)
deriving DecidableEq

/-- The name a file is written under. -/
def SegmentFile.name : SegmentFile → SegmentFileName
  | .invertedFst _ => .invertedFst
  | .invertedPost _ => .invertedPost
  | .columns _ => .columns
  | .docs _ => .docs
  | .metaJson _ => .metaJson
  | .deletions _ => .deletions

/-- A segment directory: each file, if it exists. -/
structure SegmentDir where
  invertedFst : Option (Stored (List Document)) := none
  invertedPost : Option (Stored (List Document)) := none
  columns : Option (Stored (List Document)) := none
  docs : Option (Stored (List Document)) := none
  metaJson : Option (Stored SegmentMeta) := none
  deletions : Option (Stored Bitmap) := none
deriving DecidableEq

namespace SegmentDir

/-- `std::fs::write` of one file. -/
def write (dir : SegmentDir) : SegmentFile → SegmentDir
  | .invertedFst docs => { dir with invertedFst := some (.whole docs) }
  | .invertedPost docs => { dir with invertedPost := some (.whole docs) }
  | .columns docs => { dir with columns := some (.whole docs) }
  | .docs docs => { dir with docs := some (.whole docs) }
  | .metaJson segmentMeta => { dir with metaJson := some (.whole segmentMeta) }
  | .deletions bitmap => { dir with deletions := some (.whole bitmap) }

/-- What a crash in the middle of a write leaves of the file. -/
def tear (dir : SegmentDir) : SegmentFileName → SegmentDir
  | .invertedFst => { dir with invertedFst := some .torn }
  | .invertedPost => { dir with invertedPost := some .torn }
  | .columns => { dir with columns := some .torn }
  | .docs => { dir with docs := some .torn }
  | .metaJson => { dir with metaJson := some .torn }
  | .deletions => { dir with deletions := some .torn }

/-- Removing one file. -/
def unlink (dir : SegmentDir) : SegmentFileName → SegmentDir
  | .invertedFst => { dir with invertedFst := none }
  | .invertedPost => { dir with invertedPost := none }
  | .columns => { dir with columns := none }
  | .docs => { dir with docs := none }
  | .metaJson => { dir with metaJson := none }
  | .deletions => { dir with deletions := none }

end SegmentDir

/-- `SegmentWriter::write`: the files it writes into the new directory, in order. -/
def SegmentWriter.write (docs : List Document) : List SegmentFile :=
  [ .invertedFst docs
  , .invertedPost docs
  , .columns docs
  , .docs docs
  , .metaJson { docCount := docs.length } ]

/-! ## 2. Readers -/

/-- `DocStoreReader`: the stored documents, and the bitmap as it was when the store was
opened. -/
structure DocStoreReader where
  docs : List Document
  deletionBitmap : Bitmap
deriving DecidableEq

/-- `DocStoreReader::get`: `None` if the document is deleted or out of range. -/
def DocStoreReader.get (r : DocStoreReader) (localDocId : LocalDocId) : Option Document :=
  if localDocId ∈ r.deletionBitmap then none else r.docs[localDocId]?

/-- An open segment. -/
structure SegmentReader where
  segmentMeta : SegmentMeta
  inverted : List Document
  columns : List Document
  docs : DocStoreReader
deriving DecidableEq

namespace SegmentReader

/-- `load_deletion_bitmap`: no file means no deletion. -/
def loadDeletionBitmap (dir : SegmentDir) : Option Bitmap :=
  match dir.deletions with
  | some deletions => deletions.read
  | none => some ∅

/-- `SegmentReader::open`. -/
def openDir (dir : SegmentDir) : Option SegmentReader := do
  let segmentMeta ← dir.metaJson >>= Stored.read
  let inverted ← dir.invertedFst >>= Stored.read
  let _ ← dir.invertedPost >>= Stored.read
  let columns ← dir.columns >>= Stored.read
  let docs ← dir.docs >>= Stored.read
  let deletionBitmap ← loadDeletionBitmap dir
  some { segmentMeta, inverted, columns, docs := { docs, deletionBitmap } }

/-- `get_doc`. -/
def getDoc (r : SegmentReader) (localDocId : LocalDocId) : Option Document :=
  r.docs.get localDocId

/-- `all_live_docs`, in the order a bitmap is iterated. -/
def allLiveDocs (r : SegmentReader) : List LocalDocId :=
  (List.range r.segmentMeta.docCount).filter (fun i => i ∉ r.docs.deletionBitmap)

theorem nodup_allLiveDocs (r : SegmentReader) : r.allLiveDocs.Nodup :=
  List.nodup_range.filter _

/-- The documents of a segment that can still be read, as the loops over
`0..meta.doc_count` collect them. -/
def liveDocuments (r : SegmentReader) : List Document :=
  (List.range r.segmentMeta.docCount).filterMap r.getDoc

end SegmentReader

/-- `DeletionBitmap::mark_deleted`: the bit is added to the bitmap on disk. -/
def DeletionBitmap.markDeleted (localDocId : LocalDocId) (dir : SegmentDir) :
    Option SegmentDir := do
  let bitmap ← SegmentReader.loadDeletionBitmap dir
  some (dir.write (.deletions (insert localDocId bitmap)))

/-! ## 3. A whole segment -/

/-- The directory of a segment with these documents, on which `deletions` was last saved. -/
def SegmentDir.written (docs : List Document) (deletions : Option Bitmap) : SegmentDir where
  invertedFst := some (.whole docs)
  invertedPost := some (.whole docs)
  columns := some (.whole docs)
  docs := some (.whole docs)
  metaJson := some (.whole { docCount := docs.length })
  deletions := deletions.map .whole

/-- The reader of such a segment. -/
def SegmentReader.ofDocs (docs : List Document) (deletionBitmap : Bitmap) : SegmentReader where
  segmentMeta := { docCount := docs.length }
  inverted := docs
  columns := docs
  docs := { docs, deletionBitmap }

/-- **Writing a segment makes a whole directory**, and opening that gives its reader. -/
@[simp] theorem foldl_write (docs : List Document) :
    (SegmentWriter.write docs).foldl SegmentDir.write {} = SegmentDir.written docs none := rfl

@[simp] theorem openDir_written (docs : List Document) (deletions : Option Bitmap) :
    SegmentReader.openDir (SegmentDir.written docs deletions)
      = some (SegmentReader.ofDocs docs (deletions.getD ∅)) := by
  cases deletions <;> rfl

/-- A whole directory determines the documents and the bits. -/
theorem written_inj {docs docs' : List Document} {deletions deletions' : Option Bitmap}
    (h : SegmentDir.written docs deletions = SegmentDir.written docs' deletions') :
    docs = docs' ∧ deletions.getD ∅ = deletions'.getD ∅ := by
  have hreader := congrArg SegmentReader.openDir h
  rw [openDir_written, openDir_written, Option.some.injEq] at hreader
  exact ⟨congrArg SegmentReader.columns hreader,
    congrArg (fun r => r.docs.deletionBitmap) hreader⟩

@[simp] theorem markDeleted_written (docs : List Document) (deletions : Option Bitmap)
    (localDocId : LocalDocId) :
    DeletionBitmap.markDeleted localDocId (SegmentDir.written docs deletions)
      = some (SegmentDir.written docs (some (insert localDocId (deletions.getD ∅)))) := by
  cases deletions <;> rfl

@[simp] theorem loadDeletionBitmap_written (docs : List Document) (deletions : Option Bitmap) :
    SegmentReader.loadDeletionBitmap (SegmentDir.written docs deletions)
      = some (deletions.getD ∅) := by
  cases deletions <;> rfl

/-- Without a whole `meta.json` a segment does not open, whatever else is there. -/
theorem openDir_eq_none_of_meta {dir : SegmentDir} (h : dir.metaJson >>= Stored.read = none) :
    SegmentReader.openDir dir = none := by
  rw [SegmentReader.openDir, h]
  rfl

/-! ## 4. Live documents -/

namespace SegmentReader

theorem getDoc_ofDocs (docs : List Document) (del : Bitmap) (i : LocalDocId) :
    (ofDocs docs del).getDoc i = if i ∈ del then none else docs[i]? := rfl

/-- `all_live_docs` and `get_doc` agree with the loop over all local ids. -/
theorem filterMap_allLiveDocs (r : SegmentReader) :
    r.allLiveDocs.filterMap r.getDoc = r.liveDocuments := by
  rw [allLiveDocs, List.filterMap_filter, liveDocuments]
  refine List.filterMap_congr (fun i _ => ?_)
  by_cases h : i ∈ r.docs.deletionBitmap <;> simp [h, getDoc, DocStoreReader.get]

/-- A list is its elements by position. -/
theorem filterMap_getElem?_range {α : Type} : ∀ l : List α,
    (List.range l.length).filterMap (fun i => l[i]?) = l
  | [] => rfl
  | a :: l => by
    have h0 : (a :: l)[0]? = some a := rfl
    rw [List.length_cons, List.range_succ_eq_map, List.filterMap_cons, h0, List.filterMap_map]
    exact congrArg (a :: ·) (filterMap_getElem?_range l)

@[simp] theorem liveDocuments_ofDocs_empty (docs : List Document) :
    (ofDocs docs ∅).liveDocuments = docs := by
  have h : (ofDocs docs ∅).getDoc = fun i => docs[i]? := by
    funext i
    simp [getDoc_ofDocs]
  rw [liveDocuments, h]
  exact filterMap_getElem?_range docs

/-- A function that keeps fewer elements keeps a sublist. -/
theorem filterMap_sublist {α β : Type} {f g : α → Option β}
    (h : ∀ a, f a = none ∨ f a = g a) : ∀ l : List α, (l.filterMap f).Sublist (l.filterMap g)
  | [] => List.Sublist.slnil
  | a :: l => by
    have ih := filterMap_sublist h l
    rcases h a with hf | hf
    · rw [List.filterMap_cons_none hf]
      refine ih.trans ?_
      cases hg : g a with
      | none => rw [List.filterMap_cons_none hg]
      | some b => rw [List.filterMap_cons_some hg]; exact List.sublist_cons_self _ _
    · cases hg : g a with
      | none => rw [List.filterMap_cons_none (hf.trans hg), List.filterMap_cons_none hg]; exact ih
      | some b =>
        rw [List.filterMap_cons_some (hf.trans hg), List.filterMap_cons_some hg]
        exact ih.cons_cons b

/-- **More deletions leave fewer live documents.** -/
theorem liveDocuments_sublist (docs : List Document) {del del' : Bitmap} (h : del ⊆ del') :
    (ofDocs docs del').liveDocuments.Sublist (ofDocs docs del).liveDocuments := by
  refine filterMap_sublist (fun i => ?_) _
  by_cases hi : i ∈ del'
  · exact Or.inl (by rw [getDoc_ofDocs, if_pos hi])
  · have hi' : i ∉ del := fun hmem => hi (h hmem)
    exact Or.inr (by rw [getDoc_ofDocs, getDoc_ofDocs, if_neg hi, if_neg hi'])

theorem liveDocuments_sublist_docs (docs : List Document) (del : Bitmap) :
    (ofDocs docs del).liveDocuments.Sublist docs := by
  have h := liveDocuments_sublist docs (Finset.empty_subset del)
  rwa [liveDocuments_ofDocs_empty] at h

/-- Every live local id of a whole segment has its document. -/
theorem length_liveDocuments_ofDocs (docs : List Document) (del : Bitmap) :
    (ofDocs docs del).liveDocuments.length = (ofDocs docs del).allLiveDocs.length := by
  rw [← filterMap_allLiveDocs, List.filterMap_length_eq_length]
  intro i hi
  obtain ⟨hrange, hdel⟩ := List.mem_filter.mp hi
  have hlt : i < docs.length := List.mem_range.mp hrange
  have hnot : i ∉ del := of_decide_eq_true hdel
  rw [getDoc_ofDocs, if_neg hnot, List.getElem?_eq_getElem hlt]
  rfl

/-- The documents of a segment whose bit is set in the bitmap. -/
def deadDocuments (r : SegmentReader) : List Document :=
  (List.range r.segmentMeta.docCount).filterMap (fun i =>
    if i ∈ r.docs.deletionBitmap then r.docs.docs[i]? else none)

/-- Splitting a list by a condition on what is kept. -/
theorem filterMap_ite_append_perm {α β : Type} (p : α → Prop) [DecidablePred p]
    (f : α → Option β) : ∀ l : List α,
    (l.filterMap (fun a => if p a then none else f a)
      ++ l.filterMap (fun a => if p a then f a else none)).Perm (l.filterMap f)
  | [] => List.Perm.refl _
  | a :: l => by
    have ih := filterMap_ite_append_perm p f l
    by_cases hp : p a <;> cases hf : f a <;>
      simp only [List.filterMap_cons, hp, hf, if_true, if_false]
    · exact ih
    · exact List.perm_middle.trans (ih.cons _)
    · exact ih
    · exact ih.cons _

/-- **The live and the deleted documents of a segment are its documents.** -/
theorem liveDocuments_append_deadDocuments (docs : List Document) (del : Bitmap) :
    ((ofDocs docs del).liveDocuments ++ (ofDocs docs del).deadDocuments).Perm docs := by
  have h := filterMap_ite_append_perm (fun i => i ∈ del) (fun i => docs[i]?)
    (List.range docs.length)
  rwa [filterMap_getElem?_range] at h

/-- A document that can be read by its local id is live. -/
theorem mem_liveDocuments_of_getDoc {docs : List Document} {del : Bitmap} {i : LocalDocId}
    {doc : Document} (h : (ofDocs docs del).getDoc i = some doc) :
    doc ∈ (ofDocs docs del).liveDocuments := by
  have hi : i < docs.length := by
    rw [getDoc_ofDocs] at h
    by_cases hdel : i ∈ del
    · simp [hdel] at h
    · rw [if_neg hdel] at h
      exact (List.getElem?_eq_some_iff.mp h).1
  exact List.mem_filterMap.mpr ⟨i, List.mem_range.mpr hi, h⟩

end SegmentReader

end ZearchEngine
