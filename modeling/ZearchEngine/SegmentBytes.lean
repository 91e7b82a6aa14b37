/-
# A half-written segment

`SegmentWriter::write` makes a directory and writes five files into it, `meta.json` last;
`SegmentReader::open` reads `meta.json` first (`crates/index/src/segment.rs`).  The readers of the
other files take slices without looking at the length, and `SegmentList::open` reads every
document of a segment it has opened.

A process that dies while it writes leaves some of the files, the last of them cut at any byte.
As long as the metadata is cut, or not there, the directory does not open, and nothing else of it
is read; once it is there, so is everything else, and no slice leaves the file of the documents
(`openDir_crash`).  So a half-written segment is skipped, or is the complete one, and all others
are loaded as before (`half_written_never_opened`).

The formats of the crates are parameters.  What is asked of them is that no strict prefix of the
printed metadata parses.
-/
import ZearchEngine.Column
import ZearchEngine.DocStore
import ZearchEngine.PostingCodec
import ZearchEngine.Scoring
import ZearchEngine.SegmentName
import ZearchEngine.Lib.CrashPoint

namespace ZearchEngine

open LengthPrefix OffsetTable

namespace Raw

/-! ## 1. Files -/

/-- Metadata for a segment. -/
structure SegmentMeta where
  docCount : Nat
  termCount : Nat
  segmentId : List Char
deriving DecidableEq

/-- The formats of a segment's files: the `fst` crate, bincode for a document and for a column
store, `roaring`, and `serde_json` for the metadata. -/
structure Formats where
  fst : FstCrate
  fstBytes : fst.File → Bytes
  loadFst : Bytes → Option fst.Map
  document : Codec Document
  serializeColumns : ColumnStore → Bytes
  deserializeColumns : Bytes → Option ColumnStore
  bitmaps : BitmapFormat
  printMeta : SegmentMeta → Bytes
  parseMeta : Bytes → Option SegmentMeta

/-- A strict prefix of the printed metadata does not parse. -/
def Formats.CutsMeta (F : Formats) (segmentMeta : SegmentMeta) : Prop :=
  ∀ k < (F.printMeta segmentMeta).length, F.parseMeta ((F.printMeta segmentMeta).take k) = none

/-- A file operation of `SegmentWriter::write`. -/
inductive Effect where
  | createDir
  | write (name : SegmentFileName) (data : Bytes)

/-- What an operation makes of the directory. -/
def Effect.on (dir : Option Dir) : Effect → Option Dir
  | .createDir => some (dir.getD (fun _ => none))
  | .write name data => dir.map (fun dir => dir.write name data)

/-- What is left when the process dies in the middle of it: the first `cut` bytes of the file. -/
def Effect.tear (cut : Nat) (dir : Option Dir) : Effect → Option Dir
  | .createDir => dir
  | .write name data => dir.map (fun dir => dir.write name (data.take cut))

section

variable {R : Type} [Field R] [LinearOrder R]

/-- The metadata `write` makes of some documents. -/
def segmentMeta (schema : IndexSchema R) (analysis : TextAnalysis) (segmentId : List Char)
    (docs : List Document) : SegmentMeta where
  docCount := docs.length % 2 ^ 32
  termCount := (invertedIndex schema analysis docs).size
  segmentId := segmentId

/-- `SegmentWriter::write`: its file operations.  A posting list that cannot be encoded ends it
before the first file, and a document store that is too large before the fourth. -/
def SegmentWriter.write (F : Formats) (round : R → F32) (schema : IndexSchema R)
    (analysis : TextAnalysis) (segmentId : List Char) (docs : List Document) : List Effect :=
  .createDir ::
    match ZearchEngine.SegmentWriter.writeInverted F.fst round schema analysis docs with
    | none => []
    | some inverted =>
      .write .invertedFst (F.fstBytes inverted.fst) ::
      .write .invertedPost inverted.post ::
      .write .columns (F.serializeColumns (ZearchEngine.SegmentWriter.columnStore schema docs)) ::
      if (DocStoreWriter.fileData F.document docs).length < 2 ^ 63 then
        [ .write .docs (DocStoreWriter.fileData F.document docs)
        , .write .metaJson (F.printMeta (segmentMeta schema analysis segmentId docs)) ]
      else []

end

/-! ## 2. Opening -/

/-- `SegmentReader`. -/
structure SegmentReader (F : Formats) where
  segmentMeta : SegmentMeta
  inverted : InvertedIndexReader F.fst
  columns : ColumnStore
  docs : DocStoreReader

/-- `InvertedIndexReader::open`. -/
def InvertedIndexReader.openDir (F : Formats) (dir : Dir) :
    IoOutcome (InvertedIndexReader F.fst) := do
  let fstBytes ← .orError (dir .invertedFst)
  let postingData ← .orError (dir .invertedPost)
  let fstMap ← .orError (F.loadFst fstBytes)
  .ok { fstMap, postingData }

/-- `SegmentReader::open`. -/
def SegmentReader.openDir (F : Formats) (dir : Dir) : IoOutcome (SegmentReader F) := do
  let segmentMeta ← .orError (dir .metaJson >>= F.parseMeta)
  let inverted ← InvertedIndexReader.openDir F dir
  let columns ← .orError (dir .columns >>= F.deserializeColumns)
  let docs ← DocStoreReader.openDir F.bitmaps dir
  .ok { segmentMeta, inverted, columns, docs }

/-- `get_doc`. -/
def SegmentReader.getDoc {F : Formats} (r : SegmentReader F) (localDocId : LocalDocId) :
    IoOutcome (Option Document) := r.docs.get F.document localDocId

/-- `all_live_docs`, in the order a bitmap is iterated. -/
def SegmentReader.allLiveDocs {F : Formats} (r : SegmentReader F) : List LocalDocId :=
  (List.range r.segmentMeta.docCount).filter (fun i => i ∉ r.docs.deletionBitmap)

/-- A loop over local ids that does something with the document of each. -/
def SegmentReader.foldDocs {F : Formats} {α : Type} (r : SegmentReader F)
    (f : α → LocalDocId → Document → α) : List LocalDocId → α → IoOutcome α
  | [], acc => .ok acc
  | localId :: ids, acc => do
    match ← r.getDoc localId with
    | some doc => r.foldDocs f ids (f acc localId doc)
    | none => r.foldDocs f ids acc

/-- `SegmentStatistics::compute`. -/
noncomputable def SegmentStatistics.compute {F : Formats} (schema : IndexSchema ℝ)
    (analysis : TextAnalysis) (r : SegmentReader F) : IoOutcome SegmentStatistics := do
  let totals ← r.foldDocs (fun totals _ doc => addFieldLengths schema analysis totals doc)
    (List.range r.segmentMeta.docCount) (fun _ => none)
  let live := r.allLiveDocs.length
  .ok { totalDocs := live
        fieldAvgLengths := fun name => (totals name).map (fun v => (v : ℝ) / (max live 1 : Nat)) }

structure SegmentEntry (F : Formats) where
  segmentId : List Char
  reader : SegmentReader F
  stats : SegmentStatistics

/-- Location of a document within the shard. -/
structure DocLocation where
  segmentId : List Char
  localDocId : LocalDocId

/-- global doc_id -> location -/
abbrev DocIdMap := DocId → Option DocLocation

structure SegmentList (F : Formats) where
  segments : List (SegmentEntry F)
  docIdMap : DocIdMap
  nextSegmentSeq : Nat

/-- The directories below the data directory, by their names. -/
abbrev Dirs := KeyedStore.Store (List Char) Dir

/-- A directory with its name. -/
abbrev NamedDir := Sigma fun _ : List Char => Dir

/-- The directories named `seg-`, in the order of their names. -/
def sortedDirs (dirs : Dirs) : List NamedDir :=
  (dirs.entries.filter (fun dir => (stripSegPrefix dir.1).isSome)).insertionSort
    (fun a b => a.1 ≤ b.1)

/-- One more document of a segment in the map. -/
def insertDoc (segmentId : List Char) (docIdMap : DocIdMap) (localId : LocalDocId)
    (doc : Document) : DocIdMap :=
  Function.update docIdMap doc.id (some ⟨segmentId, localId⟩)

/-- The loop of `open` over the directories: the segments, the map and `max_seq`. -/
noncomputable def openAll (F : Formats) (schema : IndexSchema ℝ) (analysis : TextAnalysis) :
    List NamedDir → List (SegmentEntry F) → DocIdMap → Nat →
    IoOutcome (List (SegmentEntry F) × DocIdMap × Nat)
  | [], segments, docIdMap, maxSeq => .ok (segments, docIdMap, maxSeq)
  | dir :: dirs, segments, docIdMap, maxSeq =>
    let maxSeq := countSeq maxSeq dir.1
    match SegmentReader.openDir F dir.2 with
    | .ok reader => do
      let docIdMap ← reader.foldDocs (insertDoc dir.1) (List.range reader.segmentMeta.docCount)
        docIdMap
      let stats ← SegmentStatistics.compute schema analysis reader
      openAll F schema analysis dirs (segments ++ [⟨dir.1, reader, stats⟩]) docIdMap maxSeq
    | .error => openAll F schema analysis dirs segments docIdMap maxSeq
    | .panic => .panic

/-- `SegmentList::open`. -/
noncomputable def SegmentList.openDirs (F : Formats) (schema : IndexSchema ℝ)
    (analysis : TextAnalysis) (dirs : Dirs) : IoOutcome (SegmentList F) := do
  let (segments, docIdMap, maxSeq) ←
    openAll F schema analysis (sortedDirs dirs) [] (fun _ => none) 0
  if maxSeq + 1 < 2 ^ 64 then .ok { segments, docIdMap, nextSegmentSeq := maxSeq + 1 } else .panic

/-! ## 3. One directory -/

/-- Opening the directory and reading its documents ends, and not with a panic. -/
def Safe (F : Formats) (dir : Dir) : Prop :=
  SegmentReader.openDir F dir = .error ∨ ∃ reader, SegmentReader.openDir F dir = .ok reader ∧
    ∀ i < reader.segmentMeta.docCount, ∃ doc, reader.getDoc i = .ok doc

/-- Without metadata that parses, nothing else is opened. -/
theorem openDir_of_meta {F : Formats} {dir : Dir} (h : (dir .metaJson >>= F.parseMeta) = none) :
    SegmentReader.openDir F dir = .error := by
  unfold SegmentReader.openDir
  rw [h]
  rfl

/-- A directory with a finished document store opens, or has an error. -/
theorem openDir_of_docs {F : Formats} {dir : Dir} {docs : List Document}
    (hdocs : dir .docs = some (DocStoreWriter.fileData F.document docs))
    (hdeletions : dir .deletions = none) :
    SegmentReader.openDir F dir = .error ∨ ∃ reader, SegmentReader.openDir F dir = .ok reader ∧
      reader.docs = .ofDocs F.document docs ∅ := by
  have hload : DocStoreReader.loadDeletionBitmap F.bitmaps dir = .ok ∅ := by
    unfold DocStoreReader.loadDeletionBitmap
    rw [hdeletions]
  unfold SegmentReader.openDir InvertedIndexReader.openDir
  rw [openDir_fileData hdocs hload]
  cases (dir .metaJson >>= F.parseMeta) with
  | none => exact Or.inl rfl
  | some segmentMeta =>
    cases hfst : dir .invertedFst with
    | none => exact Or.inl rfl
    | some fstBytes =>
      cases dir .invertedPost with
      | none => exact Or.inl rfl
      | some postingData =>
        cases hmap : F.loadFst fstBytes with
        | none => exact Or.inl (by simp [hmap])
        | some fstMap =>
          cases (dir .columns >>= F.deserializeColumns) with
          | none => exact Or.inl (by simp [hmap])
          | some columns =>
            exact Or.inr ⟨⟨segmentMeta, ⟨fstMap, postingData⟩, columns,
              .ofDocs F.document docs ∅⟩, by simp [hmap], rfl⟩

/-- No document is read outside its file. -/
theorem safe_of_docs {F : Formats} {dir : Dir} {docs : List Document}
    (hdocs : dir .docs = some (DocStoreWriter.fileData F.document docs))
    (hlen : (DocStoreWriter.fileData F.document docs).length < 2 ^ 63)
    (hdeletions : dir .deletions = none) : Safe F dir := by
  rcases openDir_of_docs hdocs hdeletions with herror | ⟨reader, hreader, hstore⟩
  · exact Or.inl herror
  · refine Or.inr ⟨reader, hreader, fun i _ => ?_⟩
    unfold SegmentReader.getDoc
    rw [hstore]
    exact get_written ∅ hlen i

section

variable {R : Type} [Field R] [LinearOrder R] {F : Formats} {round : R → F32}
  {schema : IndexSchema R} {analysis : TextAnalysis} {segmentId : List Char}
  {docs : List Document}

/-- There is no metadata yet. -/
def NoMeta (dir : Option Dir) : Prop := ∀ d, dir = some d → d .metaJson = none

theorem NoMeta.openDir_error {F : Formats} {dir : Option Dir} (h : NoMeta dir) :
    ∀ d, dir = some d → SegmentReader.openDir F d = .error := by
  intro d hd
  refine openDir_of_meta ?_
  rw [h d hd]
  rfl

theorem NoMeta.on {dir : Option Dir} (h : NoMeta dir) {e : Effect}
    (he : ∀ data, e ≠ .write .metaJson data) : NoMeta (e.on dir) := by
  intro d hd
  cases e with
  | createDir =>
    obtain rfl := Option.some.inj hd
    cases dir with
    | none => rfl
    | some d => exact h d rfl
  | write name data =>
    obtain ⟨d', hd', rfl⟩ := Option.map_eq_some_iff.mp hd
    have hne : SegmentFileName.metaJson ≠ name := fun heq => he data (by rw [heq])
    rw [Dir.write_of_ne hne]
    exact h d' hd'

theorem NoMeta.tear {dir : Option Dir} (h : NoMeta dir) {e : Effect} (cut : Nat)
    (he : ∀ data, e ≠ .write .metaJson data) : NoMeta (Effect.tear cut dir e) := by
  cases e with
  | createDir => exact h
  | write name data =>
    have hwrite : NoMeta ((Effect.write name (data.take cut)).on dir) :=
      h.on (fun data' heq => he data (by cases heq; rfl))
    exact hwrite

/-- **What a write does**: it ends without writing the metadata, or it writes the metadata last,
into a directory with the documents and no deletions. -/
theorem write_cases (F : Formats) (round : R → F32) (schema : IndexSchema R)
    (analysis : TextAnalysis) (segmentId : List Char) (docs : List Document) :
    (∀ e ∈ SegmentWriter.write F round schema analysis segmentId docs,
      ∀ data, e ≠ .write .metaJson data) ∨
    ∃ before complete, (∀ e ∈ before, ∀ data, e ≠ .write .metaJson data) ∧
      SegmentWriter.write F round schema analysis segmentId docs = before
        ++ [.write .metaJson (F.printMeta (segmentMeta schema analysis segmentId docs))] ∧
      (SegmentWriter.write F round schema analysis segmentId docs).foldl Effect.on none
        = some complete ∧
      complete .docs = some (DocStoreWriter.fileData F.document docs) ∧
      (DocStoreWriter.fileData F.document docs).length < 2 ^ 63 ∧ complete .deletions = none := by
  unfold SegmentWriter.write
  cases ZearchEngine.SegmentWriter.writeInverted F.fst round schema analysis docs with
  | none => exact Or.inl (by simp)
  | some inverted =>
    by_cases hlen : (DocStoreWriter.fileData F.document docs).length < 2 ^ 63
    · rw [if_pos hlen]
      refine Or.inr ⟨[ .createDir, .write .invertedFst (F.fstBytes inverted.fst)
        , .write .invertedPost inverted.post
        , .write .columns (F.serializeColumns (ZearchEngine.SegmentWriter.columnStore schema docs))
        , .write .docs (DocStoreWriter.fileData F.document docs) ], _, by simp, rfl, rfl, rfl, hlen,
        rfl⟩
    · rw [if_neg hlen]
      exact Or.inl (by simp)

/-- Operations that write no metadata leave a directory without. -/
theorem foldl_noMeta {effects : List Effect}
    (h : ∀ e ∈ effects, ∀ data, e ≠ .write .metaJson data) :
    NoMeta (effects.foldl Effect.on none) :=
  CrashPoint.foldl_inv effects none (fun _ e he hdir => hdir.on (h e he)) nofun

/-- So does a crash in the middle of them. -/
theorem crash_noMeta {effects : List Effect}
    (h : ∀ e ∈ effects, ∀ data, e ≠ .write .metaJson data) (p : CrashPoint effects) (cut : Nat) :
    NoMeta (p.state Effect.on (Effect.tear cut) none) := by
  refine p.inv (fun dir e he hdir => hdir.on (h e ?_)) (fun dir e he hdir => hdir.tear cut (h e he))
    nofun
  rw [p.split]
  exact List.mem_append_left _ he

/-- A crash before the metadata, in the middle of it, or after it. -/
theorem state_cases {before : List Effect} {data : Bytes}
    (hbefore : ∀ e ∈ before, ∀ data, e ≠ .write .metaJson data)
    (p : CrashPoint (before ++ [Effect.write .metaJson data])) (cut : Nat) :
    NoMeta (p.state Effect.on (Effect.tear cut) none) ∨
    (∃ k < data.length, ∀ dir, p.state Effect.on (Effect.tear cut) none = some dir →
      dir .metaJson = some (data.take k)) ∨
    p.state Effect.on (Effect.tear cut) none
      = (before ++ [Effect.write .metaJson data]).foldl Effect.on none := by
  rcases p.append_cases Effect.on (Effect.tear cut) with ⟨q, -, -, hstate⟩ | ⟨q, -, hstate⟩
  · rw [hstate]
    exact Or.inl (crash_noMeta hbefore q cut)
  · rw [hstate, List.foldl_append]
    have hall : NoMeta (before.foldl Effect.on none) := foldl_noMeta hbefore
    generalize before.foldl Effect.on none = written at hall
    obtain ⟨done, rest, hsplit, torn⟩ := q
    cases done with
    | nil =>
      obtain rfl : rest = [.write .metaJson data] := hsplit.symm
      cases torn with
      | false => exact Or.inl hall
      | true =>
        by_cases hcut : cut < data.length
        · refine Or.inr (Or.inl ⟨cut, hcut, fun dir hdir => ?_⟩)
          obtain ⟨d, -, rfl⟩ := Option.map_eq_some_iff.mp hdir
          exact Dir.write_self d .metaJson (data.take cut)
        · refine Or.inr (Or.inr ?_)
          show written.map (fun dir => dir.write .metaJson (data.take cut)) = _
          rw [List.take_of_length_le (Nat.le_of_not_lt hcut)]
          rfl
    | cons e done =>
      obtain ⟨rfl, hnil⟩ := List.cons.inj hsplit
      obtain ⟨rfl, rfl⟩ := List.append_eq_nil_iff.mp hnil.symm
      cases torn <;> exact Or.inr (Or.inr rfl)

/-- **What a crash leaves**: no directory, or one that does not open, or the complete one, which
is safe. -/
theorem openDir_crash (hmeta : F.CutsMeta (segmentMeta schema analysis segmentId docs))
    (p : CrashPoint (SegmentWriter.write F round schema analysis segmentId docs)) (cut : Nat) :
    (∀ dir, p.state Effect.on (Effect.tear cut) none = some dir →
      SegmentReader.openDir F dir = .error) ∨
    ∃ complete, Safe F complete ∧ p.state Effect.on (Effect.tear cut) none = some complete ∧
      (SegmentWriter.write F round schema analysis segmentId docs).foldl Effect.on none
        = some complete := by
  rcases write_cases F round schema analysis segmentId docs with
    hno | ⟨before, complete, hbefore, hwrite, hcomplete, hdocs, hlen, hdeletions⟩
  · exact Or.inl (crash_noMeta hno p cut).openDir_error
  · have hsafe : Safe F complete := safe_of_docs hdocs hlen hdeletions
    generalize SegmentWriter.write F round schema analysis segmentId docs = effects at *
    subst hwrite
    rcases state_cases hbefore p cut with hno | ⟨k, hk, hcut⟩ | hstate
    · exact Or.inl hno.openDir_error
    · refine Or.inl (fun dir hdir => openDir_of_meta ?_)
      rw [hcut dir hdir]
      exact hmeta k hk
    · exact Or.inr ⟨complete, hsafe, hstate.trans hcomplete, hcomplete⟩

end

/-! ## 4. All directories -/

section

variable {F : Formats}

namespace SegmentReader

variable {α : Type} {f : α → LocalDocId → Document → α} {r : SegmentReader F}

/-- A loop over documents that can be read ends with a value. -/
theorem foldDocs_of_ok {ids : List LocalDocId} (h : ∀ i ∈ ids, ∃ doc, r.getDoc i = .ok doc)
    (acc : α) : ∃ b, r.foldDocs f ids acc = .ok b := by
  induction ids generalizing acc with
  | nil => exact ⟨acc, rfl⟩
  | cons i ids ih =>
    obtain ⟨doc, hdoc⟩ := h i List.mem_cons_self
    have hrest := ih (fun j hj => h j (List.mem_cons_of_mem _ hj))
    unfold foldDocs
    rw [hdoc]
    cases doc with
    | none => exact hrest acc
    | some doc => exact hrest (f acc i doc)

/-- One that ends with a value has read all documents. -/
theorem ok_of_foldDocs {ids : List LocalDocId} {acc b : α} (h : r.foldDocs f ids acc = .ok b) :
    ∀ i ∈ ids, ∃ doc, r.getDoc i = .ok doc := by
  induction ids generalizing acc with
  | nil => exact fun _ hi => absurd hi List.not_mem_nil
  | cons i ids ih =>
    unfold foldDocs at h
    cases hdoc : r.getDoc i with
    | error => simp [hdoc] at h
    | panic => simp [hdoc] at h
    | ok doc =>
      rw [hdoc] at h
      intro j hj
      rcases List.mem_cons.mp hj with rfl | hj
      · exact ⟨doc, hdoc⟩
      · cases doc with
        | none => exact ih h j hj
        | some doc => exact ih h j hj

end SegmentReader

variable {schema : IndexSchema ℝ} {analysis : TextAnalysis}

variable (schema analysis) in
/-- Where the documents can be read, so can the statistics. -/
theorem compute_of_ok {r : SegmentReader F}
    (h : ∀ i ∈ List.range r.segmentMeta.docCount, ∃ doc, r.getDoc i = .ok doc) :
    ∃ stats, SegmentStatistics.compute schema analysis r = .ok stats := by
  obtain ⟨totals, htotals⟩ := SegmentReader.foldDocs_of_ok
    (f := fun totals _ doc => addFieldLengths schema analysis totals doc) h (fun _ => none)
  unfold SegmentStatistics.compute
  rw [htotals]
  exact ⟨_, rfl⟩

variable (F schema analysis)

/-- The segment of a directory that opens. -/
noncomputable def entryOf (dir : NamedDir) : Option (SegmentEntry F) :=
  match SegmentReader.openDir F dir.2 with
  | .ok reader =>
    match SegmentStatistics.compute schema analysis reader with
    | .ok stats => some ⟨dir.1, reader, stats⟩
    | _ => none
  | _ => none

variable {F} in
/-- The map with the documents of one more segment. -/
def insertDocs (docIdMap : DocIdMap) (e : SegmentEntry F) : DocIdMap :=
  match e.reader.foldDocs (insertDoc e.segmentId) (List.range e.reader.segmentMeta.docCount)
    docIdMap with
  | .ok docIdMap => docIdMap
  | _ => docIdMap

variable {F schema analysis}

theorem entryOf_eq_some {dir : NamedDir} {e : SegmentEntry F}
    (h : entryOf F schema analysis dir = some e) :
    e.segmentId = dir.1 ∧ SegmentReader.openDir F dir.2 = .ok e.reader := by
  unfold entryOf at h
  split at h
  · next reader hreader =>
    split at h
    · obtain rfl := Option.some.inj h
      exact ⟨rfl, hreader⟩
    · cases h
  · cases h

theorem entryOf_of_error {dir : NamedDir} (h : SegmentReader.openDir F dir.2 = .error) :
    entryOf F schema analysis dir = none := by
  unfold entryOf
  rw [h]

/-- What the loop over safe directories returns. -/
theorem openAll_of_safe {dirs : List NamedDir} (h : ∀ dir ∈ dirs, Safe F dir.2)
    (segments : List (SegmentEntry F)) (docIdMap : DocIdMap) (seq : Nat) :
    openAll F schema analysis dirs segments docIdMap seq
      = .ok (segments ++ dirs.filterMap (entryOf F schema analysis),
          (dirs.filterMap (entryOf F schema analysis)).foldl insertDocs docIdMap,
          (dirs.map Sigma.fst).foldl countSeq seq) := by
  induction dirs generalizing segments docIdMap seq with
  | nil => simp [openAll]
  | cons dir dirs ih =>
    have hrest := ih (fun d hd => h d (List.mem_cons_of_mem _ hd))
    unfold openAll
    rcases h dir List.mem_cons_self with herror | ⟨reader, hreader, hdocs⟩
    · rw [herror, List.filterMap_cons_none (entryOf_of_error herror)]
      exact hrest segments docIdMap _
    · have hread : ∀ i ∈ List.range reader.segmentMeta.docCount, ∃ doc, reader.getDoc i = .ok doc :=
        fun i hi => hdocs i (List.mem_range.mp hi)
      obtain ⟨map, hmap⟩ := SegmentReader.foldDocs_of_ok (f := insertDoc dir.1) hread docIdMap
      obtain ⟨stats, hstats⟩ := compute_of_ok schema analysis hread
      have hentry : entryOf F schema analysis dir = some ⟨dir.1, reader, stats⟩ := by
        unfold entryOf
        rw [hreader]
        dsimp only
        rw [hstats]
      have hinsert : insertDocs docIdMap ⟨dir.1, reader, stats⟩ = map := by
        unfold insertDocs
        rw [hmap]
      rw [hreader]
      dsimp only
      rw [hmap, IoOutcome.ok_bind, hstats, IoOutcome.ok_bind, hrest,
        List.filterMap_cons_some hentry, List.foldl_cons, hinsert, List.append_assoc]
      rfl

/-- When the loop returns, all directories were safe. -/
theorem safe_of_openAll {dirs : List NamedDir} {segments : List (SegmentEntry F)}
    {docIdMap : DocIdMap} {seq : Nat} {result : List (SegmentEntry F) × DocIdMap × Nat}
    (h : openAll F schema analysis dirs segments docIdMap seq = .ok result) :
    ∀ dir ∈ dirs, Safe F dir.2 := by
  induction dirs generalizing segments docIdMap seq with
  | nil => exact fun _ hd => absurd hd List.not_mem_nil
  | cons dir dirs ih =>
    unfold openAll at h
    cases hreader : SegmentReader.openDir F dir.2 with
    | panic => simp [hreader] at h
    | error =>
      rw [hreader] at h
      exact List.forall_mem_cons.mpr ⟨Or.inl hreader, ih h⟩
    | ok reader =>
      rw [hreader] at h
      dsimp only at h
      cases hmap : reader.foldDocs (insertDoc dir.1) (List.range reader.segmentMeta.docCount)
          docIdMap with
      | error => simp [hmap] at h
      | panic => simp [hmap] at h
      | ok map =>
        have hread := SegmentReader.ok_of_foldDocs hmap
        obtain ⟨stats, hstats⟩ := compute_of_ok schema analysis hread
        rw [hmap, IoOutcome.ok_bind, hstats, IoOutcome.ok_bind] at h
        refine List.forall_mem_cons.mpr ⟨Or.inr ⟨reader, hreader, fun i hi => ?_⟩, ih h⟩
        exact hread i (List.mem_range.mpr hi)

variable (F schema analysis)

/-- The list of the segments that open. -/
noncomputable def SegmentList.loaded (dirs : List NamedDir) : SegmentList F where
  segments := dirs.filterMap (entryOf F schema analysis)
  docIdMap := (dirs.filterMap (entryOf F schema analysis)).foldl insertDocs (fun _ => none)
  nextSegmentSeq := maxSeq (dirs.map Sigma.fst) + 1

variable {F schema analysis}

/-- **When a list opens, and with what.** -/
theorem openDirs_eq_ok_iff {dirs : Dirs} {l : SegmentList F} :
    SegmentList.openDirs F schema analysis dirs = .ok l ↔
      (∀ dir ∈ sortedDirs dirs, Safe F dir.2) ∧
      maxSeq ((sortedDirs dirs).map Sigma.fst) + 1 < 2 ^ 64 ∧
      l = .loaded F schema analysis (sortedDirs dirs) := by
  unfold SegmentList.openDirs
  constructor
  · intro h
    have hsafe : ∀ dir ∈ sortedDirs dirs, Safe F dir.2 := by
      cases hall : openAll F schema analysis (sortedDirs dirs) [] (fun _ => none) 0 with
      | ok result => exact safe_of_openAll hall
      | error => simp [hall] at h
      | panic => simp [hall] at h
    rw [openAll_of_safe hsafe, IoOutcome.ok_bind] at h
    dsimp only at h
    split at h
    · next hseq => exact ⟨hsafe, hseq, (IoOutcome.ok.inj h).symm⟩
    · cases h
  · rintro ⟨hsafe, hseq, rfl⟩
    rw [openAll_of_safe hsafe, IoOutcome.ok_bind]
    exact if_pos hseq

/-- A new directory finds its place among the others. -/
theorem sortedDirs_insert {dirs : Dirs} {name : List Char} (hnew : name ∉ dirs)
    (hseg : (stripSegPrefix name).isSome) :
    ∃ before after, sortedDirs dirs = before ++ after ∧
      ∀ dir, sortedDirs (dirs.insert name dir) = before ++ ⟨name, dir⟩ :: after := by
  refine ⟨(sortedDirs dirs).takeWhile (fun b => ¬ name ≤ b.1),
    (sortedDirs dirs).dropWhile (fun b => ¬ name ≤ b.1),
    List.takeWhile_append_dropWhile.symm, fun dir => ?_⟩
  have hfilter : (dirs.insert name dir).entries.filter (fun d => (stripSegPrefix d.1).isSome)
      = ⟨name, dir⟩ :: dirs.entries.filter (fun d => (stripSegPrefix d.1).isSome) := by
    rw [AList.entries_insert_of_notMem hnew]
    exact List.filter_cons_of_pos hseg
  unfold sortedDirs
  rw [hfilter, List.insertionSort_cons_eq_take_drop]

/-- A bound on the numbers is a bound on the largest. -/
theorem foldl_countSeq_lt {bound : Nat} {names : List (List Char)} {acc : Nat} (hacc : acc < bound)
    (h : ∀ name ∈ names, ∀ seq, parseSeq name = some seq → seq < bound) :
    names.foldl countSeq acc < bound := by
  induction names generalizing acc with
  | nil => exact hacc
  | cons name names ih =>
    refine ih ?_ (fun n hn => h n (List.mem_cons_of_mem _ hn))
    unfold countSeq
    split
    · next seq hseq => exact max_lt hacc (h name List.mem_cons_self seq hseq)
    · exact hacc

/-- The segments of a list are the directories that open. -/
theorem mem_loaded {dirs : List NamedDir} {e : SegmentEntry F}
    (h : e ∈ (SegmentList.loaded F schema analysis dirs).segments) :
    ∃ dir ∈ dirs, e.segmentId = dir.1 ∧ SegmentReader.openDir F dir.2 = .ok e.reader := by
  obtain ⟨dir, hdir, hentry⟩ := List.mem_filterMap.mp h
  exact ⟨dir, hdir, entryOf_eq_some hentry⟩

theorem mem_of_mem_sortedDirs {dirs : Dirs} {dir : NamedDir} (h : dir ∈ sortedDirs dirs) :
    dir.1 ∈ dirs := by
  have hentry : dir ∈ dirs.entries := (List.mem_filter.mp ((List.mem_insertionSort _).mp h)).1
  exact List.mem_keys_of_mem hentry

theorem mem_sortedDirs_insert {dirs : Dirs} {id : SegmentId} (hnew : id.name ∉ dirs) {dir : Dir}
    {d : NamedDir} (hd : d ∈ sortedDirs (dirs.insert id.name dir)) :
    d = ⟨id.name, dir⟩ ∨ d ∈ sortedDirs dirs := by
  have hseg : (stripSegPrefix id.name).isSome := rfl
  obtain ⟨before, after, hsorted, hinsert⟩ := sortedDirs_insert hnew hseg
  rw [hinsert, List.mem_append, List.mem_cons] at hd
  rw [hsorted, List.mem_append]
  tauto

/-- The largest number stays small. -/
theorem maxSeq_insert {dirs : Dirs} {id : SegmentId} (hid : id.seq + 1 < 2 ^ 64)
    (hnew : id.name ∉ dirs) (hmax : maxSeq ((sortedDirs dirs).map Sigma.fst) + 1 < 2 ^ 64)
    (dir : Dir) :
    maxSeq ((sortedDirs (dirs.insert id.name dir)).map Sigma.fst) + 1 < 2 ^ 64 := by
  refine Nat.lt_sub_iff_add_lt.mp
    (foldl_countSeq_lt (by decide) (fun name hname seq hseq => ?_))
  obtain ⟨d, hd, rfl⟩ := List.mem_map.mp hname
  rcases mem_sortedDirs_insert hnew hd with rfl | hold
  · rw [parseSeq_name (by omega), Option.some.injEq] at hseq
    omega
  · have hle : seq ≤ maxSeq ((sortedDirs dirs).map Sigma.fst) :=
      le_foldl_countSeq.2 d.1 (List.mem_map_of_mem hold) seq hseq
    omega

/-! ## 5. A crash -/

/-- The data directory with what there is of one more segment. -/
def putDir (dirs : Dirs) (name : List Char) : Option Dir → Dirs
  | none => dirs
  | some dir => dirs.insert name dir

@[simp] theorem putDir_some (dirs : Dirs) (name : List Char) (dir : Dir) :
    putDir dirs name (some dir) = dirs.insert name dir := rfl

theorem mem_putDir {dirs : Dirs} {name name' : List Char} {dir : Option Dir}
    (h : name' ∈ putDir dirs name dir) : name' = name ∨ name' ∈ dirs := by
  cases dir with
  | none => exact Or.inr h
  | some dir => simpa using h

/-- **One more safe directory.**  The list still opens, with the segments it had, and perhaps
that one. -/
theorem openDirs_putDir {dirs : Dirs} {l : SegmentList F} {id : SegmentId} {dir : Option Dir}
    (hid : id.seq + 1 < 2 ^ 64) (hnew : id.name ∉ dirs)
    (hopen : SegmentList.openDirs F schema analysis dirs = .ok l)
    (hsafe : ∀ d, dir = some d → Safe F d) :
    ∃ opened, SegmentList.openDirs F schema analysis (putDir dirs id.name dir) = .ok opened ∧
      opened.segments.filter (fun e => e.segmentId ≠ id.name) = l.segments ∧
      (∀ e ∈ opened.segments, e.segmentId = id.name →
        ∃ d, dir = some d ∧ SegmentReader.openDir F d = .ok e.reader) ∧
      ((∀ d, dir = some d → SegmentReader.openDir F d = .error) →
        opened.segments = l.segments ∧ opened.docIdMap = l.docIdMap) := by
  obtain ⟨hothers, hmax, hl⟩ := openDirs_eq_ok_iff.mp hopen
  have hnames : ∀ d ∈ sortedDirs dirs, d.1 ≠ id.name := by
    intro d hd heq
    exact hnew (heq ▸ mem_of_mem_sortedDirs hd)
  have hne : ∀ e ∈ l.segments, e.segmentId ≠ id.name := by
    intro e he
    rw [hl] at he
    obtain ⟨d, hd, hname, -⟩ := mem_loaded he
    exact hname ▸ hnames d hd
  have hfilter : l.segments.filter (fun e => e.segmentId ≠ id.name) = l.segments :=
    List.filter_eq_self.mpr (fun e he => decide_eq_true (hne e he))
  cases dir with
  | none => exact ⟨l, hopen, hfilter, fun e he h => absurd h (hne e he), fun _ => ⟨rfl, rfl⟩⟩
  | some d =>
    have hseg : (stripSegPrefix id.name).isSome := rfl
    obtain ⟨before, after, hsorted, hinsert⟩ := sortedDirs_insert hnew hseg
    have hsafe' : ∀ x ∈ sortedDirs (dirs.insert id.name d), Safe F x.2 := by
      intro x hx
      rcases mem_sortedDirs_insert hnew hx with rfl | hold
      · exact hsafe d rfl
      · exact hothers x hold
    refine ⟨_, openDirs_eq_ok_iff.mpr ⟨hsafe', maxSeq_insert hid hnew hmax d, rfl⟩, ?_, ?_, ?_⟩
    · rw [hl, hsorted] at hfilter ⊢
      rw [putDir_some, hinsert]
      unfold SegmentList.loaded at hfilter ⊢
      simp only [List.filterMap_append, List.filter_append] at hfilter ⊢
      cases hentry : entryOf F schema analysis ⟨id.name, d⟩ with
      | none => rwa [List.filterMap_cons_none hentry]
      | some e =>
        have hname : e.segmentId = id.name := (entryOf_eq_some hentry).1
        rw [List.filterMap_cons_some hentry, List.filter_cons_of_neg (by simp [hname])]
        exact hfilter
    · intro e he hname
      obtain ⟨x, hx, hfst, hreader⟩ := mem_loaded he
      rcases mem_sortedDirs_insert hnew hx with rfl | hold
      · exact ⟨d, rfl, hreader⟩
      · exact absurd (hfst.symm.trans hname) (hnames x hold)
    · intro herror
      have hnone : entryOf F schema analysis ⟨id.name, d⟩ = none := entryOf_of_error (herror d rfl)
      rw [hl, hsorted, putDir_some, hinsert]
      unfold SegmentList.loaded
      simp only [List.filterMap_append, List.filterMap_cons_none hnone, and_self]

end

section

variable {F : Formats} {round : ℝ → F32} {schema : IndexSchema ℝ} {analysis : TextAnalysis}
  {docs : List Document}

/-- **A half-written segment is never opened.**  The process dies somewhere in
`SegmentWriter::write`, between two files or in the middle of one.  The list still opens; the
other segments are what they were; and the new directory is skipped, or holds the segment that
the write would have left. -/
theorem half_written_never_opened {id : SegmentId} {dirs : Dirs} {l : SegmentList F}
    (hid : id.seq + 1 < 2 ^ 64) (hnew : id.name ∉ dirs)
    (hmeta : F.CutsMeta (segmentMeta schema analysis id.name docs))
    (hopen : SegmentList.openDirs F schema analysis dirs = .ok l)
    (p : CrashPoint (SegmentWriter.write F round schema analysis id.name docs)) (cut : Nat) :
    ∃ opened, SegmentList.openDirs F schema analysis
        (putDir dirs id.name (p.state Effect.on (Effect.tear cut) none)) = .ok opened ∧
      opened.segments.filter (fun e => e.segmentId ≠ id.name) = l.segments ∧
      ((opened.segments = l.segments ∧ opened.docIdMap = l.docIdMap) ∨
        ∃ complete, (SegmentWriter.write F round schema analysis id.name docs).foldl Effect.on none
            = some complete ∧
          SegmentList.openDirs F schema analysis (dirs.insert id.name complete) = .ok opened ∧
          ∀ e ∈ opened.segments, e.segmentId = id.name →
            SegmentReader.openDir F complete = .ok e.reader) := by
  rcases openDir_crash hmeta p cut with herror | ⟨complete, hsafe, hstate, hcomplete⟩
  · obtain ⟨opened, hopened, hfilter, -, hskip⟩ :=
      openDirs_putDir hid hnew hopen (fun d hd => Or.inl (herror d hd))
    exact ⟨opened, hopened, hfilter, Or.inl (hskip herror)⟩
  · have hsafe' : ∀ d, some complete = some d → Safe F d := fun d hd => Option.some.inj hd ▸ hsafe
    obtain ⟨opened, hopened, hfilter, hreader, -⟩ := openDirs_putDir hid hnew hopen hsafe'
    rw [hstate]
    refine ⟨opened, hopened, hfilter, Or.inr ⟨complete, hcomplete, hopened, fun e he hname => ?_⟩⟩
    obtain ⟨d, hd, hopenDir⟩ := hreader e he hname
    rwa [Option.some.inj hd]

/-! ## 6. Data directories -/

/-- The data directory after some writes, each of which may have crashed anywhere. -/
inductive Written (F : Formats) (round : ℝ → F32) (schema : IndexSchema ℝ)
    (analysis : TextAnalysis) : Dirs → Prop
  | empty : Written F round schema analysis ∅
  | write {dirs : Dirs} (h : Written F round schema analysis dirs) {id : SegmentId}
      {docs : List Document} (hid : id.seq + 1 < 2 ^ 64) (hnew : id.name ∉ dirs)
      (hmeta : F.CutsMeta (segmentMeta schema analysis id.name docs))
      (p : CrashPoint (SegmentWriter.write F round schema analysis id.name docs)) (cut : Nat) :
      Written F round schema analysis
        (putDir dirs id.name (p.state Effect.on (Effect.tear cut) none))

/-- **Such a directory opens.** -/
theorem Written.opens {dirs : Dirs} (h : Written F round schema analysis dirs) :
    ∃ l, SegmentList.openDirs F schema analysis dirs = .ok l := by
  induction h with
  | empty => exact ⟨_, openDirs_eq_ok_iff.mpr ⟨fun _ hd => (nomatch hd), by decide, rfl⟩⟩
  | write _ hid hnew hmeta p cut ih =>
    obtain ⟨l, hl⟩ := ih
    have hsafe : ∀ d, p.state Effect.on (Effect.tear cut) none = some d → Safe F d := by
      intro d hd
      rcases openDir_crash hmeta p cut with herror | ⟨complete, hcomplete, hstate, -⟩
      · exact Or.inl (herror d hd)
      · exact Option.some.inj (hstate.symm.trans hd) ▸ hcomplete
    obtain ⟨opened, hopened, -⟩ := openDirs_putDir hid hnew hl hsafe
    exact ⟨opened, hopened⟩

end

/-! ## 7. A crash in the metadata -/

/-- `serde_json::to_string_pretty`, of a name without escapes. -/
def prettyMeta (segmentMeta : SegmentMeta) : List Char :=
  "\x7b\n  \"doc_count\": ".toList ++ Nat.toDigits 10 segmentMeta.docCount
    ++ ",\n  \"term_count\": ".toList ++ Nat.toDigits 10 segmentMeta.termCount
    ++ ",\n  \"segment_id\": \"".toList ++ segmentMeta.segmentId ++ "\"\n\x7d".toList

/-- A number, and what follows it. -/
def getDigits (text : List Char) : Option (Nat × List Char) :=
  if text.takeWhile Char.isDigit = [] then none
  else some (Nat.ofDigitChars 10 (text.takeWhile Char.isDigit) 0, text.dropWhile Char.isDigit)

/-- `serde_json::from_str`, of text that has been printed so, or a part of it. -/
def parsePretty (text : List Char) : Option SegmentMeta := do
  let text ← text.dropPrefix? "\x7b\n  \"doc_count\": ".toList
  let (docCount, text) ← getDigits text
  let text ← text.dropPrefix? ",\n  \"term_count\": ".toList
  let (termCount, text) ← getDigits text
  let text ← text.dropPrefix? ",\n  \"segment_id\": \"".toList
  if text.dropWhile (· ≠ '"') = "\"\n\x7d".toList then
    some { docCount, termCount, segmentId := text.takeWhile (· ≠ '"') }
  else none

/-- Formats for ASCII, and for segments without columns. -/
def plainFormats : Formats where
  fst := .entries
  fstBytes entries :=
    (Wire.seq (Wire.pair Wire.str Wire.u64)).put (entries.map fun e => (e.1, e.2.toUInt64))
  loadFst bytes :=
    ((Wire.seq (Wire.pair Wire.str Wire.u64)).codec.deserialize bytes).map
      (·.map fun e => (e.1, e.2.toNat))
  document := Bincode.document.codec
  serializeColumns _ := leBytes 8 0 ++ leBytes 8 0
  deserializeColumns bytes := if bytes = leBytes 8 0 ++ leBytes 8 0 then some {} else none
  bitmaps := roaring
  printMeta segmentMeta := (prettyMeta segmentMeta).map (·.toNat.toUInt8)
  parseMeta bytes := parsePretty (bytes.map fun b => Char.ofNat b.toNat)

/-- Titles only. -/
noncomputable def titlesOnly : IndexSchema ℝ where
  fields :=
    [ { name := "title", fieldType := .text, indexed := true, stored := true
        filterable := false, aggregatable := false, boost := 1, analyzer := .keyword } ]

theorem segmentMeta_titlesOnly (name : List Char) :
    segmentMeta titlesOnly oneWord name threeDocs = ⟨3, 2, name⟩ := by
  unfold segmentMeta
  simp only [SegmentMeta.mk.injEq, and_true]
  exact ⟨rfl, by decide +kernel⟩

example : plainFormats.parseMeta (plainFormats.printMeta ⟨3, 2, SegmentId.name ⟨1⟩⟩)
    = some ⟨3, 2, SegmentId.name ⟨1⟩⟩ := by decide +kernel

/-- A write of three documents that dies after this many operations, in the middle of the next. -/
noncomputable def titlesCrash (id : SegmentId) (done : Nat) :
    CrashPoint (SegmentWriter.write plainFormats (fun _ => F32.one) titlesOnly oneWord id.name
      threeDocs) :=
  .after _ done true

/-- What a complete write leaves opens, in these formats. -/
example : (match (titlesCrash ⟨1⟩ 6).state Effect.on (Effect.tear 0) none with
    | some dir =>
      match SegmentReader.openDir plainFormats dir with
      | .ok reader => reader.segmentMeta
      | _ => ⟨0, 0, []⟩
    | none => ⟨0, 0, []⟩) = ⟨3, 2, SegmentId.name ⟨1⟩⟩ := by decide +kernel

/-- The data directory after a complete write. -/
noncomputable def oneSegment : Dirs :=
  putDir ∅ (SegmentId.name ⟨1⟩) ((titlesCrash ⟨1⟩ 6).state Effect.on (Effect.tear 0) none)

/-- And after another one that died in the middle of `meta.json`. -/
noncomputable def oneAndAHalf : Dirs :=
  putDir oneSegment (SegmentId.name ⟨2⟩)
    ((titlesCrash ⟨2⟩ 5).state Effect.on (Effect.tear 40) none)

theorem cutsMeta_titlesOnly {seq : Nat} (h : seq = 1 ∨ seq = 2) :
    plainFormats.CutsMeta (segmentMeta titlesOnly oneWord (SegmentId.name ⟨seq⟩) threeDocs) := by
  rw [segmentMeta_titlesOnly]
  unfold Formats.CutsMeta
  rcases h with rfl | rfl <;> decide +kernel

/-- The complete segment is still there. -/
theorem half_written_never_opened_second :
    ∃ l opened, SegmentList.openDirs plainFormats titlesOnly oneWord oneSegment = .ok l ∧
      SegmentList.openDirs plainFormats titlesOnly oneWord oneAndAHalf = .ok opened ∧
      opened.segments.filter (fun e => e.segmentId ≠ SegmentId.name ⟨2⟩) = l.segments := by
  have hone : Written plainFormats (fun _ => F32.one) titlesOnly oneWord oneSegment :=
    .write .empty (by decide) (AList.notMem_empty _) (cutsMeta_titlesOnly (Or.inl rfl)) _ _
  have hnew : SegmentId.name ⟨2⟩ ∉ oneSegment := by
    intro hmem
    unfold oneSegment at hmem
    rcases mem_putDir hmem with heq | hmem
    · exact absurd (SegmentId.name_injective heq) (by decide)
    · exact AList.notMem_empty _ hmem
  obtain ⟨l, hl⟩ := hone.opens
  obtain ⟨opened, hopened, hfilter, -⟩ := half_written_never_opened (by decide) hnew
    (cutsMeta_titlesOnly (Or.inr rfl)) hl (titlesCrash ⟨2⟩ 5) 40
  exact ⟨l, opened, hl, hopened, hfilter⟩

end Raw

end ZearchEngine
