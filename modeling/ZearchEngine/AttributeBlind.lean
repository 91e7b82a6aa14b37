/-
# The engine does not look at attributes

A shard stores the attributes of a document, and reads them only where a search is filtered,
counted or sorted by one (`crates/shard/src/shard.rs`, `segment_list.rs`, `write_buffer.rs`).
So whatever attributes are put in their place, everything else stays as it was: giving the
documents of a state other attributes and then running an operation, or running it and then
giving them other attributes, is the same (`tracks_exec`), and so it is for runs
(`runNew_edit`), flushes, merges, rebuilds and restarts included.

`Tracks` is the statement for one computation, and its rules go through the methods as these
are written: one lemma for a step, one for each method.
-/
import ZearchEngine.Shard

namespace ZearchEngine

open KeyedStore

/-! ## 1. Other attributes -/

/-- The attributes a document is given instead of its own. -/
abbrev AttributeEdit := Document → Attributes

section

variable (f : AttributeEdit)

/-- The document with other attributes. -/
def Document.edit (doc : Document) : Document := { doc with attributes := f doc }

@[simp] theorem Document.edit_id (doc : Document) : (doc.edit f).id = doc.id := rfl

/-- The entry, about the document with other attributes. -/
def WalEntry.edit : WalEntry → WalEntry
  | .index doc => .index (doc.edit f)
  | .delete docId => .delete docId

def WalRecord.edit (record : WalRecord) : WalRecord :=
  { record with entry := record.entry.edit f }

def Log.edit (l : Log) : Log := { l with records := l.records.map (WalRecord.edit f) }

/-- A file that is whole keeps being whole, and a torn one torn. -/
def Stored.map {α β : Type} (g : α → β) : Stored α → Stored β
  | .whole a => .whole (g a)
  | .torn => .torn

/-- The file of a list of documents. -/
def editFile (file : Option (Stored (List Document))) : Option (Stored (List Document)) :=
  file.map (Stored.map (List.map (Document.edit f)))

def SegmentDir.edit (dir : SegmentDir) : SegmentDir where
  invertedFst := editFile f dir.invertedFst
  invertedPost := editFile f dir.invertedPost
  columns := editFile f dir.columns
  docs := editFile f dir.docs
  metaJson := dir.metaJson
  deletions := dir.deletions

def SegmentFile.edit : SegmentFile → SegmentFile
  | .invertedFst written => .invertedFst (written.map (Document.edit f))
  | .invertedPost written => .invertedPost (written.map (Document.edit f))
  | .columns written => .columns (written.map (Document.edit f))
  | .docs written => .docs (written.map (Document.edit f))
  | .metaJson segmentMeta => .metaJson segmentMeta
  | .deletions bitmap => .deletions bitmap

def SegmentDirs.edit (dirs : SegmentDirs) : SegmentDirs := mapValues (SegmentDir.edit f) dirs

def SegmentReader.edit (reader : SegmentReader) : SegmentReader where
  segmentMeta := reader.segmentMeta
  inverted := reader.inverted.map (Document.edit f)
  columns := reader.columns.map (Document.edit f)
  docs :=
    { docs := reader.docs.docs.map (Document.edit f)
      deletionBitmap := reader.docs.deletionBitmap }

def SegmentEntry.edit (entry : SegmentEntry) : SegmentEntry where
  segmentId := entry.segmentId
  reader := entry.reader.edit f

def SegmentList.edit (l : SegmentList) : SegmentList :=
  { l with segments := l.segments.map (SegmentEntry.edit f) }

def WriteBuffer.edit (b : WriteBuffer) : WriteBuffer :=
  { b with
    docs := b.docs.map (Document.edit f)
    segmentReader := b.segmentReader.map (SegmentReader.edit f) }

/-- The shard, had its documents had other attributes. -/
def ShardEngine.edit (s : ShardEngine) : ShardEngine :=
  { s with
    wal := s.wal.edit f
    writeBuffer := s.writeBuffer.edit f
    segments := s.segments.edit f
    dirs := s.dirs.edit f }

/-- The operation, on documents with other attributes. -/
def ShardEngine.Op.edit : ShardEngine.Op → ShardEngine.Op
  | .index doc => .index (doc.edit f)
  | .indexBatch docs => .indexBatch (docs.map (Document.edit f))
  | .delete docId => .delete docId
  | .search request => .search request
  | .flush => .flush
  | .runMerge segmentIds => .runMerge segmentIds
  | .reindexSelf => .reindexSelf
  | .reopen => .reopen

/-! ## 2. The log -/

theorem numbered_edit : ∀ (seq : UInt64) (entries : List WalEntry),
    numbered seq (entries.map (WalEntry.edit f)) = (numbered seq entries).map (WalRecord.edit f)
  | _, [] => rfl
  | seq, entry :: entries => by
    rw [List.map_cons, numbered, numbered, List.map_cons, numbered_edit (seq + 1) entries]
    rfl

namespace Log

theorem appendBatch_edit (l : Log) (entries : List WalEntry) :
    (l.edit f).appendBatch (entries.map (WalEntry.edit f))
      = ((l.appendBatch entries).1, (l.appendBatch entries).2.edit f) := by
  simp [appendBatch, Log.edit, numbered_edit, WalRecord.edit, Function.comp_def]

theorem openRecords_edit (records : List WalRecord) :
    openRecords (records.map (WalRecord.edit f)) = (openRecords records).edit f := by
  simp [openRecords, Log.edit, List.getLast?_map, WalRecord.edit, Function.comp_def]

theorem readAll_edit (l : Log) : (l.edit f).readAll = l.readAll.map (WalEntry.edit f) := by
  simp [readAll, Log.edit, WalRecord.edit, Function.comp_def]

end Log

/-! ## 3. Segments -/

theorem read_editFile (file : Option (Stored (List Document))) :
    editFile f file >>= Stored.read
      = (file >>= Stored.read).map (List.map (Document.edit f)) := by
  rcases file with _ | (docs | _) <;> rfl

theorem SegmentDir.write_edit (dir : SegmentDir) (file : SegmentFile) :
    (dir.write file).edit f = (dir.edit f).write (file.edit f) := by
  cases file <;> rfl

theorem SegmentWriter.write_edit (docs : List Document) :
    SegmentWriter.write (docs.map (Document.edit f))
      = (SegmentWriter.write docs).map (SegmentFile.edit f) := by
  simp [SegmentWriter.write, SegmentFile.edit]

theorem foldl_write_edit : ∀ (files : List SegmentFile) (dir : SegmentDir),
    (files.map (SegmentFile.edit f)).foldl SegmentDir.write (dir.edit f)
      = (files.foldl SegmentDir.write dir).edit f
  | [], _ => rfl
  | file :: files, dir => by
    rw [List.map_cons, List.foldl_cons, List.foldl_cons, ← SegmentDir.write_edit,
      foldl_write_edit files]

namespace SegmentReader

theorem getDoc_edit (reader : SegmentReader) (i : LocalDocId) :
    (reader.edit f).getDoc i = (reader.getDoc i).map (Document.edit f) := by
  simp only [getDoc, DocStoreReader.get, SegmentReader.edit, List.getElem?_map]
  split <;> rfl

theorem filterMap_getDoc_edit (reader : SegmentReader) (ids : List LocalDocId) :
    ids.filterMap (reader.edit f).getDoc = (ids.filterMap reader.getDoc).map (Document.edit f) := by
  rw [List.map_filterMap]
  exact List.filterMap_congr (fun i _ => getDoc_edit f reader i)

/-- **A directory opens as it did**, with the documents it holds now. -/
theorem openDir_edit (dir : SegmentDir) :
    openDir (dir.edit f) = (openDir dir).map (SegmentReader.edit f) := by
  have hdeletions : loadDeletionBitmap (dir.edit f) = loadDeletionBitmap dir := rfl
  simp only [openDir, hdeletions]
  simp only [SegmentDir.edit, read_editFile]
  cases dir.metaJson >>= Stored.read with
  | none => rfl
  | some segmentMeta =>
    cases dir.invertedFst >>= Stored.read with
    | none => rfl
    | some inverted =>
      cases dir.invertedPost >>= Stored.read with
      | none => rfl
      | some postings =>
        cases dir.columns >>= Stored.read with
        | none => rfl
        | some columns =>
          cases dir.docs >>= Stored.read with
          | none => rfl
          | some docs => cases loadDeletionBitmap dir <;> rfl

end SegmentReader

theorem DeletionBitmap.markDeleted_edit (i : LocalDocId) (dir : SegmentDir) :
    DeletionBitmap.markDeleted i (dir.edit f)
      = (DeletionBitmap.markDeleted i dir).map (SegmentDir.edit f) := by
  have hdeletions : SegmentReader.loadDeletionBitmap (dir.edit f)
      = SegmentReader.loadDeletionBitmap dir := rfl
  simp only [DeletionBitmap.markDeleted, hdeletions]
  cases SegmentReader.loadDeletionBitmap dir <;> rfl

/-! ## 4. The list of segments -/

namespace SegmentDirs

theorem apply_edit_write (dirs : SegmentDirs) (id : SegmentId) (file : SegmentFile) :
    (dirs.apply (.write id file)).edit f = (dirs.edit f).apply (.write id (file.edit f)) :=
  mapValues_alter _ (fun dir => SegmentDir.write_edit f dir file) id dirs

theorem foldl_writes_edit (id : SegmentId) : ∀ (files : List SegmentFile) (dirs : SegmentDirs),
    ((files.map (SegmentFile.edit f)).map (DirEffect.write id)).foldl apply (dirs.edit f)
      = ((files.map (DirEffect.write id)).foldl apply dirs).edit f
  | [], _ => rfl
  | file :: files, dirs => by
    rw [List.map_cons, List.map_cons, List.map_cons, List.foldl_cons, List.foldl_cons,
      ← apply_edit_write, foldl_writes_edit id files]

theorem writeSegment_edit (id : SegmentId) (docs : List Document) (dirs : SegmentDirs) :
    (writeSegment id (docs.map (Document.edit f))).foldl apply (dirs.edit f)
      = ((writeSegment id docs).foldl apply dirs).edit f := by
  have hcreate : (dirs.edit f).apply (.createDir id) = (dirs.apply (.createDir id)).edit f := by
    simp only [apply, SegmentDirs.edit, mem_mapValues]
    split
    · rfl
    · exact (mapValues_insert (SegmentDir.edit f) dirs id {}).symm
  rw [writeSegment, writeSegment, List.foldl_cons, List.foldl_cons, hcreate,
    SegmentWriter.write_edit, foldl_writes_edit]

end SegmentDirs

namespace SegmentList

/-- The ids of the documents are what they were, and so is the map. -/
theorem insertDocs_edit (m : DocIdMap) (id : SegmentId) (reader : SegmentReader) :
    m.insertDocs id (reader.edit f) = m.insertDocs id reader := by
  have hlocal : DocIdMap.insertLocal id (reader.edit f) = DocIdMap.insertLocal id reader := by
    funext m i
    simp only [DocIdMap.insertLocal, SegmentReader.getDoc_edit]
    cases reader.getDoc i <;> rfl
  rw [DocIdMap.insertDocs, DocIdMap.insertDocs, hlocal]
  rfl

theorem sortedDirs_edit (dirs : SegmentDirs) :
    sortedDirs (dirs.edit f) = (sortedDirs dirs).map (fun e => ⟨e.1, e.2.edit f⟩) := by
  let byName (a b : Sigma fun _ : SegmentId => SegmentDir) : Prop := SegmentId.nameLe a.1 b.1
  have hnames : ∀ a ∈ dirs.entries, ∀ b ∈ dirs.entries,
      byName a b ↔ byName ⟨a.1, a.2.edit f⟩ ⟨b.1, b.2.edit f⟩ := fun _ _ _ _ => Iff.rfl
  rw [sortedDirs, sortedDirs]
  exact (List.map_insertionSort byName byName _ dirs.entries hnames).symm

theorem foldl_openOne_edit : ∀ (dirs : List (Sigma fun _ : SegmentId => SegmentDir))
    (segments : List SegmentEntry) (docIdMap : DocIdMap) (maxSeq : Nat),
    (dirs.map (fun e => (⟨e.1, e.2.edit f⟩ : Sigma fun _ : SegmentId => SegmentDir))).foldl openOne
        (segments.map (SegmentEntry.edit f), docIdMap, maxSeq)
      = ((dirs.foldl openOne (segments, docIdMap, maxSeq)).1.map (SegmentEntry.edit f),
          (dirs.foldl openOne (segments, docIdMap, maxSeq)).2)
  | [], _, _, _ => rfl
  | dir :: dirs, segments, docIdMap, maxSeq => by
    rw [List.map_cons, List.foldl_cons, List.foldl_cons]
    simp only [openOne, SegmentReader.openDir_edit]
    cases SegmentReader.openDir dir.2 with
    | none => exact foldl_openOne_edit dirs segments docIdMap _
    | some reader =>
      have hadd : segments.map (SegmentEntry.edit f)
            ++ [(⟨dir.1, reader.edit f⟩ : SegmentEntry)]
          = (segments ++ [(⟨dir.1, reader⟩ : SegmentEntry)]).map (SegmentEntry.edit f) := by
        rw [List.map_append]
        rfl
      simp only [Option.map_some, insertDocs_edit, hadd]
      exact foldl_openOne_edit dirs _ _ _

theorem openDirs_edit (dirs : SegmentDirs) : openDirs (dirs.edit f) = (openDirs dirs).edit f := by
  have hfold := foldl_openOne_edit f (sortedDirs dirs) [] (fun _ => none) 0
  rw [List.map_nil] at hfold
  simp only [openDirs, sortedDirs_edit, hfold]
  rfl

theorem find?_edit (segments : List SegmentEntry) (id : SegmentId) :
    (segments.map (SegmentEntry.edit f)).find? (fun s => s.segmentId = id)
      = (segments.find? (fun s => s.segmentId = id)).map (SegmentEntry.edit f) :=
  List.find?_map

theorem getDoc_edit (l : SegmentList) (docId : DocId) :
    (l.edit f).getDoc docId = (l.getDoc docId).map (Document.edit f) := by
  simp only [getDoc, SegmentList.edit, find?_edit]
  cases l.docIdMap docId with
  | none => rfl
  | some loc =>
    cases hfind : l.segments.find? (fun s => s.segmentId = loc.segmentId) with
    | none => simp [hfind]
    | some entry => simp [hfind, SegmentEntry.edit, SegmentReader.getDoc_edit]

theorem markDeleted_edit (l : SegmentList) (dirs : SegmentDirs) (docId : DocId) :
    (l.edit f).markDeleted (dirs.edit f) docId
      = ((l.markDeleted dirs docId).1, (l.markDeleted dirs docId).2.1.edit f,
          (l.markDeleted dirs docId).2.2.edit f) := by
  simp only [markDeleted, SegmentList.edit, find?_edit]
  cases hloc : l.docIdMap docId with
  | none => rfl
  | some loc =>
    dsimp only
    cases hfind : l.segments.find? (fun s => s.segmentId = loc.segmentId) with
    | none => rfl
    | some entry =>
      have hdir : (dirs.edit f).lookup entry.segmentId
            >>= DeletionBitmap.markDeleted loc.localDocId
          = (dirs.lookup entry.segmentId >>= DeletionBitmap.markDeleted loc.localDocId).map
              (SegmentDir.edit f) := by
        rw [SegmentDirs.edit, lookup_mapValues]
        cases dirs.lookup entry.segmentId with
        | none => rfl
        | some dir => exact DeletionBitmap.markDeleted_edit f loc.localDocId dir
      simp only [Option.map_some, SegmentEntry.edit, hdir]
      cases dirs.lookup entry.segmentId >>= DeletionBitmap.markDeleted loc.localDocId with
      | none => rfl
      | some dir => simp only [Option.map_some, SegmentDirs.edit, mapValues_insert]

end SegmentList

/-! ## 5. The write buffer -/

namespace WriteBuffer

theorem add_edit (b : WriteBuffer) (doc : Document) :
    (b.edit f).add (doc.edit f) = ((b.add doc).1, (b.add doc).2.edit f) := by
  simp [add, isFull, WriteBuffer.edit, Document.edit]

theorem addAll_edit : ∀ (docs : List Document) (b : WriteBuffer),
    (b.edit f).addAll (docs.map (Document.edit f)) = ((b.addAll docs).1, (b.addAll docs).2.edit f)
  | [], _ => rfl
  | doc :: docs, b => by
    have ih := addAll_edit docs (b.add doc).2
    simp only [List.map_cons, addAll, add_edit, ih]

theorem filter_notMem_edit (docs : List Document) (deletedIds : Finset DocId) :
    (docs.map (Document.edit f)).filter (fun d => d.id ∉ deletedIds)
      = (docs.filter (fun d => d.id ∉ deletedIds)).map (Document.edit f) :=
  List.filter_map

theorem rebuildSegment_edit (b : WriteBuffer) :
    (b.edit f).rebuildSegment = b.rebuildSegment.map (WriteBuffer.edit f) := by
  rw [rebuildSegment_eq, rebuildSegment_eq]
  have hlive : (b.edit f).allDocs = b.allDocs.map (Document.edit f) := filter_notMem_edit f _ _
  have hreader : (b.edit f).liveReader = b.liveReader.map (SegmentReader.edit f) := by
    simp only [liveReader, hlive, List.isEmpty_map]
    split
    · rfl
    · simp [SegmentReader.ofDocs, SegmentReader.edit]
  rw [hreader]
  rfl

theorem readerAndStats_edit (b : WriteBuffer) :
    (b.edit f).readerAndStats
      = b.readerAndStats.map (fun (reader, b') => (reader.map (SegmentReader.edit f), b'.edit f)) := by
  have hempty : (b.edit f).docs.isEmpty = b.docs.isEmpty := List.isEmpty_map
  have hdirty : (b.edit f).dirty = b.dirty := rfl
  simp only [readerAndStats, hempty, hdirty, rebuildSegment_edit]
  split
  · rfl
  · split
    · cases b.rebuildSegment <;> rfl
    · rfl

end WriteBuffer

/-! ## 6. Computations -/

/-- The computation `y` does on the edited shard what `x` does on the shard: it stops with the
same error, or returns what `g` makes of the value, and leaves the edited state. -/
def ShardM.Tracks {α β : Type} (g : α → β) (x : ShardM α) (y : ShardM β) : Prop :=
  ∀ s : ShardEngine, y (s.edit f) = ((x s).1.map g, (x s).2.edit f)

namespace ShardM

variable {f} {α β γ δ : Type} {g : α → β} {h : γ → δ}

theorem Tracks.pure (a : α) : Tracks f g (pure a) (pure (g a)) := fun _ => rfl

/-- **The rule for `?` and `;`.** -/
theorem Tracks.bind {x : ShardM α} {y : ShardM β} {k : α → ShardM γ} {l : β → ShardM δ}
    (hx : Tracks f g x y) (hk : ∀ a, Tracks f h (k a) (l (g a))) :
    Tracks f h (x >>= k) (y >>= l) := by
  intro s
  rw [bind_apply, bind_apply, hx s]
  cases hs : x s with
  | mk result s' =>
    cases result with
    | ok a => exact hk a s'
    | error e => rfl

theorem Tracks.ite {p p' : Prop} [Decidable p] [Decidable p'] (hp : p' ↔ p) {x x' : ShardM α}
    {y y' : ShardM β} (hx : Tracks f g x y) (hx' : Tracks f g x' y') :
    Tracks f g (if p then x else x') (if p' then y else y') := by
  by_cases h : p
  · rw [if_pos h, if_pos (hp.mpr h)]
    exact hx
  · rw [if_neg h, if_neg (mt hp.mp h)]
    exact hx'

/-- A step that succeeds. -/
theorem Tracks.step {u : ShardEngine → α × ShardEngine} {v : ShardEngine → β × ShardEngine}
    (huv : ∀ s : ShardEngine, v (s.edit f) = (g (u s).1, (u s).2.edit f)) :
    Tracks f g (ShardM.step u) (ShardM.step v) := by
  intro s
  rw [ShardM.step, ShardM.step, huv s]
  rfl

theorem Tracks.read {u : ShardEngine → α} {v : ShardEngine → β}
    (huv : ∀ s : ShardEngine, v (s.edit f) = g (u s)) :
    Tracks f g (ShardEngine.read u) (ShardEngine.read v) :=
  .step (fun s => by rw [huv s])

end ShardM

namespace ShardEngine

open ShardM

variable {f}

/-! ## 7. Steps -/

theorem tracks_walAppend (entries : List WalEntry) :
    Tracks f id (walAppend entries) (walAppend (entries.map (WalEntry.edit f))) :=
  .step (fun s => by
    have happend := Log.appendBatch_edit f s.wal entries
    simp only [ShardEngine.edit, happend]
    rfl)

theorem tracks_walTruncate : Tracks f id walTruncate walTruncate := .step (fun _ => rfl)

theorem tracks_bufferAdd (docs : List Document) :
    Tracks f id (bufferAdd docs) (bufferAdd (docs.map (Document.edit f))) :=
  .step (fun s => by
    have hadd := WriteBuffer.addAll_edit f docs s.writeBuffer
    simp only [ShardEngine.edit, hadd]
    rfl)

theorem tracks_bufferMarkDeleted (docId : DocId) :
    Tracks f id (bufferMarkDeleted docId) (bufferMarkDeleted docId) := .step (fun _ => rfl)

theorem tracks_bufferDrain :
    Tracks f (fun drained => (drained.1.map (Document.edit f), drained.2)) bufferDrain
      bufferDrain := .step (fun _ => rfl)

theorem tracks_bufferReader :
    Tracks f (Option.map (SegmentReader.edit f)) bufferReader bufferReader := by
  intro s
  have hbuffer : (s.edit f).writeBuffer = s.writeBuffer.edit f := rfl
  rw [bufferReader, bufferReader, hbuffer, WriteBuffer.readerAndStats_edit]
  cases s.writeBuffer.readerAndStats <;> rfl

theorem tracks_segmentsMarkDeleted (docId : DocId) :
    Tracks f id (segmentsMarkDeleted docId) (segmentsMarkDeleted docId) := by
  intro s
  have hmark := SegmentList.markDeleted_edit f s.segments s.dirs docId
  simp only [segmentsMarkDeleted, ShardEngine.edit, hmark]
  cases (s.segments.markDeleted s.dirs docId).1 <;> rfl

theorem tracks_nextSegmentId : Tracks f id nextSegmentId nextSegmentId := .step (fun _ => rfl)

theorem tracks_writeSegment (id : SegmentId) (docs : List Document) :
    Tracks f (fun u : Unit => u) (writeSegment id docs) (writeSegment id (docs.map (Document.edit f))) :=
  .step (fun s => by
    have hwrite := SegmentDirs.writeSegment_edit f id docs s.dirs
    simp only [ShardEngine.edit, hwrite])

theorem tracks_openSegment (id : SegmentId) :
    Tracks f (SegmentReader.edit f) (openSegment id) (openSegment id) := by
  intro s
  have hopen : (s.edit f).dirs.lookup id >>= SegmentReader.openDir
      = (s.dirs.lookup id >>= SegmentReader.openDir).map (SegmentReader.edit f) := by
    rw [ShardEngine.edit, SegmentDirs.edit, lookup_mapValues]
    cases s.dirs.lookup id with
    | none => rfl
    | some dir => exact SegmentReader.openDir_edit f dir
  rw [openSegment, openSegment, hopen]
  cases s.dirs.lookup id >>= SegmentReader.openDir <;> rfl

theorem tracks_addSegment (entry : SegmentEntry) :
    Tracks f id (addSegment entry) (addSegment (entry.edit f)) :=
  .step (fun s => by
    simp [ShardEngine.edit, SegmentList.edit, SegmentList.addSegment, SegmentEntry.edit,
      SegmentList.insertDocs_edit])

theorem tracks_replaceSegments (oldIds : List SegmentId) (entry : SegmentEntry) :
    Tracks f id (replaceSegments oldIds entry) (replaceSegments oldIds (entry.edit f)) :=
  .step (fun s => by
    have hkept : (s.segments.segments.map (SegmentEntry.edit f)).filter
          (fun e => e.segmentId ∉ oldIds)
        = (s.segments.segments.filter (fun e => e.segmentId ∉ oldIds)).map
            (SegmentEntry.edit f) := List.filter_map
    simp only [ShardEngine.edit, SegmentList.edit, SegmentList.replaceSegments, hkept,
      SegmentEntry.edit, SegmentList.insertDocs_edit, List.map_append]
    rfl)

theorem tracks_removeDirs (ids : List SegmentId) :
    Tracks f id (removeDirs ids) (removeDirs ids) :=
  .step (fun s => by
    have herase := mapValues_eraseAll (SegmentDir.edit f) ids s.dirs
    simp only [ShardEngine.edit, SegmentDirs.edit, herase])

/-! ## 8. Methods -/

theorem mergedDocs_edit (entries : List SegmentEntry) :
    MergeScheduler.mergedDocs (entries.map (SegmentEntry.edit f))
      = (MergeScheduler.mergedDocs entries).map (Document.edit f) := by
  rw [MergeScheduler.mergedDocs, MergeScheduler.mergedDocs, List.flatMap_map, List.map_flatMap]
  exact List.flatMap_congr (fun e _ => SegmentReader.filterMap_getDoc_edit f e.reader _)

theorem sources_edit (s : ShardEngine) (segmentIds : List SegmentId) :
    (s.edit f).sources segmentIds = (s.sources segmentIds).map (SegmentEntry.edit f) :=
  List.filter_map

theorem segmentIds_edit (s : ShardEngine) :
    (s.edit f).segments.segments.map SegmentEntry.segmentId
      = s.segments.segments.map SegmentEntry.segmentId := List.map_map

theorem findMerges_edit (policy : TieredMergePolicy) (segments : List SegmentEntry) :
    policy.findMerges (segments.map (SegmentEntry.edit f)) = policy.findMerges segments := by
  have hindexed : (segments.map (SegmentEntry.edit f)).map
        (fun e => (e.segmentId, e.reader.segmentMeta.docCount))
      = segments.map (fun e => (e.segmentId, e.reader.segmentMeta.docCount)) := List.map_map
  simp only [TieredMergePolicy.findMerges, hindexed, List.length_map]

theorem tracks_runMerge (segmentIds : List SegmentId) :
    Tracks f id (runMerge segmentIds) (runMerge segmentIds) := by
  refine tracks_nextSegmentId.bind (fun newSegId => ?_)
  have hdocs : Tracks f (List.map (Document.edit f))
      (read fun s => MergeScheduler.mergedDocs (s.sources segmentIds))
      (read fun s => MergeScheduler.mergedDocs (s.sources segmentIds)) :=
    .read (fun s => by rw [sources_edit, mergedDocs_edit])
  refine hdocs.bind (fun mergedDocs => ?_)
  refine (tracks_writeSegment newSegId mergedDocs).bind (fun _ => ?_)
  refine (tracks_openSegment newSegId).bind (fun reader => ?_)
  exact (tracks_replaceSegments segmentIds ⟨newSegId, reader⟩).bind
    (fun _ => tracks_removeDirs segmentIds)

theorem tracks_runMerges : ∀ groups : List (List SegmentId),
    Tracks f id (runMerges groups) (runMerges groups)
  | [] => .pure ()
  | group :: groups => (tracks_runMerge group).bind (fun _ => tracks_runMerges groups)

theorem tracks_maybeMerge : Tracks f id maybeMerge maybeMerge := by
  have hgroups : Tracks f id (read fun s => s.mergePolicy.findMerges s.segments.segments)
      (read fun s => s.mergePolicy.findMerges s.segments.segments) :=
    .read (fun s => findMerges_edit s.mergePolicy s.segments.segments)
  exact hgroups.bind tracks_runMerges

theorem tracks_flush : Tracks f id flush flush := by
  refine tracks_bufferDrain.bind (fun ⟨docs, deletedIds⟩ => ?_)
  refine .ite (by rw [List.isEmpty_map]) (.pure ()) ?_
  refine tracks_nextSegmentId.bind (fun segId => ?_)
  refine (tracks_writeSegment segId docs).bind (fun _ => ?_)
  refine (tracks_openSegment segId).bind (fun reader => ?_)
  refine (tracks_addSegment ⟨segId, reader⟩).bind (fun _ => ?_)
  exact tracks_walTruncate.bind (fun _ => tracks_maybeMerge)

theorem tracks_index (doc : Document) : Tracks f id (index doc) (index (doc.edit f)) := by
  refine (tracks_walAppend [.index doc]).bind (fun _ => ?_)
  refine (tracks_bufferAdd [doc]).bind (fun full => ?_)
  exact .ite Iff.rfl tracks_flush (.pure ())

theorem tracks_indexBatch (docs : List Document) :
    Tracks f id (indexBatch docs) (indexBatch (docs.map (Document.edit f))) := by
  have hentries : (docs.map (Document.edit f)).map WalEntry.index
      = (docs.map WalEntry.index).map (WalEntry.edit f) := by
    rw [List.map_map, List.map_map]
    rfl
  show Tracks f id _ (walAppend ((docs.map (Document.edit f)).map WalEntry.index) >>= _)
  rw [hentries]
  refine (tracks_walAppend (docs.map .index)).bind (fun _ => ?_)
  refine (tracks_bufferAdd docs).bind (fun needsFlush => ?_)
  exact .ite Iff.rfl tracks_flush (.pure ())

theorem tracks_delete (docId : DocId) : Tracks f id (delete docId) (delete docId) := by
  refine (tracks_walAppend [.delete docId]).bind (fun _ => ?_)
  refine (tracks_bufferMarkDeleted docId).bind (fun _ => ?_)
  exact (tracks_segmentsMarkDeleted docId).bind (fun _ => .pure ())

/-- The documents that a rebuild collects. -/
theorem liveDocs_edit (s : ShardEngine) :
    (s.edit f).segments.segments.flatMap (fun e => e.reader.allLiveDocs.filterMap e.reader.getDoc)
      = (s.segments.segments.flatMap
          (fun e => e.reader.allLiveDocs.filterMap e.reader.getDoc)).map (Document.edit f) := by
  have hsegments : (s.edit f).segments.segments
      = s.segments.segments.map (SegmentEntry.edit f) := rfl
  rw [hsegments, List.flatMap_map, List.map_flatMap]
  exact List.flatMap_congr (fun e _ => SegmentReader.filterMap_getDoc_edit f e.reader _)

theorem tracks_reindexSelf : Tracks f id reindexSelf reindexSelf := by
  refine tracks_flush.bind (fun _ => ?_)
  refine (Tracks.read liveDocs_edit).bind (fun docs => ?_)
  refine .ite (by rw [List.isEmpty_map]) (.pure 0) ?_
  refine tracks_nextSegmentId.bind (fun newSegId => ?_)
  refine (tracks_writeSegment newSegId docs).bind (fun _ => ?_)
  refine (tracks_openSegment newSegId).bind (fun reader => ?_)
  have hids : Tracks f id (read fun s => s.segments.segments.map SegmentEntry.segmentId)
      (read fun s => s.segments.segments.map SegmentEntry.segmentId) := .read segmentIds_edit
  refine hids.bind (fun oldIds => ?_)
  refine (tracks_replaceSegments oldIds ⟨newSegId, reader⟩).bind (fun _ => ?_)
  refine (tracks_removeDirs oldIds).bind (fun _ => ?_)
  refine tracks_walTruncate.bind (fun _ => ?_)
  rw [List.length_map]
  exact .pure docs.length

/-! ## 9. Opening, and runs -/

theorem replay_edit (s : ShardEngine) (entry : WalEntry) :
    (s.edit f).replay (entry.edit f) = (s.replay entry).edit f := by
  cases entry with
  | index doc =>
    have hadd := WriteBuffer.add_edit f s.writeBuffer doc
    simp only [replay, WalEntry.edit, ShardEngine.edit, hadd]
  | delete docId =>
    have hmark := SegmentList.markDeleted_edit f s.segments s.dirs docId
    simp only [replay, WalEntry.edit, ShardEngine.edit, hmark]
    rfl

theorem foldl_replay_edit : ∀ (entries : List WalEntry) (s : ShardEngine),
    (entries.map (WalEntry.edit f)).foldl replay (s.edit f) = (entries.foldl replay s).edit f
  | [], _ => rfl
  | entry :: entries, s => by
    rw [List.map_cons, List.foldl_cons, List.foldl_cons, replay_edit, foldl_replay_edit entries]

/-- What is on disk, with other attributes. -/
def Disk.edit (f : AttributeEdit) (d : Disk) : Disk where
  wal := d.wal.map (WalRecord.edit f)
  segments := d.segments.edit f

theorem openDisk_edit (writeBufferSize : Nat) (searcher : MultiSegmentSearcher) (d : Disk) :
    openDisk writeBufferSize searcher (Disk.edit f d)
      = (openDisk writeBufferSize searcher d).edit f := by
  have hbefore : beforeReplay writeBufferSize searcher (Disk.edit f d)
      = (beforeReplay writeBufferSize searcher d).edit f := by
    simp only [beforeReplay, Disk.edit, Log.openRecords_edit, SegmentList.openDirs_edit]
    rfl
  have hentries : (Log.openRecords (Disk.edit f d).wal).readAll
      = (Log.openRecords d.wal).readAll.map (WalEntry.edit f) := by
    rw [Disk.edit, Log.openRecords_edit, Log.readAll_edit]
  rw [openDisk, openDisk, hentries, hbefore, foldl_replay_edit]

theorem tracks_reopen : Tracks f id reopen reopen :=
  .step (fun s => congrArg (Prod.mk ())
    (openDisk_edit s.writeBuffer.capacityBytes s.searcher s.disk))

/-- What a search leaves does not depend on what it finds. -/
theorem exec_search (request : SearchRequest) :
    exec (.search request) = (bufferReader >>= fun _ => pure ()) := by
  funext s
  show ((bufferReader >>= _) >>= _) s = _
  rw [bind_apply, bind_apply, bind_apply]
  cases bufferReader s with
  | mk result s' => cases result <;> rfl

/-- **Every operation does on the edited shard what it does on the shard.** -/
theorem tracks_exec (op : Op) : Tracks f id (exec op) (exec (op.edit f)) := by
  cases op with
  | index doc => exact tracks_index doc
  | indexBatch docs => exact tracks_indexBatch docs
  | delete docId => exact tracks_delete docId
  | search request =>
    show Tracks f id (exec (.search request)) (exec (.search request))
    rw [exec_search]
    exact tracks_bufferReader.bind (fun _ => .pure ())
  | flush => exact tracks_flush
  | runMerge segmentIds =>
    have hids : Tracks f id (read fun s => s.segments.segments.map SegmentEntry.segmentId)
        (read fun s => s.segments.segments.map SegmentEntry.segmentId) := .read segmentIds_edit
    refine hids.bind (fun openIds => ?_)
    exact .ite Iff.rfl (tracks_runMerge segmentIds) (.pure ())
  | reindexSelf => exact tracks_reindexSelf.bind (fun _ => .pure ())
  | reopen => exact tracks_reopen

theorem step_edit (s : ShardEngine) (op : Op) :
    (s.edit f).step (op.edit f) = (s.step op).edit f := congrArg Prod.snd (tracks_exec op s)

/-- **A run on other attributes** leads where the run leads, with other attributes. -/
theorem run_edit : ∀ (ops : List Op) (s : ShardEngine),
    LabelledRun.run step (s.edit f) (ops.map (Op.edit f)) = (LabelledRun.run step s ops).edit f
  | [], _ => rfl
  | op :: ops, s => by
    rw [List.map_cons, LabelledRun.run_cons, LabelledRun.run_cons, step_edit, run_edit ops]

theorem runNew_edit (writeBufferSize : Nat) (searcher : MultiSegmentSearcher) (ops : List Op) :
    runNew writeBufferSize searcher (ops.map (Op.edit f))
      = (runNew writeBufferSize searcher ops).edit f := by
  have hopen := @openDisk_edit f writeBufferSize searcher Disk.empty
  rw [runNew, runNew, ← run_edit, ← hopen]
  rfl

end ShardEngine

end

end ZearchEngine
