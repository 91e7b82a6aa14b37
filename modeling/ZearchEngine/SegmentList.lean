/-
# The list of open segments

`SegmentList` (`crates/shard/src/segment_list.rs`): the segments that are open, in order, with
a map from global document ids to the place of the document.  Opening a shard opens every
`seg-` directory in the order of the names and skips those that do not open; there is no other
record of which segments are live.

`mark_deleted` writes the deletion bitmap of the segment on disk and forgets the id; the
segment's open reader keeps the bitmap it was opened with.
-/
import ZearchEngine.Disk
import ZearchEngine.WriteBuffer
import Mathlib.Data.List.Sort
import Mathlib.Logic.Function.Basic

namespace ZearchEngine

/-- An open segment. -/
structure SegmentEntry where
  segmentId : SegmentId
  reader : SegmentReader
deriving DecidableEq

/-- Location of a document (global doc_id) within the shard. -/
structure DocLocation where
  segmentId : SegmentId
  localDocId : LocalDocId
deriving DecidableEq

/-- `HashMap<u64, DocLocation>`. -/
abbrev DocIdMap := DocId → Option DocLocation

/-- The open segments. -/
structure SegmentList where
  segments : List SegmentEntry
  docIdMap : DocIdMap
  nextSegmentSeq : Nat

/-- One turn of the loop that enters the documents of a segment into the map. -/
def DocIdMap.insertLocal (segmentId : SegmentId) (reader : SegmentReader) (m : DocIdMap)
    (localId : LocalDocId) : DocIdMap :=
  match reader.getDoc localId with
  | some doc => Function.update m doc.id (some ⟨segmentId, localId⟩)
  | none => m

/-- The loop over `0..reader.meta.doc_count`. -/
def DocIdMap.insertDocs (m : DocIdMap) (segmentId : SegmentId) (reader : SegmentReader) :
    DocIdMap :=
  (List.range reader.segmentMeta.docCount).foldl (DocIdMap.insertLocal segmentId reader) m

namespace SegmentList

/-- One directory of `SegmentList::open`: the sequence number counts even if the segment does
not open. -/
def openOne (acc : List SegmentEntry × DocIdMap × Nat)
    (dir : Sigma fun _ : SegmentId => SegmentDir) : List SegmentEntry × DocIdMap × Nat :=
  let (segments, docIdMap, maxSeq) := acc
  let maxSeq := max maxSeq dir.1.seq
  match SegmentReader.openDir dir.2 with
  | some reader =>
    (segments ++ [⟨dir.1, reader⟩], docIdMap.insertDocs dir.1 reader, maxSeq)
  | none => (segments, docIdMap, maxSeq)

/-- The directories in the order of their names. -/
def sortedDirs (dirs : SegmentDirs) : List (Sigma fun _ : SegmentId => SegmentDir) :=
  dirs.entries.insertionSort (fun a b => SegmentId.nameLe a.1 b.1)

/-- `SegmentList::open`. -/
def openDirs (dirs : SegmentDirs) : SegmentList :=
  let (segments, docIdMap, maxSeq) := (sortedDirs dirs).foldl openOne ([], fun _ => none, 0)
  { segments, docIdMap, nextSegmentSeq := maxSeq + 1 }

/-- `next_segment_id`. -/
def nextSegmentId (l : SegmentList) : SegmentId × SegmentList :=
  (⟨l.nextSegmentSeq⟩, { l with nextSegmentSeq := l.nextSegmentSeq + 1 })

/-- `add_segment`. -/
def addSegment (l : SegmentList) (entry : SegmentEntry) : SegmentList :=
  { l with
    docIdMap := l.docIdMap.insertDocs entry.segmentId entry.reader
    segments := l.segments ++ [entry] }

/-- `replace_segments`. -/
def replaceSegments (l : SegmentList) (oldIds : List SegmentId) (newEntry : SegmentEntry) :
    SegmentList :=
  let retained : DocIdMap := fun docId =>
    (l.docIdMap docId).filter (fun loc => loc.segmentId ∉ oldIds)
  { l with
    docIdMap := retained.insertDocs newEntry.segmentId newEntry.reader
    segments := l.segments.filter (fun s => s.segmentId ∉ oldIds) ++ [newEntry] }

/-- `mark_deleted`: find a document by its global id and mark it deleted.  Writing the bitmap
into a directory that is gone, or over one that does not decode, is an error. -/
def markDeleted (l : SegmentList) (dirs : SegmentDirs) (docId : DocId) :
    Except Error Bool × SegmentList × SegmentDirs :=
  match l.docIdMap docId with
  | none => (.ok false, l, dirs)
  | some loc =>
    match l.segments.find? (fun s => s.segmentId = loc.segmentId) with
    | none => (.ok false, l, dirs)
    | some entry =>
      match dirs.lookup entry.segmentId >>= DeletionBitmap.markDeleted loc.localDocId with
      | none => (.error .io, l, dirs)
      | some dir =>
        (.ok true, { l with docIdMap := Function.update l.docIdMap docId none },
          dirs.insert entry.segmentId dir)

/-- `get_doc`: a document by its global id. -/
def getDoc (l : SegmentList) (docId : DocId) : Option Document := do
  let loc ← l.docIdMap docId
  let entry ← l.segments.find? (fun s => s.segmentId = loc.segmentId)
  entry.reader.getDoc loc.localDocId

/-- The documents the open segments can still read. -/
def liveDocuments (l : SegmentList) : List Document :=
  l.segments.flatMap (fun e => e.reader.liveDocuments)

end SegmentList

/-! ## 1. The map -/

/-- Every entry of the map leads to a document with that id. -/
def DocIdMap.Sound (m : DocIdMap) (segments : List SegmentEntry) : Prop :=
  ∀ docId loc, m docId = some loc → ∃ e ∈ segments, e.segmentId = loc.segmentId ∧
    ∃ doc, e.reader.getDoc loc.localDocId = some doc ∧ doc.id = docId

/-- Every live document has an entry. -/
def DocIdMap.Complete (m : DocIdMap) (segments : List SegmentEntry) : Prop :=
  ∀ e ∈ segments, ∀ doc ∈ e.reader.liveDocuments, m doc.id ≠ none

namespace DocIdMap

/-- What the loop over a list of local ids does to the map. -/
theorem foldl_insertLocal (segmentId : SegmentId) (reader : SegmentReader) (docId : DocId) :
    ∀ (ids : List LocalDocId) (m : DocIdMap),
    (∀ loc, ids.foldl (insertLocal segmentId reader) m docId = some loc →
      m docId = some loc ∨ (loc.segmentId = segmentId ∧
        ∃ doc, reader.getDoc loc.localDocId = some doc ∧ doc.id = docId)) ∧
    (ids.foldl (insertLocal segmentId reader) m docId = none →
      m docId = none ∧ ∀ i ∈ ids, ∀ doc, reader.getDoc i = some doc → doc.id ≠ docId)
  | [], _ => ⟨fun _ h => Or.inl h, fun h => ⟨h, by simp⟩⟩
  | i :: ids, m => by
    obtain ⟨hsome, hnone⟩ :=
      foldl_insertLocal segmentId reader docId ids (insertLocal segmentId reader m i)
    rw [List.foldl_cons]
    cases hdoc : reader.getDoc i with
    | none =>
      have hstep : insertLocal segmentId reader m i = m := by rw [insertLocal, hdoc]
      rw [hstep] at hsome hnone ⊢
      refine ⟨hsome, fun h => ⟨(hnone h).1, ?_⟩⟩
      intro j hj doc hjdoc
      rcases List.mem_cons.mp hj with rfl | hj
      · rw [hdoc] at hjdoc
        cases hjdoc
      · exact (hnone h).2 j hj doc hjdoc
    | some d =>
      have hstep : insertLocal segmentId reader m i
          = Function.update m d.id (some ⟨segmentId, i⟩) := by rw [insertLocal, hdoc]
      rw [hstep] at hsome hnone ⊢
      by_cases hid : docId = d.id
      · subst hid
        rw [Function.update_self] at hsome hnone
        refine ⟨fun loc h => ?_, fun h => absurd (hnone h).1 (by simp)⟩
        rcases hsome loc h with heq | hloc
        · cases heq
          exact Or.inr ⟨rfl, d, hdoc, rfl⟩
        · exact Or.inr hloc
      · rw [Function.update_of_ne hid] at hsome hnone
        refine ⟨hsome, fun h => ⟨(hnone h).1, ?_⟩⟩
        intro j hj doc hjdoc
        rcases List.mem_cons.mp hj with rfl | hj
        · rw [hdoc] at hjdoc
          cases hjdoc
          exact fun h' => hid h'.symm
        · exact (hnone h).2 j hj doc hjdoc

/-- An entry after `insertDocs` is an old one or leads into the new segment. -/
theorem insertDocs_eq_some {m : DocIdMap} {segmentId : SegmentId} {reader : SegmentReader}
    {docId : DocId} {loc : DocLocation} (h : m.insertDocs segmentId reader docId = some loc) :
    m docId = some loc ∨ (loc.segmentId = segmentId ∧
      ∃ doc, reader.getDoc loc.localDocId = some doc ∧ doc.id = docId) :=
  (foldl_insertLocal segmentId reader docId _ m).1 loc h

/-- An id without an entry after `insertDocs` had none before, and is not in the segment. -/
theorem insertDocs_eq_none {m : DocIdMap} {segmentId : SegmentId} {reader : SegmentReader}
    {docId : DocId} (h : m.insertDocs segmentId reader docId = none) :
    m docId = none ∧ ∀ doc ∈ reader.liveDocuments, doc.id ≠ docId := by
  obtain ⟨hm, hids⟩ := (foldl_insertLocal segmentId reader docId _ m).2 h
  refine ⟨hm, fun doc hdoc => ?_⟩
  obtain ⟨i, hi, hget⟩ := List.mem_filterMap.mp hdoc
  exact hids i hi doc hget

/-- Adding a segment keeps the map sound: older entries still lead where they led, or now
lead into the new segment. -/
theorem Sound.insertDocs {m : DocIdMap} {segments : List SegmentEntry} (h : m.Sound segments)
    (entry : SegmentEntry) :
    (m.insertDocs entry.segmentId entry.reader).Sound (segments ++ [entry]) := by
  intro docId loc hloc
  rcases insertDocs_eq_some hloc with hold | ⟨hseg, hdoc⟩
  · obtain ⟨e, he, hrest⟩ := h docId loc hold
    exact ⟨e, List.mem_append_left _ he, hrest⟩
  · exact ⟨entry, List.mem_append_right _ List.mem_cons_self, hseg.symm, hdoc⟩

theorem Complete.insertDocs {m : DocIdMap} {segments : List SegmentEntry}
    (h : m.Complete segments) (entry : SegmentEntry) :
    (m.insertDocs entry.segmentId entry.reader).Complete (segments ++ [entry]) := by
  intro e he doc hdoc hnone
  obtain ⟨hm, hnew⟩ := insertDocs_eq_none hnone
  rcases List.mem_append.mp he with hold | hnew'
  · exact h e hold doc hdoc hm
  · obtain rfl : e = entry := List.mem_singleton.mp hnew'
    exact hnew doc hdoc rfl

/-- Dropping the entries that lead into some segments keeps the map sound for the others. -/
theorem Sound.retain {m : DocIdMap} {segments : List SegmentEntry} (h : m.Sound segments)
    (oldIds : List SegmentId) :
    DocIdMap.Sound (fun docId => (m docId).filter (fun loc => loc.segmentId ∉ oldIds))
      (segments.filter (fun s => s.segmentId ∉ oldIds)) := by
  intro docId loc hloc
  obtain ⟨hold, hkeep⟩ := Option.filter_eq_some_iff.mp hloc
  obtain ⟨e, he, hseg, hdoc⟩ := h docId loc hold
  refine ⟨e, List.mem_filter.mpr ⟨he, ?_⟩, hseg, hdoc⟩
  rw [hseg]
  exact hkeep

end DocIdMap

/-! ## 2. Opening -/

namespace SegmentList

/-- The entry of a directory, if it opens. -/
def openEntry (dir : Sigma fun _ : SegmentId => SegmentDir) : Option SegmentEntry :=
  (SegmentReader.openDir dir.2).map (fun reader => ⟨dir.1, reader⟩)

/-- What `openOne` has collected after some directories. -/
structure Opened (dirs : List (Sigma fun _ : SegmentId => SegmentDir))
    (acc : List SegmentEntry × DocIdMap × Nat) : Prop where
  segments : acc.1 = dirs.filterMap openEntry
  sound : acc.2.1.Sound acc.1
  complete : acc.2.1.Complete acc.1
  maxSeq : ∀ dir ∈ dirs, dir.1.seq ≤ acc.2.2

theorem opened_openOne {dirs : List (Sigma fun _ : SegmentId => SegmentDir)}
    {acc : List SegmentEntry × DocIdMap × Nat} (h : Opened dirs acc)
    (dir : Sigma fun _ : SegmentId => SegmentDir) : Opened (dirs ++ [dir]) (openOne acc dir) := by
  obtain ⟨segments, docIdMap, maxSeq⟩ := acc
  have hmax : ∀ d ∈ dirs ++ [dir], d.1.seq ≤ max maxSeq dir.1.seq := by
    intro d hd
    rcases List.mem_append.mp hd with hd | hd
    · exact (h.maxSeq d hd).trans (Nat.le_max_left _ _)
    · rw [List.mem_singleton.mp hd]
      exact Nat.le_max_right _ _
  cases hopen : SegmentReader.openDir dir.2 with
  | none =>
    have hstep : openOne (segments, docIdMap, maxSeq) dir
        = (segments, docIdMap, max maxSeq dir.1.seq) := by simp only [openOne, hopen]
    have hentry : openEntry dir = none := by rw [openEntry, hopen]; rfl
    rw [hstep]
    refine ⟨?_, h.sound, h.complete, hmax⟩
    rw [List.filterMap_append, ← h.segments]
    simp [hentry]
  | some reader =>
    have hstep : openOne (segments, docIdMap, maxSeq) dir
        = (segments ++ [⟨dir.1, reader⟩], docIdMap.insertDocs dir.1 reader,
            max maxSeq dir.1.seq) := by simp only [openOne, hopen]
    have hentry : openEntry dir = some ⟨dir.1, reader⟩ := by rw [openEntry, hopen]; rfl
    rw [hstep]
    refine ⟨?_, h.sound.insertDocs ⟨dir.1, reader⟩, h.complete.insertDocs ⟨dir.1, reader⟩, hmax⟩
    rw [List.filterMap_append, ← h.segments]
    simp [hentry]

theorem opened_foldl : ∀ (dirs done : List (Sigma fun _ : SegmentId => SegmentDir))
    (acc : List SegmentEntry × DocIdMap × Nat), Opened done acc →
    Opened (done ++ dirs) (dirs.foldl openOne acc)
  | [], done, acc, h => by rwa [List.append_nil]
  | dir :: dirs, done, acc, h => by
    have hnext := opened_foldl dirs (done ++ [dir]) (openOne acc dir) (opened_openOne h dir)
    rwa [List.append_assoc] at hnext

/-- **What `SegmentList::open` finds**: an entry for each directory that opens, an exact map,
and a sequence number above those of all directories. -/
theorem opened_openDirs (dirs : SegmentDirs) :
    Opened (sortedDirs dirs) ((sortedDirs dirs).foldl openOne ([], fun _ => none, 0)) :=
  opened_foldl (sortedDirs dirs) [] ([], fun _ => none, 0)
    { segments := rfl
      sound := fun _ _ h => by cases h
      complete := fun _ h => by cases h
      maxSeq := fun _ h => by cases h }

theorem segments_openDirs (dirs : SegmentDirs) :
    (openDirs dirs).segments = (sortedDirs dirs).filterMap openEntry :=
  (opened_openDirs dirs).segments

theorem sound_openDirs (dirs : SegmentDirs) :
    (openDirs dirs).docIdMap.Sound (openDirs dirs).segments :=
  (opened_openDirs dirs).sound

theorem complete_openDirs (dirs : SegmentDirs) :
    (openDirs dirs).docIdMap.Complete (openDirs dirs).segments :=
  (opened_openDirs dirs).complete

theorem perm_sortedDirs (dirs : SegmentDirs) : (sortedDirs dirs).Perm dirs.entries :=
  List.perm_insertionSort _ _

theorem lt_nextSegmentSeq_openDirs {dirs : SegmentDirs} {id : SegmentId} (h : id ∈ dirs) :
    id.seq < (openDirs dirs).nextSegmentSeq := by
  obtain ⟨dir, hdir⟩ := KeyedStore.mem_iff_lookup.mp h
  have hmem : (⟨id, dir⟩ : Sigma fun _ : SegmentId => SegmentDir) ∈ sortedDirs dirs :=
    (perm_sortedDirs dirs).mem_iff.mpr (AList.mem_lookup_iff.mp hdir)
  exact Nat.lt_succ_of_le ((opened_openDirs dirs).maxSeq _ hmem)

/-- An open segment is a directory that opens. -/
theorem mem_segments_openDirs {dirs : SegmentDirs} {e : SegmentEntry} :
    e ∈ (openDirs dirs).segments ↔
      ∃ dir, dirs.lookup e.segmentId = some dir ∧ SegmentReader.openDir dir = some e.reader := by
  rw [segments_openDirs, List.mem_filterMap]
  constructor
  · rintro ⟨⟨id, dir⟩, hmem, hentry⟩
    obtain ⟨reader, hopen, rfl⟩ := Option.map_eq_some_iff.mp hentry
    exact ⟨dir, AList.mem_lookup_iff.mpr ((perm_sortedDirs dirs).mem_iff.mp hmem), hopen⟩
  · rintro ⟨dir, hlook, hopen⟩
    refine ⟨⟨e.segmentId, dir⟩, (perm_sortedDirs dirs).mem_iff.mpr (AList.mem_lookup_iff.mp hlook),
      ?_⟩
    rw [openEntry, hopen]
    rfl

/-- No directory is opened twice. -/
theorem nodup_openDirs (dirs : SegmentDirs) :
    ((openDirs dirs).segments.map SegmentEntry.segmentId).Nodup := by
  have hkeys : ((sortedDirs dirs).map Sigma.fst).Nodup :=
    ((perm_sortedDirs dirs).map Sigma.fst).nodup_iff.mpr dirs.keys_nodup
  have hsub : ((openDirs dirs).segments.map SegmentEntry.segmentId).Sublist
      ((sortedDirs dirs).map Sigma.fst) := by
    rw [segments_openDirs, List.map_filterMap, ← List.filterMap_eq_map]
    refine SegmentReader.filterMap_sublist (fun dir => ?_) _
    cases hopen : SegmentReader.openDir dir.2 with
    | none => exact Or.inl (by rw [openEntry, hopen]; rfl)
    | some reader => exact Or.inr (by rw [openEntry, hopen]; rfl)
  exact hkeys.sublist hsub

/-- Where ids are unique, a segment is found by its id. -/
theorem find?_segmentId {segments : List SegmentEntry}
    (hnodup : (segments.map SegmentEntry.segmentId).Nodup) {e : SegmentEntry}
    (he : e ∈ segments) : segments.find? (fun s => s.segmentId = e.segmentId) = some e := by
  induction segments with
  | nil => cases he
  | cons s segments ih =>
    rw [List.map_cons, List.nodup_cons] at hnodup
    rcases List.mem_cons.mp he with rfl | he
    · simp
    · have hne : s.segmentId ≠ e.segmentId := fun heq =>
        hnodup.1 (heq ▸ List.mem_map_of_mem he)
      rw [List.find?_cons_of_neg (by simpa using hne)]
      exact ih hnodup.2 he

end SegmentList

end ZearchEngine
