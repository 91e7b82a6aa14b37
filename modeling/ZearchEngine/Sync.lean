/-
# Open segments and their directories

The invariant between the segment list and the directory below it (`Synced`): every open
segment has a whole directory with the documents of its reader, every bit its reader has is on
disk, and the next segment name is unused.  A reader may *lack* bits that are on disk, because
`mark_deleted` writes the file and leaves the open reader as it is.

Three operations change the two together, and each preserves `Synced`: installing a new
segment in place of old ones, marking a document deleted, and opening a directory.
-/
import ZearchEngine.SegmentList

namespace ZearchEngine

open KeyedStore

/-- The directory of an open segment, with a bitmap that has grown since it was opened. -/
def SegmentEntry.OnDisk (dirs : SegmentDirs) (e : SegmentEntry) : Prop :=
  ∃ docs deleted deletions, e.reader = SegmentReader.ofDocs docs deleted ∧
    dirs.lookup e.segmentId = some (SegmentDir.written docs deletions) ∧
    deleted ⊆ deletions.getD ∅

/-- The open segments, their directories and the map of document ids belong together. -/
structure Synced (l : SegmentList) (dirs : SegmentDirs) : Prop where
  nodup : (l.segments.map SegmentEntry.segmentId).Nodup
  fresh : ∀ id ∈ dirs, id.seq < l.nextSegmentSeq
  onDisk : ∀ e ∈ l.segments, e.OnDisk dirs
  sound : l.docIdMap.Sound l.segments

/-- Every directory that opens is that of an open segment. -/
def Registered (l : SegmentList) (dirs : SegmentDirs) : Prop :=
  ∀ id dir, dirs.lookup id = some dir → SegmentReader.openDir dir ≠ none →
    ∃ e ∈ l.segments, e.segmentId = id

/-- Every directory that opens is whole: what a shard leaves, with or without a crash. -/
def Intact (dirs : SegmentDirs) : Prop :=
  ∀ id dir, dirs.lookup id = some dir → SegmentReader.openDir dir ≠ none →
    ∃ docs deletions, dir = SegmentDir.written docs deletions

namespace Synced

variable {l : SegmentList} {dirs : SegmentDirs}

theorem mem_dirs (h : Synced l dirs) {e : SegmentEntry} (he : e ∈ l.segments) :
    e.segmentId ∈ dirs := by
  obtain ⟨docs, -, deletions, -, hlook, -⟩ := h.onDisk e he
  exact mem_iff_lookup.mpr ⟨_, hlook⟩

theorem next_notMem (h : Synced l dirs) : (⟨l.nextSegmentSeq⟩ : SegmentId) ∉ dirs :=
  fun hmem => Nat.lt_irrefl _ (h.fresh _ hmem)

/-- Segments are found by their ids. -/
theorem find_eq (h : Synced l dirs) {e : SegmentEntry} (he : e ∈ l.segments) :
    l.segments.find? (fun s => s.segmentId = e.segmentId) = some e :=
  SegmentList.find?_segmentId h.nodup he

end Synced

/-! ## 1. Installing a segment -/

/-- The segment list once a new segment with these documents has taken the place of the old
ones. -/
def SegmentList.install (l : SegmentList) (oldIds : List SegmentId) (docs : List Document) :
    SegmentList :=
  SegmentList.replaceSegments { l with nextSegmentSeq := l.nextSegmentSeq + 1 } oldIds
    ⟨⟨l.nextSegmentSeq⟩, SegmentReader.ofDocs docs ∅⟩

/-- The directories once the new one has been written and the old ones removed. -/
def SegmentList.installDirs (l : SegmentList) (dirs : SegmentDirs) (oldIds : List SegmentId)
    (docs : List Document) : SegmentDirs :=
  eraseAll oldIds (dirs.insert ⟨l.nextSegmentSeq⟩ (SegmentDir.written docs none))

theorem SegmentList.segments_install (l : SegmentList) (oldIds : List SegmentId)
    (docs : List Document) : (l.install oldIds docs).segments
      = l.segments.filter (fun s => s.segmentId ∉ oldIds)
        ++ [⟨⟨l.nextSegmentSeq⟩, SegmentReader.ofDocs docs ∅⟩] := rfl

/-- Adding a segment is replacing none. -/
theorem SegmentList.addSegment_eq (l : SegmentList) (entry : SegmentEntry) :
    l.addSegment entry = l.replaceSegments [] entry := by
  have hmap : (fun docId => (l.docIdMap docId).filter (fun loc => loc.segmentId ∉ []))
      = l.docIdMap := by
    funext docId
    cases l.docIdMap docId <;> simp
  have hsegs : l.segments.filter (fun s => s.segmentId ∉ []) = l.segments := by simp
  rw [addSegment, replaceSegments, hmap, hsegs]

theorem SegmentList.lookup_installDirs (l : SegmentList) (dirs : SegmentDirs)
    (oldIds : List SegmentId) (docs : List Document) (id : SegmentId) :
    (l.installDirs dirs oldIds docs).lookup id
      = if id ∈ oldIds then none
        else if id = ⟨l.nextSegmentSeq⟩ then some (SegmentDir.written docs none)
        else dirs.lookup id := by
  rw [installDirs, lookup_eraseAll]
  by_cases hid : id = ⟨l.nextSegmentSeq⟩
  · rw [if_pos hid, hid, AList.lookup_insert]
  · rw [if_neg hid, AList.lookup_insert_ne hid]

variable {l : SegmentList} {dirs : SegmentDirs}

/-- The directories that were there and are not replaced, and the new one. -/
theorem SegmentList.mem_installDirs {oldIds : List SegmentId} {docs : List Document}
    {id : SegmentId} (h : id ∈ l.installDirs dirs oldIds docs) :
    id ∉ oldIds ∧ (id = ⟨l.nextSegmentSeq⟩ ∨ id ∈ dirs) := by
  obtain ⟨dir, hdir⟩ := mem_iff_lookup.mp h
  rw [lookup_installDirs] at hdir
  split at hdir
  · cases hdir
  · next hold =>
    refine ⟨hold, ?_⟩
    split at hdir
    · next hnew => exact Or.inl hnew
    · exact Or.inr (mem_iff_lookup.mpr ⟨dir, hdir⟩)

/-- **Installing a segment** in place of segments that have directories. -/
theorem Synced.install (h : Synced l dirs) {oldIds : List SegmentId}
    (hold : ∀ id ∈ oldIds, id ∈ dirs) (docs : List Document) :
    Synced (l.install oldIds docs) (l.installDirs dirs oldIds docs) where
  nodup := by
    rw [SegmentList.segments_install, List.map_append, List.nodup_append]
    refine ⟨h.nodup.sublist (List.filter_sublist.map _), List.nodup_singleton _, ?_⟩
    intro id hid id' hid'
    obtain ⟨e, he, rfl⟩ := List.mem_map.mp hid
    obtain rfl : id' = ⟨l.nextSegmentSeq⟩ := by simpa using hid'
    intro heq
    exact h.next_notMem (heq ▸ h.mem_dirs (List.mem_of_mem_filter he))
  fresh := by
    intro id hid
    show id.seq < l.nextSegmentSeq + 1
    rcases (SegmentList.mem_installDirs hid).2 with rfl | hmem
    · exact Nat.lt_succ_self _
    · exact (h.fresh id hmem).trans (Nat.lt_succ_self _)
  onDisk := by
    intro e he
    rw [SegmentList.segments_install] at he
    rcases List.mem_append.mp he with he | he
    · obtain ⟨hmem, hkeep⟩ := List.mem_filter.mp he
      obtain ⟨docs', deleted, deletions, hreader, hlook, hsub⟩ := h.onDisk e hmem
      have hne : e.segmentId ≠ ⟨l.nextSegmentSeq⟩ := fun heq =>
        h.next_notMem (heq ▸ h.mem_dirs hmem)
      refine ⟨docs', deleted, deletions, hreader, ?_, hsub⟩
      rw [SegmentList.lookup_installDirs, if_neg (by simpa using hkeep), if_neg hne, hlook]
    · obtain rfl := List.mem_singleton.mp he
      have hnot : (⟨l.nextSegmentSeq⟩ : SegmentId) ∉ oldIds := fun hmem =>
        h.next_notMem (hold _ hmem)
      refine ⟨docs, ∅, none, rfl, ?_, Finset.empty_subset _⟩
      rw [SegmentList.lookup_installDirs, if_neg hnot, if_pos rfl]
  sound := by
    have hretain := h.sound.retain oldIds
    exact hretain.insertDocs ⟨⟨l.nextSegmentSeq⟩, SegmentReader.ofDocs docs ∅⟩

theorem Registered.install (hreg : Registered l dirs) (oldIds : List SegmentId)
    (docs : List Document) :
    Registered (l.install oldIds docs) (l.installDirs dirs oldIds docs) := by
  intro id dir hlook hopen
  rw [SegmentList.lookup_installDirs] at hlook
  split at hlook
  · cases hlook
  · next hnot =>
    split at hlook
    · next hnew => exact ⟨_, List.mem_append_right _ List.mem_cons_self, hnew.symm⟩
    · obtain ⟨e, he, rfl⟩ := hreg id dir hlook hopen
      exact ⟨e, List.mem_append_left _ (List.mem_filter.mpr ⟨he, by simpa using hnot⟩), rfl⟩

theorem Intact.install (h : Intact dirs) (l : SegmentList) (oldIds : List SegmentId)
    (docs : List Document) : Intact (l.installDirs dirs oldIds docs) := by
  intro id dir hlook hopen
  rw [SegmentList.lookup_installDirs] at hlook
  split at hlook
  · cases hlook
  · split at hlook
    · rw [Option.some.injEq] at hlook
      exact ⟨docs, none, hlook.symm⟩
    · exact h id dir hlook hopen

/-! ## 2. Marking a document deleted -/

/-- What `mark_deleted` does when the id is known: the bit of a document with that id is added
on disk, and the id is forgotten.  When it is not known, nothing. -/
theorem Synced.markDeleted_cases (h : Synced l dirs) (docId : DocId) :
    (l.docIdMap docId = none ∧ l.markDeleted dirs docId = (.ok false, l, dirs)) ∨
    ∃ e ∈ l.segments, ∃ docs deletions localDocId doc,
      dirs.lookup e.segmentId = some (SegmentDir.written docs deletions) ∧
      docs[localDocId]? = some doc ∧ doc.id = docId ∧
      l.markDeleted dirs docId = (.ok true,
        { l with docIdMap := Function.update l.docIdMap docId none },
        dirs.insert e.segmentId
          (SegmentDir.written docs (some (insert localDocId (deletions.getD ∅))))) := by
  unfold SegmentList.markDeleted
  cases hloc : l.docIdMap docId with
  | none => exact Or.inl ⟨rfl, rfl⟩
  | some loc =>
    obtain ⟨e, he, hseg, doc, hdoc, hid⟩ := h.sound docId loc hloc
    obtain ⟨docs, deleted, deletions, hreader, hlook, -⟩ := h.onDisk e he
    rw [hreader, SegmentReader.getDoc_ofDocs] at hdoc
    split at hdoc
    · cases hdoc
    · refine Or.inr ⟨e, he, docs, deletions, loc.localDocId, doc, hlook, hdoc, hid, ?_⟩
      simp only [← hseg, h.find_eq he, hlook, Option.bind_eq_bind, Option.bind_some,
        markDeleted_written]

/-- One more bit on disk: the open segments are still those of the directory. -/
theorem SegmentEntry.OnDisk.insert {e : SegmentEntry} (h : e.OnDisk dirs) {id : SegmentId}
    {docs : List Document} {deletions : Option Bitmap}
    (hlook : dirs.lookup id = some (SegmentDir.written docs deletions)) (i : LocalDocId) :
    e.OnDisk (dirs.insert id (SegmentDir.written docs (some (insert i (deletions.getD ∅))))) := by
  obtain ⟨docs', deleted, deletions', hreader, hlook', hsub⟩ := h
  by_cases hid : e.segmentId = id
  · subst hid
    rw [hlook, Option.some.injEq] at hlook'
    obtain ⟨rfl, hdel⟩ := written_inj hlook'
    refine ⟨docs, deleted, _, hreader, AList.lookup_insert dirs, ?_⟩
    rw [Option.getD_some, hdel]
    exact hsub.trans (Finset.subset_insert _ _)
  · refine ⟨docs', deleted, deletions', hreader, ?_, hsub⟩
    rw [AList.lookup_insert_ne hid, hlook']

/-- Forgetting an id keeps the map sound. -/
theorem DocIdMap.Sound.forget {m : DocIdMap} {segments : List SegmentEntry}
    (h : m.Sound segments) (docId : DocId) :
    DocIdMap.Sound (Function.update m docId none) segments := by
  intro docId' loc hloc
  have hne : docId' ≠ docId := by
    rintro rfl
    rw [Function.update_self] at hloc
    cases hloc
  rw [Function.update_of_ne hne] at hloc
  exact h docId' loc hloc

/-- **Marking a document deleted succeeds.** -/
theorem Synced.markDeleted_ok (h : Synced l dirs) (docId : DocId) :
    ∃ found, (l.markDeleted dirs docId).1 = .ok found := by
  rcases h.markDeleted_cases docId with
    ⟨-, heq⟩ | ⟨e, he, docs, deletions, localDocId, -, -, -, -, heq⟩
  · exact ⟨false, by rw [heq]⟩
  · exact ⟨true, by rw [heq]⟩

/-- It leaves the open segments as they are. -/
theorem Synced.segments_markDeleted (h : Synced l dirs) (docId : DocId) :
    (l.markDeleted dirs docId).2.1.segments = l.segments := by
  rcases h.markDeleted_cases docId with
    ⟨-, heq⟩ | ⟨e, he, docs, deletions, localDocId, -, -, -, -, heq⟩
  · rw [heq]
  · rw [heq]

/-- It keeps the list in step with the directory. -/
theorem Synced.markDeleted (h : Synced l dirs) (docId : DocId) :
    Synced (l.markDeleted dirs docId).2.1 (l.markDeleted dirs docId).2.2 := by
  rcases h.markDeleted_cases docId with
    ⟨-, heq⟩ | ⟨e, he, docs, deletions, localDocId, -, hlook, -, -, heq⟩
  · rw [heq]
    exact h
  · rw [heq]
    refine ⟨h.nodup, ?_, fun e' he' => (h.onDisk e' he').insert hlook localDocId,
      h.sound.forget docId⟩
    intro id hid
    rcases (AList.mem_insert dirs).mp hid with rfl | hmem
    · exact h.fresh _ (h.mem_dirs he)
    · exact h.fresh id hmem

/-- The map forgets the id, whether it knew it or not. -/
theorem Synced.docIdMap_markDeleted (h : Synced l dirs) (docId : DocId) :
    (l.markDeleted dirs docId).2.1.docIdMap = Function.update l.docIdMap docId none := by
  rcases h.markDeleted_cases docId with ⟨hmap, heq⟩ | ⟨e, he, docs, deletions, i, -, -, -, -, heq⟩
  · rw [heq, ← hmap, Function.update_eq_self]
  · rw [heq]

theorem Intact.markDeleted (h : Synced l dirs) (hintact : Intact dirs) (docId : DocId) :
    Intact (l.markDeleted dirs docId).2.2 := by
  rcases h.markDeleted_cases docId with
    ⟨-, heq⟩ | ⟨e, he, docs, deletions, localDocId, -, -, -, -, heq⟩
  · rw [heq]
    exact hintact
  · rw [heq]
    intro id dir hlook hopen
    by_cases hid : id = e.segmentId
    · rw [hid, AList.lookup_insert, Option.some.injEq] at hlook
      exact ⟨docs, _, hlook.symm⟩
    · rw [AList.lookup_insert_ne hid] at hlook
      exact hintact id dir hlook hopen

/-- Marking a document deleted makes no directory and forgets none. -/
theorem Registered.markDeleted (hreg : Registered l dirs) (h : Synced l dirs) (docId : DocId) :
    Registered (l.markDeleted dirs docId).2.1 (l.markDeleted dirs docId).2.2 := by
  rcases h.markDeleted_cases docId with ⟨-, heq⟩ | ⟨e, he, docs, deletions, i, -, -, -, -, heq⟩
  · rw [heq]
    exact hreg
  · rw [heq]
    intro id dir hlook hopen
    by_cases hid : id = e.segmentId
    · exact ⟨e, he, hid.symm⟩
    · rw [AList.lookup_insert_ne hid] at hlook
      exact hreg id dir hlook hopen

/-! ## 3. Opening a directory -/

theorem Intact.synced (h : Intact dirs) : Synced (SegmentList.openDirs dirs) dirs where
  nodup := SegmentList.nodup_openDirs dirs
  fresh := fun _ hid => SegmentList.lt_nextSegmentSeq_openDirs hid
  onDisk := by
    intro e he
    obtain ⟨dir, hlook, hopen⟩ := SegmentList.mem_segments_openDirs.mp he
    obtain ⟨docs, deletions, rfl⟩ := h _ dir hlook (by rw [hopen]; simp)
    rw [openDir_written, Option.some.injEq] at hopen
    exact ⟨docs, deletions.getD ∅, deletions, hopen.symm, hlook, Finset.Subset.refl _⟩
  sound := SegmentList.sound_openDirs dirs

theorem Registered.openDirs (dirs : SegmentDirs) :
    Registered (SegmentList.openDirs dirs) dirs := by
  intro id dir hlook hopen
  obtain ⟨reader, hreader⟩ := Option.ne_none_iff_exists'.mp hopen
  exact ⟨⟨id, reader⟩, SegmentList.mem_segments_openDirs.mpr ⟨dir, hlook, hreader⟩, rfl⟩

end ZearchEngine
