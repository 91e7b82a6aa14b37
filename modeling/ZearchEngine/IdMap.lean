/-
# The map of document ids

`SegmentList` keeps `doc_id_map` by hand: `open` builds it, `add_segment` and `replace_segments`
overwrite entries, `replace_segments` drops the entries that lead into the replaced segments,
and `mark_deleted` drops one.  Every entry leads to a document with its id, in a segment that is
in the list once (`id_map_never_dangles`).

The map remembers one place for an id, the newest.  When the segment there is replaced by one
without the id, the id is gone, even if an older segment of the list still has a document with it
(`not_only_replaced`).  The callers replace segments by one that has all their documents.
-/
import ZearchEngine.Sync
import ZearchEngine.Lib.LabelledRun

namespace ZearchEngine

/-- A call on the segment list.  A new segment is written under the next id; `mark_deleted`
finds the directories as `dirs`. -/
inductive ListCall where
  | add (docs : List Document)
  | replace (oldIds : List SegmentId) (docs : List Document)
  | markDeleted (dirs : SegmentDirs) (docId : DocId)

/-- The call adds a segment with a document of this id. -/
def ListCall.Brings (docId : DocId) : ListCall → Prop
  | .add docs | .replace _ docs => docId ∈ docs.map Document.id
  | .markDeleted _ _ => False

namespace SegmentList

/-- The list after a call. -/
def call (l : SegmentList) : ListCall → SegmentList
  | .add docs =>
    let (segId, l') := l.nextSegmentId
    l'.addSegment ⟨segId, SegmentReader.ofDocs docs ∅⟩
  | .replace oldIds docs =>
    let (segId, l') := l.nextSegmentId
    l'.replaceSegments oldIds ⟨segId, SegmentReader.ofDocs docs ∅⟩
  | .markDeleted dirs docId => (l.markDeleted dirs docId).2.1

/-- The list after some calls on the one that a directory opens as. -/
abbrev afterCalls (dirs : SegmentDirs) (calls : List ListCall) : SegmentList :=
  LabelledRun.run call (openDirs dirs) calls

/-! ## 1. The invariant -/

/-- Ids of segments are unique and below the next one, and entries lead where they say. -/
structure Mapped (l : SegmentList) : Prop where
  nodup : (l.segments.map SegmentEntry.segmentId).Nodup
  bounded : ∀ e ∈ l.segments, e.segmentId.seq < l.nextSegmentSeq
  sound : l.docIdMap.Sound l.segments

theorem mapped_openDirs (dirs : SegmentDirs) : (openDirs dirs).Mapped where
  nodup := nodup_openDirs dirs
  bounded := by
    intro e he
    obtain ⟨dir, hlook, -⟩ := mem_segments_openDirs.mp he
    exact lt_nextSegmentSeq_openDirs (KeyedStore.mem_iff_lookup.mpr ⟨dir, hlook⟩)
  sound := sound_openDirs dirs

variable {l : SegmentList}

theorem Mapped.install (h : l.Mapped) (oldIds : List SegmentId) (docs : List Document) :
    (l.install oldIds docs).Mapped where
  nodup := by
    rw [segments_install, List.map_append, List.nodup_append]
    refine ⟨h.nodup.sublist (List.filter_sublist.map _), List.nodup_singleton _, ?_⟩
    rintro id hid id' hid' rfl
    obtain ⟨e, he, rfl⟩ := List.mem_map.mp hid
    have hnew : e.segmentId = ⟨l.nextSegmentSeq⟩ := by simpa using hid'
    have hlt := h.bounded e (List.mem_of_mem_filter he)
    rw [hnew] at hlt
    exact Nat.lt_irrefl _ hlt
  bounded := by
    intro e he
    show e.segmentId.seq < l.nextSegmentSeq + 1
    rw [segments_install] at he
    rcases List.mem_append.mp he with he | he
    · exact (h.bounded e (List.mem_of_mem_filter he)).trans (Nat.lt_succ_self _)
    · rw [List.mem_singleton.mp he]
      exact Nat.lt_succ_self _
  sound := (h.sound.retain oldIds).insertDocs ⟨⟨l.nextSegmentSeq⟩, SegmentReader.ofDocs docs ∅⟩

/-- Marking deleted leaves everything as it is, or forgets the id. -/
theorem markDeleted_cases (l : SegmentList) (dirs : SegmentDirs) (docId : DocId) :
    (l.markDeleted dirs docId).2.1 = l ∨
    ((l.markDeleted dirs docId).1 = .ok true ∧ (l.markDeleted dirs docId).2.1
      = { l with docIdMap := Function.update l.docIdMap docId none }) := by
  unfold markDeleted
  split
  · exact Or.inl rfl
  · split
    · exact Or.inl rfl
    · split
      · exact Or.inl rfl
      · exact Or.inr ⟨rfl, rfl⟩

theorem call_add (l : SegmentList) (docs : List Document) :
    l.call (.add docs) = l.install [] docs := addSegment_eq _ _

theorem call_markDeleted (l : SegmentList) (dirs : SegmentDirs) (docId : DocId) :
    l.call (.markDeleted dirs docId) = (l.markDeleted dirs docId).2.1 := rfl

/-- **Every call keeps the invariant.** -/
theorem Mapped.call (h : l.Mapped) (c : ListCall) : (l.call c).Mapped := by
  cases c with
  | add docs =>
    rw [call_add]
    exact h.install [] docs
  | replace oldIds docs => exact h.install oldIds docs
  | markDeleted dirs docId =>
    rw [call_markDeleted]
    rcases markDeleted_cases l dirs docId with heq | ⟨-, heq⟩
    · rw [heq]
      exact h
    · rw [heq]
      exact ⟨h.nodup, h.bounded, h.sound.forget docId⟩

theorem mapped_afterCalls (dirs : SegmentDirs) (calls : List ListCall) :
    (afterCalls dirs calls).Mapped :=
  LabelledRun.run_inv (fun _ c h => h.call c) calls _ (mapped_openDirs dirs)

/-- What an entry leads to is what `get_doc` returns. -/
theorem Mapped.getDoc_eq (h : l.Mapped) {docId : DocId} {loc : DocLocation}
    (hloc : l.docIdMap docId = some loc) :
    ∃ doc, l.getDoc docId = some doc ∧ doc.id = docId := by
  obtain ⟨e, he, hseg, doc, hget, hid⟩ := h.sound docId loc hloc
  refine ⟨doc, ?_, hid⟩
  have hfind := find?_segmentId h.nodup he
  rw [hseg] at hfind
  simp [getDoc, hloc, hfind, hget]

/-! ## 2. Ids without an entry -/

/-- The call takes the id out of the map: it deletes a document with it, or replaces the segment
the entry leads into by one without the id. -/
def Loses (l : SegmentList) (docId : DocId) : ListCall → Prop
  | .add _ => False
  | .replace oldIds docs =>
    docId ∉ docs.map Document.id ∧ ∃ loc, l.docIdMap docId = some loc ∧ loc.segmentId ∈ oldIds
  | .markDeleted dirs docId' => docId' = docId ∧ (l.markDeleted dirs docId').1 = .ok true

/-- No document with this id was ever in the list. -/
def NeverAdded (dirs : SegmentDirs) (calls : List ListCall) (docId : DocId) : Prop :=
  (∀ doc ∈ (openDirs dirs).liveDocuments, doc.id ≠ docId) ∧ ∀ c ∈ calls, ¬ c.Brings docId

/-- The id was lost by a call, and no later one has brought it back. -/
def Lost (dirs : SegmentDirs) (calls : List ListCall) (docId : DocId) : Prop :=
  ∃ before c after, calls = before ++ c :: after ∧ (afterCalls dirs before).Loses docId c ∧
    ∀ c' ∈ after, ¬ c'.Brings docId

theorem docIdMap_install_eq_none {oldIds : List SegmentId} {docs : List Document} {docId : DocId}
    (h : (l.install oldIds docs).docIdMap docId = none) :
    docId ∉ docs.map Document.id ∧
      ∀ loc, l.docIdMap docId = some loc → loc.segmentId ∈ oldIds := by
  obtain ⟨hretained, hdocs⟩ := DocIdMap.insertDocs_eq_none h
  rw [SegmentReader.liveDocuments_ofDocs_empty] at hdocs
  refine ⟨?_, fun loc hloc => ?_⟩
  · rintro hmem
    obtain ⟨doc, hdoc, hid⟩ := List.mem_map.mp hmem
    exact hdocs doc hdoc hid
  · by_contra hnot
    have hloc' : l.docIdMap docId = some loc := hloc
    simp [hloc', hnot] at hretained

/-- **An id without an entry after a call** had none before, or the call loses it. -/
theorem docIdMap_call_eq_none {c : ListCall} {docId : DocId}
    (h : (l.call c).docIdMap docId = none) :
    ¬ c.Brings docId ∧ (l.docIdMap docId = none ∨ l.Loses docId c) := by
  cases c with
  | add docs =>
    rw [call_add] at h
    obtain ⟨hnot, hold⟩ := docIdMap_install_eq_none h
    refine ⟨hnot, Or.inl ?_⟩
    by_contra hsome
    obtain ⟨loc, hloc⟩ := Option.ne_none_iff_exists'.mp hsome
    exact List.not_mem_nil (hold loc hloc)
  | replace oldIds docs =>
    obtain ⟨hnot, hold⟩ := docIdMap_install_eq_none h
    refine ⟨hnot, ?_⟩
    cases hloc : l.docIdMap docId with
    | none => exact Or.inl rfl
    | some loc => exact Or.inr ⟨hnot, loc, hloc, hold loc hloc⟩
  | markDeleted dirs docId' =>
    rw [call_markDeleted] at h
    refine ⟨id, ?_⟩
    rcases markDeleted_cases l dirs docId' with heq | ⟨hok, heq⟩
    · rw [heq] at h
      exact Or.inl h
    · rw [heq] at h
      by_cases hid : docId' = docId
      · exact Or.inr ⟨hid, hok⟩
      · have hupdate : Function.update l.docIdMap docId' none docId = none := h
        rw [Function.update_of_ne (Ne.symm hid)] at hupdate
        exact Or.inl hupdate

/-- **An id without an entry** was never added, or was lost. -/
theorem neverAdded_or_lost {dirs : SegmentDirs} {calls : List ListCall} {docId : DocId}
    (h : (afterCalls dirs calls).docIdMap docId = none) :
    NeverAdded dirs calls docId ∨ Lost dirs calls docId := by
  induction calls using List.reverseRecOn with
  | nil =>
    refine Or.inl ⟨fun doc hdoc hid => ?_, fun c hc => absurd hc List.not_mem_nil⟩
    obtain ⟨e, he, hlive⟩ := List.mem_flatMap.mp hdoc
    exact complete_openDirs dirs e he doc hlive (hid ▸ h)
  | append_singleton calls c ih =>
    rw [afterCalls, LabelledRun.run_append] at h
    obtain ⟨hbrings, hbefore | hloses⟩ := docIdMap_call_eq_none h
    · rcases ih hbefore with ⟨hopened, hcalls⟩ | ⟨before, c', after, rfl, hloses, hafter⟩
      · refine Or.inl ⟨hopened, fun c' hc' => ?_⟩
        rcases List.mem_append.mp hc' with hc' | hc'
        · exact hcalls c' hc'
        · rwa [List.mem_singleton.mp hc']
      · refine Or.inr ⟨before, c', after ++ [c], by simp, hloses, fun c'' hc'' => ?_⟩
        rcases List.mem_append.mp hc'' with hc'' | hc''
        · exact hafter c'' hc''
        · rwa [List.mem_singleton.mp hc'']
    · exact Or.inr ⟨calls, c, [], rfl, hloses, fun c' hc' => absurd hc' List.not_mem_nil⟩

/-- **The map never dangles.**  After any calls, every entry leads into a segment that is in the
list exactly once, to a document with that id; what `get_doc` returns has the id; and it returns
nothing only for an id that was never added or was lost: its document was deleted, or the segment
its entry led into was replaced by one without it. -/
theorem id_map_never_dangles (dirs : SegmentDirs) (calls : List ListCall) :
    (∀ docId loc, (afterCalls dirs calls).docIdMap docId = some loc →
      ((afterCalls dirs calls).segments.map SegmentEntry.segmentId).count loc.segmentId = 1 ∧
      ∃ e ∈ (afterCalls dirs calls).segments, e.segmentId = loc.segmentId ∧
        ∃ doc, e.reader.getDoc loc.localDocId = some doc ∧ doc.id = docId) ∧
    (∀ docId doc, (afterCalls dirs calls).getDoc docId = some doc → doc.id = docId) ∧
    ∀ docId, (afterCalls dirs calls).getDoc docId = none →
      NeverAdded dirs calls docId ∨ Lost dirs calls docId := by
  have h := mapped_afterCalls dirs calls
  refine ⟨fun docId loc hloc => ?_, fun docId doc hget => ?_, fun docId hget => ?_⟩
  · obtain ⟨e, he, hseg, hdoc⟩ := h.sound docId loc hloc
    refine ⟨?_, e, he, hseg, hdoc⟩
    rw [← hseg]
    exact List.count_eq_one_of_mem h.nodup (List.mem_map_of_mem he)
  · cases hloc : (afterCalls dirs calls).docIdMap docId with
    | none => simp [getDoc, hloc] at hget
    | some loc =>
      obtain ⟨doc', hget', hid⟩ := h.getDoc_eq hloc
      rw [hget', Option.some.injEq] at hget
      rw [← hget, hid]
  · refine neverAdded_or_lost ?_
    by_contra hsome
    obtain ⟨loc, hloc⟩ := Option.ne_none_iff_exists'.mp hsome
    obtain ⟨doc, hget', -⟩ := h.getDoc_eq hloc
    rw [hget] at hget'
    cases hget'

/-! ## 3. An older segment with the id -/

/-- Two versions of a document, and the segment of the newer one replaced by an empty one. -/
def newerReplaced : List ListCall :=
  [.add [⟨1, "old", "", ⟨0⟩, "", .empty⟩], .add [⟨1, "new", "", ⟨0⟩, "", .empty⟩],
    .replace [⟨2⟩] []]

/-- **The older version is in the list, and `get_doc` does not return it**, although it was not
deleted and its segment not replaced. -/
theorem not_only_replaced :
    ¬ ∀ docId, (afterCalls ∅ newerReplaced).getDoc docId = none →
      NeverAdded ∅ newerReplaced docId ∨
      (∃ dirs, .markDeleted dirs docId ∈ newerReplaced) ∨
      ∀ e ∈ (afterCalls ∅ newerReplaced).segments, ∀ doc ∈ e.reader.liveDocuments,
        doc.id ≠ docId := by
  intro h
  rcases h 1 rfl with ⟨-, hnever⟩ | ⟨dirs, hdeleted⟩ | hreplaced
  · exact hnever _ List.mem_cons_self List.mem_cons_self
  · simp [newerReplaced] at hdeleted
  · exact hreplaced ⟨⟨1⟩, SegmentReader.ofDocs [⟨1, "old", "", ⟨0⟩, "", .empty⟩] ∅⟩
      List.mem_cons_self ⟨1, "old", "", ⟨0⟩, "", .empty⟩ List.mem_cons_self rfl

end SegmentList

end ZearchEngine
