/-
# Reopening the segment list

A shard keeps no record of its segments but their directories.  In memory the list is in the
order in which the segments were added, and `doc_id_map` is the work of all calls; after a restart
`SegmentList::open` finds the directories in the order of their names and builds the map anew
(`crates/shard/src/segment_list.rs`).

`History` is what the calls have done: the segments that were ever made, in order, and the ids of
those that were replaced.  Both lists hold the segments that were not.  The map in memory leads
to the newest segment that ever had the id, or nowhere if that one was replaced; the map built
anew leads to the newest one that is left.  So the two lists are the same if and only if the names
of the segments that are left ascend, and no segment that is left has an id whose newest segment
was replaced (`reopening_iff`).

The names ascend up to `seg-999999`, and merged segments have every id of those they replace
(`reopens_of_merges`).  But `seg-1000000` comes before `seg-999999`, so that after a million
flushes an old version of a document comes back (`not_reopens_million`).
-/
import ZearchEngine.IdMap
import ZearchEngine.SegmentName

namespace ZearchEngine

open KeyedStore

/-! ## 1. The list and the directory -/

/-- The first element with a value, if it is kept, and the first kept element with a value. -/
theorem findSome?_filter_eq_iff {α β : Type} {p : α → Bool} {q : β → Bool} {f : α → Option β}
    (hq : ∀ a b, f a = some b → q b = p a) (l : List α) :
    (l.findSome? f).filter q = (l.filter p).findSome? f ↔
      ∀ first, l.find? (fun a => (f a).isSome) = some first → p first = false →
        ∀ a ∈ l.filter p, f a = none := by
  induction l with
  | nil => simp
  | cons a l ih =>
    cases hf : f a with
    | none =>
      have hkept : ((a :: l).filter p).findSome? f = (l.filter p).findSome? f := by
        cases hp : p a <;> simp [hp, hf]
      rw [List.findSome?_cons, hf, hkept, List.find?_cons, hf]
      refine ih.trans (forall₃_congr (fun first _ _ => ?_))
      cases hp : p a <;> simp [hp, hf]
    | some b =>
      rw [List.findSome?_cons, hf, List.find?_cons, hf]
      cases hp : p a with
      | true => simp [hp, hf, Option.filter, hq a b hf]
      | false =>
        simp only [List.filter_cons, hp, Bool.false_eq_true, if_false, Option.filter_some,
          hq a b hf, Option.isSome_some, Option.some.injEq, forall_eq', true_implies]
        exact eq_comm.trans List.findSome?_eq_none_iff

/-- A call that makes a segment. -/
inductive SegmentCall where
  | add (docs : List Document)
  | replace (oldIds : List SegmentId) (docs : List Document)

/-- As a call on the list. -/
def SegmentCall.toListCall : SegmentCall → ListCall
  | .add docs => .add docs
  | .replace oldIds docs => .replace oldIds docs

/-- The segments a call replaces, if they are in the list. -/
def SegmentCall.oldIds : SegmentCall → List SegmentId
  | .add _ => []
  | .replace oldIds _ => oldIds

/-- The documents of the new segment. -/
def SegmentCall.docs : SegmentCall → List Document
  | .add docs | .replace _ docs => docs

/-- The list in memory and the directory below it. -/
structure ListOnDisk where
  list : SegmentList
  dirs : SegmentDirs

/-- A call: the new segment is written, and the directories of replaced segments are removed. -/
def ListOnDisk.call (s : ListOnDisk) (c : SegmentCall) : ListOnDisk where
  list := s.list.call c.toListCall
  dirs := eraseAll
    ((s.list.segments.map SegmentEntry.segmentId).filter (fun id => id ∈ c.oldIds))
    ((SegmentDirs.writeSegment s.list.nextSegmentId.1 c.docs).foldl SegmentDirs.apply s.dirs)

/-- What a directory opens as. -/
def ListOnDisk.opened (dirs : SegmentDirs) : ListOnDisk where
  list := SegmentList.openDirs dirs
  dirs := dirs

/-- After some calls on what a directory opens as. -/
abbrev ListOnDisk.afterCalls (dirs : SegmentDirs) (calls : List SegmentCall) : ListOnDisk :=
  LabelledRun.run ListOnDisk.call (ListOnDisk.opened dirs) calls

/-- Opening the directory yields the list in memory, and so the same documents. -/
def ListOnDisk.Reopens (s : ListOnDisk) : Prop :=
  (SegmentList.openDirs s.dirs).segments = s.list.segments ∧
  (SegmentList.openDirs s.dirs).docIdMap = s.list.docIdMap ∧
  ∀ docId, (SegmentList.openDirs s.dirs).getDoc docId = s.list.getDoc docId

/-! ## 2. The history of the calls -/

/-- The segment has a live document with this id. -/
def SegmentEntry.Holds (e : SegmentEntry) (docId : DocId) : Prop :=
  ∃ doc ∈ e.reader.liveDocuments, doc.id = docId

instance (e : SegmentEntry) (docId : DocId) : Decidable (e.Holds docId) :=
  inferInstanceAs (Decidable (∃ doc ∈ e.reader.liveDocuments, _))

/-- The segments that were ever made, in order, the ids of those that were replaced, and the
next number. -/
structure History where
  made : List SegmentEntry
  replaced : List SegmentId
  nextSeq : Nat

namespace History

/-- Before the first call. -/
def opened (dirs : SegmentDirs) : History where
  made := (SegmentList.openDirs dirs).segments
  replaced := []
  nextSeq := (SegmentList.openDirs dirs).nextSegmentSeq

/-- After one more call. -/
def call (h : History) (c : SegmentCall) : History where
  made := h.made ++ [⟨⟨h.nextSeq⟩, SegmentReader.ofDocs c.docs ∅⟩]
  replaced := h.replaced ++ c.oldIds.filter (fun id => id ∈ h.made.map SegmentEntry.segmentId)
  nextSeq := h.nextSeq + 1

/-- After some calls on the list that a directory opens as. -/
abbrev afterCalls (dirs : SegmentDirs) (calls : List SegmentCall) : History :=
  LabelledRun.run call (opened dirs) calls

/-- The segments that were not replaced. -/
def surviving (h : History) : List SegmentEntry :=
  h.made.filter (fun e => e.segmentId ∉ h.replaced)

/-- The newest segment that ever had a document with this id. -/
def newest (h : History) (docId : DocId) : Option SegmentEntry :=
  h.made.reverse.find? (fun e => e.Holds docId)

/-- The names of the segments that are left ascend. -/
def Ascends (h : History) : Prop :=
  h.surviving.Pairwise (fun a b => a.segmentId.nameLe b.segmentId)

/-- An id whose newest segment was replaced is in no segment that is left. -/
def NewestSurvives (h : History) : Prop :=
  ∀ docId newest, h.newest docId = some newest → newest.segmentId ∈ h.replaced →
    ∀ e ∈ h.surviving, ¬ e.Holds docId

end History

/-! ## 3. The map -/

/-- Where a segment has a document with this id. -/
def SegmentEntry.locate (e : SegmentEntry) (docId : DocId) : Option DocLocation :=
  DocIdMap.insertDocs (fun _ => none) e.segmentId e.reader docId

/-- The map of some segments, entered one after the other. -/
def DocIdMap.ofSegments (segments : List SegmentEntry) : DocIdMap :=
  segments.foldl (fun m e => m.insertDocs e.segmentId e.reader) (fun _ => none)

namespace DocIdMap

theorem insertLocal_apply (segmentId : SegmentId) (reader : SegmentReader) (m : DocIdMap)
    (i : LocalDocId) (docId : DocId) : insertLocal segmentId reader m i docId
      = if (reader.getDoc i).map Document.id = some docId then some ⟨segmentId, i⟩
        else m docId := by
  unfold insertLocal
  cases reader.getDoc i with
  | none => simp
  | some doc =>
    by_cases hid : doc.id = docId
    · simp [hid]
    · simp [hid, Function.update_of_ne (Ne.symm hid)]

theorem foldl_insertLocal_eq (segmentId : SegmentId) (reader : SegmentReader) (docId : DocId)
    (m : DocIdMap) (ids : List LocalDocId) :
    ids.foldl (insertLocal segmentId reader) m docId
      = (ids.foldl (insertLocal segmentId reader) (fun _ => none) docId).or (m docId) := by
  induction ids using List.reverseRecOn with
  | nil => simp
  | append_singleton ids i ih =>
    simp only [List.foldl_append, List.foldl_cons, List.foldl_nil, insertLocal_apply]
    split
    · rfl
    · exact ih

/-- An id that none of the local ids have is not entered. -/
theorem foldl_insertLocal_eq_none (segmentId : SegmentId) {reader : SegmentReader} {docId : DocId}
    {ids : List LocalDocId} (h : ∀ i ∈ ids, (reader.getDoc i).map Document.id ≠ some docId) :
    ids.foldl (insertLocal segmentId reader) (fun _ => none) docId = none := by
  induction ids using List.reverseRecOn with
  | nil => rfl
  | append_singleton ids i ih =>
    simp only [List.foldl_append, List.foldl_cons, List.foldl_nil, insertLocal_apply]
    rw [if_neg (h i (List.mem_append_right _ List.mem_cons_self))]
    exact ih (fun j hj => h j (List.mem_append_left _ hj))

/-- **A segment that has the id decides**, otherwise the entry stays as it is. -/
theorem insertDocs_eq (m : DocIdMap) (e : SegmentEntry) (docId : DocId) :
    m.insertDocs e.segmentId e.reader docId = (e.locate docId).or (m docId) :=
  foldl_insertLocal_eq e.segmentId e.reader docId m _

theorem ofSegments_eq (segments : List SegmentEntry) (docId : DocId) :
    ofSegments segments docId = segments.reverse.findSome? (fun e => e.locate docId) := by
  induction segments using List.reverseRecOn with
  | nil => rfl
  | append_singleton segments e ih =>
    unfold ofSegments at ih ⊢
    rw [List.foldl_append, List.foldl_cons, List.foldl_nil, insertDocs_eq, ih,
      List.reverse_append, List.reverse_singleton, List.singleton_append, List.findSome?_cons]
    cases e.locate docId <;> rfl

end DocIdMap

theorem SegmentEntry.segmentId_locate {e : SegmentEntry} {docId : DocId} {loc : DocLocation}
    (h : e.locate docId = some loc) : loc.segmentId = e.segmentId := by
  rcases DocIdMap.insertDocs_eq_some h with hnone | ⟨hseg, -⟩
  · cases hnone
  · exact hseg

/-- A segment locates what it has. -/
theorem SegmentEntry.isSome_locate (e : SegmentEntry) (docId : DocId) :
    (e.locate docId).isSome = decide (e.Holds docId) := by
  by_cases hholds : e.Holds docId
  · rw [decide_eq_true hholds, Option.isSome_iff_ne_none]
    obtain ⟨doc, hdoc, hid⟩ := hholds
    exact fun hnone => (DocIdMap.insertDocs_eq_none hnone).2 doc hdoc hid
  · rw [decide_eq_false hholds]
    have hnone : e.locate docId = none := by
      refine DocIdMap.foldl_insertLocal_eq_none e.segmentId (fun i hi hget => hholds ?_)
      obtain ⟨doc, hdoc, hid⟩ := Option.map_eq_some_iff.mp hget
      exact ⟨doc, List.mem_filterMap.mpr ⟨i, hi, hdoc⟩, hid⟩
    rw [hnone]
    rfl

/-- **Opening a directory builds the map of its segments.** -/
theorem SegmentList.docIdMap_openDirs (dirs : SegmentDirs) :
    (openDirs dirs).docIdMap = DocIdMap.ofSegments (openDirs dirs).segments := by
  unfold openDirs
  generalize sortedDirs dirs = sorted
  induction sorted using List.reverseRecOn with
  | nil => rfl
  | append_singleton sorted dir ih =>
    rw [List.foldl_append, List.foldl_cons, List.foldl_nil]
    generalize sorted.foldl openOne ([], fun _ => none, 0) = acc at ih
    obtain ⟨segments, docIdMap, maxSeq⟩ := acc
    have hmap : docIdMap = DocIdMap.ofSegments segments := ih
    unfold openOne
    cases SegmentReader.openDir dir.2 with
    | none => exact hmap
    | some reader =>
      unfold DocIdMap.ofSegments at hmap ⊢
      simp only [List.foldl_append, List.foldl_cons, List.foldl_nil, hmap]

/-- It opens them in the order of their names. -/
theorem SegmentList.pairwise_openDirs (dirs : SegmentDirs) :
    (openDirs dirs).segments.Pairwise (fun a b => a.segmentId.nameLe b.segmentId) := by
  have htotal : Std.Total (fun a b : Sigma fun _ : SegmentId => SegmentDir => a.1.nameLe b.1) :=
    ⟨fun a b => SegmentId.nameLe_total a.1 b.1⟩
  have htrans : IsTrans (Sigma fun _ : SegmentId => SegmentDir) (fun a b => a.1.nameLe b.1) :=
    ⟨fun _ _ _ => SegmentId.nameLe_trans⟩
  have hsorted : (sortedDirs dirs).Pairwise (fun a b => a.1.nameLe b.1) :=
    List.pairwise_insertionSort _ _
  rw [segments_openDirs, List.pairwise_filterMap]
  refine hsorted.imp (fun {a b} hab e he e' he' => ?_)
  obtain ⟨reader, -, rfl⟩ := Option.map_eq_some_iff.mp he
  obtain ⟨reader', -, rfl⟩ := Option.map_eq_some_iff.mp he'
  exact hab

/-! ## 4. The list in step with its history -/

/-- The list in memory is what is left of the history, and so is the directory. -/
structure History.Records (h : History) (s : ListOnDisk) : Prop where
  mapped : s.list.Mapped
  nextSeq : s.list.nextSegmentSeq = h.nextSeq
  bounded : ∀ e ∈ h.made, e.segmentId.seq < h.nextSeq
  replaced : ∀ id ∈ h.replaced, id.seq < h.nextSeq
  segments : s.list.segments = h.surviving
  docIdMap : ∀ docId, s.list.docIdMap docId
    = (DocIdMap.ofSegments h.made docId).filter (fun loc => loc.segmentId ∉ h.replaced)
  fresh : ∀ id ∈ s.dirs, id.seq < s.list.nextSegmentSeq
  opens : ∀ e, e ∈ s.list.segments ↔
    ∃ dir, s.dirs.lookup e.segmentId = some dir ∧ SegmentReader.openDir dir = some e.reader

namespace History

theorem records_opened (dirs : SegmentDirs) : (opened dirs).Records (ListOnDisk.opened dirs) where
  mapped := SegmentList.mapped_openDirs dirs
  nextSeq := rfl
  bounded := (SegmentList.mapped_openDirs dirs).bounded
  replaced := fun _ hid => absurd hid List.not_mem_nil
  segments := by simp [surviving, opened, ListOnDisk.opened]
  docIdMap := by
    intro docId
    have hmap := congrFun (SegmentList.docIdMap_openDirs dirs) docId
    have hfilter : ∀ loc : Option DocLocation, loc.filter (fun loc => loc.segmentId ∉
        (opened dirs).replaced) = loc := by
      intro loc
      cases loc <;> simp [opened]
    rw [hfilter]
    exact hmap
  fresh := fun _ hid => SegmentList.lt_nextSegmentSeq_openDirs hid
  opens := fun _ => SegmentList.mem_segments_openDirs

variable {h : History} {s : ListOnDisk}

/-- The next segment is not among those that were made. -/
theorem Records.next_notMem (hr : h.Records s) :
    (⟨h.nextSeq⟩ : SegmentId) ∉ h.made.map SegmentEntry.segmentId := by
  intro hmem
  obtain ⟨e, he, heq⟩ := List.mem_map.mp hmem
  have hlt := hr.bounded e he
  rw [heq] at hlt
  exact Nat.lt_irrefl _ hlt

/-- It is in the list neither. -/
theorem Records.next_not_listed (hr : h.Records s) :
    (⟨h.nextSeq⟩ : SegmentId) ∉ s.list.segments.map SegmentEntry.segmentId := by
  intro hmem
  obtain ⟨e, he, heq⟩ := List.mem_map.mp hmem
  have hlt := hr.mapped.bounded e he
  rw [heq, hr.nextSeq] at hlt
  exact Nat.lt_irrefl _ hlt

theorem list_call (s : ListOnDisk) (c : SegmentCall) :
    (s.call c).list = s.list.install c.oldIds c.docs := by
  cases c with
  | add docs => exact SegmentList.call_add s.list docs
  | replace oldIds docs => rfl

/-- The ids that a call puts among the replaced ones. -/
theorem mem_replaced_call {c : SegmentCall} {id : SegmentId} : id ∈ (h.call c).replaced ↔
    id ∈ h.replaced ∨ id ∈ c.oldIds ∧ id ∈ h.made.map SegmentEntry.segmentId := by
  simp [call]

theorem Records.next_not_replaced (hr : h.Records s) (c : SegmentCall) :
    (⟨h.nextSeq⟩ : SegmentId) ∉ (h.call c).replaced := by
  rw [mem_replaced_call]
  rintro (hmem | ⟨-, hmade⟩)
  · exact Nat.lt_irrefl _ (hr.replaced _ hmem)
  · exact hr.next_notMem hmade

/-- The directories after a call. -/
theorem Records.lookup_call (hr : h.Records s) (c : SegmentCall) (id : SegmentId) :
    (s.call c).dirs.lookup id
      = if id ∈ c.oldIds ∧ id ∈ s.list.segments.map SegmentEntry.segmentId then none
        else if id = ⟨h.nextSeq⟩ then some (SegmentDir.written c.docs none)
        else s.dirs.lookup id := by
  have hnew : (⟨s.list.nextSegmentSeq⟩ : SegmentId) ∉ s.dirs := fun hmem =>
    Nat.lt_irrefl _ (hr.fresh _ hmem)
  have hdirs : (s.call c).dirs = s.list.installDirs s.dirs
      ((s.list.segments.map SegmentEntry.segmentId).filter (fun id => id ∈ c.oldIds)) c.docs := by
    unfold ListOnDisk.call
    rw [SegmentList.nextSegmentId, SegmentDirs.foldl_writeSegment hnew]
    rfl
  rw [hdirs, SegmentList.lookup_installDirs, hr.nextSeq]
  simp only [List.mem_filter, decide_eq_true_iff, and_comm]

theorem Records.segments_call (hr : h.Records s) (c : SegmentCall) :
    (s.call c).list.segments = (h.call c).surviving := by
  have hkept : s.list.segments.filter (fun e => e.segmentId ∉ c.oldIds)
      = h.made.filter (fun e => e.segmentId ∉ (h.call c).replaced) := by
    rw [hr.segments, surviving, List.filter_filter]
    refine List.filter_congr (fun e he => ?_)
    have hmade : e.segmentId ∈ h.made.map SegmentEntry.segmentId := List.mem_map_of_mem he
    simp only [mem_replaced_call, hmade, and_true, not_or, Bool.decide_and, Bool.and_comm]
  have hsurviving : (h.call c).surviving
      = h.made.filter (fun e => e.segmentId ∉ (h.call c).replaced)
        ++ [⟨⟨h.nextSeq⟩, SegmentReader.ofDocs c.docs ∅⟩] := by
    have hmade : (h.call c).made = h.made ++ [⟨⟨h.nextSeq⟩, SegmentReader.ofDocs c.docs ∅⟩] := rfl
    rw [surviving, hmade, List.filter_append]
    simp [hr.next_not_replaced c]
  rw [list_call, SegmentList.segments_install, hkept, hsurviving, hr.nextSeq]

/-- An entry of the history's map leads into a segment that was made. -/
theorem segmentId_mem_made {docId : DocId} {loc : DocLocation}
    (hloc : DocIdMap.ofSegments h.made docId = some loc) :
    loc.segmentId ∈ h.made.map SegmentEntry.segmentId := by
  rw [DocIdMap.ofSegments_eq] at hloc
  obtain ⟨e, he, hlocate⟩ := List.exists_of_findSome?_eq_some hloc
  rw [SegmentEntry.segmentId_locate hlocate]
  exact List.mem_map_of_mem (List.mem_reverse.mp he)

theorem Records.docIdMap_call (hr : h.Records s) (c : SegmentCall) (docId : DocId) :
    (s.call c).list.docIdMap docId = (DocIdMap.ofSegments (h.call c).made docId).filter
      (fun loc => loc.segmentId ∉ (h.call c).replaced) := by
  have hmade : DocIdMap.ofSegments (h.call c).made = DocIdMap.insertDocs
      (DocIdMap.ofSegments h.made) ⟨h.nextSeq⟩ (SegmentReader.ofDocs c.docs ∅) := by
    simp only [DocIdMap.ofSegments, call, List.foldl_append, List.foldl_cons, List.foldl_nil]
  have hlist : (s.call c).list.docIdMap = DocIdMap.insertDocs
      (fun docId => (s.list.docIdMap docId).filter (fun loc => loc.segmentId ∉ c.oldIds))
      ⟨h.nextSeq⟩ (SegmentReader.ofDocs c.docs ∅) := by
    rw [list_call, ← hr.nextSeq]
    rfl
  rw [hmade, hlist, DocIdMap.insertDocs_eq _ ⟨⟨h.nextSeq⟩, SegmentReader.ofDocs c.docs ∅⟩,
    DocIdMap.insertDocs_eq _ ⟨⟨h.nextSeq⟩, SegmentReader.ofDocs c.docs ∅⟩]
  cases hlocate : SegmentEntry.locate ⟨⟨h.nextSeq⟩, SegmentReader.ofDocs c.docs ∅⟩ docId with
  | some loc =>
    have hseg := SegmentEntry.segmentId_locate hlocate
    simp [Option.filter, hseg, hr.next_not_replaced c]
  | none =>
    simp only [Option.none_or]
    rw [hr.docIdMap]
    cases hloc : DocIdMap.ofSegments h.made docId with
    | none => rfl
    | some loc =>
      have hmem := segmentId_mem_made hloc
      have hreplaced : loc.segmentId ∈ (h.call c).replaced ↔
          loc.segmentId ∈ h.replaced ∨ loc.segmentId ∈ c.oldIds := by
        simp [mem_replaced_call, hmem]
      by_cases hold : loc.segmentId ∈ h.replaced
      · simp [Option.filter, hreplaced, hold]
      · by_cases hnow : loc.segmentId ∈ c.oldIds <;> simp [Option.filter, hreplaced, hold, hnow]

theorem Records.fresh_call (hr : h.Records s) (c : SegmentCall) {id : SegmentId}
    (hid : id ∈ (s.call c).dirs) : id.seq < (s.call c).list.nextSegmentSeq := by
  obtain ⟨dir, hlook⟩ := mem_iff_lookup.mp hid
  rw [hr.lookup_call] at hlook
  have hseq : (s.call c).list.nextSegmentSeq = s.list.nextSegmentSeq + 1 := by
    rw [list_call]
    rfl
  rw [hseq]
  split at hlook
  · cases hlook
  · split at hlook
    · next hnew =>
      rw [hnew, ← hr.nextSeq]
      exact Nat.lt_succ_self _
    · exact (hr.fresh id (mem_iff_lookup.mpr ⟨dir, hlook⟩)).trans (Nat.lt_succ_self _)

/-- After a call, too, the list is what the directories open as. -/
theorem Records.opens_call (hr : h.Records s) (c : SegmentCall) (e : SegmentEntry) :
    e ∈ (s.call c).list.segments ↔ ∃ dir, (s.call c).dirs.lookup e.segmentId = some dir ∧
      SegmentReader.openDir dir = some e.reader := by
  rw [hr.lookup_call, list_call, SegmentList.segments_install, List.mem_append,
    List.mem_filter, List.mem_singleton, hr.nextSeq]
  constructor
  · rintro (⟨he, hkept⟩ | rfl)
    · have hkept' : e.segmentId ∉ c.oldIds := by simpa using hkept
      have hold : e.segmentId ≠ ⟨h.nextSeq⟩ := fun heq =>
        hr.next_not_listed (heq ▸ List.mem_map_of_mem he)
      rw [if_neg (fun hboth => hkept' hboth.1), if_neg hold]
      exact (hr.opens e).mp he
    · rw [if_neg (fun hboth => hr.next_not_listed hboth.2), if_pos rfl]
      exact ⟨_, rfl, openDir_written c.docs none⟩
  · rintro ⟨dir, hlook, hopen⟩
    split at hlook
    · cases hlook
    · next hgone =>
      split at hlook
      · next heq =>
        rw [← Option.some.inj hlook, openDir_written] at hopen
        have hreader : SegmentReader.ofDocs c.docs ∅ = e.reader := Option.some.inj hopen
        exact Or.inr (by rw [hreader, ← heq])
      · have he : e ∈ s.list.segments := (hr.opens e).mpr ⟨dir, hlook, hopen⟩
        have hid := List.mem_map_of_mem (f := SegmentEntry.segmentId) he
        exact Or.inl ⟨he, by simpa using fun hnow => hgone ⟨hnow, hid⟩⟩

/-- **Every call keeps the list in step with its history.** -/
theorem Records.call (hr : h.Records s) (c : SegmentCall) : (h.call c).Records (s.call c) where
  mapped := by
    rw [list_call]
    exact hr.mapped.install c.oldIds c.docs
  nextSeq := by
    rw [list_call]
    exact congrArg (· + 1) hr.nextSeq
  bounded := by
    intro e he
    rcases List.mem_append.mp he with hold | hnew
    · exact (hr.bounded e hold).trans (Nat.lt_succ_self _)
    · rw [List.mem_singleton.mp hnew]
      exact Nat.lt_succ_self _
  replaced := by
    intro id hid
    rcases mem_replaced_call.mp hid with hold | ⟨-, hmade⟩
    · exact (hr.replaced id hold).trans (Nat.lt_succ_self _)
    · obtain ⟨e, he, rfl⟩ := List.mem_map.mp hmade
      exact (hr.bounded e he).trans (Nat.lt_succ_self _)
  segments := hr.segments_call c
  docIdMap := hr.docIdMap_call c
  fresh := fun _ hid => hr.fresh_call c hid
  opens := hr.opens_call c

theorem records_afterCalls (dirs : SegmentDirs) (calls : List SegmentCall) :
    (afterCalls dirs calls).Records (ListOnDisk.afterCalls dirs calls) := by
  induction calls using List.reverseRecOn with
  | nil => exact records_opened dirs
  | append_singleton calls c ih =>
    rw [afterCalls, ListOnDisk.afterCalls, LabelledRun.run_append, LabelledRun.run_append]
    exact ih.call c

/-! ## 5. When the two lists are the same -/

/-- **The same segments in the same order**, if and only if the names ascend. -/
theorem Records.segments_eq_iff (hr : h.Records s) :
    (SegmentList.openDirs s.dirs).segments = s.list.segments ↔ h.Ascends := by
  have hsorted := SegmentList.pairwise_openDirs s.dirs
  refine ⟨fun heq => ?_, fun hascends => ?_⟩
  · rw [heq, hr.segments] at hsorted
    exact hsorted
  · have hperm : (SegmentList.openDirs s.dirs).segments.Perm s.list.segments :=
      (List.perm_ext_iff_of_nodup (SegmentList.nodup_openDirs s.dirs).of_map
        hr.mapped.nodup.of_map).mpr
        (fun e => SegmentList.mem_segments_openDirs.trans (hr.opens e).symm)
    refine hperm.eq_of_pairwise (fun a b ha hb hab hba => ?_) hsorted (hr.segments ▸ hascends)
    exact List.inj_on_of_nodup_map (SegmentList.nodup_openDirs s.dirs) ha (hperm.mem_iff.mpr hb)
      (SegmentId.nameLe_antisymm hab hba)

/-- The newest segment with an id, and the place of the id there. -/
theorem newest_eq (h : History) (docId : DocId) :
    h.newest docId = h.made.reverse.find? (fun e => (e.locate docId).isSome) := by
  unfold newest
  simp only [SegmentEntry.isSome_locate]

/-- **The same map**, if and only if no segment that is left has an id whose newest segment was
replaced. -/
theorem Records.docIdMap_eq_iff (hr : h.Records s)
    (hsegments : (SegmentList.openDirs s.dirs).segments = s.list.segments) :
    (SegmentList.openDirs s.dirs).docIdMap = s.list.docIdMap ↔ h.NewestSurvives := by
  have hmaps : ∀ docId, (SegmentList.openDirs s.dirs).docIdMap docId = s.list.docIdMap docId ↔
      ∀ newest, h.newest docId = some newest → newest.segmentId ∈ h.replaced →
        ∀ e ∈ h.surviving, ¬ e.Holds docId := by
    intro docId
    have hkept : ∀ (e : SegmentEntry) loc, e.locate docId = some loc →
        decide (loc.segmentId ∉ h.replaced) = decide (e.segmentId ∉ h.replaced) := by
      intro e loc hloc
      rw [SegmentEntry.segmentId_locate hloc]
    rw [SegmentList.docIdMap_openDirs, hsegments, hr.segments, hr.docIdMap, eq_comm,
      DocIdMap.ofSegments_eq, DocIdMap.ofSegments_eq, surviving, ← List.filter_reverse,
      findSome?_filter_eq_iff hkept, ← newest_eq]
    refine forall₂_congr (fun newest _ => ?_)
    simp only [decide_eq_false_iff_not, not_not, List.mem_filter, List.mem_reverse,
      ← Option.not_isSome_iff_eq_none, SegmentEntry.isSome_locate, decide_eq_true_eq]
  exact funext_iff.trans (forall_congr' hmaps)

theorem Records.reopens (hr : h.Records s) (hascends : h.Ascends) (hnewest : h.NewestSurvives) :
    s.Reopens := by
  have hsegments := hr.segments_eq_iff.mpr hascends
  have hmap := (hr.docIdMap_eq_iff hsegments).mpr hnewest
  refine ⟨hsegments, hmap, fun docId => ?_⟩
  unfold SegmentList.getDoc
  rw [hsegments, hmap]

end History

/-- **Reopening yields the list in memory**, the same segments in the same order, the same map
and the same documents, if and only if the names of the segments that are left ascend and no
segment that is left has an id whose newest segment was replaced. -/
theorem reopening_iff (dirs : SegmentDirs) (calls : List SegmentCall) :
    (ListOnDisk.afterCalls dirs calls).Reopens ↔
      (History.afterCalls dirs calls).Ascends ∧
      (History.afterCalls dirs calls).NewestSurvives := by
  have hr := History.records_afterCalls dirs calls
  constructor
  · rintro ⟨hsegments, hmap, -⟩
    exact ⟨hr.segments_eq_iff.mp hsegments, (hr.docIdMap_eq_iff hsegments).mp hmap⟩
  · rintro ⟨hascends, hnewest⟩
    exact hr.reopens hascends hnewest

/-! ## 6. Merging, and a million segments -/

namespace History

/-- The new segment has every id of those it replaces, as a merged one has. -/
def Merges (h : History) (c : SegmentCall) : Prop :=
  ∀ e ∈ h.surviving, e.segmentId ∈ c.oldIds → ∀ docId, e.Holds docId →
    docId ∈ c.docs.map Document.id

theorem holds_ofDocs (id : SegmentId) (docs : List Document) (docId : DocId) :
    SegmentEntry.Holds ⟨id, SegmentReader.ofDocs docs ∅⟩ docId ↔ docId ∈ docs.map Document.id := by
  simp [SegmentEntry.Holds, SegmentReader.liveDocuments_ofDocs_empty]

theorem newest_call (h : History) (c : SegmentCall) (docId : DocId) :
    (h.call c).newest docId = if docId ∈ c.docs.map Document.id
      then some ⟨⟨h.nextSeq⟩, SegmentReader.ofDocs c.docs ∅⟩ else h.newest docId := by
  unfold newest call
  rw [List.reverse_append, List.reverse_singleton, List.singleton_append, List.find?_cons]
  by_cases hmem : docId ∈ c.docs.map Document.id
  · simp only [(holds_ofDocs ⟨h.nextSeq⟩ c.docs docId).mpr hmem, decide_true, if_pos hmem]
  · simp only [mt (holds_ofDocs ⟨h.nextSeq⟩ c.docs docId).mp hmem, decide_false, if_neg hmem]

/-- **No newest segment is ever replaced** by merging. -/
theorem newest_not_replaced {dirs : SegmentDirs} {calls : List SegmentCall}
    (hmerges : LabelledRun.Along call Merges (opened dirs) calls) {docId : DocId}
    {newest : SegmentEntry} (hnewest : (afterCalls dirs calls).newest docId = some newest) :
    newest.segmentId ∉ (afterCalls dirs calls).replaced := by
  induction calls using List.reverseRecOn with
  | nil => exact List.not_mem_nil
  | append_singleton calls c ih =>
    obtain ⟨hbefore, hlast, -⟩ := (LabelledRun.along_append Merges calls [c] _).mp hmerges
    have hr := records_afterCalls dirs calls
    rw [afterCalls, LabelledRun.run_append] at hnewest ⊢
    rw [LabelledRun.run_cons, LabelledRun.run_nil] at hnewest ⊢
    rw [newest_call] at hnewest
    split at hnewest
    · rw [← Option.some.inj hnewest]
      exact hr.next_not_replaced c
    · next hnot =>
      rw [mem_replaced_call]
      rintro (hold | ⟨hnow, -⟩)
      · exact ih hbefore hnewest hold
      · have hholds : newest.Holds docId := by simpa using List.find?_some hnewest
        have hmade := List.mem_reverse.mp (List.mem_of_find?_eq_some hnewest)
        have hsurviving : newest ∈ (afterCalls dirs calls).surviving :=
          List.mem_filter.mpr ⟨hmade, by simpa using ih hbefore hnewest⟩
        exact hnot (hlast newest hsurviving hnow docId hholds)

/-- As long as the numbers have six digits, the names of all segments ascend. -/
theorem pairwise_made {dirs : SegmentDirs} {calls : List SegmentCall}
    (h : (afterCalls dirs calls).nextSeq ≤ 1000000) :
    (afterCalls dirs calls).made.Pairwise (fun a b => a.segmentId.nameLe b.segmentId) := by
  induction calls using List.reverseRecOn with
  | nil => exact SegmentList.pairwise_openDirs dirs
  | append_singleton calls c ih =>
    have hr := records_afterCalls dirs calls
    rw [afterCalls, LabelledRun.run_append, LabelledRun.run_cons, LabelledRun.run_nil] at h ⊢
    have hlt : (afterCalls dirs calls).nextSeq < 1000000 := h
    refine List.pairwise_append.mpr ⟨ih hlt.le, List.pairwise_singleton _ _, fun e he e' he' => ?_⟩
    have hbound := hr.bounded e he
    rw [List.mem_singleton.mp he']
    exact (SegmentId.nameLe_iff (hbound.trans hlt) hlt).mpr hbound.le

theorem ascends_of_le {dirs : SegmentDirs} {calls : List SegmentCall}
    (h : (afterCalls dirs calls).nextSeq ≤ 1000000) : (afterCalls dirs calls).Ascends :=
  (pairwise_made h).sublist List.filter_sublist

end History

/-- A merging shard reopens as it was, up to `seg-999999`. -/
theorem reopens_of_merges {dirs : SegmentDirs} {calls : List SegmentCall}
    (hmerges : LabelledRun.Along History.call History.Merges (History.opened dirs) calls)
    (hseq : (History.afterCalls dirs calls).nextSeq ≤ 1000000) :
    (ListOnDisk.afterCalls dirs calls).Reopens := by
  refine (History.records_afterCalls dirs calls).reopens (History.ascends_of_le hseq) ?_
  intro docId newest hnewest hreplaced
  exact absurd hreplaced (History.newest_not_replaced hmerges hnewest)

/-- From an empty directory, adding numbers the segments from 1. -/
theorem segmentIds_add (batches : List (List Document)) :
    (ListOnDisk.afterCalls ∅ (batches.map SegmentCall.add)).list.segments.map
        SegmentEntry.segmentId = (List.range' 1 batches.length).map SegmentId.mk ∧
    (ListOnDisk.afterCalls ∅ (batches.map SegmentCall.add)).list.nextSegmentSeq
      = 1 + batches.length := by
  induction batches using List.reverseRecOn with
  | nil => exact ⟨rfl, rfl⟩
  | append_singleton batches docs ih =>
    obtain ⟨hids, hseq⟩ := ih
    rw [List.map_append, ListOnDisk.afterCalls, LabelledRun.run_append, List.map_singleton,
      LabelledRun.run_cons, LabelledRun.run_nil, History.list_call]
    constructor
    · rw [SegmentList.segments_install, List.map_append, List.length_append, List.length_singleton,
        List.range'_concat, List.map_append, ← hids, hseq]
      simp [SegmentCall.oldIds]
    · rw [List.length_append, List.length_singleton, ← Nat.add_assoc, ← hseq]
      rfl

/-- A million segments, the last two with two versions of a document. -/
def millionBatches : List (List Document) :=
  List.replicate 999998 [] ++
    [[⟨1, "old", "", ⟨0⟩, "", .empty⟩], [⟨1, "new", "", ⟨0⟩, "", .empty⟩]]

/-- **The millionth segment is reopened before the one it was added after.** -/
theorem not_reopens_million :
    ¬ (ListOnDisk.afterCalls ∅ (millionBatches.map SegmentCall.add)).Reopens := by
  rintro ⟨hsegments, -, -⟩
  have hsorted := SegmentList.pairwise_openDirs
    (ListOnDisk.afterCalls ∅ (millionBatches.map SegmentCall.add)).dirs
  rw [hsegments] at hsorted
  have hids : ((List.range' 1 1000000).map SegmentId.mk).Pairwise SegmentId.nameLe := by
    have hlength : millionBatches.length = 1000000 := by
      rw [millionBatches, List.length_append, List.length_replicate]
      rfl
    rw [← hlength, ← (segmentIds_add millionBatches).1]
    exact List.pairwise_map.mpr hsorted
  have hlast : List.range' 1 999998 ++ List.range' 999999 2 = List.range' 1 1000000 :=
    List.range'_append_1
  rw [← hlast, List.map_append, List.pairwise_append] at hids
  have hname : SegmentId.nameLe ⟨999999⟩ ⟨1000000⟩ := List.rel_of_pairwise_cons hids.2.1
    List.mem_cons_self
  exact absurd hname (by decide)

end ZearchEngine
