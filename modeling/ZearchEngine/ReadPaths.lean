/-
# Four ways to read a shard

`search`, `get_docs`, `get_all_live_docs` and `stats` (`crates/shard/src/shard.rs`) each put the
open segments and the buffer together in a way of their own.  A search and `get_all_live_docs`
leave out the buffered documents that are deleted; `get_docs` and `stats` do not.  `get_docs`
finds the documents of the segments through the map of ids, from which `mark_deleted` takes an
id at once; the other three go through the readers, which still have it.

So in one state the four agree on what is live exactly when no buffered document is deleted, the
map knows every document a segment shows, and no id is held twice (`Inv.readPathsAgree_iff`).
Over runs without a restart (`read_paths_agree_iff`) they agree in every state exactly when no id
is indexed twice, nothing that is held is ever deleted, and no id is indexed into a buffer that
has a deletion of it, unless the buffer is full at once.
-/
import ZearchEngine.CatchUp

namespace ZearchEngine

namespace ShardEngine

/-! ## 1. Agreement in one state -/

/-- All read paths show the documents with these ids, and count as many. -/
structure ReadPathsAgreeOn (s : ShardEngine) (live : Finset DocId) : Prop where
  search : ∀ request : SearchRequest, request.MatchAll s.stats.docCount →
    ∃ response, (search request s).1 = .ok response ∧
      (response.hits.map SearchHit.id).toFinset = live ∧ response.totalHits = live.card
  getDocs : ∀ docId, s.getDocs [docId] ≠ [] ↔ docId ∈ live
  getAllLiveDocs : (s.getAllLiveDocs.map Document.id).toFinset = live
  docCount : s.stats.docCount = live.card

/-- All read paths agree on what is live. -/
def ReadPathsAgree (s : ShardEngine) : Prop := ∃ live, s.ReadPathsAgreeOn live

/-- No buffered document is deleted, and the map knows every document of the segments. -/
structure Settled (s : ShardEngine) : Prop where
  undeleted : ∀ doc ∈ s.writeBuffer.docs, doc.id ∉ s.writeBuffer.deletedIds
  known : s.Known

/-- The buffer shows as much as it holds exactly when nothing in it is deleted. -/
theorem length_allDocs_eq_iff (b : WriteBuffer) :
    b.allDocs.length = b.docs.length ↔ ∀ doc ∈ b.docs, doc.id ∉ b.deletedIds := by
  rw [WriteBuffer.allDocs, List.length_filter_eq_length_iff]
  simp

theorem Settled.visible {s : ShardEngine} (h : Settled s) : s.visible = s.holds := by
  have hall : s.writeBuffer.allDocs = s.writeBuffer.docs :=
    List.filter_eq_self.mpr (fun doc hdoc => by simpa using h.undeleted doc hdoc)
  rw [ShardEngine.visible, hall, holds]

/-- `get_doc` finds what the map knows. -/
theorem Inv.getDoc_ne_none_iff {s : ShardEngine} (h : Inv s) (docId : DocId) :
    s.segments.getDoc docId ≠ none ↔ s.segments.docIdMap docId ≠ none := by
  cases hloc : s.segments.docIdMap docId with
  | none => simp [SegmentList.getDoc, hloc]
  | some loc =>
    obtain ⟨e, he, hseg, doc, hdoc, -⟩ := h.synced.sound docId loc hloc
    have hfind := h.synced.find_eq he
    rw [hseg] at hfind
    simp [SegmentList.getDoc, hloc, hfind, hdoc]

/-- **What `get_docs` returns a document for**: what the map knows, and every buffered document,
deleted or not. -/
theorem Inv.getDocs_ne_nil_iff {s : ShardEngine} (h : Inv s) (docId : DocId) :
    s.getDocs [docId] ≠ [] ↔
      s.segments.docIdMap docId ≠ none ∨ ∃ doc ∈ s.writeBuffer.docs, doc.id = docId := by
  rw [← h.getDoc_ne_none_iff]
  cases hget : s.segments.getDoc docId with
  | some doc => simp [ShardEngine.getDocs, hget]
  | none =>
    cases hfind : s.writeBuffer.docs.find? (fun d => d.id = docId) with
    | none =>
      have hnot : ∀ doc ∈ s.writeBuffer.docs, ¬ doc.id = docId := by
        simpa using List.find?_eq_none.mp hfind
      simpa [ShardEngine.getDocs, hget, hfind] using hnot
    | some doc =>
      have hid : doc.id = docId := by simpa using List.find?_some hfind
      have hex : ∃ doc ∈ s.writeBuffer.docs, doc.id = docId :=
        ⟨doc, List.mem_of_find?_eq_some hfind, hid⟩
      simpa [ShardEngine.getDocs, hget, hfind] using hex

/-- What the map knows is in a segment. -/
theorem Inv.mem_liveDocuments_of_docIdMap {s : ShardEngine} (h : Inv s) {docId : DocId}
    (hmap : s.segments.docIdMap docId ≠ none) :
    ∃ doc ∈ s.segments.liveDocuments, doc.id = docId := by
  obtain ⟨doc, hdoc⟩ := Option.ne_none_iff_exists'.mp ((h.getDoc_ne_none_iff docId).mpr hmap)
  obtain ⟨hlive, hid⟩ := h.synced.of_getDoc_eq_some hdoc
  exact ⟨doc, hlive, hid⟩

theorem Inv.docCount_eq_card {s : ShardEngine} (h : Inv s) :
    s.stats.docCount = s.holds.card := by
  rw [h.docCount_stats, holds, Multiset.coe_add, Multiset.coe_card, List.length_append]

/-- The ids a search shows, and the ids of `get_all_live_docs`. -/
theorem ids_of_returns_visible {s : ShardEngine} {response : SearchResponse}
    (h : response.Returns s.visible) :
    (response.hits.map SearchHit.id).toFinset = (s.visible.map Document.id).toFinset := by
  have hids := congrArg (Multiset.map Prod.fst) h
  rw [Multiset.map_map, Multiset.map_coe, List.map_map] at hids
  exact congrArg Multiset.toFinset hids

theorem ids_getAllLiveDocs (s : ShardEngine) :
    (s.getAllLiveDocs.map Document.id).toFinset = (s.visible.map Document.id).toFinset := by
  rw [← coe_getAllLiveDocs]
  rfl

section

variable {s : ShardEngine} {live : Finset DocId}

/-- What a search shows has these ids, and as many documents. -/
theorem ReadPathsAgreeOn.ids_visible (hinv : Inv s) (h : s.ReadPathsAgreeOn live) :
    (s.visible.map Document.id).toFinset = live ∧ s.visible.card = live.card := by
  obtain ⟨response, hok, hids, htotal⟩ := h.search _ s.matchAll_docCount
  obtain ⟨response', hok', -, hreturns, htotal'⟩ :=
    search_matchAll hinv (s.matchAll_docCount.mono hinv.card_visible_le)
  obtain rfl : response' = response := by
    rw [hok', Except.ok.injEq] at hok
    exact hok
  rw [ids_of_returns_visible hreturns] at hids
  exact ⟨hids, htotal'.symm.trans htotal⟩

/-- `stats` counts what a search leaves out, so it leaves out nothing. -/
theorem ReadPathsAgreeOn.visible_eq (hinv : Inv s) (h : s.ReadPathsAgreeOn live) :
    s.visible = s.holds := by
  have hcard : s.holds.card = s.visible.card := by
    rw [← hinv.docCount_eq_card, h.docCount, (h.ids_visible hinv).2]
  exact Multiset.eq_of_le_of_card_le s.visible_le_holds hcard.le

theorem ReadPathsAgreeOn.nodup (hinv : Inv s) (h : s.ReadPathsAgreeOn live) :
    (s.holds.map Document.id).Nodup := by
  obtain ⟨hids, hcard⟩ := h.ids_visible hinv
  rw [← Multiset.toFinset_card_eq_card_iff_nodup, Multiset.card_map, ← h.visible_eq hinv, hids,
    hcard]

theorem ReadPathsAgreeOn.settled (hinv : Inv s) (h : s.ReadPathsAgreeOn live) : Settled s := by
  have hvisible := h.visible_eq hinv
  have hnodup := h.nodup hinv
  refine ⟨?_, fun e he doc hdoc => ?_⟩
  · have hcard := congrArg Multiset.card hvisible
    rw [ShardEngine.visible, holds, Multiset.card_add, Multiset.card_add, Multiset.coe_card,
      Multiset.coe_card, Multiset.coe_card] at hcard
    exact (length_allDocs_eq_iff _).mp (by omega)
  · have hseg : doc ∈ s.segments.liveDocuments := List.mem_flatMap.mpr ⟨e, he, hdoc⟩
    have hlive : doc.id ∈ live := by
      rw [← (h.ids_visible hinv).1, Multiset.mem_toFinset, hvisible]
      exact Multiset.mem_map_of_mem _ (Multiset.mem_add.mpr (Or.inl hseg))
    rcases (hinv.getDocs_ne_nil_iff doc.id).mp ((h.getDocs doc.id).mpr hlive) with hmap | hbuf
    · exact hmap
    · -- the id would be in the segments and in the buffer
      obtain ⟨doc', hdoc', hid⟩ := hbuf
      rw [holds, Multiset.map_add, Multiset.nodup_add] at hnodup
      exact absurd (Multiset.mem_map.mpr ⟨doc', hdoc', hid⟩)
        (Multiset.disjoint_left.mp hnodup.2.2 (Multiset.mem_map_of_mem _ hseg))

/-- In a settled state that holds no id twice all read paths show the ids it holds. -/
theorem Settled.readPathsAgreeOn (hinv : Inv s) (h : Settled s)
    (hnodup : (s.holds.map Document.id).Nodup) :
    s.ReadPathsAgreeOn (s.holds.map Document.id).toFinset := by
  have hcard : (s.holds.map Document.id).toFinset.card = s.holds.card := by
    rw [Multiset.toFinset_card_of_nodup hnodup, Multiset.card_map]
  refine ⟨fun request hreq => ?_, fun docId => ?_, ?_, ?_⟩
  · obtain ⟨response, hok, -, hreturns, htotal⟩ :=
      search_matchAll hinv (hreq.mono hinv.card_visible_le)
    exact ⟨response, by rw [hok], by rw [ids_of_returns_visible hreturns, h.visible],
      by rw [htotal, hcard, h.visible]⟩
  · rw [hinv.getDocs_ne_nil_iff, Multiset.mem_toFinset, holds, Multiset.map_add, Multiset.mem_add,
      Multiset.mem_map, Multiset.mem_map]
    refine or_congr ⟨fun hmap => hinv.mem_liveDocuments_of_docIdMap hmap, ?_⟩ Iff.rfl
    rintro ⟨doc, hdoc, rfl⟩
    obtain ⟨e, he, hlive⟩ := List.mem_flatMap.mp (Multiset.mem_coe.mp hdoc)
    exact h.known e he doc hlive
  · rw [ids_getAllLiveDocs, h.visible]
  · rw [hinv.docCount_eq_card, hcard]

end

/-- **The read paths agree in a state exactly when it is settled and holds no id twice.** -/
theorem Inv.readPathsAgree_iff {s : ShardEngine} (h : Inv s) :
    s.ReadPathsAgree ↔ Settled s ∧ (s.holds.map Document.id).Nodup := by
  constructor
  · rintro ⟨live, hagree⟩
    exact ⟨hagree.settled h, hagree.nodup h⟩
  · rintro ⟨hsettled, hnodup⟩
    exact ⟨_, hsettled.readPathsAgreeOn h hnodup⟩

/-! ## 2. What an operation does to it -/

/-- The change leaves the shard open and deletes nothing. -/
def Change.Grows : Change → Prop
  | .delete _ | .reopen => False
  | _ => True

/-- The operation leaves the shard open. -/
def Op.StaysOpen : Op → Prop
  | .reopen => False
  | _ => True

instance : DecidablePred Op.StaysOpen
  | .reopen => isFalse id
  | .index _ | .indexBatch _ | .delete _ | .search _ | .flush | .runMerge _ | .reindexSelf =>
    isTrue trivial

theorem grows_flushChanges (s : ShardEngine) : ∀ c ∈ s.flushChanges, c.Grows := by
  unfold flushChanges
  split
  · simp [Change.Grows]
  · simp [Change.Grows]

/-- An operation that deletes nothing and leaves the shard open is made of such changes. -/
theorem grows_changes (s : ShardEngine) {op : Op} (hdelete : op.AppendOnly)
    (hopen : op.StaysOpen) : ∀ c ∈ s.changes op, c.Grows := by
  have haccept : ∀ docs, ∀ c ∈ s.acceptChanges docs, c.Grows := by
    intro docs c hc
    rcases List.mem_cons.mp hc with rfl | hc
    · trivial
    · split at hc
      · exact grows_flushChanges _ c hc
      · cases hc
  cases op with
  | index doc => exact haccept [doc]
  | indexBatch docs => exact haccept docs
  | delete docId => exact hdelete.elim
  | search request => simp [changes, Change.Grows]
  | flush => exact s.grows_flushChanges
  | runMerge segmentIds =>
    rw [changes]
    split <;> simp [Change.Grows]
  | reindexSelf =>
    intro c hc
    rcases List.mem_append.mp hc with hc | hc
    · exact s.grows_flushChanges c hc
    · split at hc
      · cases hc
      · rw [List.mem_singleton.mp hc]
        trivial
  | reopen => exact hopen.elim

theorem along_grows (s : ShardEngine) {op : Op} (hdelete : op.AppendOnly)
    (hopen : op.StaysOpen) :
    LabelledRun.Along change (fun s c => s.Enabled c ∧ c.Grows) s (s.changes op) :=
  LabelledRun.Along.and _ s (along_changes s op)
    (LabelledRun.along_of_forall (Q := Change.Grows) _ s (s.grows_changes hdelete hopen))

/-- Growing changes leave every document known. -/
theorem Known.change {s : ShardEngine} (hinv : Inv s) (h : s.Known) {c : Change} (hc : c.Grows) :
    (s.change c).Known := by
  cases c with
  | accept docs => exact h
  | delete docId => exact hc.elim
  | refresh => exact h
  | drop => exact h
  | flush => exact h.flushed hinv
  | merge ids => exact h.merged hinv ids
  | reindex => exact h.reindexed hinv
  | reopen => exact hc.elim

theorem Known.step {s : ShardEngine} (hinv : Inv s) (h : s.Known) {op : Op}
    (hdelete : op.AppendOnly) (hopen : op.StaysOpen) : (s.step op).Known := by
  have hrun := LabelledRun.Along.inv (I := fun s => Inv s ∧ s.Known)
    (fun _ _ hs hc => ⟨hs.1.after hc.1, hs.2.change hs.1 hc.2⟩) _ s
    (along_grows s hdelete hopen) ⟨hinv, h⟩
  rw [step_eq hinv op]
  exact hrun.2

/-- An operation that logs nothing empties the buffer, or leaves its documents and deletions
alone. -/
theorem writeBuffer_step {s : ShardEngine} (hinv : Inv s) {op : Op} (hquiet : op.entries = [])
    (hopen : op.StaysOpen) :
    (s.step op).writeBuffer.docs = [] ∨
      (s.step op).writeBuffer.docs = s.writeBuffer.docs ∧
        (s.step op).writeBuffer.deletedIds = s.writeBuffer.deletedIds := by
  rw [step_eq hinv]
  cases op with
  | index doc => cases hquiet
  | indexBatch docs =>
    obtain rfl : docs = [] := List.map_eq_nil_iff.mp hquiet
    exact Or.inr ⟨rfl, rfl⟩
  | delete docId => cases hquiet
  | search request =>
    exact Or.inr ⟨WriteBuffer.refreshed_docs _, WriteBuffer.refreshed_deletedIds _⟩
  | flush => exact Or.inl (docs_run_flushChanges s)
  | runMerge segmentIds =>
    rw [changes]
    split
    · exact Or.inr ⟨rfl, rfl⟩
    · exact Or.inr ⟨rfl, rfl⟩
  | reindexSelf =>
    rw [changes, LabelledRun.run_append]
    split
    · exact Or.inl (docs_run_flushChanges s)
    · exact Or.inl (docs_run_flushChanges s)
  | reopen => exact hopen.elim

/-- The buffer shows these documents once they are in it, or is emptied at once because they
fill it. -/
def ShowsAtOnce (s : ShardEngine) (docs : List Document) : Prop :=
  (∀ doc ∈ docs, doc.id ∉ s.writeBuffer.deletedIds) ∨ (s.writeBuffer.addAll docs).1 = true

instance (s : ShardEngine) (docs : List Document) : Decidable (s.ShowsAtOnce docs) :=
  inferInstanceAs (Decidable (_ ∨ _))

/-- The operation deletes nothing the shard holds, and indexes nothing that the buffer would
hide. -/
def KeepsSettled (s : ShardEngine) : Op → Prop
  | .index doc => s.ShowsAtOnce [doc]
  | .indexBatch docs => s.ShowsAtOnce docs
  | .delete docId => ∀ doc ∈ s.holds, doc.id ≠ docId
  | _ => True

instance (s : ShardEngine) : DecidablePred s.KeepsSettled
  | .index doc => inferInstanceAs (Decidable (s.ShowsAtOnce [doc]))
  | .indexBatch docs => inferInstanceAs (Decidable (s.ShowsAtOnce docs))
  | .delete docId => inferInstanceAs (Decidable (∀ doc ∈ s.holds, doc.id ≠ docId))
  | .search _ | .flush | .runMerge _ | .reindexSelf | .reopen => isTrue trivial

/-- An empty buffer has no deleted documents. -/
theorem Settled.of_docs_eq_nil {s : ShardEngine} (hknown : s.Known)
    (hempty : s.writeBuffer.docs = []) : Settled s :=
  ⟨fun doc hdoc => absurd hdoc (by rw [hempty]; exact List.not_mem_nil), hknown⟩

/-- Indexing keeps a state settled exactly when what is indexed is shown at once. -/
theorem Settled.accept_iff {s : ShardEngine} (h : Settled s) (docs : List Document)
    (hknown : (LabelledRun.run change s (s.acceptChanges docs)).Known) :
    Settled (LabelledRun.run change s (s.acceptChanges docs)) ↔ s.ShowsAtOnce docs := by
  rw [acceptChanges] at hknown ⊢
  by_cases hfull : (s.writeBuffer.addAll docs).1 = true
  · rw [if_pos hfull] at hknown ⊢
    exact iff_of_true (.of_docs_eq_nil hknown (docs_run_flushChanges (s.accepted docs)))
      (Or.inr hfull)
  · rw [if_neg hfull] at hknown ⊢
    have hdocs : ∀ doc, doc ∈ (s.accepted docs).writeBuffer.docs ↔
        doc ∈ s.writeBuffer.docs ∨ doc ∈ docs := fun doc => by
      rw [accepted, WriteBuffer.addAll_docs, List.mem_append]
    have hdeleted : (s.accepted docs).writeBuffer.deletedIds = s.writeBuffer.deletedIds :=
      WriteBuffer.addAll_deletedIds docs _
    constructor
    · intro hsettled
      refine Or.inl (fun doc hdoc => ?_)
      rw [← hdeleted]
      exact hsettled.undeleted doc ((hdocs doc).mpr (Or.inr hdoc))
    · intro hshows
      refine ⟨fun doc hdoc => ?_, hknown⟩
      have hmem : doc ∈ (s.accepted docs).writeBuffer.docs := hdoc
      show doc.id ∉ (s.accepted docs).writeBuffer.deletedIds
      rw [hdeleted]
      rcases (hdocs doc).mp hmem with hold | hnew
      · exact h.undeleted doc hold
      · exact hshows.resolve_right hfull doc hnew

/-- **A deletion keeps a state settled exactly when there is nothing to delete.** -/
theorem Settled.deleted_iff {s : ShardEngine} (hinv : Inv s) (h : Settled s) (docId : DocId) :
    Settled (s.deleted docId) ↔ ∀ doc ∈ s.holds, doc.id ≠ docId := by
  have hmap : (s.deleted docId).segments.docIdMap
      = Function.update s.segments.docIdMap docId none := hinv.synced.docIdMap_markDeleted docId
  have hsegs : (s.deleted docId).segments.segments = s.segments.segments :=
    hinv.synced.segments_markDeleted docId
  constructor
  · rintro hsettled doc hdoc rfl
    rcases Multiset.mem_add.mp hdoc with hseg | hbuf
    · -- a segment still shows it, and the map has forgotten it
      obtain ⟨e, he, hlive⟩ := List.mem_flatMap.mp (Multiset.mem_coe.mp hseg)
      refine hsettled.known e (hsegs ▸ he) doc hlive ?_
      rw [hmap, Function.update_self]
    · exact hsettled.undeleted doc hbuf (Finset.mem_insert_self _ _)
  · intro hnone
    refine ⟨fun doc hdoc hmem => ?_, fun e he doc hdoc => ?_⟩
    · rcases Finset.mem_insert.mp hmem with hid | hold
      · exact hnone doc (Multiset.mem_add.mpr (Or.inr hdoc)) hid
      · exact h.undeleted doc hdoc hold
    · rw [hsegs] at he
      have hseg : doc ∈ s.segments.liveDocuments := List.mem_flatMap.mpr ⟨e, he, hdoc⟩
      rw [hmap, Function.update_of_ne (hnone doc (Multiset.mem_add.mpr (Or.inl hseg)))]
      exact h.known e he doc hdoc

/-- An operation that logs nothing keeps a state settled. -/
theorem Settled.quiet {s : ShardEngine} (hinv : Inv s) (h : Settled s) {op : Op}
    (hquiet : op.entries = []) (hdelete : op.AppendOnly) (hopen : op.StaysOpen) :
    Settled (s.step op) := by
  have hknown := h.known.step hinv hdelete hopen
  rcases writeBuffer_step hinv hquiet hopen with hempty | ⟨hdocs, hdeleted⟩
  · exact .of_docs_eq_nil hknown hempty
  · refine ⟨?_, hknown⟩
    rw [hdocs, hdeleted]
    exact h.undeleted

/-- **What keeps a state settled**, operation by operation. -/
theorem Settled.step_iff {s : ShardEngine} (hinv : Inv s) (h : Settled s) {op : Op}
    (hopen : op.StaysOpen) : Settled (s.step op) ↔ s.KeepsSettled op := by
  cases op with
  | index doc =>
    have hknown : (s.step (.index doc)).Known := h.known.step hinv trivial trivial
    rw [step_eq hinv] at hknown ⊢
    exact h.accept_iff [doc] hknown
  | indexBatch docs =>
    have hknown : (s.step (.indexBatch docs)).Known := h.known.step hinv trivial trivial
    rw [step_eq hinv] at hknown ⊢
    exact h.accept_iff docs hknown
  | delete docId =>
    rw [step_eq hinv]
    exact h.deleted_iff hinv docId
  | reopen => exact hopen.elim
  | _ => exact iff_of_true (h.quiet hinv rfl trivial trivial) trivial

/-! ## 3. Runs -/

/-- A growing change adds what it indexes. -/
theorem holds_change {s : ShardEngine} {c : Change} (hc : s.Enabled c) (hgrows : c.Grows) :
    (s.change c).holds = s.holds + ↑(indexedDocs c.entries) := by
  cases c with
  | accept docs =>
    show (↑s.segments.liveDocuments + ↑(s.writeBuffer.addAll docs).2.docs : Multiset Document)
      = s.holds + ↑(indexedDocs (docs.map .index))
    rw [WriteBuffer.addAll_docs, indexedDocs_map_index, ← Multiset.coe_add, ← add_assoc, holds]
  | delete docId => exact hgrows.elim
  | refresh =>
    show (↑s.segments.liveDocuments + ↑s.writeBuffer.refreshed.docs : Multiset Document) = _
    rw [WriteBuffer.refreshed_docs]
    exact (add_zero _).symm
  | drop =>
    have hempty : s.writeBuffer.docs = [] := hc
    show (↑s.segments.liveDocuments + 0 : Multiset Document) = s.holds + 0
    rw [holds, hempty, Multiset.coe_nil, add_zero, add_zero]
  | flush =>
    show (↑s.flushed.segments.liveDocuments + 0 : Multiset Document) = _
    rw [coe_liveDocuments_flushed]
    rfl
  | merge ids =>
    show (↑(s.merged ids).segments.liveDocuments + ↑s.writeBuffer.docs : Multiset Document) = _
    rw [coe_liveDocuments_merged]
    exact (add_zero _).symm
  | reindex =>
    show (↑s.reindexed.segments.liveDocuments + ↑s.writeBuffer.docs : Multiset Document) = _
    rw [coe_liveDocuments_reindexed]
    exact (add_zero _).symm
  | reopen => exact hgrows.elim

theorem holds_run_changes : ∀ (cs : List Change) {s : ShardEngine},
    LabelledRun.Along change (fun s c => s.Enabled c ∧ c.Grows) s cs →
    (LabelledRun.run change s cs).holds
      = s.holds + ↑(indexedDocs (cs.flatMap Change.entries)) := by
  intro cs
  induction cs with
  | nil => exact fun _ => (add_zero _).symm
  | cons c cs ih =>
    intro s h
    rw [LabelledRun.run_cons, ih h.2, holds_change h.1.1 h.1.2,
      List.flatMap_cons, indexedDocs_append, ← Multiset.coe_add, add_assoc]

/-- **An open shard holds on to everything**: an operation adds what it indexes. -/
theorem holds_step {s : ShardEngine} (hinv : Inv s) {op : Op} (hopen : op.StaysOpen) :
    (s.step op).holds = s.holds + ↑op.docs := by
  by_cases hdelete : op.AppendOnly
  · rw [step_eq hinv, holds_run_changes _ (along_grows s hdelete hopen), entries_changes,
      indexedDocs_entries]
  · cases op with
    | delete docId =>
      rw [step_eq hinv]
      show (↑(s.deleted docId).segments.liveDocuments + ↑s.writeBuffer.docs
        : Multiset Document) = _
      rw [hinv.liveDocuments_deleted]
      exact (add_zero _).symm
    | _ => exact absurd trivial hdelete

theorem holds_run : ∀ (ops : List Op) {s : ShardEngine}, Inv s → (∀ op ∈ ops, op.StaysOpen) →
    (LabelledRun.run step s ops).holds = s.holds + ↑(ops.flatMap Op.docs) := by
  intro ops
  induction ops with
  | nil => exact fun _ _ => (add_zero _).symm
  | cons op ops ih =>
    intro s hinv hops
    have hrest := ih (hinv.runStep [op])
      (fun op' hop' => hops op' (List.mem_cons_of_mem _ hop'))
    rw [LabelledRun.run_cons, List.flatMap_cons, ← Multiset.coe_add, ← add_assoc,
      ← holds_step hinv (hops op List.mem_cons_self)]
    exact hrest

theorem holds_runNew (writeBufferSize : Nat) (searcher : MultiSegmentSearcher) {ops : List Op}
    (hops : ∀ op ∈ ops, op.StaysOpen) :
    (runNew writeBufferSize searcher ops).holds = ↑(ops.flatMap Op.docs) :=
  (holds_run ops (inv_new writeBufferSize searcher) hops).trans (zero_add _)

theorem settled_new (writeBufferSize : Nat) (searcher : MultiSegmentSearcher) :
    Settled (openDisk writeBufferSize searcher Disk.empty) :=
  ⟨fun _ hdoc => absurd hdoc List.not_mem_nil, fun _ he => absurd he List.not_mem_nil⟩

/-- **When all read paths agree.**  In every run of operations that leave the shard open, match-all
searches, `get_docs`, `get_all_live_docs` and `stats` agree in every state the run reaches if and
only if the run indexes no id twice, deletes no id the shard holds, and indexes no id into a buffer
that goes on to hide it. -/
theorem read_paths_agree_iff (writeBufferSize : Nat) (searcher : MultiSegmentSearcher)
    (ops : List Op) (hops : ∀ op ∈ ops, op.StaysOpen) :
    (∀ n, (runNew writeBufferSize searcher (ops.take n)).ReadPathsAgree) ↔
      ((ops.flatMap Op.docs).map Document.id).Nodup ∧
      LabelledRun.Along step KeepsSettled (openDisk writeBufferSize searcher Disk.empty) ops := by
  have hstays : LabelledRun.Along step (fun _ op => op.StaysOpen)
      (openDisk writeBufferSize searcher Disk.empty) ops :=
    LabelledRun.along_of_forall (Q := Op.StaysOpen) ops _ hops
  have hinv : ∀ n, Inv (runNew writeBufferSize searcher (ops.take n)) := fun n =>
    inv_runNew writeBufferSize searcher _
  have hholds : ∀ n, (runNew writeBufferSize searcher (ops.take n)).holds
      = ↑((ops.take n).flatMap Op.docs) := fun n =>
    holds_runNew writeBufferSize searcher (fun op hop => hops op (List.mem_of_mem_take hop))
  constructor
  · intro hagree
    constructor
    · have hids := ((hinv ops.length).readPathsAgree_iff.mp (hagree ops.length)).2
      rw [hholds, List.take_length, Multiset.map_coe, Multiset.coe_nodup] at hids
      exact hids
    · have halong := LabelledRun.along_of_take (I := fun s => Inv s ∧ Settled s) ops _
        (fun n => ⟨hinv n, ((hinv n).readPathsAgree_iff.mp (hagree n)).1⟩)
      exact LabelledRun.Along.imp (fun s op h => (h.1.1.2.step_iff h.1.1.1 h.2).mp h.1.2.2) ops _
        (LabelledRun.Along.and ops _ halong hstays)
  · rintro ⟨hids, hkeeps⟩ n
    have hsettled : Settled (runNew writeBufferSize searcher (ops.take n)) :=
      (LabelledRun.Along.inv (I := fun s => Inv s ∧ Settled s)
        (fun s op h hop => ⟨h.1.runStep [op], (h.2.step_iff h.1 hop.2).mpr hop.1⟩) _ _
        (LabelledRun.Along.and ops _ hkeeps hstays |>.take n)
        ⟨inv_new writeBufferSize searcher, settled_new writeBufferSize searcher⟩).2
    refine (hinv n).readPathsAgree_iff.mpr ⟨hsettled, ?_⟩
    rw [hholds, Multiset.map_coe, Multiset.coe_nodup]
    rw [← List.take_append_drop n ops, List.flatMap_append, List.map_append] at hids
    exact (List.nodup_append.mp hids).1

/-- A deletion of an id the shard does not hold, and a flush. -/
theorem read_paths_agree_absent : (runNew 1000 .unscored (List.take 4
    [.index (titled 1 "a"), .delete 3, .flush, .indexBatch [titled 2 "b"]])).ReadPathsAgree :=
  (read_paths_agree_iff 1000 .unscored
    [.index (titled 1 "a"), .delete 3, .flush, .indexBatch [titled 2 "b"]] (by decide)).mpr
    ⟨by decide, by decide⟩ 4

/-- A document deleted in the buffer is counted by `stats` and missing from
`get_all_live_docs`. -/
theorem not_readPathsAgree_buffered :
    ¬ (runNew 1000 .unscored [.index (titled 1 "a"), .delete 1]).ReadPathsAgree := by
  rintro ⟨live, h⟩
  have hnone : (runNew 1000 .unscored [.index (titled 1 "a"), .delete 1]).getAllLiveDocs = [] := by
    decide
  have hone : (runNew 1000 .unscored [.index (titled 1 "a"), .delete 1]).stats.docCount = 1 := by
    decide
  have hlive := h.getAllLiveDocs
  have hcount := h.docCount
  rw [hnone] at hlive
  rw [hone, ← hlive] at hcount
  cases hcount

end ShardEngine

end ZearchEngine
