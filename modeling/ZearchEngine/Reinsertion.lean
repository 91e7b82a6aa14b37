/-
# Indexing a document after its deletion

A document indexed while its id is not live should be found until the id is deleted again.  But
three traces of an earlier deletion carry no order relative to what is written later:

* the id stays among the deleted ids of the buffer until the next flush, and the buffer hides
  whatever has that id;
* the deleted document itself stays readable in an open segment, or in the buffer until a flush
  writes it out with the rest;
* the entry stays in the log until a flush that has documents to write, and a restart replays
  it over the whole buffer.

In every run in which none of the three meets a document (`KeepsInSight`), whatever is live is
found, once and with the contents indexed last (`live_shown_once`).
-/
import ZearchEngine.Compaction
import ZearchEngine.ReadPaths

namespace ZearchEngine

open KeyedStore

/-! ## 1. Live on disk and live in the open segments -/

section

variable {l : SegmentList} {dirs : SegmentDirs}

/-- The open segments show at least what the directories show. -/
theorem Synced.live_le (h : Synced l dirs) (hreg : Registered l dirs) :
    SegmentDirs.live dirs ≤ ↑l.liveDocuments := by
  rw [h.live_eq_sum hreg, SegmentList.liveDocuments, coe_flatMap]
  exact List.sum_le_sum (fun e he => h.share_live_le he)

/-- **A deletion touches only documents with its id.** -/
theorem Synced.mem_live_markDeleted (h : Synced l dirs) {docId : DocId} {doc : Document}
    (hdoc : doc ∈ SegmentDirs.live dirs) (hne : doc.id ≠ docId) :
    doc ∈ SegmentDirs.live (l.markDeleted dirs docId).2.2 := by
  rcases h.markDeleted_cases docId with
    ⟨-, heq⟩ | ⟨e, -, docs, deletions, i, d, hlook, hd, hid, heq⟩
  · rwa [heq]
  · rw [heq]
    obtain ⟨id, dir, hdir, hmem⟩ := SegmentDirs.mem_live.mp hdoc
    by_cases hseg : id = e.segmentId
    · subst hseg
      rw [hlook, Option.some.injEq] at hdir
      rw [← hdir, SegmentDir.live_of_open (openDir_written _ _), Multiset.mem_coe] at hmem
      obtain ⟨j, -, hget⟩ := List.mem_filterMap.mp hmem
      rw [SegmentReader.getDoc_ofDocs] at hget
      split at hget
      · cases hget
      · next hj =>
        -- the bit set is that of another document
        have hji : j ≠ i := by
          rintro rfl
          rw [hd, Option.some.injEq] at hget
          exact hne (hget ▸ hid)
        refine SegmentDirs.mem_live.mpr ⟨_, _, AList.lookup_insert dirs, ?_⟩
        rw [SegmentDir.live_of_open (openDir_written _ _), Multiset.mem_coe]
        refine SegmentReader.mem_liveDocuments_of_getDoc (i := j) ?_
        rw [SegmentReader.getDoc_ofDocs, Option.getD_some, if_neg (by simp [hji, hj])]
        exact hget
    · exact SegmentDirs.mem_live.mpr ⟨id, dir, by rwa [AList.lookup_insert_ne hseg], hmem⟩

/-- **An installation loses nothing that is live on disk**, if the new segment has what the old
ones can read. -/
theorem Synced.mem_live_installDirs (h : Synced l dirs) (hreg : Registered l dirs)
    {oldIds : List SegmentId} (hold : ∀ id ∈ oldIds, id ∈ dirs) {docs : List Document}
    (hdocs : ∀ e ∈ l.segments, e.segmentId ∈ oldIds → ∀ d ∈ e.reader.liveDocuments, d ∈ docs)
    {doc : Document} (hdoc : doc ∈ SegmentDirs.live dirs ∨ doc ∈ docs) :
    doc ∈ SegmentDirs.live (l.installDirs dirs oldIds docs) := by
  rw [h.live_installDirs hold, Multiset.mem_add, Multiset.mem_coe]
  rcases hdoc with hlive | hnew
  · obtain ⟨id, dir, hdir, hmem⟩ := SegmentDirs.mem_live.mp hlive
    by_cases hid : id ∈ oldIds
    · have hopen : SegmentReader.openDir dir ≠ none := fun hnone => by
        rw [SegmentDir.live_of_not_open hnone] at hmem
        exact Multiset.notMem_zero doc hmem
      obtain ⟨e, he, rfl⟩ := hreg id dir hdir hopen
      obtain ⟨docs', deleted, deletions, hreader, hlook, hsub⟩ := h.onDisk e he
      rw [hlook, Option.some.injEq] at hdir
      rw [← hdir, SegmentDir.live_of_open (openDir_written _ _), Multiset.mem_coe] at hmem
      have hread := (SegmentReader.liveDocuments_sublist docs' hsub).subset hmem
      rw [← hreader] at hread
      exact Or.inl (hdocs e he hid doc hread)
    · refine Or.inr (SegmentDirs.mem_live.mpr ⟨id, dir, ?_, hmem⟩)
      rw [lookup_eraseAll, if_neg hid, hdir]
  · exact Or.inl hnew

end

namespace ShardEngine

/-- What a replay of log entries does to the state it starts from. -/
structure Replayed (s : ShardEngine) (entries : List WalEntry) (t : ShardEngine) : Prop where
  segments : t.segments.segments = s.segments.segments
  registered : Registered s.segments s.dirs → Registered t.segments t.dirs
  deletedIds : ∀ docId ∈ t.writeBuffer.deletedIds,
    docId ∈ s.writeBuffer.deletedIds ∨ .delete docId ∈ entries
  live : ∀ doc ∈ SegmentDirs.live s.dirs, .delete doc.id ∉ entries →
    doc ∈ SegmentDirs.live t.dirs

/-- **A replay deletes what the entries delete**, and nothing else. -/
theorem replayed_foldl : ∀ (entries : List WalEntry) {s : ShardEngine}, Inv s →
    Replayed s entries (entries.foldl replay s)
  | [], _, _ => ⟨rfl, id, fun _ h => Or.inl h, fun _ h _ => h⟩
  | .index doc :: entries, s, h => by
    have hrest := replayed_foldl entries (h.replay (.index doc))
    refine ⟨hrest.segments, hrest.registered, fun docId hid => ?_, fun d hd hnot => ?_⟩
    · exact (hrest.deletedIds docId hid).imp_right (List.mem_cons_of_mem _)
    · exact hrest.live d hd (fun hmem => hnot (List.mem_cons_of_mem _ hmem))
  | .delete deletedId :: entries, s, h => by
    have hrest := replayed_foldl entries (h.replay (.delete deletedId))
    refine ⟨hrest.segments.trans (h.synced.segments_markDeleted deletedId),
      fun hreg => hrest.registered (hreg.markDeleted h.synced deletedId), fun docId hid => ?_,
      fun d hd hnot => ?_⟩
    · rcases hrest.deletedIds docId hid with hold | hmem
      · rcases Finset.mem_insert.mp hold with rfl | hold
        · exact Or.inr List.mem_cons_self
        · exact Or.inl hold
      · exact Or.inr (List.mem_cons_of_mem _ hmem)
    · have hne : d.id ≠ deletedId := by
        rintro rfl
        exact hnot List.mem_cons_self
      exact hrest.live d (h.synced.mem_live_markDeleted hd hne)
        (fun hmem => hnot (List.mem_cons_of_mem _ hmem))

/-- A restart opens the directories and replays the log. -/
theorem replayed_reopened {s : ShardEngine} (h : Inv s) :
    Replayed (beforeReplay s.writeBuffer.capacityBytes s.searcher s.disk) s.wal.readAll
      s.reopened := by
  have hbase : Inv (beforeReplay s.writeBuffer.capacityBytes s.searcher s.disk) :=
    inv_beforeReplay h.intact
  exact replayed_foldl s.wal.readAll hbase

/-- No directory is forgotten. -/
theorem registered_change {s : ShardEngine} (hinv : Inv s) (hreg : Registered s.segments s.dirs)
    (c : Change) : Registered (s.change c).segments (s.change c).dirs := by
  cases c with
  | accept docs => exact hreg
  | delete docId => exact hreg.markDeleted hinv.synced docId
  | refresh => exact hreg
  | drop => exact hreg
  | flush => exact hreg.install _ _
  | merge ids => exact hreg.install _ _
  | reindex => exact hreg.install _ _
  | reopen => exact (replayed_reopened hinv).registered (Registered.openDirs s.dirs)

/-! ## 2. A document that is present -/

/-- The shard has this document for its id, once; it is on disk if a segment shows it, and the
log does not delete it there. -/
structure HeldOnce (s : ShardEngine) (doc : Document) : Prop where
  once : s.holds.filter (fun d => d.id = doc.id) = {doc}
  onDisk : doc ∈ s.segments.liveDocuments → doc ∈ SegmentDirs.live s.dirs
  unlogged : doc ∈ s.segments.liveDocuments → .delete doc.id ∉ s.wal.readAll

/-- And it is shown. -/
structure Present (s : ShardEngine) (doc : Document) : Prop extends HeldOnce s doc where
  shown : doc ∈ s.writeBuffer.docs → doc.id ∉ s.writeBuffer.deletedIds

theorem HeldOnce.mem_holds {s : ShardEngine} {doc : Document} (h : s.HeldOnce doc) :
    doc ∈ s.holds := by
  have hmem : doc ∈ s.holds.filter (fun d => d.id = doc.id) := by
    rw [h.once]
    exact Multiset.mem_singleton_self doc
  exact Multiset.mem_of_mem_filter hmem

/-- Whatever has the id is the document. -/
theorem HeldOnce.eq_of_mem {s : ShardEngine} {doc d : Document} (h : s.HeldOnce doc)
    (hd : d ∈ s.holds) (hid : d.id = doc.id) : d = doc := by
  have hmem : d ∈ s.holds.filter (fun d => d.id = doc.id) := Multiset.mem_filter.mpr ⟨hd, hid⟩
  rw [h.once] at hmem
  exact Multiset.mem_singleton.mp hmem

/-- **A document that is present is shown once.** -/
theorem Present.showsOnce {s : ShardEngine} {doc : Document} (hinv : Inv s) (h : s.Present doc) :
    s.ShowsOnce doc := by
  rw [hinv.readable.showsOnce_iff, ← h.once, ShardEngine.visible, holds, Multiset.filter_add,
    Multiset.filter_add, add_right_inj, WriteBuffer.allDocs, Multiset.filter_coe,
    Multiset.filter_coe, List.filter_filter]
  refine congrArg _ (List.filter_congr (fun d hd => ?_))
  by_cases hid : d.id = doc.id
  · have hd' : d ∈ s.holds := Multiset.mem_add.mpr (Or.inr (Multiset.mem_coe.mpr hd))
    obtain rfl := h.toHeldOnce.eq_of_mem hd' hid
    simp [h.shown hd]
  · simp [hid]

/-- **A growing change that does not index the id goes on holding the document once.** -/
theorem HeldOnce.change {s : ShardEngine} {doc : Document} (hinv : Inv s)
    (hreg : Registered s.segments s.dirs) (h : s.HeldOnce doc) {c : Change} (hc : s.Enabled c)
    (hgrows : c.Grows) (hnew : ∀ d ∈ indexedDocs c.entries, d.id ≠ doc.id) :
    (s.change c).HeldOnce doc := by
  have honce : (s.change c).holds.filter (fun d => d.id = doc.id) = {doc} := by
    have hnone : (↑(indexedDocs c.entries) : Multiset Document).filter (fun d => d.id = doc.id)
        = 0 := Multiset.filter_eq_nil.mpr hnew
    rw [holds_change hc hgrows, Multiset.filter_add, h.once, hnone, add_zero]
  cases c with
  | accept docs =>
    refine ⟨honce, h.onDisk, fun hseg hmem => ?_⟩
    have hmem' : .delete doc.id ∈ (s.wal.appendBatch (docs.map .index)).2.readAll := hmem
    rw [Log.readAll_appendBatch] at hmem'
    rcases List.mem_append.mp hmem' with hold | hadded
    · exact h.unlogged hseg hold
    · obtain ⟨d, -, hd⟩ := List.mem_map.mp hadded
      cases hd
  | delete docId => exact hgrows.elim
  | refresh => exact ⟨honce, h.onDisk, h.unlogged⟩
  | drop => exact ⟨honce, h.onDisk, h.unlogged⟩
  | flush =>
    refine ⟨honce, fun hseg => ?_, fun _ => List.not_mem_nil⟩
    refine hinv.synced.mem_live_installDirs hreg (by simp) (by simp) ?_
    rw [← Multiset.mem_coe] at hseg
    have hmem : doc ∈ (↑s.flushed.segments.liveDocuments : Multiset Document) := hseg
    rw [coe_liveDocuments_flushed, Multiset.mem_add] at hmem
    exact hmem.imp h.onDisk id
  | merge ids =>
    have hsegs : doc ∈ (s.merged ids).segments.liveDocuments → doc ∈ s.segments.liveDocuments := by
      intro hseg
      rw [← Multiset.mem_coe, coe_liveDocuments_merged] at hseg
      exact hseg
    refine ⟨honce, fun hseg => ?_, fun hseg => h.unlogged (hsegs hseg)⟩
    refine hinv.synced.mem_live_installDirs hreg (fun id hid => hinv.mem_dirs (hc id hid)) ?_
      (Or.inl (h.onDisk (hsegs hseg)))
    intro e he hid d hd
    exact List.mem_flatMap.mpr ⟨e, List.mem_filter.mpr ⟨he, by simpa using hid⟩, hd⟩
  | reindex =>
    have hsegs : doc ∈ s.reindexed.segments.liveDocuments → doc ∈ s.segments.liveDocuments := by
      intro hseg
      rw [← Multiset.mem_coe, coe_liveDocuments_reindexed] at hseg
      exact hseg
    refine ⟨honce, fun hseg => ?_, fun _ => List.not_mem_nil⟩
    refine hinv.synced.mem_live_installDirs hreg (fun id hid => hinv.mem_dirs hid) ?_
      (Or.inl (h.onDisk (hsegs hseg)))
    intro e he _ d hd
    exact List.mem_flatMap.mpr ⟨e, he, hd⟩
  | reopen => exact hgrows.elim

/-- And so do changes that log nothing. -/
theorem HeldOnce.run_quiet {s : ShardEngine} {doc : Document} (hinv : Inv s)
    (hreg : Registered s.segments s.dirs) (h : s.HeldOnce doc) {cs : List Change}
    (hcs : LabelledRun.Along ShardEngine.change (fun s c => s.Enabled c ∧ c.Grows) s cs)
    (hquiet : cs.flatMap Change.entries = []) :
    (LabelledRun.run ShardEngine.change s cs).HeldOnce doc := by
  have halong := LabelledRun.Along.and _ s hcs
    (LabelledRun.along_of_forall (Q := fun c : Change => c.entries = []) cs s
      (List.flatMap_eq_nil_iff.mp hquiet))
  exact (LabelledRun.Along.inv
    (I := fun s => Inv s ∧ Registered s.segments s.dirs ∧ s.HeldOnce doc)
    (fun s c hs hc => ⟨hs.1.after hc.1.1, registered_change hs.1 hs.2.1 c,
      hs.2.2.change hs.1 hs.2.1 hc.1.1 hc.1.2 (by rw [hc.2]; exact fun _ hd => nomatch hd)⟩)
    cs s halong ⟨hinv, hreg, h⟩).2.2

/-- An operation that logs nothing keeps it present. -/
theorem Present.quiet {s : ShardEngine} {doc : Document} (hinv : Inv s)
    (hreg : Registered s.segments s.dirs) (h : s.Present doc) {op : Op} (hquiet : op.entries = [])
    (hdelete : op.AppendOnly) (hopen : op.StaysOpen) : (s.step op).Present doc := by
  have hheld : (s.step op).HeldOnce doc := by
    rw [step_eq hinv]
    exact h.toHeldOnce.run_quiet hinv hreg (along_grows s hdelete hopen)
      (by rw [entries_changes, hquiet])
  refine ⟨hheld, fun hmem => ?_⟩
  rcases writeBuffer_step hinv hquiet hopen with hempty | ⟨hdocs, hdeleted⟩
  · rw [hempty] at hmem
    exact absurd hmem List.not_mem_nil
  · rw [hdeleted]
    exact h.shown (hdocs ▸ hmem)

/-- Deleting another id keeps it present. -/
theorem Present.deleted {s : ShardEngine} {doc : Document} (hinv : Inv s) (h : s.Present doc)
    {docId : DocId} (hne : doc.id ≠ docId) : (s.deleted docId).Present doc := by
  have hstep : s.step (.delete docId) = s.deleted docId := step_eq hinv _
  have hholds : (s.step (.delete docId)).holds = s.holds + 0 := holds_step hinv trivial
  have hsegs := hinv.liveDocuments_deleted docId
  refine ⟨⟨?_, fun hseg => ?_, fun hseg hmem => ?_⟩, fun hdoc hmem => ?_⟩
  · rw [← hstep, hholds, add_zero, h.once]
  · rw [hsegs] at hseg
    exact hinv.synced.mem_live_markDeleted (h.onDisk hseg) hne
  · have hmem' : .delete doc.id ∈ (s.wal.appendBatch [.delete docId]).2.readAll := hmem
    rw [hsegs] at hseg
    rw [Log.readAll_appendBatch] at hmem'
    rcases List.mem_append.mp hmem' with hold | hadded
    · exact h.unlogged hseg hold
    · cases List.mem_singleton.mp hadded
      exact hne rfl
  · rcases Finset.mem_insert.mp hmem with hid | hold
    · exact hne hid
    · exact h.shown hdoc hold

/-! ## 3. Indexing and restarts -/

/-- Documents with ids of which the shard holds nothing, each id once. -/
def Unheld (s : ShardEngine) (docs : List Document) : Prop :=
  (docs.map Document.id).Nodup ∧ ∀ doc ∈ docs, ∀ d ∈ s.holds, d.id ≠ doc.id

instance (s : ShardEngine) (docs : List Document) : Decidable (s.Unheld docs) :=
  inferInstanceAs (Decidable (_ ∧ _))

/-- Documents whose ids the shard held nothing of are held once when they are accepted. -/
theorem heldOnce_accepted {s : ShardEngine} {docs : List Document} (hunheld : s.Unheld docs)
    {doc : Document} (hdoc : doc ∈ docs) : (s.accepted docs).HeldOnce doc := by
  have hnot : doc ∉ s.segments.liveDocuments := fun hseg =>
    hunheld.2 doc hdoc doc (Multiset.mem_add.mpr (Or.inl hseg)) rfl
  refine ⟨?_, fun hseg => absurd hseg hnot, fun hseg => absurd hseg hnot⟩
  have hholds : (s.accepted docs).holds = s.holds + ↑(indexedDocs (docs.map .index)) :=
    holds_change (c := .accept docs) trivial trivial
  have hnone : s.holds.filter (fun d => d.id = doc.id) = 0 :=
    Multiset.filter_eq_nil.mpr (hunheld.2 doc hdoc)
  rw [hholds, indexedDocs_map_index, Multiset.filter_add, hnone, zero_add, Multiset.filter_coe,
    filter_id_eq hunheld.1 hdoc]
  rfl

/-- **After an index call** the new documents are present, and those of other ids still. -/
theorem present_acceptChanges {s : ShardEngine} (hinv : Inv s) (hreg : Registered s.segments s.dirs)
    {docs : List Document} (hunheld : s.Unheld docs) (hshows : s.ShowsAtOnce docs)
    {doc : Document} (h : doc ∈ docs ∨ s.Present doc ∧ ∀ d ∈ docs, d.id ≠ doc.id) :
    (LabelledRun.run change s (s.acceptChanges docs)).Present doc := by
  have hheld : (s.accepted docs).HeldOnce doc := by
    rcases h with hdoc | ⟨hpresent, hne⟩
    · exact heldOnce_accepted hunheld hdoc
    · exact hpresent.toHeldOnce.change (c := .accept docs) hinv hreg trivial trivial
        (by rwa [Change.entries, indexedDocs_map_index])
  rw [acceptChanges]
  by_cases hfull : (s.writeBuffer.addAll docs).1 = true
  · rw [if_pos hfull]
    have hgrows := LabelledRun.Along.and _ _ (along_flushChanges (s.accepted docs))
      (LabelledRun.along_of_forall (Q := Change.Grows) _ _ (grows_flushChanges (s.accepted docs)))
    refine ⟨hheld.run_quiet (hinv.accepted docs) hreg hgrows (entries_flushChanges _),
      fun hmem => ?_⟩
    have hempty := docs_run_flushChanges (s.accepted docs)
    exact absurd hmem (by rw [LabelledRun.run_cons]; exact hempty ▸ List.not_mem_nil)
  · rw [if_neg hfull]
    refine ⟨hheld, fun hmem => ?_⟩
    have hmem' : doc ∈ (s.writeBuffer.addAll docs).2.docs := hmem
    show doc.id ∉ (s.writeBuffer.addAll docs).2.deletedIds
    rw [WriteBuffer.addAll_docs, List.mem_append] at hmem'
    rw [WriteBuffer.addAll_deletedIds]
    rcases h with hdoc | ⟨hpresent, hne⟩
    · exact hshows.resolve_right hfull doc hdoc
    · exact hpresent.shown (hmem'.resolve_right fun hdoc => hne doc hdoc rfl)

/-- **A restart keeps it present**, if the log deletes no document that the buffer shows. -/
theorem Present.reopened {s : ShardEngine} {doc : Document} (hinv : Inv s)
    (hreg : Registered s.segments s.dirs) (hwal : indexedDocs s.wal.readAll = s.writeBuffer.docs)
    (h : s.Present doc)
    (hlog : ∀ d ∈ s.writeBuffer.allDocs, WalEntry.delete d.id ∉ s.wal.readAll) :
    s.reopened.Present doc := by
  have hreplayed := replayed_reopened hinv
  obtain ⟨-, hdocs, hsame⟩ := hinv.reopened_spec
  rw [hwal] at hdocs
  have hlive : (↑s.reopened.segments.liveDocuments : Multiset Document)
      = SegmentDirs.live s.dirs := by
    rw [SegmentList.liveDocuments, hreplayed.segments]
    exact SegmentList.coe_liveDocuments_openDirs s.dirs
  have hseg : doc ∈ s.reopened.segments.liveDocuments → doc ∈ s.segments.liveDocuments := by
    intro hmem
    rw [← Multiset.mem_coe, hlive] at hmem
    exact Multiset.mem_coe.mp (Multiset.mem_of_le (hinv.synced.live_le hreg) hmem)
  refine ⟨⟨le_antisymm ?_ ?_, fun hmem => ?_, fun hmem => ?_⟩, fun hmem hdeleted => ?_⟩
  · rw [← h.once, holds, holds, hlive, hdocs]
    exact Multiset.filter_le_filter _ (add_le_add_left (hinv.synced.live_le hreg) _)
  · rw [Multiset.singleton_le, Multiset.mem_filter, holds, hlive, hdocs]
    have hholds := Multiset.mem_add.mp h.toHeldOnce.mem_holds
    exact ⟨Multiset.mem_add.mpr (hholds.imp_left h.onDisk), rfl⟩
  · refine hreplayed.live doc ?_ (h.unlogged (hseg hmem))
    rw [← Multiset.mem_coe, hlive] at hmem
    exact hmem
  · rw [hsame]
    exact h.unlogged (hseg hmem)
  · rw [hdocs] at hmem
    have hall : doc ∈ s.writeBuffer.allDocs :=
      List.mem_filter.mpr ⟨hmem, by simpa using h.shown hmem⟩
    rcases hreplayed.deletedIds doc.id hdeleted with hnew | hlogged
    · exact absurd hnew (Finset.notMem_empty _)
    · exact hlog doc hall hlogged

/-! ## 4. Runs -/

/-- What is live after one more log entry. -/
def liveAfter (live : DocId → Option Document) : WalEntry → DocId → Option Document
  | .index doc => insertDoc live doc
  | .delete docId => Function.update live docId none

/-- **What is live after index and delete calls**: for each id the document indexed last, unless
the id has been deleted since. -/
def liveDocs (entries : List WalEntry) : DocId → Option Document :=
  entries.foldl liveAfter (fun _ => none)

/-- Live after a batch is what the batch indexes, or what was live under another id. -/
theorem foldl_liveAfter_index : ∀ (docs : List Document) {live : DocId → Option Document}
    {docId : DocId} {doc : Document},
    (docs.map .index).foldl liveAfter live docId = some doc →
      doc ∈ docs ∨ live docId = some doc ∧ ∀ d ∈ docs, d.id ≠ docId
  | [], _, _, _, h => Or.inr ⟨h, fun _ hd => absurd hd List.not_mem_nil⟩
  | d :: docs, live, docId, doc, h => by
    rcases foldl_liveAfter_index docs h with hmem | ⟨hlive, hne⟩
    · exact Or.inl (List.mem_cons_of_mem _ hmem)
    · by_cases hid : docId = d.id
      · rw [liveAfter, insertDoc, hid, Function.update_self, Option.some.injEq] at hlive
        exact Or.inl (hlive ▸ List.mem_cons_self)
      · rw [liveAfter, insertDoc, Function.update_of_ne hid] at hlive
        refine Or.inr ⟨hlive, fun d' hd' => ?_⟩
        rcases List.mem_cons.mp hd' with rfl | hd'
        · exact fun heq => hid heq.symm
        · exact hne d' hd'

/-- **No trace of a deletion meets a document.**  An index call finds nothing with the id of the
document, in a segment or in the buffer, and no deletion of it in the buffer unless the call
fills the buffer; a restart finds no deletion in the log of a document that the buffer shows. -/
def KeepsInSight (s : ShardEngine) : Op → Prop
  | .index doc => s.Unheld [doc] ∧ s.ShowsAtOnce [doc]
  | .indexBatch docs => s.Unheld docs ∧ s.ShowsAtOnce docs
  | .reopen => ∀ doc ∈ s.writeBuffer.allDocs, .delete doc.id ∉ s.wal.readAll
  | _ => True

instance (s : ShardEngine) : DecidablePred s.KeepsInSight
  | .index doc => inferInstanceAs (Decidable (s.Unheld [doc] ∧ s.ShowsAtOnce [doc]))
  | .indexBatch docs => inferInstanceAs (Decidable (s.Unheld docs ∧ s.ShowsAtOnce docs))
  | .reopen =>
    inferInstanceAs (Decidable (∀ doc ∈ s.writeBuffer.allDocs, .delete doc.id ∉ s.wal.readAll))
  | .delete _ | .search _ | .flush | .runMerge _ | .reindexSelf => isTrue trivial

/-- What the steps of a run rely on. -/
structure Grounded (s : ShardEngine) : Prop where
  inv : Inv s
  registered : Registered s.segments s.dirs
  bounded : ∃ log, Bounded s log

theorem Grounded.step {s : ShardEngine} (h : Grounded s) (op : Op) : Grounded (s.step op) := by
  rw [step_eq h.inv op]
  refine LabelledRun.Along.inv (fun s c hs hc => ⟨hs.inv.after hc,
    registered_change hs.inv hs.registered c, ?_⟩) _ s (along_changes s op) h
  obtain ⟨log, hlog⟩ := hs.bounded
  exact ⟨_, hlog.change hs.inv hc⟩

theorem grounded_new (writeBufferSize : Nat) (searcher : MultiSegmentSearcher) :
    Grounded (openDisk writeBufferSize searcher Disk.empty) :=
  ⟨inv_new writeBufferSize searcher, (exact_new writeBufferSize searcher).registered,
    [], bounded_new writeBufferSize searcher⟩

/-- All that is live is present. -/
def KeepsLive (s : ShardEngine) (live : DocId → Option Document) : Prop :=
  ∀ doc, live doc.id = some doc → s.Present doc

/-- **One operation.** -/
theorem KeepsLive.step {s : ShardEngine} (hs : Grounded s) {live : DocId → Option Document}
    (h : s.KeepsLive live) {op : Op} (hop : s.KeepsInSight op) :
    (s.step op).KeepsLive (op.entries.foldl liveAfter live) := by
  have haccept : ∀ docs, s.Unheld docs ∧ s.ShowsAtOnce docs →
      (LabelledRun.run change s (s.acceptChanges docs)).KeepsLive
        ((docs.map .index).foldl liveAfter live) := by
    intro docs hdocs doc hlive
    exact present_acceptChanges hs.inv hs.registered hdocs.1 hdocs.2
      ((foldl_liveAfter_index docs hlive).imp_right (fun hold => ⟨h doc hold.1, hold.2⟩))
  cases op with
  | index doc =>
    rw [step_eq hs.inv]
    exact haccept [doc] hop
  | indexBatch docs =>
    rw [step_eq hs.inv]
    exact haccept docs hop
  | delete docId =>
    intro doc hlive
    have hlive' : Function.update live docId none doc.id = some doc := hlive
    have hne : doc.id ≠ docId := by
      intro hid
      rw [hid, Function.update_self] at hlive'
      cases hlive'
    rw [Function.update_of_ne hne] at hlive'
    rw [step_eq hs.inv]
    exact (h doc hlive').deleted hs.inv hne
  | reopen =>
    intro doc hlive
    obtain ⟨log, hlog⟩ := hs.bounded
    exact (h doc hlive).reopened hs.inv hs.registered hlog.wal hop
  | _ => exact fun doc hlive => (h doc hlive).quiet hs.inv hs.registered rfl trivial trivial

/-- **Whatever is live is found.**  In every run that lets no trace of a deletion meet a document,
in every state it reaches, every further operation succeeds, and every match-all search has
exactly one hit with the id of a live document, with the contents indexed last. -/
theorem live_shown_once (writeBufferSize : Nat) (searcher : MultiSegmentSearcher) (ops : List Op)
    (hops : LabelledRun.Along step KeepsInSight
      (openDisk writeBufferSize searcher Disk.empty) ops) (n : Nat) :
    let s := runNew writeBufferSize searcher (ops.take n)
    (∀ op, (exec op s).1 = .ok ()) ∧
    ∀ doc, liveDocs ((ops.take n).flatMap Op.entries) doc.id = some doc → s.ShowsOnce doc := by
  have hinv := inv_runNew writeBufferSize searcher (ops.take n)
  refine ⟨fun op => by rw [exec_eq hinv], fun doc hlive => ?_⟩
  have hrun := LabelledRun.Along.ghost (I := fun s live => Grounded s ∧ s.KeepsLive live)
    (fun live op => op.entries.foldl liveAfter live)
    (fun s op live h hop => ⟨h.1.step op, h.2.step h.1 hop⟩) _ _ (fun _ => none) (hops.take n)
    ⟨grounded_new writeBufferSize searcher, fun _ h => nomatch h⟩
  rw [← List.foldl_flatMap] at hrun
  exact (hrun.2 doc hlive).showsOnce hinv

/-- A flush of nothing and a flush of the document clear the traces of its deletion. -/
theorem live_shown_once_reopened :
    (runNew 1000 .unscored (List.take 8 [.index (titled 1 "a"), .flush, .delete 1, .reopen, .flush,
      .index (titled 1 "b"), .flush, .reopen])).ShowsOnce (titled 1 "b") :=
  (live_shown_once 1000 .unscored [.index (titled 1 "a"), .flush, .delete 1, .reopen, .flush,
    .index (titled 1 "b"), .flush, .reopen] (by decide) 8).2 (titled 1 "b") (by decide)

/-- A document deleted in the buffer and indexed again is not found. -/
theorem not_showsOnce_buffered :
    liveDocs [.index (titled 1 "a"), .delete 1] 1 = none ∧
    liveDocs [.index (titled 1 "a"), .delete 1, .index (titled 1 "b")] 1 = some (titled 1 "b") ∧
    ¬ (runNew 1000 .unscored
      [.index (titled 1 "a"), .delete 1, .index (titled 1 "b")]).ShowsOnce (titled 1 "b") := by
  refine ⟨by decide, by decide, fun hshows => ?_⟩
  obtain ⟨response, hok, hhits⟩ := hshows { limit := 2 } ⟨rfl, rfl, rfl, by decide⟩
  have hnone : (search { limit := 2 } (runNew 1000 .unscored
      [.index (titled 1 "a"), .delete 1, .index (titled 1 "b")])).1.toOption.map
        (fun response => response.hits) = some [] := by decide
  rw [hok, Except.toOption, Option.map_some, Option.some.injEq] at hnone
  rw [hnone] at hhits
  cases hhits

end ShardEngine

end ZearchEngine
