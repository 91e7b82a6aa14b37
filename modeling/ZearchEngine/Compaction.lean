/-
# Deleted documents and compaction

A deletion is recorded in the bitmap of a segment on disk, and from there every reader that is
opened later leaves the document out.  A merge and a reindex, though, read through the readers
that are open, and these have the bitmaps of the time they were opened.  A merge of a segment
with a bitmap that has grown since (`UpToDate` fails) writes the deleted document into the new
segment, without a deletion, and removes the bitmap with the old directory.

In every run whose merges and reindexes read only segments that are up to date, an id that was
once recorded as deleted has no live copy on disk ever after (`no_resurrection`).
-/
import ZearchEngine.AppendOnly
import Mathlib.Algebra.Order.BigOperators.Group.Finset
import Mathlib.Algebra.Order.BigOperators.Group.List
import Mathlib.Algebra.Order.Group.Multiset

namespace ZearchEngine

open KeyedStore

/-! ## 1. Stored, live and deleted documents -/

/-- More bits leave fewer live documents in a directory. -/
theorem SegmentDir.mem_live_of_subset {docs : List Document} {deletions deletions' : Option Bitmap}
    (h : deletions.getD ∅ ⊆ deletions'.getD ∅) {doc : Document}
    (hdoc : doc ∈ (SegmentDir.written docs deletions').live) :
    doc ∈ (SegmentDir.written docs deletions).live := by
  rw [live_of_open (openDir_written _ _), Multiset.mem_coe] at hdoc ⊢
  exact (SegmentReader.liveDocuments_sublist docs h).subset hdoc

/-- A reader shows at least what its directory shows: bits are only ever added on disk. -/
theorem Synced.share_live_le {l : SegmentList} {dirs : SegmentDirs} (h : Synced l dirs)
    {e : SegmentEntry} (he : e ∈ l.segments) :
    share SegmentDir.live (dirs.lookup e.segmentId) ≤ ↑e.reader.liveDocuments := by
  obtain ⟨docs, deleted, deletions, hreader, hlook, hsub⟩ := h.onDisk e he
  rw [hreader, hlook, share_some, SegmentDir.live_of_open (openDir_written docs deletions),
    Multiset.coe_le]
  exact (SegmentReader.liveDocuments_sublist docs hsub).subperm

/-- What marking documents deleted does to the directories: the same documents are stored, and
none is live that was not. -/
structure Marked (dirs dirs' : SegmentDirs) : Prop where
  stored : SegmentDirs.stored dirs' = SegmentDirs.stored dirs
  live : ∀ doc ∈ SegmentDirs.live dirs', doc ∈ SegmentDirs.live dirs

theorem Marked.refl (dirs : SegmentDirs) : Marked dirs dirs := ⟨rfl, fun _ h => h⟩

theorem Marked.trans {a b c : SegmentDirs} (hab : Marked a b) (hbc : Marked b c) : Marked a c :=
  ⟨hbc.stored.trans hab.stored, fun doc h => hab.live doc (hbc.live doc h)⟩

theorem Synced.marked {l : SegmentList} {dirs : SegmentDirs} (h : Synced l dirs) (docId : DocId) :
    Marked dirs (l.markDeleted dirs docId).2.2 := by
  rcases h.markDeleted_cases docId with
    ⟨-, heq⟩ | ⟨e, he, docs, deletions, i, -, hlook, -, -, heq⟩
  · rw [heq]
    exact Marked.refl dirs
  · rw [heq]
    refine ⟨total_congr _ (fun id => ?_), fun doc hdoc => ?_⟩
    · by_cases hid : id = e.segmentId
      · rw [hid, AList.lookup_insert, hlook, share_some, share_some, SegmentDir.stored_written,
          SegmentDir.stored_written]
      · rw [AList.lookup_insert_ne hid]
    · obtain ⟨id, dir, hdir, hmem⟩ := SegmentDirs.mem_live.mp hdoc
      by_cases hid : id = e.segmentId
      · rw [hid, AList.lookup_insert, Option.some.injEq] at hdir
        rw [← hdir] at hmem
        exact SegmentDirs.mem_live.mpr ⟨_, _, hlook,
          SegmentDir.mem_live_of_subset (Finset.subset_insert _ _) hmem⟩
      · rw [AList.lookup_insert_ne hid] at hdir
        exact SegmentDirs.mem_live.mpr ⟨id, dir, hdir, hmem⟩

/-- The total of a measure after an installation: the new segment, and what is not replaced. -/
theorem Synced.total_installDirs {M : Type} [AddCommMonoid M] {l : SegmentList}
    {dirs : SegmentDirs} (h : Synced l dirs) {oldIds : List SegmentId}
    (hold : ∀ id ∈ oldIds, id ∈ dirs) (docs : List Document) (f : SegmentDir → M) :
    total f (l.installDirs dirs oldIds docs)
      = f (SegmentDir.written docs none) + total f (eraseAll oldIds dirs) := by
  have hnext : (⟨l.nextSegmentSeq⟩ : SegmentId) ∉ oldIds := fun hmem =>
    h.next_notMem (hold _ hmem)
  have hfresh : (⟨l.nextSegmentSeq⟩ : SegmentId) ∉ eraseAll oldIds dirs := by
    rw [← AList.lookup_eq_none, lookup_eraseAll, if_neg hnext]
    exact AList.lookup_eq_none.mpr h.next_notMem
  rw [← total_insert_of_notMem f hfresh]
  refine total_congr f (fun id => congrArg (share f) ?_)
  rw [SegmentList.lookup_installDirs]
  by_cases hid : id = ⟨l.nextSegmentSeq⟩
  · rw [hid, if_neg hnext, if_pos rfl, AList.lookup_insert]
  · rw [if_neg hid, AList.lookup_insert_ne hid, lookup_eraseAll]

/-- What the directories show after an installation. -/
theorem Synced.live_installDirs {l : SegmentList} {dirs : SegmentDirs} (h : Synced l dirs)
    {oldIds : List SegmentId} (hold : ∀ id ∈ oldIds, id ∈ dirs) (docs : List Document) :
    SegmentDirs.live (l.installDirs dirs oldIds docs)
      = ↑docs + SegmentDirs.live (eraseAll oldIds dirs) := by
  rw [SegmentDirs.live, h.total_installDirs hold, SegmentDir.live_written_none, SegmentDirs.live]

/-- The reader of an open segment has the bits that are on disk. -/
def SegmentEntry.UpToDate (dirs : SegmentDirs) (e : SegmentEntry) : Prop :=
  (dirs.lookup e.segmentId).bind SegmentReader.loadDeletionBitmap
    = some e.reader.docs.deletionBitmap

instance (dirs : SegmentDirs) : DecidablePred (SegmentEntry.UpToDate dirs) := fun e =>
  inferInstanceAs (Decidable ((dirs.lookup e.segmentId).bind SegmentReader.loadDeletionBitmap
    = some e.reader.docs.deletionBitmap))

namespace ShardEngine

/-! ## 2. No document is stored twice -/

/-- Everything the shard holds, deleted or not, was indexed, and no more often.  The documents
of the log are those of the buffer. -/
structure Bounded (s : ShardEngine) (log : List WalEntry) : Prop where
  stored : SegmentDirs.stored s.dirs + ↑s.writeBuffer.docs ≤ ↑(indexedDocs log)
  wal : indexedDocs s.wal.readAll = s.writeBuffer.docs

/-- What is left of some directories is no more than what was there. -/
theorem stored_eraseAll_add (dirs : SegmentDirs) (ids : List SegmentId) :
    SegmentDirs.stored dirs = ∑ id ∈ ids.toFinset, share SegmentDir.stored (dirs.lookup id)
      + SegmentDirs.stored (eraseAll ids dirs) :=
  total_eraseAll SegmentDir.stored dirs ids

theorem sources_openIds (s : ShardEngine) : s.sources s.openIds = s.segments.segments := by
  rw [sources, List.filter_eq_self]
  intro e he
  have hid : e.segmentId ∈ s.openIds := List.mem_map_of_mem he
  simpa using hid

/-- A sum over the segments a compaction reads is one over their ids. -/
theorem Inv.sum_sources {M : Type} [AddCommMonoid M] {s : ShardEngine} (h : Inv s)
    {ids : List SegmentId} (hids : ∀ id ∈ ids, id ∈ s.openIds) (f : SegmentId → M) :
    ∑ id ∈ ids.toFinset, f id = ∑ e ∈ (s.sources ids).toFinset, f e.segmentId := by
  have hnodup : ((s.sources ids).map SegmentEntry.segmentId).Nodup :=
    h.synced.nodup.sublist (List.filter_sublist.map _)
  have hset : ((s.sources ids).map SegmentEntry.segmentId).toFinset = ids.toFinset := by
    ext id
    rw [List.mem_toFinset, List.mem_toFinset, List.mem_map]
    constructor
    · rintro ⟨e, he, rfl⟩
      exact of_decide_eq_true (List.mem_filter.mp he).2
    · intro hid
      obtain ⟨e, he, rfl⟩ := List.mem_map.mp (hids id hid)
      exact ⟨e, List.mem_filter.mpr ⟨he, by simpa using hid⟩, rfl⟩
  rw [← hset, List.sum_toFinset _ hnodup, List.map_map, List.sum_toFinset _ hnodup.of_map]
  rfl

/-- The documents a compaction collects, segment by segment. -/
theorem Inv.collected_eq_sum {s : ShardEngine} (h : Inv s) (ids : List SegmentId) :
    (↑((s.sources ids).flatMap (fun e => e.reader.liveDocuments)) : Multiset Document)
      = ∑ e ∈ (s.sources ids).toFinset, ↑e.reader.liveDocuments := by
  have hnodup : ((s.sources ids).map SegmentEntry.segmentId).Nodup :=
    h.synced.nodup.sublist (List.filter_sublist.map _)
  rw [coe_flatMap, List.sum_toFinset _ hnodup.of_map]

/-- The documents a compaction collects are stored in the segments it replaces. -/
theorem Inv.collected_le {s : ShardEngine} (h : Inv s) {ids : List SegmentId}
    (hids : ∀ id ∈ ids, id ∈ s.openIds) :
    (↑((s.sources ids).flatMap (fun e => e.reader.liveDocuments)) : Multiset Document)
      ≤ ∑ id ∈ ids.toFinset, share SegmentDir.stored (s.dirs.lookup id) := by
  rw [h.collected_eq_sum, h.sum_sources hids]
  refine Finset.sum_le_sum (fun e he => ?_)
  obtain ⟨docs, deleted, deletions, hreader, hlook, -⟩ :=
    h.synced.onDisk e (List.mem_of_mem_filter (List.mem_toFinset.mp he))
  rw [hreader, hlook, share_some, SegmentDir.stored_written, Multiset.coe_le]
  exact (SegmentReader.liveDocuments_sublist_docs docs deleted).subperm

/-- A compaction stores no more than there was. -/
theorem Inv.stored_installDirs_le {s : ShardEngine} (h : Inv s) {ids : List SegmentId}
    (hids : ∀ id ∈ ids, id ∈ s.openIds) :
    SegmentDirs.stored (s.segments.installDirs s.dirs ids
      ((s.sources ids).flatMap (fun e => e.reader.liveDocuments))) ≤ SegmentDirs.stored s.dirs := by
  rw [SegmentDirs.stored, h.synced.total_installDirs (fun id hid => h.mem_dirs (hids id hid)),
    SegmentDir.stored_written, stored_eraseAll_add s.dirs ids]
  exact add_le_add_left (h.collected_le hids) _

/-- A replay only marks documents deleted, and buffers what the log indexed. -/
theorem foldl_replay_spec : ∀ (entries : List WalEntry) {s : ShardEngine}, Inv s →
    Marked s.dirs (entries.foldl replay s).dirs ∧
    (entries.foldl replay s).writeBuffer.docs = s.writeBuffer.docs ++ indexedDocs entries ∧
    (entries.foldl replay s).wal = s.wal
  | [], s, _ => ⟨Marked.refl s.dirs, (List.append_nil _).symm, rfl⟩
  | .index doc :: entries, s, h => by
    obtain ⟨hmarked, hdocs, hwal⟩ := foldl_replay_spec entries (h.replay (.index doc))
    refine ⟨hmarked, hdocs.trans ?_, hwal⟩
    show (s.writeBuffer.docs ++ [doc]) ++ indexedDocs entries = _
    rw [List.append_assoc]
    rfl
  | .delete docId :: entries, s, h => by
    obtain ⟨hmarked, hdocs, hwal⟩ := foldl_replay_spec entries (h.replay (.delete docId))
    exact ⟨(h.synced.marked docId).trans hmarked, hdocs, hwal⟩

/-- What a restart does: the directories with some more documents marked, and the buffer from
the log. -/
theorem Inv.reopened_spec {s : ShardEngine} (h : Inv s) :
    Marked s.dirs s.reopened.dirs ∧ s.reopened.writeBuffer.docs = indexedDocs s.wal.readAll ∧
    s.reopened.wal.readAll = s.wal.readAll := by
  have hbase : Inv (beforeReplay s.writeBuffer.capacityBytes s.searcher s.disk) :=
    inv_beforeReplay h.intact
  obtain ⟨hmarked, hdocs, hwal⟩ := foldl_replay_spec (Log.openRecords s.disk.wal).readAll hbase
  exact ⟨hmarked, hdocs, by rw [ShardEngine.reopened, openDisk, Log.readAll, hwal]; rfl⟩

/-- **Every change keeps the shard within what was indexed.** -/
theorem Bounded.change {s : ShardEngine} {c : Change} {log : List WalEntry} (hinv : Inv s)
    (hc : s.Enabled c) (h : Bounded s log) : Bounded (s.change c) (log ++ c.entries) := by
  have keep : ∀ {t : ShardEngine}, Bounded t log → Bounded t (log ++ []) := fun ht => by
    rwa [List.append_nil]
  cases c with
  | accept docs =>
    refine ⟨?_, ?_⟩
    · show SegmentDirs.stored s.dirs + ↑(s.writeBuffer.addAll docs).2.docs
        ≤ (↑(indexedDocs (log ++ docs.map .index)) : Multiset Document)
      rw [WriteBuffer.addAll_docs, indexedDocs_append, indexedDocs_map_index, ← Multiset.coe_add,
        ← Multiset.coe_add, ← add_assoc]
      exact add_le_add_left h.stored _
    · show indexedDocs (s.wal.appendBatch (docs.map .index)).2.readAll
        = (s.writeBuffer.addAll docs).2.docs
      rw [Log.readAll_appendBatch, indexedDocs_append, indexedDocs_map_index, h.wal,
        WriteBuffer.addAll_docs]
  | delete docId =>
    refine ⟨?_, ?_⟩
    · show SegmentDirs.stored (s.segments.markDeleted s.dirs docId).2.2 + ↑s.writeBuffer.docs
        ≤ (↑(indexedDocs (log ++ [.delete docId])) : Multiset Document)
      rw [(hinv.synced.marked docId).stored, indexedDocs_append]
      exact h.stored.trans (by simp [indexedDocs])
    · show indexedDocs (s.wal.appendBatch [.delete docId]).2.readAll = s.writeBuffer.docs
      rw [Log.readAll_appendBatch, indexedDocs_append, h.wal]
      exact List.append_nil _
  | refresh =>
    refine keep ⟨?_, h.wal.trans (WriteBuffer.refreshed_docs s.writeBuffer).symm⟩
    show SegmentDirs.stored s.dirs + ↑s.writeBuffer.refreshed.docs ≤ _
    rw [WriteBuffer.refreshed_docs]
    exact h.stored
  | drop =>
    have hempty : s.writeBuffer.docs = [] := hc
    have hstored := h.stored
    have hwal := h.wal
    rw [hempty] at hstored hwal
    exact keep ⟨hstored, hwal⟩
  | flush =>
    refine keep ⟨?_, rfl⟩
    show SegmentDirs.stored (s.segments.installDirs s.dirs [] s.writeBuffer.docs) + 0 ≤ _
    rw [add_zero, SegmentDirs.stored, hinv.synced.total_installDirs (by simp),
      SegmentDir.stored_written, add_comm]
    exact h.stored
  | merge ids =>
    exact keep ⟨(add_le_add_left (hinv.stored_installDirs_le hc) _).trans h.stored, h.wal⟩
  | reindex =>
    have hempty : s.writeBuffer.docs = [] := hc
    have hopen : ∀ id ∈ s.openIds, id ∈ s.openIds := fun _ hid => hid
    have hle := hinv.stored_installDirs_le hopen
    rw [s.sources_openIds] at hle
    refine keep ⟨(add_le_add_left hle _).trans h.stored, ?_⟩
    show indexedDocs s.wal.truncate.readAll = s.writeBuffer.docs
    rw [hempty]
    rfl
  | reopen =>
    obtain ⟨hmarked, hdocs, hwal⟩ := hinv.reopened_spec
    refine keep ⟨?_, ?_⟩
    · show SegmentDirs.stored s.reopened.dirs + ↑s.reopened.writeBuffer.docs ≤ _
      rw [hmarked.stored, hdocs, h.wal]
      exact h.stored
    · show indexedDocs s.reopened.wal.readAll = s.reopened.writeBuffer.docs
      rw [hwal, hdocs]

theorem bounded_new (writeBufferSize : Nat) (searcher : MultiSegmentSearcher) :
    Bounded (openDisk writeBufferSize searcher Disk.empty) [] where
  stored := Multiset.zero_le _
  wal := rfl

theorem bounded_runNew (writeBufferSize : Nat) (searcher : MultiSegmentSearcher) (ops : List Op) :
    Bounded (runNew writeBufferSize searcher ops) (ops.flatMap Op.entries) := by
  have halways : LabelledRun.Along change (fun _ _ => True)
      (openDisk writeBufferSize searcher Disk.empty)
      ((openDisk writeBufferSize searcher Disk.empty).runChanges ops) :=
    LabelledRun.along_of_forall _ _ (fun _ _ => trivial)
  have hrun := run_inv (I := Bounded) (fun _ _ _ hinv hc _ h => h.change hinv hc)
    (inv_new writeBufferSize searcher) (bounded_new writeBufferSize searcher) halways
  rwa [List.nil_append] at hrun

/-- A deletion is that of a document that was indexed. -/
theorem Bounded.dead_le {s : ShardEngine} {log : List WalEntry} (h : Bounded s log) :
    SegmentDirs.dead s.dirs ≤ ↑(indexedDocs log) := by
  have hstored := h.stored
  rw [SegmentDirs.stored_eq] at hstored
  exact ((Multiset.le_add_left _ _).trans (Multiset.le_add_right _ _)).trans hstored

/-! ## 3. A recorded deletion -/

/-- A merge or a reindex reads only segments that are up to date. -/
def ReadsUpToDate (s : ShardEngine) : Change → Prop
  | .merge segmentIds => ∀ e ∈ s.sources segmentIds, e.UpToDate s.dirs
  | .reindex => ∀ e ∈ s.segments.segments, e.UpToDate s.dirs
  | _ => True

instance (s : ShardEngine) : DecidablePred s.ReadsUpToDate
  | .merge segmentIds => inferInstanceAs (Decidable (∀ e ∈ s.sources segmentIds, _))
  | .reindex => inferInstanceAs (Decidable (∀ e ∈ s.segments.segments, _))
  | .accept _ | .delete _ | .refresh | .drop | .flush | .reopen => isTrue trivial

/-- No document with the id is left: none that a directory shows, and none in the buffer. -/
structure Gone (s : ShardEngine) (docId : DocId) : Prop where
  onDisk : ∀ doc ∈ SegmentDirs.live s.dirs, doc.id ≠ docId
  buffered : ∀ doc ∈ s.writeBuffer.docs, doc.id ≠ docId

/-- **A recorded deletion has no copy left**, when every id was indexed once. -/
theorem Bounded.gone {s : ShardEngine} {log : List WalEntry} (h : Bounded s log)
    (hids : ((indexedDocs log).map Document.id).Nodup) {docId : DocId} {doc : Document}
    (hdoc : doc ∈ SegmentDirs.dead s.dirs) (hid : doc.id = docId) : s.Gone docId := by
  have hstored := h.stored
  rw [SegmentDirs.stored_eq] at hstored
  have hnodup : ((SegmentDirs.live s.dirs + SegmentDirs.dead s.dirs
      + ↑s.writeBuffer.docs).map Document.id).Nodup :=
    Multiset.nodup_of_le (Multiset.map_le_map hstored) (Multiset.coe_nodup.mpr hids)
  rw [Multiset.map_add, Multiset.map_add, Multiset.nodup_add, Multiset.nodup_add] at hnodup
  obtain ⟨⟨-, -, hlive⟩, -, hbuffer⟩ := hnodup
  have hdead : docId ∈ (SegmentDirs.dead s.dirs).map Document.id :=
    Multiset.mem_map.mpr ⟨doc, hdoc, hid⟩
  refine ⟨fun d hd heq => ?_, fun d hd heq => ?_⟩
  · exact Multiset.disjoint_left.mp hlive (Multiset.mem_map.mpr ⟨d, hd, heq⟩) hdead
  · exact Multiset.disjoint_left.mp hbuffer (Multiset.mem_add.mpr (Or.inr hdead))
      (Multiset.mem_map.mpr ⟨d, Multiset.mem_coe.mpr hd, heq⟩)

/-- The reader of an up-to-date segment is the one its directory opens to. -/
theorem Inv.open_of_upToDate {s : ShardEngine} (h : Inv s) {e : SegmentEntry}
    (he : e ∈ s.segments.segments) (hcur : e.UpToDate s.dirs) :
    ∃ dir, s.dirs.lookup e.segmentId = some dir ∧ SegmentReader.openDir dir = some e.reader := by
  obtain ⟨docs, deleted, deletions, hreader, hlook, -⟩ := h.synced.onDisk e he
  have hbits : deletions.getD ∅ = deleted := by
    rw [SegmentEntry.UpToDate, hlook, Option.bind_some, loadDeletionBitmap_written,
      Option.some.injEq, hreader] at hcur
    exact hcur
  exact ⟨_, hlook, by rw [openDir_written, hbits, hreader]⟩

/-- What it can read is live on disk. -/
theorem Inv.mem_live_of_upToDate {s : ShardEngine} (h : Inv s) {e : SegmentEntry}
    (he : e ∈ s.segments.segments) (hcur : e.UpToDate s.dirs) {doc : Document}
    (hdoc : doc ∈ e.reader.liveDocuments) : doc ∈ SegmentDirs.live s.dirs := by
  obtain ⟨dir, hlook, hopen⟩ := h.open_of_upToDate he hcur
  refine SegmentDirs.mem_live.mpr ⟨e.segmentId, dir, hlook, ?_⟩
  rw [SegmentDir.live_of_open hopen]
  exact hdoc

/-- A compaction of documents that are live on disk brings no id back. -/
theorem Gone.installed {s : ShardEngine} {docId : DocId} (h : s.Gone docId) (hinv : Inv s)
    {ids : List SegmentId} (hids : ∀ id ∈ ids, id ∈ s.openIds) {docs : List Document}
    (hdocs : ∀ doc ∈ docs, doc.id ≠ docId) : (s.installed ids docs).Gone docId := by
  refine ⟨fun doc hdoc => ?_, h.buffered⟩
  have hmem : doc ∈ SegmentDirs.live (s.segments.installDirs s.dirs ids docs) := hdoc
  rw [hinv.synced.live_installDirs (fun id hid => hinv.mem_dirs (hids id hid))] at hmem
  rcases Multiset.mem_add.mp hmem with hnew | hkept
  · exact hdocs doc hnew
  · refine h.onDisk doc ?_
    rw [SegmentDirs.live, total_eraseAll SegmentDir.live s.dirs ids]
    exact Multiset.mem_add.mpr (Or.inr hkept)

/-- **Every change that reads only what is up to date leaves the id gone**, unless it indexes
the id. -/
theorem Gone.change {s : ShardEngine} {c : Change} {log : List WalEntry} {docId : DocId}
    (h : s.Gone docId) (hinv : Inv s) (hbounded : Bounded s log) (hc : s.Enabled c)
    (hcur : s.ReadsUpToDate c) (hnew : ∀ doc ∈ indexedDocs c.entries, doc.id ≠ docId) :
    (s.change c).Gone docId := by
  cases c with
  | accept docs =>
    refine ⟨h.onDisk, fun doc hdoc => ?_⟩
    have hmem : doc ∈ (s.writeBuffer.addAll docs).2.docs := hdoc
    rw [WriteBuffer.addAll_docs] at hmem
    rcases List.mem_append.mp hmem with hold | hadded
    · exact h.buffered doc hold
    · exact hnew doc (by rwa [Change.entries, indexedDocs_map_index])
  | delete deletedId =>
    exact ⟨fun doc hdoc => h.onDisk doc ((hinv.synced.marked deletedId).live doc hdoc), h.buffered⟩
  | refresh =>
    refine ⟨h.onDisk, ?_⟩
    show ∀ doc ∈ s.writeBuffer.refreshed.docs, doc.id ≠ docId
    rw [WriteBuffer.refreshed_docs]
    exact h.buffered
  | drop => exact ⟨h.onDisk, fun _ hdoc => absurd hdoc List.not_mem_nil⟩
  | flush =>
    have hinst : (s.installed [] s.writeBuffer.docs).Gone docId :=
      h.installed hinv (by simp) h.buffered
    exact ⟨hinst.onDisk, fun _ hdoc => absurd hdoc List.not_mem_nil⟩
  | merge ids =>
    refine h.installed hinv hc (fun doc hdoc => ?_)
    obtain ⟨e, he, hlive⟩ := List.mem_flatMap.mp hdoc
    exact h.onDisk doc
      (hinv.mem_live_of_upToDate (List.mem_of_mem_filter he) (hcur e he) hlive)
  | reindex =>
    have hopen : ∀ id ∈ s.openIds, id ∈ s.openIds := fun _ hid => hid
    have hdocs : ∀ doc ∈ s.segments.liveDocuments, doc.id ≠ docId := by
      intro doc hdoc
      obtain ⟨e, he, hlive⟩ := List.mem_flatMap.mp hdoc
      exact h.onDisk doc (hinv.mem_live_of_upToDate he (hcur e he) hlive)
    have hinst := h.installed hinv hopen hdocs
    exact ⟨hinst.onDisk, hinst.buffered⟩
  | reopen =>
    obtain ⟨hmarked, hdocs, -⟩ := hinv.reopened_spec
    refine ⟨fun doc hdoc => h.onDisk doc (hmarked.live doc hdoc), ?_⟩
    show ∀ doc ∈ s.reopened.writeBuffer.docs, doc.id ≠ docId
    rw [hdocs, hbounded.wal]
    exact h.buffered

/-- An id that is gone is not found in the directory. -/
theorem Gone.openDirs {s : ShardEngine} {docId : DocId} (h : s.Gone docId) (hinv : Inv s) :
    (∀ doc ∈ (SegmentList.openDirs s.dirs).liveDocuments, doc.id ≠ docId) ∧
    (SegmentList.openDirs s.dirs).getDoc docId = none := by
  have hlive : ∀ doc ∈ (SegmentList.openDirs s.dirs).liveDocuments, doc.id ≠ docId := by
    intro doc hdoc
    rw [← Multiset.mem_coe, SegmentList.coe_liveDocuments_openDirs] at hdoc
    exact h.onDisk doc hdoc
  refine ⟨hlive, ?_⟩
  cases hget : (SegmentList.openDirs s.dirs).getDoc docId with
  | none => rfl
  | some doc =>
    obtain ⟨hmem, hid⟩ := hinv.intact.synced.of_getDoc_eq_some hget
    exact absurd hid (hlive doc hmem)

/-- **Deleted documents stay deleted where compactions read what is on disk.**  After any run,
take an id whose deletion is recorded in a bitmap on disk.  In every continuation whose merges
and reindexes read only segments that are up to date, and whatever else it does, the directory
never again shows a document with that id, and a list opened on it does not yield the id. -/
theorem no_resurrection (writeBufferSize : Nat) (searcher : MultiSegmentSearcher)
    (ops later : List Op) (hids : (((ops ++ later).flatMap Op.docs).map Document.id).Nodup)
    (docId : DocId)
    (hrec : docId ∈ (SegmentDirs.dead (runNew writeBufferSize searcher ops).dirs).map Document.id)
    (hcur : LabelledRun.Along change ReadsUpToDate (runNew writeBufferSize searcher ops)
      ((runNew writeBufferSize searcher ops).runChanges later)) :
    let s := runNew writeBufferSize searcher (ops ++ later)
    (∀ doc ∈ SegmentDirs.live s.dirs, doc.id ≠ docId) ∧
    (∀ doc ∈ (SegmentList.openDirs s.dirs).liveDocuments, doc.id ≠ docId) ∧
    (SegmentList.openDirs s.dirs).getDoc docId = none := by
  intro s
  have hrun : s = LabelledRun.run step (runNew writeBufferSize searcher ops) later :=
    LabelledRun.run_append step _ ops later
  have hbounded := bounded_runNew writeBufferSize searcher ops
  have hinv := inv_runNew writeBufferSize searcher ops
  obtain ⟨doc, hdoc, hdocId⟩ := Multiset.mem_map.mp hrec
  rw [List.flatMap_append, List.map_append, List.nodup_append] at hids
  obtain ⟨hids, -, hdisjoint⟩ := hids
  have hgone : (runNew writeBufferSize searcher ops).Gone docId := by
    refine hbounded.gone ?_ hdoc hdocId
    rwa [indexedDocs_flatMap_entries]
  have hindexed : docId ∈ (ops.flatMap Op.docs).map Document.id := by
    have hle := hbounded.dead_le
    rw [indexedDocs_flatMap_entries] at hle
    exact List.mem_map.mpr ⟨doc, Multiset.mem_coe.mp (Multiset.mem_of_le hle hdoc), hdocId⟩
  have hnew : ∀ entry ∈ later.flatMap Op.entries, ∀ d, entry = .index d → d.id ≠ docId := by
    rintro entry hentry d rfl heq
    have hmem : d ∈ later.flatMap Op.docs := by
      rw [← indexedDocs_flatMap_entries]
      exact List.mem_filterMap.mpr ⟨_, hentry, rfl⟩
    exact hdisjoint docId hindexed d.id (List.mem_map_of_mem hmem) heq.symm
  have hend := run_inv (I := fun s log => Bounded s log ∧ s.Gone docId)
    (fun s c log hinv hc hP h => ⟨h.1.change hinv hc, h.2.change hinv h.1 hc hP.1 (fun d hd => by
      obtain ⟨entry, hentry, heq⟩ := List.mem_filterMap.mp hd
      cases entry with
      | index d' =>
        obtain rfl : d' = d := Option.some.inj heq
        exact hP.2 _ hentry d' rfl
      | delete _ => cases heq)⟩)
    hinv ⟨hbounded, hgone⟩ (LabelledRun.Along.and _ _ hcur (along_entries hnew))
  rw [← hrun] at hend
  exact ⟨hend.2.onDisk, hend.2.openDirs (inv_runNew writeBufferSize searcher (ops ++ later))⟩

/-- A reindex after a restart, which reads the bitmaps on disk. -/
theorem no_resurrection_reopened :
    (∀ doc ∈ SegmentDirs.live (runNew 1000 .unscored
      ([.index (titled 1 "a"), .flush, .delete 1]
        ++ [.reopen, .index (titled 2 "b"), .flush, .reindexSelf])).dirs, doc.id ≠ 1) ∧
    (∀ doc ∈ (SegmentList.openDirs (runNew 1000 .unscored
      ([.index (titled 1 "a"), .flush, .delete 1]
        ++ [.reopen, .index (titled 2 "b"), .flush, .reindexSelf])).dirs).liveDocuments,
      doc.id ≠ 1) ∧
    (SegmentList.openDirs (runNew 1000 .unscored
      ([.index (titled 1 "a"), .flush, .delete 1]
        ++ [.reopen, .index (titled 2 "b"), .flush, .reindexSelf])).dirs).getDoc 1 = none :=
  no_resurrection 1000 .unscored [.index (titled 1 "a"), .flush, .delete 1]
    [.reopen, .index (titled 2 "b"), .flush, .reindexSelf] (by decide) 1 (by decide) (by decide)

/-- A reindex that reads a bitmap from before the deletion brings the document back. -/
theorem reindex_resurrects :
    1 ∈ (SegmentDirs.dead (runNew 1000 .unscored
      [.index (titled 1 "a"), .flush, .delete 1]).dirs).map Document.id ∧
    ¬ ∀ doc ∈ SegmentDirs.live (runNew 1000 .unscored
      ([.index (titled 1 "a"), .flush, .delete 1] ++ [.reindexSelf])).dirs, doc.id ≠ 1 := by
  refine ⟨by decide, fun hnone => ?_⟩
  have hlive : titled 1 "a" ∈ SegmentDirs.live (runNew 1000 .unscored
      ([.index (titled 1 "a"), .flush, .delete 1] ++ [.reindexSelf])).dirs := by decide
  exact hnone _ hlive rfl

end ShardEngine

end ZearchEngine
