/-
# Runs without deletions

As long as nothing is deleted, a shard holds exactly what was indexed: the open segments and
the buffer together, document for document, through flushes, merges, rewrites of the whole
index and restarts (`Exact`).  When the ids are distinct, that makes match-all searches and
`get_docs` exact (`appendOnly_exact`).

Indexing an id again does not replace the first document: both stay.  So the shard is a map
from ids to documents in exactly those runs that index no id twice (`upsert_iff`).
-/
import ZearchEngine.Content

namespace ZearchEngine

open KeyedStore

/-- The documents among some log entries. -/
def indexedDocs (log : List WalEntry) : List Document :=
  log.filterMap fun
    | .index doc => some doc
    | .delete _ => none

@[simp] theorem indexedDocs_map_index (docs : List Document) :
    indexedDocs (docs.map .index) = docs := by
  induction docs with
  | nil => rfl
  | cons doc docs ih => exact congrArg (doc :: ·) ih

theorem indexedDocs_append (log log' : List WalEntry) :
    indexedDocs (log ++ log') = indexedDocs log ++ indexedDocs log' :=
  List.filterMap_append

/-- The entry indexes a document. -/
def WalEntry.IsIndex : WalEntry → Prop
  | .index _ => True
  | .delete _ => False

namespace ShardEngine

/-- The documents an operation indexes. -/
def Op.docs : Op → List Document
  | .index doc => [doc]
  | .indexBatch docs => docs
  | _ => []

/-- The operation deletes nothing. -/
def Op.AppendOnly : Op → Prop
  | .delete _ => False
  | _ => True

instance : DecidablePred Op.AppendOnly
  | .delete _ => isFalse id
  | .index _ | .indexBatch _ | .search _ | .flush | .runMerge _ | .reindexSelf | .reopen =>
    isTrue trivial

theorem indexedDocs_entries (op : Op) : indexedDocs op.entries = op.docs := by
  cases op with
  | indexBatch docs => exact indexedDocs_map_index docs
  | _ => rfl

theorem indexedDocs_flatMap_entries : ∀ ops : List Op,
    indexedDocs (ops.flatMap Op.entries) = ops.flatMap Op.docs
  | [] => rfl
  | op :: ops => by
    rw [List.flatMap_cons, indexedDocs_append, indexedDocs_entries,
      indexedDocs_flatMap_entries ops, List.flatMap_cons]

theorem isIndex_of_appendOnly {ops : List Op} (h : ∀ op ∈ ops, op.AppendOnly) :
    ∀ entry ∈ ops.flatMap Op.entries, entry.IsIndex := by
  intro entry hentry
  obtain ⟨op, hop, hmem⟩ := List.mem_flatMap.mp hentry
  have hop' := h op hop
  cases op with
  | index doc => rw [List.mem_singleton.mp hmem]; trivial
  | indexBatch docs =>
    obtain ⟨doc, -, rfl⟩ := List.mem_map.mp hmem
    trivial
  | delete docId => exact hop'.elim
  | _ => cases hmem

/-! ## 1. Replaying a log without deletions -/

theorem foldl_replay_index : ∀ (docs : List Document) (s : ShardEngine),
    (docs.map WalEntry.index).foldl replay s
      = { s with writeBuffer := (s.writeBuffer.addAll docs).2 }
  | [], _ => rfl
  | doc :: docs, s => by
    rw [List.map_cons, List.foldl_cons, foldl_replay_index docs]
    rfl

/-- **Opening a disk whose log only indexes**: the segments of the directory, and the logged
documents in the buffer. -/
theorem openDisk_eq {writeBufferSize : Nat} {searcher : MultiSegmentSearcher} {d : Disk}
    {docs : List Document} (h : d.wal.map WalRecord.entry = docs.map .index) :
    openDisk writeBufferSize searcher d =
      { wal := Log.openRecords d.wal
        writeBuffer := ((WriteBuffer.new writeBufferSize).addAll docs).2
        segments := SegmentList.openDirs d.segments
        searcher
        mergePolicy := .default
        dirs := d.segments } := by
  rw [openDisk, Log.readAll_openRecords, h, foldl_replay_index]
  rfl

theorem allDocs_addAll_new (writeBufferSize : Nat) (docs : List Document) :
    ((WriteBuffer.new writeBufferSize).addAll docs).2.allDocs = docs := by
  simp [WriteBuffer.allDocs, WriteBuffer.new]

/-- What such a disk shows: its directories, and its log. -/
theorem visible_openDisk {writeBufferSize : Nat} {searcher : MultiSegmentSearcher} {d : Disk}
    {docs : List Document} (h : d.wal.map WalRecord.entry = docs.map .index) :
    (openDisk writeBufferSize searcher d).visible = SegmentDirs.live d.segments + ↑docs := by
  rw [openDisk_eq h]
  simp only [visible, allDocs_addAll_new, SegmentList.coe_liveDocuments_openDirs]

/-! ## 2. The invariant -/

/-- The shard holds what `log` indexed, and nothing is deleted: neither in the buffer nor in
any bitmap, in memory or on disk.  The log on disk is the buffer, and no directory that opens
is forgotten. -/
structure Exact (s : ShardEngine) (log : List WalEntry) : Prop where
  content : (↑s.segments.liveDocuments + ↑s.writeBuffer.docs : Multiset Document)
    = ↑(indexedDocs log)
  deletedIds : s.writeBuffer.deletedIds = ∅
  wal : s.wal.readAll = s.writeBuffer.docs.map .index
  onDisk : ∀ e ∈ s.segments.segments, ∃ docs, e.reader = SegmentReader.ofDocs docs ∅ ∧
    s.dirs.lookup e.segmentId = some (SegmentDir.written docs none)
  registered : Registered s.segments s.dirs
  complete : s.segments.docIdMap.Complete s.segments.segments

theorem Exact.allDocs {s : ShardEngine} {log : List WalEntry} (h : Exact s log) :
    s.writeBuffer.allDocs = s.writeBuffer.docs := by
  simp [WriteBuffer.allDocs, h.deletedIds]

theorem Exact.visible {s : ShardEngine} {log : List WalEntry} (h : Exact s log) :
    s.visible = ↑(indexedDocs log) := by
  rw [ShardEngine.visible, h.allDocs, h.content]

/-- Nothing is hidden on disk: the directories show what the open segments show. -/
theorem Exact.live_dirs {s : ShardEngine} {log : List WalEntry} (hinv : Inv s) (h : Exact s log) :
    SegmentDirs.live s.dirs = ↑s.segments.liveDocuments := by
  refine (hinv.synced.coe_liveDocuments h.registered (fun e he dir hlook => ?_)).symm
  obtain ⟨docs, hreader, hlook'⟩ := h.onDisk e he
  rw [hlook', Option.some.injEq] at hlook
  rw [← hlook, hreader, openDir_written, Option.getD_none]

/-- Installing a segment that holds whatever the replaced ones can read keeps every live id in
the map. -/
theorem complete_install {s : ShardEngine} (hsound : s.segments.docIdMap.Sound s.segments.segments)
    (hcomplete : s.segments.docIdMap.Complete s.segments.segments)
    (hofDocs : ∀ e ∈ s.segments.segments, ∃ docs deleted,
      e.reader = SegmentReader.ofDocs docs deleted)
    {oldIds : List SegmentId} {docs : List Document}
    (hdocs : ∀ e ∈ s.segments.segments, e.segmentId ∈ oldIds →
      ∀ doc ∈ e.reader.liveDocuments, doc ∈ docs) :
    (s.segments.install oldIds docs).docIdMap.Complete
      (s.segments.install oldIds docs).segments := by
  intro e he doc hdoc hnone
  obtain ⟨hretained, hnew⟩ := DocIdMap.insertDocs_eq_none hnone
  rw [SegmentReader.liveDocuments_ofDocs_empty] at hnew
  rw [SegmentList.segments_install] at he
  rcases List.mem_append.mp he with he | he
  · -- a document of a segment that is kept: its entry can only have been dropped with a
    -- segment whose documents the new one holds
    have hmem := List.mem_of_mem_filter he
    cases hloc : s.segments.docIdMap doc.id with
    | none => exact hcomplete e hmem doc hdoc hloc
    | some loc =>
      have hold : loc.segmentId ∈ oldIds := by
        by_contra hnot
        have hkept : (s.segments.docIdMap doc.id).filter (fun loc => loc.segmentId ∉ oldIds)
            = some loc := by simp [hloc, hnot]
        rw [hkept] at hretained
        cases hretained
      obtain ⟨e', he', hseg, doc', hget, hid⟩ := hsound doc.id loc hloc
      obtain ⟨docs', deleted', hreader'⟩ := hofDocs e' he'
      rw [hreader'] at hget
      have hlive := SegmentReader.mem_liveDocuments_of_getDoc hget
      rw [← hreader'] at hlive
      exact hnew doc' (hdocs e' he' (hseg ▸ hold) doc' hlive) hid
  · obtain rfl := List.mem_singleton.mp he
    rw [SegmentReader.liveDocuments_ofDocs_empty] at hdoc
    exact hnew doc hdoc rfl

/-- The map knows every document that the open segments show. -/
def Known (s : ShardEngine) : Prop := s.segments.docIdMap.Complete s.segments.segments

theorem Known.flushed {s : ShardEngine} (hinv : Inv s) (h : s.Known) : s.flushed.Known :=
  complete_install hinv.synced.sound h hinv.readable.whole (by simp)

theorem Known.merged {s : ShardEngine} (hinv : Inv s) (h : s.Known) (ids : List SegmentId) :
    (s.merged ids).Known :=
  complete_install hinv.synced.sound h hinv.readable.whole (fun e he hid doc hdoc =>
    List.mem_flatMap.mpr ⟨e, List.mem_filter.mpr ⟨he, by simpa using hid⟩, hdoc⟩)

theorem Known.reindexed {s : ShardEngine} (hinv : Inv s) (h : s.Known) : s.reindexed.Known :=
  complete_install hinv.synced.sound h hinv.readable.whole (fun e he _ _ hdoc =>
    List.mem_flatMap.mpr ⟨e, he, hdoc⟩)

/-- The new segment and its directory hold the same documents, and so do the segments kept. -/
theorem Exact.onDisk_install {s : ShardEngine} {log : List WalEntry} (hinv : Inv s)
    (h : Exact s log) {oldIds : List SegmentId} (hold : ∀ id ∈ oldIds, id ∈ s.openIds)
    (docs : List Document) :
    ∀ e ∈ (s.segments.install oldIds docs).segments, ∃ docs',
      e.reader = SegmentReader.ofDocs docs' ∅ ∧
      (s.segments.installDirs s.dirs oldIds docs).lookup e.segmentId
        = some (SegmentDir.written docs' none) := by
  intro e he
  rw [SegmentList.segments_install] at he
  rcases List.mem_append.mp he with he | he
  · obtain ⟨hmem, hkeep⟩ := List.mem_filter.mp he
    obtain ⟨docs', hreader, hlook⟩ := h.onDisk e hmem
    have hne : e.segmentId ≠ ⟨s.segments.nextSegmentSeq⟩ := fun heq =>
      hinv.synced.next_notMem (heq ▸ hinv.synced.mem_dirs hmem)
    refine ⟨docs', hreader, ?_⟩
    rw [SegmentList.lookup_installDirs, if_neg (of_decide_eq_true hkeep), if_neg hne, hlook]
  · obtain rfl := List.mem_singleton.mp he
    have hnot : (⟨s.segments.nextSegmentSeq⟩ : SegmentId) ∉ oldIds := fun hmem =>
      hinv.synced.next_notMem (hinv.mem_dirs (hold _ hmem))
    refine ⟨docs, rfl, ?_⟩
    rw [SegmentList.lookup_installDirs, if_neg hnot, if_pos rfl]

/-! ## 3. Every change but a deletion keeps the shard exact -/

section

variable {s : ShardEngine} {log : List WalEntry} (hinv : Inv s) (h : Exact s log)
include h

theorem Exact.accepted (docs : List Document) :
    Exact (s.accepted docs) (log ++ docs.map .index) where
  content := by
    show (↑s.segments.liveDocuments + ↑(s.writeBuffer.addAll docs).2.docs : Multiset Document) = _
    rw [WriteBuffer.addAll_docs, ← Multiset.coe_add, ← add_assoc, h.content, indexedDocs_append,
      indexedDocs_map_index, Multiset.coe_add]
  deletedIds := (WriteBuffer.addAll_deletedIds docs s.writeBuffer).trans h.deletedIds
  wal := by
    show (s.wal.appendBatch (docs.map .index)).2.readAll = _
    rw [Log.readAll_appendBatch, h.wal, ← List.map_append]
    exact congrArg _ (WriteBuffer.addAll_docs docs s.writeBuffer).symm
  onDisk := h.onDisk
  registered := h.registered
  complete := h.complete

theorem Exact.refreshed : Exact s.refreshed log where
  content := by
    show (↑s.segments.liveDocuments + ↑s.writeBuffer.refreshed.docs : Multiset Document) = _
    rw [WriteBuffer.refreshed_docs, h.content]
  deletedIds := (WriteBuffer.refreshed_deletedIds s.writeBuffer).trans h.deletedIds
  wal := h.wal.trans (congrArg _ (WriteBuffer.refreshed_docs s.writeBuffer).symm)
  onDisk := h.onDisk
  registered := h.registered
  complete := h.complete

theorem Exact.drained (hempty : s.writeBuffer.docs = []) : Exact s.drained log where
  content := by
    have hcontent := h.content
    rwa [hempty] at hcontent
  deletedIds := rfl
  wal := by
    have hwal := h.wal
    rwa [hempty] at hwal
  onDisk := h.onDisk
  registered := h.registered
  complete := h.complete

include hinv

theorem Exact.flushed : Exact s.flushed log where
  content := by
    show (↑s.flushed.segments.liveDocuments + ↑([] : List Document) : Multiset Document) = _
    rw [coe_liveDocuments_flushed, Multiset.coe_nil, add_zero, h.content]
  deletedIds := rfl
  wal := rfl
  onDisk := h.onDisk_install hinv (by simp) _
  registered := h.registered.install _ _
  complete := Known.flushed hinv h.complete

theorem Exact.merged {ids : List SegmentId} (hids : ∀ id ∈ ids, id ∈ s.openIds) :
    Exact (s.merged ids) log where
  content := by
    show (↑(s.merged ids).segments.liveDocuments + ↑s.writeBuffer.docs : Multiset Document) = _
    rw [coe_liveDocuments_merged, h.content]
  deletedIds := h.deletedIds
  wal := h.wal
  onDisk := h.onDisk_install hinv hids _
  registered := h.registered.install _ _
  complete := Known.merged hinv h.complete ids

theorem Exact.reindexed (hempty : s.writeBuffer.docs = []) : Exact s.reindexed log where
  content := by
    show (↑s.reindexed.segments.liveDocuments + ↑s.writeBuffer.docs : Multiset Document) = _
    rw [coe_liveDocuments_reindexed, h.content]
  deletedIds := h.deletedIds
  wal := by
    show s.wal.truncate.readAll = s.writeBuffer.docs.map .index
    rw [hempty]
    rfl
  onDisk := h.onDisk_install hinv (fun _ hid => hid) _
  registered := h.registered.install _ _
  complete := Known.reindexed hinv h.complete

/-- A restart finds the same segments, and the buffer in the log. -/
theorem Exact.reopened : Exact s.reopened log := by
  have hwal : s.disk.wal.map WalRecord.entry = s.writeBuffer.docs.map .index := h.wal
  have hdocs : ((WriteBuffer.new s.writeBuffer.capacityBytes).addAll s.writeBuffer.docs).2.docs
      = s.writeBuffer.docs := WriteBuffer.addAll_docs _ _
  rw [ShardEngine.reopened, openDisk_eq hwal]
  refine ⟨?_, WriteBuffer.addAll_deletedIds _ _, hwal.trans (congrArg _ hdocs.symm), ?_,
    Registered.openDirs _, SegmentList.complete_openDirs _⟩
  · show (↑(SegmentList.openDirs s.dirs).liveDocuments + ↑((WriteBuffer.new
      s.writeBuffer.capacityBytes).addAll s.writeBuffer.docs).2.docs : Multiset Document) = _
    rw [hdocs, SegmentList.coe_liveDocuments_openDirs, h.live_dirs hinv, h.content]
  · intro e he
    obtain ⟨dir, hlook, hopen⟩ := SegmentList.mem_segments_openDirs.mp he
    obtain ⟨e', he', hid⟩ := h.registered _ dir hlook (by rw [hopen]; simp)
    obtain ⟨docs, -, hlook'⟩ := h.onDisk e' he'
    have hdir : s.dirs.lookup e'.segmentId = some dir := by rw [hid]; exact hlook
    obtain rfl : SegmentDir.written docs none = dir := by simpa [hlook'] using hdir
    rw [openDir_written, Option.some.injEq] at hopen
    exact ⟨docs, hopen.symm, hlook⟩

/-- **Every change but a deletion keeps the shard exact.** -/
theorem Exact.change {c : Change} (hc : s.Enabled c)
    (hindex : ∀ entry ∈ c.entries, entry.IsIndex) : Exact (s.change c) (log ++ c.entries) := by
  have keep : ∀ {t : ShardEngine}, Exact t log → Exact t (log ++ []) := fun ht => by
    rwa [List.append_nil]
  cases c with
  | accept docs => exact h.accepted docs
  | delete docId => exact (hindex _ List.mem_cons_self).elim
  | refresh => exact keep h.refreshed
  | drop => exact keep (h.drained hc)
  | flush => exact keep (h.flushed hinv)
  | merge ids => exact keep (h.merged hinv hc)
  | reindex => exact keep (h.reindexed hinv hc)
  | reopen => exact keep (h.reopened hinv)

end

theorem exact_new (writeBufferSize : Nat) (searcher : MultiSegmentSearcher) :
    Exact (openDisk writeBufferSize searcher Disk.empty) [] where
  content := rfl
  deletedIds := rfl
  wal := rfl
  onDisk := fun _ he => by cases he
  registered := fun _ _ hlook => by simp [Disk.empty, openDisk_eq] at hlook
  complete := fun _ he => by cases he

/-- **A run without deletions keeps the shard exact.** -/
theorem exact_runNew (writeBufferSize : Nat) (searcher : MultiSegmentSearcher) {ops : List Op}
    (hops : ∀ op ∈ ops, op.AppendOnly) :
    Exact (runNew writeBufferSize searcher ops) (ops.flatMap Op.entries) := by
  have hrun := run_inv (I := Exact)
    (fun _ _ _ hinv hc hentries h => h.change hinv hc hentries)
    (inv_new writeBufferSize searcher) (exact_new writeBufferSize searcher)
    (along_entries (isIndex_of_appendOnly hops))
  rwa [List.nil_append] at hrun

/-! ## 4. Distinct ids: every answer is exact -/

section

variable {s : ShardEngine} {log : List WalEntry} (hinv : Inv s) (h : Exact s log)
include hinv h

/-- A match-all search returns what was indexed. -/
theorem Exact.search {request : SearchRequest}
    (hreq : request.MatchAll (indexedDocs log).length) :
    ∃ response, (search request s).1 = .ok response ∧ response.Returns ↑(indexedDocs log) ∧
      response.totalHits = (indexedDocs log).length := by
  rw [← Multiset.coe_card, ← h.visible] at hreq
  obtain ⟨response, hsearch, -, hreturns, htotal⟩ := search_matchAll hinv hreq
  rw [h.visible] at hreturns htotal
  exact ⟨response, by rw [hsearch], hreturns, htotal⟩

/-- When the ids are distinct, `get_docs` returns the document of an id. -/
theorem Exact.getDocs (hids : ((indexedDocs log).map Document.id).Nodup) {doc : Document}
    (hdoc : doc ∈ indexedDocs log) : s.getDocs [doc.id] = [doc] := by
  have hmem : ∀ d, d ∈ s.segments.liveDocuments ∨ d ∈ s.writeBuffer.docs → d.id = doc.id →
      d = doc := by
    intro d hd hid
    have hd' : d ∈ indexedDocs log := by
      rw [← Multiset.mem_coe, ← h.content, Multiset.mem_add, Multiset.mem_coe, Multiset.mem_coe]
      exact hd
    exact List.inj_on_of_nodup_map hids hd' hdoc hid
  cases hget : s.segments.getDoc doc.id with
  | some d =>
    obtain ⟨hlive, hid⟩ := hinv.synced.of_getDoc_eq_some hget
    simp [ShardEngine.getDocs, hget, hmem d (Or.inl hlive) hid]
  | none =>
    have hseg : doc ∉ s.segments.liveDocuments := fun hlive =>
      hinv.synced.of_getDoc_eq_none h.complete hget doc hlive rfl
    have hbuf : doc ∈ s.writeBuffer.docs := by
      rw [← Multiset.mem_coe, ← h.content, Multiset.mem_add] at hdoc
      exact hdoc.resolve_left hseg
    obtain ⟨d, hfind⟩ : ∃ d, s.writeBuffer.docs.find? (fun d => d.id = doc.id) = some d :=
      Option.isSome_iff_exists.mp (List.find?_isSome.mpr ⟨doc, hbuf, by simp⟩)
    have hid : d.id = doc.id := by simpa using List.find?_some hfind
    simp [ShardEngine.getDocs, hget, hfind, hmem d (Or.inr (List.mem_of_find?_eq_some hfind)) hid]

end

/-- **Append-only runs are exact.**  After any run of operations that delete nothing, over
documents with distinct ids and with any buffer capacity: every further operation succeeds; a
match-all search with room for all documents returns each document indexed so far, with its
fields, once, and counts them; and `get_docs` returns the document of each id. -/
theorem appendOnly_exact (writeBufferSize : Nat) (searcher : MultiSegmentSearcher)
    (ops : List Op) (hops : ∀ op ∈ ops, op.AppendOnly)
    (hids : ((ops.flatMap Op.docs).map Document.id).Nodup) :
    let s := runNew writeBufferSize searcher ops
    let indexed := ops.flatMap Op.docs
    (∀ op, (exec op s).1 = .ok ()) ∧
    (∀ request : SearchRequest, request.MatchAll indexed.length →
      ∃ response, (search request s).1 = .ok response ∧ response.Returns ↑indexed ∧
        response.totalHits = indexed.length) ∧
    ∀ doc ∈ indexed, s.getDocs [doc.id] = [doc] := by
  intro s indexed
  have hinv : Inv s := inv_runNew writeBufferSize searcher ops
  have hexact : Exact s (ops.flatMap Op.entries) := exact_runNew writeBufferSize searcher hops
  have hdocs : indexedDocs (ops.flatMap Op.entries) = indexed := indexedDocs_flatMap_entries ops
  refine ⟨fun op => by rw [exec_eq hinv], fun request hreq => ?_, fun doc hdoc => ?_⟩
  · rw [← hdocs] at hreq ⊢
    exact hexact.search hinv hreq
  · rw [← hdocs] at hdoc
    exact hexact.getDocs hinv (by rw [hdocs]; exact hids) hdoc

/-- A document with nothing but an id and a title. -/
def titled (id : DocId) (title : String) : Document where
  id := id
  title := title
  description := ""
  price := ⟨0⟩
  category := ""
  attributes := Attributes.empty

/-- A buffer that is full after two documents, a restart and a reindex. -/
theorem appendOnly_exact_three :
    (runNew 128 .unscored [.index (titled 1 "a"), .indexBatch [titled 2 "b", titled 3 "c"], .reopen,
      .reindexSelf]).getDocs [2] = [titled 2 "b"] :=
  (appendOnly_exact 128 .unscored
    [.index (titled 1 "a"), .indexBatch [titled 2 "b", titled 3 "c"], .reopen, .reindexSelf]
    (by decide) (by decide)).2.2 (titled 2 "b") (by decide)

/-! ## 5. Indexing an id again -/

/-- An index call, on a map from ids to documents. -/
def insertDoc (m : DocId → Option Document) (doc : Document) : DocId → Option Document :=
  Function.update m doc.id (some doc)

/-- The map that a sequence of index calls describes: the last document for each id. -/
def lastIndexed (docs : List Document) : DocId → Option Document :=
  docs.foldl insertDoc (fun _ => none)

/-- The shard is the map described by `docs`: for every id indexed, a match-all search has one
hit, with the last document for that id, and `get_docs` returns the same document. -/
def IsMap (s : ShardEngine) (docs : List Document) : Prop :=
  (∀ request : SearchRequest, request.MatchAll docs.length →
    ∃ response, (search request s).1 = .ok response ∧
      ∀ docId doc, lastIndexed docs docId = some doc →
      (response.hits.filter (fun hit => hit.id = docId)).map SearchHit.document = [some doc]) ∧
  ∀ docId doc, lastIndexed docs docId = some doc → s.getDocs [docId] = [doc]

/-- What a map holds after some index calls. -/
structure Holds (m : DocId → Option Document) (docs : List Document) : Prop where
  mem : ∀ docId doc, m docId = some doc → doc ∈ docs ∧ doc.id = docId
  ne_none : ∀ doc ∈ docs, m doc.id ≠ none

theorem Holds.insertDoc {m : DocId → Option Document} {docs : List Document} (h : Holds m docs)
    (d : Document) : Holds (insertDoc m d) (docs ++ [d]) where
  mem := by
    intro docId doc hdoc
    by_cases hid : docId = d.id
    · subst hid
      rw [ShardEngine.insertDoc, Function.update_self, Option.some.injEq] at hdoc
      exact ⟨by simp [hdoc], by rw [hdoc]⟩
    · rw [ShardEngine.insertDoc, Function.update_of_ne hid] at hdoc
      exact ⟨List.mem_append_left _ (h.mem docId doc hdoc).1, (h.mem docId doc hdoc).2⟩
  ne_none := by
    intro doc hdoc
    by_cases hid : doc.id = d.id
    · rw [ShardEngine.insertDoc, hid, Function.update_self]
      simp
    · rw [ShardEngine.insertDoc, Function.update_of_ne hid]
      rcases List.mem_append.mp hdoc with hmem | hmem
      · exact h.ne_none doc hmem
      · exact absurd (congrArg Document.id (List.mem_singleton.mp hmem)) hid

/-- The last document for an id is one of the documents, and every id indexed has one. -/
theorem holds_lastIndexed (docs : List Document) : Holds (lastIndexed docs) docs := by
  have hfold : ∀ (docs done : List Document) (m : DocId → Option Document), Holds m done →
      Holds (docs.foldl ShardEngine.insertDoc m) (done ++ docs) := by
    intro docs
    induction docs with
    | nil => exact fun done m h => by rwa [List.append_nil]
    | cons d docs ih =>
      intro done m h
      have hnext := ih (done ++ [d]) _ (h.insertDoc d)
      rwa [List.append_assoc] at hnext
  have hnil : Holds (fun _ => none) [] :=
    { mem := fun _ _ h => nomatch h
      ne_none := fun _ h => nomatch h }
  exact hfold docs [] _ hnil

/-- The ids of the hits, when these documents are returned. -/
theorem ids_of_returns {response : SearchResponse} {docs : List Document}
    (h : response.Returns ↑docs) :
    (response.hits.map SearchHit.id).Perm (docs.map Document.id) := by
  have hids := congrArg (Multiset.map Prod.fst) h
  simpa [Function.comp_def] using hids

/-- Among documents with distinct ids, one has the id of a given one. -/
theorem filter_id_eq {docs : List Document} (hids : (docs.map Document.id).Nodup)
    {doc : Document} (hdoc : doc ∈ docs) :
    docs.filter (fun d => d.id = doc.id) = [doc] := by
  have hsame : docs.filter (fun d => d.id = doc.id) = docs.filter (fun d => d = doc) := by
    refine List.filter_congr (fun d hd => ?_)
    have hiff : d.id = doc.id ↔ d = doc :=
      ⟨List.inj_on_of_nodup_map hids hd hdoc, fun h => by rw [h]⟩
    simp [hiff]
  rw [hsame, List.filter_eq, List.count_eq_one_of_mem hids.of_map hdoc]
  rfl

/-- The hits for one id, when documents with distinct ids are returned. -/
theorem hits_of_returns {response : SearchResponse} {docs : List Document}
    (h : response.Returns ↑docs) (hids : (docs.map Document.id).Nodup) {doc : Document}
    (hdoc : doc ∈ docs) :
    (response.hits.filter (fun hit => hit.id = doc.id)).map SearchHit.document = [some doc] := by
  rw [h.found_once_iff doc, Multiset.filter_coe, filter_id_eq hids hdoc]
  rfl

/-- **The shard is a map exactly when no id was indexed twice.** -/
theorem upsert_iff (writeBufferSize : Nat) (searcher : MultiSegmentSearcher) (ops : List Op)
    (hops : ∀ op ∈ ops, op.AppendOnly) :
    IsMap (runNew writeBufferSize searcher ops) (ops.flatMap Op.docs) ↔
      ((ops.flatMap Op.docs).map Document.id).Nodup := by
  have hinv : Inv (runNew writeBufferSize searcher ops) := inv_runNew writeBufferSize searcher ops
  have hexact := exact_runNew writeBufferSize searcher hops
  rw [← indexedDocs_flatMap_entries ops]
  generalize ops.flatMap Op.entries = log at hexact ⊢
  have hholds := holds_lastIndexed (indexedDocs log)
  constructor
  · -- one hit for each id: the hits have the ids indexed, each as often
    rintro ⟨hsearch, -⟩
    have hreq : SearchRequest.MatchAll { limit := (indexedDocs log).length }
        (indexedDocs log).length := ⟨rfl, rfl, rfl, Nat.le_refl _⟩
    obtain ⟨response, hok, hhits⟩ := hsearch _ hreq
    obtain ⟨response', hok', hreturns, -⟩ := hexact.search hinv hreq
    obtain rfl : response' = response := by
      rw [hok, Except.ok.injEq] at hok'
      exact hok'.symm
    rw [List.nodup_iff_count_le_one]
    intro docId
    by_cases hid : docId ∈ (indexedDocs log).map Document.id
    · obtain ⟨doc, hdoc, rfl⟩ := List.mem_map.mp hid
      obtain ⟨last, hlast⟩ := Option.ne_none_iff_exists'.mp (hholds.ne_none doc hdoc)
      have hone : (response'.hits.filter (fun hit => hit.id = doc.id)).length = 1 := by
        simpa using congrArg List.length (hhits doc.id last hlast)
      have hcount : (response'.hits.map SearchHit.id).count doc.id
          = (response'.hits.filter (fun hit => hit.id = doc.id)).length := by
        rw [List.count_eq_countP, List.countP_map, List.countP_eq_length_filter]
        rfl
      rw [← (ids_of_returns hreturns).count_eq, hcount, hone]
    · rw [List.count_eq_zero_of_not_mem hid]
      exact Nat.zero_le 1
  · intro hids
    refine ⟨fun request hreq => ?_, fun docId doc hdoc => ?_⟩
    · obtain ⟨response, hok, hreturns, -⟩ := hexact.search hinv hreq
      refine ⟨response, hok, fun docId doc hdoc => ?_⟩
      obtain ⟨hmem, rfl⟩ := hholds.mem docId doc hdoc
      exact hits_of_returns hreturns hids hmem
    · obtain ⟨hmem, rfl⟩ := hholds.mem docId doc hdoc
      exact hexact.getDocs hinv hids hmem

/-- Two ids, one of them in a segment. -/
theorem upsert_iff_two :
    IsMap (runNew 1000 .unscored [.index (titled 1 "a"), .flush, .index (titled 2 "b")])
      [titled 1 "a", titled 2 "b"] ↔ ([1, 2] : List DocId).Nodup :=
  upsert_iff 1000 .unscored [.index (titled 1 "a"), .flush, .index (titled 2 "b")] (by decide)

/-- An id indexed twice has two hits. -/
theorem not_isMap_twice :
    ¬ IsMap (runNew 1000 .unscored [.index (titled 1 "old"), .index (titled 1 "new")])
      [titled 1 "old", titled 1 "new"] := by
  rintro ⟨hsearch, -⟩
  obtain ⟨response, hok, hhits⟩ := hsearch { limit := 2 } ⟨rfl, rfl, rfl, by decide⟩
  have hone := congrArg List.length (hhits 1 (titled 1 "new") (by decide))
  have htwo : (search { limit := 2 } (runNew 1000 .unscored
      [.index (titled 1 "old"), .index (titled 1 "new")])).1.toOption.map
        (fun response => (response.hits.filter (fun hit => hit.id = 1)).length) = some 2 := by
    decide
  rw [hok] at htwo
  simp only [Except.toOption, Option.map_some, Option.some.injEq] at htwo
  rw [List.length_map, htwo] at hone
  cases hone

end ShardEngine

end ZearchEngine
