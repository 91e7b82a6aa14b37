/-
# What a shard holds

The documents a shard shows (`visible`) are those its open segments can read and those of the
buffer that are not deleted; a match-all search returns exactly these (`search_matchAll`).  On
disk, a directory holds what can be read from it once opened (`SegmentDir.live`), and opening
a disk shows the documents of all directories that open, with the log replayed on top.

A merge and a reindex move documents from segments into a new one: read by the open readers,
nothing is lost and nothing added.
-/
import ZearchEngine.Change

namespace ZearchEngine

open KeyedStore

/-- A concatenation, as a multiset, is the sum of its parts. -/
theorem coe_flatMap {α β : Type} (f : α → List β) : ∀ l : List α,
    (↑(l.flatMap f) : Multiset β) = (l.map (fun a => (↑(f a) : Multiset β))).sum
  | [] => rfl
  | a :: l => by
    rw [List.flatMap_cons, ← Multiset.coe_add, coe_flatMap f l, List.map_cons, List.sum_cons]

/-! ## 1. Directories -/

/-- The documents a directory shows once opened: none if it does not open. -/
def SegmentDir.live (dir : SegmentDir) : Multiset Document :=
  match SegmentReader.openDir dir with
  | some reader => ↑reader.liveDocuments
  | none => 0

theorem SegmentDir.live_of_open {dir : SegmentDir} {reader : SegmentReader}
    (h : SegmentReader.openDir dir = some reader) : dir.live = ↑reader.liveDocuments := by
  rw [live, h]

theorem SegmentDir.live_of_not_open {dir : SegmentDir} (h : SegmentReader.openDir dir = none) :
    dir.live = 0 := by
  rw [live, h]

@[simp] theorem SegmentDir.live_written_none (docs : List Document) :
    (SegmentDir.written docs none).live = ↑docs := by
  rw [live_of_open (openDir_written docs none), Option.getD_none,
    SegmentReader.liveDocuments_ofDocs_empty]

/-- The documents the segment directories show. -/
def SegmentDirs.live (dirs : SegmentDirs) : Multiset Document := total SegmentDir.live dirs

theorem SegmentDirs.mem_live {dirs : SegmentDirs} {doc : Document} :
    doc ∈ SegmentDirs.live dirs ↔ ∃ id dir, dirs.lookup id = some dir ∧ doc ∈ dir.live :=
  mem_total

/-- The documents of a directory that its bitmap deletes. -/
def SegmentDir.dead (dir : SegmentDir) : Multiset Document :=
  match SegmentReader.openDir dir with
  | some reader => ↑reader.deadDocuments
  | none => 0

/-- The documents on disk that a bitmap deletes. -/
def SegmentDirs.dead (dirs : SegmentDirs) : Multiset Document := total SegmentDir.dead dirs

/-- All documents of a directory. -/
def SegmentDir.stored (dir : SegmentDir) : Multiset Document := dir.live + dir.dead

/-- All documents in the segment directories. -/
def SegmentDirs.stored (dirs : SegmentDirs) : Multiset Document := total SegmentDir.stored dirs

theorem SegmentDirs.stored_eq (dirs : SegmentDirs) :
    SegmentDirs.stored dirs = SegmentDirs.live dirs + SegmentDirs.dead dirs :=
  total_add SegmentDir.live SegmentDir.dead dirs

@[simp] theorem SegmentDir.stored_written (docs : List Document) (deletions : Option Bitmap) :
    (SegmentDir.written docs deletions).stored = ↑docs := by
  rw [stored, live, dead, openDir_written]
  exact Multiset.coe_eq_coe.mpr (SegmentReader.liveDocuments_append_deadDocuments docs _)

/-- **Opening shows the documents of the directories that open.** -/
theorem SegmentList.coe_liveDocuments_openDirs (dirs : SegmentDirs) :
    (↑(openDirs dirs).liveDocuments : Multiset Document) = SegmentDirs.live dirs := by
  have hsum : ∀ l : List (Sigma fun _ : SegmentId => SegmentDir),
      ((l.filterMap openEntry).map (fun e => (↑e.reader.liveDocuments : Multiset Document))).sum
        = (l.map (fun e => e.2.live)).sum := by
    intro l
    induction l with
    | nil => rfl
    | cons dir l ih =>
      cases hopen : SegmentReader.openDir dir.2 with
      | none =>
        have hentry : openEntry dir = none := by rw [openEntry, hopen]; rfl
        rw [List.filterMap_cons_none hentry, ih, List.map_cons, List.sum_cons,
          SegmentDir.live_of_not_open hopen, zero_add]
      | some reader =>
        have hentry : openEntry dir = some ⟨dir.1, reader⟩ := by rw [openEntry, hopen]; rfl
        rw [List.filterMap_cons_some hentry, List.map_cons, List.sum_cons, ih, List.map_cons,
          List.sum_cons, SegmentDir.live_of_open hopen]
  rw [SegmentList.liveDocuments, coe_flatMap, segments_openDirs, hsum]
  exact ((perm_sortedDirs dirs).map _).sum_eq

/-- What the directories show, segment by segment. -/
theorem Synced.live_eq_sum {l : SegmentList} {dirs : SegmentDirs} (h : Synced l dirs)
    (hreg : Registered l dirs) :
    SegmentDirs.live dirs
      = (l.segments.map (fun e => share SegmentDir.live (dirs.lookup e.segmentId))).sum := by
  have hS : ∀ id ∈ dirs,
      id ∈ dirs.keys.toFinset ∪ (l.segments.map SegmentEntry.segmentId).toFinset := fun id hid =>
    Finset.mem_union_left _ (List.mem_toFinset.mpr hid)
  -- a directory that is not open shows nothing
  have hrest : ∀ id ∈ dirs.keys.toFinset ∪ (l.segments.map SegmentEntry.segmentId).toFinset,
      id ∉ (l.segments.map SegmentEntry.segmentId).toFinset →
      share SegmentDir.live (dirs.lookup id) = 0 := by
    intro id _ hnot
    cases hlook : dirs.lookup id with
    | none => rfl
    | some dir =>
      by_contra hne
      have hopen : SegmentReader.openDir dir ≠ none := fun hnone =>
        hne (SegmentDir.live_of_not_open hnone)
      obtain ⟨e, he, rfl⟩ := hreg id dir hlook hopen
      exact hnot (List.mem_toFinset.mpr (List.mem_map_of_mem he))
  rw [SegmentDirs.live, total_eq_sum _ dirs hS,
    ← Finset.sum_subset Finset.subset_union_right hrest, List.sum_toFinset _ h.nodup,
    List.map_map]
  rfl

/-- When the open readers have the bits that are on disk, the list shows what the directories
show. -/
theorem Synced.coe_liveDocuments {l : SegmentList} {dirs : SegmentDirs} (h : Synced l dirs)
    (hreg : Registered l dirs)
    (hcur : ∀ e ∈ l.segments, ∀ dir, dirs.lookup e.segmentId = some dir →
      SegmentReader.openDir dir = some e.reader) :
    (↑l.liveDocuments : Multiset Document) = SegmentDirs.live dirs := by
  rw [h.live_eq_sum hreg, SegmentList.liveDocuments, coe_flatMap]
  refine congrArg List.sum (List.map_congr_left (fun e he => ?_))
  obtain ⟨docs, -, deletions, -, hlook, -⟩ := h.onDisk e he
  rw [hlook, share_some, SegmentDir.live_of_open (hcur e he _ hlook)]

/-! ## 2. Segment lists -/

namespace SegmentList

/-- The documents of a list after an installation: those of the segments kept, and the new
ones. -/
theorem coe_liveDocuments_install (l : SegmentList) (oldIds : List SegmentId)
    (docs : List Document) :
    (↑(l.install oldIds docs).liveDocuments : Multiset Document)
      = ↑((l.segments.filter (fun e => e.segmentId ∉ oldIds)).flatMap
          (fun e => e.reader.liveDocuments)) + ↑docs := by
  rw [SegmentList.liveDocuments, segments_install, List.flatMap_append, ← Multiset.coe_add]
  simp

/-- The documents of a list are those of some of its segments and those of the others. -/
theorem coe_liveDocuments_split (l : SegmentList) (ids : List SegmentId) :
    (↑l.liveDocuments : Multiset Document)
      = ↑((l.segments.filter (fun e => e.segmentId ∉ ids)).flatMap
          (fun e => e.reader.liveDocuments))
        + ↑((l.segments.filter (fun e => e.segmentId ∈ ids)).flatMap
          (fun e => e.reader.liveDocuments)) := by
  have hperm : (l.segments.filter (fun e => e.segmentId ∈ ids)
      ++ l.segments.filter (fun e => e.segmentId ∉ ids)).Perm l.segments := by
    have h := List.filter_append_perm
      (fun e : SegmentEntry => decide (e.segmentId ∈ ids)) l.segments
    simpa using h
  rw [add_comm, Multiset.coe_add, ← List.flatMap_append, SegmentList.liveDocuments]
  exact Multiset.coe_eq_coe.mpr (hperm.symm.flatMap_right _)

end SegmentList

/-- What `get_doc` returns is live and has the id. -/
theorem Synced.of_getDoc_eq_some {l : SegmentList} {dirs : SegmentDirs} (h : Synced l dirs)
    {docId : DocId} {doc : Document} (hget : l.getDoc docId = some doc) :
    doc ∈ l.liveDocuments ∧ doc.id = docId := by
  simp only [SegmentList.getDoc, Option.bind_eq_bind, Option.bind_eq_some_iff] at hget
  obtain ⟨loc, hloc, e, hfind, hdoc⟩ := hget
  obtain ⟨e', he', hseg, doc', hdoc', hid⟩ := h.sound docId loc hloc
  obtain rfl : e' = e := by
    have hfind' := h.find_eq he'
    rw [hseg, hfind, Option.some.injEq] at hfind'
    exact hfind'.symm
  obtain rfl : doc' = doc := by rw [hdoc, Option.some.injEq] at hdoc'; exact hdoc'.symm
  obtain ⟨docs, deleted, -, hreader, -, -⟩ := h.onDisk e' he'
  rw [hreader] at hdoc
  have hlive := SegmentReader.mem_liveDocuments_of_getDoc hdoc
  rw [← hreader] at hlive
  exact ⟨List.mem_flatMap.mpr ⟨e', he', hlive⟩, hid⟩

/-- When the map is complete, `get_doc` fails only for ids that are in no segment. -/
theorem Synced.of_getDoc_eq_none {l : SegmentList} {dirs : SegmentDirs} (h : Synced l dirs)
    (hcomplete : l.docIdMap.Complete l.segments) {docId : DocId} (hget : l.getDoc docId = none) :
    ∀ doc ∈ l.liveDocuments, doc.id ≠ docId := by
  rintro doc hdoc rfl
  obtain ⟨e, he, hlive⟩ := List.mem_flatMap.mp hdoc
  cases hloc : l.docIdMap doc.id with
  | none => exact hcomplete e he doc hlive hloc
  | some loc =>
    obtain ⟨e', he', hseg, doc', hdoc', -⟩ := h.sound doc.id loc hloc
    have hfind := h.find_eq he'
    rw [hseg] at hfind
    simp [SegmentList.getDoc, hloc, hfind, hdoc'] at hget

namespace ShardEngine

theorem mergedDocs_eq (sources : List SegmentEntry) :
    MergeScheduler.mergedDocs sources = sources.flatMap (fun e => e.reader.liveDocuments) := rfl

/-- **A merge, as the open readers see it, neither loses nor adds a document.** -/
theorem coe_liveDocuments_merged (s : ShardEngine) (ids : List SegmentId) :
    (↑(s.merged ids).segments.liveDocuments : Multiset Document)
      = ↑s.segments.liveDocuments := by
  rw [merged, installed, SegmentList.coe_liveDocuments_install, mergedDocs_eq,
    s.segments.coe_liveDocuments_split ids]
  rfl

/-- Nor does a reindex. -/
theorem coe_liveDocuments_reindexed (s : ShardEngine) :
    (↑s.reindexed.segments.liveDocuments : Multiset Document) = ↑s.segments.liveDocuments := by
  have hnone : s.segments.segments.filter (fun e => e.segmentId ∉ s.openIds) = [] := by
    rw [List.filter_eq_nil_iff]
    intro e he
    have hid : e.segmentId ∈ s.openIds := List.mem_map_of_mem he
    simpa using hid
  rw [reindexed, installed]
  simp only [SegmentList.coe_liveDocuments_install, hnone, List.flatMap_nil, Multiset.coe_nil,
    zero_add]

/-- A flush adds the buffered documents, deleted or not. -/
theorem coe_liveDocuments_flushed (s : ShardEngine) :
    (↑s.flushed.segments.liveDocuments : Multiset Document)
      = ↑s.segments.liveDocuments + ↑s.writeBuffer.docs := by
  have hall : s.segments.segments.filter (fun e => e.segmentId ∉ ([] : List SegmentId))
      = s.segments.segments := by simp
  show (↑(s.segments.install [] s.writeBuffer.docs).liveDocuments : Multiset Document) = _
  rw [SegmentList.coe_liveDocuments_install, hall, SegmentList.liveDocuments]

/-! ## 3. What a search shows -/

/-- The documents a shard shows. -/
def visible (s : ShardEngine) : Multiset Document :=
  ↑s.segments.liveDocuments + ↑s.writeBuffer.allDocs

/-- Everything in the open segments and in the buffer, deleted there or not. -/
def holds (s : ShardEngine) : Multiset Document :=
  ↑s.segments.liveDocuments + ↑s.writeBuffer.docs

theorem visible_le_holds (s : ShardEngine) : s.visible ≤ s.holds :=
  add_le_add_right (Multiset.coe_le.mpr List.filter_sublist.subperm) _

/-- The readers of a search. -/
def readers (s : ShardEngine) : List SegmentReader :=
  s.segments.segments.map SegmentEntry.reader ++ s.writeBuffer.liveReader.toList

theorem flatMap_liveReader (b : WriteBuffer) :
    b.liveReader.toList.flatMap SegmentReader.liveDocuments = b.allDocs := by
  unfold WriteBuffer.liveReader
  split
  · next h => rw [List.isEmpty_iff.mp h]; rfl
  · simp

theorem flatMap_readers (s : ShardEngine) :
    s.readers.flatMap SegmentReader.liveDocuments
      = s.segments.liveDocuments ++ s.writeBuffer.allDocs := by
  rw [readers, List.flatMap_append, flatMap_liveReader, List.flatMap_map, SegmentList.liveDocuments]

/-- What a search relies on: the open readers are those of whole files, and the buffer's cache
is sound.  It also holds between the steps of the calls that change the shard. -/
structure Readable (s : ShardEngine) : Prop where
  whole : ∀ e ∈ s.segments.segments, ∃ docs deleted, e.reader = SegmentReader.ofDocs docs deleted
  coherent : s.writeBuffer.Coherent

theorem Inv.readable {s : ShardEngine} (h : Inv s) : Readable s where
  whole := fun e he => by
    obtain ⟨docs, deleted, -, hreader, -, -⟩ := h.synced.onDisk e he
    exact ⟨docs, deleted, hreader⟩
  coherent := h.coherent

section

variable {s : ShardEngine} (h : Readable s)

include h

/-- Every reader of a search is that of whole files. -/
theorem Readable.ofDocs_of_mem_readers {reader : SegmentReader} (hr : reader ∈ s.readers) :
    ∃ docs deleted, reader = SegmentReader.ofDocs docs deleted := by
  rcases List.mem_append.mp hr with hr | hr
  · obtain ⟨e, he, rfl⟩ := List.mem_map.mp hr
    exact h.whole e he
  · unfold WriteBuffer.liveReader at hr
    split at hr
    · simp at hr
    · exact ⟨s.writeBuffer.allDocs, ∅, by simpa using hr⟩

/-- A match-all search scores as many documents as it can read. -/
theorem Readable.sum_allLiveDocs :
    (s.readers.map (fun r => r.allLiveDocs.length)).sum = s.visible.card := by
  have hlen : ∀ reader ∈ s.readers, reader.allLiveDocs.length = reader.liveDocuments.length := by
    intro reader hr
    obtain ⟨docs, deleted, rfl⟩ := h.ofDocs_of_mem_readers hr
    exact (SegmentReader.length_liveDocuments_ofDocs docs deleted).symm
  rw [List.map_congr_left hlen, ← List.length_flatMap, flatMap_readers, visible,
    Multiset.coe_add, Multiset.coe_card]

/-- **A match-all search returns what the shard shows**, and counts it. -/
theorem Readable.search_matchAll {request : SearchRequest}
    (hreq : request.MatchAll s.visible.card) :
    ∃ response, search request s = (.ok response, s.refreshed) ∧
      response.documents = s.visible ∧ response.Returns s.visible ∧
      response.totalHits = s.visible.card := by
  have hall : request.MatchAll (s.readers.map (fun r => r.allLiveDocs.length)).sum := by
    rw [h.sum_allLiveDocs]
    exact hreq
  have hdocs := s.searcher.documents_search_matchAll s.readers hall
  rw [flatMap_readers, ← Multiset.coe_add] at hdocs
  refine ⟨_, search_eq_of_coherent h.coherent request, hdocs, ?_, ?_⟩
  · have hreturns := s.searcher.returns_documents s.readers request
    rwa [hdocs] at hreturns
  · rw [← h.sum_allLiveDocs]
    exact s.searcher.totalHits_search_matchAll hreq s.readers

/-- The documents in the segments and in the buffer, deleted there or not, are those `stats`
counts. -/
theorem Readable.docCount_stats :
    s.stats.docCount = s.segments.liveDocuments.length + s.writeBuffer.docs.length := by
  have hlen : s.segments.segments.map (fun e => e.reader.allLiveDocs.length)
      = s.segments.segments.map (fun e => e.reader.liveDocuments.length) := by
    refine List.map_congr_left (fun e he => ?_)
    obtain ⟨docs, deleted, hreader⟩ := h.whole e he
    rw [hreader]
    exact (SegmentReader.length_liveDocuments_ofDocs docs deleted).symm
  rw [stats, hlen, SegmentList.liveDocuments, List.length_flatMap]

theorem Readable.card_visible_le : s.visible.card ≤ s.stats.docCount := by
  have hfilter : s.writeBuffer.allDocs.length ≤ s.writeBuffer.docs.length :=
    List.length_filter_le _ _
  rw [h.docCount_stats, visible, Multiset.coe_add, Multiset.coe_card, List.length_append]
  omega

/-- A match-all search with room for all documents returns what the shard shows. -/
theorem Readable.search_returns {request : SearchRequest}
    (hreq : request.MatchAll s.stats.docCount) :
    ∃ response, (search request s).1 = .ok response ∧ response.Returns s.visible := by
  obtain ⟨response, hok, -, hreturns, -⟩ := h.search_matchAll (hreq.mono h.card_visible_le)
  exact ⟨response, by rw [hok], hreturns⟩

theorem Readable.returns_of_search {request : SearchRequest}
    (hreq : request.MatchAll s.stats.docCount) {response : SearchResponse}
    (hok : (search request s).1 = .ok response) : response.Returns s.visible := by
  obtain ⟨response', hok', hreturns⟩ := h.search_returns hreq
  obtain rfl : response' = response := by
    rw [hok, Except.ok.injEq] at hok'
    exact hok'.symm
  exact hreturns

end

theorem search_matchAll {s : ShardEngine} (h : Inv s) {request : SearchRequest}
    (hreq : request.MatchAll s.visible.card) :
    ∃ response, search request s = (.ok response, s.refreshed) ∧
      response.documents = s.visible ∧ response.Returns s.visible ∧
      response.totalHits = s.visible.card :=
  h.readable.search_matchAll hreq

theorem Inv.docCount_stats {s : ShardEngine} (h : Inv s) :
    s.stats.docCount = s.segments.liveDocuments.length + s.writeBuffer.docs.length :=
  h.readable.docCount_stats

theorem Inv.card_visible_le {s : ShardEngine} (h : Inv s) : s.visible.card ≤ s.stats.docCount :=
  h.readable.card_visible_le

theorem Inv.search_returns {s : ShardEngine} (h : Inv s) {request : SearchRequest}
    (hreq : request.MatchAll s.stats.docCount) :
    ∃ response, (search request s).1 = .ok response ∧ response.Returns s.visible :=
  h.readable.search_returns hreq

/-- A request for everything. -/
theorem matchAll_docCount (s : ShardEngine) :
    SearchRequest.MatchAll { limit := s.stats.docCount } s.stats.docCount :=
  ⟨rfl, rfl, rfl, Nat.le_refl _⟩

/-- Every match-all search with room for all documents returns exactly these. -/
def Shows (s : ShardEngine) (docs : Multiset Document) : Prop :=
  ∀ request : SearchRequest, request.MatchAll s.stats.docCount →
    ∃ response, (search request s).1 = .ok response ∧ response.Returns docs

theorem Inv.shows_iff {s : ShardEngine} (h : Inv s) (docs : Multiset Document) :
    s.Shows docs ↔ s.visible = docs := by
  constructor
  · intro hshows
    obtain ⟨response, hok, hreturns⟩ := hshows _ s.matchAll_docCount
    exact (h.readable.returns_of_search s.matchAll_docCount hok).unique hreturns
  · rintro rfl request hreq
    exact h.search_returns hreq

/-- Every match-all search with room for all documents has exactly one hit with the id of this
one, and the hit carries it. -/
def ShowsOnce (s : ShardEngine) (doc : Document) : Prop :=
  ∀ request : SearchRequest, request.MatchAll s.stats.docCount →
    ∃ response, (search request s).1 = .ok response ∧
      (response.hits.filter (fun hit => hit.id = doc.id)).map SearchHit.document = [some doc]

theorem Readable.showsOnce_iff {s : ShardEngine} (h : Readable s) (doc : Document) :
    s.ShowsOnce doc ↔ s.visible.filter (fun d => d.id = doc.id) = {doc} := by
  constructor
  · intro honce
    obtain ⟨response, hok, hhits⟩ := honce _ s.matchAll_docCount
    have hreturns := h.returns_of_search s.matchAll_docCount hok
    exact (hreturns.found_once_iff doc).mp hhits
  · intro hfilter request hreq
    obtain ⟨response, hok, hreturns⟩ := h.search_returns hreq
    exact ⟨response, hok, (hreturns.found_once_iff doc).mpr hfilter⟩

/-- What a shard shows after a flush: everything that was buffered. -/
theorem visible_run_flushChanges (s : ShardEngine) :
    (LabelledRun.run change s s.flushChanges).visible
      = ↑s.segments.liveDocuments + ↑s.writeBuffer.docs := by
  have hmerges : ∀ (groups : List (List SegmentId)) (t : ShardEngine), t.writeBuffer.docs = [] →
      (LabelledRun.run change t (groups.map .merge)).visible = ↑t.segments.liveDocuments := by
    intro groups
    induction groups with
    | nil =>
      intro t ht
      simp [visible, WriteBuffer.allDocs, ht]
    | cons group groups ih =>
      intro t ht
      exact (ih (t.merged group) ht).trans (t.coe_liveDocuments_merged group)
  unfold flushChanges
  split
  · next hempty => rw [List.isEmpty_iff.mp hempty]; rfl
  · exact (hmerges _ s.flushed rfl).trans s.coe_liveDocuments_flushed

end ShardEngine

end ZearchEngine
