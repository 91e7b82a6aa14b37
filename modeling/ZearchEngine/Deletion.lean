/-
# Deleting a document

A deletion reaches the buffer and the bitmap on disk, but not the bitmap of a segment that is
already open.  So a search no longer returns the document exactly when no open segment can
still read it (`delete_effective_iff`): a document in the buffer is gone at once, one in an
open segment stays.

A flush hands the buffered documents to a segment and drops the set of deleted ids.  So it
changes what a search returns exactly when a buffered document was deleted
(`flush_neutral_iff`): the document comes back.
-/
import ZearchEngine.AppendOnly

namespace ZearchEngine

namespace ShardEngine

/-! ## 1. A search after a deletion -/

/-- An id that the open segments can still read. -/
def ReadableId (s : ShardEngine) (docId : DocId) : Prop :=
  ∃ doc ∈ s.segments.liveDocuments, doc.id = docId

/-- The documents returned are hits. -/
theorem exists_hit_of_returns {response : SearchResponse} {docs : Multiset Document}
    (h : response.Returns docs) {doc : Document} (hdoc : doc ∈ docs) :
    ∃ hit ∈ response.hits, hit.id = doc.id := by
  have hmem : (doc.id, some doc) ∈ docs.map (fun d => (d.id, some d)) :=
    Multiset.mem_map_of_mem _ hdoc
  rw [← h, Multiset.mem_coe] at hmem
  obtain ⟨hit, hhit, heq⟩ := List.mem_map.mp hmem
  exact ⟨hit, hhit, congrArg Prod.fst heq⟩

/-- Every hit is a document of an open segment, or one of the buffer that is not deleted. -/
theorem Inv.of_mem_hits {s : ShardEngine} (h : Inv s) {request : SearchRequest} {hit : SearchHit}
    (hhit : hit ∈ (s.searcher.search s.readers request).hits) :
    s.ReadableId hit.id ∨ ∃ doc ∈ s.writeBuffer.allDocs, doc.id = hit.id := by
  obtain ⟨reader, hreader, i, doc, hget, -, hid⟩ := s.searcher.exists_reader_of_mem_hits hhit
  obtain ⟨docs, deleted, rfl⟩ := h.readable.ofDocs_of_mem_readers hreader
  have hlive := SegmentReader.mem_liveDocuments_of_getDoc hget
  rcases List.mem_append.mp hreader with hseg | hbuf
  · obtain ⟨e, he, heq⟩ := List.mem_map.mp hseg
    rw [← heq] at hlive
    exact Or.inl ⟨doc, List.mem_flatMap.mpr ⟨e, he, hlive⟩, hid.symm⟩
  · have hall : doc ∈ s.writeBuffer.allDocs := by
      rw [← flatMap_liveReader]
      exact List.mem_flatMap.mpr ⟨_, hbuf, hlive⟩
    exact Or.inr ⟨doc, hall, hid.symm⟩

/-- **A deletion takes effect exactly when no open segment can read the id.**  After any run of
operations a deletion succeeds; and the search that follows has no hit with the id, whatever is
asked, if and only if no open segment could read a document with that id. -/
theorem delete_effective_iff (writeBufferSize : Nat) (searcher : MultiSegmentSearcher)
    (ops : List Op) (docId : DocId) :
    let s := runNew writeBufferSize searcher ops
    (delete docId s).1 = .ok () ∧
    ((∀ request, ∃ response, (search request (delete docId s).2).1 = .ok response ∧
        ∀ hit ∈ response.hits, hit.id ≠ docId) ↔
      ¬ s.ReadableId docId) := by
  intro s
  have hinv : Inv s := inv_runNew writeBufferSize searcher ops
  have hlive : (s.deleted docId).segments.liveDocuments = s.segments.liveDocuments :=
    hinv.liveDocuments_deleted docId
  rw [delete_eq hinv]
  refine ⟨rfl, ?_, ?_⟩
  · rintro hnone ⟨doc, hdoc, hid⟩
    have hreq : SearchRequest.MatchAll { limit := (s.deleted docId).visible.card }
        (s.deleted docId).visible.card := ⟨rfl, rfl, rfl, Nat.le_refl _⟩
    obtain ⟨response, hok, hhits⟩ := hnone { limit := (s.deleted docId).visible.card }
    obtain ⟨response', hok', -, hreturns, -⟩ := search_matchAll (hinv.deleted docId) hreq
    have heq : response' = response := by
      rw [hok', Except.ok.injEq] at hok
      exact hok
    subst heq
    have hvisible : doc ∈ (s.deleted docId).visible := by
      rw [visible, hlive]
      exact Multiset.mem_add.mpr (Or.inl hdoc)
    obtain ⟨hit, hhit, hhitId⟩ := exists_hit_of_returns hreturns hvisible
    exact hhits hit hhit (hhitId.trans hid)
  · intro hread request
    refine ⟨_, by rw [search_eq (hinv.deleted docId)], fun hit hhit hid => ?_⟩
    rcases (hinv.deleted docId).of_mem_hits hhit with ⟨doc, hdoc, hdocId⟩ | ⟨doc, hdoc, hdocId⟩
    · rw [hlive] at hdoc
      exact hread ⟨doc, hdoc, hdocId.trans hid⟩
    · -- the buffer's own reader leaves out what was just deleted
      have hnot : doc.id ∉ insert docId s.writeBuffer.deletedIds :=
        of_decide_eq_true (List.mem_filter.mp hdoc).2
      exact hnot (Finset.mem_insert.mpr (Or.inl (hdocId.trans hid)))

/-- A document deleted after a flush is still found. -/
theorem delete_after_flush_found :
    (delete 1 (runNew 1000 .unscored [.index (titled 1 "a"), .flush])).1 = .ok () ∧
    ¬ ∀ request, ∃ response, (search request
        (delete 1 (runNew 1000 .unscored [.index (titled 1 "a"), .flush])).2).1 = .ok response ∧
        ∀ hit ∈ response.hits, hit.id ≠ 1 := by
  refine ⟨by rfl, fun hnone => ?_⟩
  obtain ⟨response, hok, hhits⟩ := hnone {}
  have hids : (search {} (delete 1 (runNew 1000 .unscored
      [.index (titled 1 "a"), .flush])).2).1.toOption.map
        (fun response => response.hits.map SearchHit.id) = some [1] := by decide
  rw [hok, Except.toOption, Option.map_some, Option.some.injEq] at hids
  have hmem : (1 : DocId) ∈ response.hits.map SearchHit.id := by
    rw [hids]
    exact List.mem_cons_self
  obtain ⟨hit, hhit, hid⟩ := List.mem_map.mp hmem
  exact hhits hit hhit hid

/-! ## 2. A search after a flush -/

/-- **A flush is neutral exactly when no buffered document was deleted.**  After any run of
operations a flush succeeds; and a match-all search with room for all documents returns the
same before and after it if and only if no document in the buffer has a deleted id. -/
theorem flush_neutral_iff (writeBufferSize : Nat) (searcher : MultiSegmentSearcher)
    (ops : List Op) :
    let s := runNew writeBufferSize searcher ops
    (flush s).1 = .ok () ∧
    ((∀ request : SearchRequest, request.MatchAll s.stats.docCount →
        ∃ before after, (search request s).1 = .ok before ∧
          (search request (flush s).2).1 = .ok after ∧ after.documents = before.documents) ↔
      ∀ doc ∈ s.writeBuffer.docs, doc.id ∉ s.writeBuffer.deletedIds) := by
  intro s
  have hinv : Inv s := inv_runNew writeBufferSize searcher ops
  have hflushed := hinv.run (along_flushChanges s)
  have hafter := visible_run_flushChanges s
  rw [flush_eq hinv]
  have hcard : (LabelledRun.run change s s.flushChanges).visible.card = s.stats.docCount := by
    rw [hafter, hinv.docCount_stats, Multiset.coe_add, Multiset.coe_card, List.length_append]
  have hsearch : ∀ request : SearchRequest, request.MatchAll s.stats.docCount →
      ∃ before after, (search request s).1 = .ok before ∧
        (search request (LabelledRun.run change s s.flushChanges)).1 = .ok after ∧
        before.documents = s.visible ∧
        after.documents = ↑s.segments.liveDocuments + ↑s.writeBuffer.docs := by
    intro request hreq
    obtain ⟨before, hbefore, hdocs, -, -⟩ :=
      search_matchAll hinv (hreq.mono hinv.card_visible_le)
    obtain ⟨after, hok, hdocs', -, -⟩ := search_matchAll hflushed (hcard ▸ hreq)
    exact ⟨before, after, by rw [hbefore], by rw [hok], hdocs, hdocs'.trans hafter⟩
  have hall : s.visible = ↑s.segments.liveDocuments + ↑s.writeBuffer.docs ↔
      ∀ doc ∈ s.writeBuffer.docs, doc.id ∉ s.writeBuffer.deletedIds := by
    rw [visible, add_right_inj, Multiset.coe_eq_coe]
    constructor
    · intro hperm doc hdoc
      exact of_decide_eq_true (List.mem_filter.mp (hperm.mem_iff.mpr hdoc)).2
    · intro hnone
      rw [WriteBuffer.allDocs,
        List.filter_eq_self.mpr (fun doc hdoc => by simpa using hnone doc hdoc)]
  refine ⟨rfl, ?_⟩
  rw [← hall]
  constructor
  · intro hneutral
    have hreq : SearchRequest.MatchAll { limit := s.stats.docCount } s.stats.docCount :=
      ⟨rfl, rfl, rfl, Nat.le_refl _⟩
    obtain ⟨before, after, hb, ha, heq⟩ := hneutral _ hreq
    obtain ⟨before', after', hb', ha', hdocs, hdocs'⟩ := hsearch _ hreq
    rw [hb', Except.ok.injEq] at hb
    rw [ha', Except.ok.injEq] at ha
    rw [← hdocs, ← hdocs', hb, ha, heq]
  · intro heq request hreq
    obtain ⟨before, after, hb, ha, hdocs, hdocs'⟩ := hsearch request hreq
    exact ⟨before, after, hb, ha, by rw [hdocs, hdocs', heq]⟩

/-- A document deleted in the buffer is back after the flush. -/
theorem flush_resurrects :
    (flush (runNew 1000 .unscored [.index (titled 1 "a"), .delete 1])).1 = .ok () ∧
    ¬ ∀ request : SearchRequest, request.MatchAll
        (runNew 1000 .unscored [.index (titled 1 "a"), .delete 1]).stats.docCount →
      ∃ before after,
        (search request (runNew 1000 .unscored [.index (titled 1 "a"), .delete 1])).1 = .ok before ∧
        (search request (flush (runNew 1000 .unscored
          [.index (titled 1 "a"), .delete 1])).2).1 = .ok after ∧
        after.documents = before.documents := by
  refine ⟨by rfl, fun hneutral => ?_⟩
  obtain ⟨before, after, hbefore, hafter, heq⟩ := hneutral {} ⟨rfl, rfl, rfl, by decide⟩
  have hnone : (search {} (runNew 1000 .unscored
      [.index (titled 1 "a"), .delete 1])).1.toOption.map SearchResponse.documents = some 0 := by
    decide
  have hone : (search {} (flush (runNew 1000 .unscored
      [.index (titled 1 "a"), .delete 1])).2).1.toOption.map SearchResponse.documents
        = some {titled 1 "a"} := by
    decide
  rw [hbefore, Except.toOption, Option.map_some, Option.some.injEq] at hnone
  rw [hafter, Except.toOption, Option.map_some, Option.some.injEq] at hone
  rw [hnone, hone] at heq
  cases congrArg Multiset.card heq

end ShardEngine

end ZearchEngine
