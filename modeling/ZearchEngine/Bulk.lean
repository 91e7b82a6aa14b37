/-
# Bulk indexing

`index_batch` (`crates/shard/src/shard.rs`) adds all documents and flushes once, at the end;
`index`, called for one document after the other, flushes whenever the buffer is full.  A flush
also empties the set of deleted ids, so the two drop it at different times.

They still show the same (`indexBatch_agrees`).  The buffer only grows until it is flushed, so
one path flushes exactly if the other does; with no deleted ids left, what comes after the
first flush is shown wherever it is; and what came before it goes into a segment with all that
was deleted, in the middle as at the end.
-/
import ZearchEngine.CatchUp

namespace ZearchEngine

/-! ## 1. The buffer -/

namespace WriteBuffer

/-- What a buffer shows of itself and these documents once it has taken all of them, with what
goes into a segment if it was full. -/
def afterBatch (b : WriteBuffer) (docs : List Document) : List Document :=
  if (b.addAll docs).1 then (b.addAll docs).2.docs else (b.addAll docs).2.allDocs

/-- With nothing deleted the buffer shows all it is given, whenever it is flushed. -/
theorem afterEntries_undeleted : ∀ (docs : List Document) {b : WriteBuffer}, b.deletedIds = ∅ →
    b.afterEntries (docs.map .index) = b.docs ++ docs := by
  intro docs
  induction docs with
  | nil =>
    intro b h
    simp [afterEntries, allDocs, h]
  | cons doc docs ih =>
    intro b h
    rw [List.map_cons, afterEntries]
    split
    · have hdrained := ih (b := (b.add doc).2.drain.2) rfl
      rw [hdrained, add_docs, List.append_assoc]
      rfl
    · have hadded := ih (b := (b.add doc).2) h
      rw [hadded, add_docs, List.append_assoc]
      rfl

/-- **The buffer shows the same** whether it is flushed on the way or at the end. -/
theorem afterEntries_index : ∀ (docs : List Document) (b : WriteBuffer),
    b.afterEntries (docs.map .index) = b.afterBatch docs := by
  intro docs
  induction docs with
  | nil => exact fun _ => rfl
  | cons doc docs ih =>
    intro b
    have hfull : (b.addAll (doc :: docs)).1
        = ((b.add doc).1 || ((b.add doc).2.addAll docs).1) := rfl
    rw [List.map_cons, afterEntries, afterBatch, addAll_cons, hfull]
    by_cases hadd : (b.add doc).1 = true
    · -- flushed here, or at the end: nothing is deleted any more for the rest
      have hrest := afterEntries_undeleted docs (b := (b.add doc).2.drain.2) rfl
      rw [if_pos hadd, hrest, hadd, Bool.true_or, if_pos rfl, addAll_docs]
      rfl
    · rw [if_neg hadd, ih, afterBatch, eq_false_of_ne_true hadd,
        Bool.false_or]

theorem length_afterBatch_le (b : WriteBuffer) (docs : List Document) :
    (b.afterBatch docs).length ≤ b.docs.length + docs.length := by
  have hdocs : (b.addAll docs).2.docs.length = b.docs.length + docs.length := by
    rw [addAll_docs, List.length_append]
  rw [afterBatch, ← hdocs]
  split
  · exact Nat.le_refl _
  · exact List.length_filter_le _ _

end WriteBuffer

/-! ## 2. The shard -/

namespace ShardEngine

/-- `index`, for one document after the other. -/
def indexEach : List Document → ShardM Unit
  | [] => pure ()
  | doc :: docs => do
    index doc
    indexEach docs

/-- What a shard shows once it has accepted some documents. -/
theorem visible_acceptChanges (s : ShardEngine) (docs : List Document) :
    (LabelledRun.run change s (s.acceptChanges docs)).visible
      = ↑s.segments.liveDocuments + ↑(s.writeBuffer.afterBatch docs) := by
  rw [acceptChanges, WriteBuffer.afterBatch]
  split
  · exact visible_run_flushChanges (s.accepted docs)
  · rfl

/-- The segments and the buffer once a document is accepted. -/
theorem acceptChanges_single (s : ShardEngine) (doc : Document) :
    let after := LabelledRun.run change s (s.acceptChanges [doc])
    (after.writeBuffer = if (s.writeBuffer.add doc).1 then (s.writeBuffer.add doc).2.drain.2
      else (s.writeBuffer.add doc).2) ∧
    (↑after.segments.liveDocuments : Multiset Document) = ↑s.segments.liveDocuments
      + if (s.writeBuffer.add doc).1 then ↑(s.writeBuffer.add doc).2.docs else 0 := by
  have hfull : (s.writeBuffer.addAll [doc]).1 = (s.writeBuffer.add doc).1 := Bool.or_false _
  rw [acceptChanges, hfull]
  by_cases hadd : (s.writeBuffer.add doc).1 = true
  · simp only [hadd, if_true]
    exact ⟨writeBuffer_run_flushChanges _, coe_liveDocuments_run_flushChanges _⟩
  · simp only [hadd, if_neg, Bool.false_eq_true, not_false_eq_true]
    exact ⟨rfl, (add_zero _).symm⟩

/-- **What a shard shows once documents are indexed one after the other.** -/
theorem indexEach_eq : ∀ (docs : List Document) {s : ShardEngine}, Inv s →
    (indexEach docs s).1 = .ok () ∧ Inv (indexEach docs s).2 ∧
      (indexEach docs s).2.visible
        = ↑s.segments.liveDocuments + ↑(s.writeBuffer.afterEntries (docs.map .index)) := by
  intro docs
  induction docs with
  | nil => exact fun h => ⟨rfl, h, rfl⟩
  | cons doc docs ih =>
    intro s h
    have hinv := h.run (along_changes s (.index doc))
    obtain ⟨hok, hafter, hvisible⟩ := ih hinv
    obtain ⟨hbuffer, hsegments⟩ := s.acceptChanges_single doc
    have hfirst : indexEach (doc :: docs) s
        = indexEach docs (LabelledRun.run change s (s.acceptChanges [doc])) :=
      ShardM.bind_ok (indexBatch_eq h [doc])
    rw [hfirst]
    refine ⟨hok, hafter, hvisible.trans ?_⟩
    show (↑(LabelledRun.run change s (s.acceptChanges [doc])).segments.liveDocuments +
      ↑((LabelledRun.run change s (s.acceptChanges [doc])).writeBuffer.afterEntries
        (docs.map .index)) : Multiset Document) = _
    rw [hsegments, hbuffer, List.map_cons, WriteBuffer.afterEntries]
    by_cases hadd : (s.writeBuffer.add doc).1 = true
    · rw [if_pos hadd, if_pos hadd, if_pos hadd, ← Multiset.coe_add, add_assoc]
    · rw [if_neg hadd, if_neg hadd, if_neg hadd, add_zero]

/-! ## 3. From every reachable state -/

/-- A call on an open shard: an operation, or an entry of a primary to apply. -/
inductive Call where
  | own (op : Op)
  | replicated (entry : WalEntry)

/-- The shard after a call. -/
def callStep (s : ShardEngine) : Call → ShardEngine
  | .own op => s.step op
  | .replicated entry => (applyReplicated entry s).2

/-- The shard after a run of calls on a new one. -/
def runCalled (writeBufferSize : Nat) (searcher : MultiSegmentSearcher) (calls : List Call) :
    ShardEngine :=
  LabelledRun.run callStep (openDisk writeBufferSize searcher Disk.empty) calls

theorem Inv.callStep {s : ShardEngine} (h : Inv s) (call : Call) : Inv (s.callStep call) := by
  cases call with
  | own op =>
    show Inv (s.step op)
    rw [step_eq h op]
    exact h.run (along_changes s op)
  | replicated entry =>
    show Inv (applyReplicated entry s).2
    rw [applyReplicated_eq h entry]
    exact h.applied entry

theorem inv_runCalled (writeBufferSize : Nat) (searcher : MultiSegmentSearcher)
    (calls : List Call) : Inv (runCalled writeBufferSize searcher calls) :=
  LabelledRun.run_inv (fun _ call h => h.callStep call) calls _ (inv_new writeBufferSize searcher)

/-- **Bulk indexing agrees with indexing one document after the other.**  After any run of
calls, deletions among them, and for any capacity of the buffer, both succeed, and a match-all
search with room for all documents returns the same documents after the one as after the
other. -/
theorem indexBatch_agrees (writeBufferSize : Nat) (searcher : MultiSegmentSearcher)
    (calls : List Call) (docs : List Document) :
    let s := runCalled writeBufferSize searcher calls
    (indexBatch docs s).1 = .ok () ∧ (indexEach docs s).1 = .ok () ∧
    ∀ request : SearchRequest, request.MatchAll (s.stats.docCount + docs.length) →
      ∃ bulk each, (search request (indexBatch docs s).2).1 = .ok bulk ∧
        (search request (indexEach docs s).2).1 = .ok each ∧
        bulk.documents = each.documents := by
  intro s
  have hinv : Inv s := inv_runCalled writeBufferSize searcher calls
  have hbatch := hinv.run (along_changes s (.indexBatch docs))
  have hvisible := s.visible_acceptChanges docs
  obtain ⟨hok, heach, hsame⟩ := indexEach_eq docs hinv
  rw [WriteBuffer.afterEntries_index, ← hvisible] at hsame
  rw [indexBatch_eq hinv]
  refine ⟨rfl, hok, fun request hreq => ?_⟩
  have hroom : (LabelledRun.run change s (s.acceptChanges docs)).visible.card
      ≤ s.stats.docCount + docs.length := by
    have hlen := s.writeBuffer.length_afterBatch_le docs
    rw [hvisible, hinv.docCount_stats, Multiset.coe_add, Multiset.coe_card, List.length_append]
    omega
  obtain ⟨bulk, hbulk, hdocs, -, -⟩ := search_matchAll hbatch (hreq.mono hroom)
  obtain ⟨each, hsearch, hdocs', -, -⟩ := search_matchAll heach (hreq.mono (hsame ▸ hroom))
  exact ⟨bulk, each, congrArg Prod.fst hbulk, congrArg Prod.fst hsearch,
    hdocs.trans (hsame.symm.trans hdocs'.symm)⟩

/-- The second document is deleted before it comes, and the buffer is full with the third. -/
theorem indexBatch_agrees_deleted :
    ∃ bulk each,
      (search { limit := 4 } (indexBatch [titled 2 "b", titled 3 "c", titled 4 "d"]
        (runCalled 195 .unscored [.own (.index (titled 1 "a")), .own (.delete 2)])).2).1
          = .ok bulk ∧
      (search { limit := 4 } (indexEach [titled 2 "b", titled 3 "c", titled 4 "d"]
        (runCalled 195 .unscored [.own (.index (titled 1 "a")), .own (.delete 2)])).2).1
          = .ok each ∧
      bulk.documents = each.documents :=
  (indexBatch_agrees 195 .unscored [.own (.index (titled 1 "a")), .own (.delete 2)]
    [titled 2 "b", titled 3 "c", titled 4 "d"]).2.2 { limit := 4 } ⟨rfl, rfl, rfl, by decide⟩

end ShardEngine

end ZearchEngine
