/-
# The results of Block-Max WAND

What `wand_top_k` returns, for the cursors of a query at their first postings.  The loop always
ends, because every turn consumes a posting, and what it returns is found by brute force
(`wandTopK_sound`).  What it returns of that depends on the bounds:

* if the scores are positive and within the bounds, the `k` best (`wandTopK_eq_bruteForce`);
* if the bounds are positive and there are at most `k` documents, all (`wandTopK_roomy`), and
  with more documents at least one (`wandTopK_ne_nil`);
* if there are at most `k` documents, those whose bounds are positive
  (`wandTopK_withBound_roomy`);
* if the bounds are not positive, nothing (`wandTopK_closed`): the threshold of a heap that is
  not full is 0, which such bounds do not beat.

It never returns more than `k` documents (`wandTopK_length_le`).
-/
import ZearchEngine.Wand

namespace ZearchEngine

open Leapfrog

/-! ## 1. Runs of the loop -/

section

variable {R : Type} [Field R] [LinearOrder R] {titleBoost descBoost : R}
  {scoreFn : LocalDocId → Option R} {cursors : List (TermCursor R)} {heap : TopKHeap R}
  {turn : Turn R}

/-- A turn that does not end the loop leads to where `I` holds, the last one returns what `P`
says. -/
def Turn.Leaves (turn : Turn R) (I : List (TermCursor R) → TopKHeap R → Prop)
    (P : List (LocalDocId × R) → Prop) : Prop :=
  match turn with
  | .done hits => P hits
  | .again cursors heap => I cursors heap

/-- Every turn consumes a posting. -/
theorem WandStep.sameLists_and_size_lt
    (h : WandStep titleBoost descBoost scoreFn cursors heap turn) :
    turn.Leaves (fun cursors' _ => SameLists cursors cursors' ∧ size cursors' < size cursors)
      (fun _ => True) := by
  cases h with
  | exhausted => trivial
  | align cursors' hsame hsize => exact ⟨hsame, hsize⟩
  | last => trivial
  | jump cursors' nextDoc hsame _ _ _ hsize =>
    exact ⟨hsame.trans (sameLists_advanceTo nextDoc cursors'), hsize⟩
  | evaluate cursors' cursors'' p _ hsame _ _ hsize => exact ⟨hsame, hsize⟩

/-- **The loop ends within `size` turns**, and an invariant of its turns holds to the end. -/
theorem wandLoop_spec {I : List (TermCursor R) → TopKHeap R → Prop}
    {P : List (LocalDocId × R) → Prop} (hready : Ready cursors)
    (hstep : ∀ cursors' heap' turn, SameLists cursors cursors' → I cursors' heap' →
      WandStep titleBoost descBoost scoreFn cursors' heap' turn → turn.Leaves I P)
    (h : I cursors heap) :
    ∃ hits, P hits ∧ ∀ fuel, size cursors < fuel →
      wandLoop titleBoost descBoost scoreFn fuel cursors heap = some hits := by
  induction hn : size cursors using Nat.strong_induction_on generalizing cursors heap with
  | _ n ih =>
    have hturn : WandStep titleBoost descBoost scoreFn cursors heap
        (wandTurn titleBoost descBoost scoreFn cursors heap) := wandTurn_step hready heap
    have hleaves := hstep _ _ _ rfl h hturn
    have hless := hturn.sameLists_and_size_lt
    cases hresult : wandTurn titleBoost descBoost scoreFn cursors heap with
    | done hits =>
      rw [hresult] at hleaves
      refine ⟨hits, hleaves, fun fuel hfuel => ?_⟩
      obtain ⟨fuel, rfl⟩ := Nat.exists_eq_succ_of_ne_zero (Nat.ne_zero_of_lt hfuel)
      rw [wandLoop, hresult]
    | again cursors' heap' =>
      rw [hresult] at hleaves hless
      obtain ⟨hsame, hlt⟩ := hless
      obtain ⟨hits, hP, hrun⟩ := ih (size cursors') (hn ▸ hlt) (hready.of_sameLists hsame)
        (fun cursors'' heap'' turn hsame' => hstep cursors'' heap'' turn (hsame.trans hsame'))
        hleaves rfl
      refine ⟨hits, hP, fun fuel hfuel => ?_⟩
      obtain ⟨fuel, rfl⟩ := Nat.exists_eq_succ_of_ne_zero (Nat.ne_zero_of_lt hfuel)
      rw [wandLoop, hresult]
      exact hrun fuel (by omega)

/-! ## 2. What the heap accounts for -/

/-- The heap holds the best of what has been seen, and this and what is still shared is `all`. -/
def Accounted (scoreFn : LocalDocId → Option R) (k : Nat) (all : Multiset (R ×ₗ LocalDocId))
    (cursors : List (TermCursor R)) (heap : TopKHeap R) : Prop :=
  heap.k = k ∧ ∃ seen, heap.Holds seen ∧ seen + scored scoreFn (shared cursors) = all

/-- If the bounds do not beat the threshold, nothing shared in the current blocks does. -/
def Prunable (titleBoost descBoost : R) (scoreFn : LocalDocId → Option R)
    (cursors : List (TermCursor R)) (heap : TopKHeap R) : Prop :=
  totalBlockUb titleBoost descBoost cursors ≤ heap.threshold →
    ∀ d ∈ shared cursors, (∀ c ∈ cursors, ∀ nd, c.nextBlockDocId = some nd → d < nd) →
      ∀ score, scoreFn d = some score → score ≤ heap.threshold

theorem TopKHeap.k_evaluate (p : LocalDocId) (heap : TopKHeap R) :
    (heap.evaluate scoreFn p).k = heap.k := by
  rw [evaluate]
  cases scoreFn p with
  | none => rfl
  | some score => simp only; split <;> rfl

theorem TopKHeap.evaluate_le (p : LocalDocId) (heap : TopKHeap R) :
    (↑(heap.evaluate scoreFn p).heap.items : Multiset (R ×ₗ LocalDocId))
      ≤ ↑heap.heap.items + scored scoreFn [p] := by
  rw [evaluate]
  cases hscore : scoreFn p with
  | none => exact Multiset.le_add_right _ _
  | some score =>
    have hone : scored scoreFn [p] = {toLex (score, p)} := by simp [scored, hscore]
    rw [hone]
    simp only
    split
    · rw [add_comm, Multiset.singleton_add]
      exact heap.push_le p score
    · exact Multiset.le_add_right _ _

/-- A heap that is empty after a candidate was evaluated was so before, and the candidate had no
score. -/
theorem TopKHeap.eq_nil_of_evaluate (hk : 1 ≤ heap.k) {p : LocalDocId}
    (hnil : (heap.evaluate scoreFn p).heap.items = []) :
    heap.heap.items = [] ∧ scored scoreFn [p] = 0 := by
  rw [evaluate] at hnil
  cases hscore : scoreFn p with
  | none =>
    rw [hscore] at hnil
    exact ⟨hnil, by simp [scored, hscore]⟩
  | some score =>
    rw [hscore] at hnil
    by_cases hkeep : score > heap.threshold ∨ heap.threshold = 0
    · simp only [if_pos hkeep] at hnil
      exact absurd hnil (push_ne_nil hk p score)
    · simp only [if_neg hkeep] at hnil
      -- the threshold of an empty heap is 0
      refine absurd (Or.inr (if_pos ?_)) hkeep
      rw [TopK.Heap.len, hnil]
      exact hk

/-- A candidate that is evaluated has been seen. -/
theorem TopKHeap.Holds.evaluate {seen : Multiset (R ×ₗ LocalDocId)} (h : heap.Holds seen)
    {p : LocalDocId} (hpos : ∀ score, scoreFn p = some score → 0 < score) :
    (heap.evaluate scoreFn p).Holds (seen + scored scoreFn [p]) := by
  rw [TopKHeap.evaluate]
  cases hscore : scoreFn p with
  | none => simpa [scored, hscore] using h
  | some score =>
    have hone : scored scoreFn [p] = {toLex (score, p)} := by simp [scored, hscore]
    rw [hone]
    by_cases hkeep : score > heap.threshold ∨ heap.threshold = 0
    · simp only [if_pos hkeep]
      rw [add_comm, Multiset.singleton_add]
      exact h.push p score
    · simp only [if_neg hkeep]
      refine h.skip (fun y hy => ?_)
      obtain rfl := Multiset.mem_singleton.mp hy
      exact ⟨hpos score hscore, not_lt.mp (fun hlt => hkeep (Or.inl hlt))⟩

/-- **The accounts hold through a turn**, if what is jumped over may be. -/
theorem WandStep.accounted (h : WandStep titleBoost descBoost scoreFn cursors heap turn)
    (hready : Ready cursors) {k : Nat} {all : Multiset (R ×ₗ LocalDocId)}
    (hpos : ∀ x ∈ all, 0 < (ofLex x).1) (hheap : Accounted scoreFn k all cursors heap)
    (hprune : ∀ cursors', SameLists cursors cursors' → shared cursors' = shared cursors →
      Prunable titleBoost descBoost scoreFn cursors' heap) :
    turn.Leaves (Accounted scoreFn k all)
      (fun hits => ∃ last : TopKHeap R, last.k = k ∧ last.Holds all ∧ hits = last.intoVec) := by
  obtain ⟨hk, seen, hseen, hsum⟩ := hheap
  have hposShared : ∀ d ∈ shared cursors, ∀ score, scoreFn d = some score → 0 < score := by
    intro d hd score hscore
    have hmem : toLex (score, d) ∈ all :=
      hsum ▸ Multiset.mem_add.mpr (Or.inr (mem_scored.mpr ⟨hd, hscore⟩))
    exact hpos _ hmem
  -- what is shared before the next blocks may be left out
  have hskip : ∀ cursors', SameLists cursors cursors' → shared cursors' = shared cursors →
      totalBlockUb titleBoost descBoost cursors' ≤ heap.threshold → ∀ docIds : List LocalDocId,
      (∀ d ∈ docIds, d ∈ shared cursors ∧
        ∀ c ∈ cursors', ∀ nd, c.nextBlockDocId = some nd → d < nd) →
      heap.Holds (seen + scored scoreFn docIds) := by
    intro cursors' hsame hshared hub docIds hdocIds
    refine hseen.skip (fun y hy => ?_)
    obtain ⟨hd, hscore⟩ := mem_scored.mp hy
    obtain ⟨hmem, hbefore⟩ := hdocIds _ hd
    exact ⟨hposShared _ hmem _ hscore,
      hprune cursors' hsame hshared hub _ (hshared ▸ hmem) hbefore _ hscore⟩
  cases h with
  | exhausted hnil =>
    refine ⟨heap, hk, ?_, rfl⟩
    rw [← hsum, hnil]
    simpa [scored] using hseen
  | align cursors' hsame _ hshared => exact ⟨hk, seen, hseen, by rw [hshared, hsum]⟩
  | last cursors' hsame hshared hub hlast =>
    refine ⟨heap, hk, ?_, rfl⟩
    rw [← hsum]
    refine hskip cursors' hsame hshared hub _ (fun d hd => ⟨hd, fun c hc nd hnd => ?_⟩)
    rw [hlast c hc] at hnd
    cases hnd
  | jump cursors' nextDoc hsame hshared hub hnext _ =>
    refine ⟨hk, seen + scored scoreFn ((shared cursors).filter (fun d => ¬ nextDoc ≤ d)), ?_, ?_⟩
    · refine hskip cursors' hsame hshared hub _ (fun d hd => ?_)
      obtain ⟨hmem, hbefore⟩ := List.mem_filter.mp hd
      refine ⟨hmem, fun c hc nd hnd => ?_⟩
      exact (Nat.not_le.mp (of_decide_eq_true hbefore)).trans_le (hnext c hc nd hnd)
    · rw [(hready.of_sameLists hsame).shared_advanceTo, hshared, add_assoc,
        add_comm (scored scoreFn _) (scored scoreFn _), scored_filter_add, hsum]
  | evaluate cursors' cursors'' p _ hsame hshared _ _ =>
    have hp : p ∈ shared cursors := hshared ▸ List.mem_cons_self
    refine ⟨(TopKHeap.k_evaluate p heap).trans hk, seen + scored scoreFn [p],
      hseen.evaluate (hposShared p hp), ?_⟩
    rw [add_assoc, scored_cons, ← hshared, hsum]

/-! ## 3. What is returned -/

/-- A query with cursors and room enters the loop. -/
theorem wandTopK_eq_wandLoop (hready : Ready cursors) {k : Nat} (hk : 1 ≤ k) (fuel : Nat) :
    wandTopK fuel cursors k titleBoost descBoost scoreFn
      = wandLoop titleBoost descBoost scoreFn fuel cursors (TopKHeap.new k) := by
  have hsome : ¬ (cursors.isEmpty = true ∨ k = 0) := by
    rw [List.isEmpty_iff]
    exact fun hor => hor.elim hready.nonempty (by omega)
  rw [wandTopK, if_neg hsome]

/-- **The loop ends, and the heap then holds the best of the intersection**, if nothing that is
jumped over could enter it. -/
theorem wandTopK_holds (hready : Ready cursors) (hstart : ∀ c ∈ cursors, c.position = 0) {k : Nat}
    (hk : 1 ≤ k)
    (hpos : ∀ d ∈ intersection cursors, ∀ score, scoreFn d = some score → 0 < score)
    (hprune : ∀ cursors' heap, SameLists cursors cursors' →
      Accounted scoreFn k (scored scoreFn (intersection cursors)) cursors' heap →
      Prunable titleBoost descBoost scoreFn cursors' heap) :
    ∃ last : TopKHeap R, last.k = k ∧ last.Holds (scored scoreFn (intersection cursors)) ∧
      ∀ fuel, size cursors < fuel →
        wandTopK fuel cursors k titleBoost descBoost scoreFn = some last.intoVec := by
  have hposAll : ∀ x ∈ scored scoreFn (intersection cursors), 0 < (ofLex x).1 := fun x hx =>
    hpos _ (mem_scored.mp hx).1 _ (mem_scored.mp hx).2
  have hinit : Accounted scoreFn k (scored scoreFn (intersection cursors)) cursors
      (TopKHeap.new k) :=
    ⟨rfl, 0, TopKHeap.holds_new k, by rw [zero_add, shared_eq_intersection hstart]⟩
  obtain ⟨hits, ⟨last, hlast, hholds, rfl⟩, hrun⟩ := wandLoop_spec hready
    (fun cursors' heap turn hsame hheap hturn =>
      hturn.accounted (hready.of_sameLists hsame) hposAll hheap
        (fun cursors'' hsame' hshared => hprune cursors'' heap (hsame.trans hsame')
          ⟨hheap.1, by rw [hshared]; exact hheap.2⟩)) hinit
  exact ⟨last, hlast, hholds, fun fuel hfuel => by
    rw [wandTopK_eq_wandLoop hready hk]
    exact hrun fuel hfuel⟩

/-- Bounds that are bounds justify every jump. -/
theorem prunable_of_bounded (hready : Ready cursors) {k : Nat}
    (hbound : ∀ d ∈ intersection cursors, ∀ score, scoreFn d = some score → 0 < score ∧
      score ≤ (cursors.map (TermCursor.boundFor titleBoost descBoost d)).sum)
    {cursors' : List (TermCursor R)} (hsame : SameLists cursors cursors')
    (hheap : Accounted scoreFn k (scored scoreFn (intersection cursors)) cursors' heap) :
    Prunable titleBoost descBoost scoreFn cursors' heap := by
  intro hub d hd hbefore score hscore
  have hready' := hready.of_sameLists hsame
  obtain ⟨-, seen, -, hsum⟩ := hheap
  have hmem : toLex (score, d) ∈ scored scoreFn (intersection cursors) :=
    hsum ▸ Multiset.mem_add.mpr (Or.inr (mem_scored.mpr ⟨hd, hscore⟩))
  calc score ≤ (cursors.map (TermCursor.boundFor titleBoost descBoost d)).sum :=
        (hbound d (mem_scored.mp hmem).1 score hscore).2
    _ = totalBlockUb titleBoost descBoost cursors' :=
        (totalBlockUb_eq_boundFor hready' hsame (hready'.ahead_of_shared hd hbefore)).symm
    _ ≤ heap.threshold := hub

end

section

variable {R : Type} [Field R] [LinearOrder R] {titleBoost descBoost : R}
  {scoreFn : LocalDocId → Option R} {cursors : List (TermCursor R)} {heap : TopKHeap R}
  {turn : Turn R} {k : Nat}

/-- **With room for all, and a positive bound for whatever has a score, all are returned.** -/
theorem wandTopK_roomy_of_bounds (hready : Ready cursors)
    (hstart : ∀ c ∈ cursors, c.position = 0) (hk : 1 ≤ k)
    (hpos : ∀ d ∈ intersection cursors, ∀ score, scoreFn d = some score → 0 < score ∧
      0 < (cursors.map (TermCursor.boundFor titleBoost descBoost d)).sum)
    (hroom : (bruteForce scoreFn cursors).length ≤ k) :
    ∃ hits : List (LocalDocId × R), hits.Perm (bruteForce scoreFn cursors) ∧
      ∀ fuel, size cursors < fuel →
        wandTopK fuel cursors k titleBoost descBoost scoreFn = some hits := by
  have hcard : (scored scoreFn (intersection cursors)).card ≤ k := by
    have hmap := congrArg Multiset.card (map_scored scoreFn cursors)
    rw [Multiset.card_map, Multiset.coe_card] at hmap
    omega
  have hprune : ∀ cursors' heap, SameLists cursors cursors' →
      Accounted scoreFn k (scored scoreFn (intersection cursors)) cursors' heap →
      Prunable titleBoost descBoost scoreFn cursors' heap := by
    -- the bounds are within the threshold of a full heap only, and then nothing is left
    intro cursors' heap hsame hheap hle d hd hbefore score hscore
    have hready' := hready.of_sameLists hsame
    obtain ⟨hheapk, seen, hseen, hsum⟩ := hheap
    have hmem : toLex (score, d) ∈ scored scoreFn (shared cursors') :=
      mem_scored.mpr ⟨hd, hscore⟩
    have hall : toLex (score, d) ∈ scored scoreFn (intersection cursors) :=
      hsum ▸ Multiset.mem_add.mpr (Or.inr hmem)
    have hub := (hpos d (mem_scored.mp hall).1 score hscore).2
    rw [← totalBlockUb_eq_boundFor hready' hsame (hready'.ahead_of_shared hd hbefore)] at hub
    have hfull := TopKHeap.le_length_of_threshold (hub.trans_le hle).ne'
    have hseenCard : heap.heap.items.length ≤ seen.card := Multiset.card_le_card hseen.le
    have hcards := congrArg Multiset.card hsum
    rw [Multiset.card_add] at hcards
    have hnone : (scored scoreFn (shared cursors')).card = 0 := by omega
    rw [Multiset.card_eq_zero.mp hnone] at hmem
    exact absurd hmem (Multiset.notMem_zero _)
  obtain ⟨last, hlast, hholds, hrun⟩ := wandTopK_holds hready hstart hk
    (fun d hd score hscore => (hpos d hd score hscore).1) hprune
  refine ⟨last.intoVec, Multiset.coe_eq_coe.mp ?_, hrun⟩
  rw [last.coe_intoVec, ← map_scored, TopK.IsTop.eq_of_card_le hholds (by rwa [hlast])]

/-- **With positive bounds and room for all, all are returned.** -/
theorem wandTopK_roomy (hready : Ready cursors) (hstart : ∀ c ∈ cursors, c.position = 0)
    (hk : 1 ≤ k)
    (hpos : ∀ d ∈ intersection cursors, ∀ score, scoreFn d = some score → 0 < score)
    (hub : ∀ cursors', SameLists cursors cursors' →
      0 < totalBlockUb titleBoost descBoost cursors')
    (hroom : (bruteForce scoreFn cursors).length ≤ k) :
    ∃ hits : List (LocalDocId × R), hits.Perm (bruteForce scoreFn cursors) ∧
      ∀ fuel, size cursors < fuel →
        wandTopK fuel cursors k titleBoost descBoost scoreFn = some hits := by
  refine wandTopK_roomy_of_bounds hready hstart hk
    (fun d hd score hscore => ⟨hpos d hd score hscore, ?_⟩) hroom
  -- the bounds of a document are those of cursors at it
  have hat := hub (cursors.map (fun c =>
    { c with position := c.postings.findIdx (fun p => p.docId = d) })) (by
      rw [SameLists, List.map_map]
      rfl)
  rw [totalBlockUb, List.map_map] at hat
  exact hat

/-- The closure, for documents with a positive sum of bounds only. -/
def withBound (titleBoost descBoost : R) (cursors : List (TermCursor R))
    (scoreFn : LocalDocId → Option R) (d : LocalDocId) : Option R :=
  if 0 < (cursors.map (TermCursor.boundFor titleBoost descBoost d)).sum then scoreFn d else none

/-- Every score in the heap is positive. -/
def TopKHeap.Positive (heap : TopKHeap R) : Prop := ∀ x ∈ heap.heap.items, 0 < (ofLex x).1

theorem TopKHeap.Positive.threshold_nonneg (h : heap.Positive) : 0 ≤ heap.threshold := by
  rw [TopKHeap.threshold]
  split
  · exact le_rfl
  · cases hpeek : heap.heap.peek with
    | none => exact le_rfl
    | some least => exact (h least (List.mem_of_head? hpeek)).le

theorem TopKHeap.Positive.evaluate (h : heap.Positive) {p : LocalDocId}
    (hpos : ∀ score, scoreFn p = some score → 0 < score) :
    (heap.evaluate scoreFn p).Positive := by
  intro x hx
  have hmem := Multiset.mem_of_le (TopKHeap.evaluate_le p heap) (Multiset.mem_coe.mpr hx)
  rcases Multiset.mem_add.mp hmem with hmem | hmem
  · exact h x (Multiset.mem_coe.mp hmem)
  · obtain ⟨hp, hscore⟩ := mem_scored.mp hmem
    rw [List.mem_singleton.mp hp] at hscore
    exact hpos _ hscore

/-- **A turn asks for the score of documents with a positive bound only.** -/
theorem wandTurn_withBound (hready : Ready cursors) {cursors' : List (TermCursor R)}
    (hsame : SameLists cursors cursors') (hheap : heap.Positive) :
    wandTurn titleBoost descBoost (withBound titleBoost descBoost cursors scoreFn) cursors' heap
      = wandTurn titleBoost descBoost scoreFn cursors' heap := by
  rw [wandTurn, wandTurn]
  cases pivot cursors' 0 with
  | none => rfl
  | some p =>
    simp only
    split
    · rfl
    · split
      · next hagree =>
        have hsame' := hsame.trans (sameLists_advanceTo p cursors')
        have hready' := hready.of_sameLists hsame'
        have hub : totalBlockUb titleBoost descBoost _ = _ :=
          totalBlockUb_eq_boundFor hready' hsame' (hready'.ahead_of_head (fun c hc => by
            rw [← TermCursor.currentDocId_eq]
            simpa using List.all_eq_true.mp hagree c hc))
        rw [totalBlockUb] at hub
        split
        · rfl
        · next hlt =>
          have hpos := hheap.threshold_nonneg.trans_lt (not_le.mp hlt)
          rw [withBound, ← hub, if_pos hpos]
      · rfl

/-- A heap of positive scores stays one. -/
theorem WandStep.positive (h : WandStep titleBoost descBoost scoreFn cursors heap turn)
    (hpos : ∀ d score, scoreFn d = some score → 0 < score) (hheap : heap.Positive) :
    turn.Leaves (fun cursors' heap' => SameLists cursors cursors' ∧ heap'.Positive)
      (fun _ => True) := by
  cases h with
  | exhausted => trivial
  | align cursors' hsame => exact ⟨hsame, hheap⟩
  | last => trivial
  | jump cursors' nextDoc hsame => exact ⟨hsame.trans (sameLists_advanceTo nextDoc cursors'), hheap⟩
  | evaluate cursors' cursors'' p _ hsame => exact ⟨hsame, hheap.evaluate (hpos p)⟩

/-- **The loop is the same** for the closure that leaves out documents without a positive
bound. -/
theorem wandTopK_withBound (hready : Ready cursors) (hk : 1 ≤ k)
    (hpos : ∀ d score, scoreFn d = some score → 0 < score) (fuel : Nat) :
    wandTopK fuel cursors k titleBoost descBoost (withBound titleBoost descBoost cursors scoreFn)
      = wandTopK fuel cursors k titleBoost descBoost scoreFn := by
  have hloop : ∀ (fuel : Nat) (cursors' : List (TermCursor R)) (heap : TopKHeap R),
      SameLists cursors cursors' → heap.Positive →
      wandLoop titleBoost descBoost (withBound titleBoost descBoost cursors scoreFn) fuel
          cursors' heap
        = wandLoop titleBoost descBoost scoreFn fuel cursors' heap := by
    intro fuel
    induction fuel with
    | zero => exact fun _ _ _ _ => rfl
    | succ fuel ih =>
      intro cursors' heap hsame hheap
      have hstep : WandStep titleBoost descBoost scoreFn cursors' heap
          (wandTurn titleBoost descBoost scoreFn cursors' heap) :=
        wandTurn_step (hready.of_sameLists hsame) heap
      have hleaves := hstep.positive hpos hheap
      rw [wandLoop, wandLoop, wandTurn_withBound hready hsame hheap]
      cases hturn : wandTurn titleBoost descBoost scoreFn cursors' heap with
      | done hits => rfl
      | again cursors'' heap' =>
        rw [hturn] at hleaves
        exact ih cursors'' heap' (hsame.trans hleaves.1) hleaves.2
  rw [wandTopK_eq_wandLoop hready hk, wandTopK_eq_wandLoop hready hk]
  exact hloop fuel cursors _ rfl (fun x hx => absurd hx List.not_mem_nil)

/-- **With room for all, those with a positive bound are returned**, and no others. -/
theorem wandTopK_withBound_roomy (hready : Ready cursors) (hstart : ∀ c ∈ cursors, c.position = 0)
    (hk : 1 ≤ k) (hpos : ∀ d score, scoreFn d = some score → 0 < score)
    (hroom : (bruteForce scoreFn cursors).length ≤ k) :
    ∃ hits : List (LocalDocId × R),
      hits.Perm (bruteForce (withBound titleBoost descBoost cursors scoreFn) cursors) ∧
      ∀ fuel, size cursors < fuel →
        wandTopK fuel cursors k titleBoost descBoost scoreFn = some hits := by
  have hbound : ∀ d ∈ intersection cursors, ∀ score,
      withBound titleBoost descBoost cursors scoreFn d = some score → 0 < score ∧
        0 < (cursors.map (TermCursor.boundFor titleBoost descBoost d)).sum := by
    intro d _ score hscore
    rw [withBound] at hscore
    split at hscore
    · next hb => exact ⟨hpos d score hscore, hb⟩
    · cases hscore
  have hfewer : (bruteForce (withBound titleBoost descBoost cursors scoreFn) cursors).length
      ≤ (bruteForce scoreFn cursors).length := by
    have hsub : ∀ d, (withBound titleBoost descBoost cursors scoreFn d).isSome →
        (scoreFn d).isSome := by
      intro d hd
      rw [withBound] at hd
      split at hd
      · exact hd
      · cases hd
    have hle := (List.monotone_filter_right (intersection cursors) hsub).length_le
    rwa [← map_fst_bruteForce, ← map_fst_bruteForce, List.length_map, List.length_map] at hle
  obtain ⟨hits, hperm, hrun⟩ := wandTopK_roomy_of_bounds hready hstart hk hbound
    (hfewer.trans hroom)
  exact ⟨hits, hperm, fun fuel hfuel => by
    rw [← wandTopK_withBound hready hk hpos]
    exact hrun fuel hfuel⟩

/-- With bounds that are not positive, no turn changes an empty heap. -/
theorem WandStep.closed (h : WandStep titleBoost descBoost scoreFn cursors heap turn)
    (hk : 1 ≤ k) (hheap : heap = TopKHeap.new k)
    (hub : ∀ cursors', SameLists cursors cursors' →
      totalBlockUb titleBoost descBoost cursors' ≤ 0) :
    turn.Leaves (fun _ heap' => heap' = TopKHeap.new k) (fun hits => hits = []) := by
  subst hheap
  have hnew : (TopKHeap.new k : TopKHeap R).threshold = 0 := if_pos hk
  cases h with
  | exhausted => rfl
  | align => rfl
  | last => rfl
  | jump => rfl
  | evaluate cursors' _ _ hsame _ _ hlt =>
    rw [hnew] at hlt
    exact absurd hlt (hub cursors' hsame).not_gt

/-- **With bounds that are not positive, nothing is returned**: they do not beat the threshold
of an empty heap. -/
theorem wandTopK_closed (hready : Ready cursors) (hk : 1 ≤ k)
    (hub : ∀ cursors', SameLists cursors cursors' →
      totalBlockUb titleBoost descBoost cursors' ≤ 0) {fuel : Nat} (hfuel : size cursors < fuel) :
    wandTopK fuel cursors k titleBoost descBoost scoreFn = some [] := by
  obtain ⟨hits, rfl, hrun⟩ := wandLoop_spec hready
    (fun _ _ _ hsame hheap (hturn : WandStep titleBoost descBoost scoreFn _ _ _) =>
      hturn.closed hk hheap (fun cursors' hsame' => hub cursors' (hsame.trans hsame'))) rfl
  rw [wandTopK_eq_wandLoop hready hk]
  exact hrun fuel hfuel

/-- What is in the heap and what is still shared is found by brute force. -/
theorem WandStep.sound (h : WandStep titleBoost descBoost scoreFn cursors heap turn)
    (hready : Ready cursors) {all : Multiset (R ×ₗ LocalDocId)}
    (hheap : (↑heap.heap.items : Multiset _) + scored scoreFn (shared cursors) ≤ all) :
    turn.Leaves
      (fun cursors' heap' =>
        (↑heap'.heap.items : Multiset _) + scored scoreFn (shared cursors') ≤ all)
      (fun hits => ∃ last : TopKHeap R, (↑last.heap.items : Multiset _) ≤ all ∧
        hits = last.intoVec) := by
  have hitems := (Multiset.le_add_right _ _).trans hheap
  cases h with
  | exhausted => exact ⟨heap, hitems, rfl⟩
  | align cursors' _ _ hshared =>
    rw [← hshared] at hheap
    exact hheap
  | last => exact ⟨heap, hitems, rfl⟩
  | jump cursors' nextDoc hsame hshared =>
    refine le_trans (Multiset.add_le_add_iff_left.mpr ?_) hheap
    rw [(hready.of_sameLists hsame).shared_advanceTo, hshared,
      ← scored_filter_add scoreFn (shared cursors) (fun d => nextDoc ≤ d)]
    exact Multiset.le_add_right _ _
  | evaluate cursors' cursors'' p _ _ hshared =>
    refine le_trans (Multiset.add_le_add_iff_right.mpr (TopKHeap.evaluate_le p heap)) ?_
    rwa [add_assoc, scored_cons, ← hshared]

/-- A candidate that is evaluated does not make the heap too large. -/
theorem TopKHeap.len_evaluate_le (hle : heap.heap.len ≤ heap.k) (p : LocalDocId) :
    (heap.evaluate scoreFn p).heap.len ≤ heap.k := by
  rw [evaluate]
  cases scoreFn p with
  | none => exact hle
  | some score =>
    dsimp only
    split
    · exact TopK.Heap.len_keep_le heap.heap hle _
    · exact hle

/-- The heap has room for `k` documents. -/
theorem WandStep.bounded (h : WandStep titleBoost descBoost scoreFn cursors heap turn)
    (hheap : heap.k = k ∧ heap.heap.len ≤ k) :
    turn.Leaves (fun _ heap' => heap'.k = k ∧ heap'.heap.len ≤ k)
      (fun hits => hits.length ≤ k) := by
  have hdone : heap.intoVec.length ≤ k := by
    rw [TopKHeap.intoVec, List.length_insertionSort, List.length_map]
    exact hheap.2
  cases h with
  | exhausted => exact hdone
  | align => exact hheap
  | last => exact hdone
  | jump => exact hheap
  | evaluate _ _ p =>
    obtain ⟨rfl, hle⟩ := hheap
    exact ⟨TopKHeap.k_evaluate p heap, TopKHeap.len_evaluate_le hle p⟩

/-- **No more than `k` documents are returned.** -/
theorem wandTopK_length_le (hready : Ready cursors) (hk : 1 ≤ k) :
    ∃ hits : List (LocalDocId × R), hits.length ≤ k ∧ ∀ fuel, size cursors < fuel →
      wandTopK fuel cursors k titleBoost descBoost scoreFn = some hits := by
  obtain ⟨hits, hle, hrun⟩ := wandLoop_spec hready
    (fun _ _ _ _ hheap (hturn : WandStep titleBoost descBoost scoreFn _ _ _) =>
      hturn.bounded hheap)
    (⟨rfl, Nat.zero_le k⟩ : (TopKHeap.new k : TopKHeap R).k = k ∧ _)
  exact ⟨hits, hle, fun fuel hfuel => by
    rw [wandTopK_eq_wandLoop hready hk]
    exact hrun fuel hfuel⟩

/-- **Whatever the bounds, the loop ends, and returns what brute force finds.** -/
theorem wandTopK_sound (hready : Ready cursors) (hstart : ∀ c ∈ cursors, c.position = 0)
    (hk : 1 ≤ k) :
    ∃ hits : List (LocalDocId × R),
      (↑hits : Multiset (LocalDocId × R)) ≤ ↑(bruteForce scoreFn cursors) ∧
      ∀ fuel, size cursors < fuel →
        wandTopK fuel cursors k titleBoost descBoost scoreFn = some hits := by
  have hinit : (↑(TopKHeap.new k : TopKHeap R).heap.items : Multiset _)
      + scored scoreFn (shared cursors) ≤ scored scoreFn (intersection cursors) := by
    rw [shared_eq_intersection hstart]
    exact (zero_add _).le
  obtain ⟨hits, ⟨last, hle, rfl⟩, hrun⟩ := wandLoop_spec hready
    (fun _ _ _ hsame hheap (hturn : WandStep titleBoost descBoost scoreFn _ _ _) =>
      hturn.sound (hready.of_sameLists hsame) hheap) hinit
  refine ⟨last.intoVec, ?_, fun fuel hfuel => ?_⟩
  · rw [last.coe_intoVec, ← map_scored]
    exact Multiset.map_le_map hle
  · rw [wandTopK_eq_wandLoop hready hk]
    exact hrun fuel hfuel

/-- With positive bounds, nothing is jumped over while the heap is empty. -/
theorem WandStep.ne_nil (h : WandStep titleBoost descBoost scoreFn cursors heap turn)
    (hk : 1 ≤ k) (hheapk : heap.k = k)
    (hub : ∀ cursors', SameLists cursors cursors' →
      0 < totalBlockUb titleBoost descBoost cursors')
    (hleft : heap.heap.items = [] → scored scoreFn (shared cursors) ≠ 0) :
    turn.Leaves
      (fun cursors' heap' => heap'.k = k ∧
        (heap'.heap.items = [] → scored scoreFn (shared cursors') ≠ 0))
      (fun hits => hits ≠ []) := by
  have hfull : ∀ cursors', SameLists cursors cursors' →
      totalBlockUb titleBoost descBoost cursors' ≤ heap.threshold → heap.heap.items ≠ [] := by
    intro cursors' hsame hle hnil
    have hlen := TopKHeap.le_length_of_threshold ((hub cursors' hsame).trans_le hle).ne'
    rw [hnil, List.length_nil] at hlen
    omega
  cases h with
  | exhausted hnil =>
    refine TopKHeap.intoVec_ne_nil (fun hitems => hleft hitems ?_)
    rw [hnil]
    rfl
  | align cursors' _ _ hshared => exact ⟨hheapk, by rwa [hshared]⟩
  | last cursors' hsame _ hle => exact TopKHeap.intoVec_ne_nil (hfull cursors' hsame hle)
  | jump cursors' nextDoc hsame _ hle =>
    exact ⟨hheapk, fun hnil => absurd hnil (hfull cursors' hsame hle)⟩
  | evaluate cursors' cursors'' p _ _ hshared =>
    refine ⟨(TopKHeap.k_evaluate p heap).trans hheapk, fun hnil => ?_⟩
    obtain ⟨hitems, hnone⟩ := TopKHeap.eq_nil_of_evaluate (hheapk ▸ hk) hnil
    have hsome := hleft hitems
    rwa [hshared, ← scored_cons, hnone, zero_add] at hsome

/-- **With positive bounds, something is returned** if there is anything to return. -/
theorem wandTopK_ne_nil (hready : Ready cursors) (hstart : ∀ c ∈ cursors, c.position = 0)
    (hk : 1 ≤ k)
    (hub : ∀ cursors', SameLists cursors cursors' →
      0 < totalBlockUb titleBoost descBoost cursors')
    (hsome : bruteForce scoreFn cursors ≠ []) {fuel : Nat} (hfuel : size cursors < fuel) :
    wandTopK fuel cursors k titleBoost descBoost scoreFn ≠ some [] := by
  have hinit : scored scoreFn (shared cursors) ≠ 0 := by
    rw [shared_eq_intersection hstart]
    intro hzero
    have hmap := map_scored scoreFn cursors
    rw [hzero, Multiset.map_zero] at hmap
    exact hsome ((Multiset.coe_eq_zero _).mp hmap.symm)
  obtain ⟨hits, hne, hrun⟩ := wandLoop_spec hready
    (fun _ _ _ hsame hheap (hturn : WandStep titleBoost descBoost scoreFn _ _ _) =>
      hturn.ne_nil hk hheap.1 (fun cursors' hsame' => hub cursors' (hsame.trans hsame')) hheap.2)
    (⟨rfl, fun _ => hinit⟩ : (TopKHeap.new k : TopKHeap R).k = k ∧ _)
  rw [wandTopK_eq_wandLoop hready hk, hrun fuel hfuel]
  exact fun hnil => hne (Option.some.inj hnil)

end

variable {R : Type} [Field R] [LinearOrder R]

/-- **Block-Max WAND is brute force.**  Over posting lists in the order of their ids, with a
score function whose scores are positive and within the bounds of the blocks, the loop ends,
and returns documents of the intersection with their scores, each once, the largest score first:
and these are the `k` largest scores of the intersection. -/
theorem wandTopK_eq_bruteForce {titleBoost descBoost : R} {scoreFn : LocalDocId → Option R}
    {cursors : List (TermCursor R)} (hne : cursors ≠ []) (hstart : ∀ c ∈ cursors, c.position = 0)
    (hsorted : ∀ c ∈ cursors, c.Sorted) (hbelow : ∀ c ∈ cursors, ∀ p ∈ c.postings, p.docId < u32Max)
    (hbound : ∀ d ∈ intersection cursors, ∀ score, scoreFn d = some score → 0 < score ∧
      score ≤ (cursors.map (TermCursor.boundFor titleBoost descBoost d)).sum)
    {k : Nat} (hk : 1 ≤ k) :
    ∃ hits : List (LocalDocId × R),
      (∀ fuel, size cursors < fuel →
        wandTopK fuel cursors k titleBoost descBoost scoreFn = some hits) ∧
      hits.Pairwise (fun a b => b.2 ≤ a.2) ∧
      (hits.map Prod.fst).Nodup ∧
      (∀ hit ∈ hits, hit.1 ∈ intersection cursors ∧ scoreFn hit.1 = some hit.2) ∧
      (↑(hits.map Prod.snd) : Multiset R)
        = ↑(((↑((bruteForce scoreFn cursors).map Prod.snd) : Multiset R).sort (· ≥ ·)).take k) := by
  have hready : Ready cursors := ⟨hne, hsorted, hbelow⟩
  obtain ⟨last, hlast, hholds, hrun⟩ := wandTopK_holds hready hstart hk
    (fun d hd score hscore => (hbound d hd score hscore).1)
    (fun cursors' heap hsame hheap => prunable_of_bounded hready hbound hsame hheap)
  -- what the heap holds is part of what brute force finds
  have hsub : (↑last.intoVec : Multiset (LocalDocId × R)) ≤ ↑(bruteForce scoreFn cursors) := by
    rw [last.coe_intoVec, ← map_scored]
    exact Multiset.map_le_map hholds.le
  have hnodup : (intersection cursors).Nodup := by
    refine nodup_common (fun l hl => ?_)
    obtain ⟨c, hc, rfl⟩ := List.mem_map.mp hl
    exact (hsorted c hc).imp Nat.ne_of_lt
  refine ⟨last.intoVec, hrun, last.pairwise_intoVec, ?_, fun hit hhit => ?_, ?_⟩
  · have hle : (↑(last.intoVec.map Prod.fst) : Multiset LocalDocId)
        ≤ ↑((bruteForce scoreFn cursors).map Prod.fst) := by
      rw [← Multiset.map_coe, ← Multiset.map_coe]
      exact Multiset.map_le_map hsub
    rw [map_fst_bruteForce] at hle
    exact Multiset.coe_nodup.mp (Multiset.nodup_of_le hle
      (Multiset.coe_nodup.mpr (hnodup.filter _)))
  · have hmem : hit ∈ bruteForce scoreFn cursors := Multiset.mem_coe.mp
      (Multiset.mem_of_le hsub (Multiset.mem_coe.mpr hhit))
    obtain ⟨d, hd, hmap⟩ := List.mem_filterMap.mp hmem
    obtain ⟨score, hscore, rfl⟩ := Option.map_eq_some_iff.mp hmap
    exact ⟨hd, hscore⟩
  · have hscores := TopK.IsTop.eq_take_sort hholds
    have hall : (scored scoreFn (intersection cursors)).map (fun x => (ofLex x).1)
        = ↑((bruteForce scoreFn cursors).map Prod.snd) := by
      rw [← Multiset.map_coe, ← map_scored, Multiset.map_map]
      rfl
    rw [hall, hlast] at hscores
    rw [← Multiset.map_coe, last.coe_intoVec, Multiset.map_map]
    exact hscores

/-- The cursors of two tokens. -/
def twoTokens : List (TermCursor ℚ) :=
  [ .new ⟨[⟨0, 1, 8⟩, ⟨1, 1, 8⟩, ⟨2, 1, 8⟩, ⟨3, 1, 8⟩], [⟨1⟩]⟩ 2 8
  , .new ⟨[⟨1, 1, 8⟩, ⟨3, 2, 8⟩, ⟨5, 1, 8⟩], [⟨1⟩]⟩ 3 8 ]

/-- The better one of the two documents they share. -/
theorem wandTopK_eq_bruteForce_twoTokens : ∃ hits : List (LocalDocId × ℚ),
    (∀ fuel, size twoTokens < fuel →
      wandTopK fuel twoTokens 1 2 1 (fun d => some (d : ℚ)) = some hits) ∧
    hits.Pairwise (fun a b => b.2 ≤ a.2) ∧ (hits.map Prod.fst).Nodup ∧
    (∀ hit ∈ hits, hit.1 ∈ intersection twoTokens ∧ some (hit.1 : ℚ) = some hit.2) ∧
    (↑(hits.map Prod.snd) : Multiset ℚ) = ↑(((↑((bruteForce (fun d => some (d : ℚ))
      twoTokens).map Prod.snd) : Multiset ℚ).sort (· ≥ ·)).take 1) := by
  have hshared : intersection twoTokens = [1, 3] := by decide
  refine wandTopK_eq_bruteForce (by decide) (by decide) (by unfold TermCursor.Sorted; decide)
    (by decide) (fun d hd score hscore => ?_) (by decide)
  obtain rfl := Option.some.inj hscore
  rw [hshared] at hd
  have hd' : d = 1 ∨ d = 3 := by simpa using hd
  have hbound : (twoTokens.map (TermCursor.boundFor 2 1 d)).sum
      = 3 / 2 * 2 * (2 * 1 + 1 * (bm25K1 + 1)) + 3 / 2 * 3 * (2 * 1 + 1 * (bm25K1 + 1)) := by
    rcases hd' with rfl | rfl <;> simp [twoTokens, TermCursor.new, TermCursor.boundFor,
      TermCursor.blockUpperBound, List.findIdx_cons, blockSize]
  rw [hbound, bm25K1]
  rcases hd' with rfl | rfl <;> norm_num

end ZearchEngine
