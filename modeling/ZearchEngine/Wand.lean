/-
# Block-Max WAND

`TermCursor`, `TopKHeap` and `wand_top_k` (`crates/query/src/wand.rs`): one cursor for each query
token, moved in step over the documents that all posting lists share.  A candidate is scored
only if the sum of the cursors' block upper bounds exceeds the worst score in a full heap;
otherwise all cursors jump to the nearest block boundary.

Whenever the bounds are bounds, the result is that of scoring every shared document
(`wandTopK_eq_bruteForce`).  One turn of the loop either scores the first shared document or
skips a range of them that cannot change the heap (`wandTurn_step`); each turn consumes a
posting, so the loop ends.
-/
import ZearchEngine.Lib.Leapfrog
import ZearchEngine.Lib.TopK
import ZearchEngine.Posting
import Mathlib.Algebra.Order.Field.Rat
import Mathlib.Data.Prod.Lex

namespace ZearchEngine

open Leapfrog

/-! ## 1. Cursors -/

/-- A cursor over one (merged) posting list for a single query token. -/
structure TermCursor (R : Type) where
  postings : List Posting
  blocks : List (PostingBlock R)
  position : Nat
  idf : R

namespace TermCursor

section

variable {R : Type}

def isExhausted (c : TermCursor R) : Bool := c.position ≥ c.postings.length

/-- `current_doc_id`: none if the cursor is exhausted. -/
def currentDocId (c : TermCursor R) : Option LocalDocId := c.postings[c.position]?.map Posting.docId

/-- `advance_to`: `partition_point` finds the first posting that is not below the target. -/
def advanceTo (target : LocalDocId) (c : TermCursor R) : TermCursor R :=
  let jump := (c.postings.drop c.position).findIdx (fun p => !(p.docId < target))
  { c with position := c.position + jump }

/-- `next_block_doc_id`: none in the last block. -/
def nextBlockDocId (c : TermCursor R) : Option LocalDocId :=
  let nextPos := (c.position / blockSize + 1) * blockSize
  c.postings[nextPos]?.map Posting.docId

end

variable {R : Type} [Field R] [LinearOrder R]

/-- `TermCursor::new`: the blocks are rebuilt if there are none. -/
def new (pl : PostingList R) (idf avgdl : R) : TermCursor R :=
  let pl := if pl.blocks.isEmpty && !pl.postings.isEmpty then pl.rebuildBlocks avgdl else pl
  { postings := pl.postings, blocks := pl.blocks, position := 0, idf }

/-- `block_upper_bound`. -/
def blockUpperBound (titleBoost descBoost : R) (c : TermCursor R) : R :=
  let maxImpact := (c.blocks[c.position / blockSize]?.map PostingBlock.maxImpact).getD 0
  (3 : ℕ) / (2 : ℕ) * c.idf * (titleBoost * maxImpact + descBoost * (bm25K1 + 1))

/-- The upper bound of the block that holds a document. -/
def boundFor (titleBoost descBoost : R) (d : LocalDocId) (c : TermCursor R) : R :=
  blockUpperBound titleBoost descBoost
    { c with position := c.postings.findIdx (fun p => p.docId = d) }

end TermCursor

/-! ## 2. The heap -/

/-- Min-heap of (score, doc_id) pairs for tracking the running top-K threshold. -/
structure TopKHeap (R : Type) [LinearOrder R] where
  k : Nat
  heap : TopK.Heap (R ×ₗ LocalDocId)

namespace TopKHeap

variable {R : Type} [LinearOrder R]

def new (k : Nat) : TopKHeap R := ⟨k, TopK.Heap.empty⟩

def push (h : TopKHeap R) (docId : LocalDocId) (score : R) : TopKHeap R :=
  let heap := h.heap.push (toLex (score, docId))
  { h with heap := if heap.len > h.k then heap.pop else heap }

/-- Current k-th best score (threshold for pruning); 0 until the heap is full. -/
def threshold [Zero R] (h : TopKHeap R) : R :=
  if h.heap.len < h.k then 0
  else (h.heap.peek.map (fun x => (ofLex x).1)).getD 0

/-- `into_vec`: sorted by score descending.  The order in which the heap is iterated, and with
it that of equal scores, is not specified. -/
def intoVec (h : TopKHeap R) : List (LocalDocId × R) :=
  (h.heap.items.map (fun x => ((ofLex x).2, (ofLex x).1))).insertionSort (fun a b => b.2 ≤ a.2)

end TopKHeap

/-! ## 3. The loop -/

section

variable {R : Type} [Field R] [LinearOrder R]

/-- Step 1: the highest document id across all cursors; none if a cursor is exhausted. -/
def pivot : List (TermCursor R) → LocalDocId → Option LocalDocId
  | [], pivotDocId => some pivotDocId
  | c :: cursors, pivotDocId => do
    let docId ← c.currentDocId
    pivot cursors (max pivotDocId docId)

/-- How a turn of the loop ends. -/
inductive Turn (R : Type) [LinearOrder R] where
  | done (hits : List (LocalDocId × R))
  | again (cursors : List (TermCursor R)) (heap : TopKHeap R)

/-- One turn of the loop of `wand_top_k`. -/
def wandTurn (titleBoost descBoost : R) (scoreFn : LocalDocId → Option R)
    (cursors : List (TermCursor R)) (heap : TopKHeap R) : Turn R :=
  match pivot cursors 0 with
  | none => .done heap.intoVec
  | some pivotDocId =>
    -- Step 2: advance all cursors to the pivot
    let cursors := cursors.map (TermCursor.advanceTo pivotDocId)
    if cursors.any TermCursor.isExhausted then .done heap.intoVec
    -- Step 3: check whether all cursors agree
    else if cursors.all (fun c => c.currentDocId = some pivotDocId) then
      -- Step 4: Block-Max WAND filter
      let threshold := heap.threshold
      let totalBlockUb := (cursors.map (TermCursor.blockUpperBound titleBoost descBoost)).sum
      if totalBlockUb ≤ threshold then
        match (cursors.filterMap TermCursor.nextBlockDocId).min? with
        | some nextDoc => .again (cursors.map (TermCursor.advanceTo nextDoc)) heap
        | none => .done heap.intoVec
      else
        -- Step 5: evaluate candidate
        let heap := match scoreFn pivotDocId with
          | some score =>
            if score > threshold ∨ heap.threshold = 0 then heap.push pivotDocId score else heap
          | none => heap
        -- Step 6: advance all cursors past this doc
        .again (cursors.map (TermCursor.advanceTo ((pivotDocId + 1) % (u32Max + 1)))) heap
    else .again cursors heap

/-- The loop, for at most `fuel` turns. -/
def wandLoop (titleBoost descBoost : R) (scoreFn : LocalDocId → Option R) :
    Nat → List (TermCursor R) → TopKHeap R → Option (List (LocalDocId × R))
  | 0, _, _ => none
  | fuel + 1, cursors, heap =>
    match wandTurn titleBoost descBoost scoreFn cursors heap with
    | .done hits => some hits
    | .again cursors heap => wandLoop titleBoost descBoost scoreFn fuel cursors heap

/-- `wand_top_k`, with at most `fuel` turns of its loop. -/
def wandTopK (fuel : Nat) (cursors : List (TermCursor R)) (k : Nat) (titleBoost descBoost : R)
    (scoreFn : LocalDocId → Option R) : Option (List (LocalDocId × R)) :=
  if cursors.isEmpty ∨ k = 0 then some []
  else wandLoop titleBoost descBoost scoreFn fuel cursors (TopKHeap.new k)

end

/-! ## 4. What is ahead of a cursor -/

namespace TermCursor

variable {R : Type}

/-- The documents a cursor has not passed. -/
def ahead (c : TermCursor R) : List LocalDocId := (c.postings.drop c.position).map Posting.docId

/-- The postings are in the order of their ids. -/
def Sorted (c : TermCursor R) : Prop := (c.postings.map Posting.docId).Pairwise (· < ·)

/-- The cursor back at its first posting. -/
def rewind (c : TermCursor R) : TermCursor R := { c with position := 0 }

theorem Sorted.ahead {c : TermCursor R} (h : c.Sorted) : c.ahead.Pairwise (· < ·) := by
  rw [TermCursor.ahead, List.map_drop]
  exact h.sublist (List.drop_sublist _ _)

theorem currentDocId_eq (c : TermCursor R) : c.currentDocId = c.ahead.head? := by
  rw [currentDocId, ahead, List.head?_map, List.head?_drop]

theorem isExhausted_iff (c : TermCursor R) : c.isExhausted = true ↔ c.ahead = [] := by
  simp [isExhausted, ahead]

/-- **Advancing is seeking.** -/
theorem ahead_advanceTo (t : LocalDocId) (c : TermCursor R) :
    (c.advanceTo t).ahead = seek t c.ahead := by
  have hseek : seek t c.ahead
      = ((c.postings.drop c.position).dropWhile (fun p => p.docId < t)).map Posting.docId := by
    rw [seek, ahead, List.dropWhile_map]
    rfl
  rw [hseek, List.dropWhile_eq_drop_findIdx_not, List.drop_drop]
  rfl

/-- A posting ahead, by its position. -/
theorem exists_getElem_of_mem_ahead {c : TermCursor R} {d : LocalDocId} (h : d ∈ c.ahead) :
    ∃ j, c.position ≤ j ∧ ∃ hj : j < c.postings.length, (c.postings[j]).docId = d := by
  obtain ⟨p, hp, rfl⟩ := List.mem_map.mp h
  obtain ⟨i, hi, hget⟩ := List.mem_iff_getElem.mp hp
  rw [List.length_drop] at hi
  refine ⟨c.position + i, Nat.le_add_right _ _, by omega, ?_⟩
  rw [← hget, List.getElem_drop]

theorem Sorted.lt {c : TermCursor R} (h : c.Sorted) {i j : Nat} (hij : i < j)
    (hj : j < c.postings.length) : (c.postings[i]).docId < (c.postings[j]).docId := by
  have hget := List.pairwise_iff_getElem.mp h i j (by simpa using hij.trans hj) (by simpa using hj)
    hij
  simpa using hget

/-- A posting is found by its id. -/
theorem Sorted.findIdx_eq {c : TermCursor R} (h : c.Sorted) {j : Nat}
    (hj : j < c.postings.length) :
    c.postings.findIdx (fun p => p.docId = (c.postings[j]).docId) = j := by
  rw [List.findIdx_eq hj]
  refine ⟨by simp, fun i hij => ?_⟩
  simpa using (h.lt hij hj).ne

/-- The next block starts after whatever is ahead in this one. -/
theorem Sorted.lt_nextBlockDocId {c : TermCursor R} (h : c.Sorted) {a nd : LocalDocId}
    (hhead : c.ahead.head? = some a) (hnd : c.nextBlockDocId = some nd) : a < nd := by
  obtain ⟨p, hp, rfl⟩ := Option.map_eq_some_iff.mp hnd
  obtain ⟨hlen, rfl⟩ := List.getElem?_eq_some_iff.mp hp
  have hpos : c.position < (c.position / blockSize + 1) * blockSize := by
    rw [blockSize]
    omega
  rw [← currentDocId_eq, currentDocId] at hhead
  obtain ⟨q, hq, rfl⟩ := Option.map_eq_some_iff.mp hhead
  obtain ⟨_, rfl⟩ := List.getElem?_eq_some_iff.mp hq
  exact h.lt hpos hlen

variable [Field R]

/-- **The bound of a document ahead in the current block** is the bound the loop reads. -/
theorem Sorted.boundFor_eq {c : TermCursor R} (h : c.Sorted) (titleBoost descBoost : R)
    {d : LocalDocId} (hd : d ∈ c.ahead) (hnext : ∀ nd, c.nextBlockDocId = some nd → d < nd) :
    c.boundFor titleBoost descBoost d = c.blockUpperBound titleBoost descBoost := by
  obtain ⟨j, hle, hj, rfl⟩ := exists_getElem_of_mem_ahead hd
  -- the document is before the next block, so it is in the block of the cursor
  have hlt : j < (c.position / blockSize + 1) * blockSize := by
    by_contra hge
    have hlen : (c.position / blockSize + 1) * blockSize < c.postings.length := by omega
    have hnd : c.nextBlockDocId
        = some (c.postings[(c.position / blockSize + 1) * blockSize]).docId := by
      rw [nextBlockDocId, List.getElem?_eq_getElem hlen]
      rfl
    rcases Nat.lt_or_ge ((c.position / blockSize + 1) * blockSize) j with hbefore | hafter
    · exact Nat.lt_asymm (hnext _ hnd) (h.lt hbefore hj)
    · obtain rfl : j = (c.position / blockSize + 1) * blockSize := by omega
      exact Nat.lt_irrefl _ (hnext _ hnd)
  have hblock : j / blockSize = c.position / blockSize :=
    Blocks.div_eq_of_lt_next blockSize_pos hle hlt
  rw [boundFor, h.findIdx_eq hj, blockUpperBound, blockUpperBound, hblock]

end TermCursor

/-! ## 5. The heap and its threshold -/

namespace TopKHeap

variable {R : Type} [LinearOrder R]

/-- The heap holds the best of what has been seen. -/
def Holds (h : TopKHeap R) (seen : Multiset (R ×ₗ LocalDocId)) : Prop :=
  TopK.IsTop (fun x => (ofLex x).1) h.k ↑h.heap.items seen

theorem holds_new (k : Nat) : (new k : TopKHeap R).Holds 0 := TopK.isTop_zero _ k

theorem monotone_score : Monotone (fun x : R ×ₗ LocalDocId => (ofLex x).1) :=
  fun x y h => Prod.Lex.monotone_fst x y h

theorem Holds.push {h : TopKHeap R} {seen : Multiset (R ×ₗ LocalDocId)} (hh : h.Holds seen)
    (docId : LocalDocId) (score : R) :
    (h.push docId score).Holds (toLex (score, docId) ::ₘ seen) :=
  TopK.Heap.isTop_keep monotone_score hh (toLex (score, docId))

/-- **A positive score within the threshold** finds the heap full of scores as large. -/
theorem le_of_le_threshold [Zero R] {h : TopKHeap R} {score : R} (hpos : 0 < score)
    (hle : score ≤ h.threshold) :
    h.k ≤ h.heap.items.length ∧ ∀ x ∈ h.heap.items, score ≤ (ofLex x).1 := by
  rw [threshold] at hle
  by_cases hroom : h.heap.len < h.k
  · rw [if_pos hroom] at hle
    exact absurd hle hpos.not_ge
  · rw [if_neg hroom] at hle
    refine ⟨not_lt.mp hroom, fun x hx => ?_⟩
    cases hpeek : h.heap.peek with
    | none =>
      rw [hpeek] at hle
      exact absurd hle hpos.not_ge
    | some least =>
      rw [hpeek] at hle
      exact hle.trans (monotone_score (TopK.Heap.le_of_peek hpeek x hx))

/-- What scores no more than the threshold may be left out. -/
theorem Holds.skip [Zero R] {h : TopKHeap R} {seen more : Multiset (R ×ₗ LocalDocId)}
    (hh : h.Holds seen)
    (hmore : ∀ y ∈ more, 0 < (ofLex y).1 ∧ (ofLex y).1 ≤ h.threshold) : h.Holds (seen + more) :=
  TopK.IsTop.add hh (fun y hy => le_of_le_threshold (hmore y hy).1 (hmore y hy).2)

/-- A threshold that is not 0 is that of a full heap. -/
theorem le_length_of_threshold [Zero R] {h : TopKHeap R} (hne : h.threshold ≠ 0) :
    h.k ≤ h.heap.items.length := by
  by_contra hlt
  exact hne (if_pos (not_le.mp hlt))

theorem push_le (h : TopKHeap R) (docId : LocalDocId) (score : R) :
    (↑(h.push docId score).heap.items : Multiset _) ≤ toLex (score, docId) ::ₘ ↑h.heap.items :=
  TopK.Heap.keep_le h.heap h.k _

theorem push_ne_nil {h : TopKHeap R} (hk : 1 ≤ h.k) (docId : LocalDocId) (score : R) :
    (h.push docId score).heap.items ≠ [] :=
  TopK.Heap.keep_ne_nil h.heap hk _

/-- The result is what the heap holds, the largest score first. -/
theorem coe_intoVec (h : TopKHeap R) :
    (↑h.intoVec : Multiset (LocalDocId × R))
      = (↑h.heap.items : Multiset (R ×ₗ LocalDocId)).map (fun x => ((ofLex x).2, (ofLex x).1)) :=
  Multiset.coe_eq_coe.mpr (List.perm_insertionSort _ _)

theorem intoVec_ne_nil {h : TopKHeap R} (hne : h.heap.items ≠ []) : h.intoVec ≠ [] := by
  intro hnil
  have hcoe := h.coe_intoVec
  rw [hnil] at hcoe
  exact hne (by simpa using hcoe.symm)

theorem pairwise_intoVec (h : TopKHeap R) : h.intoVec.Pairwise (fun a b => b.2 ≤ a.2) :=
  TopK.pairwise_insertionSort_score Prod.snd _

end TopKHeap

/-! ## 6. One turn -/

section

variable {R : Type}

/-- The documents that all cursors have ahead. -/
def shared (cursors : List (TermCursor R)) : List LocalDocId :=
  common (cursors.map TermCursor.ahead)

/-- How much the cursors have ahead. -/
def size (cursors : List (TermCursor R)) : Nat := (cursors.map (fun c => c.ahead.length)).sum

theorem map_ahead_advanceTo (t : LocalDocId) (cursors : List (TermCursor R)) :
    (cursors.map (TermCursor.advanceTo t)).map TermCursor.ahead
      = (cursors.map TermCursor.ahead).map (seek t) := by
  rw [List.map_map, List.map_map]
  exact List.map_congr_left (fun c _ => c.ahead_advanceTo t)

/-- Advancing all cursors never goes back, and moves one that is before the target. -/
theorem size_advanceTo_lt {t a : LocalDocId} {cursors : List (TermCursor R)} {c : TermCursor R}
    (hc : c ∈ cursors) (hhead : c.ahead.head? = some a) (hlt : a < t) :
    size (cursors.map (TermCursor.advanceTo t)) < size cursors := by
  rw [size, size, List.map_map]
  refine List.sum_lt_sum _ _ (fun c _ => ?_) ⟨c, hc, ?_⟩
  · rw [Function.comp_apply, TermCursor.ahead_advanceTo]
    exact length_seek_le t _
  · rw [Function.comp_apply, TermCursor.ahead_advanceTo]
    exact length_seek_lt hhead hlt

/-- Advancing all cursors never goes back. -/
theorem size_advanceTo_le (t : LocalDocId) (cursors : List (TermCursor R)) :
    size (cursors.map (TermCursor.advanceTo t)) ≤ size cursors := by
  rw [size, size, List.map_map]
  refine List.sum_le_sum (fun c _ => ?_)
  rw [Function.comp_apply, TermCursor.ahead_advanceTo]
  exact length_seek_le t _

/-- The cursors read the same lists, wherever they are in them. -/
def SameLists (cursors cursors' : List (TermCursor R)) : Prop :=
  cursors.map TermCursor.rewind = cursors'.map TermCursor.rewind

theorem SameLists.symm {cursors cursors' : List (TermCursor R)} (h : SameLists cursors cursors') :
    SameLists cursors' cursors := Eq.symm h

theorem SameLists.trans {cursors cursors' cursors'' : List (TermCursor R)}
    (h : SameLists cursors cursors') (h' : SameLists cursors' cursors'') :
    SameLists cursors cursors'' := Eq.trans h h'

theorem sameLists_advanceTo (t : LocalDocId) (cursors : List (TermCursor R)) :
    SameLists cursors (cursors.map (TermCursor.advanceTo t)) := by
  rw [SameLists, List.map_map]
  rfl

/-- The cursor on the same list. -/
theorem SameLists.exists_mem {cursors cursors' : List (TermCursor R)}
    (h : SameLists cursors cursors') {c' : TermCursor R} (hc' : c' ∈ cursors') :
    ∃ c ∈ cursors, c.postings = c'.postings ∧ c.blocks = c'.blocks ∧ c.idf = c'.idf := by
  have hmem : c'.rewind ∈ cursors.map TermCursor.rewind := h ▸ List.mem_map_of_mem hc'
  obtain ⟨c, hc, heq⟩ := List.mem_map.mp hmem
  simp only [TermCursor.rewind, TermCursor.mk.injEq, true_and] at heq
  exact ⟨c, hc, heq⟩

theorem boundFor_sum_eq [Field R] (titleBoost descBoost : R) (d : LocalDocId)
    {cursors cursors' : List (TermCursor R)} (h : SameLists cursors cursors') :
    (cursors'.map (TermCursor.boundFor titleBoost descBoost d)).sum
      = (cursors.map (TermCursor.boundFor titleBoost descBoost d)).sum := by
  have hrewind : ∀ cs : List (TermCursor R), cs.map (TermCursor.boundFor titleBoost descBoost d)
      = (cs.map TermCursor.rewind).map (TermCursor.boundFor titleBoost descBoost d) := by
    intro cs
    rw [List.map_map]
    rfl
  rw [hrewind cursors', hrewind cursors, h]

/-- What the loop relies on: there are cursors, in order, with ids that leave room for one
more. -/
structure Ready (cursors : List (TermCursor R)) : Prop where
  nonempty : cursors ≠ []
  sorted : ∀ c ∈ cursors, c.Sorted
  below : ∀ c ∈ cursors, ∀ p ∈ c.postings, p.docId < u32Max

theorem Ready.of_sameLists {cursors cursors' : List (TermCursor R)} (h : Ready cursors)
    (hsame : SameLists cursors cursors') :
    Ready cursors' := by
  refine ⟨fun hnil => h.nonempty ?_, fun c' hc' => ?_, fun c' hc' => ?_⟩
  · rw [SameLists, hnil] at hsame
    simpa using hsame
  · obtain ⟨c, hc, hpostings, -⟩ := hsame.exists_mem hc'
    have hsorted := h.sorted c hc
    rwa [TermCursor.Sorted, hpostings] at hsorted
  · obtain ⟨c, hc, hpostings, -⟩ := hsame.exists_mem hc'
    exact hpostings ▸ h.below c hc

theorem Ready.pairwise {cursors : List (TermCursor R)} (h : Ready cursors) :
    ∀ l ∈ cursors.map TermCursor.ahead, l.Pairwise (· < ·) := by
  intro l hl
  obtain ⟨c, hc, rfl⟩ := List.mem_map.mp hl
  exact (h.sorted c hc).ahead

/-- What is shared before the next blocks is ahead in the current ones. -/
theorem Ready.ahead_of_shared {cursors : List (TermCursor R)} (h : Ready cursors)
    {d : LocalDocId} (hd : d ∈ shared cursors)
    (hbefore : ∀ c ∈ cursors, ∀ nd, c.nextBlockDocId = some nd → d < nd) :
    ∀ c ∈ cursors, d ∈ c.ahead ∧ ∀ nd, c.nextBlockDocId = some nd → d < nd := fun c hc =>
  ⟨(mem_common (by simpa using h.nonempty)).mp hd _ (List.mem_map_of_mem hc), hbefore c hc⟩

/-- A document that is the current one of a cursor is ahead in its block. -/
theorem Ready.ahead_of_head {cursors : List (TermCursor R)} (h : Ready cursors)
    {p : LocalDocId} (hheads : ∀ c ∈ cursors, c.ahead.head? = some p) :
    ∀ c ∈ cursors, p ∈ c.ahead ∧ ∀ nd, c.nextBlockDocId = some nd → p < nd := fun c hc =>
  ⟨List.mem_of_head? (hheads c hc),
    fun _ hnd => (h.sorted c hc).lt_nextBlockDocId (hheads c hc) hnd⟩

theorem Ready.shared_advanceTo {cursors : List (TermCursor R)} (h : Ready cursors)
    (t : LocalDocId) :
    shared (cursors.map (TermCursor.advanceTo t)) = (shared cursors).filter (fun d => t ≤ d) := by
  rw [shared, map_ahead_advanceTo, common_seek t h.pairwise, shared]

theorem pivot_eq_none : ∀ {cursors : List (TermCursor R)} {p : LocalDocId},
    pivot cursors p = none → ∃ c ∈ cursors, c.ahead = []
  | [], _, h => by cases h
  | c :: cursors, p, h => by
    cases hdoc : c.currentDocId with
    | none =>
      rw [TermCursor.currentDocId_eq, List.head?_eq_none_iff] at hdoc
      exact ⟨c, List.mem_cons_self, hdoc⟩
    | some docId =>
      have hrest : pivot cursors (max p docId) = none := by simpa [pivot, hdoc] using h
      obtain ⟨c', hc', hnil⟩ := pivot_eq_none hrest
      exact ⟨c', List.mem_cons_of_mem _ hc', hnil⟩

/-- **The pivot** is not below the current document of any cursor, and is that of some cursor,
or the value it started from. -/
theorem pivot_eq_some : ∀ {cursors : List (TermCursor R)} {p₀ p : LocalDocId},
    pivot cursors p₀ = some p →
    p₀ ≤ p ∧ (∀ c ∈ cursors, ∃ d, c.ahead.head? = some d ∧ d ≤ p) ∧
      (p = p₀ ∨ ∃ c ∈ cursors, c.ahead.head? = some p)
  | [], _, _, h => by
    obtain rfl := Option.some.inj h
    exact ⟨le_rfl, by simp, Or.inl rfl⟩
  | c :: cursors, p₀, p, h => by
    cases hdoc : c.currentDocId with
    | none => simp [pivot, hdoc] at h
    | some docId =>
      have hrest : pivot cursors (max p₀ docId) = some p := by simpa [pivot, hdoc] using h
      obtain ⟨hle, hall, hsome⟩ := pivot_eq_some hrest
      rw [TermCursor.currentDocId_eq] at hdoc
      refine ⟨(le_max_left _ _).trans hle, ?_, ?_⟩
      · intro c' hc'
        rcases List.mem_cons.mp hc' with rfl | hc'
        · exact ⟨docId, hdoc, (le_max_right _ _).trans hle⟩
        · exact hall c' hc'
      · rcases hsome with hmax | ⟨c', hc', hhead⟩
        · rcases max_choice p₀ docId with hleft | hright
          · exact Or.inl (hmax.trans hleft)
          · exact Or.inr ⟨c, List.mem_cons_self, by rw [hdoc, hmax, hright]⟩
        · exact Or.inr ⟨c', List.mem_cons_of_mem _ hc', hhead⟩

/-- The scored documents among some. -/
def scored (scoreFn : LocalDocId → Option R) (docIds : List LocalDocId) :
    Multiset (R ×ₗ LocalDocId) :=
  ↑(docIds.filterMap (fun d => (scoreFn d).map (fun score => toLex (score, d))))

theorem mem_scored {scoreFn : LocalDocId → Option R} {docIds : List LocalDocId}
    {x : R ×ₗ LocalDocId} :
    x ∈ scored scoreFn docIds ↔ (ofLex x).2 ∈ docIds ∧ scoreFn (ofLex x).2 = some (ofLex x).1 := by
  rw [scored, Multiset.mem_coe, List.mem_filterMap]
  constructor
  · rintro ⟨d, hd, hscore⟩
    obtain ⟨score, hs, rfl⟩ := Option.map_eq_some_iff.mp hscore
    exact ⟨hd, hs⟩
  · rintro ⟨hd, hs⟩
    exact ⟨_, hd, by rw [hs]; rfl⟩

theorem scored_cons (scoreFn : LocalDocId → Option R) (p : LocalDocId)
    (docIds : List LocalDocId) :
    scored scoreFn [p] + scored scoreFn docIds = scored scoreFn (p :: docIds) := by
  rw [scored, scored, scored, Multiset.coe_add, ← List.filterMap_append]
  rfl

theorem scored_filter_add (scoreFn : LocalDocId → Option R) (docIds : List LocalDocId)
    (q : LocalDocId → Prop) [DecidablePred q] :
    scored scoreFn (docIds.filter q) + scored scoreFn (docIds.filter (fun d => ¬ q d))
      = scored scoreFn docIds := by
  have hperm := List.filter_append_perm (fun d => decide (q d)) docIds
  rw [scored, scored, Multiset.coe_add, ← List.filterMap_append]
  refine Multiset.coe_eq_coe.mpr (List.Perm.filterMap _ ?_)
  simpa using hperm

/-- The documents that all posting lists hold. -/
def intersection (cursors : List (TermCursor R)) : List LocalDocId :=
  common (cursors.map (fun c => c.postings.map Posting.docId))

/-- Brute force: every document of the intersection that has a score. -/
def bruteForce (scoreFn : LocalDocId → Option R) (cursors : List (TermCursor R)) :
    List (LocalDocId × R) :=
  (intersection cursors).filterMap (fun d => (scoreFn d).map (fun score => (d, score)))

/-- The documents of the intersection that have a score. -/
theorem map_fst_bruteForce (scoreFn : LocalDocId → Option R) (cursors : List (TermCursor R)) :
    (bruteForce scoreFn cursors).map Prod.fst
      = (intersection cursors).filter (fun d => (scoreFn d).isSome) := by
  rw [bruteForce, List.map_filterMap, ← List.filterMap_eq_filter]
  refine List.filterMap_congr (fun d _ => ?_)
  cases hscore : scoreFn d <;> simp [Option.guard, hscore]

/-- Cursors at their first postings share the intersection. -/
theorem shared_eq_intersection {cursors : List (TermCursor R)}
    (h : ∀ c ∈ cursors, c.position = 0) : shared cursors = intersection cursors := by
  refine congrArg common (List.map_congr_left (fun c hc => ?_))
  rw [TermCursor.ahead, h c hc, List.drop_zero]

theorem map_scored (scoreFn : LocalDocId → Option R) (cursors : List (TermCursor R)) :
    (scored scoreFn (intersection cursors)).map (fun x => ((ofLex x).2, (ofLex x).1))
      = ↑(bruteForce scoreFn cursors) := by
  rw [scored, bruteForce, Multiset.map_coe, List.map_filterMap]
  refine congrArg _ (List.filterMap_congr (fun d _ => ?_))
  rw [Option.map_map]
  rfl

end

variable {R : Type} [Field R] [LinearOrder R]

/-- The sum of the block upper bounds. -/
def totalBlockUb (titleBoost descBoost : R) (cursors : List (TermCursor R)) : R :=
  (cursors.map (TermCursor.blockUpperBound titleBoost descBoost)).sum

omit [LinearOrder R] in
/-- **The bounds that the loop reads are those of a document** that all cursors have ahead in
their current blocks. -/
theorem totalBlockUb_eq_boundFor {titleBoost descBoost : R}
    {cursors cursors' : List (TermCursor R)} (hready : Ready cursors')
    (hsame : SameLists cursors cursors') {d : LocalDocId}
    (hd : ∀ c ∈ cursors', d ∈ c.ahead ∧ ∀ nd, c.nextBlockDocId = some nd → d < nd) :
    totalBlockUb titleBoost descBoost cursors'
      = (cursors.map (TermCursor.boundFor titleBoost descBoost d)).sum := by
  rw [← boundFor_sum_eq titleBoost descBoost d hsame, totalBlockUb]
  refine congrArg List.sum (List.map_congr_left (fun c hc => ?_))
  exact ((hready.sorted c hc).boundFor_eq titleBoost descBoost (hd c hc).1 (hd c hc).2).symm

/-- Step 5: a candidate is scored, and enters the heap if it beats the threshold or the heap is
not full. -/
def TopKHeap.evaluate (scoreFn : LocalDocId → Option R) (p : LocalDocId) (heap : TopKHeap R) :
    TopKHeap R :=
  match scoreFn p with
  | some score =>
    if score > heap.threshold ∨ heap.threshold = 0 then heap.push p score else heap
  | none => heap

/-- What one turn can do. -/
inductive WandStep (titleBoost descBoost : R) (scoreFn : LocalDocId → Option R)
    (cursors : List (TermCursor R)) (heap : TopKHeap R) : Turn R → Prop
  /-- Some cursor is exhausted. -/
  | exhausted : shared cursors = [] →
      WandStep titleBoost descBoost scoreFn cursors heap (.done heap.intoVec)
  /-- A cursor moves up to the pivot, or past it. -/
  | align (cursors' : List (TermCursor R)) : SameLists cursors cursors' →
      size cursors' < size cursors → shared cursors' = shared cursors →
      WandStep titleBoost descBoost scoreFn cursors heap (.again cursors' heap)
  /-- The bounds of the last blocks do not beat the threshold. -/
  | last (cursors' : List (TermCursor R)) : SameLists cursors cursors' →
      shared cursors' = shared cursors →
      totalBlockUb titleBoost descBoost cursors' ≤ heap.threshold →
      (∀ c ∈ cursors', c.nextBlockDocId = none) →
      WandStep titleBoost descBoost scoreFn cursors heap (.done heap.intoVec)
  /-- The bounds of the current blocks do not beat the threshold: the cursors jump to the
  nearest block boundary. -/
  | jump (cursors' : List (TermCursor R)) (nextDoc : LocalDocId) : SameLists cursors cursors' →
      shared cursors' = shared cursors →
      totalBlockUb titleBoost descBoost cursors' ≤ heap.threshold →
      (∀ c ∈ cursors', ∀ nd, c.nextBlockDocId = some nd → nextDoc ≤ nd) →
      size (cursors'.map (TermCursor.advanceTo nextDoc)) < size cursors →
      WandStep titleBoost descBoost scoreFn cursors heap
        (.again (cursors'.map (TermCursor.advanceTo nextDoc)) heap)
  /-- The first shared document is scored, and all cursors pass it. -/
  | evaluate (cursors' cursors'' : List (TermCursor R)) (p : LocalDocId) :
      SameLists cursors cursors' → SameLists cursors cursors'' →
      shared cursors = p :: shared cursors'' →
      heap.threshold < totalBlockUb titleBoost descBoost cursors' →
      size cursors'' < size cursors →
      WandStep titleBoost descBoost scoreFn cursors heap
        (.again cursors'' (heap.evaluate scoreFn p))

section

variable {titleBoost descBoost : R} {scoreFn : LocalDocId → Option R}
  {cursors cursors' : List (TermCursor R)}

/-- Step 4, when the bounds do not beat the threshold. -/
theorem Ready.step_jump (h : Ready cursors) {heap : TopKHeap R} {p : LocalDocId}
    (hsame : SameLists cursors cursors') (hshared : shared cursors' = shared cursors)
    (hsize : size cursors' ≤ size cursors) (hagree : ∀ c ∈ cursors', c.ahead.head? = some p)
    (hub : totalBlockUb titleBoost descBoost cursors' ≤ heap.threshold) :
    WandStep titleBoost descBoost scoreFn cursors heap
      (match (cursors'.filterMap TermCursor.nextBlockDocId).min? with
        | some nextDoc => .again (cursors'.map (TermCursor.advanceTo nextDoc)) heap
        | none => .done heap.intoVec) := by
  cases hmin : (cursors'.filterMap TermCursor.nextBlockDocId).min? with
  | none =>
    refine .last cursors' hsame hshared hub ?_
    simpa [List.filterMap_eq_nil_iff] using List.min?_eq_none_iff.mp hmin
  | some nextDoc =>
    obtain ⟨hmem, hle⟩ := List.min?_eq_some_iff.mp hmin
    obtain ⟨c, hc, hnext⟩ := List.mem_filterMap.mp hmem
    have hlt : p < nextDoc :=
      ((h.of_sameLists hsame).sorted c hc).lt_nextBlockDocId (hagree c hc) hnext
    refine .jump cursors' nextDoc hsame hshared hub (fun c' hc' nd hnd => ?_)
      ((size_advanceTo_lt hc (hagree c hc) hlt).trans_le hsize)
    exact hle nd (List.mem_filterMap.mpr ⟨c', hc', hnd⟩)

/-- Steps 5 and 6. -/
theorem Ready.step_evaluate (h : Ready cursors) {heap : TopKHeap R} {p : LocalDocId}
    (hsame : SameLists cursors cursors') (hshared : shared cursors' = shared cursors)
    (hsize : size cursors' ≤ size cursors) (hagree : ∀ c ∈ cursors', c.ahead.head? = some p)
    (hub : heap.threshold < totalBlockUb titleBoost descBoost cursors') :
    WandStep titleBoost descBoost scoreFn cursors heap
      (.again (cursors'.map (TermCursor.advanceTo ((p + 1) % (u32Max + 1))))
        (heap.evaluate scoreFn p)) := by
  have h' := h.of_sameLists hsame
  obtain ⟨c, hc⟩ := List.exists_mem_of_ne_nil _ h'.nonempty
  have hbelow : p < u32Max := by
    obtain ⟨q, hq, rfl⟩ := List.mem_map.mp (List.mem_of_head? (hagree c hc))
    exact h'.below c hc q (List.mem_of_mem_drop hq)
  have hnext : (p + 1) % (u32Max + 1) = p + 1 := Nat.mod_eq_of_lt (Nat.succ_lt_succ hbelow)
  -- the shared documents are `p` and those after it
  obtain ⟨rest, hrest⟩ : ∃ rest, shared cursors' = p :: rest :=
    common_eq_cons (by simpa using h'.nonempty) (fun l hl => by
      obtain ⟨c, hc, rfl⟩ := List.mem_map.mp hl
      exact hagree c hc)
  have hpairwise : (p :: rest).Pairwise (· < ·) := hrest ▸ pairwise_common h'.pairwise
  have hpast : shared (cursors'.map (TermCursor.advanceTo (p + 1))) = rest := by
    rw [h'.shared_advanceTo, hrest, List.filter_cons_of_neg (by simp), List.filter_eq_self]
    intro d hd
    have hlt : p < d := (List.pairwise_cons.mp hpairwise).1 d hd
    exact decide_eq_true (Nat.succ_le_of_lt hlt)
  rw [hnext]
  refine .evaluate cursors' _ p hsame (hsame.trans (sameLists_advanceTo _ _)) ?_ hub
    ((size_advanceTo_lt hc (hagree c hc) (Nat.lt_succ_self p)).trans_le hsize)
  rw [hpast, ← hshared, hrest]

/-- **One turn of the loop.** -/
theorem wandTurn_step (h : Ready cursors) (heap : TopKHeap R) :
    WandStep titleBoost descBoost scoreFn cursors heap
      (wandTurn titleBoost descBoost scoreFn cursors heap) := by
  have hempty : ∀ {cs : List (TermCursor R)}, (∃ c ∈ cs, c.ahead = []) → shared cs = [] := by
    rintro cs ⟨c, hc, hnil⟩
    exact common_eq_nil (hnil ▸ List.mem_map_of_mem hc)
  rw [wandTurn]
  cases hpivot : pivot cursors 0 with
  | none => exact .exhausted (hempty (pivot_eq_none hpivot))
  | some p =>
    obtain ⟨-, hall, hsome⟩ := pivot_eq_some hpivot
    simp only
    -- advancing to the pivot loses nothing
    have hshared : shared (cursors.map (TermCursor.advanceTo p)) = shared cursors := by
      rw [shared, map_ahead_advanceTo]
      refine common_seek_head h.pairwise ?_
      rcases hsome with rfl | ⟨c, hc, hhead⟩
      · obtain ⟨c, hc⟩ := List.exists_mem_of_ne_nil _ h.nonempty
        obtain ⟨d, hhead, -⟩ := hall c hc
        exact ⟨_, List.mem_map_of_mem hc, d, hhead, Nat.zero_le d⟩
      · exact ⟨_, List.mem_map_of_mem hc, p, hhead, le_rfl⟩
    have hsame := sameLists_advanceTo p cursors
    have hsize := size_advanceTo_le p cursors
    by_cases hexhausted :
        (cursors.map (TermCursor.advanceTo p)).any TermCursor.isExhausted = true
    · rw [if_pos hexhausted]
      obtain ⟨c, hc, hex⟩ := List.any_eq_true.mp hexhausted
      refine .exhausted (hshared.symm.trans (hempty ⟨c, hc, ?_⟩))
      exact (TermCursor.isExhausted_iff c).mp hex
    · rw [if_neg hexhausted]
      by_cases hagree : (cursors.map (TermCursor.advanceTo p)).all
          (fun c => c.currentDocId = some p) = true
      · have hheads : ∀ c ∈ cursors.map (TermCursor.advanceTo p), c.ahead.head? = some p := by
          intro c hc
          rw [← TermCursor.currentDocId_eq]
          simpa using List.all_eq_true.mp hagree c hc
        rw [if_pos hagree]
        by_cases hub : totalBlockUb titleBoost descBoost
            (cursors.map (TermCursor.advanceTo p)) ≤ heap.threshold
        · rw [totalBlockUb] at hub
          rw [if_pos hub]
          exact h.step_jump hsame hshared hsize hheads hub
        · have hlt := not_le.mp hub
          rw [totalBlockUb] at hub
          rw [if_neg hub]
          exact h.step_evaluate hsame hshared hsize hheads hlt
      · rw [if_neg hagree]
        -- a cursor that was before the pivot has moved
        have hbefore : ∃ c ∈ cursors, ∃ d, c.ahead.head? = some d ∧ d < p := by
          by_contra hnone
          refine hagree (List.all_eq_true.mpr (fun c hc => ?_))
          obtain ⟨c', hc', rfl⟩ := List.mem_map.mp hc
          obtain ⟨d, hhead, hdle⟩ := hall c' hc'
          have hge : p ≤ d := not_lt.mp (fun hlt => hnone ⟨c', hc', d, hhead, hlt⟩)
          rw [TermCursor.currentDocId_eq, TermCursor.ahead_advanceTo, seek_eq_self hhead hge, hhead,
            le_antisymm hdle hge]
          simp
        obtain ⟨c, hc, d, hhead, hlt⟩ := hbefore
        exact .align _ hsame (size_advanceTo_lt hc hhead hlt) hshared

end

end ZearchEngine
