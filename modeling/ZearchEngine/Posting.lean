/-
# Posting lists

`PostingList` (`crates/index/src/posting.rs`): the documents of a term in the order of their
local ids, in blocks of 64, each block under an upper bound of its documents' BM25 impacts.

Impacts and everything computed from them are `f32` in the source; here they are elements of an
ordered field `R`, so that nothing is rounded.  Document ids, frequencies and lengths are
natural numbers; `saturating_add` on a `u8` stops at 255.
-/
import ZearchEngine.Segment
import ZearchEngine.Lib.Blocks
import Mathlib

namespace ZearchEngine

/-- `BLOCK_SIZE`. -/
def blockSize : Nat := 64

theorem blockSize_pos : 0 < blockSize := by
  decide

/-- `u32::MAX`. -/
def u32Max : Nat := 2 ^ 32 - 1

/-- A single entry in a posting list. -/
structure Posting where
  docId : LocalDocId
  termFreq : Nat
  docLen : Nat
deriving DecidableEq

/-- Per-block upper bound on the BM25 impact, without IDF and field boost. -/
structure PostingBlock (R : Type) where
  maxImpact : R

/-- Postings in the order of document ids, with one block header per `blockSize` postings. -/
structure PostingList (R : Type) where
  postings : List Posting
  blocks : List (PostingBlock R)

/-! ## 1. Impacts -/

section

variable {R : Type} [Field R] [LinearOrder R]

/-- `K1`. -/
def bm25K1 : R := 6 / 5

/-- `B`. -/
def bm25B : R := 3 / 4

/-- `bm25_impact`: per-document impact of a term, without IDF or field boost. -/
def bm25Impact (tf docLen : Nat) (avgdl : R) : R :=
  let avgdl := max avgdl 1
  let num := (tf : R) * (bm25K1 + 1)
  let denom := (tf : R) + bm25K1 * (1 - bm25B + bm25B * (docLen : R) / avgdl)
  num / denom

/-- The impact that a posting is counted with. -/
def Posting.impact (avgdl : R) (p : Posting) : R := bm25Impact p.termFreq p.docLen avgdl

/-- The header made of some postings. -/
def PostingBlock.ofPostings (avgdl : R) (postings : List Posting) : PostingBlock R :=
  ⟨(postings.map (Posting.impact avgdl)).foldl max 0⟩

variable [IsStrictOrderedRing R]

theorem bm25K1_pos : (0 : R) < bm25K1 := by
  rw [bm25K1]
  positivity

/-- What the length of a document adds to the denominator of an impact. -/
theorem bm25_norm_nonneg (docLen : Nat) (avgdl : R) :
    0 ≤ bm25K1 * (1 - bm25B + bm25B * (docLen : R) / max avgdl 1) := by
  have hb : (0 : R) ≤ 1 - bm25B := by
    rw [bm25B]
    norm_num
  have hmax : (0 : R) < max avgdl 1 := lt_max_of_lt_right one_pos
  have hlen : (0 : R) ≤ bm25B * (docLen : R) / max avgdl 1 := by
    rw [bm25B]
    positivity
  exact mul_nonneg bm25K1_pos.le (add_nonneg hb hlen)

/-- The denominator of an impact, and of a term score. -/
theorem bm25_denom_pos {tf : Nat} (htf : 0 < tf) (docLen : Nat) (avgdl : R) :
    0 < (tf : R) + bm25K1 * (1 - bm25B + bm25B * (docLen : R) / max avgdl 1) :=
  add_pos_of_pos_of_nonneg (Nat.cast_pos.mpr htf) (bm25_norm_nonneg docLen avgdl)

theorem bm25Impact_pos {tf : Nat} (htf : 0 < tf) (docLen : Nat) (avgdl : R) :
    0 < bm25Impact tf docLen avgdl := by
  have hk := bm25K1_pos (R := R)
  have htf' : (0 : R) < (tf : R) := Nat.cast_pos.mpr htf
  exact div_pos (mul_pos htf' (add_pos hk one_pos)) (bm25_denom_pos htf docLen avgdl)

theorem bm25Impact_nonneg (tf docLen : Nat) (avgdl : R) : 0 ≤ bm25Impact tf docLen avgdl := by
  rcases Nat.eq_zero_or_pos tf with rfl | htf
  · simp [bm25Impact]
  · exact (bm25Impact_pos htf docLen avgdl).le

/-- However often a term occurs, its impact stays within `K1 + 1`. -/
theorem bm25Impact_le (tf docLen : Nat) (avgdl : R) :
    bm25Impact tf docLen avgdl ≤ bm25K1 + 1 := by
  have hk : (0 : R) ≤ bm25K1 + 1 := (add_pos bm25K1_pos one_pos).le
  rcases Nat.eq_zero_or_pos tf with rfl | htf
  · simpa [bm25Impact] using hk
  · rw [bm25Impact, div_le_iff₀ (bm25_denom_pos htf docLen avgdl), mul_comm]
    exact mul_le_mul_of_nonneg_left (le_add_of_nonneg_right (bm25_norm_nonneg docLen avgdl)) hk

end

/-! ## 2. Block headers -/

namespace PostingList

section

variable {R : Type}

def len (pl : PostingList R) : Nat := pl.postings.length

def isEmpty (pl : PostingList R) : Bool := pl.postings.isEmpty

variable [Field R] [LinearOrder R]

/-- `rebuild_blocks`: the block headers from the postings and the average document length. -/
def rebuildBlocks (pl : PostingList R) (avgdl : R) : PostingList R :=
  let numBlocks := (pl.len + blockSize - 1) / blockSize
  { pl with
    blocks := (List.range numBlocks).map (fun b =>
      { maxImpact := (((pl.postings.drop (b * blockSize)).take blockSize).map
          (fun p => bm25Impact p.termFreq p.docLen avgdl)).foldl max 0 }) }

/-- The header of a block, or 0 where there is none, is made of the postings of the block. -/
theorem getD_maxImpact_rebuildBlocks (pl : PostingList R) (avgdl : R) (b : Nat) :
    ((pl.rebuildBlocks avgdl).blocks[b]?.map PostingBlock.maxImpact).getD 0
      = (PostingBlock.ofPostings avgdl (Blocks.block blockSize b pl.postings)).maxImpact := by
  by_cases hb : b < (pl.len + blockSize - 1) / blockSize
  · simp only [rebuildBlocks, List.getElem?_map, List.getElem?_range hb, Option.map_some,
      Option.getD_some]
    rfl
  · have hpast : pl.postings.length ≤ b * blockSize := by
      rw [len, blockSize] at hb
      rw [blockSize]
      omega
    have hblock : Blocks.block blockSize b pl.postings = [] := by
      rw [Blocks.block, List.drop_eq_nil_of_le hpast, List.take_nil]
    have hnone : (pl.rebuildBlocks avgdl).blocks[b]? = none := by
      simpa [rebuildBlocks] using hb
    rw [hblock, hnone]
    rfl

/-- A block header is not negative. -/
theorem maxImpact_nonneg {pl : PostingList R} {avgdl : R} {b : PostingBlock R}
    (hb : b ∈ (pl.rebuildBlocks avgdl).blocks) : 0 ≤ b.maxImpact := by
  obtain ⟨i, -, rfl⟩ := List.mem_map.mp hb
  exact (Blocks.isGreatest_foldl_max _ 0).2 List.mem_cons_self

/-- Where there is no header, 0 stands for it. -/
theorem getD_maxImpact_nonneg {blocks : List (PostingBlock R)}
    (h : ∀ b ∈ blocks, 0 ≤ b.maxImpact) (i : Nat) :
    0 ≤ (blocks[i]?.map PostingBlock.maxImpact).getD 0 := by
  cases hget : blocks[i]? with
  | none => exact le_rfl
  | some b => exact h b (List.mem_of_getElem? hget)

end

/-! ## 3. Merging -/

/-- The loop of `merge` over the sorted postings: entries of one document become one, with the
frequencies added up; `last` is the entry that may still grow. -/
def mergeLoop (last : Posting) : List Posting → List Posting
  | [] => [last]
  | p :: ps =>
    if last.docId = p.docId then
      mergeLoop { last with termFreq := min 255 (last.termFreq + p.termFreq) } ps
    else last :: mergeLoop p ps

/-- `merge`: several posting lists as one.  The blocks are left to be rebuilt. -/
def merge {R : Type} (lists : List (PostingList R)) : PostingList R where
  postings := match (lists.flatMap postings).insertionSort (fun p q => p.docId ≤ q.docId) with
    | [] => []
    | p :: ps => mergeLoop p ps
  blocks := []

/-- The loop keeps the documents, each once. -/
theorem mergeLoop_spec : ∀ (ps : List Posting) (last : Posting),
    (∀ p ∈ ps, last.docId ≤ p.docId) → ps.Pairwise (fun p q => p.docId ≤ q.docId) →
    (∀ i, i ∈ (mergeLoop last ps).map Posting.docId ↔ i ∈ (last :: ps).map Posting.docId) ∧
    ((mergeLoop last ps).map Posting.docId).Pairwise (· < ·)
  | [], last, _, _ => ⟨fun _ => Iff.rfl, List.pairwise_singleton _ _⟩
  | p :: ps, last, hlast, hsorted => by
    obtain ⟨hp, htail⟩ := List.pairwise_cons.mp hsorted
    by_cases heq : last.docId = p.docId
    · obtain ⟨hmem, hlt⟩ := mergeLoop_spec ps
        { last with termFreq := min 255 (last.termFreq + p.termFreq) }
        (fun q hq => hlast q (List.mem_cons_of_mem _ hq)) htail
      rw [mergeLoop, if_pos heq]
      refine ⟨fun i => (hmem i).trans ?_, hlt⟩
      simp only [List.map_cons, List.mem_cons, heq]
      tauto
    · obtain ⟨hmem, hlt⟩ := mergeLoop_spec ps p hp htail
      rw [mergeLoop, if_neg heq]
      refine ⟨fun i => ?_, List.pairwise_cons.mpr ⟨fun i hi => ?_, hlt⟩⟩
      · rw [List.map_cons, List.mem_cons, hmem i, List.map_cons (l := p :: ps), List.mem_cons]
      · have hlt' : last.docId < p.docId :=
          lt_of_le_of_ne (hlast p List.mem_cons_self) heq
        obtain ⟨q, hq, rfl⟩ := List.mem_map.mp ((hmem i).mp hi)
        rcases List.mem_cons.mp hq with rfl | hq
        · exact hlt'
        · exact hlt'.trans_le (hp q hq)

/-- **A merged list holds the documents of its sources, in order and each once.** -/
theorem merge_spec {R : Type} (lists : List (PostingList R)) :
    (∀ i, i ∈ (merge lists).postings.map Posting.docId ↔
      ∃ pl ∈ lists, i ∈ pl.postings.map Posting.docId) ∧
    ((merge lists).postings.map Posting.docId).Pairwise (· < ·) := by
  have hperm := List.perm_insertionSort (fun p q : Posting => p.docId ≤ q.docId)
    (lists.flatMap postings)
  have hsorted := List.pairwise_insertionSort (fun p q : Posting => p.docId ≤ q.docId)
    (lists.flatMap postings)
  have hmem : ∀ i, i ∈ ((lists.flatMap postings).insertionSort
        (fun p q => p.docId ≤ q.docId)).map Posting.docId ↔
      ∃ pl ∈ lists, i ∈ pl.postings.map Posting.docId := by
    intro i
    rw [(hperm.map _).mem_iff, List.map_flatMap, List.mem_flatMap]
  rw [merge]
  generalize (lists.flatMap postings).insertionSort (fun p q => p.docId ≤ q.docId) = sorted
    at hsorted hmem
  cases sorted with
  | nil => exact ⟨hmem, List.Pairwise.nil⟩
  | cons p ps =>
    obtain ⟨hp, htail⟩ := List.pairwise_cons.mp hsorted
    obtain ⟨hloop, hlt⟩ := mergeLoop_spec ps p hp htail
    exact ⟨fun i => (hloop i).trans (hmem i), hlt⟩

end PostingList

end ZearchEngine
