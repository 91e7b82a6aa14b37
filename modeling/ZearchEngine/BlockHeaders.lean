/-
# Block headers are tight

`PostingList::rebuild_blocks` (`crates/index/src/posting.rs`) cuts the postings into slices of 64
and keeps the largest impact of each; `TermCursor` (`crates/query/src/wand.rs`) reads the header
of the block it is in, and jumps to the first posting of the next block.

A header is the largest impact of its block, and not only a bound of it, since impacts are not
negative and the fold starts from 0 (`isGreatest_maxImpact`).  Whatever a cursor would skip by
jumping is in the block of its position (`div_eq_of_lt_next`), so it is under the header that the
cursor has read (`impact_le_blockImpact`).
-/
import ZearchEngine.BlockBound
import ZearchEngine.Lib.Blocks

namespace ZearchEngine

/-! ## 1. The header of a position -/

section

variable {R : Type} [Field R] [LinearOrder R]

theorem blocks_rebuildBlocks (pl : PostingList R) (avgdl : R) :
    (pl.rebuildBlocks avgdl).blocks
      = Blocks.headers blockSize (PostingBlock.ofPostings avgdl) pl.postings := rfl

/-- The header of the block of a posting. -/
theorem getElem?_blocks {pl : PostingList R} {i : Nat} {p : Posting}
    (h : pl.postings[i]? = some p) (avgdl : R) :
    (pl.rebuildBlocks avgdl).blocks[i / blockSize]?
      = some (.ofPostings avgdl (Blocks.block blockSize (i / blockSize) pl.postings)) := by
  rw [blocks_rebuildBlocks]
  exact Blocks.getElem?_headers blockSize_pos _ (List.getElem?_eq_some_iff.mp h).1

variable [IsStrictOrderedRing R]

/-- **A header is the largest impact of its block.** -/
theorem isGreatest_maxImpact (avgdl : R) {postings : List Posting} (hne : postings ≠ []) :
    IsGreatest {y | ∃ p ∈ postings, p.impact avgdl = y}
      (PostingBlock.ofPostings avgdl postings).maxImpact := by
  obtain ⟨hmem, hle⟩ := Blocks.isGreatest_foldl_max (postings.map (Posting.impact avgdl)) 0
  have hbound : ∀ p ∈ postings,
      p.impact avgdl ≤ (PostingBlock.ofPostings avgdl postings).maxImpact :=
    fun p hp => hle (List.mem_cons_of_mem 0 (List.mem_map_of_mem hp))
  constructor
  · rcases List.mem_cons.mp hmem with hzero | hin
    · -- the fold stopped where it started, so all impacts are 0
      obtain ⟨p, hp⟩ := List.exists_mem_of_ne_nil postings hne
      have hp0 := hbound p hp
      rw [PostingBlock.ofPostings, hzero] at hp0
      refine ⟨p, hp, ?_⟩
      rw [PostingBlock.ofPostings, hzero]
      exact le_antisymm hp0 (bm25Impact_nonneg _ _ _)
    · exact List.mem_map.mp hin
  · rintro y ⟨p, hp, rfl⟩
    exact hbound p hp

/-- The header of the block of a posting covers it, and a posting of the block reaches it. -/
theorem header_spec {pl : PostingList R} {i : Nat} {p : Posting}
    (h : pl.postings[i]? = some p) (avgdl : R) :
    ∃ header : PostingBlock R,
      (pl.rebuildBlocks avgdl).blocks[i / blockSize]? = some header ∧
      p.impact avgdl ≤ header.maxImpact ∧
      ∃ (j : Nat) (q : Posting), j / blockSize = i / blockSize ∧ pl.postings[j]? = some q ∧
        q.impact avgdl = header.maxImpact := by
  have hp : p ∈ Blocks.block blockSize (i / blockSize) pl.postings :=
    (Blocks.mem_block_iff blockSize_pos).mpr ⟨i, rfl, h⟩
  obtain ⟨⟨q, hq, hreach⟩, hcover⟩ := isGreatest_maxImpact avgdl (List.ne_nil_of_mem hp)
  obtain ⟨j, hj, hget⟩ := (Blocks.mem_block_iff blockSize_pos).mp hq
  exact ⟨_, getElem?_blocks h avgdl, hcover ⟨p, hp, rfl⟩, j, q, hj, hget, hreach⟩

end

/-! ## 2. The block of a cursor -/

namespace TermCursor

variable {R : Type}

/-- What is ahead in the last block is all that is ahead. -/
theorem div_eq_of_nextBlockDocId_none {c : TermCursor R} (h : c.nextBlockDocId = none) {j : Nat}
    (hle : c.position ≤ j) (hj : j < c.postings.length) :
    j / blockSize = c.position / blockSize := by
  rw [nextBlockDocId, Option.map_eq_none_iff, List.getElem?_eq_none_iff] at h
  exact Blocks.div_eq_of_lt_next blockSize_pos hle (hj.trans_le h)

/-- **The posting that the next block starts with** ends the block of the cursor. -/
theorem nextBlockDocId_spec {c : TermCursor R} {id : LocalDocId}
    (h : c.nextBlockDocId = some id) :
    ∃ next, c.position < next ∧ (c.postings[next]?).map Posting.docId = some id ∧
      (∀ j, c.position ≤ j → j < next → j / blockSize = c.position / blockSize) ∧
      (c.Sorted → ∀ k, (c.postings[k]?).map Posting.docId = some id → k = next) := by
  refine ⟨(c.position / blockSize + 1) * blockSize, ?_, h,
    fun j hle hlt => Blocks.div_eq_of_lt_next blockSize_pos hle hlt, fun hsorted k hk => ?_⟩
  · rw [blockSize]
    omega
  · rw [nextBlockDocId] at h
    rw [← List.getElem?_map] at h hk
    have hnodup : (c.postings.map Posting.docId).Nodup := hsorted.imp Nat.ne_of_lt
    exact (List.getElem?_inj (List.getElem?_eq_some_iff.mp hk).1 hnodup).mp (hk.trans h.symm)

end TermCursor

/-- **Block headers cover the list tightly.** -/
theorem blockHeaders_tight {R : Type} [Field R] [LinearOrder R] [IsStrictOrderedRing R]
    (pl : PostingList R) (avgdl : R) :
    (pl.rebuildBlocks avgdl).blocks.length = ⌈(pl.postings.length : ℚ) / 64⌉₊ ∧
    (∀ (i : Nat) (p : Posting), pl.postings[i]? = some p →
      ∃ header : PostingBlock R, (pl.rebuildBlocks avgdl).blocks[i / 64]? = some header ∧
        bm25Impact p.termFreq p.docLen avgdl ≤ header.maxImpact ∧
        ∃ (j : Nat) (q : Posting), j / 64 = i / 64 ∧ pl.postings[j]? = some q ∧
          bm25Impact q.termFreq q.docLen avgdl = header.maxImpact) ∧
    ∀ c : TermCursor R,
      (c.nextBlockDocId = none →
        ∀ j, c.position ≤ j → j < c.postings.length → j / 64 = c.position / 64) ∧
      ∀ id, c.nextBlockDocId = some id →
        ∃ next, c.position < next ∧ (c.postings[next]?).map Posting.docId = some id ∧
          (∀ j, c.position ≤ j → j < next → j / 64 = c.position / 64) ∧
          (c.Sorted → ∀ k, (c.postings[k]?).map Posting.docId = some id → k = next) := by
  refine ⟨?_, fun i p h => header_spec h avgdl, fun c => ⟨fun h j =>
    c.div_eq_of_nextBlockDocId_none h, fun id => c.nextBlockDocId_spec⟩⟩
  rw [blocks_rebuildBlocks, Blocks.length_headers, Blocks.numBlocks_eq_ceil blockSize_pos]
  rfl

/-- One posting more than fits in a block. -/
def twoBlocks : PostingList ℚ := ⟨(List.range 65).map (fun i => ⟨i, 1, 8⟩), []⟩

theorem blockHeaders_tight_twoBlocks :
    (twoBlocks.rebuildBlocks 8).blocks.length = ⌈((65 : ℕ) : ℚ) / 64⌉₊ ∧
    (∃ header : PostingBlock ℚ, (twoBlocks.rebuildBlocks 8).blocks[64 / 64]? = some header ∧
      bm25Impact 1 8 8 ≤ header.maxImpact ∧
      ∃ (j : Nat) (q : Posting), j / 64 = 64 / 64 ∧ twoBlocks.postings[j]? = some q ∧
        bm25Impact q.termFreq q.docLen 8 = header.maxImpact) ∧
    ∃ next, 3 < next ∧ (twoBlocks.postings[next]?).map Posting.docId = some 64 ∧
      (∀ j, 3 ≤ j → j < next → j / 64 = 3 / 64) ∧
      ∀ k, (twoBlocks.postings[k]?).map Posting.docId = some 64 → k = next := by
  obtain ⟨hlen, himpact, hcursor⟩ := blockHeaders_tight twoBlocks 8
  have hsorted : TermCursor.Sorted (⟨twoBlocks.postings, [], 3, 1⟩ : TermCursor ℚ) := by
    have hids : twoBlocks.postings.map Posting.docId = List.range 65 := rfl
    rw [TermCursor.Sorted, hids]
    exact List.pairwise_lt_range
  obtain ⟨next, hlt, hnext, hblock, honly⟩ :=
    (hcursor ⟨twoBlocks.postings, [], 3, 1⟩).2 64 rfl
  exact ⟨hlen, himpact 64 ⟨64, 1, 8⟩ rfl, next, hlt, hnext, hblock, honly hsorted⟩

/-! ## 3. The cursors of a query -/

namespace TextExecutor

variable {x : TextExecutor} {reader : SegmentReader} {stats : SegmentStatistics}
  {request : SearchRequest}

/-- **No posting of a cursor weighs more than its block.** -/
theorem impact_le_blockImpact {token : String} {p : Posting}
    (hp : p ∈ (x.cursor reader stats request token).postings) :
    p.impact ((stats.fieldAvgLengths "title").getD 8)
      ≤ x.blockImpact reader stats request token p.docId := by
  obtain ⟨i, hi, rfl⟩ := List.mem_iff_getElem.mp hp
  have hsorted : (x.cursor reader stats request token).Sorted := sorted_cursor token
  let pl : PostingList ℝ := ⟨(x.cursor reader stats request token).postings, []⟩
  have hget : pl.postings[i]? = some (x.cursor reader stats request token).postings[i] :=
    List.getElem?_eq_getElem hi
  obtain ⟨header, hheader, hle, -⟩ :=
    header_spec hget ((stats.fieldAvgLengths "title").getD 8)
  rw [← maxImpact_cursor, hsorted.findIdx_eq hi, blocks_cursor, hheader]
  exact hle

end TextExecutor

end ZearchEngine
