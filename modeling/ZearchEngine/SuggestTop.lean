/-
# The best suggestions

`SuggestIndex::query` (`crates/suggest/src/index.rs`) returns the best `limit` terms with a
prefix: the terms are in order, so those with the prefix stand together, and a partial sort
brings the best ones to the front (`SuggestIndex.isTop_query`).

`Router::suggest` (`crates/router/src/router.rs`) asks every shard for its best terms, gives a
term the highest of the scores it was told, and keeps the best again.  A shard may hide the best
score of a term and another one tell a lower score for it.  No best term is lost by that: where a
score is hidden, `limit` other terms of the same shard are told with scores as high.
-/
import ZearchEngine.Suggest
import ZearchEngine.Lib.TopK

namespace ZearchEngine

/-! ## 1. A shard -/

/-- The documented contract of `select_nth_unstable_by`, for the descending order of the scores:
the elements are reordered so that, of those before the one at `limit - 1`, none has a lower
score, and of those after it none has a higher one. -/
def SuggestText.SelectsNth (x : SuggestText) : Prop :=
  ∀ limit found, 1 ≤ limit → limit ≤ found.length → (x.selectNth limit found).Perm found ∧
    ∃ before nth after, x.selectNth limit found = before ++ nth :: after ∧
      before.length + 1 = limit ∧ (∀ e ∈ before, nth.2 ≤ e.2) ∧ ∀ e ∈ after, e.2 ≤ nth.2

namespace SuggestIndex

section

variable {x : SuggestText} {terms : List (String × ℚ)} {pre : String} {limit : Nat}

/-- What the partial sort leaves at the front. -/
theorem isTop_selectNth (hselect : x.SelectsNth) (hlimit : 1 ≤ limit)
    (hlen : limit ≤ terms.length) :
    TopK.IsTop (fun e : String × ℚ => e.2) limit ↑((x.selectNth limit terms).take limit)
      ↑terms := by
  obtain ⟨hperm, before, nth, after, heq, hlength, hbefore, hafter⟩ :=
    hselect limit terms hlimit hlen
  rw [← Multiset.coe_eq_coe.mpr hperm]
  refine TopK.isTop_take (fun e he e' he' => ?_)
  have hfront : before ++ nth :: after = (before ++ [nth]) ++ after := by simp
  have hfrontLen : (before ++ [nth]).length = limit := by simpa using hlength
  rw [heq, hfront, List.drop_left' hfrontLen] at he
  rw [heq, hfront, List.take_left' hfrontLen] at he'
  refine (hafter e he).trans ?_
  rcases List.mem_append.mp he' with hmem | hmem
  · exact hbefore e' hmem
  · rw [List.mem_singleton.mp hmem]

/-- The terms of a new index are in order. -/
theorem pairwise_new (hdistinct : (terms.map Prod.fst).Nodup) :
    (SuggestIndex.new terms).terms.Pairwise (fun a b => a.1 < b.1) := by
  have htotal : Std.Total (fun a b : String × ℚ => a.1 ≤ b.1) := ⟨fun a b => le_total a.1 b.1⟩
  have htrans : IsTrans (String × ℚ) (fun a b => a.1 ≤ b.1) := ⟨fun _ _ _ => le_trans⟩
  have hsorted := List.pairwise_insertionSort (fun a b : String × ℚ => a.1 ≤ b.1) terms
  have hperm := List.perm_insertionSort (fun a b : String × ℚ => a.1 ≤ b.1) terms
  have hnodup := List.pairwise_map.mp ((hperm.map Prod.fst).nodup_iff.mpr hdistinct)
  exact (hsorted.and hnodup).imp (fun h => lt_of_le_of_ne h.1 h.2)

/-- **A query returns the best terms with the prefix.** -/
theorem isTop_query (hselect : x.SelectsNth) (hsorted : terms.Pairwise (fun a b => a.1 < b.1))
    (hpre : pre.isEmpty = false) (hlimit : 1 ≤ limit) :
    TopK.IsTop SuggestTerm.score limit ↑((⟨terms⟩ : SuggestIndex).query x pre limit)
      ↑((terms.filter (fun e => startsWith e.1 (x.toLowercase pre))).map
        (fun e => (⟨e.1, e.2⟩ : SuggestTerm))) := by
  have hasked : ¬ (pre.isEmpty || decide (limit = 0)) = true := by
    rw [hpre, Bool.false_or, decide_eq_true_iff]
    omega
  rw [query, if_neg hasked]
  simp only [scan_terms hsorted]
  have htop : TopK.IsTop (fun e : String × ℚ => e.2) limit
      ↑(if limit < (terms.filter (fun e => startsWith e.1 (x.toLowercase pre))).length then
          (x.selectNth limit
            (terms.filter (fun e => startsWith e.1 (x.toLowercase pre)))).take limit
        else terms.filter (fun e => startsWith e.1 (x.toLowercase pre)))
      ↑(terms.filter (fun e => startsWith e.1 (x.toLowercase pre))) := by
    split
    · next hmany => exact isTop_selectNth hselect hlimit hmany.le
    · next hfew => exact TopK.isTop_self (not_lt.mp hfew)
  rw [← Multiset.map_coe, ← Multiset.map_coe,
    Multiset.coe_eq_coe.mpr (List.perm_insertionSort _ _)]
  exact TopK.IsTop.along htop

/-- The terms that are returned, best first. -/
theorem pairwise_query (idx : SuggestIndex) (x : SuggestText) (pre : String) (limit : Nat) :
    (idx.query x pre limit).Pairwise (fun a b => b.score ≤ a.score) := by
  rw [query]
  split
  · exact List.Pairwise.nil
  · exact List.pairwise_map.mpr (TopK.pairwise_insertionSort_score Prod.snd _)

end

/-- **A query returns the best `limit` terms with the prefix**, in descending order of their
scores. -/
theorem query_top (x : SuggestText) (hselect : x.SelectsNth) (terms : List (String × ℚ))
    (hdistinct : (terms.map Prod.fst).Nodup) (pre : String) (hpre : pre.isEmpty = false)
    (limit : Nat) (hlimit : 1 ≤ limit) :
    let matching := terms.filter (fun e => startsWith e.1 (x.toLowercase pre))
    let out := (SuggestIndex.new terms).query x pre limit
    out.length = min limit matching.length ∧
      (out.map SuggestTerm.term).Nodup ∧
      (∀ e ∈ out, (e.term, e.score) ∈ matching) ∧
      out.Pairwise (fun a b => b.score ≤ a.score) ∧
      ∀ m ∈ matching, m.1 ∉ out.map SuggestTerm.term → ∀ e ∈ out, m.2 ≤ e.score := by
  intro matching out
  have hperm : ((SuggestIndex.new terms).terms.filter
      (fun e => startsWith e.1 (x.toLowercase pre))).Perm matching :=
    (List.perm_insertionSort _ terms).filter _
  have htop : TopK.IsTop SuggestTerm.score limit ↑out
      ↑(matching.map (fun e => (⟨e.1, e.2⟩ : SuggestTerm))) := by
    rw [← Multiset.coe_eq_coe.mpr (hperm.map _)]
    exact isTop_query hselect (pairwise_new hdistinct) hpre hlimit
  have hnodup : (matching.map Prod.fst).Nodup := hdistinct.sublist (List.filter_sublist.map _)
  have hmem : ∀ e ∈ out, (e.term, e.score) ∈ matching := by
    intro e he
    obtain ⟨m, hm, rfl⟩ := List.mem_map.mp
      (Multiset.mem_coe.mp (Multiset.mem_of_le htop.le (Multiset.mem_coe.mpr he)))
    exact hm
  refine ⟨?_, ?_, hmem, pairwise_query _ x pre limit, fun m hm hnot e he => ?_⟩
  · have hcard := htop.card_eq
    rwa [Multiset.coe_card, Multiset.coe_card, List.length_map] at hcard
  · have hle : (↑(out.map SuggestTerm.term) : Multiset String) ≤ ↑(matching.map Prod.fst) := by
      have hmap := Multiset.map_le_map (f := SuggestTerm.term) htop.le
      rwa [Multiset.map_coe, Multiset.map_coe, List.map_map] at hmap
    exact Multiset.coe_nodup.mp (Multiset.nodup_of_le hle (Multiset.coe_nodup.mpr hnodup))
  · refine htop.le_of_notMem (y := ⟨m.1, m.2⟩) ?_ (fun hin => hnot ?_) (Multiset.mem_coe.mpr he)
    · exact Multiset.mem_coe.mpr (List.mem_map_of_mem hm)
    · exact List.mem_map_of_mem (f := SuggestTerm.term) (Multiset.mem_coe.mp hin)

/-- A partial sort that sorts everything. -/
def sortedText : SuggestText :=
  { wordText with selectNth := fun _ found => found.insertionSort (fun a b => b.2 ≤ a.2) }

theorem selectsNth_sortedText : sortedText.SelectsNth := by
  intro limit found hlimit hlen
  have hperm := List.perm_insertionSort (fun a b : String × ℚ => b.2 ≤ a.2) found
  have hsorted := TopK.pairwise_insertionSort_score Prod.snd found
  refine ⟨hperm, ?_⟩
  have hout : sortedText.selectNth limit found
      = found.insertionSort (fun a b => b.2 ≤ a.2) := rfl
  rw [← hperm.length_eq] at hlen
  rw [hout]
  generalize found.insertionSort (fun a b => b.2 ≤ a.2) = out at hsorted hlen
  have hsplit : out = out.take (limit - 1) ++ out[limit - 1] :: out.drop limit := by
    have hdrop : out.drop (limit - 1) = out[limit - 1] :: out.drop (limit - 1 + 1) :=
      List.drop_eq_getElem_cons (by omega)
    rw [Nat.sub_add_cancel hlimit] at hdrop
    rw [← hdrop, List.take_append_drop]
  rw [hsplit, List.pairwise_append, List.pairwise_cons] at hsorted
  obtain ⟨-, ⟨hafter, -⟩, hbefore⟩ := hsorted
  refine ⟨out.take (limit - 1), out[limit - 1], out.drop limit, hsplit, ?_, ?_, hafter⟩
  · rw [List.length_take]
    omega
  · exact fun e he => hbefore e he _ List.mem_cons_self

/-- The better one of two terms that start with "wire". -/
theorem query_top_wire :
    let matching := [("wired", (3 : ℚ) / 5), ("wireless", 9 / 10), ("wood", 3 / 10)].filter
      (fun e => startsWith e.1 (sortedText.toLowercase "wire"))
    let out := (SuggestIndex.new [("wired", 3 / 5), ("wireless", 9 / 10), ("wood", 3 / 10)]).query
      sortedText "wire" 1
    out.length = min 1 matching.length ∧
      (out.map SuggestTerm.term).Nodup ∧
      (∀ e ∈ out, (e.term, e.score) ∈ matching) ∧
      out.Pairwise (fun a b => b.score ≤ a.score) ∧
      ∀ m ∈ matching, m.1 ∉ out.map SuggestTerm.term → ∀ e ∈ out, m.2 ≤ e.score :=
  query_top sortedText selectsNth_sortedText _ (by decide) "wire" (by decide) 1 le_rfl

end SuggestIndex

/-! ## 2. The router -/

/-- The matching terms of a shard with their scores, each term once. -/
structure ScoreTable where
  entries : List SuggestTerm
  nodup : (entries.map SuggestTerm.term).Nodup
  positive : ∀ e ∈ entries, 0 < e.score

/-- All entries of all shards. -/
def allEntries {n : Nat} (table : Fin n → ScoreTable) : List SuggestTerm :=
  (List.finRange n).flatMap (fun i => (table i).entries)

/-- The table that has, for each term, its greatest score in all shards. -/
def maxTable {n : Nat} (table : Fin n → ScoreTable) : Finset SuggestTerm :=
  ((allEntries table).filter (fun e => ∀ e' ∈ allEntries table,
    e'.term = e.term → e'.score ≤ e.score)).toFinset

/-- `Router::suggest`, whatever the shards answer. -/
def Router.suggestFrom {n : Nat} (shard : Fin n → String → String → Nat → List SuggestTerm)
    (pre field : String) (limit : Nat) : List SuggestTerm :=
  if n = 0 || pre.isEmpty || limit = 0 then []
  else
    let merged := ((List.finRange n).flatMap (fun i => shard i pre field limit)).foldl mergeEntry ∅
    ((merged.toList.map (fun e => (⟨e.1, e.2⟩ : SuggestTerm))).insertionSort RanksBefore).take limit

/-- The router over suggest engines. -/
theorem Router.suggest_eq (x : SuggestText) {n : Nat} (shard : Fin n → SuggestShardEngine)
    (pre field : String) (limit : Nat) :
    Router.suggest x ((List.finRange n).map shard) pre field limit
      = Router.suggestFrom (fun i => (shard i).suggest x) pre field limit := by
  have hnone : ((List.finRange n).map shard).isEmpty = decide (n = 0) := by
    rw [Bool.eq_iff_iff, List.isEmpty_iff, decide_eq_true_iff, List.map_eq_nil_iff,
      List.finRange_eq_nil_iff]
  rw [suggest, suggestFrom, hnone, List.flatMap_map]

section

variable {n : Nat} {table : Fin n → ScoreTable}
  {shard : Fin n → String → String → Nat → List SuggestTerm} {pre field : String} {limit : Nat}

theorem mem_allEntries {e : SuggestTerm} :
    e ∈ allEntries table ↔ ∃ i, e ∈ (table i).entries := by
  simp [allEntries]

theorem mem_maxTable {e : SuggestTerm} :
    e ∈ maxTable table ↔ IsBest (allEntries table) e.term e.score := by
  rw [maxTable, List.mem_toFinset, List.mem_filter, decide_eq_true_iff, IsBest]
  refine and_congr_left (fun _ => ⟨fun he => ⟨e, he, rfl, rfl⟩, ?_⟩)
  rintro ⟨e', he', hterm, hscore⟩
  obtain ⟨term, score⟩ := e'
  obtain rfl : term = e.term := hterm
  obtain rfl : score = e.score := hscore
  exact he'

/-- What is told about a term is at most its best score. -/
theorem exists_isBest {entries : List SuggestTerm} (hpos : ∀ e ∈ entries, 0 < e.score)
    {e : SuggestTerm} (he : e ∈ entries) :
    ∃ s, IsBest entries e.term s ∧ e.score ≤ s := by
  rcases getElem?_merged e.term entries hpos with ⟨hnone, -⟩ | ⟨s, -, hbest⟩
  · exact absurd rfl (hnone e he)
  · exact ⟨s, hbest, hbest.2 e he rfl⟩

/-- What the shards answer. -/
def toldEntries (shard : Fin n → String → String → Nat → List SuggestTerm) (pre field : String)
    (limit : Nat) : List SuggestTerm :=
  (List.finRange n).flatMap (fun i => shard i pre field limit)

theorem mem_toldEntries {e : SuggestTerm} :
    e ∈ toldEntries shard pre field limit ↔ ∃ i, e ∈ shard i pre field limit := by
  simp [toldEntries]

/-- The best of the merged terms. -/
def bestMerged (entries : List SuggestTerm) (limit : Nat) : List SuggestTerm :=
  ((mergedTerms entries).insertionSort RanksBefore).take limit

theorem isTop_bestMerged (entries : List SuggestTerm) (limit : Nat) :
    TopK.IsTop SuggestTerm.score limit ↑(bestMerged entries limit) ↑(mergedTerms entries) := by
  rw [← Multiset.coe_eq_coe.mpr (List.perm_insertionSort RanksBefore (mergedTerms entries))]
  refine TopK.isTop_take_of_pairwise ((List.pairwise_insertionSort RanksBefore _).imp ?_)
  rintro a b (hlt | ⟨heq, -⟩)
  · exact hlt.le
  · exact heq.ge

theorem nodup_bestMerged (entries : List SuggestTerm) (limit : Nat) :
    ((bestMerged entries limit).map SuggestTerm.term).Nodup := by
  have hperm := (mergedTerms entries).perm_insertionSort RanksBefore
  exact ((hperm.map SuggestTerm.term).nodup_iff.mpr (nodup_mergedTerms entries)).sublist
    ((List.take_sublist _ _).map _)

section

variable (hanswer : ∀ i, TopK.IsTop SuggestTerm.score limit ↑(shard i pre field limit)
  ↑(table i).entries)

include hanswer

theorem toldEntries_subset : toldEntries shard pre field limit ⊆ allEntries table := by
  intro e he
  obtain ⟨i, hi⟩ := mem_toldEntries.mp he
  exact mem_allEntries.mpr ⟨i, Multiset.mem_coe.mp
    (Multiset.mem_of_le (hanswer i).le (Multiset.mem_coe.mpr hi))⟩

theorem toldEntries_pos : ∀ e ∈ toldEntries shard pre field limit, 0 < e.score := by
  intro e he
  obtain ⟨i, hi⟩ := mem_allEntries.mp (toldEntries_subset hanswer he)
  exact (table i).positive e hi

/-- **A shard that is full of scores as high** makes the result full of scores as high. -/
theorem le_of_full {i : Fin n} {b : ℚ} (hfull : (shard i pre field limit).length = limit)
    (hb : ∀ e ∈ shard i pre field limit, b ≤ e.score) :
    (bestMerged (toldEntries shard pre field limit) limit).length = limit ∧
      ∀ r ∈ bestMerged (toldEntries shard pre field limit) limit, b ≤ r.score := by
  have hpos := toldEntries_pos hanswer
  -- the terms of this shard are merged with scores as high
  let many := (mergedTerms (toldEntries shard pre field limit)).filter (fun e => b ≤ e.score)
  have hsub : (shard i pre field limit).map SuggestTerm.term ⊆ many.map SuggestTerm.term := by
    intro t ht
    obtain ⟨e, he, rfl⟩ := List.mem_map.mp ht
    obtain ⟨s, hbest, hle⟩ := exists_isBest hpos (mem_toldEntries.mpr ⟨i, he⟩)
    have hmerged := (mem_mergedTerms hpos ⟨e.term, s⟩).mpr hbest
    exact List.mem_map.mpr ⟨⟨e.term, s⟩,
      List.mem_filter.mpr ⟨hmerged, decide_eq_true ((hb e he).trans hle)⟩, rfl⟩
  have hnodup : ((shard i pre field limit).map SuggestTerm.term).Nodup := by
    have hmap := Multiset.map_le_map (f := SuggestTerm.term) (hanswer i).le
    rw [Multiset.map_coe, Multiset.map_coe] at hmap
    exact Multiset.coe_nodup.mp
      (Multiset.nodup_of_le hmap (Multiset.coe_nodup.mpr (table i).nodup))
  have hcard : limit ≤ many.length := by
    have hlen := hnodup.length_le_of_subset hsub
    rwa [List.length_map, List.length_map, hfull] at hlen
  have hmany : (↑many : Multiset SuggestTerm)
      ≤ ↑(mergedTerms (toldEntries shard pre field limit)) :=
    Multiset.coe_le.mpr List.filter_sublist.subperm
  exact (isTop_bestMerged (toldEntries shard pre field limit) limit).le_of_many hmany hcard
    (fun y hy => of_decide_eq_true (List.mem_filter.mp (Multiset.mem_coe.mp hy)).2)

/-- **Nothing better is hidden.**  An entry is told, or else the result is full of scores as
high. -/
theorem told_or_le {i : Fin n} {e : SuggestTerm} (he : e ∈ (table i).entries) :
    e ∈ toldEntries shard pre field limit ∨
      (bestMerged (toldEntries shard pre field limit) limit).length = limit ∧
      ∀ r ∈ bestMerged (toldEntries shard pre field limit) limit, e.score ≤ r.score := by
  by_cases htold : e ∈ shard i pre field limit
  · exact Or.inl (mem_toldEntries.mpr ⟨i, htold⟩)
  · have hnot : e ∉ (↑(shard i pre field limit) : Multiset SuggestTerm) := htold
    refine Or.inr (le_of_full hanswer ((hanswer i).card_of_notMem he hnot) (fun e' he' => ?_))
    exact (hanswer i).le_of_notMem he hnot he'

/-- **A returned score** is the greatest one of its term in all shards. -/
theorem mem_maxTable_of_mem_bestMerged {r : SuggestTerm}
    (hr : r ∈ bestMerged (toldEntries shard pre field limit) limit) : r ∈ maxTable table := by
  have hmerged : r ∈ mergedTerms (toldEntries shard pre field limit) :=
    List.mem_insertionSort _ |>.mp (List.mem_of_mem_take hr)
  obtain ⟨⟨e, he, hterm, hscore⟩, hbest⟩ :=
    (mem_mergedTerms (toldEntries_pos hanswer) r).mp hmerged
  refine mem_maxTable.mpr ⟨⟨e, toldEntries_subset hanswer he, hterm, hscore⟩, ?_⟩
  intro e' he' hterm'
  obtain ⟨i, hi⟩ := mem_allEntries.mp he'
  rcases told_or_le hanswer hi with htold | ⟨-, hle⟩
  · exact hbest e' htold hterm'
  · exact hle r hr

/-- **The result is a choice of the best terms of all shards.** -/
theorem isTop_maxTable : TopK.IsTop SuggestTerm.score limit
    ↑(bestMerged (toldEntries shard pre field limit) limit) (maxTable table).val := by
  have htop := isTop_bestMerged (toldEntries shard pre field limit) limit
  refine TopK.isTop_of_notMem htop.1 (maxTable table).nodup ?_ (fun y hy hnot => ?_)
  · have hnodup : (bestMerged (toldEntries shard pre field limit) limit).Nodup :=
      List.Nodup.of_map _ (nodup_bestMerged _ _)
    rw [Multiset.le_iff_subset (Multiset.coe_nodup.mpr hnodup)]
    exact fun r hr => mem_maxTable_of_mem_bestMerged hanswer hr
  · obtain ⟨⟨e, he, hterm, hscore⟩, hbest⟩ := mem_maxTable.mp hy
    obtain ⟨i, hi⟩ := mem_allEntries.mp he
    rcases told_or_le hanswer hi with htold | hle
    · -- what is told of the term is its best score, so the term is merged, and left out
      have hmerged : y ∈ mergedTerms (toldEntries shard pre field limit) :=
        (mem_mergedTerms (toldEntries_pos hanswer) y).mpr ⟨⟨e, htold, hterm, hscore⟩,
          fun e' he' => hbest e' (toldEntries_subset hanswer he')⟩
      exact ⟨htop.card_of_notMem hmerged hnot, fun r hr => htop.le_of_notMem hmerged hnot hr⟩
    · rwa [hscore] at hle

/-- The router returns the best of what it is told.  It asks no shard for an empty prefix, which
no term matches. -/
theorem Router.suggestFrom_eq (hlimit : 1 ≤ limit)
    (hpre : pre.isEmpty = true → ∀ i, (table i).entries = []) :
    Router.suggestFrom shard pre field limit
      = bestMerged (toldEntries shard pre field limit) limit := by
  by_cases hnone : (decide (n = 0) || pre.isEmpty || decide (limit = 0)) = true
  · have hnil : bestMerged (toldEntries shard pre field limit) limit = [] := by
      refine List.eq_nil_iff_forall_not_mem.mpr (fun r hr => ?_)
      obtain ⟨⟨e, he, -⟩, -⟩ := mem_maxTable.mp (mem_maxTable_of_mem_bestMerged hanswer hr)
      obtain ⟨i, hi⟩ := mem_allEntries.mp he
      have hn : n ≠ 0 := Nat.ne_of_gt i.pos
      have hempty : pre.isEmpty = true := by
        simpa [hn, Nat.ne_of_gt hlimit] using hnone
      rw [hpre hempty i] at hi
      cases hi
    rw [hnil]
    exact if_pos hnone
  · exact if_neg hnone

end

end

/-- **The router returns the best `limit` terms of all shards**, if each shard returns a choice
of its own best terms: their scores are the best ones of the table that has the greatest score of
each term, and each is the greatest score of its term. -/
theorem Router.suggestFrom_top {n : Nat} (table : Fin n → ScoreTable)
    (shard : Fin n → String → String → Nat → List SuggestTerm) (pre field : String) (limit : Nat)
    (hlimit : 1 ≤ limit) (hpre : pre.isEmpty = true → ∀ i, (table i).entries = [])
    (hanswer : ∀ i, TopK.IsTop SuggestTerm.score limit ↑(shard i pre field limit)
      ↑(table i).entries) :
    let out := Router.suggestFrom shard pre field limit
    (↑(out.map SuggestTerm.score) : Multiset ℚ)
        = ↑((((maxTable table).val.map SuggestTerm.score).sort (· ≥ ·)).take limit) ∧
      (∀ e ∈ out, e ∈ maxTable table) ∧ (out.map SuggestTerm.term).Nodup ∧
      out.Pairwise RanksBefore := by
  intro out
  have hout : out = bestMerged (toldEntries shard pre field limit) limit :=
    Router.suggestFrom_eq hanswer hlimit hpre
  have htop := (isTop_maxTable hanswer).eq_take_sort
  rw [hout]
  refine ⟨?_, fun e he => mem_maxTable_of_mem_bestMerged hanswer he, nodup_bestMerged _ _, ?_⟩
  · rw [← htop, Multiset.map_coe]
  · exact (List.pairwise_insertionSort RanksBefore _).sublist (List.take_sublist _ _)

/-- Two shards, of which the first one does not tell its score for "wallet". -/
def twoTables : Fin 2 → ScoreTable
  | 0 => ⟨[⟨"watch", 3⟩, ⟨"wallet", 1⟩], by decide, by decide⟩
  | 1 => ⟨[⟨"wallet", 2⟩], by decide, by decide⟩

theorem Router.suggestFrom_top_twoTables :
    let out := Router.suggestFrom (fun i _ _ limit => (twoTables i).entries.take limit) "wa" "" 1
    (↑(out.map SuggestTerm.score) : Multiset ℚ)
        = ↑((((maxTable twoTables).val.map SuggestTerm.score).sort (· ≥ ·)).take 1) ∧
      (∀ e ∈ out, e ∈ maxTable twoTables) ∧ (out.map SuggestTerm.term).Nodup ∧
      out.Pairwise RanksBefore :=
  Router.suggestFrom_top twoTables _ "wa" "" 1 le_rfl (fun hempty => absurd hempty (by decide))
    (fun i => TopK.isTop_take_of_pairwise (by revert i; decide))

/-! ## 3. The cluster -/

/-- The terms of an index that have the prefix. -/
def SuggestIndex.table (idx : SuggestIndex) (x : SuggestText) (pre : String)
    (hsorted : idx.terms.Pairwise (fun a b => a.1 < b.1))
    (hpositive : ∀ e ∈ idx.terms, 0 < e.2) : ScoreTable where
  entries := (idx.terms.filter (fun e => startsWith e.1 (x.toLowercase pre))).map
    (fun e => ⟨e.1, e.2⟩)
  nodup := by
    rw [List.map_map]
    exact (List.pairwise_map.mpr (hsorted.imp ne_of_lt)).sublist (List.filter_sublist.map _)
  positive := by
    intro e he
    obtain ⟨m, hm, rfl⟩ := List.mem_map.mp he
    exact hpositive m (List.mem_of_mem_filter hm)

/-- **The suggest shards and the router together** lose no top entry, whatever the shards have
indexed. -/
theorem Router.isTop_suggest {x : SuggestText} (hselect : x.SelectsNth) {n : Nat}
    (engine : Fin n → SuggestShardEngine)
    (hsorted : ∀ i, (engine i).index.terms.Pairwise (fun a b => a.1 < b.1))
    (hpositive : ∀ i, ∀ e ∈ (engine i).index.terms, 0 < e.2) {pre : String}
    (hpre : pre.isEmpty = false) (field : String) {limit : Nat} (hlimit : 1 ≤ limit) :
    TopK.IsTop SuggestTerm.score limit
      ↑(Router.suggest x ((List.finRange n).map engine) pre field limit)
      (maxTable (fun i => (engine i).index.table x pre (hsorted i) (hpositive i))).val := by
  have hanswer : ∀ i, TopK.IsTop SuggestTerm.score limit
      ↑((engine i).suggest x pre field limit)
      ↑((engine i).index.table x pre (hsorted i) (hpositive i)).entries :=
    fun i => SuggestIndex.isTop_query hselect (hsorted i) hpre hlimit
  have hasked : ¬ pre.isEmpty = true := by simp [hpre]
  rw [Router.suggest_eq, Router.suggestFrom_eq hanswer hlimit (fun hempty => absurd hempty hasked)]
  exact isTop_maxTable hanswer

end ZearchEngine
