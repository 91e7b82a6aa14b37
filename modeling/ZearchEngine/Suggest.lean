/-
# Suggestions

The suggest shards (`crates/suggest`) and the router's side of them: `fan_out_suggest_write`,
`suggest` (`crates/router/src/router.rs`) and `jump_consistent_hash` (`routing.rs`).  A shard
counts the documents that have a term, and scores the term by its count over that of its own
most frequent term.  The router gives a term the highest of its scores.

So what decides the rank of a term is its share in the shard where that is greatest, and not the
number of documents that have it (`ranked_iff_sharesAgree`): by the counts alone, with the
quotients multiplied out, as far as `f32` tells them apart (`ranked_iff`).  A single shard ranks
by frequency (`sharesAgree_of_one`), and two shards need not (`not_ranked_wallet`).

Tokenizer, lower-casing, the quotient of two counts in `f32` and the orders in which a partial
sort leaves its elements and a `HashMap` is iterated are parameters.
-/
import ZearchEngine.Lib.Arrangement
import ZearchEngine.Lib.PrefixRange
import ZearchEngine.Schema
import Mathlib.Algebra.Order.Field.Rat
import Mathlib.Data.Fintype.Lattice
import Mathlib.Data.Fintype.EquivFin
import Mathlib.Data.List.Dedup
import Mathlib.Data.List.Induction
import Mathlib.Data.List.Pairwise
import Mathlib.Data.List.Perm.Subperm
import Mathlib.Data.List.Sort
import Mathlib.Data.String.Basic
import Std.Data.TreeMap.Lemmas

namespace ZearchEngine

/-! ## 1. Counting terms -/

/-- What the suggest shards use of other crates and of the standard library. -/
structure SuggestText where
  /-- `analyze_to_terms`: words in lower case, not stemmed. -/
  analyzeToTerms : String → List String
  toLowercase : String → String
  /-- `select_nth_unstable_by(limit - 1)`, by descending score. -/
  selectNth : Nat → List (String × ℚ) → List (String × ℚ)
  /-- The order in which the `HashMap` of the counts is iterated. -/
  countsOrder : Arrangement (String × Nat)
  /-- `count as f32 / max_freq as f32`. -/
  ratio : Nat → Nat → ℚ
  ratio_zero : ∀ maxFreq, ratio 0 maxFreq = 0
  ratio_pos : ∀ {count maxFreq}, 0 < count → 0 < maxFreq → 0 < ratio count maxFreq
  /-- Counts below `2 ^ 12` are exact, and so is the order of their quotients up to one, which
  differ by more than `2 ^ -24`. -/
  ratio_eq : ∀ {a m b n}, 0 < m → 0 < n → m < 2 ^ 12 → n < 2 ^ 12 → a ≤ m → b ≤ n →
    a * n = b * m → ratio a m = ratio b n
  ratio_lt : ∀ {a m b n}, 0 < m → 0 < n → m < 2 ^ 12 → n < 2 ^ 12 → a ≤ m → b ≤ n →
    a * n < b * m → ratio a m < ratio b n
  /-- The two conversions and the division are each off by a part in `2 ^ 24` at most. -/
  ratio_lt_of_lead : ∀ {a m b n}, 0 < m → 0 < n →
    a * n * (2 ^ 21 + 1) < b * m * 2 ^ 21 → ratio a m < ratio b n

structure SuggestShardConfig where
  /-- Drop terms with a lower count. -/
  minDocFrequency : Nat
  /-- Upper bound on terms kept per shard; 0 is none. -/
  maxTermsPerShard : Nat
  /-- Fields tokenized for suggest. -/
  fields : List String

structure SuggestTerm where
  term : String
  score : ℚ
deriving DecidableEq

/-- `extract_field`. -/
def extractField (doc : Document) (field : String) : String :=
  if field = "title" then doc.title
  else if field = "description" then doc.description
  else if field = "category" then doc.category
  else
    match doc.attributes.get field with
    | some (.string s) => s
    | some (.stringArray v) => " ".intercalate v
    | _ => ""

/-- `HashMap<Arc<str>, u32>`, of counts that do not overflow. -/
abbrev TermCounts := Std.TreeMap String Nat

section

variable (x : SuggestText) (fields : List String)

/-- The terms of one field, each once. -/
def fieldTerms (doc : Document) (field : String) : List String :=
  let text := extractField doc field
  if text.isEmpty then [] else (x.analyzeToTerms text).dedup.filter (fun t => !t.isEmpty)

/-- The terms a document counts for: once for each field that has them. -/
def suggestTerms (doc : Document) : List String := fields.flatMap (fieldTerms x doc)

/-- One more document for a term. -/
def countTerm (counts : TermCounts) (t : String) : TermCounts :=
  counts.alter t (fun c => some (c.getD 0 + 1))

/-- `SuggestIndexBuilder::add_document`. -/
def SuggestIndexBuilder.addDocument (counts : TermCounts) (doc : Document) : TermCounts :=
  (suggestTerms x fields doc).foldl countTerm counts

end

/-! ## 2. The index of a shard -/

/-- `SuggestIndex`: the terms with their scores, in the order of the terms. -/
structure SuggestIndex where
  terms : List (String × ℚ)

/-- `SuggestIndex::new`. -/
def SuggestIndex.new (terms : List (String × ℚ)) : SuggestIndex where
  terms := terms.insertionSort (fun a b => a.1 ≤ b.1)

/-- `SuggestIndexBuilder::snapshot`. -/
def SuggestIndexBuilder.snapshot (x : SuggestText) (counts : TermCounts)
    (minDocFrequency maxTerms : Nat) : SuggestIndex :=
  let filtered := (x.countsOrder.run counts.toList).filter (fun e => minDocFrequency ≤ e.2)
  let filtered :=
    if 0 < maxTerms ∧ maxTerms < filtered.length then
      (filtered.insertionSort (fun a b => b.2 ≤ a.2)).take maxTerms
    else filtered
  let maxFreq := max ((filtered.map Prod.snd).max?.getD 1) 1
  .new (filtered.map (fun e => (e.1, x.ratio e.2 maxFreq)))

/-- `SuggestIndex::query`. -/
def SuggestIndex.query (x : SuggestText) (idx : SuggestIndex) (pre : String) (limit : Nat) :
    List SuggestTerm :=
  if pre.isEmpty || limit = 0 then []
  else
    let prefixLower := x.toLowercase pre
    -- `partition_point`, then `take_while`
    let found := (idx.terms.dropWhile (fun e => e.1 < prefixLower)).takeWhile
      (fun e => startsWith e.1 prefixLower)
    let top := if limit < found.length then (x.selectNth limit found).take limit else found
    (top.insertionSort (fun a b => b.2 ≤ a.2)).map (fun e => ⟨e.1, e.2⟩)

/-- In-memory, lossy suggest engine: the write buffer, and the queryable index. -/
structure SuggestShardEngine where
  config : SuggestShardConfig
  builder : TermCounts
  index : SuggestIndex

namespace SuggestShardEngine

/-- `new`. -/
def new (config : SuggestShardConfig) : SuggestShardEngine := ⟨config, ∅, ⟨[]⟩⟩

/-- `bulk`. -/
def bulk (x : SuggestText) (s : SuggestShardEngine) (docs : List Document) : SuggestShardEngine :=
  { s with
    builder := docs.foldl (SuggestIndexBuilder.addDocument x s.config.fields) s.builder }

/-- `flush`: the builder is not cleared. -/
def flush (x : SuggestText) (s : SuggestShardEngine) : SuggestShardEngine :=
  { s with
    index := SuggestIndexBuilder.snapshot x s.builder s.config.minDocFrequency
      s.config.maxTermsPerShard }

/-- `suggest`: the field is not looked at. -/
def suggest (x : SuggestText) (s : SuggestShardEngine) (pre _field : String) (limit : Nat) :
    List SuggestTerm :=
  s.index.query x pre limit

end SuggestShardEngine

/-! ## 3. The router -/

/-- The loop of `jump_consistent_hash`.  The quotient of the source is one of `f64`s, exact as
long as the number of buckets is below `2 ^ 22` (`Routing.lean` has it rounded). -/
def jumpLoop (numBuckets : Nat) : Nat → UInt64 → Nat → Nat → Nat
  | 0, _, b, _ => b
  | fuel + 1, k, b, j =>
    if j < numBuckets then
      let k := k * 2862933555777941757 + 1
      jumpLoop numBuckets fuel k j ((j + 1) * 2 ^ 31 / ((k >>> 33).toNat + 1))
    else b

/-- `jump_consistent_hash`, of at least one bucket. -/
def jumpConsistentHash (key : UInt64) (numBuckets : Nat) : Nat :=
  jumpLoop numBuckets numBuckets key 0 0

/-- The merge of `suggest`, by the highest score of a term. -/
def mergeEntry (merged : Std.TreeMap String ℚ) (e : SuggestTerm) : Std.TreeMap String ℚ :=
  merged.alter e.term (fun slot =>
    let s := slot.getD 0
    some (if s < e.score then e.score else s))

/-- The final order: by score, descending, then by term. -/
def RanksBefore (a b : SuggestTerm) : Prop :=
  b.score < a.score ∨ (a.score = b.score ∧ a.term ≤ b.term)

instance : DecidableRel RanksBefore := fun _ _ => inferInstanceAs (Decidable (_ ∨ _))

/-- `Router::suggest`, where all shards answer in time. -/
def Router.suggest (x : SuggestText) (suggestShards : List SuggestShardEngine)
    (pre field : String) (limit : Nat) : List SuggestTerm :=
  if suggestShards.isEmpty || pre.isEmpty || limit = 0 then []
  else
    let merged := (suggestShards.flatMap (fun s => s.suggest x pre field limit)).foldl mergeEntry ∅
    ((merged.toList.map (fun e => (⟨e.1, e.2⟩ : SuggestTerm))).insertionSort RanksBefore).take limit

/-- The suggest shards once each has received its documents and has been flushed. -/
def suggestCluster (x : SuggestText) (config : SuggestShardConfig) {n : Nat}
    (received : Fin n → List Document) : List SuggestShardEngine :=
  (List.finRange n).map (fun i => ((SuggestShardEngine.new config).bulk x (received i)).flush x)

/-- `fan_out_suggest_write`: what is meant for a shard. -/
def suggestPartition {n : Nat} (shardFor : DocId → Fin n) (docs : List Document) (i : Fin n) :
    List Document :=
  docs.filter (fun d => shardFor d.id = i)

/-! ## 4. Frequencies -/

section

variable (x : SuggestText) (fields : List String)

/-- All terms of some documents, as often as they are counted. -/
def allTerms (docs : List Document) : List String := docs.flatMap (suggestTerms x fields)

/-- How often a term is counted. -/
def termCount (docs : List Document) (t : String) : Nat := (allTerms x fields docs).count t

/-- How often the most frequent term is counted; 1 if there is none. -/
def topCount (docs : List Document) : Nat :=
  ((allTerms x fields docs).map (termCount x fields docs)).max?.getD 1

/-- The share of a term in the count of the most frequent one. -/
def termShare (docs : List Document) (t : String) : ℚ :=
  x.ratio (termCount x fields docs t) (topCount x fields docs)

/-- The number of documents that have a term. -/
def documentFrequency (docs : List Document) (t : String) : Nat :=
  (docs.filter (fun d => t ∈ suggestTerms x fields d)).length

/-- The terms of some documents that match a prefix, each once.  An empty prefix matches none. -/
def matchingTerms (docs : List Document) (pre : String) : List String :=
  ((allTerms x fields docs).dedup).filter
    (fun t => !pre.isEmpty && startsWith t (x.toLowercase pre))

/-- All matching terms, none twice, and none with a lower document frequency before one with a
higher. -/
structure RankedByFrequency (corpus : List Document) (pre : String) (out : List SuggestTerm) :
    Prop where
  nodup : (out.map SuggestTerm.term).Nodup
  complete : ∀ t, t ∈ out.map SuggestTerm.term ↔ t ∈ matchingTerms x fields corpus pre
  ordered : out.Pairwise (fun a b =>
    documentFrequency x fields corpus b.term ≤ documentFrequency x fields corpus a.term)

/-- Of two matching terms, the one in more documents has, in some shard, a higher score than the
other has anywhere; or as high a one, if it comes first in the alphabet. -/
def SharesAgree {n : Nat} (corpus : List Document) (received : Fin n → List Document)
    (pre : String) : Prop :=
  ∀ t ∈ matchingTerms x fields corpus pre, ∀ u ∈ matchingTerms x fields corpus pre,
    documentFrequency x fields corpus u < documentFrequency x fields corpus t →
    ∃ i, ∀ j, termShare x fields (received j) u < termShare x fields (received i) t ∨
      (termShare x fields (received j) u = termShare x fields (received i) t ∧ t < u)

/-- The count of a term on one shard, times the count of the most frequent term on another. -/
def weighed (docs docs' : List Document) (t : String) : Nat :=
  termCount x fields docs t * topCount x fields docs'

/-- Of two matching terms, the one in more documents has on some shard a count that is, beside
that shard's most frequent term, greater than the other's on any shard; or as great, if it comes
first in the alphabet. -/
def CountsAgree {n : Nat} (corpus : List Document) (received : Fin n → List Document)
    (pre : String) : Prop :=
  ∀ t ∈ matchingTerms x fields corpus pre, ∀ u ∈ matchingTerms x fields corpus pre,
    documentFrequency x fields corpus u < documentFrequency x fields corpus t →
    ∃ i, ∀ j, weighed x fields (received j) (received i) u
        < weighed x fields (received i) (received j) t ∨
      (weighed x fields (received j) (received i) u
        = weighed x fields (received i) (received j) t ∧ t < u)

/-- The same, with a lead of more than a part in `2 ^ 21`. -/
def CountsLead {n : Nat} (corpus : List Document) (received : Fin n → List Document)
    (pre : String) : Prop :=
  ∀ t ∈ matchingTerms x fields corpus pre, ∀ u ∈ matchingTerms x fields corpus pre,
    documentFrequency x fields corpus u < documentFrequency x fields corpus t →
    ∃ i, ∀ j, weighed x fields (received j) (received i) u * (2 ^ 21 + 1)
      < weighed x fields (received i) (received j) t * 2 ^ 21

/-- The same, with a lag of no more than a part in `2 ^ 21`. -/
def CountsKeepUp {n : Nat} (corpus : List Document) (received : Fin n → List Document)
    (pre : String) : Prop :=
  ∀ t ∈ matchingTerms x fields corpus pre, ∀ u ∈ matchingTerms x fields corpus pre,
    documentFrequency x fields corpus u < documentFrequency x fields corpus t →
    ∃ i, ∀ j, weighed x fields (received j) (received i) u * 2 ^ 21
      ≤ weighed x fields (received i) (received j) t * (2 ^ 21 + 1)

end

/-! ## 5. What a shard knows -/

section

variable {x : SuggestText} {fields : List String} {docs : List Document} {t : String}

theorem getElem?_countTerm (counts : TermCounts) (t t' : String) :
    (countTerm counts t)[t']?
      = if t = t' then some ((counts[t]?).getD 0 + 1) else counts[t']? := by
  rw [countTerm, Std.TreeMap.getElem?_alter]
  simp only [Std.LawfulEqCmp.compare_eq_iff_eq]

theorem getElem?_foldl_countTerm (t : String) : ∀ (ts : List String) (counts : TermCounts),
    (ts.foldl countTerm counts)[t]?
      = if t ∈ ts then some ((counts[t]?).getD 0 + ts.count t) else counts[t]?
  | [], _ => by simp
  | t' :: ts, counts => by
    rw [List.foldl_cons, getElem?_foldl_countTerm t ts, getElem?_countTerm]
    by_cases ht : t' = t
    · subst ht
      by_cases hmem : t' ∈ ts
      · simp only [hmem, if_true, List.mem_cons, or_true, Option.getD_some, List.count_cons_self]
        exact congrArg some (by omega)
      · simp [hmem, List.count_eq_zero_of_not_mem hmem]
    · simp [ht, Ne.symm ht]

/-- **The counts of a shard.** -/
theorem getElem?_builder (x : SuggestText) (fields : List String) (docs : List Document)
    (t : String) :
    (docs.foldl (SuggestIndexBuilder.addDocument x fields) ∅)[t]?
      = if t ∈ allTerms x fields docs then some (termCount x fields docs t) else none := by
  have hfold : docs.foldl (SuggestIndexBuilder.addDocument x fields) ∅
      = (allTerms x fields docs).foldl countTerm ∅ := by
    rw [allTerms, List.foldl_flatMap]
    rfl
  rw [hfold, getElem?_foldl_countTerm]
  simp [termCount]

theorem termCount_pos (h : t ∈ allTerms x fields docs) : 0 < termCount x fields docs t :=
  List.count_pos_iff.mpr h

theorem max?_congr {l l' : List Nat} (h : ∀ n, n ∈ l ↔ n ∈ l') : l.max? = l'.max? := by
  cases hl : l.max? with
  | none =>
    have hnil := List.max?_eq_none_iff.mp hl
    have hnil' : l' = [] := List.eq_nil_iff_forall_not_mem.mpr fun n hn => by
      simpa [hnil] using (h n).mpr hn
    rw [hnil']
    rfl
  | some m =>
    obtain ⟨hmem, hmax⟩ := List.max?_eq_some_iff.mp hl
    exact (List.max?_eq_some_iff.mpr ⟨(h m).mp hmem, fun n hn => hmax n ((h n).mpr hn)⟩).symm

theorem topCount_pos (x : SuggestText) (fields : List String) (docs : List Document) :
    0 < topCount x fields docs := by
  rw [topCount]
  cases hmax : ((allTerms x fields docs).map (termCount x fields docs)).max? with
  | none => exact Nat.one_pos
  | some m =>
    obtain ⟨t, ht, rfl⟩ := List.mem_map.mp (List.max?_eq_some_iff.mp hmax).1
    exact termCount_pos ht

/-- The entries of the counts: every term with its count. -/
theorem mem_toList_builder (x : SuggestText) (fields : List String) (docs : List Document)
    (t : String) (c : Nat) :
    (t, c) ∈ (docs.foldl (SuggestIndexBuilder.addDocument x fields) ∅).toList ↔
      t ∈ allTerms x fields docs ∧ c = termCount x fields docs t := by
  rw [Std.TreeMap.mem_toList_iff_getElem?_eq_some, getElem?_builder]
  split
  · next ht => simp [ht, eq_comm]
  · next ht => simp [ht]

/-- The highest count. -/
theorem max_builder (x : SuggestText) (fields : List String) (docs : List Document) :
    max (((docs.foldl (SuggestIndexBuilder.addDocument x fields) ∅).toList.map
      Prod.snd).max?.getD 1) 1 = topCount x fields docs := by
  have hvalues : ((docs.foldl (SuggestIndexBuilder.addDocument x fields) ∅).toList.map
      Prod.snd).max? = ((allTerms x fields docs).map (termCount x fields docs)).max? := by
    refine max?_congr fun n => ?_
    simp only [List.mem_map, Prod.exists, exists_eq_right, mem_toList_builder]
    exact exists_congr fun t => and_congr_right fun _ => eq_comm
  rw [hvalues]
  exact max_eq_left (topCount_pos x fields docs)

/-- The shard of some documents, after a flush. -/
def flushedShard (x : SuggestText) (fields : List String) (docs : List Document) :
    SuggestShardEngine :=
  ((SuggestShardEngine.new ⟨1, 0, fields⟩).bulk x docs).flush x

/-- **The index of a shard**: its terms in order, each with its share of the top count. -/
theorem index_flushedShard (x : SuggestText) (fields : List String) (docs : List Document) :
    (flushedShard x fields docs).index.terms.Pairwise (fun a b => a.1 < b.1) ∧
    ∀ t s, (t, s) ∈ (flushedShard x fields docs).index.terms ↔ t ∈ allTerms x fields docs ∧
      s = termShare x fields docs t := by
  let counts := docs.foldl (SuggestIndexBuilder.addDocument x fields) ∅
  let score := fun e : String × Nat => (e.1, x.ratio e.2 (topCount x fields docs))
  have hall : (x.countsOrder.run counts.toList).filter (fun e => 1 ≤ e.2)
      = x.countsOrder.run counts.toList := by
    refine List.filter_eq_self.mpr fun e he => decide_eq_true ?_
    obtain ⟨ht, hc⟩ := (mem_toList_builder x fields docs e.1 e.2).mp (x.countsOrder.mem_run.mp he)
    rw [hc]
    exact termCount_pos ht
  have hmax : max (((x.countsOrder.run counts.toList).map Prod.snd).max?.getD 1) 1
      = topCount x fields docs := by
    rw [← max_builder]
    refine congrArg (fun m : Option Nat => max (m.getD 1) 1) (max?_congr fun n => ?_)
    exact ((x.countsOrder.perm _).map Prod.snd).mem_iff
  have hterms : (flushedShard x fields docs).index.terms
      = ((x.countsOrder.run counts.toList).map score).insertionSort (fun a b => a.1 ≤ b.1) := by
    show ((((x.countsOrder.run counts.toList).filter (fun e => 1 ≤ e.2)).map (fun e =>
      (e.1, x.ratio e.2 (max ((((x.countsOrder.run counts.toList).filter
        (fun e => 1 ≤ e.2)).map Prod.snd).max?.getD 1) 1)))).insertionSort _) = _
    rw [hall, hmax]
  have hsorted : (counts.toList.map score).Pairwise (fun a b => a.1 < b.1) := by
    rw [List.pairwise_map]
    exact Std.TreeMap.ordered_keys_toList.imp fun hlt => compare_lt_iff_lt.mp hlt
  -- whatever the order of the map, the terms end up in theirs
  have hself : ((x.countsOrder.run counts.toList).map score).insertionSort (fun a b => a.1 ≤ b.1)
      = counts.toList.map score := by
    have hperm := (List.perm_insertionSort (fun a b : String × ℚ => a.1 ≤ b.1)
      ((x.countsOrder.run counts.toList).map score)).trans ((x.countsOrder.perm _).map score)
    refine hperm.eq_of_pairwise (fun a b ha hb hab hba => ?_)
      (List.pairwise_insertionSort _ _) (hsorted.imp fun hlt => le_of_lt hlt)
    have hkey := List.pairwise_map.mpr (hsorted.imp ne_of_lt)
    exact List.inj_on_of_nodup_map hkey (hperm.mem_iff.mp ha) hb (le_antisymm hab hba)
  rw [hterms, hself]
  refine ⟨hsorted, fun t s => ?_⟩
  simp only [counts, score, List.mem_map, Prod.mk.injEq, Prod.exists, mem_toList_builder]
  constructor
  · rintro ⟨t', c, ⟨ht, rfl⟩, rfl, rfl⟩
    exact ⟨ht, rfl⟩
  · rintro ⟨ht, rfl⟩
    exact ⟨t, _, ⟨ht, rfl⟩, rfl, rfl⟩

/-- **Looking for a prefix** in terms that are in order finds all that have it. -/
theorem scan_terms {terms : List (String × ℚ)} (hsorted : terms.Pairwise (fun a b => a.1 < b.1))
    (prefixLower : String) :
    (terms.dropWhile (fun e => e.1 < prefixLower)).takeWhile (fun e => startsWith e.1 prefixLower)
      = terms.filter (fun e => startsWith e.1 prefixLower) :=
  PrefixRange.scan_eq_filter (fun e : String × ℚ => e.1.toList) prefixLower.toList
    (hsorted.imp String.lt_iff.mp)

/-- **What a shard suggests**, if it has no more than `limit` matching terms. -/
theorem mem_suggest {pre field : String} {limit : Nat} (hpre : pre.isEmpty = false)
    (hroom : (((allTerms x fields docs).dedup).filter
      (fun t => startsWith t (x.toLowercase pre))).length ≤ limit) (e : SuggestTerm) :
    e ∈ (flushedShard x fields docs).suggest x pre field limit ↔
      e.term ∈ allTerms x fields docs ∧ startsWith e.term (x.toLowercase pre) = true ∧
        e.score = termShare x fields docs e.term := by
  obtain ⟨hsorted, hmem⟩ := index_flushedShard x fields docs
  have hscan := scan_terms hsorted (x.toLowercase pre)
  have hlen : ((flushedShard x fields docs).index.terms.filter
      (fun e => startsWith e.1 (x.toLowercase pre))).length ≤ limit := by
    refine le_trans ?_ hroom
    rw [← List.length_map (f := Prod.fst)]
    have hnodup : (((flushedShard x fields docs).index.terms.filter
        (fun e => startsWith e.1 (x.toLowercase pre))).map Prod.fst).Nodup :=
      (List.pairwise_map.mpr (hsorted.imp ne_of_lt)).sublist (List.filter_sublist.map _)
    refine hnodup.length_le_of_subset fun t ht => ?_
    obtain ⟨⟨t', s⟩, he, rfl⟩ := List.mem_map.mp ht
    obtain ⟨he, hstarts⟩ := List.mem_filter.mp he
    exact List.mem_filter.mpr ⟨List.mem_dedup.mpr ((hmem t' s).mp he).1, hstarts⟩
  rw [SuggestShardEngine.suggest, SuggestIndex.query]
  by_cases hlimit : limit = 0
  · -- no room, so no term matches
    have hnone : (flushedShard x fields docs).index.terms.filter
        (fun e => startsWith e.1 (x.toLowercase pre)) = [] :=
      List.eq_nil_of_length_eq_zero (by omega)
    rw [if_pos (by simp [hlimit])]
    refine iff_of_false List.not_mem_nil fun ⟨ht, hstarts, hscore⟩ => ?_
    exact List.filter_eq_nil_iff.mp hnone (e.term, e.score) ((hmem _ _).mpr ⟨ht, hscore⟩) hstarts
  · rw [if_neg (by simp [hlimit, hpre])]
    simp only [hscan, if_neg (not_lt.mpr hlen), List.mem_map, List.mem_insertionSort,
      List.mem_filter, Prod.exists, hmem]
    constructor
    · rintro ⟨t, s, ⟨⟨ht, rfl⟩, hstarts⟩, rfl⟩
      exact ⟨ht, hstarts, rfl⟩
    · rintro ⟨ht, hstarts, hscore⟩
      exact ⟨e.term, e.score, ⟨⟨ht, hscore⟩, hstarts⟩, rfl⟩

/-! ## 6. What the router makes of it -/

theorem getElem?_mergeEntry (merged : Std.TreeMap String ℚ) (e : SuggestTerm) (t : String) :
    (mergeEntry merged e)[t]?
      = if e.term = t then some (max ((merged[t]?).getD 0) e.score) else merged[t]? := by
  rw [mergeEntry, Std.TreeMap.getElem?_alter]
  simp only [Std.LawfulEqCmp.compare_eq_iff_eq]
  by_cases ht : e.term = t
  · subst ht
    rw [if_pos rfl, if_pos rfl, max_def_lt]
  · rw [if_neg ht, if_neg ht]

/-- The highest score of a term among some entries. -/
def IsBest (entries : List SuggestTerm) (t : String) (s : ℚ) : Prop :=
  (∃ e ∈ entries, e.term = t ∧ e.score = s) ∧ ∀ e ∈ entries, e.term = t → e.score ≤ s

/-- **The merge keeps the highest score of each term.** -/
theorem getElem?_merged (t : String) : ∀ entries : List SuggestTerm,
    (∀ e ∈ entries, 0 < e.score) →
    ((∀ e ∈ entries, e.term ≠ t) ∧ (entries.foldl mergeEntry ∅)[t]? = none) ∨
      ∃ s, (entries.foldl mergeEntry ∅)[t]? = some s ∧ IsBest entries t s := by
  intro entries
  induction entries using List.reverseRecOn with
  | nil => exact fun _ => Or.inl ⟨by simp, by simp⟩
  | append_singleton entries e ih =>
    intro hpos
    have hold := ih fun e he => hpos e (List.mem_append_left _ he)
    rw [List.foldl_append, List.foldl_cons, List.foldl_nil, getElem?_mergeEntry]
    by_cases ht : e.term = t
    · rw [if_pos ht]
      refine Or.inr ⟨_, rfl, ?_⟩
      rcases hold with ⟨hnone, hget⟩ | ⟨s, hget, ⟨e', he', hterm, hscore⟩, hle⟩
      · rw [hget, Option.getD_none, max_eq_right (hpos e (by simp)).le]
        refine ⟨⟨e, by simp, ht, rfl⟩, fun e' he' hterm => ?_⟩
        rcases List.mem_append.mp he' with hmem | hmem
        · exact absurd hterm (hnone e' hmem)
        · rw [List.mem_singleton.mp hmem]
      · rw [hget, Option.getD_some]
        refine ⟨?_, fun e'' he'' hterm'' => ?_⟩
        · rcases le_total s e.score with hse | hse
          · exact ⟨e, by simp, ht, (max_eq_right hse).symm⟩
          · exact ⟨e', List.mem_append_left _ he', hterm, hscore.trans (max_eq_left hse).symm⟩
        · rcases List.mem_append.mp he'' with hmem | hmem
          · exact le_max_of_le_left (hle e'' hmem hterm'')
          · rw [List.mem_singleton.mp hmem]
            exact le_max_right _ _
    · rw [if_neg ht]
      rcases hold with ⟨hnone, hget⟩ | ⟨s, hget, ⟨e', he', hterm, hscore⟩, hle⟩
      · refine Or.inl ⟨fun e' he' => ?_, hget⟩
        rcases List.mem_append.mp he' with hmem | hmem
        · exact hnone e' hmem
        · rwa [List.mem_singleton.mp hmem]
      · refine Or.inr ⟨s, hget, ⟨e', List.mem_append_left _ he', hterm, hscore⟩,
          fun e'' he'' hterm'' => ?_⟩
        rcases List.mem_append.mp he'' with hmem | hmem
        · exact hle e'' hmem hterm''
        · rw [List.mem_singleton.mp hmem] at hterm''
          exact absurd hterm'' ht

theorem mem_merged {entries : List SuggestTerm} (hpos : ∀ e ∈ entries, 0 < e.score) (t : String)
    (s : ℚ) : (t, s) ∈ (entries.foldl mergeEntry ∅).toList ↔ IsBest entries t s := by
  rw [Std.TreeMap.mem_toList_iff_getElem?_eq_some]
  rcases getElem?_merged t entries hpos with ⟨hnone, hget⟩ | ⟨s', hget, hbest⟩
  · rw [hget]
    exact iff_of_false (by simp) fun ⟨⟨e, he, hterm, _⟩, _⟩ => hnone e he hterm
  · rw [hget, Option.some.injEq]
    constructor
    · rintro rfl
      exact hbest
    · rintro ⟨⟨e, he, hterm, rfl⟩, hle⟩
      obtain ⟨⟨e', he', hterm', rfl⟩, hle'⟩ := hbest
      exact le_antisymm (hle e' he' hterm') (hle' e he hterm)

instance : Std.Total RanksBefore where
  total a b := by
    rcases lt_trichotomy b.score a.score with hlt | heq | hlt
    · exact Or.inl (Or.inl hlt)
    · exact (le_total a.term b.term).imp (fun h => Or.inr ⟨heq.symm, h⟩) (fun h => Or.inr ⟨heq, h⟩)
    · exact Or.inr (Or.inl hlt)

instance : IsTrans SuggestTerm RanksBefore where
  trans a b c := by
    rintro (hab | ⟨hab, hterm⟩) (hbc | ⟨hbc, hterm'⟩)
    · exact Or.inl (hbc.trans hab)
    · exact Or.inl (hbc ▸ hab)
    · exact Or.inl (hab ▸ hbc)
    · exact Or.inr ⟨hab.trans hbc, hterm.trans hterm'⟩

theorem eq_term_of_ranksBefore {a b : SuggestTerm} (hab : RanksBefore a b)
    (hba : RanksBefore b a) : a.term = b.term := by
  rcases hab with hlt | ⟨heq, hle⟩
  · rcases hba with hlt' | ⟨heq', -⟩
    · exact absurd hlt' hlt.asymm
    · exact absurd heq' hlt.ne
  · rcases hba with hlt' | ⟨-, hle'⟩
    · exact absurd heq hlt'.ne
    · exact le_antisymm hle hle'

/-- **A list in the final order is ranked by a frequency** exactly if the order agrees with the
frequency, for any two of its terms. -/
theorem pairwise_frequency_iff {out : List SuggestTerm} (hsorted : out.Pairwise RanksBefore)
    (hnodup : (out.map SuggestTerm.term).Nodup) (df : String → Nat) :
    out.Pairwise (fun a b => df b.term ≤ df a.term) ↔
      ∀ a ∈ out, ∀ b ∈ out, df b.term < df a.term → RanksBefore a b := by
  constructor
  · intro hranked a ha b hb hlt
    let Both (a b : SuggestTerm) : Prop := RanksBefore a b ∧ df b.term ≤ df a.term
    have hboth : out.Pairwise (fun a b => Both a b ∨ Both b a) :=
      (hsorted.and hranked).imp Or.inl
    have hsymm : Std.Symm (fun a b => Both a b ∨ Both b a) := ⟨fun a b h => h.symm⟩
    have hne : a ≠ b := by
      rintro rfl
      exact Nat.lt_irrefl _ hlt
    rcases hboth.forall ha hb hne with ⟨hab, -⟩ | ⟨-, hle⟩
    · exact hab
    · exact absurd hlt hle.not_gt
  · intro hagree
    have hne : out.Pairwise (fun a b => a.term ≠ b.term) := List.pairwise_map.mp hnodup
    refine (hsorted.and hne).imp_of_mem fun {a b} ha hb ⟨hab, hterm⟩ => ?_
    by_contra hlt
    exact hterm (eq_term_of_ranksBefore hab (hagree b hb a ha (not_le.mp hlt)))

/-! ## 7. The rank of a term -/

theorem termShare_eq_zero (h : t ∉ allTerms x fields docs) : termShare x fields docs t = 0 := by
  rw [termShare, termCount, List.count_eq_zero_of_not_mem h, x.ratio_zero]

theorem termShare_pos_iff : 0 < termShare x fields docs t ↔ t ∈ allTerms x fields docs := by
  constructor
  · intro hpos
    by_contra ht
    exact hpos.ne' (termShare_eq_zero ht)
  · exact fun ht => x.ratio_pos (termCount_pos ht) (topCount_pos x fields docs)

theorem mem_allTerms : t ∈ allTerms x fields docs ↔ ∃ d ∈ docs, t ∈ suggestTerms x fields d :=
  List.mem_flatMap

theorem mem_matchingTerms {pre : String} : t ∈ matchingTerms x fields docs pre ↔
    t ∈ allTerms x fields docs ∧ pre.isEmpty = false ∧
      startsWith t (x.toLowercase pre) = true := by
  simp only [matchingTerms, List.mem_filter, List.mem_dedup, Bool.and_eq_true, Bool.not_eq_true']

section

variable {n : Nat} {shardFor : DocId → Fin n} {corpus : List Document}
  {received : Fin n → List Document} {pre : String} {limit : Nat}

/-- A term is somewhere if some shard has it. -/
theorem mem_allTerms_received
    (hreceived : ∀ i, (received i).Perm (suggestPartition shardFor corpus i)) (t : String) :
    t ∈ allTerms x fields corpus ↔ ∃ i, t ∈ allTerms x fields (received i) := by
  simp only [mem_allTerms]
  constructor
  · rintro ⟨d, hd, ht⟩
    refine ⟨shardFor d.id, d, (hreceived _).mem_iff.mpr ?_, ht⟩
    exact List.mem_filter.mpr ⟨hd, decide_eq_true rfl⟩
  · rintro ⟨i, d, hd, ht⟩
    exact ⟨d, (List.mem_filter.mp ((hreceived i).mem_iff.mp hd)).1, ht⟩

/-- What the router is told by all shards. -/
def suggestEntries (x : SuggestText) (fields : List String) (received : Fin n → List Document)
    (pre field : String) (limit : Nat) : List SuggestTerm :=
  (suggestCluster x ⟨1, 0, fields⟩ received).flatMap (fun s => s.suggest x pre field limit)

theorem mem_suggestEntries (field : String)
    (hreceived : ∀ i, (received i).Perm (suggestPartition shardFor corpus i))
    (hpre : pre.isEmpty = false) (hlimit : (matchingTerms x fields corpus pre).length ≤ limit)
    (e : SuggestTerm) : e ∈ suggestEntries x fields received pre field limit ↔
      ∃ i, e.term ∈ allTerms x fields (received i) ∧
        startsWith e.term (x.toLowercase pre) = true ∧
        e.score = termShare x fields (received i) e.term := by
  have hroom : ∀ i, (((allTerms x fields (received i)).dedup).filter
      (fun t => startsWith t (x.toLowercase pre))).length ≤ limit := by
    intro i
    refine le_trans (((List.nodup_dedup _).filter _).length_le_of_subset fun t ht => ?_) hlimit
    obtain ⟨hmem, hstarts⟩ := List.mem_filter.mp ht
    exact mem_matchingTerms.mpr ⟨(mem_allTerms_received hreceived t).mpr
      ⟨i, List.mem_dedup.mp hmem⟩, hpre, hstarts⟩
  simp only [suggestEntries, suggestCluster, List.mem_flatMap, List.mem_map, List.mem_finRange,
    true_and, exists_exists_eq_and]
  exact exists_congr fun i => mem_suggest hpre (hroom i) e

theorem isBest_suggestEntries (field : String)
    (hreceived : ∀ i, (received i).Perm (suggestPartition shardFor corpus i))
    (hpre : pre.isEmpty = false) (hlimit : (matchingTerms x fields corpus pre).length ≤ limit)
    (t : String) (s : ℚ) : IsBest (suggestEntries x fields received pre field limit) t s ↔
      t ∈ matchingTerms x fields corpus pre ∧
        IsGreatest (Set.range (fun i => termShare x fields (received i) t)) s := by
  have hentries := mem_suggestEntries field hreceived hpre hlimit
  constructor
  · rintro ⟨⟨e, he, rfl, rfl⟩, hle⟩
    obtain ⟨i, ht, hstarts, hscore⟩ := (hentries e).mp he
    refine ⟨mem_matchingTerms.mpr ⟨(mem_allTerms_received hreceived _).mpr ⟨i, ht⟩, hpre,
      hstarts⟩, ⟨i, hscore.symm⟩, ?_⟩
    rintro _ ⟨j, rfl⟩
    by_cases hj : e.term ∈ allTerms x fields (received j)
    · exact hle ⟨e.term, _⟩ ((hentries _).mpr ⟨j, hj, hstarts, rfl⟩) rfl
    · -- a shard without the term gives it no share
      exact (termShare_eq_zero hj).le.trans (hscore ▸ (termShare_pos_iff.mpr ht).le)
  · rintro ⟨hmatch, ⟨i, hi⟩, hle⟩
    obtain ⟨hall, -, hstarts⟩ := mem_matchingTerms.mp hmatch
    obtain ⟨k, hk⟩ := (mem_allTerms_received hreceived t).mp hall
    have hs : 0 < s := (termShare_pos_iff.mpr hk).trans_le (hle ⟨k, rfl⟩)
    have ht : t ∈ allTerms x fields (received i) := termShare_pos_iff.mp (hs.trans_eq hi.symm)
    refine ⟨⟨⟨t, s⟩, (hentries _).mpr ⟨i, ht, hstarts, hi.symm⟩, rfl, rfl⟩, ?_⟩
    rintro e he rfl
    obtain ⟨j, -, -, hscore⟩ := (hentries e).mp he
    exact hscore.le.trans (hle ⟨j, rfl⟩)

/-- The merged terms before they are sorted. -/
def mergedTerms (entries : List SuggestTerm) : List SuggestTerm :=
  (entries.foldl mergeEntry ∅).toList.map (fun e => ⟨e.1, e.2⟩)

theorem mem_mergedTerms {entries : List SuggestTerm} (hpos : ∀ e ∈ entries, 0 < e.score)
    (e : SuggestTerm) : e ∈ mergedTerms entries ↔ IsBest entries e.term e.score := by
  rw [← mem_merged hpos, mergedTerms, List.mem_map]
  constructor
  · rintro ⟨p, hp, rfl⟩
    exact hp
  · exact fun he => ⟨_, he, rfl⟩

theorem nodup_mergedTerms (entries : List SuggestTerm) :
    ((mergedTerms entries).map SuggestTerm.term).Nodup := by
  rw [mergedTerms, List.map_map]
  exact List.pairwise_map.mpr (Std.TreeMap.ordered_keys_toList.imp fun hlt =>
    ne_of_lt (compare_lt_iff_lt.mp hlt))

/-- **What the router answers**: every matching term, with the greatest of its shares. -/
theorem mem_suggest_router (field : String)
    (hreceived : ∀ i, (received i).Perm (suggestPartition shardFor corpus i))
    (hlimit : (matchingTerms x fields corpus pre).length ≤ limit) :
    let out := Router.suggest x (suggestCluster x ⟨1, 0, fields⟩ received) pre field limit
    out.Pairwise RanksBefore ∧ (out.map SuggestTerm.term).Nodup ∧
      ∀ e, e ∈ out ↔ e.term ∈ matchingTerms x fields corpus pre ∧
        IsGreatest (Set.range (fun i => termShare x fields (received i) e.term)) e.score := by
  intro out
  by_cases hnone : (suggestCluster x ⟨1, 0, fields⟩ received).isEmpty || pre.isEmpty || limit = 0
  · -- nothing is asked for, so nothing matches
    have hout : out = [] := if_pos hnone
    have hmatching : matchingTerms x fields corpus pre = [] := by
      refine List.eq_nil_iff_forall_not_mem.mpr fun t ht => ?_
      obtain ⟨hmem, hpre, -⟩ := mem_matchingTerms.mp ht
      obtain ⟨i, -⟩ := (mem_allTerms_received hreceived t).mp hmem
      have hlen := List.length_pos_of_mem ht
      have hcluster : (suggestCluster x ⟨1, 0, fields⟩ received).isEmpty = false :=
        List.isEmpty_eq_false_iff.mpr (List.ne_nil_of_mem
          (List.mem_map_of_mem (List.mem_finRange i)))
      rw [hcluster, hpre] at hnone
      simp only [Bool.or_false, Bool.false_or, decide_eq_true_eq] at hnone
      omega
    rw [hout, hmatching]
    simp
  · have hpre : pre.isEmpty = false := by
      by_contra hempty
      exact hnone (by simp [Bool.eq_true_of_not_eq_false hempty])
    let entries := suggestEntries x fields received pre field limit
    have hpos : ∀ e ∈ entries, 0 < e.score := by
      intro e he
      obtain ⟨i, ht, -, hscore⟩ := (mem_suggestEntries field hreceived hpre hlimit e).mp he
      rw [hscore]
      exact termShare_pos_iff.mpr ht
    have hfound : ∀ e, e ∈ mergedTerms entries ↔ e.term ∈ matchingTerms x fields corpus pre ∧
        IsGreatest (Set.range (fun i => termShare x fields (received i) e.term)) e.score := fun e =>
      (mem_mergedTerms hpos e).trans (isBest_suggestEntries field hreceived hpre hlimit _ _)
    have hnodup := nodup_mergedTerms entries
    have hperm := (mergedTerms entries).perm_insertionSort RanksBefore
    have hfits : ((mergedTerms entries).insertionSort RanksBefore).length ≤ limit := by
      refine le_trans ?_ hlimit
      rw [hperm.length_eq, ← List.length_map (f := SuggestTerm.term)]
      refine hnodup.length_le_of_subset fun t ht => ?_
      obtain ⟨e, he, rfl⟩ := List.mem_map.mp ht
      exact ((hfound e).mp he).1
    have hall : out = (mergedTerms entries).insertionSort RanksBefore :=
      (if_neg hnone).trans (List.take_of_length_le hfits)
    rw [hall]
    refine ⟨List.pairwise_insertionSort _ _, (hperm.map _).nodup_iff.mpr hnodup, fun e => ?_⟩
    rw [List.mem_insertionSort, hfound]

/-- **The suggestions are ranked by document frequency** exactly if the scores of the terms agree
with their frequencies. -/
theorem ranked_iff_sharesAgree (x : SuggestText) (fields : List String) {n : Nat} (shardFor : DocId → Fin n)
    (corpus : List Document) (received : Fin n → List Document)
    (hreceived : ∀ i, (received i).Perm (suggestPartition shardFor corpus i))
    (pre field : String) (limit : Nat)
    (hlimit : (matchingTerms x fields corpus pre).length ≤ limit) :
    RankedByFrequency x fields corpus pre
        (Router.suggest x (suggestCluster x ⟨1, 0, fields⟩ received) pre field limit) ↔
      SharesAgree x fields corpus received pre := by
  obtain ⟨hsorted, hnodup, hmem⟩ := mem_suggest_router field hreceived hlimit
  have hgreatest : ∀ t ∈ matchingTerms x fields corpus pre, ∃ s,
      IsGreatest (Set.range (fun i => termShare x fields (received i) t)) s := by
    intro t ht
    obtain ⟨i, -⟩ := (mem_allTerms_received hreceived t).mp (mem_matchingTerms.mp ht).1
    have : Nonempty (Fin n) := ⟨i⟩
    obtain ⟨k, hk⟩ := Finite.exists_max (fun i => termShare x fields (received i) t)
    exact ⟨_, ⟨k, rfl⟩, by rintro _ ⟨j, rfl⟩; exact hk j⟩
  have hcomplete : ∀ t, t ∈ (Router.suggest x (suggestCluster x ⟨1, 0, fields⟩ received) pre field
      limit).map SuggestTerm.term ↔ t ∈ matchingTerms x fields corpus pre := by
    intro t
    constructor
    · intro ht
      obtain ⟨e, he, rfl⟩ := List.mem_map.mp ht
      exact ((hmem e).mp he).1
    · intro ht
      obtain ⟨s, hs⟩ := hgreatest t ht
      exact List.mem_map.mpr ⟨⟨t, s⟩, (hmem ⟨t, s⟩).mpr ⟨ht, hs⟩, rfl⟩
  have hordered := pairwise_frequency_iff hsorted hnodup (documentFrequency x fields corpus)
  constructor
  · rintro hranked t ht u hu hlt
    obtain ⟨a, ha, rfl⟩ := List.mem_map.mp ((hcomplete t).mpr ht)
    obtain ⟨b, hb, rfl⟩ := List.mem_map.mp ((hcomplete u).mpr hu)
    obtain ⟨-, ⟨i, hi⟩, -⟩ := (hmem a).mp ha
    obtain ⟨-, -, hle⟩ := (hmem b).mp hb
    refine ⟨i, fun j => ?_⟩
    have hj : termShare x fields (received j) b.term ≤ b.score := hle ⟨j, rfl⟩
    rcases hordered.mp hranked.ordered a ha b hb hlt with hscore | ⟨hscore, hterm⟩
    · exact Or.inl (hj.trans_lt (hscore.trans_eq hi.symm))
    · have hne : a.term ≠ b.term := fun heq => Nat.lt_irrefl _ (heq ▸ hlt)
      exact (hj.trans_eq (hscore.symm.trans hi.symm)).lt_or_eq.imp id
        fun heq => ⟨heq, lt_of_le_of_ne hterm hne⟩
  · intro hagree
    refine ⟨hnodup, hcomplete, hordered.mpr fun a ha b hb hlt => ?_⟩
    obtain ⟨hta, -, hle⟩ := (hmem a).mp ha
    obtain ⟨htb, ⟨j, hj⟩, -⟩ := (hmem b).mp hb
    obtain ⟨i, hi⟩ := hagree a.term hta b.term htb hlt
    have hia : termShare x fields (received i) a.term ≤ a.score := hle ⟨i, rfl⟩
    have hij := hi j
    rw [show termShare x fields (received j) b.term = b.score from hj] at hij
    rcases hij with hscore | ⟨hscore, hterm⟩
    · exact Or.inl (hscore.trans_le hia)
    · exact (hscore.le.trans hia).lt_or_eq.imp id fun heq => ⟨heq.symm, hterm.le⟩

theorem termCount_le_topCount (docs : List Document) (t : String) :
    termCount x fields docs t ≤ topCount x fields docs := by
  by_cases ht : t ∈ allTerms x fields docs
  · rw [topCount]
    have hmem := List.mem_map_of_mem (f := termCount x fields docs) ht
    cases hmax : ((allTerms x fields docs).map (termCount x fields docs)).max? with
    | none => exact absurd hmem (by simp [List.max?_eq_none_iff.mp hmax])
    | some m => exact (List.max?_eq_some_iff.mp hmax).2 _ hmem
  · rw [termCount, List.count_eq_zero_of_not_mem ht]
    exact Nat.zero_le _

/-- Below `2 ^ 12` the scores compare as the counts do. -/
theorem termShare_lt_iff {docs docs' : List Document} (hdocs : topCount x fields docs < 2 ^ 12)
    (hdocs' : topCount x fields docs' < 2 ^ 12) (t u : String) :
    (termShare x fields docs u < termShare x fields docs' t ↔
      weighed x fields docs docs' u < weighed x fields docs' docs t) ∧
    (termShare x fields docs u = termShare x fields docs' t ↔
      weighed x fields docs docs' u = weighed x fields docs' docs t) := by
  have hpos := topCount_pos x fields docs
  have hpos' := topCount_pos x fields docs'
  have hle : termCount x fields docs u ≤ topCount x fields docs := termCount_le_topCount docs u
  have hle' : termCount x fields docs' t ≤ topCount x fields docs' := termCount_le_topCount docs' t
  rcases lt_trichotomy (weighed x fields docs docs' u) (weighed x fields docs' docs t)
    with hlt | heq | hgt
  · have hshare := x.ratio_lt hpos hpos' hdocs hdocs' hle hle' hlt
    exact ⟨iff_of_true hshare hlt, iff_of_false hshare.ne hlt.ne⟩
  · have hshare := x.ratio_eq hpos hpos' hdocs hdocs' hle hle' heq
    exact ⟨iff_of_false hshare.not_lt heq.not_lt, iff_of_true hshare heq⟩
  · have hshare := x.ratio_lt hpos' hpos hdocs' hdocs hle' hle hgt
    exact ⟨iff_of_false hshare.not_gt hgt.not_gt, iff_of_false hshare.ne' hgt.ne'⟩

end

/-! ## 8. One shard -/

/-- Where no document counts a term twice, the count of a term is its document frequency. -/
theorem termCount_eq_documentFrequency (x : SuggestText) (fields : List String) (t : String) :
    ∀ docs : List Document, (∀ d ∈ docs, (suggestTerms x fields d).Nodup) →
      termCount x fields docs t = documentFrequency x fields docs t
  | [], _ => rfl
  | d :: docs, hnodup => by
    have hrest := termCount_eq_documentFrequency x fields t docs fun d' hd' =>
      hnodup d' (List.mem_cons_of_mem _ hd')
    have hone := List.nodup_iff_count_le_one.mp (hnodup d List.mem_cons_self) t
    rw [termCount, allTerms, List.flatMap_cons, List.count_append]
    rw [termCount, allTerms] at hrest
    rw [hrest, documentFrequency, documentFrequency, List.filter_cons]
    by_cases ht : t ∈ suggestTerms x fields d
    · have hpos := List.count_pos_iff.mpr ht
      rw [if_pos (decide_eq_true ht), List.length_cons]
      omega
    · rw [if_neg (by simpa using ht), List.count_eq_zero_of_not_mem ht]
      omega

/-- **One shard ranks by document frequency**, if no document has a term in two fields and the
quotients of different counts differ. -/
theorem sharesAgree_of_one {corpus : List Document} {received : Fin 1 → List Document}
    (hreceived : (received 0).Perm corpus)
    (hnodup : ∀ d ∈ corpus, (suggestTerms x fields d).Nodup)
    (hratio : ∀ maxFreq, 0 < maxFreq → StrictMono (fun count => x.ratio count maxFreq))
    (pre : String) :
    SharesAgree x fields corpus received pre := by
  have hcount : ∀ t, termCount x fields (received 0) t = documentFrequency x fields corpus t :=
    fun t => ((hreceived.flatMap_right _).count_eq t).trans
      (termCount_eq_documentFrequency x fields t corpus hnodup)
  intro t _ u _ hlt
  refine ⟨0, fun j => Or.inl ?_⟩
  rw [Fin.fin_one_eq_zero j, termShare, termShare, hcount, hcount]
  exact hratio _ (topCount_pos ..) hlt

end

/-! ## 9. The shard of a document -/

/-- Each round of the loop takes `j` further, so there are at most as many as buckets. -/
theorem jumpLoop_fuel (numBuckets extra : Nat) : ∀ (fuel : Nat) (k : UInt64) (b j : Nat),
    numBuckets ≤ j + fuel →
    jumpLoop numBuckets (fuel + extra) k b j = jumpLoop numBuckets fuel k b j
  | 0, k, b, j, hfuel => by
    cases extra with
    | zero => rfl
    | succ extra => rw [Nat.zero_add, jumpLoop, jumpLoop, if_neg (by omega)]
  | fuel + 1, k, b, j, hfuel => by
    rw [Nat.add_right_comm, jumpLoop, jumpLoop]
    split
    · next hlt =>
      refine jumpLoop_fuel numBuckets extra fuel _ _ _ ?_
      have hshift : ((k * 2862933555777941757 + 1) >>> 33).toNat < 2 ^ 31 := by
        rw [UInt64.toNat_shiftRight]
        have hword := (k * 2862933555777941757 + 1).toNat_lt
        rw [Nat.shiftRight_eq_div_pow]
        exact Nat.div_lt_of_lt_mul (by simpa using hword)
      have hstep : j + 1 ≤
          (j + 1) * 2 ^ 31 / (((k * 2862933555777941757 + 1) >>> 33).toNat + 1) :=
        (Nat.le_div_iff_mul_le (Nat.succ_pos _)).mpr (Nat.mul_le_mul_left _ hshift)
      omega
    · rfl

theorem jumpLoop_lt (numBuckets : Nat) : ∀ (fuel : Nat) (k : UInt64) (b j : Nat),
    b < numBuckets → jumpLoop numBuckets fuel k b j < numBuckets
  | 0, _, _, _, hb => hb
  | fuel + 1, k, b, j, hb => by
    rw [jumpLoop]
    split
    · next hj => exact jumpLoop_lt numBuckets fuel _ _ _ hj
    · exact hb

theorem jumpConsistentHash_lt (key : UInt64) (n : Nat) [NeZero n] :
    jumpConsistentHash key n < n :=
  jumpLoop_lt n n key 0 0 (Nat.pos_of_neZero n)

/-- The suggest shard of a document. -/
def jumpShard (n : Nat) [NeZero n] (id : DocId) : Fin n :=
  ⟨jumpConsistentHash id n, jumpConsistentHash_lt id n⟩

/-- Titles of one word, which is their term. -/
def wordText : SuggestText where
  analyzeToTerms s := [s]
  toLowercase s := s
  selectNth _ found := found
  countsOrder := .keep
  ratio count maxFreq := (count : ℚ) / maxFreq
  ratio_zero _ := by rw [Nat.cast_zero, zero_div]
  ratio_pos hcount hmax := div_pos (Nat.cast_pos.mpr hcount) (Nat.cast_pos.mpr hmax)
  ratio_eq hm hn _ _ _ _ heq := by
    rw [div_eq_div_iff (Nat.cast_ne_zero.mpr hm.ne') (Nat.cast_ne_zero.mpr hn.ne')]
    exact_mod_cast heq
  ratio_lt hm hn _ _ _ _ hlt := by
    rw [div_lt_div_iff₀ (Nat.cast_pos.mpr hm) (Nat.cast_pos.mpr hn)]
    exact_mod_cast hlt
  ratio_lt_of_lead hm hn hlead := by
    rw [div_lt_div_iff₀ (Nat.cast_pos.mpr hm) (Nat.cast_pos.mpr hn)]
    exact_mod_cast lt_of_mul_lt_mul_right
      ((Nat.mul_le_mul_left _ (Nat.le_succ _)).trans_lt hlead) (Nat.zero_le _)

/-- A document of which only the title counts. -/
def wordDoc (id : DocId) (title : String) : Document := ⟨id, title, "", ⟨0⟩, "", .empty⟩

end ZearchEngine
