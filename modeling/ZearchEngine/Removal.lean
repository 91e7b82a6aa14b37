/-
# Removing deleted documents

A merge or a reindex writes the live documents of a segment anew, without those that its
deletion bitmap hides.  The terms of the hidden documents stay in the dictionary until then.

The lookup of similar terms leaves out terms without a live document; the lookup by prefix does
not (`search_term`, `prefix_search_term`, `fuzzy_search_term` in `crates/index/src/segment.rs`).
So a query token that only hidden documents have a term for is expanded to terms without
documents, and similar terms are not looked for; once the documents are removed, they are.

`mem_resultIds` says which documents an execution returns, when it has room for all matches and
all inverse document frequencies are positive: those that match all tokens, or, if there are
none, those with a term that starts with some token.  The second kind does not depend on what is
hidden, the first one only through tokens that nothing but hidden documents have a term for.
`removal_neutral_iff` compares the two.
-/
import ZearchEngine.Fallback
import ZearchEngine.Filtering

namespace ZearchEngine

namespace SegmentReader

variable {R : Type} {schema : IndexSchema R} {analysis : TextAnalysis} {docs : List Document}
  {del : Bitmap}

/-- **The dictionary has the terms of all documents**, deleted or not. -/
theorem searchTerm_ne_none_iff [Field R] [LinearOrder R] {term : String} :
    searchTerm schema analysis (ofDocs docs del) term ≠ none ↔
      ∃ doc ∈ docs, term ∈ schema.docTokens analysis doc := by
  have hterm : (invertedIndex schema analysis docs)[term]? = none ↔
      ∀ doc ∈ docs, term ∉ schema.docTokens analysis doc := by
    rw [← termPostings_eq_nil_iff, getElem?_invertedIndex]
    split
    · next hnil => simp [hnil]
    · next hsome => simp [hsome]
  rw [searchTerm, ne_eq, Option.map_eq_none_iff, show (ofDocs docs del).inverted = docs from rfl,
    hterm]
  push Not
  rfl

theorem hasTerm_iff {term : String} {i : LocalDocId} :
    HasTerm schema analysis docs del term i ↔
      ∃ doc, (ofDocs docs del).getDoc i = some doc ∧ term ∈ schema.docTokens analysis doc := by
  rw [getDoc_ofDocs, HasTerm]
  by_cases hdel : i ∈ del
  · simp [hdel]
  · simp [hdel]

/-- A live document is at some position, and can be read there. -/
theorem mem_liveDocuments_iff {doc : Document} :
    doc ∈ (ofDocs docs del).liveDocuments ↔ ∃ i, (ofDocs docs del).getDoc i = some doc := by
  constructor
  · intro h
    obtain ⟨i, -, hget⟩ := List.mem_filterMap.mp h
    exact ⟨i, hget⟩
  · rintro ⟨i, hget⟩
    exact mem_liveDocuments_of_getDoc hget

end SegmentReader

namespace TextExecutor

/-! ## 1. What a token finds -/

/-- The document has a term that starts with the token. -/
def Starts (x : TextExecutor) (token : String) (doc : Document) : Prop :=
  ∃ term ∈ x.schema.docTokens x.analysis doc, startsWith term token = true

/-- The document has a term that counts as similar to the token, if the request tolerates typos
and the token is long enough. -/
def Similar (x : TextExecutor) (request : SearchRequest) (token : String) (doc : Document) :
    Prop :=
  (request.typoTolerance && decide (token.utf8ByteSize > 4)) = true ∧
  ∃ accepts, x.analysis.levenshtein token (if token.utf8ByteSize ≤ 6 then 1 else 2) = some accepts ∧
    ∃ term ∈ x.schema.docTokens x.analysis doc, accepts term = true

/-- In a segment with the terms of `docs`, the token finds documents with a term that starts
with it; only if there is no such term in the dictionary, those with a similar one. -/
def Found (x : TextExecutor) (docs : List Document) (request : SearchRequest) (token : String)
    (doc : Document) : Prop :=
  x.Starts token doc ∨ (∀ d ∈ docs, ¬ x.Starts token d) ∧ x.Similar request token doc

instance (x : TextExecutor) (token : String) : DecidablePred (x.Starts token) := fun doc =>
  inferInstanceAs (Decidable (∃ term ∈ x.schema.docTokens x.analysis doc, _))

instance (x : TextExecutor) (request : SearchRequest) (token : String) :
    DecidablePred (x.Similar request token) := fun doc =>
  decidable_of_iff ((request.typoTolerance && decide (token.utf8ByteSize > 4)) = true ∧
      (x.analysis.levenshtein token (if token.utf8ByteSize ≤ 6 then 1 else 2)).any
        (fun accepts => (x.schema.docTokens x.analysis doc).any accepts) = true) (by
    simp only [Similar, Option.any_eq_true, List.any_eq_true])

instance (x : TextExecutor) (docs : List Document) (request : SearchRequest) (token : String) :
    DecidablePred (x.Found docs request token) := fun _ =>
  inferInstanceAs (Decidable (_ ∨ _))

instance (x : TextExecutor) (request : SearchRequest) : DecidablePred (x.HasPrefix request) :=
  fun doc => inferInstanceAs (Decidable (∃ token ∈ x.queryTokens request, x.Starts token doc))

section

variable {x : TextExecutor} {request : SearchRequest} {docs : List Document} {del : Bitmap}

/-- The lookup by prefix finds a term exactly if some document has one. -/
theorem prefixSearchTerm_eq_nil_iff {token : String} :
    (SegmentReader.ofDocs docs del).prefixSearchTerm x.schema x.analysis token = [] ↔
      ∀ doc ∈ docs, ¬ x.Starts token doc := by
  rw [List.eq_nil_iff_forall_not_mem]
  constructor
  · rintro hnone doc hdoc ⟨term, hterm, hstarts⟩
    obtain ⟨pl, hpl⟩ := Option.ne_none_iff_exists'.mp
      (SegmentReader.searchTerm_ne_none_iff.mpr ⟨doc, hdoc, hterm⟩)
    exact hnone (term, pl) (SegmentReader.mem_prefixSearchTerm.mpr ⟨hstarts, hpl⟩)
  · rintro hnone ⟨term, pl⟩ hmem
    obtain ⟨hstarts, hpl⟩ := SegmentReader.mem_prefixSearchTerm.mp hmem
    obtain ⟨doc, hdoc, hterm⟩ := SegmentReader.searchTerm_ne_none_iff.mp
      (Option.ne_none_iff_exists'.mpr ⟨pl, hpl⟩)
    exact hnone doc hdoc ⟨term, hterm, hstarts⟩

/-- The documents of some terms: a live document with one of them. -/
theorem mem_merge_iff {entries : List (String × PostingList ℝ)} {P : String → Prop}
    (hsound : ∀ term pl, (term, pl) ∈ entries → P term ∧
      (SegmentReader.ofDocs docs del).searchTerm x.schema x.analysis term = some pl)
    (hcomplete : ∀ term pl, P term →
      (SegmentReader.ofDocs docs del).searchTerm x.schema x.analysis term = some pl →
      pl.isEmpty = false → (term, pl) ∈ entries) {i : LocalDocId} :
    i ∈ (PostingList.merge (entries.map Prod.snd)).postings.map Posting.docId ↔
      ∃ doc, (SegmentReader.ofDocs docs del).getDoc i = some doc ∧
        ∃ term ∈ x.schema.docTokens x.analysis doc, P term := by
  rw [(PostingList.merge_spec _).1]
  constructor
  · rintro ⟨pl, hpl, hi⟩
    obtain ⟨⟨term, pl⟩, hmem, rfl⟩ := List.mem_map.mp hpl
    obtain ⟨hterm, hsearch⟩ := hsound term pl hmem
    obtain ⟨doc, hget, hdoc⟩ := SegmentReader.hasTerm_iff.mp
      (((SegmentReader.searchTerm_spec hsearch).1 i).mp hi)
    exact ⟨doc, hget, term, hdoc, hterm⟩
  · rintro ⟨doc, hget, term, hdoc, hterm⟩
    have hin : doc ∈ docs := (SegmentReader.liveDocuments_sublist_docs docs del).subset
      (SegmentReader.mem_liveDocuments_of_getDoc hget)
    obtain ⟨pl, hsearch⟩ := Option.ne_none_iff_exists'.mp
      (SegmentReader.searchTerm_ne_none_iff.mpr ⟨doc, hin, hdoc⟩)
    have hi := ((SegmentReader.searchTerm_spec hsearch).1 i).mpr
      (SegmentReader.hasTerm_iff.mpr ⟨doc, hget, hdoc⟩)
    have hne : pl.isEmpty = false := by
      cases hempty : pl.isEmpty with
      | false => rfl
      | true => simp [List.isEmpty_iff.mp hempty] at hi
    exact ⟨pl, List.mem_map.mpr ⟨_, hcomplete term pl hterm hsearch hne, rfl⟩, hi⟩

/-- The documents of the similar terms of a token. -/
theorem mem_merge_fuzzy {token : String} {maxDist : Nat} {i : LocalDocId} :
    i ∈ (PostingList.merge (((SegmentReader.ofDocs docs del).fuzzySearchTerm x.schema x.analysis
        token maxDist).map Prod.snd)).postings.map Posting.docId ↔
      ∃ doc, (SegmentReader.ofDocs docs del).getDoc i = some doc ∧
        ∃ accepts, x.analysis.levenshtein token maxDist = some accepts ∧
          ∃ term ∈ x.schema.docTokens x.analysis doc, accepts term = true := by
  rw [mem_merge_iff (P := fun term => ∃ accepts,
    x.analysis.levenshtein token maxDist = some accepts ∧ accepts term = true)]
  · refine exists_congr (fun doc => and_congr_right (fun _ => ?_))
    constructor
    · rintro ⟨term, hterm, accepts, hauto, hacc⟩
      exact ⟨accepts, hauto, term, hterm, hacc⟩
    · rintro ⟨accepts, hauto, term, hterm, hacc⟩
      exact ⟨term, hterm, accepts, hauto, hacc⟩
  · intro term pl hmem
    obtain ⟨accepts, hauto, hacc, hsearch, -⟩ := SegmentReader.mem_fuzzySearchTerm.mp hmem
    exact ⟨⟨accepts, hauto, hacc⟩, hsearch⟩
  · rintro term pl ⟨accepts, hauto, hacc⟩ hsearch hne
    exact SegmentReader.mem_fuzzySearchTerm.mpr ⟨accepts, hauto, hacc, hsearch, hne⟩

/-- **The merged posting list of a token** has the live documents it finds. -/
theorem mem_mergedDocs {token : String} {i : LocalDocId} :
    i ∈ x.mergedDocs (.ofDocs docs del) request token ↔
      ∃ doc, (SegmentReader.ofDocs docs del).getDoc i = some doc ∧
        x.Found docs request token doc := by
  rw [mergedDocs, rawLists]
  by_cases hnil : (SegmentReader.ofDocs docs del).prefixSearchTerm x.schema x.analysis token = []
  · have hnone := prefixSearchTerm_eq_nil_iff.mp hnil
    have hlive : ∀ doc, (SegmentReader.ofDocs docs del).getDoc i = some doc →
        (x.Found docs request token doc ↔ x.Similar request token doc) := by
      intro doc hget
      have hstarts := hnone doc ((SegmentReader.liveDocuments_sublist_docs docs del).subset
        (SegmentReader.mem_liveDocuments_of_getDoc hget))
      rw [Found, or_iff_right hstarts, and_iff_right hnone]
    have hsimilar : (∃ doc, (SegmentReader.ofDocs docs del).getDoc i = some doc ∧
        x.Found docs request token doc) ↔
        ∃ doc, (SegmentReader.ofDocs docs del).getDoc i = some doc ∧
          x.Similar request token doc :=
      exists_congr (fun doc => and_congr_right (hlive doc))
    simp only [hnil, List.isEmpty_nil, Bool.not_true, Bool.false_eq_true, if_false]
    rw [hsimilar]
    by_cases htypo : (request.typoTolerance && decide (token.utf8ByteSize > 4)) = true
    · rw [if_pos htypo, mem_merge_fuzzy]
      simp only [Similar, htypo, true_and]
    · -- the token itself would start with the token
      have hself : (SegmentReader.ofDocs docs del).searchTerm x.schema x.analysis token = none := by
        by_contra hsome
        obtain ⟨doc, hdoc, hterm⟩ := SegmentReader.searchTerm_ne_none_iff.mp hsome
        exact hnone doc hdoc ⟨token, hterm, startsWith_self token⟩
      rw [if_neg htypo, hself, Option.toList_none, (PostingList.merge_spec _).1]
      simp [Similar, htypo]
  · have hsome : ¬ ∀ doc ∈ docs, ¬ x.Starts token doc := mt prefixSearchTerm_eq_nil_iff.mpr hnil
    have hexpand : (!((SegmentReader.ofDocs docs del).prefixSearchTerm x.schema x.analysis
        token).isEmpty) = true := by simpa using hnil
    have hfound : ∀ doc, x.Found docs request token doc ↔ x.Starts token doc := by
      intro doc
      rw [Found, or_iff_left (fun h => hsome h.1)]
    simp only [if_pos hexpand, hfound]
    exact mem_merge_iff (P := fun term => startsWith term token = true)
      (fun term pl hmem => SegmentReader.mem_prefixSearchTerm.mp hmem)
      (fun term pl hstarts hsearch _ => SegmentReader.mem_prefixSearchTerm.mpr ⟨hstarts, hsearch⟩)

/-! ## 2. What a segment returns -/

/-- The documents that OR retrieval scores for a token. -/
noncomputable def tokenMatches (x : TextExecutor) (reader : SegmentReader)
    (request : SearchRequest) (filter : Option Bitmap) (token : String) : List LocalDocId :=
  reader.allLiveDocs.filter (fun i => i ∈ x.mergedDocs reader request token &&
    (x.scoreFnOr reader (.compute x.schema x.analysis reader) request filter i).isSome)

theorem nodup_tokenMatches {x : TextExecutor} {reader : SegmentReader} {request : SearchRequest}
    {filter : Option Bitmap} {token : String} :
    (x.tokenMatches reader request filter token).Nodup :=
  reader.nodup_allLiveDocs.filter _

/-- There is room for all matches, and all inverse document frequencies are positive. -/
structure Unpruned (x : TextExecutor) (reader : SegmentReader) (request : SearchRequest)
    (filter : Option Bitmap) : Prop where
  positive : ∀ token ∈ x.queryTokens request,
    0 < Bm25Scorer.idf reader.allLiveDocs.length (x.totalDf reader request token)
  room : (x.matching reader request filter).length ≤ candidateCount request
  roomOr : x.matching reader request filter = [] → ∀ token ∈ x.queryTokens request,
    (x.tokenMatches reader request filter token).length ≤ candidateCount request

variable {filter : Option Bitmap}

/-- The statistics count the live documents. -/
theorem totalDocs_compute (x : TextExecutor) (reader : SegmentReader) :
    (SegmentStatistics.compute x.schema x.analysis reader).totalDocs
      = reader.allLiveDocs.length := rfl

theorem exists_getDoc_of_mem_allLiveDocs {i : LocalDocId}
    (h : i ∈ (SegmentReader.ofDocs docs del).allLiveDocs) :
    ∃ doc, (SegmentReader.ofDocs docs del).getDoc i = some doc := by
  obtain ⟨hrange, hdel⟩ := List.mem_filter.mp h
  have hlt : i < docs.length := List.mem_range.mp hrange
  have hnot : i ∉ del := of_decide_eq_true hdel
  exact ⟨docs[i], by rw [SegmentReader.getDoc_ofDocs, if_neg hnot, List.getElem?_eq_getElem hlt]⟩

theorem mem_mergedDocs_of_getDoc {token : String} {i : LocalDocId} {doc : Document}
    (hget : (SegmentReader.ofDocs docs del).getDoc i = some doc) :
    i ∈ x.mergedDocs (.ofDocs docs del) request token ↔ x.Found docs request token doc := by
  rw [mem_mergedDocs, hget]
  constructor
  · rintro ⟨doc', heq, hfound⟩
    rwa [Option.some.inj heq]
  · exact fun hfound => ⟨doc, rfl, hfound⟩

/-- **AND retrieval returns all matches.** -/
theorem mem_scoreQueryWand_iff (hwithin : x.analysis.Within) (hboost : PositiveBoosts x.schema)
    (hlen : docs.length ≤ u32Max) (hne : x.queryTokens request ≠ [])
    (h : x.Unpruned (.ofDocs docs del) request filter) {i : LocalDocId} :
    i ∈ (x.scoreQueryWand (.ofDocs docs del)
        (.compute x.schema x.analysis (.ofDocs docs del)) request filter).map Prod.fst ↔
      i ∈ x.matching (.ofDocs docs del) request filter := by
  constructor
  · intro hi
    obtain ⟨hit, hhit, rfl⟩ := List.mem_map.mp hi
    exact mem_matching_of_mem_scoreQueryWand hwithin hlen hhit
  · intro hi
    obtain ⟨-, hmem⟩ := (mem_matching hwithin hne).mp hi
    obtain ⟨token, htoken⟩ := List.exists_mem_of_ne_nil _ hne
    have hrare : ∃ token ∈ x.queryTokens request, x.totalDf (.ofDocs docs del) request token
        ≤ (SegmentReader.ofDocs docs del).allLiveDocs.length :=
      ⟨token, htoken, (Bm25Scorer.idf_pos_iff _ _).mp (h.positive token htoken)⟩
    have hperm := scored_perm_matching filter hwithin hboost hlen
      (totalDocs_compute x (.ofDocs docs del)) hne
    rw [scoreQueryWand_eq hwithin hlen hne (fun t ht => rawLists_ne_nil_of_mem (hmem t ht))]
    have hall := map_fst_runWand_perm hwithin hboost hlen hrare (fun i score => scoreFn_pos)
      (hperm.length_eq.trans_le h.room)
    exact (hall.trans hperm).mem_iff.mpr hi

/-- AND retrieval returns nothing exactly if nothing matches. -/
theorem scoreQueryWand_eq_nil_iff (hwithin : x.analysis.Within)
    (hboost : PositiveBoosts x.schema) (hlen : docs.length ≤ u32Max)
    (hne : x.queryTokens request ≠ []) (h : x.Unpruned (.ofDocs docs del) request filter) :
    x.scoreQueryWand (.ofDocs docs del)
        (.compute x.schema x.analysis (.ofDocs docs del)) request filter = [] ↔
      x.matching (.ofDocs docs del) request filter = [] := by
  have hmem : ∀ i, i ∈ (x.scoreQueryWand (.ofDocs docs del)
      (.compute x.schema x.analysis (.ofDocs docs del)) request filter).map Prod.fst ↔
      i ∈ x.matching (.ofDocs docs del) request filter :=
    fun i => mem_scoreQueryWand_iff hwithin hboost hlen hne h
  rw [List.eq_nil_iff_forall_not_mem (l := x.matching _ _ _)]
  simp only [← hmem, ← List.eq_nil_iff_forall_not_mem, List.map_eq_nil_iff]

theorem scoreFnOr_pos {reader : SegmentReader} {stats : SegmentStatistics} {i : LocalDocId}
    {score : ℝ} (h : x.scoreFnOr reader stats request filter i = some score) : 0 < score := by
  rw [scoreFnOr] at h
  split at h
  · obtain ⟨doc, -, hscore⟩ := Option.bind_eq_some_iff.mp h
    simp only at hscore
    split at hscore
    · next hpos => exact Option.some.inj hscore ▸ hpos
    · cases hscore
  · cases h

theorem shared_singleton {token : String} {j : LocalDocId} :
    j ∈ intersection ([token].map (x.cursor (.ofDocs docs del)
        (.compute x.schema x.analysis (.ofDocs docs del)) request)) ↔
      j ∈ x.mergedDocs (.ofDocs docs del) request token := by
  rw [mem_intersection (List.cons_ne_nil token [])]
  simp

/-- What is scored for a token, as the live documents list it. -/
theorem scored_perm_tokenMatches (hwithin : x.analysis.Within) (hlen : docs.length ≤ u32Max)
    (token : String) :
    ((intersection ([token].map (x.cursor (.ofDocs docs del)
        (.compute x.schema x.analysis (.ofDocs docs del)) request))).filter (fun i =>
      (x.scoreFnOr (.ofDocs docs del) (.compute x.schema x.analysis (.ofDocs docs del)) request
        filter i).isSome)).Perm (x.tokenMatches (.ofDocs docs del) request filter token) := by
  have hlive : ∀ j ∈ x.mergedDocs (.ofDocs docs del) request token,
      j ∈ (SegmentReader.ofDocs docs del).allLiveDocs := by
    intro j hj
    obtain ⟨doc, hget, -⟩ := mem_mergedDocs.mp hj
    exact mem_allLiveDocs_of_getDoc hget
  refine (List.perm_ext_iff_of_nodup
    ((nodup_intersection hwithin hlen (List.cons_ne_nil token [])).filter _)
    nodup_tokenMatches).mpr (fun j => ?_)
  rw [List.mem_filter, shared_singleton, tokenMatches, List.mem_filter, Bool.and_eq_true,
    decide_eq_true_iff]
  exact ⟨fun hj => ⟨hlive j hj.1, hj⟩, fun hj => hj.2⟩

/-- **A token, retrieved alone, returns all it scores.** -/
theorem mem_tokenResults_iff (hwithin : x.analysis.Within) (hboost : PositiveBoosts x.schema)
    (hlen : docs.length ≤ u32Max) {token : String}
    (hidf : 0 < Bm25Scorer.idf (SegmentReader.ofDocs docs del).allLiveDocs.length
      (x.totalDf (.ofDocs docs del) request token))
    (hroom : (x.tokenMatches (.ofDocs docs del) request filter token).length
      ≤ candidateCount request) {i : LocalDocId} :
    i ∈ (x.tokenResults (.ofDocs docs del)
        (.compute x.schema x.analysis (.ofDocs docs del)) request filter token).map Prod.fst ↔
      i ∈ x.mergedDocs (.ofDocs docs del) request token ∧
        (x.scoreFnOr (.ofDocs docs del) (.compute x.schema x.analysis (.ofDocs docs del)) request
          filter i).isSome = true := by
  constructor
  · intro hi
    obtain ⟨hit, hhit, rfl⟩ := List.mem_map.mp hi
    obtain ⟨hmem, hscore⟩ := mem_tokenResults hwithin hlen hhit
    exact ⟨hmem, by rw [hscore]; rfl⟩
  · rintro ⟨hmem, hscore⟩
    have hrare : ∃ t ∈ [token], x.totalDf (.ofDocs docs del) request t
        ≤ (SegmentReader.ofDocs docs del).allLiveDocs.length :=
      ⟨token, List.mem_singleton_self token, (Bm25Scorer.idf_pos_iff _ _).mp hidf⟩
    have hexpand : ¬ (x.rawLists (.ofDocs docs del) request token).isEmpty = true := by
      simpa using rawLists_ne_nil_of_mem hmem
    rw [tokenResults, if_neg hexpand]
    have hall := map_fst_runWand_perm hwithin hboost hlen hrare (fun i score => scoreFnOr_pos)
      ((scored_perm_tokenMatches hwithin hlen token).length_eq.trans_le hroom)
    exact hall.mem_iff.mpr (List.mem_filter.mpr ⟨shared_singleton.mpr hmem, hscore⟩)

/-- **OR retrieval returns the documents that match some token**, with room for all. -/
theorem mem_scoreQueryOrFallback_iff (hwithin : x.analysis.Within)
    (hboost : PositiveBoosts x.schema) (hlen : docs.length ≤ u32Max)
    (hidf : ∀ token ∈ x.queryTokens request,
      0 < Bm25Scorer.idf (SegmentReader.ofDocs docs del).allLiveDocs.length
        (x.totalDf (.ofDocs docs del) request token))
    (hroom : ∀ token ∈ x.queryTokens request,
      (x.tokenMatches (.ofDocs docs del) request filter token).length ≤ candidateCount request)
    {i : LocalDocId} :
    i ∈ (x.scoreQueryOrFallback (.ofDocs docs del)
        (.compute x.schema x.analysis (.ofDocs docs del)) request filter).map Prod.fst ↔
      passes filter i = true ∧
      ∃ doc, (SegmentReader.ofDocs docs del).getDoc i = some doc ∧ x.HasPrefix request doc := by
  rw [mem_scoreQueryOrFallback hwithin hlen, ← isSome_scoreFnOr_iff hboost (totalDocs_compute x _)]
  have htoken : ∀ token ∈ x.queryTokens request,
      (i ∈ (x.tokenResults (.ofDocs docs del)
        (.compute x.schema x.analysis (.ofDocs docs del)) request filter token).map Prod.fst ↔
      i ∈ x.mergedDocs (.ofDocs docs del) request token ∧
        (x.scoreFnOr (.ofDocs docs del) (.compute x.schema x.analysis (.ofDocs docs del))
          request filter i).isSome = true) := fun token ht =>
    mem_tokenResults_iff hwithin hboost hlen (hidf token ht) (hroom token ht)
  constructor
  · rintro ⟨token, ht, hi⟩
    exact ((htoken token ht).mp hi).2
  · intro hscore
    obtain ⟨-, doc, hget, token, ht, hstarts⟩ :=
      (isSome_scoreFnOr_iff hboost (totalDocs_compute x _)).mp hscore
    exact ⟨token, ht, (htoken token ht).mpr
      ⟨(mem_mergedDocs_of_getDoc hget).mpr (Or.inl hstarts), hscore⟩⟩

/-- For a query of one token, a document with a term that starts with it matches. -/
theorem mem_matching_of_hasPrefix (hwithin : x.analysis.Within) {token : String}
    (htokens : x.queryTokens request = [token]) {i : LocalDocId} {doc : Document}
    (hget : (SegmentReader.ofDocs docs del).getDoc i = some doc) (hpass : passes filter i = true)
    (hstarts : x.HasPrefix request doc) : i ∈ x.matching (.ofDocs docs del) request filter := by
  obtain ⟨token', ht', hstarts⟩ := hstarts
  rw [htokens, List.mem_singleton] at ht'
  subst ht'
  refine (mem_matching hwithin (htokens ▸ List.cons_ne_nil _ _)).mpr ⟨hpass, fun t ht => ?_⟩
  rw [htokens, List.mem_singleton] at ht
  rw [ht]
  exact (mem_mergedDocs_of_getDoc hget).mpr (Or.inl hstarts)

/-- **What a query with tokens returns**: the matches, or, if there are none, the live documents
that pass the filter and have a term that starts with a token. -/
theorem mem_scoreQuery_iff (hwithin : x.analysis.Within) (hboost : PositiveBoosts x.schema)
    (hlen : docs.length ≤ u32Max) (hne : x.queryTokens request ≠ [])
    (h : x.Unpruned (.ofDocs docs del) request filter) {i : LocalDocId} :
    i ∈ (x.scoreQuery (.ofDocs docs del)
        (.compute x.schema x.analysis (.ofDocs docs del)) request filter).1.map Prod.fst ↔
      i ∈ x.matching (.ofDocs docs del) request filter ∨
      (x.matching (.ofDocs docs del) request filter = [] ∧ passes filter i = true ∧
        ∃ doc, (SegmentReader.ofDocs docs del).getDoc i = some doc ∧ x.HasPrefix request doc) := by
  by_cases hnone : x.matching (.ofDocs docs del) request filter = []
  · rw [hnone, or_iff_right List.not_mem_nil, and_iff_right rfl]
    by_cases hmulti : (x.queryTokens request).length > 1
    · rw [scoreQuery_eq_fallback hwithin hlen hmulti hnone]
      exact mem_scoreQueryOrFallback_iff hwithin hboost hlen h.positive (h.roomOr hnone)
    · obtain ⟨token, htokens⟩ : ∃ token, x.queryTokens request = [token] := by
        have hpos := List.length_pos_iff.mpr hne
        exact List.length_eq_one_iff.mp (by omega)
      have hand := (scoreQueryWand_eq_nil_iff hwithin hboost hlen hne h).mpr hnone
      have hresult : (x.scoreQuery (.ofDocs docs del)
          (.compute x.schema x.analysis (.ofDocs docs del)) request filter).1 = [] := by
        simp [scoreQuery, hand, hmulti]
      rw [hresult, List.map_nil]
      refine iff_of_false List.not_mem_nil ?_
      rintro ⟨hpass, doc, hget, hstarts⟩
      have hi : i ∈ x.matching (.ofDocs docs del) request filter :=
        mem_matching_of_hasPrefix hwithin htokens hget hpass hstarts
      exact List.not_mem_nil (hnone ▸ hi)
  · have hand := mt (scoreQueryWand_eq_nil_iff hwithin hboost hlen hne h).mp hnone
    rw [scoreQuery_eq_of_ne_nil hand, mem_scoreQueryWand_iff hwithin hboost hlen hne h,
      or_iff_left (fun hor => hnone hor.1)]

end

/-! ## 3. The ids an execution returns -/

/-- The executor over the columns of its schema. -/
noncomputable def columnExecutor (x : TextExecutor) (round : ℝ → F32) : QueryExecutor :=
  (x.executor round (fun _ _ _ => ∅) (fun _ _ _ => [])).withColumns x.schema

/-- The filter of a request, as the executor builds it. -/
noncomputable def columnFilter (x : TextExecutor) (round : ℝ → F32) (reader : SegmentReader)
    (request : SearchRequest) : Option Bitmap :=
  (x.columnExecutor round).buildFilterBitmap reader request

/-- The ids of the documents that `execute` returns. -/
noncomputable def resultIds (x : TextExecutor) (round : ℝ → F32) (reader : SegmentReader)
    (ord : Nat) (request : SearchRequest) : Finset DocId :=
  (((x.columnExecutor round).execute reader ord request).scoredDocs.map
    ScoredDoc.globalDocId).toFinset

/-- In a segment with the terms of `docs`, the document passes the filters and is found by all
tokens. -/
def Matches (x : TextExecutor) (docs : List Document) (request : SearchRequest)
    (doc : Document) : Prop :=
  request.passes x.schema doc = true ∧
    ∀ token ∈ x.queryTokens request, x.Found docs request token doc

/-- The document passes the filters and has a term that starts with some token. -/
def MatchesSome (x : TextExecutor) (request : SearchRequest) (doc : Document) : Prop :=
  request.passes x.schema doc = true ∧ x.HasPrefix request doc

instance (x : TextExecutor) (docs : List Document) (request : SearchRequest) :
    DecidablePred (x.Matches docs request) := fun _ => inferInstanceAs (Decidable (_ ∧ _))

instance (x : TextExecutor) (request : SearchRequest) : DecidablePred (x.MatchesSome request) :=
  fun _ => inferInstanceAs (Decidable (_ ∧ _))

section

variable {x : TextExecutor} {round : ℝ → F32} {request : SearchRequest} {docs : List Document}
  {del : Bitmap} {ord : Nat}

/-- **The filter lets through the documents that pass.** -/
theorem passes_columnFilter {i : LocalDocId} {doc : Document}
    (hget : (SegmentReader.ofDocs docs del).getDoc i = some doc) :
    passes (x.columnFilter round (.ofDocs docs del) request) i = true ↔
      request.passes x.schema doc = true := by
  have hmatching : i ∈ (x.columnExecutor round).matching (.ofDocs docs del) request ↔
      passes (x.columnFilter round (.ofDocs docs del) request) i = true := by
    have hlive := mem_allLiveDocs_of_getDoc hget
    rw [QueryExecutor.matching, columnFilter]
    cases (x.columnExecutor round).buildFilterBitmap (.ofDocs docs del) request with
    | none => simpa [passes] using hlive
    | some f => simp [passes, hlive]
  have hdoc : docs[i]? = some doc := by
    rw [SegmentReader.getDoc_ofDocs] at hget
    split at hget
    · cases hget
    · exact hget
  rw [← hmatching, columnExecutor, matching_withColumns, List.mem_filter, hdoc, Option.any_some,
    and_iff_right (mem_allLiveDocs_of_getDoc hget)]

/-- What matches in a segment. -/
theorem mem_matching_iff_matches (hwithin : x.analysis.Within)
    (hne : x.queryTokens request ≠ []) {i : LocalDocId} :
    i ∈ x.matching (.ofDocs docs del) request
        (x.columnFilter round (.ofDocs docs del) request) ↔
      ∃ doc, (SegmentReader.ofDocs docs del).getDoc i = some doc ∧ x.Matches docs request doc := by
  rw [mem_matching hwithin hne]
  constructor
  · rintro ⟨hpass, hmem⟩
    obtain ⟨token, htoken⟩ := List.exists_mem_of_ne_nil _ hne
    obtain ⟨doc, hget, -⟩ := mem_mergedDocs.mp (hmem token htoken)
    exact ⟨doc, hget, (passes_columnFilter hget).mp hpass,
      fun t ht => (mem_mergedDocs_of_getDoc hget).mp (hmem t ht)⟩
  · rintro ⟨doc, hget, hpass, hfound⟩
    exact ⟨(passes_columnFilter hget).mpr hpass,
      fun t ht => (mem_mergedDocs_of_getDoc hget).mpr (hfound t ht)⟩

theorem matching_eq_nil_iff (hwithin : x.analysis.Within) (hne : x.queryTokens request ≠ []) :
    x.matching (.ofDocs docs del) request (x.columnFilter round (.ofDocs docs del) request) = [] ↔
      ∀ doc ∈ (SegmentReader.ofDocs docs del).liveDocuments, ¬ x.Matches docs request doc := by
  rw [List.eq_nil_iff_forall_not_mem]
  constructor
  · intro hnone doc hdoc hmatch
    obtain ⟨i, hget⟩ := SegmentReader.mem_liveDocuments_iff.mp hdoc
    exact hnone i ((mem_matching_iff_matches hwithin hne).mpr ⟨doc, hget, hmatch⟩)
  · intro hnone i hi
    obtain ⟨doc, hget, hmatch⟩ := (mem_matching_iff_matches hwithin hne).mp hi
    exact hnone doc (SegmentReader.mem_liveDocuments_of_getDoc hget) hmatch

/-- Without a query the documents that pass the filters are returned. -/
theorem mem_resultIds_of_isEmpty (hquery : request.query.isEmpty = true) {id : DocId} :
    id ∈ x.resultIds round (.ofDocs docs del) ord request ↔
      ∃ doc ∈ (SegmentReader.ofDocs docs del).liveDocuments, doc.id = id ∧
        request.passes x.schema doc = true := by
  have hlist : ((x.columnExecutor round).execute (.ofDocs docs del) ord request).scoredDocs.map
      ScoredDoc.globalDocId
      = ((x.columnExecutor round).matching (.ofDocs docs del) request).map (fun i =>
          (((SegmentReader.ofDocs docs del).getDoc i).map Document.id).getD (UInt64.ofNat i)) := by
    simp only [QueryExecutor.execute, hquery, if_true, List.map_map]
    rfl
  have hlive := filterMap_matching_passes
    (x.executor round (fun _ _ _ => ∅) (fun _ _ _ => [])) x.schema request docs del
  have hmem : ∀ doc, (∃ i ∈ (x.columnExecutor round).matching (.ofDocs docs del) request,
      (SegmentReader.ofDocs docs del).getDoc i = some doc) ↔
      doc ∈ (SegmentReader.ofDocs docs del).liveDocuments ∧
        request.passes x.schema doc = true := by
    intro doc
    rw [← List.mem_filter, ← hlive, List.mem_filterMap]
    rfl
  rw [resultIds, List.mem_toFinset, hlist, List.mem_map]
  constructor
  · rintro ⟨i, hi, hid⟩
    have hin : i ∈ (SegmentReader.ofDocs docs del).allLiveDocs := by
      rw [columnExecutor, matching_withColumns] at hi
      exact List.mem_of_mem_filter hi
    obtain ⟨doc, hget⟩ := exists_getDoc_of_mem_allLiveDocs hin
    obtain ⟨hdoc, hpass⟩ := (hmem doc).mp ⟨i, hi, hget⟩
    rw [hget] at hid
    exact ⟨doc, hdoc, hid, hpass⟩
  · rintro ⟨doc, hdoc, rfl, hpass⟩
    obtain ⟨i, hi, hget⟩ := (hmem doc).mpr ⟨hdoc, hpass⟩
    exact ⟨i, hi, by rw [hget]; rfl⟩

/-- With a query, the documents of its results. -/
theorem mem_resultIds_of_query (hquery : request.query.isEmpty = false) {id : DocId} :
    id ∈ x.resultIds round (.ofDocs docs del) ord request ↔
      ∃ i doc, (SegmentReader.ofDocs docs del).getDoc i = some doc ∧ doc.id = id ∧
        i ∈ (x.scoreQuery (.ofDocs docs del)
          (.compute x.schema x.analysis (.ofDocs docs del)) request
          (x.columnFilter round (.ofDocs docs del) request)).1.map Prod.fst := by
  have hlist : ((x.columnExecutor round).execute (.ofDocs docs del) ord request).scoredDocs.map
      ScoredDoc.globalDocId
      = (x.scoreQuery (.ofDocs docs del)
          (.compute x.schema x.analysis (.ofDocs docs del)) request
          (x.columnFilter round (.ofDocs docs del) request)).1.filterMap (fun hit =>
            ((SegmentReader.ofDocs docs del).getDoc hit.1).map Document.id) := by
    have hscore : ∀ reader filter, ((x.columnExecutor round).scoreQuery reader request filter).1
        = (x.scoreQuery reader (.compute x.schema x.analysis reader) request filter).1.map
            (fun hit => (hit.1, round hit.2)) := fun _ _ => rfl
    have hquery' : ¬ request.query.isEmpty = true := by simp [hquery]
    simp only [QueryExecutor.execute, if_neg hquery', hscore, List.map_filterMap,
      List.filterMap_map, Function.comp_def, Option.map_map]
    rfl
  rw [resultIds, List.mem_toFinset, hlist, List.mem_filterMap]
  constructor
  · rintro ⟨hit, hhit, hid⟩
    obtain ⟨doc, hget, hid⟩ := Option.map_eq_some_iff.mp hid
    exact ⟨hit.1, doc, hget, hid, List.mem_map_of_mem hhit⟩
  · rintro ⟨i, doc, hget, hid, hi⟩
    obtain ⟨hit, hhit, rfl⟩ := List.mem_map.mp hi
    exact ⟨hit, hhit, by rw [hget, Option.map_some, hid]⟩

/-- **The ids an execution returns**, with room for all: those of the matches, or, if there are
none, of the documents that match some token. -/
theorem mem_resultIds (hwithin : x.analysis.Within) (hboost : PositiveBoosts x.schema)
    (hlen : docs.length ≤ u32Max) (hquery : request.query.isEmpty = false)
    (hne : x.queryTokens request ≠ [])
    (h : x.Unpruned (.ofDocs docs del) request
      (x.columnFilter round (.ofDocs docs del) request)) (ord : Nat) (id : DocId) :
    id ∈ x.resultIds round (.ofDocs docs del) ord request ↔
      ∃ doc ∈ (SegmentReader.ofDocs docs del).liveDocuments, doc.id = id ∧
        (x.Matches docs request doc ∨
          ((∀ d ∈ (SegmentReader.ofDocs docs del).liveDocuments, ¬ x.Matches docs request d) ∧
            x.MatchesSome request doc)) := by
  have hresult : ∀ i doc, (SegmentReader.ofDocs docs del).getDoc i = some doc →
      (i ∈ (x.scoreQuery (.ofDocs docs del)
        (.compute x.schema x.analysis (.ofDocs docs del)) request
        (x.columnFilter round (.ofDocs docs del) request)).1.map Prod.fst ↔
      x.Matches docs request doc ∨
        ((∀ d ∈ (SegmentReader.ofDocs docs del).liveDocuments, ¬ x.Matches docs request d) ∧
          x.MatchesSome request doc)) := by
    intro i doc hget
    have hdoc : ∀ P : Document → Prop,
        (∃ d, (SegmentReader.ofDocs docs del).getDoc i = some d ∧ P d) ↔ P doc := by
      intro P
      rw [hget]
      simp
    rw [mem_scoreQuery_iff hwithin hboost hlen hne h, matching_eq_nil_iff hwithin hne,
      mem_matching_iff_matches hwithin hne, hdoc, hdoc, passes_columnFilter hget]
    rfl
  rw [mem_resultIds_of_query hquery]
  constructor
  · rintro ⟨i, doc, hget, hid, hi⟩
    exact ⟨doc, SegmentReader.mem_liveDocuments_of_getDoc hget, hid, (hresult i doc hget).mp hi⟩
  · rintro ⟨doc, hlive, hid, hmatch⟩
    obtain ⟨i, hget⟩ := SegmentReader.mem_liveDocuments_iff.mp hlive
    exact ⟨i, doc, hget, hid, (hresult i doc hget).mpr hmatch⟩

end

/-! ## 4. With and without the deleted documents -/

/-- The ids of the documents with a property. -/
def idsWith (docs : List Document) (P : Document → Prop) [DecidablePred P] : Finset DocId :=
  ((docs.filter P).map Document.id).toFinset

theorem mem_idsWith {docs : List Document} {P : Document → Prop} [DecidablePred P] {id : DocId} :
    id ∈ idsWith docs P ↔ ∃ doc ∈ docs, doc.id = id ∧ P doc := by
  rw [idsWith, List.mem_toFinset, List.mem_map]
  simp only [List.mem_filter, decide_eq_true_iff]
  exact exists_congr (fun doc => by tauto)

/-- The documents a segment is left with hide nothing from the query: every token that starts a
term of the dictionary starts one of theirs; or none of them match; or those that match are
those that match some token. -/
def HidesNothing (x : TextExecutor) (docs live : List Document) (request : SearchRequest) :
    Prop :=
  (∀ token ∈ x.queryTokens request,
    (∃ doc ∈ docs, x.Starts token doc) → ∃ doc ∈ live, x.Starts token doc) ∨
  (∀ doc ∈ live, ¬ x.Matches live request doc) ∨
  idsWith live (x.Matches live request) = idsWith live (x.MatchesSome request)

instance (x : TextExecutor) (docs live : List Document) (request : SearchRequest) :
    Decidable (x.HidesNothing docs live request) := inferInstanceAs (Decidable (_ ∨ _ ∨ _))

section

variable {x : TextExecutor} {round : ℝ → F32} {request : SearchRequest}
  {docs live : List Document} {del : Bitmap} {ord ord' : Nat}

/-- A token that starts a term of the documents left finds the same with and without the
others. -/
theorem found_iff_of_starts (hsub : live ⊆ docs) {token : String}
    (h : (∃ doc ∈ docs, x.Starts token doc) → ∃ doc ∈ live, x.Starts token doc)
    (doc : Document) : x.Found docs request token doc ↔ x.Found live request token doc := by
  refine or_congr_right (and_congr_left (fun _ => ⟨fun hnone d hd => hnone d (hsub hd), ?_⟩))
  intro hnone d hd hstarts
  obtain ⟨d', hd', hstarts'⟩ := h ⟨d, hd, hstarts⟩
  exact hnone d' hd' hstarts'

/-- A token that starts terms of the other documents only finds nothing with them. -/
theorem not_matches_of_hidden {token : String} (htoken : token ∈ x.queryTokens request)
    (hdocs : ∃ doc ∈ docs, x.Starts token doc) (hlive : ¬ ∃ doc ∈ live, x.Starts token doc)
    {doc : Document} (hdoc : doc ∈ live) : ¬ x.Matches docs request doc := by
  rintro ⟨-, hfound⟩
  obtain ⟨d, hd, hstarts⟩ := hdocs
  rcases hfound token htoken with hstarts' | ⟨hnone, -⟩
  · exact hlive ⟨doc, hdoc, hstarts'⟩
  · exact hnone d hd hstarts

/-- A query without tokens returns nothing. -/
theorem resultIds_eq_empty (hquery : request.query.isEmpty = false)
    (hnil : x.queryTokens request = []) :
    x.resultIds round (.ofDocs docs del) ord request = ∅ := by
  refine Finset.eq_empty_of_forall_notMem (fun id hid => ?_)
  obtain ⟨i, doc, -, -, hi⟩ := (mem_resultIds_of_query hquery).mp hid
  simp [scoreQuery, scoreQueryWand, hnil] at hi

/-- With a match, the ids of the matches are returned. -/
theorem resultIds_of_match (hwithin : x.analysis.Within) (hboost : PositiveBoosts x.schema)
    (hlen : docs.length ≤ u32Max) (hquery : request.query.isEmpty = false)
    (hne : x.queryTokens request ≠ [])
    (h : x.Unpruned (.ofDocs docs del) request
      (x.columnFilter round (.ofDocs docs del) request))
    (hmatch : ¬ ∀ doc ∈ (SegmentReader.ofDocs docs del).liveDocuments,
      ¬ x.Matches docs request doc) (ord : Nat) :
    x.resultIds round (.ofDocs docs del) ord request
      = idsWith (SegmentReader.ofDocs docs del).liveDocuments (x.Matches docs request) := by
  ext id
  rw [mem_resultIds hwithin hboost hlen hquery hne h, mem_idsWith]
  refine exists_congr (fun doc => and_congr_right (fun _ => and_congr_right (fun _ => ?_)))
  rw [or_iff_left (fun hsome => hmatch hsome.1)]

/-- Without one, the ids of the documents that match some token. -/
theorem resultIds_of_no_match (hwithin : x.analysis.Within) (hboost : PositiveBoosts x.schema)
    (hlen : docs.length ≤ u32Max) (hquery : request.query.isEmpty = false)
    (hne : x.queryTokens request ≠ [])
    (h : x.Unpruned (.ofDocs docs del) request
      (x.columnFilter round (.ofDocs docs del) request))
    (hnone : ∀ doc ∈ (SegmentReader.ofDocs docs del).liveDocuments,
      ¬ x.Matches docs request doc) (ord : Nat) :
    x.resultIds round (.ofDocs docs del) ord request
      = idsWith (SegmentReader.ofDocs docs del).liveDocuments (x.MatchesSome request) := by
  ext id
  rw [mem_resultIds hwithin hboost hlen hquery hne h, mem_idsWith]
  refine exists_congr (fun doc => and_congr_right (fun hdoc => and_congr_right (fun _ => ?_)))
  rw [or_iff_right (hnone doc hdoc), and_iff_right hnone]

/-- **Removing the deleted documents changes no result exactly if** they hide nothing from the
query. -/
theorem removal_neutral_iff (hwithin : x.analysis.Within) (hboost : PositiveBoosts x.schema)
    (hlen : docs.length ≤ u32Max)
    (hopened : x.Unpruned (.ofDocs docs del) request
      (x.columnFilter round (.ofDocs docs del) request))
    (hwritten : x.Unpruned (.ofDocs (SegmentReader.ofDocs docs del).liveDocuments ∅) request
      (x.columnFilter round (.ofDocs (SegmentReader.ofDocs docs del).liveDocuments ∅) request)) :
    x.resultIds round (.ofDocs docs del) ord request
        = x.resultIds round (.ofDocs (SegmentReader.ofDocs docs del).liveDocuments ∅) ord' request ↔
      request.query.isEmpty = true ∨
        x.HidesNothing docs (SegmentReader.ofDocs docs del).liveDocuments request := by
  have hleft := SegmentReader.liveDocuments_ofDocs_empty
    (SegmentReader.ofDocs docs del).liveDocuments
  have hsub := SegmentReader.liveDocuments_sublist_docs docs del
  have hlen' := hsub.length_le.trans hlen
  by_cases hquery : request.query.isEmpty = true
  · refine iff_of_true (Finset.ext (fun id => ?_)) (Or.inl hquery)
    rw [mem_resultIds_of_isEmpty hquery, mem_resultIds_of_isEmpty hquery, hleft]
  rw [or_iff_right hquery]
  have hquery := eq_false_of_ne_true hquery
  by_cases hne : x.queryTokens request = []
  · refine iff_of_true ?_ (Or.inl (by simp [hne]))
    rw [resultIds_eq_empty hquery hne, resultIds_eq_empty hquery hne]
  by_cases hstarts : ∀ token ∈ x.queryTokens request, (∃ doc ∈ docs, x.Starts token doc) →
      ∃ doc ∈ (SegmentReader.ofDocs docs del).liveDocuments, x.Starts token doc
  · have hmatches : ∀ doc, x.Matches docs request doc ↔
        x.Matches (SegmentReader.ofDocs docs del).liveDocuments request doc := fun doc =>
      and_congr_right (fun _ => forall₂_congr (fun token htoken =>
        found_iff_of_starts hsub.subset (hstarts token htoken) doc))
    refine iff_of_true (Finset.ext (fun id => ?_)) (Or.inl hstarts)
    rw [mem_resultIds hwithin hboost hlen hquery hne hopened,
      mem_resultIds hwithin hboost hlen' hquery hne hwritten, hleft]
    simp only [hmatches]
  · obtain ⟨token, htoken, hdocs, hlive⟩ : ∃ token ∈ x.queryTokens request,
        (∃ doc ∈ docs, x.Starts token doc) ∧
        ¬ ∃ doc ∈ (SegmentReader.ofDocs docs del).liveDocuments, x.Starts token doc := by
      push Not at hstarts ⊢
      exact hstarts
    rw [resultIds_of_no_match hwithin hboost hlen hquery hne hopened
      (fun doc hdoc => not_matches_of_hidden htoken hdocs hlive hdoc),
      HidesNothing, or_iff_right hstarts]
    by_cases hnone : ∀ doc ∈ (SegmentReader.ofDocs docs del).liveDocuments,
        ¬ x.Matches (SegmentReader.ofDocs docs del).liveDocuments request doc
    · refine iff_of_true ?_ (Or.inl hnone)
      rw [resultIds_of_no_match hwithin hboost hlen' hquery hne hwritten (by rwa [hleft]), hleft]
    · rw [resultIds_of_match hwithin hboost hlen' hquery hne hwritten (by rwa [hleft]), hleft,
        or_iff_right hnone]
      exact eq_comm

end

/-- With few documents there is room for all matches. -/
theorem unpruned_of_length (x : TextExecutor) (filter : Option Bitmap) (docs : List Document)
    (del : Bitmap) (request : SearchRequest) (hdocs : docs.length ≤ candidateCount request)
    (hidf : ∀ token ∈ x.queryTokens request, x.totalDf (.ofDocs docs del) request token
      ≤ (SegmentReader.ofDocs docs del).allLiveDocs.length) :
    x.Unpruned (.ofDocs docs del) request filter := by
  have hlive : (SegmentReader.ofDocs docs del).allLiveDocs.length ≤ candidateCount request := by
    refine ((List.length_filter_le _ _).trans ?_).trans hdocs
    rw [List.length_range]
    exact le_rfl
  exact ⟨fun token htoken => (Bm25Scorer.idf_pos_iff _ _).mpr (hidf token htoken),
    (List.length_filter_le _ _).trans hlive, fun _ _ _ => (List.length_filter_le _ _).trans hlive⟩

/-- A query that tolerates typos. -/
def tolerant (query : String) : SearchRequest := { query, typoTolerance := true }

/-- **The query "12345" finds the title "12346" only after "123456" is removed**, which is
deleted, but still starts with the query in the dictionary. -/
theorem not_removal_neutral_hidden :
    plain.analysis.Within ∧ PositiveBoosts plain.schema ∧
    plain.Unpruned (.ofDocs [titled 1 "123456", titled 2 "12346"] {0}) (tolerant "12345")
      (plain.columnFilter (fun _ => F32.one)
        (.ofDocs [titled 1 "123456", titled 2 "12346"] {0}) (tolerant "12345")) ∧
    plain.Unpruned (.ofDocs [titled 2 "12346"] ∅) (tolerant "12345")
      (plain.columnFilter (fun _ => F32.one) (.ofDocs [titled 2 "12346"] ∅)
        (tolerant "12345")) ∧
    (SegmentReader.ofDocs [titled 1 "123456", titled 2 "12346"] {0}).liveDocuments
      = [titled 2 "12346"] ∧
    plain.resultIds (fun _ => F32.one) (.ofDocs [titled 1 "123456", titled 2 "12346"] {0}) 0
        (tolerant "12345")
      ≠ plain.resultIds (fun _ => F32.one) (.ofDocs [titled 2 "12346"] ∅) 0
        (tolerant "12345") := by
  have hopened := plain.unpruned_of_length (plain.columnFilter (fun _ => F32.one)
      (.ofDocs [titled 1 "123456", titled 2 "12346"] {0}) (tolerant "12345"))
    [titled 1 "123456", titled 2 "12346"] {0} (tolerant "12345") (by decide) (by decide)
  have hwritten := plain.unpruned_of_length (plain.columnFilter (fun _ => F32.one)
      (.ofDocs [titled 2 "12346"] ∅) (tolerant "12345"))
    [titled 2 "12346"] ∅ (tolerant "12345") (by decide) (by decide)
  refine ⟨within_plainAnalysis, positiveBoosts_defaultProductSchema, hopened, hwritten, rfl, ?_⟩
  rw [resultIds_of_no_match within_plainAnalysis positiveBoosts_defaultProductSchema (by decide)
      (by decide) (by decide) hopened (by decide),
    resultIds_of_match within_plainAnalysis positiveBoosts_defaultProductSchema (by decide)
      (by decide) (by decide) hwritten (by decide)]
  decide

/-- With another title that starts with the query, "123457", nothing changes. -/
theorem removal_neutral_iff_starts :
    plain.resultIds (fun _ => F32.one)
        (.ofDocs [titled 1 "123456", titled 2 "12346", titled 3 "123457"] {0}) 0
        (tolerant "12345")
      = plain.resultIds (fun _ => F32.one) (.ofDocs (SegmentReader.ofDocs
          [titled 1 "123456", titled 2 "12346", titled 3 "123457"] {0}).liveDocuments ∅) 0
        (tolerant "12345") ↔
      (tolerant "12345").query.isEmpty = true ∨
        plain.HidesNothing [titled 1 "123456", titled 2 "12346", titled 3 "123457"]
          (SegmentReader.ofDocs
            [titled 1 "123456", titled 2 "12346", titled 3 "123457"] {0}).liveDocuments
          (tolerant "12345") :=
  removal_neutral_iff within_plainAnalysis positiveBoosts_defaultProductSchema (by decide)
    (plain.unpruned_of_length _ _ _ _ (by decide) (by decide))
    (plain.unpruned_of_length _ _ _ _ (by decide) (by decide))

/-- Without it, "123456" hides "12346". -/
example : ¬ plain.HidesNothing [titled 1 "123456", titled 2 "12346"] [titled 2 "12346"]
    (tolerant "12345") := by
  decide

end TextExecutor

end ZearchEngine
