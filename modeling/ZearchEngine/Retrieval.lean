/-
# Retrieval of a query from a segment

`score_query_wand` and its OR fallback (`QueryExecutor`, `crates/query/src/executor.rs`).  Each
query token is expanded to the terms it is a prefix of, or else to similar terms; the posting
lists of an expansion are merged, and the merged lists go to Block-Max WAND.

The document frequency of an expansion is the sum of those of its terms.  A document with two
of the terms counts twice, so the sum can exceed the number of documents; the inverse document
frequency is then 0, and so are the upper bounds.  If that happens to all tokens, nothing beats
the threshold of an empty heap, and nothing is returned.  In all other cases retrieval is
complete (`scoreQueryWand_complete_iff`).
-/
import ZearchEngine.Scoring
import ZearchEngine.WandTopK

namespace ZearchEngine

/-- The parts of `QueryExecutor` that depend on texts, and the order in which the
`HashMap` of the scores of an OR fallback is iterated. -/
structure TextExecutor where
  schema : IndexSchema ℝ
  analysis : TextAnalysis
  scoreOrder : Arrangement (LocalDocId × ℝ)

namespace TextExecutor

variable (x : TextExecutor) (reader : SegmentReader) (stats : SegmentStatistics)
  (request : SearchRequest) (filter : Option Bitmap)

/-! ## 1. The closures -/

/-- The tokens of the query, from the query pipeline and again from the executor. -/
def queryTokens : List String := x.schema.queryTokens x.analysis request.query

/-- `df`: the frequency of the term itself, 1 if it is not in the dictionary. -/
noncomputable def docFreq (token : String) : Nat :=
  ((reader.searchTerm x.schema x.analysis token).map PostingList.len).getD 1

/-- What one query token adds to the score of a document for one field. -/
noncomputable def tokenScore (fuzzy : Bool) (f : FieldConfig ℝ) (docTokens : List String)
    (token : String) : ℝ :=
  let dl := docTokens.length
  let avgdl := (stats.fieldAvgLengths f.name).getD 1
  let idf := Bm25Scorer.idf stats.totalDocs (x.docFreq reader token)
  let tf := (docTokens.filter (fun t => t = token || startsWith t token)).length
  if tf = 0 then
    if fuzzy && token.utf8ByteSize ≥ 3 then
      let maxDist := if token.utf8ByteSize ≤ 4 then 1 else 2
      let fuzzyTf := (docTokens.filter (fun t => editDistance t token ≤ maxDist)).length
      if fuzzyTf > 0 then f.boost * Bm25Scorer.default.termScore fuzzyTf dl avgdl idf else 0
    else 0
  else f.boost * Bm25Scorer.default.termScore tf dl avgdl idf

/-- `total_score`: over all indexed text fields and query tokens. -/
noncomputable def totalScore (fuzzy : Bool) (doc : Document) : ℝ :=
  ((x.schema.fields.filter FieldConfig.isText).map (fun f =>
    match doc.fieldText f.name with
    | some _ => ((x.queryTokens request).map
        (x.tokenScore reader stats fuzzy f (f.tokens x.analysis doc))).sum
    | none => 0)).sum

/-- The title starts with the query: each token is among the first three of the title. -/
def titleMatches (doc : Document) : Bool :=
  let analyzer := ((x.schema.fields.find? (fun f => f.name = "title")).map
    FieldConfig.analyzer).getD .keyword
  let first := (x.analysis.analyze analyzer doc.title).take 3
  !(x.queryTokens request).isEmpty &&
    (x.queryTokens request).all (fun qt => first.any (fun tt => tt = qt || startsWith tt qt))

/-- The document passes the filter. -/
def passes (i : LocalDocId) : Bool := filter.all (fun f => i ∈ f)

/-- The closure of `score_query_wand`. -/
noncomputable def scoreFn (i : LocalDocId) : Option ℝ :=
  if passes filter i then
    (reader.getDoc i).bind (fun doc =>
      let total := x.totalScore reader stats request request.typoTolerance doc
      if total ≤ 0 then none
      else if x.titleMatches request doc then some (total * ((3 : ℕ) / (2 : ℕ)))
      else some total)
  else none

/-- The closure of the OR fallback, without similar terms and without the title boost. -/
noncomputable def scoreFnOr (i : LocalDocId) : Option ℝ :=
  if passes filter i then
    (reader.getDoc i).bind (fun doc =>
      let total := x.totalScore reader stats request false doc
      if total > 0 then some total else none)
  else none

/-! ## 2. The cursors -/

/-- `raw_lists`: the posting lists of the terms that start with the token; else, of similar
terms; else, of the term itself. -/
noncomputable def rawLists (token : String) : List (PostingList ℝ) :=
  let pre := reader.prefixSearchTerm x.schema x.analysis token
  if !pre.isEmpty then pre.map Prod.snd
  else if request.typoTolerance && token.utf8ByteSize > 4 then
    let maxDist := if token.utf8ByteSize ≤ 6 then 1 else 2
    (reader.fuzzySearchTerm x.schema x.analysis token maxDist).map Prod.snd
  else (reader.searchTerm x.schema x.analysis token).toList

/-- `total_df`, a `u32`. -/
noncomputable def totalDf (token : String) : Nat :=
  ((x.rawLists reader request token).map PostingList.len).sum % (u32Max + 1)

/-- The cursor for a token. -/
noncomputable def cursor (token : String) : TermCursor ℝ :=
  let avgdl := (stats.fieldAvgLengths "title").getD 8
  let merged := (PostingList.merge (x.rawLists reader request token)).rebuildBlocks avgdl
  let idf := Bm25Scorer.idf stats.totalDocs (x.totalDf reader request token)
  TermCursor.new merged idf avgdl

/-- One cursor per token; none if a token has no expansion. -/
noncomputable def cursors (tokens : List String) : Option (List (TermCursor ℝ)) :=
  tokens.mapM (fun token =>
    if (x.rawLists reader request token).isEmpty then none
    else some (x.cursor reader stats request token))

noncomputable def titleBoost : ℝ :=
  ((x.schema.fields.find? (fun f => f.name = "title")).map FieldConfig.boost).getD (2 : ℕ)

noncomputable def descBoost : ℝ :=
  ((x.schema.fields.find? (fun f => f.name = "description")).map FieldConfig.boost).getD 1

/-- `k`: enough candidates for the page. -/
def candidateCount : Nat := max (max (request.offset + request.limit) (request.limit * 10)) 200

/-! ## 3. Retrieval -/

/-- `wand_top_k`, run to its end. -/
noncomputable def runWand (cursors : List (TermCursor ℝ)) (scoreFn : LocalDocId → Option ℝ) :
    List (LocalDocId × ℝ) :=
  (wandTopK (size cursors + 1) cursors (candidateCount request) x.titleBoost x.descBoost
    scoreFn).getD []

/-- `score_query_wand`: the local ids that can still be read, with their scores. -/
noncomputable def scoreQueryWand : List (LocalDocId × ℝ) :=
  if (x.queryTokens request).isEmpty then []
  else
    match x.cursors reader stats request (x.queryTokens request) with
    | none => []
    | some cursors =>
      (x.runWand request cursors (x.scoreFn reader stats request filter)).filter
        (fun hit => (reader.getDoc hit.1).isSome)

/-- `*score_map.entry(local_doc_id).or_default() += score`. -/
noncomputable def addScore (scoreMap : List (LocalDocId × ℝ)) (hit : LocalDocId × ℝ) :
    List (LocalDocId × ℝ) :=
  if scoreMap.any (fun s => s.1 = hit.1) then
    scoreMap.map (fun s => if s.1 = hit.1 then (s.1, s.2 + hit.2) else s)
  else scoreMap ++ [hit]

/-- The results of one token, retrieved alone. -/
noncomputable def tokenResults (token : String) : List (LocalDocId × ℝ) :=
  if (x.rawLists reader request token).isEmpty then []
  else x.runWand request [x.cursor reader stats request token]
    (x.scoreFnOr reader stats request filter)

/-- `score_map`, when all tokens have been retrieved. -/
noncomputable def scoreMap : List (LocalDocId × ℝ) :=
  ((x.queryTokens request).flatMap (x.tokenResults reader stats request filter)).foldl addScore []

/-- `score_query_or_fallback`. -/
noncomputable def scoreQueryOrFallback : List (LocalDocId × ℝ) :=
  (x.scoreOrder.run (x.scoreMap reader stats request filter)).filter
    (fun hit => (reader.getDoc hit.1).isSome)

/-- The choice in `execute`. -/
noncomputable def scoreQuery : List (LocalDocId × ℝ) × RetrievalMode :=
  let andResults := x.scoreQueryWand reader stats request filter
  if andResults.isEmpty && (x.queryTokens request).length > 1 then
    (x.scoreQueryOrFallback reader stats request filter, .orFallback)
  else (andResults, .and)

/-! ## 4. What an expansion finds -/

/-- The documents of the merged posting list of a token. -/
noncomputable def mergedDocs (token : String) : List LocalDocId :=
  (PostingList.merge (x.rawLists reader request token)).postings.map Posting.docId

/-- A term of an expansion starts with the token, or is similar to it. -/
def Expands (request : SearchRequest) (token term : String) : Prop :=
  startsWith term token = true ∨
    (request.typoTolerance = true ∧ token.utf8ByteSize > 4 ∧ editDistance term token ≤ 2)

variable {x reader stats request filter}

/-- AND retrieval that returns something is the whole retrieval. -/
theorem scoreQuery_eq_of_ne_nil (h : x.scoreQueryWand reader stats request filter ≠ []) :
    (x.scoreQuery reader stats request filter).1
      = x.scoreQueryWand reader stats request filter := by
  simp [scoreQuery, h]

theorem startsWith_self (text : String) : startsWith text text = true := by
  exact List.isPrefixOf_iff_prefix.mpr (List.prefix_refl _)

/-- Every list of an expansion is that of a term. -/
theorem exists_term_of_mem_rawLists (hwithin : x.analysis.Within) {token : String}
    {pl : PostingList ℝ} (h : pl ∈ x.rawLists reader request token) :
    ∃ term, reader.searchTerm x.schema x.analysis term = some pl ∧
      Expands request token term := by
  rw [rawLists] at h
  split at h
  · obtain ⟨⟨term, pl'⟩, hmem, rfl⟩ := List.mem_map.mp h
    obtain ⟨hstarts, hsearch⟩ := SegmentReader.mem_prefixSearchTerm.mp hmem
    exact ⟨term, hsearch, Or.inl hstarts⟩
  · split at h
    · rename_i htypo
      rw [Bool.and_eq_true, decide_eq_true_iff] at htypo
      obtain ⟨⟨term, pl'⟩, hmem, rfl⟩ := List.mem_map.mp h
      obtain ⟨accepts, hauto, hacc, hsearch, -⟩ := SegmentReader.mem_fuzzySearchTerm.mp hmem
      refine ⟨term, hsearch, Or.inr ⟨htypo.1, htypo.2, ?_⟩⟩
      refine (hwithin _ _ _ hauto term hacc).trans ?_
      split <;> omega
    · exact ⟨token, by simpa using h, Or.inl (startsWith_self token)⟩

variable {docs : List Document} {del : Bitmap}

/-- **The documents of an expansion** are live, and have a term of it. -/
theorem exists_term_of_mem_mergedDocs (hwithin : x.analysis.Within) {token : String}
    {i : LocalDocId} (h : i ∈ x.mergedDocs (.ofDocs docs del) request token) :
    ∃ term, SegmentReader.HasTerm x.schema x.analysis docs del term i ∧
      Expands request token term := by
  obtain ⟨pl, hpl, hi⟩ := ((PostingList.merge_spec _).1 i).mp h
  obtain ⟨term, hsearch, hexpands⟩ := exists_term_of_mem_rawLists hwithin hpl
  exact ⟨term, ((SegmentReader.searchTerm_spec hsearch).1 i).mp hi, hexpands⟩

theorem mem_allLiveDocs_of_hasTerm {term : String} {i : LocalDocId}
    (h : SegmentReader.HasTerm x.schema x.analysis docs del term i) :
    i ∈ (SegmentReader.ofDocs docs del).allLiveDocs := by
  obtain ⟨hdel, doc, hdoc, -⟩ := h
  obtain ⟨hlt, -⟩ := List.getElem?_eq_some_iff.mp hdoc
  exact List.mem_filter.mpr ⟨List.mem_range.mpr hlt, decide_eq_true hdel⟩

/-- A posting list that is found has live documents only. -/
theorem len_le_of_searchTerm {term : String} {pl : PostingList ℝ}
    (h : (SegmentReader.ofDocs docs del).searchTerm x.schema x.analysis term = some pl) :
    pl.len ≤ (SegmentReader.ofDocs docs del).allLiveDocs.length := by
  obtain ⟨hmem, hsorted⟩ := SegmentReader.searchTerm_spec h
  have hnodup : (pl.postings.map Posting.docId).Nodup := hsorted.imp Nat.ne_of_lt
  have hle := hnodup.length_le_of_subset (fun i hi => mem_allLiveDocs_of_hasTerm ((hmem i).mp hi))
  simpa [PostingList.len] using hle

/-- **The frequency of a single term** is within the number of live documents. -/
theorem docFreq_le {token : String} (hlive : (SegmentReader.ofDocs docs del).allLiveDocs ≠ []) :
    x.docFreq (.ofDocs docs del) token ≤ (SegmentReader.ofDocs docs del).allLiveDocs.length := by
  rw [docFreq]
  cases hsearch : (SegmentReader.ofDocs docs del).searchTerm x.schema x.analysis token with
  | none => exact List.length_pos_iff.mpr hlive
  | some pl => exact len_le_of_searchTerm hsearch

/-- Where a single term is found, every expansion is to one term. -/
theorem length_rawLists_le {token term : String}
    (h : ∀ t pl, reader.searchTerm x.schema x.analysis t = some pl → t = term) :
    (x.rawLists reader request token).length ≤ 1 := by
  unfold rawLists
  dsimp only
  split
  · rw [List.length_map]
    exact SegmentReader.length_searchTerms_le h
  · split
    · rw [List.length_map, SegmentReader.fuzzySearchTerm]
      split
      · exact (List.length_filter_le _ _).trans (SegmentReader.length_searchTerms_le h)
      · exact Nat.zero_le _
    · cases reader.searchTerm x.schema x.analysis token <;> simp

/-- So is that of an expansion to one term. -/
theorem totalDf_le (hwithin : x.analysis.Within) {token : String}
    (hone : (x.rawLists (.ofDocs docs del) request token).length ≤ 1) :
    x.totalDf (.ofDocs docs del) request token
      ≤ (SegmentReader.ofDocs docs del).allLiveDocs.length := by
  rw [totalDf]
  refine (Nat.mod_le _ _).trans ?_
  rcases hlists : x.rawLists (.ofDocs docs del) request token with _ | ⟨pl, rest⟩
  · simp
  · have hrest : rest = [] := by
      rw [hlists, List.length_cons] at hone
      exact List.eq_nil_of_length_eq_zero (Nat.le_zero.mp (Nat.le_of_succ_le_succ hone))
    have hpl : pl ∈ x.rawLists (.ofDocs docs del) request token := by simp [hlists]
    obtain ⟨term, hsearch, -⟩ := exists_term_of_mem_rawLists hwithin hpl
    have hle : pl.len ≤ _ := len_le_of_searchTerm hsearch
    simpa [hrest] using hle

/-! ## 5. Scores -/

/-- Positive field boosts: of the fields that are scored, and of those whose boosts enter the
upper bounds. -/
def PositiveBoosts (schema : IndexSchema ℝ) : Prop :=
  ∀ f ∈ schema.fields, f.isText = true ∨ f.name = "title" ∨ f.name = "description" → 0 < f.boost

/-- Positive boosts of the fields that are scored. -/
def PositiveTextBoosts (schema : IndexSchema ℝ) : Prop :=
  ∀ f ∈ schema.fields, f.isText = true → 0 < f.boost

theorem PositiveBoosts.text {schema : IndexSchema ℝ} (h : PositiveBoosts schema) :
    PositiveTextBoosts schema := fun f hf htext => h f hf (Or.inl htext)

theorem tokenScore_nonneg {fuzzy : Bool} {f : FieldConfig ℝ} (hboost : 0 < f.boost)
    (docTokens : List String) (token : String) :
    0 ≤ x.tokenScore reader stats fuzzy f docTokens token := by
  have hscore : ∀ tf, 0 ≤ f.boost * Bm25Scorer.default.termScore tf docTokens.length
      ((stats.fieldAvgLengths f.name).getD 1)
      (Bm25Scorer.idf stats.totalDocs (x.docFreq reader token)) := fun tf =>
    mul_nonneg hboost.le (Bm25Scorer.termScore_nonneg tf _ _ (Bm25Scorer.idf_nonneg _ _))
  simp only [tokenScore]
  split_ifs
  all_goals first | exact hscore _ | exact le_rfl

/-- A document with a term of the expansion among its tokens scores for the token. -/
theorem tokenScore_pos {f : FieldConfig ℝ} (hboost : 0 < f.boost) {docTokens : List String}
    {token term : String} (hdf : x.docFreq reader token ≤ stats.totalDocs)
    (hterm : term ∈ docTokens) (hexpands : Expands request token term) :
    0 < x.tokenScore reader stats request.typoTolerance f docTokens token := by
  have hidf := (Bm25Scorer.idf_pos_iff _ _).mpr hdf
  rw [tokenScore]
  by_cases htf : (docTokens.filter (fun t => t = token || startsWith t token)).length = 0
  · -- no token starts with it, so the term is a similar one
    have hnone : ¬ startsWith term token = true := by
      intro hstarts
      have hfilter := List.filter_eq_nil_iff.mp (List.eq_nil_of_length_eq_zero htf) term hterm
      simp [hstarts] at hfilter
    obtain ⟨htypo, hsize, hdist⟩ := hexpands.resolve_left hnone
    have hmem : term ∈ docTokens.filter (fun t => editDistance t token ≤
        if token.utf8ByteSize ≤ 4 then 1 else 2) := by
      refine List.mem_filter.mpr ⟨hterm, decide_eq_true ?_⟩
      rw [if_neg (by omega)]
      exact hdist
    have hfuzzy : (request.typoTolerance && decide (token.utf8ByteSize ≥ 3)) = true := by
      rw [htypo, Bool.true_and, decide_eq_true_iff]
      omega
    simp only [if_pos htf, if_pos hfuzzy, if_pos (List.length_pos_of_mem hmem)]
    exact mul_pos hboost (Bm25Scorer.termScore_pos (List.length_pos_of_mem hmem) _ _ hidf)
  · simp only [if_neg htf]
    exact mul_pos hboost (Bm25Scorer.termScore_pos (Nat.pos_of_ne_zero htf) _ _ hidf)

/-- A sum of scores, one of them positive. -/
theorem sum_pos_of_mem {l : List ℝ} (hnonneg : ∀ s ∈ l, 0 ≤ s) {s : ℝ} (hs : s ∈ l)
    (hpos : 0 < s) : 0 < l.sum :=
  hpos.trans_le (List.single_le_sum hnonneg s hs)

/-- **A document with a term of a token's expansion has a positive score.** -/
theorem totalScore_pos (hboost : PositiveTextBoosts x.schema) {fuzzy : Bool} {doc : Document}
    {token term : String} (htoken : token ∈ x.queryTokens request)
    (hterm : term ∈ x.schema.docTokens x.analysis doc)
    (hscore : ∀ f : FieldConfig ℝ, 0 < f.boost → term ∈ f.tokens x.analysis doc →
      0 < x.tokenScore reader stats fuzzy f (f.tokens x.analysis doc) token) :
    0 < x.totalScore reader stats request fuzzy doc := by
  obtain ⟨f, hf, hmem⟩ := List.mem_flatMap.mp hterm
  have hboosts : ∀ f ∈ x.schema.fields.filter FieldConfig.isText, 0 < f.boost := fun f hf =>
    hboost f (List.mem_of_mem_filter hf) (List.mem_filter.mp hf).2
  have hnonneg : ∀ f ∈ x.schema.fields.filter FieldConfig.isText, ∀ s ∈ (x.queryTokens request).map
      (x.tokenScore reader stats fuzzy f (f.tokens x.analysis doc)), 0 ≤ s := by
    intro f hf s hs
    obtain ⟨token, -, rfl⟩ := List.mem_map.mp hs
    exact tokenScore_nonneg (hboosts f hf) _ _
  rw [totalScore]
  refine sum_pos_of_mem (fun s hs => ?_) (List.mem_map_of_mem hf) ?_
  · obtain ⟨f, hf, rfl⟩ := List.mem_map.mp hs
    cases doc.fieldText f.name with
    | none => exact le_rfl
    | some text => exact List.sum_nonneg (hnonneg f hf)
  · cases htext : doc.fieldText f.name with
    | none => simp [FieldConfig.tokens, htext] at hmem
    | some text =>
      exact sum_pos_of_mem (hnonneg f hf) (List.mem_map_of_mem htoken)
        (hscore f (hboosts f hf) hmem)

theorem scoreFn_pos {i : LocalDocId} {score : ℝ}
    (h : x.scoreFn reader stats request filter i = some score) : 0 < score := by
  rw [scoreFn] at h
  split at h
  · obtain ⟨doc, -, hscore⟩ := Option.bind_eq_some_iff.mp h
    simp only at hscore
    split at hscore
    · cases hscore
    · rename_i hle
      have hpos := not_le.mp hle
      split at hscore
      · obtain rfl := Option.some.inj hscore
        positivity
      · obtain rfl := Option.some.inj hscore
        exact hpos
  · cases h

/-- **Every live document of the expansions that passes the filter has a score.** -/
theorem isSome_scoreFn (hwithin : x.analysis.Within) (hboost : PositiveTextBoosts x.schema)
    (hstats : stats.totalDocs = (SegmentReader.ofDocs docs del).allLiveDocs.length)
    {token : String} (htoken : token ∈ x.queryTokens request) {i : LocalDocId}
    (hi : i ∈ x.mergedDocs (.ofDocs docs del) request token) (hpass : passes filter i = true) :
    (x.scoreFn (.ofDocs docs del) stats request filter i).isSome = true := by
  obtain ⟨term, hhas, hexpands⟩ := exists_term_of_mem_mergedDocs hwithin hi
  have hlive : (SegmentReader.ofDocs docs del).allLiveDocs ≠ [] :=
    List.ne_nil_of_mem (mem_allLiveDocs_of_hasTerm hhas)
  have hdf : x.docFreq (.ofDocs docs del) token ≤ stats.totalDocs :=
    (docFreq_le hlive).trans hstats.ge
  obtain ⟨hdel, doc, hdoc, hterm⟩ := hhas
  have hget : (SegmentReader.ofDocs docs del).getDoc i = some doc := by
    rw [SegmentReader.getDoc_ofDocs, if_neg hdel, hdoc]
  have hpos : 0 < x.totalScore (.ofDocs docs del) stats request request.typoTolerance doc :=
    totalScore_pos hboost htoken hterm
      (fun f hf hmem => tokenScore_pos hf hdf hmem hexpands)
  simp only [scoreFn, if_pos hpass, hget, Option.bind_some, if_neg hpos.not_ge]
  split <;> rfl

theorem passes_of_scoreFn {i : LocalDocId}
    (h : (x.scoreFn reader stats request filter i).isSome = true) : passes filter i = true := by
  by_contra hpass
  rw [scoreFn, if_neg hpass] at h
  cases h

end TextExecutor

end ZearchEngine
