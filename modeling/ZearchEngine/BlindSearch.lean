/-
# Searches that do not look at attributes

A search looks at the attributes of a document in three places (`crates/query/src/executor.rs`,
`crates/index/src/segment.rs`): where a column of the schema is filled from an attribute, where
the hits are sorted by one, and where the documents are fetched.  Texts, postings, statistics
and scores come from the title and the description alone (`scoreQuery_edit`).

So with other attributes a search finds the same hits, with the same scores, totals and counts,
and fetches the same documents but for their attributes (`search_edit`), if the values that the
request filters, counts and sorts by stay what they were (`SearchRequest.Blind`).
-/
import ZearchEngine.AttributeBlind
import ZearchEngine.Removal
import ZearchEngine.Sorting

namespace ZearchEngine

open SegmentWriter ShardM

/-! ## 1. Texts -/

section

variable (f : AttributeEdit) {R : Type}

/-- **The postings come from the texts.** -/
theorem invertedIndex_edit [Field R] [LinearOrder R] (schema : IndexSchema R)
    (analysis : TextAnalysis) (docs : List Document) :
    invertedIndex schema analysis (docs.map (Document.edit f))
      = invertedIndex schema analysis docs := by
  have hterms : (docs.map (Document.edit f)).zipIdx.foldl (addDocument schema analysis) ∅
      = docs.zipIdx.foldl (addDocument schema analysis) (∅ : TermPostings R) := by
    rw [List.zipIdx_map, List.foldl_map]
    rfl
  have havg : avgDocLength schema analysis (docs.map (Document.edit f))
      = avgDocLength schema analysis docs := by
    simp only [avgDocLength, List.isEmpty_map, List.length_map, List.map_map]
    rfl
  rw [invertedIndex, invertedIndex, hterms, havg]

namespace SegmentReader

theorem liveDocuments_edit (reader : SegmentReader) :
    (reader.edit f).liveDocuments = reader.liveDocuments.map (Document.edit f) :=
  filterMap_getDoc_edit f reader _

theorem isSome_getDoc_edit (reader : SegmentReader) (i : LocalDocId) :
    ((reader.edit f).getDoc i).isSome = (reader.getDoc i).isSome := by
  rw [getDoc_edit, Option.isSome_map]

variable [Field R] [LinearOrder R] (schema : IndexSchema R) (analysis : TextAnalysis)
  (reader : SegmentReader)

theorem searchTerm_edit (term : String) :
    (reader.edit f).searchTerm schema analysis term = reader.searchTerm schema analysis term := by
  rw [searchTerm, searchTerm, SegmentReader.edit, invertedIndex_edit]
  rfl

theorem searchTerms_edit (accepts : String → Bool) :
    (reader.edit f).searchTerms schema analysis accepts
      = reader.searchTerms schema analysis accepts := by
  rw [searchTerms, searchTerms, SegmentReader.edit, invertedIndex_edit]
  rfl

theorem prefixSearchTerm_edit (pre : String) :
    (reader.edit f).prefixSearchTerm schema analysis pre
      = reader.prefixSearchTerm schema analysis pre := searchTerms_edit f schema analysis reader _

theorem fuzzySearchTerm_edit (term : String) (maxDistance : Nat) :
    (reader.edit f).fuzzySearchTerm schema analysis term maxDistance
      = reader.fuzzySearchTerm schema analysis term maxDistance := by
  simp only [fuzzySearchTerm, searchTerms_edit]

end SegmentReader

theorem SegmentStatistics.compute_edit (schema : IndexSchema ℝ) (analysis : TextAnalysis)
    (reader : SegmentReader) :
    compute schema analysis (reader.edit f) = compute schema analysis reader := by
  have hlengths : (reader.edit f).liveDocuments.foldl (addFieldLengths schema analysis)
        (fun _ => none)
      = reader.liveDocuments.foldl (addFieldLengths schema analysis) (fun _ => none) := by
    rw [SegmentReader.liveDocuments_edit, List.foldl_map]
    rfl
  rw [compute, compute, hlengths]
  rfl

/-! ## 2. Scores -/

namespace TextExecutor

variable (x : TextExecutor) (reader : SegmentReader) (stats : SegmentStatistics)
  (request : SearchRequest) (filter : Option Bitmap)

theorem rawLists_edit (token : String) :
    x.rawLists (reader.edit f) request token = x.rawLists reader request token := by
  simp only [rawLists, SegmentReader.prefixSearchTerm_edit, SegmentReader.fuzzySearchTerm_edit,
    SegmentReader.searchTerm_edit]

theorem cursor_edit (token : String) :
    x.cursor (reader.edit f) stats request token = x.cursor reader stats request token := by
  simp only [cursor, totalDf, rawLists_edit]

theorem totalScore_edit (fuzzy : Bool) (doc : Document) :
    x.totalScore (reader.edit f) stats request fuzzy (doc.edit f)
      = x.totalScore reader stats request fuzzy doc := by
  have htoken : x.tokenScore (reader.edit f) stats fuzzy = x.tokenScore reader stats fuzzy := by
    funext field docTokens token
    simp only [tokenScore, docFreq, SegmentReader.searchTerm_edit]
  rw [totalScore, totalScore, htoken]
  rfl

theorem scoreFn_edit : x.scoreFn (reader.edit f) stats request filter
    = x.scoreFn reader stats request filter := by
  funext i
  simp only [scoreFn, SegmentReader.getDoc_edit, Option.bind_map, Function.comp_def,
    totalScore_edit]
  rfl

theorem scoreFnOr_edit : x.scoreFnOr (reader.edit f) stats request filter
    = x.scoreFnOr reader stats request filter := by
  funext i
  simp only [scoreFnOr, SegmentReader.getDoc_edit, Option.bind_map, Function.comp_def,
    totalScore_edit]

/-- **The scores come from the texts.** -/
theorem scoreQuery_edit :
    x.scoreQuery (reader.edit f) stats request filter
      = x.scoreQuery reader stats request filter := by
  have hwand : x.scoreQueryWand (reader.edit f) stats request filter
      = x.scoreQueryWand reader stats request filter := by
    simp only [scoreQueryWand, cursors, rawLists_edit, cursor_edit, scoreFn_edit,
      SegmentReader.isSome_getDoc_edit]
  have hor : x.scoreQueryOrFallback (reader.edit f) stats request filter
      = x.scoreQueryOrFallback reader stats request filter := by
    have htoken : x.tokenResults (reader.edit f) stats request filter
        = x.tokenResults reader stats request filter := by
      funext token
      simp only [tokenResults, rawLists_edit, cursor_edit, scoreFnOr_edit]
    simp only [scoreQueryOrFallback, scoreMap, htoken, SegmentReader.isSome_getDoc_edit]
  rw [scoreQuery, scoreQuery, hwand, hor]

end TextExecutor

/-! ## 3. Requests -/

/-- What a keyword column is filled with stays what it was. -/
def KeepsKeyword (name : String) : Prop :=
  ∀ doc : Document, keywordValue name (doc.edit f) = keywordValue name doc

/-- And so for a numeric column. -/
def KeepsNumeric (name : String) : Prop :=
  ∀ doc : Document, numericValue name (doc.edit f) = numericValue name doc

/-- The values that the request filters, counts and sorts by stay what they were, where the
schema has columns for them. -/
structure SearchRequest.Blind (schema : IndexSchema R) (request : SearchRequest) : Prop where
  keywordFilters : ∀ e ∈ request.filters, (∀ gte lte, e.2 ≠ .range gte lte) →
    schema.hasKeywordColumn e.1 = true → KeepsKeyword f e.1
  rangeFilters : ∀ e ∈ request.filters, (∃ gte lte, e.2 = .range gte lte) →
    schema.hasNumericColumn e.1 = true → KeepsNumeric f e.1
  aggregations : ∀ field ∈ request.aggregations, schema.hasKeywordColumn field = true →
    KeepsKeyword f field
  sort : ∀ spec, request.sort = some spec → ∀ doc : Document,
    (doc.edit f).sortValue spec.field = doc.sortValue spec.field

variable {f} {schema : IndexSchema R}

theorem keywordColumns_edit {name : String}
    (h : schema.hasKeywordColumn name = true → KeepsKeyword f name) (docs : List Document) :
    (columnStore schema (docs.map (Document.edit f))).keywordColumns name
      = (columnStore schema docs).keywordColumns name := by
  rw [keywordColumns_columnStore, keywordColumns_columnStore]
  by_cases hcol : schema.hasKeywordColumn name = true
  · rw [if_pos hcol, if_pos hcol, keywordWriter, keywordWriter, List.foldl_map]
    simp only [h hcol _]
  · rw [if_neg hcol, if_neg hcol]

theorem numericColumns_edit {name : String}
    (h : schema.hasNumericColumn name = true → KeepsNumeric f name) (docs : List Document) :
    (columnStore schema (docs.map (Document.edit f))).numericColumns name
      = (columnStore schema docs).numericColumns name := by
  rw [numericColumns_columnStore, numericColumns_columnStore]
  by_cases hcol : schema.hasNumericColumn name = true
  · rw [if_pos hcol, if_pos hcol, numericWriter, numericWriter, List.foldl_map]
    simp only [h hcol _]
  · rw [if_neg hcol, if_neg hcol]

namespace SearchRequest.Blind

variable {request : SearchRequest} (h : request.Blind f schema)
include h

/-- **A filter of the request selects what it selected.** -/
theorem filter_eq {e : String × FilterValue} (he : e ∈ request.filters) (docs : List Document) :
    (columnStore schema (docs.map (Document.edit f))).filter e.1 e.2
      = (columnStore schema docs).filter e.1 e.2 := by
  obtain ⟨field, filter⟩ := e
  cases filter with
  | equality eq =>
    have hcol := keywordColumns_edit (h.keywordFilters _ he (fun _ _ hrange => by cases hrange))
      docs
    simp only [ColumnStore.filter, ColumnStore.filterEq, hcol]
  | range gte lte =>
    have hcol := numericColumns_edit (h.rangeFilters _ he ⟨gte, lte, rfl⟩) docs
    simp only [ColumnStore.filter, ColumnStore.filterRange, hcol]
  | multiValue values =>
    have hcol := keywordColumns_edit (h.keywordFilters _ he (fun _ _ hrange => by cases hrange))
      docs
    simp only [ColumnStore.filter, ColumnStore.filterIn, hcol]

theorem aggregateCounts_eq {field : String} (hfield : field ∈ request.aggregations)
    (docs : List Document) (matchingDocs : Bitmap) :
    (columnStore schema (docs.map (Document.edit f))).aggregateCounts field matchingDocs
      = (columnStore schema docs).aggregateCounts field matchingDocs := by
  have hcol := keywordColumns_edit (h.aggregations field hfield) docs
  simp only [ColumnStore.aggregateCounts, hcol]

theorem sortValue_eq (reader : SegmentReader) (i : LocalDocId) :
    QueryExecutor.sortValue (reader.edit f) i request.sort
      = QueryExecutor.sortValue reader i request.sort := by
  cases hsort : request.sort with
  | none => rfl
  | some spec =>
    cases hdoc : reader.getDoc i with
    | none =>
      have hnone : (reader.edit f).getDoc i = none := by rw [SegmentReader.getDoc_edit, hdoc]; rfl
      simp only [QueryExecutor.sortValue, hdoc, hnone]
    | some doc =>
      have hedit : (reader.edit f).getDoc i = some (doc.edit f) := by
        rw [SegmentReader.getDoc_edit, hdoc]
        rfl
      rw [QueryExecutor.sortValue_eq hedit, QueryExecutor.sortValue_eq hdoc, h.sort spec hsort]

end SearchRequest.Blind

end

/-! ## 4. Searches -/

/-- The hit, had its document had other attributes. -/
def SearchHit.edit (f : AttributeEdit) (hit : SearchHit) : SearchHit :=
  { hit with document := hit.document.map (Document.edit f) }

def SearchResponse.edit (f : AttributeEdit) (response : SearchResponse) : SearchResponse :=
  { response with hits := response.hits.map (SearchHit.edit f) }

variable {f : AttributeEdit} {x : TextExecutor} {request : SearchRequest}

theorem buildFilterBitmap_edit (h : request.Blind f x.schema) (round : ℝ → F32)
    (reader : SegmentReader) :
    (x.columnExecutor round).buildFilterBitmap (reader.edit f) request
      = (x.columnExecutor round).buildFilterBitmap reader request := by
  have hcolumns : ∀ (combined : Bitmap), ∀ e ∈ request.filters,
      combined ∩ ((columnStore x.schema (reader.columns.map (Document.edit f))).filter e.1 e.2
          \ reader.docs.deletionBitmap)
        = combined ∩ ((columnStore x.schema reader.columns).filter e.1 e.2
          \ reader.docs.deletionBitmap) := fun combined e he => by
    rw [h.filter_eq he]
  have hfold := List.foldl_ext _ _ reader.allLiveDocs.toFinset hcolumns
  simp only [QueryExecutor.buildFilterBitmap]
  split
  · rfl
  · exact congrArg some hfold

/-- **A segment yields what it yielded.** -/
theorem execute_edit (h : request.Blind f x.schema) (round : ℝ → F32) (reader : SegmentReader)
    (ord : Nat) :
    (x.columnExecutor round).execute (reader.edit f) ord request
      = (x.columnExecutor round).execute reader ord request := by
  have hscore : ∀ filter, (x.columnExecutor round).scoreQuery (reader.edit f) request filter
      = (x.columnExecutor round).scoreQuery reader request filter := by
    intro filter
    simp only [TextExecutor.columnExecutor, QueryExecutor.withColumns, TextExecutor.executor,
      SegmentStatistics.compute_edit, TextExecutor.scoreQuery_edit]
  have hid : ∀ i, ((reader.edit f).getDoc i).map Document.id
      = (reader.getDoc i).map Document.id := by
    intro i
    rw [SegmentReader.getDoc_edit, Option.map_map]
    rfl
  have hlive : (reader.edit f).allLiveDocs = reader.allLiveDocs := rfl
  have hcounts : ∀ matchingDocs : Bitmap, request.aggregations.dedup.map (fun field =>
        (field, (x.columnExecutor round).aggregateCounts (reader.edit f).columns field
          matchingDocs))
      = request.aggregations.dedup.map (fun field =>
        (field, (x.columnExecutor round).aggregateCounts reader.columns field matchingDocs)) :=
    fun matchingDocs => List.map_congr_left (fun field hfield => by
      have hsame := h.aggregateCounts_eq (List.mem_dedup.mp hfield) reader.columns matchingDocs
      exact congrArg (Prod.mk field) hsame)
  have hhits : ∀ (hit : LocalDocId × F32), ((reader.edit f).getDoc hit.1).map (fun doc =>
        ({ segmentOrd := ord, localDocId := hit.1, globalDocId := doc.id, score := hit.2
           sortValue := QueryExecutor.sortValue reader hit.1 request.sort } : ScoredDoc))
      = (reader.getDoc hit.1).map (fun doc =>
        ({ segmentOrd := ord, localDocId := hit.1, globalDocId := doc.id, score := hit.2
           sortValue := QueryExecutor.sortValue reader hit.1 request.sort } : ScoredDoc)) := by
    intro hit
    rw [SegmentReader.getDoc_edit, Option.map_map]
    rfl
  simp only [QueryExecutor.execute, buildFilterBitmap_edit h, hscore, hid, hlive, hcounts,
    h.sortValue_eq, hhits]

namespace MultiSegmentSearcher

theorem fetch_edit (segments : List SegmentReader) (scored : ScoredDoc) :
    fetch (segments.map (SegmentReader.edit f)) scored
      = (fetch segments scored).map (SearchHit.edit f) := by
  simp only [fetch, List.getElem?_map]
  cases segments[scored.segmentOrd]? with
  | none => rfl
  | some reader =>
    simp only [Option.map_some, Option.bind_eq_bind, Option.bind_some, SegmentReader.getDoc_edit]
    cases reader.getDoc scored.localDocId <;> rfl

/-- **A search finds what it found**, and fetches it with other attributes. -/
theorem search_edit {m : MultiSegmentSearcher} {round : ℝ → F32}
    (hm : m.executor = x.columnExecutor round) (h : request.Blind f x.schema)
    (segments : List SegmentReader) :
    m.search (segments.map (SegmentReader.edit f)) request
      = (m.search segments request).edit f := by
  have hresults : m.results (segments.map (SegmentReader.edit f)) request
      = m.results segments request := by
    rw [results, results, hm, List.zipIdx_map, List.map_map]
    exact List.map_congr_left (fun p _ => execute_edit h round p.1 p.2)
  have hfetch : ∀ page : List ScoredDoc,
      page.filterMap (fetch (segments.map (SegmentReader.edit f)))
        = (page.filterMap (fetch segments)).map (SearchHit.edit f) := by
    intro page
    rw [List.map_filterMap]
    exact List.filterMap_congr (fun scored _ => fetch_edit segments scored)
  simp only [search, hresults, hfetch]
  rfl

end MultiSegmentSearcher

/-- **A shard answers as it answered**, whatever state it is in. -/
theorem ShardEngine.search_edit {s : ShardEngine} {round : ℝ → F32}
    (hs : s.searcher.executor = x.columnExecutor round) (h : request.Blind f x.schema) :
    ShardEngine.search request (s.edit f)
      = ((ShardEngine.search request s).1.map (SearchResponse.edit f),
          (ShardEngine.search request s).2.edit f) := by
  rw [ShardEngine.search, ShardM.bind_apply, ShardM.bind_apply, tracks_bufferReader s]
  cases hbuffer : ShardEngine.bufferReader s with
  | mk result s' =>
    cases result with
    | error e => rfl
    | ok reader =>
      have hsearcher : s'.searcher = s.searcher := by
        have hstate := congrArg (fun result => result.2.searcher) hbuffer
        rw [← hstate, ShardEngine.bufferReader]
        cases s.writeBuffer.readerAndStats <;> rfl
      have hreaders : (s'.edit f).segments.segments.map SegmentEntry.reader
            ++ (reader.map (SegmentReader.edit f)).toList
          = (s'.segments.segments.map SegmentEntry.reader ++ reader.toList).map
              (SegmentReader.edit f) := by
        rw [List.map_append, List.map_map, ← Option.toList_map]
        exact congrArg (· ++ _) List.map_map
      have hsearch := MultiSegmentSearcher.search_edit (hsearcher ▸ hs) h
        (s'.segments.segments.map SegmentEntry.reader ++ reader.toList)
      show (Except.ok _, _) = (Except.ok _, _)
      refine Prod.ext (congrArg Except.ok ?_) rfl
      rw [← hsearch, ← hreaders]
      rfl

/-! ## 5. Runs -/

/-- **What a search finds does not depend on the attributes that it does not look at.**  After any
run of operations on a new shard, and after the same run on documents with other attributes, a
search answers the same hits with the same scores, totals and counts, and with the documents of
the one run where the other has its own. -/
theorem ShardEngine.search_runNew_edit {round : ℝ → F32} {searcher : MultiSegmentSearcher}
    (hsearcher : searcher.executor = x.columnExecutor round) (h : request.Blind f x.schema)
    (writeBufferSize : Nat) (ops : List Op) :
    (ShardEngine.search request
        (runNew writeBufferSize searcher (ops.map (Op.edit f)))).1
      = (ShardEngine.search request (runNew writeBufferSize searcher ops)).1.map
          (SearchResponse.edit f) := by
  have hs : (runNew writeBufferSize searcher ops).searcher.executor = x.columnExecutor round := by
    rw [searcher_runNew, hsearcher]
  rw [runNew_edit, ShardEngine.search_edit hs h]

/-- The columns of the product schema, and hits of equal rank in order. -/
noncomputable def MultiSegmentSearcher.plainColumns : MultiSegmentSearcher where
  executor := TextExecutor.plain.columnExecutor (fun _ => F32.one)
  sortUnstable := .stable
  bucketOrder _ := .keep

/-- A search in a category, among documents that have lost all attributes. -/
theorem ShardEngine.search_runNew_edit_category :
    (ShardEngine.search { query := "1", filters := [("category", .equality "")] }
        (runNew 64 .plainColumns ([.index (titled 1 "1"), .index (titled 2 "2")].map
          (Op.edit (fun _ => .empty))))).1
      = (ShardEngine.search { query := "1", filters := [("category", .equality "")] }
          (runNew 64 .plainColumns [.index (titled 1 "1"), .index (titled 2 "2")])).1.map
            (SearchResponse.edit (fun _ => .empty)) := by
  refine @search_runNew_edit _ .plain _ (fun _ => F32.one) _ rfl ?_ 64 _
  exact
    { keywordFilters := fun e he _ _ => by
        rw [List.mem_singleton.mp he]
        exact fun _ => rfl
      rangeFilters := fun e he hrange _ => by
        rw [List.mem_singleton.mp he] at hrange
        simp at hrange
      aggregations := fun _ hfield => absurd hfield List.not_mem_nil
      sort := fun _ hsort => by cases hsort }

end ZearchEngine
