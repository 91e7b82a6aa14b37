/-
# Searching with a filter

A match-all search with one filter, on a shard whose segments were written under a schema.
Every segment, and the buffer's temporary one, has the columns the schema gives it, so the
search returns exactly the live documents that the columns select (`search_filtered`).

Under the default product schema only `category` has a keyword column and only `price` a
numeric one, and both hold the document's own field of that name.  No attribute has a column.
`filter_iff` says when a filter on a field nevertheless returns the documents whose attribute of
that name matches: when every live document's field agrees with its attribute.
-/
import ZearchEngine.AppendOnly
import ZearchEngine.Column
import Mathlib.Algebra.Order.BigOperators.Group.List
import Mathlib.Algebra.Field.Rat

namespace ZearchEngine

open SegmentWriter

variable {R : Type}

/-! ## 1. A searcher over a schema's columns -/

/-- The executor whose filters and counts are those of the schema's columns. -/
def QueryExecutor.withColumns (x : QueryExecutor) (schema : IndexSchema R) : QueryExecutor :=
  { x with
    columnFilter := fun docs field filter => (columnStore schema docs).filter field filter
    aggregateCounts := fun docs field matchingDocs =>
      (columnStore schema docs).aggregateCounts field matchingDocs }

def MultiSegmentSearcher.withColumns (m : MultiSegmentSearcher) (schema : IndexSchema R) :
    MultiSegmentSearcher :=
  { m with executor := m.executor.withColumns schema }

/-- A match-all request with one filter, whose page has room for `n` documents. -/
structure SearchRequest.FiltersBy (request : SearchRequest) (field : String)
    (filter : FilterValue) (n : Nat) : Prop extends request.Lists n where
  filters : request.filters = [(field, filter)]

/-- The document has what each filter of the request asks for. -/
def SearchRequest.passes (schema : IndexSchema R) (request : SearchRequest) (doc : Document) :
    Bool :=
  request.filters.all (fun e => schema.selects e.1 e.2 doc)

/-- Each filter takes its part of the bitmap. -/
theorem mem_foldl_inter {α : Type} {i : LocalDocId} (bitmap : α → Bitmap) :
    ∀ (filters : List α) (init : Bitmap),
      i ∈ filters.foldl (fun combined e => combined ∩ bitmap e) init ↔
        i ∈ init ∧ ∀ e ∈ filters, i ∈ bitmap e
  | [], init => by simp
  | e :: filters, init => by
    rw [List.foldl_cons, mem_foldl_inter bitmap filters, Finset.mem_inter, List.forall_mem_cons,
      and_assoc]

/-- **What matches in a segment**: the live ids whose documents pass the filters. -/
theorem matching_withColumns (x : QueryExecutor) (schema : IndexSchema R)
    (request : SearchRequest) (docs : List Document) (del : Bitmap) :
    (x.withColumns schema).matching (.ofDocs docs del) request
      = (SegmentReader.ofDocs docs del).allLiveDocs.filter
          (fun i => docs[i]?.any (request.passes schema)) := by
  have hpass : ∀ i ∈ (SegmentReader.ofDocs docs del).allLiveDocs,
      ((∀ e ∈ request.filters, i ∈ (columnStore schema docs).filter e.1 e.2 \ del) ↔
        docs[i]?.any (request.passes schema) = true) := by
    intro i hi
    obtain ⟨hrange, hdel⟩ := List.mem_filter.mp hi
    have hlive : i ∉ del := of_decide_eq_true hdel
    have hlt : i < docs.length := List.mem_range.mp hrange
    have hdoc : docs[i]? = some docs[i] := List.getElem?_eq_getElem hlt
    simp only [Finset.mem_sdiff, hlive, not_false_eq_true, and_true, mem_filter_columnStore, hdoc,
      Option.some.injEq, exists_eq_left', Option.any_some, SearchRequest.passes, List.all_eq_true]
  rw [QueryExecutor.matching, QueryExecutor.buildFilterBitmap]
  by_cases hnone : request.filters.isEmpty
  · rw [if_pos hnone]
    refine (List.filter_eq_self.mpr fun i hi => (hpass i hi).mp ?_).symm
    rw [List.isEmpty_iff.mp hnone]
    exact fun e he => absurd he List.not_mem_nil
  · rw [if_neg hnone]
    refine List.filter_congr fun i hi => ?_
    have hmem := mem_foldl_inter (i := i)
      (fun e : String × FilterValue => (columnStore schema docs).filter e.1 e.2 \ del)
      request.filters (SegmentReader.ofDocs docs del).allLiveDocs.toFinset
    rw [List.mem_toFinset, hpass i hi, and_iff_right hi] at hmem
    exact Bool.eq_iff_iff.mpr (decide_eq_true_iff.trans hmem)

/-- **The documents that match in a segment** are the live ones that pass the filters. -/
theorem filterMap_matching_passes (x : QueryExecutor) (schema : IndexSchema R)
    (request : SearchRequest) (docs : List Document) (del : Bitmap) :
    ((x.withColumns schema).matching (.ofDocs docs del) request).filterMap
        (SegmentReader.ofDocs docs del).getDoc
      = (SegmentReader.ofDocs docs del).liveDocuments.filter (request.passes schema) := by
  rw [matching_withColumns, ← SegmentReader.filterMap_allLiveDocs, List.filter_filterMap,
    List.filterMap_filter]
  refine List.filterMap_congr (fun i hi => ?_)
  have hlive : i ∉ del := of_decide_eq_true (List.mem_filter.mp hi).2
  have hget : (SegmentReader.ofDocs docs del).getDoc i = docs[i]? := by
    rw [SegmentReader.getDoc_ofDocs, if_neg hlive]
  rw [hget]
  cases docs[i]? with
  | none => rfl
  | some doc => by_cases hpass : request.passes schema doc <;> simp [hpass, Option.filter]

/-- With one filter, those its column selects. -/
theorem filterMap_matching {request : SearchRequest} {field : String} {filter : FilterValue}
    (h : request.filters = [(field, filter)]) (x : QueryExecutor) (schema : IndexSchema R)
    (docs : List Document) (del : Bitmap) :
    ((x.withColumns schema).matching (.ofDocs docs del) request).filterMap
        (SegmentReader.ofDocs docs del).getDoc
      = (SegmentReader.ofDocs docs del).liveDocuments.filter (schema.selects field filter) := by
  rw [filterMap_matching_passes]
  refine List.filter_congr fun doc _ => ?_
  rw [SearchRequest.passes, h, List.all_cons, List.all_nil, Bool.and_true]

namespace ShardEngine

/-! ## 2. On a shard -/

/-- A change leaves the searcher as it is. -/
theorem searcher_change (s : ShardEngine) (c : Change) : (s.change c).searcher = s.searcher := by
  cases c with
  | reopen =>
    have hreplay : ∀ (entries : List WalEntry) (t : ShardEngine),
        (entries.foldl replay t).searcher = t.searcher := by
      intro entries
      induction entries with
      | nil => exact fun _ => rfl
      | cons entry entries ih =>
        intro t
        rw [List.foldl_cons, ih]
        cases entry <;> rfl
    exact hreplay _ _
  | _ => rfl

theorem searcher_runNew (writeBufferSize : Nat) (searcher : MultiSegmentSearcher)
    (ops : List Op) : (runNew writeBufferSize searcher ops).searcher = searcher := by
  have hrun : ∀ (cs : List Change) (s : ShardEngine),
      (LabelledRun.run change s cs).searcher = s.searcher := by
    intro cs
    induction cs with
    | nil => exact fun _ => rfl
    | cons c cs ih => exact fun s => (ih (s.change c)).trans (s.searcher_change c)
  rw [runNew, run_step_eq ops _ (inv_new writeBufferSize searcher), hrun]
  rfl

/-- Every match-all search with this filter, with room for all documents, returns exactly
these. -/
def ShowsFiltered (s : ShardEngine) (field : String) (filter : FilterValue)
    (docs : Multiset Document) : Prop :=
  ∀ request : SearchRequest, request.FiltersBy field filter s.stats.docCount →
    ∃ response, (search request s).1 = .ok response ∧ response.Returns docs

/-- **A filtered search returns the live documents the columns select.** -/
theorem search_filtered {s : ShardEngine} (h : Inv s) {m : MultiSegmentSearcher}
    {schema : IndexSchema R} (hsearcher : s.searcher = m.withColumns schema) (field : String)
    (filter : FilterValue) :
    s.ShowsFiltered field filter
      (s.visible.filter (fun doc => schema.selects field filter doc)) := by
  intro request hreq
  have hreader : ∀ reader ∈ s.readers,
      (s.searcher.executor.matching reader request).filterMap reader.getDoc
        = reader.liveDocuments.filter (schema.selects field filter) ∧
      (s.searcher.executor.matching reader request).length ≤ reader.allLiveDocs.length := by
    intro reader hr
    obtain ⟨docs, del, rfl⟩ := h.readable.ofDocs_of_mem_readers hr
    refine ⟨?_, ?_⟩
    · rw [hsearcher]
      exact filterMap_matching hreq.filters m.executor schema docs del
    · unfold QueryExecutor.matching
      split
      · exact List.length_filter_le _ _
      · exact Nat.le_refl _
  have hroom : (s.readers.map (fun r => (s.searcher.executor.matching r request).length)).sum
      ≤ s.stats.docCount := by
    refine le_trans ?_ h.card_visible_le
    rw [← h.readable.sum_allLiveDocs]
    exact List.sum_le_sum (fun reader hr => (hreader reader hr).2)
  have hlists : request.Lists
      (s.readers.map (fun r => (s.searcher.executor.matching r request).length)).sum :=
    ⟨hreq.query, hreq.offset, hroom.trans hreq.limit⟩
  have hdocs := s.searcher.documents_search s.readers hlists
  have hall : s.readers.flatMap
        (fun r => (s.searcher.executor.matching r request).filterMap r.getDoc)
      = (s.readers.flatMap SegmentReader.liveDocuments).filter (schema.selects field filter) := by
    rw [List.filter_flatMap]
    exact List.flatMap_congr (fun reader hr => (hreader reader hr).1)
  have hvisible : (↑((s.segments.liveDocuments ++ s.writeBuffer.allDocs).filter
        (schema.selects field filter)) : Multiset Document)
      = s.visible.filter (fun doc => schema.selects field filter doc) := by
    rw [visible, Multiset.coe_add, Multiset.filter_coe]
    simp
  have hreturns := s.searcher.returns_documents s.readers request
  rw [hdocs, hall, flatMap_readers, hvisible] at hreturns
  exact ⟨_, by rw [search_eq h request]; rfl, hreturns⟩

theorem filtersBy_docCount (s : ShardEngine) (field : String) (filter : FilterValue) :
    SearchRequest.FiltersBy { filters := [(field, filter)], limit := s.stats.docCount } field
      filter s.stats.docCount :=
  ⟨⟨rfl, rfl, Nat.le_refl _⟩, rfl⟩

/-- And it returns nothing else. -/
theorem showsFiltered_iff {s : ShardEngine} (h : Inv s) {m : MultiSegmentSearcher}
    {schema : IndexSchema R} (hsearcher : s.searcher = m.withColumns schema) (field : String)
    (filter : FilterValue) (docs : Multiset Document) :
    s.ShowsFiltered field filter docs ↔
      s.visible.filter (fun doc => schema.selects field filter doc) = docs := by
  have hall := search_filtered h hsearcher field filter
  constructor
  · intro hshows
    obtain ⟨response, hok, hreturns⟩ := hshows _ (s.filtersBy_docCount field filter)
    obtain ⟨response', hok', hreturns'⟩ := hall _ (s.filtersBy_docCount field filter)
    obtain rfl : response' = response := by
      rw [hok, Except.ok.injEq] at hok'
      exact hok'.symm
    exact hreturns'.unique hreturns
  · rintro rfl
    exact hall

end ShardEngine

/-! ## 3. The default product schema -/

/-- The attribute of the document matches: a string that is the value, or one of the values, or
a number within the bounds. -/
def FilterValue.matchesAttribute (filter : FilterValue) (field : String) (doc : Document) : Bool :=
  match filter, doc.attributes.get field with
  | .equality eq, some (.string v) => v = eq
  | .range gte lte, some (.number v) => ColumnStore.withinBounds gte lte v
  | .multiValue values, some (.string v) => v ∈ values
  | _, _ => false

/-- The document's own field matches: its category under `category`, its price under `price`. -/
def FilterValue.matchesField (filter : FilterValue) (field : String) (doc : Document) : Bool :=
  match filter with
  | .equality eq => field = "category" && doc.category = eq
  | .range gte lte => field = "price" && ColumnStore.withinBounds gte lte doc.price
  | .multiValue values => field = "category" && doc.category ∈ values

/-- **No attribute has a column**: under the default schema a filter selects by the document's
own field, if there is one of that name. -/
theorem selects_defaultProductSchema [Field R] (field : String) (filter : FilterValue)
    (doc : Document) :
    (IndexSchema.defaultProductSchema : IndexSchema R).selects field filter doc
      = filter.matchesField field doc := by
  have hkeyword : (IndexSchema.defaultProductSchema : IndexSchema R).hasKeywordColumn field
      = decide (field = "category") := by
    simp [IndexSchema.hasKeywordColumn, IndexSchema.defaultProductSchema,
      FieldConfig.isKeywordColumn]
  have hnumeric : (IndexSchema.defaultProductSchema : IndexSchema R).hasNumericColumn field
      = decide (field = "price") := by
    simp [IndexSchema.hasNumericColumn, IndexSchema.defaultProductSchema,
      FieldConfig.isNumericColumn]
  cases filter with
  | equality eq =>
    simp only [IndexSchema.selects, hkeyword, FilterValue.matchesField]
    by_cases hfield : field = "category"
    · simp [hfield, keywordValue]
    · simp [hfield]
  | range gte lte =>
    simp only [IndexSchema.selects, hnumeric, FilterValue.matchesField]
    by_cases hfield : field = "price"
    · simp [hfield, numericValue]
    · simp [hfield]
  | multiValue values =>
    simp only [IndexSchema.selects, hkeyword, FilterValue.matchesField]
    by_cases hfield : field = "category"
    · simp [hfield, keywordValue]
    · simp [hfield]

namespace ShardEngine

/-- **When a filter works on attributes.**  After any run on a new shard under the default
schema: a match-all search with a filter on a field returns exactly the live documents whose
attribute of that name matches, if and only if for every live document the attribute matches
exactly when the document's own field does: its category under `category`, its price under
`price`, and nothing under any other name. -/
theorem filter_iff [Field R] (writeBufferSize : Nat) (searcher : MultiSegmentSearcher)
    (ops : List Op) (field : String) (filter : FilterValue) :
    let s := runNew writeBufferSize
      (searcher.withColumns (IndexSchema.defaultProductSchema : IndexSchema R)) ops
    s.ShowsFiltered field filter (s.visible.filter (fun doc => filter.matchesAttribute field doc)) ↔
      ∀ doc ∈ s.visible, filter.matchesField field doc = filter.matchesAttribute field doc := by
  intro s
  have hinv : Inv s := inv_runNew writeBufferSize _ ops
  have hsearcher : s.searcher
      = searcher.withColumns (IndexSchema.defaultProductSchema : IndexSchema R) :=
    searcher_runNew writeBufferSize _ ops
  rw [showsFiltered_iff hinv hsearcher]
  simp only [selects_defaultProductSchema]
  constructor
  · intro heq doc hdoc
    have hmem := congrArg (fun docs => doc ∈ docs) heq
    simpa [hdoc] using hmem
  · intro hagree
    exact Multiset.filter_congr (fun doc hdoc => by rw [hagree doc hdoc])

/-- A television of a brand. -/
def sonyTv : Document :=
  { titled 1 "tv" with
    category := "tvs"
    attributes := ⟨[("brand", .string "Sony")], by decide⟩ }

/-- **A filter on an attribute finds nothing**: the shard shows the one document indexed, its
`brand` is "Sony", and a search filtered by that brand does not return it. -/
theorem filter_misses_brand :
    let s := runNew 1000 (MultiSegmentSearcher.unscored.withColumns
      (IndexSchema.defaultProductSchema : IndexSchema ℚ)) [.index sonyTv]
    s.visible = {sonyTv} ∧
    (FilterValue.equality "Sony").matchesAttribute "brand" sonyTv ∧
    ¬ s.ShowsFiltered "brand" (.equality "Sony")
      (s.visible.filter (fun doc =>
        (FilterValue.equality "Sony").matchesAttribute "brand" doc)) := by
  intro s
  have hvisible : s.visible = {sonyTv} := by decide
  have hbrand : (FilterValue.equality "Sony").matchesAttribute "brand" sonyTv := by decide
  refine ⟨hvisible, hbrand, fun hshows => ?_⟩
  have hinv : Inv s := inv_runNew 1000 _ _
  have hselect := (showsFiltered_iff hinv (searcher_runNew 1000 _ _) _ _ _).mp hshows
  have hcard := congrArg Multiset.card hselect
  rw [hvisible] at hcard
  simp only [selects_defaultProductSchema] at hcard
  exact absurd hcard (by decide)

end ShardEngine

end ZearchEngine
