/-
# Facets and totals of browse queries

What `Router::search` counts for a request without a query, where the documents lie in segments
and the segments on shards.  The counts of a field go through the dictionary of a column, a merge
over the segments of a shard (`MultiSegmentSearcher::search`), the shard client and a second merge
over the shards (`Router::search`).

Each merge adds up (`facetCount_mergeAggregations`), and a column counts the documents of its
segment that hold a value (`get_aggregateCounts`).  So the counts do not depend on where the
documents lie (`browse_counts`).  Only keyword fields have a column to be counted; what the counts
of another field are is not a matter of its documents' values (`no_facet_of_title`).
-/
import ZearchEngine.Cluster
import ZearchEngine.Filtering
import ZearchEngine.Lib.Tally
import ZearchEngine.Sorting

namespace ZearchEngine

open SegmentWriter

/-! ## 1. Merging counts -/

namespace MultiSegmentSearcher

theorem addCount_eq (counts : Counts) (count : String × Nat) :
    addCount counts count = Tally.upsert (· + ·) 0 counts count := by
  rw [addCount, Tally.upsert, Nat.zero_add]

theorem addAggregation_eq (merged : List (String × Counts)) (aggregation : String × Counts) :
    addAggregation merged aggregation
      = Tally.upsert (fun counts more => more.foldl addCount counts) [] merged aggregation := by
  rw [addAggregation, Tally.upsert]
  split
  · rfl
  · next hnone =>
    have hothers : merged.map (fun m => if m.1 = aggregation.1 then
        (m.1, aggregation.2.foldl addCount m.2) else m) = merged := by
      refine (List.map_congr_left fun m hm => if_neg fun heq => hnone ?_).trans (List.map_id _)
      exact List.any_eq_true.mpr ⟨m, hm, decide_eq_true heq⟩
    rw [List.map_append, hothers]
    simp

end MultiSegmentSearcher

open MultiSegmentSearcher

/-- What is counted for a value of a field; 0 if it is not listed. -/
def facetCount (aggregations : List (String × Counts)) (field value : String) : Nat :=
  Tally.get 0 (Tally.get [] aggregations field) value

/-- No field is listed twice, and no value of a field. -/
structure Tallied (aggregations : List (String × Counts)) : Prop where
  fields : Tally.Distinct aggregations
  values : ∀ a ∈ aggregations, Tally.Distinct a.2

/-- The merge of `MultiSegmentSearcher::search` and of `Router::search`. -/
def mergeAggregations (order : String → Arrangement (String × Nat))
    (aggregations : List (String × Counts)) : List (String × Counts) :=
  (aggregations.foldl addAggregation []).map
    (fun (field, counts) => (field, sortBuckets (order field) counts))

theorem addAggregation_funext :
    addAggregation = Tally.upsert (fun counts more => more.foldl addCount counts) [] := by
  funext merged aggregation
  exact addAggregation_eq merged aggregation

theorem addCount_funext : addCount = Tally.upsert (· + ·) 0 := by
  funext counts count
  exact addCount_eq counts count

/-- Counts that are added up are distinct. -/
theorem distinct_foldl_addCount (lists : List Counts) {counts : Counts}
    (h : Tally.Distinct counts) :
    Tally.Distinct (lists.foldl (fun counts more => more.foldl addCount counts) counts) := by
  induction lists generalizing counts with
  | nil => exact h
  | cons more lists ih =>
    refine ih ?_
    rw [addCount_funext]
    exact h.foldl_upsert (· + ·) 0 more

/-- What a field has after the merge: the counts of its own lists, added up and sorted. -/
theorem get_mergeAggregations (order : String → Arrangement (String × Nat))
    (aggregations : List (String × Counts)) (field : String) :
    Tally.get [] (mergeAggregations order aggregations) field
      = sortBuckets (order field) (((aggregations.filter (fun a => a.1 = field)).map
          Prod.snd).foldl (fun counts more => more.foldl addCount counts) []) := by
  have hnil : sortBuckets (order field) [] = [] := by
    rw [sortBuckets, Arrangement.run_nil]
    rfl
  have hmap := Tally.get_map ([] : Counts) (fun field => sortBuckets (order field))
    (aggregations.foldl addAggregation []) field
  rw [addAggregation_funext, Tally.get_foldl_upsert, hnil] at hmap
  rw [mergeAggregations, addAggregation_funext]
  exact hmap

theorem perm_sortBuckets (order : Arrangement (String × Nat)) (counts : Counts) :
    (sortBuckets order counts).Perm counts :=
  (List.perm_insertionSort _ _).trans (order.perm counts)

theorem distinct_sortBuckets (order : Arrangement (String × Nat)) {counts : Counts}
    (h : Tally.Distinct counts) : Tally.Distinct (sortBuckets order counts) :=
  (((perm_sortBuckets order counts).map Prod.fst).nodup_iff).mpr h

theorem tallied_mergeAggregations (order : String → Arrangement (String × Nat))
    (aggregations : List (String × Counts)) : Tallied (mergeAggregations order aggregations) := by
  have hfields : Tally.Distinct (mergeAggregations order aggregations) := by
    rw [Tally.Distinct, mergeAggregations, List.map_map, addAggregation_funext]
    exact Tally.Distinct.foldl_upsert _ _ aggregations List.nodup_nil
  refine ⟨hfields, fun a ha => ?_⟩
  rw [← Tally.get_eq_of_mem [] hfields ha, get_mergeAggregations]
  exact distinct_sortBuckets _ (distinct_foldl_addCount _ List.nodup_nil)

theorem Tallied.distinct_get {aggregations : List (String × Counts)} (h : Tallied aggregations)
    (field : String) : Tally.Distinct (Tally.get [] aggregations field) := by
  rcases Tally.get_cases [] aggregations field with hnil | ⟨a, ha, hvalue⟩
  · rw [hnil]
    exact List.nodup_nil
  · rw [hvalue]
    exact h.values a ha

/-- Counts of several lists, added up for one value. -/
theorem get_foldl_addCount (value : String) : ∀ (lists : List Counts) (counts : Counts),
    Tally.get 0 (lists.foldl (fun counts more => more.foldl addCount counts) counts) value
      = Tally.get 0 counts value + (lists.map (fun more => Tally.sumOf id more value)).sum
  | [], _ => rfl
  | more :: lists, counts => by
    rw [List.foldl_cons, get_foldl_addCount value lists, addCount_funext,
      Tally.get_foldl_upsert_add, List.map_cons, List.sum_cons, Nat.add_assoc]

/-- **A merge adds up.** -/
theorem facetCount_mergeAggregations {α : Type} (order : String → Arrangement (String × Nat))
    (l : List α) (g : α → List (String × Counts)) (h : ∀ a ∈ l, Tallied (g a)) (field value : String) :
    facetCount (mergeAggregations order (l.flatMap g)) field value
      = (l.map (fun a => facetCount (g a) field value)).sum := by
  let lists := (((l.flatMap g).filter (fun a => a.1 = field)).map Prod.snd)
  let merged := lists.foldl (fun counts more => more.foldl addCount counts) []
  have hmerged : facetCount (mergeAggregations order (l.flatMap g)) field value
      = Tally.get 0 merged value := by
    rw [facetCount, get_mergeAggregations]
    exact Tally.get_perm 0 (perm_sortBuckets (order field) merged)
      (distinct_sortBuckets (order field) (distinct_foldl_addCount lists List.nodup_nil)) value
  have hsum : Tally.get 0 merged value
      = Tally.sumOf (fun more => Tally.sumOf id more value) (l.flatMap g) field := by
    rw [get_foldl_addCount, List.map_map]
    exact Nat.zero_add _
  rw [hmerged, hsum, Tally.sumOf_flatMap]
  refine congrArg List.sum (List.map_congr_left fun a ha => ?_)
  have hone : Tally.sumOf (fun more => Tally.sumOf id more value) (g a) field
      = Tally.sumOf id (Tally.get [] (g a) field) value :=
    Tally.sumOf_eq _ [] rfl field (h a ha).fields
  rw [hone, Tally.sumOf_eq id 0 rfl value ((h a ha).distinct_get field)]
  rfl

/-! ## 2. Counting in a column -/

variable {R : Type}

/-- The places of the documents that hold a value. -/
def valuePlaces (docs : List Document) (field : String) (matchingDocs : Bitmap) (value : String) :
    Bitmap :=
  matchingDocs.filter (fun i => docs[i]?.bind (keywordValue field) = some value)

/-- The counts of a column, by the documents and not by ordinals. -/
theorem aggregateCounts_columnStore {schema : IndexSchema R} {field : String}
    (hcol : schema.hasKeywordColumn field = true) (docs : List Document) (matchingDocs : Bitmap) :
    (columnStore schema docs).aggregateCounts field matchingDocs
      = ((keywordWriter field docs).table.values.map
          (fun value => (value, (valuePlaces docs field matchingDocs value).card))).filter
            (fun count => 0 < count.2) := by
  have hstore := keywordColumns_columnStore schema docs field
  rw [if_pos hcol] at hstore
  have hplaces : ∀ value, matchingDocs.filter
      (fun i => (keywordWriter field docs).values[i]? = some (some value))
        = valuePlaces docs field matchingDocs value := by
    intro value
    refine Finset.filter_congr fun i _ => ?_
    rw [values_keywordWriter, List.getElem?_map, Option.map_eq_some_iff,
      Option.bind_eq_some_iff]
  simp only [aggregateCounts_build hstore, hplaces]

theorem distinct_aggregateCounts (schema : IndexSchema R) (docs : List Document) (field : String)
    (matchingDocs : Bitmap) :
    Tally.Distinct ((columnStore schema docs).aggregateCounts field matchingDocs) := by
  by_cases hcol : schema.hasKeywordColumn field
  · have hstore := keywordColumns_columnStore schema docs field
    rw [if_pos hcol] at hstore
    exact nodup_aggregateCounts_build hstore matchingDocs
  · rw [ColumnStore.aggregateCounts, keywordColumns_columnStore, if_neg hcol]
    exact List.nodup_nil

/-- **A column counts the documents that hold a value.** -/
theorem get_aggregateCounts (schema : IndexSchema R) (docs : List Document) (field value : String)
    (matchingDocs : Bitmap) :
    Tally.get 0 ((columnStore schema docs).aggregateCounts field matchingDocs) value
      = if schema.hasKeywordColumn field then (valuePlaces docs field matchingDocs value).card
        else 0 := by
  have hdistinct := distinct_aggregateCounts schema docs field matchingDocs
  by_cases hcol : schema.hasKeywordColumn field
  · rw [if_pos hcol]
    rw [aggregateCounts_columnStore hcol] at hdistinct ⊢
    by_cases hpos : 0 < (valuePlaces docs field matchingDocs value).card
    · -- some document holds the value, so it is in the dictionary
      obtain ⟨i, hi⟩ := Finset.card_pos.mp hpos
      obtain ⟨doc, hdoc, hvalue⟩ := Option.bind_eq_some_iff.mp (Finset.mem_filter.mp hi).2
      have hread := values_keywordWriter field docs
      rw [KeywordColumnWriter.values] at hread
      have hplace : (Interner.decode (keywordWriter field docs).table.values
          (keywordWriter field docs).ordinals)[i]? = some (some value) := by
        rw [hread, List.getElem?_map, hdoc, Option.map_some, hvalue]
      have hdict := Interner.mem_values_of_decode hplace
      exact Tally.get_eq_of_mem 0 hdistinct (List.mem_filter.mpr
        ⟨List.mem_map_of_mem hdict, decide_eq_true hpos⟩)
    · rw [Nat.eq_zero_of_not_pos hpos]
      refine Tally.get_eq_of_forall_ne 0 fun m hm hkey => hpos ?_
      obtain ⟨hmem, hcount⟩ := List.mem_filter.mp hm
      obtain ⟨v, -, rfl⟩ := List.mem_map.mp hmem
      obtain rfl : v = value := hkey
      exact of_decide_eq_true hcount
  · rw [if_neg hcol, ColumnStore.aggregateCounts, keywordColumns_columnStore, if_neg hcol]
    rfl

/-! ## 3. One segment -/

/-- The documents of a field's value. -/
def holdsValue (schema : IndexSchema R) (field value : String) (doc : Document) : Bool :=
  schema.hasKeywordColumn field && keywordValue field doc = some value

section

variable (m : MultiSegmentSearcher) (schema : IndexSchema R) (request : SearchRequest)

theorem getDoc_of_mem_matching {x : QueryExecutor} {docs : List Document} {del : Bitmap}
    {i : LocalDocId} (h : i ∈ (x.withColumns schema).matching (.ofDocs docs del) request) :
    (SegmentReader.ofDocs docs del).getDoc i = docs[i]? := by
  rw [matching_withColumns] at h
  have hlive : i ∉ del := of_decide_eq_true (List.mem_filter.mp (List.mem_filter.mp h).1).2
  rw [SegmentReader.getDoc_ofDocs, if_neg hlive]

/-- What is counted in a segment is what matches. -/
theorem aggregations_execute (hquery : request.query = "") (x : QueryExecutor)
    (docs : List Document) (del : Bitmap) (ord : Nat) :
    ((x.withColumns schema).execute (.ofDocs docs del) ord request).aggregations
      = request.aggregations.dedup.map (fun field =>
          (field, (columnStore schema docs).aggregateCounts field
            ((x.withColumns schema).matching (.ofDocs docs del) request).toFinset)) := by
  have hscored := congrArg (List.map Prod.snd)
    (scoredDocs_execute hquery (x.withColumns schema) (.ofDocs docs del) ord)
  have hids : ((x.withColumns schema).execute (.ofDocs docs del) ord request).scoredDocs.map
      ScoredDoc.localDocId = (x.withColumns schema).matching (.ofDocs docs del) request := by
    rw [List.map_map, List.map_map] at hscored
    exact hscored.trans (List.map_id _)
  rw [← hids]
  rfl

theorem tallied_columns (docs : List Document) (fields : List String) (matchingDocs : Bitmap) :
    Tallied (fields.dedup.map (fun field =>
      (field, (columnStore schema docs).aggregateCounts field matchingDocs))) := by
  refine ⟨?_, fun a ha => ?_⟩
  · rw [Tally.Distinct, List.map_map]
    exact (List.map_id _).symm ▸ List.nodup_dedup _
  · obtain ⟨field, -, rfl⟩ := List.mem_map.mp ha
    exact distinct_aggregateCounts schema docs field _

theorem tallied_execute (hquery : request.query = "") (x : QueryExecutor)
    (docs : List Document) (del : Bitmap) (ord : Nat) :
    Tallied ((x.withColumns schema).execute (.ofDocs docs del) ord request).aggregations := by
  rw [aggregations_execute schema request hquery]
  exact tallied_columns schema docs _ _

/-- **What the columns count** for a field that is asked for. -/
theorem facetCount_columns (docs : List Document) {fields : List String} {field : String}
    (hfield : field ∈ fields) (value : String) (matchingDocs : Bitmap) :
    facetCount (fields.dedup.map (fun field =>
        (field, (columnStore schema docs).aggregateCounts field matchingDocs))) field value
      = (matchingDocs.filter
          (fun i => docs[i]?.any (holdsValue schema field value) = true)).card := by
  have hget : Tally.get [] (fields.dedup.map (fun field =>
      (field, (columnStore schema docs).aggregateCounts field matchingDocs))) field
      = (columnStore schema docs).aggregateCounts field matchingDocs :=
    Tally.get_eq_of_mem [] (tallied_columns schema docs fields matchingDocs).fields
      (List.mem_map_of_mem (List.mem_dedup.mpr hfield))
  rw [facetCount, hget, get_aggregateCounts]
  by_cases hcol : schema.hasKeywordColumn field
  · rw [if_pos hcol, valuePlaces]
    refine congrArg Finset.card (Finset.filter_congr fun i _ => ?_)
    cases docs[i]? <;> simp [holdsValue, hcol]
  · rw [if_neg hcol, eq_comm, Finset.card_eq_zero]
    refine Finset.filter_eq_empty_iff.mpr fun i _ => ?_
    cases docs[i]? <;> simp [holdsValue, hcol]

/-- Counting what matches is counting the live documents that pass. -/
theorem length_filter_passes (x : QueryExecutor) (docs : List Document) (del : Bitmap)
    (p : Document → Bool) :
    ((SegmentReader.ofDocs docs del).liveDocuments.filter (fun doc =>
        request.passes schema doc && p doc)).length
      = ((x.withColumns schema).matching (.ofDocs docs del) request).countP
          (fun i => docs[i]?.any p) := by
  have hsplit := List.filter_filter (p := p) (q := request.passes schema)
    (l := (SegmentReader.ofDocs docs del).liveDocuments)
  rw [← filterMap_matching_passes x schema request docs del, List.filter_filterMap] at hsplit
  simp only [Bool.and_comm (request.passes schema _)]
  rw [← hsplit, List.length_filterMap_eq_countP]
  refine List.countP_congr fun i hi => ?_
  rw [getDoc_of_mem_matching schema request hi]
  cases docs[i]? with
  | none => simp
  | some doc => by_cases hholds : p doc <;> simp [hholds, Option.filter]

/-- **The total of one segment**, of a request without a query. -/
theorem length_matching (x : QueryExecutor) (docs : List Document) (del : Bitmap) :
    ((x.withColumns schema).matching (.ofDocs docs del) request).length
      = ((SegmentReader.ofDocs docs del).liveDocuments.filter (request.passes schema)).length := by
  have hall := length_filter_passes schema request x docs del (fun _ => true)
  simp only [Bool.and_true] at hall
  rw [hall, eq_comm, List.countP_eq_length]
  intro i hi
  rw [matching_withColumns] at hi
  obtain ⟨doc, hdoc, -⟩ := (Option.any_eq_true _ _).mp (List.mem_filter.mp hi).2
  rw [hdoc]
  rfl

/-- **The counts of one segment**, of a request without a query. -/
theorem facetCount_execute (hquery : request.query = "") (x : QueryExecutor)
    (docs : List Document) (del : Bitmap) (ord : Nat) {field : String}
    (hfield : field ∈ request.aggregations) (value : String) :
    facetCount ((x.withColumns schema).execute (.ofDocs docs del) ord request).aggregations field
        value
      = ((SegmentReader.ofDocs docs del).liveDocuments.filter (fun doc =>
          request.passes schema doc && holdsValue schema field value doc)).length := by
  let found := (x.withColumns schema).matching (.ofDocs docs del) request
  have hnodup : found.Nodup := by
    rw [show found = _ from matching_withColumns x schema request docs del]
    exact (SegmentReader.nodup_allLiveDocs _).filter _
  rw [aggregations_execute schema request hquery, facetCount_columns schema docs hfield,
    length_filter_passes schema request x docs del, List.countP_eq_length_filter,
    ← List.toFinset_card_of_nodup (hnodup.filter _), List.toFinset_filter]

end

/-! ## 4. Shards and the router -/

/-- What the shard client makes of a response. -/
def ShardSearchResult.ofResponse (response : SearchResponse) : ShardSearchResult where
  hits := response.hits.map (fun hit => (hit.id, hit.score))
  totalHits := response.totalHits
  aggregations := response.aggregations
  usedOrFallback := response.retrievalMode = .orFallback

/-- A segment, opened after the deletion of some ids. -/
def openedSegment (deleted : DocId → Bool) (docs : List Document) : SegmentReader :=
  .ofDocs docs (Interner.positions (fun doc => deleted doc.id) docs)

theorem liveDocuments_openedSegment (deleted : DocId → Bool) (docs : List Document) :
    (openedSegment deleted docs).liveDocuments = docs.filter (fun doc => !deleted doc.id) := by
  have hget : ∀ i, (openedSegment deleted docs).getDoc i
      = docs[i]?.bind (fun doc => if deleted doc.id then none else some doc) := by
    intro i
    rw [openedSegment, SegmentReader.getDoc_ofDocs]
    cases hdoc : docs[i]? with
    | none => simp
    | some doc =>
      by_cases hdel : deleted doc.id <;> simp [Interner.mem_positions, hdoc, hdel]
  have hlive : (openedSegment deleted docs).liveDocuments
      = ((List.range docs.length).filterMap (docs[·]?)).filterMap
          (fun doc => if deleted doc.id then none else some doc) := by
    rw [List.filterMap_filterMap]
    exact List.filterMap_congr fun i _ => hget i
  rw [hlive, SegmentReader.filterMap_getElem?_range, ← List.filterMap_eq_filter]
  refine List.filterMap_congr fun doc _ => ?_
  by_cases hdel : deleted doc.id <;> simp [hdel, Option.guard]

section

variable (m : MultiSegmentSearcher) (schema : IndexSchema R) (deleted : DocId → Bool)
  (request : SearchRequest)

/-- The live documents among some. -/
def liveDocs (docs : List Document) : List Document := docs.filter (fun doc => !deleted doc.id)

/-- What a shard answers that holds these segments. -/
def segmentsResult (segments : List (List Document)) : ShardSearchResult :=
  .ofResponse ((m.withColumns schema).search (segments.map (openedSegment deleted)) request)

/-- The same number, segment by segment. -/
theorem sum_length_filter (p : Document → Bool) (segments : List (List Document)) :
    (segments.map (fun docs => ((liveDocs deleted docs).filter p).length)).sum
      = ((liveDocs deleted segments.flatten).filter p).length := by
  rw [liveDocs, List.filter_flatten, List.filter_flatten, List.length_flatten, List.map_map,
    List.map_map]
  rfl

/-- **The total of a shard.** -/
theorem totalHits_segmentsResult (hquery : request.query = "") (segments : List (List Document)) :
    (segmentsResult m schema deleted request segments).totalHits
      = ((liveDocs deleted segments.flatten).filter (request.passes schema)).length := by
  show ((m.withColumns schema).search _ request).totalHits = _
  rw [totalHits_search _ hquery, ← sum_length_filter, List.map_map]
  refine congrArg List.sum (List.map_congr_left fun docs _ => ?_)
  rw [liveDocs, ← liveDocuments_openedSegment]
  exact length_matching schema request m.executor docs _

theorem aggregations_segmentsResult (segments : List (List Document)) :
    (segmentsResult m schema deleted request segments).aggregations
      = mergeAggregations m.bucketOrder (((segments.map (openedSegment deleted)).zipIdx).flatMap
          (fun e => ((m.executor.withColumns schema).execute e.1 e.2 request).aggregations)) := by
  show mergeAggregations m.bucketOrder ((results _ _ request).flatMap _) = _
  rw [results, List.flatMap_map]
  rfl

/-- **The counts of a shard.** -/
theorem facetCount_segmentsResult (hquery : request.query = "") (segments : List (List Document))
    {field : String} (hfield : field ∈ request.aggregations) (value : String) :
    facetCount (segmentsResult m schema deleted request segments).aggregations field value
      = ((liveDocs deleted segments.flatten).filter (fun doc =>
          request.passes schema doc && holdsValue schema field value doc)).length := by
  rw [aggregations_segmentsResult, facetCount_mergeAggregations, ← sum_length_filter]
  · conv_rhs => rw [← List.zipIdx_map_fst 0 segments, List.map_map]
    rw [List.zipIdx_map, List.map_map]
    refine congrArg List.sum (List.map_congr_left fun e _ => ?_)
    show facetCount ((m.executor.withColumns schema).execute (openedSegment deleted e.1) e.2
      request).aggregations field value = ((liveDocs deleted e.1).filter _).length
    rw [liveDocs, ← liveDocuments_openedSegment]
    exact facetCount_execute schema request hquery m.executor e.1 _ e.2 hfield value
  · intro e he
    rw [List.zipIdx_map] at he
    obtain ⟨e', -, rfl⟩ := List.mem_map.mp he
    exact tallied_execute schema request hquery m.executor e'.1 _ e'.2

end

namespace Router

variable (r : Router) (m : MultiSegmentSearcher) (schema : IndexSchema R)
  (deleted : DocId → Bool) (placement : Fin r.shards → List (List Document))

/-- All shards answer the search, each from its segments; what they bring to the calls for
documents is left open. -/
def segmentAnswers (rest : Answers r.shards) : Answers r.shards :=
  { rest with
    search := fun i request => some (segmentsResult m schema deleted request (placement i)) }

/-- What a response counts depends on what the shards answered alone. -/
theorem counts_search (answers : Answers r.shards) {request : Request}
    (hanswer : r.gather answers request ≠ []) :
    ∃ response, r.search answers none request = .ok response ∧
      response.totalHits
        = ((r.gather answers request).map ShardSearchResult.totalHits).sum ∧
      response.aggregations = mergeAggregations r.bucketOrder
        ((r.gather answers request).flatMap ShardSearchResult.aggregations) ∧
      response.retrievalMode
        = if (r.gather answers request).any ShardSearchResult.usedOrFallback then .orFallback
          else .and := by
  have hempty : (r.gather answers request).isEmpty = false := by simpa using hanswer
  simp only [search, scatterGather, hempty, Bool.false_eq_true, if_false]
  exact ⟨_, rfl, rfl, rfl, rfl⟩

theorem gather_segmentAnswers (rest : Answers r.shards) (request : Request) :
    r.gather (r.segmentAnswers m schema deleted placement rest) request
      = (List.finRange r.shards).map
          (fun i => segmentsResult m schema deleted (r.shardRequest request) (placement i)) := by
  rw [gather, ← List.filterMap_eq_map]
  rfl

/-- A count over all shards is one over all documents. -/
theorem sum_length_placement {docs : List Document}
    (hplacement : ((List.finRange r.shards).flatMap (fun i => (placement i).flatten)).Perm docs)
    (p : Document → Bool) :
    ((List.finRange r.shards).map (fun i =>
        ((liveDocs deleted (placement i).flatten).filter p).length)).sum
      = ((liveDocs deleted docs).filter p).length := by
  have hperm := ((hplacement.filter (fun doc => !deleted doc.id)).filter p).length_eq
  rw [List.filter_flatMap, List.filter_flatMap, List.length_flatMap] at hperm
  exact hperm

/-- **What the router counts**, for every field: the documents whose column holds the value. -/
theorem search_segmentAnswers (docs : List Document)
    (hplacement : ((List.finRange r.shards).flatMap (fun i => (placement i).flatten)).Perm docs)
    (rest : Answers r.shards) (request : Request) (hquery : request.query = "") :
    ∃ response,
      r.search (r.segmentAnswers m schema deleted placement rest) none request = .ok response ∧
      response.totalHits
        = ((liveDocs deleted docs).filter (request.passes schema)).length ∧
      Tallied response.aggregations ∧
      ∀ field ∈ request.aggregations, ∀ value,
        facetCount response.aggregations field value
          = ((liveDocs deleted docs).filter (fun doc =>
              request.passes schema doc && holdsValue schema field value doc)).length := by
  have hgather := r.gather_segmentAnswers m schema deleted placement rest request
  have hanswer : r.gather (r.segmentAnswers m schema deleted placement rest) request ≠ [] := by
    rw [hgather]
    exact List.ne_nil_of_mem (List.mem_map_of_mem (List.mem_finRange (r.shardFor 0)))
  obtain ⟨response, hok, htotal, haggregations, -⟩ := r.counts_search _ hanswer
  refine ⟨response, hok, ?_, ?_, fun field hfield value => ?_⟩
  · rw [htotal, hgather, List.map_map, ← r.sum_length_placement deleted placement hplacement]
    exact congrArg List.sum (List.map_congr_left fun i _ =>
      totalHits_segmentsResult m schema deleted (r.shardRequest request) hquery _)
  · rw [haggregations]
    exact tallied_mergeAggregations _ _
  · rw [haggregations, hgather, List.flatMap_map, facetCount_mergeAggregations,
      ← r.sum_length_placement deleted placement hplacement]
    · exact congrArg List.sum (List.map_congr_left fun i _ =>
        facetCount_segmentsResult m schema deleted (r.shardRequest request) hquery _ hfield
          value)
    · intro i _
      rw [aggregations_segmentsResult]
      exact tallied_mergeAggregations _ _

end Router

/-! ## 5. Where the documents lie does not matter -/

/-- What a filter asks of a document, whatever columns there are. -/
def FilterValue.accepts (filter : FilterValue) (field : String) (doc : Document) : Bool :=
  match filter with
  | .equality eq => keywordValue field doc = some eq
  | .range gte lte => (numericValue field doc).any (ColumnStore.withinBounds gte lte)
  | .multiValue values => (keywordValue field doc).any (fun v => v ∈ values)

/-- The schema gives the field a column of the kind the filter is for. -/
def IndexSchema.hasColumnFor (schema : IndexSchema R) (field : String) : FilterValue → Bool
  | .equality _ => schema.hasKeywordColumn field
  | .range _ _ => schema.hasNumericColumn field
  | .multiValue _ => schema.hasKeywordColumn field

theorem selects_eq_accepts {schema : IndexSchema R} {field : String} {filter : FilterValue}
    (h : schema.hasColumnFor field filter = true) (doc : Document) :
    schema.selects field filter doc = filter.accepts field doc := by
  cases filter <;>
    simp only [IndexSchema.hasColumnFor] at h <;>
    simp [IndexSchema.selects, FilterValue.accepts, h]

namespace Router

/-- **Facets and totals do not depend on where the documents lie.**  For every split of the
documents into segments and of the segments onto shards, every set of deleted ids and every
request without a query, whose filters are on fields with a column of their kind: the total is the
number of live documents that pass all filters, and the count of each value of an aggregated
keyword field is the number of those that hold the value. -/
theorem browse_counts (r : Router) (m : MultiSegmentSearcher) (schema : IndexSchema R)
    (docs : List Document) (deleted : DocId → Bool)
    (placement : Fin r.shards → List (List Document))
    (hplacement : ((List.finRange r.shards).flatMap (fun i => (placement i).flatten)).Perm docs)
    (rest : Answers r.shards) (request : Request) (hquery : request.query = "")
    (hfilters : ∀ e ∈ request.filters, schema.hasColumnFor e.1 e.2 = true) :
    ∃ response,
      r.search (r.segmentAnswers m schema deleted placement rest) none request = .ok response ∧
      response.totalHits = ((liveDocs deleted docs).filter (fun doc =>
        request.filters.all (fun e => e.2.accepts e.1 doc))).length ∧
      Tallied response.aggregations ∧
      ∀ field ∈ request.aggregations, schema.hasKeywordColumn field = true → ∀ value,
        facetCount response.aggregations field value
          = ((liveDocs deleted docs).filter (fun doc =>
              request.filters.all (fun e => e.2.accepts e.1 doc) &&
                decide (keywordValue field doc = some value))).length := by
  have hpasses : ∀ doc, request.passes schema doc
      = request.filters.all (fun e => e.2.accepts e.1 doc) := by
    intro doc
    rw [SearchRequest.passes, Bool.eq_iff_iff, List.all_eq_true, List.all_eq_true]
    exact forall₂_congr fun e he => by rw [selects_eq_accepts (hfilters e he)]
  obtain ⟨response, hok, htotal, htallied, hfacets⟩ := r.search_segmentAnswers m schema
    deleted placement docs hplacement rest request hquery
  refine ⟨response, hok, ?_, htallied, fun field hfield hcol value => ?_⟩
  · rw [htotal, funext hpasses]
  · rw [hfacets field hfield value]
    simp only [hpasses, holdsValue, hcol, Bool.true_and]

/-- Shards that find their live documents. -/
def findLive {n : Nat} (deleted : DocId → Bool) (placement : Fin n → List (List Document)) :
    Answers n where
  search _ _ := none
  candidateDocs i docIds :=
    some ((liveDocs deleted (placement i).flatten).filter (fun doc => doc.id ∈ docIds))
  pageDocs i docIds :=
    some ((liveDocs deleted (placement i).flatten).filter (fun doc => doc.id ∈ docIds))

/-- Three televisions and a radio, in three segments. -/
def shelved : Fin double.shards → List (List Document)
  | ⟨0, _⟩ =>
    [ [ { ShardEngine.titled 1 "a" with category := "tvs" }
      , { ShardEngine.titled 2 "b" with category := "tvs" } ]
    , [{ ShardEngine.titled 3 "c" with category := "radios" }] ]
  | _ => [[{ ShardEngine.titled 4 "d" with category := "tvs" }]]

/-- One of the televisions is deleted, and two are counted. -/
theorem browse_counts_shelved :
    ∃ response,
      double.search (double.segmentAnswers .unscored
        (IndexSchema.defaultProductSchema : IndexSchema ℚ) (fun id => id = 2) shelved
        (findLive (fun id => id = 2) shelved)) none
        { filters := [("category", .equality "tvs")], aggregations := ["category"] }
          = .ok response ∧
      response.totalHits = 2 ∧ facetCount response.aggregations "category" "tvs" = 2 := by
  obtain ⟨response, hok, htotal, -, hfacets⟩ := browse_counts double .unscored
    (IndexSchema.defaultProductSchema : IndexSchema ℚ) _ (fun id => id = 2) shelved (.refl _)
    (findLive (fun id => id = 2) shelved)
    { filters := [("category", .equality "tvs")], aggregations := ["category"] } rfl (by decide)
  refine ⟨response, hok, htotal.trans (by decide), ?_⟩
  exact (hfacets "category" (by decide) (by decide) "tvs").trans (by decide)

/-- **The titles of products are not counted**: `title` is a field of the schema, one live
document has the title "tv", and for this value 0 is reported. -/
theorem no_facet_of_title :
    ∃ response,
      single.search (single.segmentAnswers .unscored
        (IndexSchema.defaultProductSchema : IndexSchema ℚ) (fun _ => false)
        (fun _ => [[ShardEngine.titled 1 "tv"]])
        (findLive (fun _ => false) (fun _ => [[ShardEngine.titled 1 "tv"]]))) none
        { aggregations := ["title"] } = .ok response ∧
      "title" ∈ (IndexSchema.defaultProductSchema : IndexSchema ℚ).fields.map FieldConfig.name ∧
      ((liveDocs (fun _ => false) [ShardEngine.titled 1 "tv"]).filter
        (fun doc => doc.title = "tv")).length = 1 ∧
      facetCount response.aggregations "title" "tv" = 0 := by
  obtain ⟨response, hok, -, -, hfacets⟩ := single.search_segmentAnswers .unscored
    (IndexSchema.defaultProductSchema : IndexSchema ℚ) (fun _ => false)
    (fun _ => [[ShardEngine.titled 1 "tv"]]) [ShardEngine.titled 1 "tv"] (.refl _)
    (findLive (fun _ => false) (fun _ => [[ShardEngine.titled 1 "tv"]]))
    { aggregations := ["title"] } rfl
  refine ⟨response, hok, by decide, by decide, ?_⟩
  exact (hfacets "title" (by decide) "tv").trans (by decide)

end Router

end ZearchEngine
