/-
# When a search is exact

What a search finds depends on how the documents lie in segments: a token that starts no term of a
segment finds similar terms there, and a segment where no document has all tokens falls back to
those with some (`QueryExecutor::execute`, `crates/query/src/executor.rs`).  What is asked for does
not: the documents that pass the filters and of which every token starts some term.

* `TextExecutor.mem_localIds_iff_asked`: a segment without a fallback returns exactly these
  documents, if none is similar to a token only, some token starts one term at most in each
  document, and there is room for all of them.
* `ShardEngine.search_exact`: so the page of a shard is cut out of a list of exactly these
  documents, whatever was done to the shard before and however its segments were merged.
* `Router.pages_exact`: so are all pages of a router where no segment falls back, whose shards
  send it what they find.

The condition on one token keeps its document frequency within the number of documents; with two
terms to a token the frequency counts a document twice, and pruning may lose everything.
-/
import ZearchEngine.Relevance

namespace ZearchEngine

open ShardEngine

namespace SegmentReader

variable {docs : List Document} {del : Bitmap} {P : Document → Prop} [DecidablePred P]

/-- The documents at the places with a property are the live ones that have it. -/
theorem filterMap_places : ((ofDocs docs del).places P).filterMap (ofDocs docs del).getDoc
    = (ofDocs docs del).liveDocuments.filter (fun doc => P doc) := by
  rw [← filterMap_allLiveDocs, places, List.filterMap_filter, List.filter_filterMap]
  refine List.filterMap_congr (fun i _ => ?_)
  cases (ofDocs docs del).getDoc i with
  | none => rfl
  | some doc => by_cases hP : P doc <;> simp [hP, Option.filter]

end SegmentReader

namespace TextExecutor

/-! ## 1. What is asked for -/

/-- The document passes the filters, and every token of the query starts one of its terms. -/
def Asked (x : TextExecutor) (request : SearchRequest) (doc : Document) : Prop :=
  request.passes x.schema doc = true ∧
  (request.query.isEmpty = true ∨
    x.queryTokens request ≠ [] ∧ ∀ token ∈ x.queryTokens request, x.Starts token doc)

/-- What a token finds in the document as similar, it also finds as a beginning. -/
def Spelt (x : TextExecutor) (request : SearchRequest) (doc : Document) : Prop :=
  ∀ token ∈ x.queryTokens request, x.Similar request token doc → x.Starts token doc

/-- The token starts one term of the document at most. -/
def OneTerm (x : TextExecutor) (token : String) (doc : Document) : Prop :=
  ∀ term ∈ x.schema.docTokens x.analysis doc, ∀ term' ∈ x.schema.docTokens x.analysis doc,
    startsWith term token = true → startsWith term' token = true → term = term'

instance (x : TextExecutor) (request : SearchRequest) : DecidablePred (x.Asked request) :=
  fun _ => inferInstanceAs (Decidable (_ ∧ _))

instance (x : TextExecutor) (request : SearchRequest) : DecidablePred (x.Spelt request) :=
  fun _ => inferInstanceAs (Decidable (∀ token ∈ x.queryTokens request, _))

instance (x : TextExecutor) (token : String) : DecidablePred (x.OneTerm token) := fun doc =>
  inferInstanceAs (Decidable (∀ term ∈ x.schema.docTokens x.analysis doc, _))

section

variable {x : TextExecutor} {round : ℝ → F32} {request : SearchRequest} {docs : List Document}
  {del : Bitmap} {ord : Nat}

/-- With tokens, what is asked for is what matches in any segment. -/
theorem asked_iff_matches {doc : Document} (hquery : request.query.isEmpty = false)
    (hne : x.queryTokens request ≠ []) (hspelt : x.Spelt request doc) :
    x.Asked request doc ↔ x.Matches docs request doc := by
  have hquery' : ¬ request.query.isEmpty = true := by simp [hquery]
  rw [Asked, Matches, or_iff_right hquery', and_iff_right hne]
  refine and_congr_right fun _ => forall₂_congr fun token ht => ?_
  exact ⟨Or.inl, fun hfound => hfound.elim id (fun hsimilar => hspelt token ht hsimilar.2)⟩

/-! ## 2. Rare tokens -/

/-- The ids in the lists of a prefix lookup, one list after the other. -/
theorem nodup_prefixIds {token : String}
    (hone : ∀ doc ∈ (SegmentReader.ofDocs docs del).liveDocuments, x.OneTerm token doc) :
    (((SegmentReader.ofDocs docs del).prefixSearchTerm x.schema x.analysis token).flatMap
      (fun e => e.2.postings.map Posting.docId)).Nodup := by
  refine List.nodup_flatMap.mpr ⟨fun e he => ?_, ?_⟩
  · obtain ⟨-, hsearch⟩ := SegmentReader.mem_prefixSearchTerm.mp he
    exact (SegmentReader.searchTerm_spec hsearch).2.imp Nat.ne_of_lt
  · have hterms : ((SegmentReader.ofDocs docs del).prefixSearchTerm x.schema x.analysis
        token).Pairwise (fun e e' => e.1 ≠ e'.1) :=
      List.pairwise_map.mp SegmentReader.nodup_searchTerms
    refine hterms.imp_of_mem (fun {e e'} he he' hne i hi hi' => hne ?_)
    obtain ⟨hstarts, hsearch⟩ := SegmentReader.mem_prefixSearchTerm.mp he
    obtain ⟨hstarts', hsearch'⟩ := SegmentReader.mem_prefixSearchTerm.mp he'
    obtain ⟨hdel, doc, hdoc, hterm⟩ := ((SegmentReader.searchTerm_spec hsearch).1 i).mp hi
    obtain ⟨-, doc', hdoc', hterm'⟩ := ((SegmentReader.searchTerm_spec hsearch').1 i).mp hi'
    obtain rfl := Option.some.inj (hdoc.symm.trans hdoc')
    have hget : (SegmentReader.ofDocs docs del).getDoc i = some doc := by
      rw [SegmentReader.getDoc_ofDocs, if_neg hdel, hdoc]
    exact hone doc (SegmentReader.mem_liveDocuments_of_getDoc hget) _ hterm _ hterm' hstarts
      hstarts'

/-- **A token that starts one term of each live document at most is rare.** -/
theorem rare_of_oneTerm {token : String} (hstarts : ∃ doc ∈ docs, x.Starts token doc)
    (hone : ∀ doc ∈ (SegmentReader.ofDocs docs del).liveDocuments, x.OneTerm token doc) :
    x.Rare (.ofDocs docs del) request token := by
  have hlists : x.rawLists (.ofDocs docs del) request token
      = ((SegmentReader.ofDocs docs del).prefixSearchTerm x.schema x.analysis token).map
          Prod.snd := by
    have hsome : (SegmentReader.ofDocs docs del).prefixSearchTerm x.schema x.analysis token
        ≠ [] := by
      obtain ⟨doc, hdoc, hstart⟩ := hstarts
      exact fun hnil => prefixSearchTerm_eq_nil_iff.mp hnil doc hdoc hstart
    simp [rawLists, hsome]
  have hlive : ((SegmentReader.ofDocs docs del).prefixSearchTerm x.schema x.analysis
      token).flatMap (fun e => e.2.postings.map Posting.docId)
      ⊆ (SegmentReader.ofDocs docs del).allLiveDocs := by
    intro i hi
    obtain ⟨e, he, hmem⟩ := List.mem_flatMap.mp hi
    obtain ⟨-, hsearch⟩ := SegmentReader.mem_prefixSearchTerm.mp he
    exact mem_allLiveDocs_of_hasTerm (((SegmentReader.searchTerm_spec hsearch).1 i).mp hmem)
  calc x.totalDf (.ofDocs docs del) request token
      ≤ ((x.rawLists (.ofDocs docs del) request token).map PostingList.len).sum := Nat.mod_le _ _
    _ = (((SegmentReader.ofDocs docs del).prefixSearchTerm x.schema x.analysis token).flatMap
          (fun e => e.2.postings.map Posting.docId)).length := by
        rw [hlists, List.length_flatMap, List.map_map]
        simp [PostingList.len, Function.comp_def]
    _ ≤ (SegmentReader.ofDocs docs del).allLiveDocs.length :=
        (nodup_prefixIds hone).length_le_of_subset hlive

/-! ## 3. One segment -/

/-- For these documents a search is exact: all are spelt, some token of the query starts one term
of each at most, unless there is no token, and there is room for those that are asked for. -/
structure ExactFor (x : TextExecutor) (live : Multiset Document) (request : SearchRequest) :
    Prop where
  spelt : ∀ doc ∈ live, x.Spelt request doc
  oneTerm : request.query.isEmpty = true ∨ x.queryTokens request = [] ∨
    ∃ token ∈ x.queryTokens request, ∀ doc ∈ live, x.OneTerm token doc
  room : (live.filter (x.Asked request)).card ≤ candidateCount request

/-- It is for some of them, then. -/
theorem ExactFor.mono {live live' : Multiset Document} (h : x.ExactFor live' request)
    (hle : live ≤ live') : x.ExactFor live request where
  spelt doc hdoc := h.spelt doc (Multiset.mem_of_le hle hdoc)
  oneTerm := h.oneTerm.imp_right (Or.imp_right fun ⟨token, ht, hone⟩ =>
    ⟨token, ht, fun doc hdoc => hone doc (Multiset.mem_of_le hle hdoc)⟩)
  room := (Multiset.card_le_card (Multiset.filter_le_filter _ hle)).trans h.room

variable (hwithin : x.analysis.Within) (hboost : PositiveBoosts x.schema)
  (hlen : docs.length ≤ u32Max)
  (h : x.ExactFor ↑(SegmentReader.ofDocs docs del).liveDocuments request)
include hwithin hboost hlen h

variable (round) in
/-- AND retrieval returns what is asked for. -/
theorem map_fst_scoreQueryWand_asked (hquery : request.query.isEmpty = false) {doc : Document}
    (hdoc : doc ∈ (SegmentReader.ofDocs docs del).liveDocuments) (hasked : x.Asked request doc) :
    ((x.scoreQueryWand (.ofDocs docs del) (.compute x.schema x.analysis (.ofDocs docs del)) request
        (x.columnFilter round (.ofDocs docs del) request)).map Prod.fst).Perm
      ((SegmentReader.ofDocs docs del).places (x.Asked request)) := by
  have hquery' : ¬ request.query.isEmpty = true := by simp [hquery]
  obtain ⟨hne, hstarts⟩ := hasked.2.resolve_left hquery'
  obtain ⟨token, ht, hone⟩ := (h.oneTerm.resolve_left hquery').resolve_left hne
  have hmatches : ∀ d ∈ (SegmentReader.ofDocs docs del).liveDocuments,
      (x.Asked request d ↔ x.Matches docs request d) := fun d hd =>
    asked_iff_matches hquery hne (h.spelt d hd)
  obtain ⟨i, hget⟩ := SegmentReader.mem_liveDocuments_iff.mp hdoc
  have hrare : x.Rare (.ofDocs docs del) request token := rare_of_oneTerm
    ⟨doc, List.mem_of_getElem? (SegmentReader.getElem?_of_getDoc hget), hstarts token ht⟩ hone
  have hexpand : ∀ t ∈ x.queryTokens request, x.rawLists (.ofDocs docs del) request t ≠ [] :=
    fun t ht => rawLists_ne_nil_of_mem
      ((mem_mergedDocs_of_getDoc hget).mpr (Or.inl (hstarts t ht)))
  have hroom : (x.matching (.ofDocs docs del) request
      (x.columnFilter round (.ofDocs docs del) request)).length ≤ candidateCount request := by
    rw [length_matching_eq round hwithin hne]
    refine le_of_eq_of_le (congrArg List.length (List.filter_congr fun d hd => ?_)) h.room
    exact decide_eq_decide.mpr (hmatches d hd).symm
  refine (map_fst_scoreQueryWand_perm hwithin hboost hlen hexpand ⟨token, ht, hrare⟩ hroom).trans
    ((List.perm_ext_iff_of_nodup nodup_matching SegmentReader.nodup_places).mpr fun i => ?_)
  rw [mem_matching_iff_matches hwithin hne, SegmentReader.mem_places]
  refine exists_congr fun d => and_congr_right fun hget => ?_
  exact (hmatches d (SegmentReader.mem_liveDocuments_of_getDoc hget)).symm

/-- **A segment falls back** exactly if the query has several tokens and no live document is
asked for. -/
theorem retrievalMode_eq_orFallback_iff :
    ((x.columnExecutor round).execute (.ofDocs docs del) ord request).retrievalMode = .orFallback ↔
      request.query.isEmpty = false ∧ 1 < (x.queryTokens request).length ∧
        ∀ doc ∈ (SegmentReader.ofDocs docs del).liveDocuments, ¬ x.Asked request doc := by
  cases hquery : request.query.isEmpty with
  | true => simp [QueryExecutor.execute, hquery]
  | false =>
    rw [retrievalMode_execute hquery]
    have hwand : 1 < (x.queryTokens request).length →
        (x.scoreQueryWand (.ofDocs docs del) (.compute x.schema x.analysis (.ofDocs docs del))
            request (x.columnFilter round (.ofDocs docs del) request) = [] ↔
          ∀ doc ∈ (SegmentReader.ofDocs docs del).liveDocuments, ¬ x.Asked request doc) := by
      intro hmany
      have hne : x.queryTokens request ≠ [] := List.ne_nil_of_length_pos (by omega)
      constructor
      · intro hnil doc hdoc hasked
        have hperm := map_fst_scoreQueryWand_asked round hwithin hboost hlen h hquery
          hdoc hasked
        obtain ⟨i, hget⟩ := SegmentReader.mem_liveDocuments_iff.mp hdoc
        have hi := hperm.mem_iff.mpr (SegmentReader.mem_places.mpr ⟨doc, hget, hasked⟩)
        rw [hnil] at hi
        exact absurd hi List.not_mem_nil
      · intro hnone
        refine scoreQueryWand_eq_nil hwithin hlen ((matching_eq_nil_iff hwithin hne).mpr
          fun doc hdoc hmatch => ?_)
        exact hnone doc hdoc ((asked_iff_matches hquery hne (h.spelt doc hdoc)).mpr hmatch)
    rw [scoreQuery]
    constructor
    · intro hmode
      split at hmode
      · next hfallback =>
        obtain ⟨hnil, hmany⟩ := (Bool.and_eq_true _ _).mp hfallback
        exact ⟨rfl, of_decide_eq_true hmany,
          (hwand (of_decide_eq_true hmany)).mp (List.isEmpty_iff.mp hnil)⟩
      · cases hmode
    · rintro ⟨-, hmany, hnone⟩
      rw [if_pos ((Bool.and_eq_true _ _).mpr
        ⟨List.isEmpty_iff.mpr ((hwand hmany).mpr hnone), decide_eq_true hmany⟩)]

/-- **Without a fallback, a segment returns exactly what is asked for.** -/
theorem mem_localIds_iff_asked
    (hmode : ((x.columnExecutor round).execute (.ofDocs docs del) ord request).retrievalMode
      = .and) {i : LocalDocId} :
    i ∈ x.localIds round (.ofDocs docs del) ord request ↔
      i ∈ (SegmentReader.ofDocs docs del).places (x.Asked request) := by
  constructor
  · intro hi
    obtain ⟨doc, hget, hrelevant⟩ := relevant_of_mem_localIds hwithin hboost hlen hi
    refine SegmentReader.mem_places.mpr ⟨doc, hget, hrelevant.passes, ?_⟩
    cases hquery : request.query.isEmpty with
    | true => exact Or.inl rfl
    | false =>
      obtain ⟨hne, hall | ⟨hfallback, -⟩⟩ := hrelevant.meets hquery
      · have hspelt := h.spelt doc (SegmentReader.mem_liveDocuments_of_getDoc hget)
        exact Or.inr ⟨hne, fun token ht => (hall token ht).elim id (hspelt token ht)⟩
      · rw [hmode] at hfallback
        cases hfallback
  · intro hi
    obtain ⟨doc, hget, hasked⟩ := SegmentReader.mem_places.mp hi
    cases hquery : request.query.isEmpty with
    | true =>
      exact (mem_localIds_of_isEmpty hquery).mpr
        (SegmentReader.mem_places.mpr ⟨doc, hget, hasked.1, Or.inl hquery⟩)
    | false =>
      have hand := (map_fst_scoreQueryWand_asked round hwithin hboost hlen h hquery
        (SegmentReader.mem_liveDocuments_of_getDoc hget) hasked).mem_iff.mpr hi
      have hne : x.scoreQueryWand (.ofDocs docs del)
          (.compute x.schema x.analysis (.ofDocs docs del)) request
          (x.columnFilter round (.ofDocs docs del) request) ≠ [] := by
        intro hnil
        rw [hnil] at hand
        exact List.not_mem_nil hand
      rw [localIds_of_query hquery, scoreQuery_eq_of_ne_nil hne]
      exact hand

end

/-! ## 4. All segments -/

section

variable {x : TextExecutor} {round : ℝ → F32} {m : MultiSegmentSearcher}
  {request : SearchRequest} {segments : List SegmentReader}

/-- A search is marked as a fallback if some segment fell back. -/
theorem retrievalMode_search_eq (hm : m.executor = x.columnExecutor round) :
    (m.search segments request).retrievalMode = .orFallback ↔
      ∃ p ∈ segments.zipIdx,
        ((x.columnExecutor round).execute p.1 p.2 request).retrievalMode = .orFallback := by
  have hany : (m.search segments request).retrievalMode
      = if (m.results segments request).any (fun r => r.retrievalMode = .orFallback)
        then .orFallback else .and := rfl
  rw [hany]
  split
  · next hfallback => simpa [MultiSegmentSearcher.results, hm] using hfallback
  · next hnone => simpa [MultiSegmentSearcher.results, hm] using hnone

variable (hm : m.executor = x.columnExecutor round) (hwithin : x.analysis.Within)
  (hboost : PositiveBoosts x.schema) (hwhole : WithinFormat segments)
  (h : ∀ reader ∈ segments, x.ExactFor ↑reader.liveDocuments request)
include hm hwithin hboost hwhole h

/-- A search is marked as a fallback exactly if the query has several tokens and some segment has
no live document that is asked for. -/
theorem retrievalMode_search_iff :
    (m.search segments request).retrievalMode = .orFallback ↔
      request.query.isEmpty = false ∧ 1 < (x.queryTokens request).length ∧
        ∃ reader ∈ segments, ∀ doc ∈ reader.liveDocuments, ¬ x.Asked request doc := by
  have hsegment : ∀ p ∈ segments.zipIdx,
      ((x.columnExecutor round).execute p.1 p.2 request).retrievalMode = .orFallback ↔
        request.query.isEmpty = false ∧ 1 < (x.queryTokens request).length ∧
          ∀ doc ∈ p.1.liveDocuments, ¬ x.Asked request doc := by
    intro p hp
    have hreader := List.mem_of_getElem? (List.mem_zipIdx_iff_getElem?.mp hp)
    obtain ⟨docs, del, heq, hlen⟩ := hwhole p.1 hreader
    have hexact := h p.1 hreader
    rw [heq] at hexact ⊢
    exact retrievalMode_eq_orFallback_iff hwithin hboost hlen hexact
  rw [retrievalMode_search_eq hm]
  constructor
  · rintro ⟨p, hp, hmode⟩
    obtain ⟨hquery, hmany, hnone⟩ := (hsegment p hp).mp hmode
    exact ⟨hquery, hmany, p.1, List.mem_of_getElem? (List.mem_zipIdx_iff_getElem?.mp hp), hnone⟩
  · rintro ⟨hquery, hmany, reader, hreader, hnone⟩
    obtain ⟨ord, hord⟩ := List.mem_iff_getElem?.mp hreader
    have hp : (reader, ord) ∈ segments.zipIdx := List.mem_zipIdx_iff_getElem?.mpr hord
    exact ⟨(reader, ord), hp, (hsegment _ hp).mpr ⟨hquery, hmany, hnone⟩⟩

/-- What the segments return without a fallback, together. -/
theorem filterMap_results_asked (hmode : (m.search segments request).retrievalMode = .and) :
    (↑((((m.results segments request).flatMap SegmentSearchResult.scoredDocs).filterMap
        (MultiSegmentSearcher.fetch segments)).filterMap SearchHit.document) : Multiset Document)
      = Multiset.filter (x.Asked request) ↑(segments.flatMap SegmentReader.liveDocuments) := by
  have hsegment : ∀ p ∈ segments.zipIdx,
      (↑((x.localIds round p.1 p.2 request).filterMap p.1.getDoc) : Multiset Document)
        = ↑(p.1.liveDocuments.filter (fun doc => x.Asked request doc)) := by
    intro p hp
    have hreader := List.mem_of_getElem? (List.mem_zipIdx_iff_getElem?.mp hp)
    obtain ⟨docs, del, heq, hlen⟩ := hwhole p.1 hreader
    have hand : ((x.columnExecutor round).execute p.1 p.2 request).retrievalMode = .and := by
      cases hor : ((x.columnExecutor round).execute p.1 p.2 request).retrievalMode with
      | and => rfl
      | orFallback =>
        rw [(retrievalMode_search_eq hm).mpr ⟨p, hp, hor⟩] at hmode
        cases hmode
    have hexact := h p.1 hreader
    rw [heq] at hexact hand ⊢
    have hperm := (List.perm_ext_iff_of_nodup (nodup_localIds hwithin hlen)
      SegmentReader.nodup_places).mpr
        (fun i => mem_localIds_iff_asked hwithin hboost hlen hexact hand)
    rw [← SegmentReader.filterMap_places]
    exact Multiset.coe_eq_coe.mpr (hperm.filterMap _)
  have hlive : segments.flatMap SegmentReader.liveDocuments
      = segments.zipIdx.flatMap (fun p => p.1.liveDocuments) := by
    conv_lhs => rw [← List.zipIdx_map_fst 0 segments, List.flatMap_map]
  rw [filterMap_fetch_results hm, hlive, Multiset.filter_coe, List.filter_flatMap, coe_flatMap,
    coe_flatMap]
  exact congrArg List.sum (List.map_congr_left hsegment)

/-- **Without a fallback, a search cuts its pages out of what is asked for.** -/
theorem documents_search_asked (hmode : (m.search segments request).retrievalMode = .and) :
    ∃ found : List Document, (↑found : Multiset Document)
        = Multiset.filter (x.Asked request) ↑(segments.flatMap SegmentReader.liveDocuments) ∧
      (m.search segments request).totalHits = found.length ∧
      (m.search segments request).hits.filterMap SearchHit.document
        = page request.offset request.limit found := by
  let scoredDocs := (m.results segments request).flatMap SegmentSearchResult.scoredDocs
  let document := fun scored => (MultiSegmentSearcher.fetch segments scored).bind
    SearchHit.document
  let sorted := (m.sortUnstable request.sort).run scoredDocs
  have hperm : sorted.Perm scoredDocs := m.perm_sortUnstable _ _
  have hdocument : ∀ scored ∈ sorted,
      (document scored).isSome = true := by
    intro scored hscored
    obtain ⟨reader, hreader, hi, -⟩ := mem_localIds_of_mem_results hm (hperm.mem_iff.mp hscored)
    obtain ⟨docs, del, rfl, hlen⟩ := hwhole reader (List.mem_of_getElem? hreader)
    obtain ⟨doc, hget, -⟩ := relevant_of_mem_localIds hwithin hboost hlen hi
    simp only [document, MultiSegmentSearcher.fetch, hreader, hget, Option.bind_eq_bind,
      Option.bind_some, Option.isSome_some]
  refine ⟨sorted.filterMap document, ?_, ?_, ?_⟩
  · rw [← filterMap_results_asked hm hwithin hboost hwhole h hmode, List.filterMap_filterMap]
    exact Multiset.coe_eq_coe.mpr (hperm.filterMap _)
  · rw [List.length_filterMap_eq_countP, List.countP_eq_length.mpr hdocument, hperm.length_eq,
      List.length_flatMap]
    refine congrArg List.sum (List.map_congr_left fun result hresult => ?_)
    obtain ⟨p, -, rfl⟩ := List.mem_map.mp hresult
    rfl
  · rw [page_filterMap hdocument, MultiSegmentSearcher.search, List.filterMap_filterMap]
    rfl

end

end TextExecutor

/-! ## 5. A shard, after any run -/

namespace ShardEngine

open TextExecutor

theorem visible_eq_readers (s : ShardEngine) :
    s.visible = ↑(s.readers.flatMap SegmentReader.liveDocuments) := by
  rw [visible, Multiset.coe_add, ← flatMap_readers]

/-- What is exact for a shard is for each segment. -/
theorem exactFor_readers {x : TextExecutor} {request : SearchRequest} {s : ShardEngine}
    (hexact : x.ExactFor s.visible request) :
    ∀ reader ∈ s.readers, x.ExactFor ↑reader.liveDocuments request := by
  intro reader hreader
  refine hexact.mono ?_
  rw [visible_eq_readers]
  exact Multiset.coe_le.mpr (List.sublist_flatten_of_mem (List.mem_map_of_mem hreader)).subperm

variable {x : TextExecutor} {round : ℝ → F32}

end ShardEngine

/-! ## 6. The pages of a router -/

namespace Router

open TextExecutor Components

variable {r : Router} {engines : Fin r.shards → ShardEngine}
  {docs : Fin r.shards → List Document} {request : Request} {x : TextExecutor}
  {round : ℝ → F32}

namespace Placed

variable (h : r.Placed engines docs)
  (hexecutor : ∀ i, (engines i).searcher.executor = x.columnExecutor round)
  (hwithin : x.analysis.Within) (hboost : PositiveBoosts x.schema)
  (hwhole : ∀ i, WithinFormat (engines i).readers)
  (hexact : x.ExactFor ↑((List.finRange r.shards).flatMap docs) (r.shardRequest request))
include h hexecutor hwithin hboost hwhole hexact

omit hexecutor hwithin hboost hwhole in
theorem exactFor_shard (i : Fin r.shards) :
    ∀ reader ∈ (engines i).readers, x.ExactFor ↑reader.liveDocuments (r.shardRequest request) := by
  refine exactFor_readers (hexact.mono ?_)
  rw [h.visible i]
  exact Multiset.coe_le.mpr
    (List.sublist_flatten_of_mem (List.mem_map_of_mem (List.mem_finRange i))).subperm

/-- A query of one token does not fall back. -/
theorem gatheredMode_eq_and (hfew : (x.queryTokens request.toSearchRequest).length ≤ 1) :
    r.gatheredMode (r.engineAnswers engines request) request = .and := by
  cases hmode : r.gatheredMode (r.engineAnswers engines request) request with
  | and => rfl
  | orFallback =>
    obtain ⟨i, hi⟩ := h.gatheredMode_eq_orFallback_iff.mp hmode
    obtain ⟨-, hmany, -⟩ := (retrievalMode_search_iff (hexecutor i) hwithin hboost (hwhole i)
      (h.exactFor_shard hexact i)).mp hi
    exact absurd hfew (Nat.not_le.mpr hmany)

variable (hroom : (((List.finRange r.shards).flatMap docs).filter
    (fun doc => x.Asked request.toSearchRequest doc)).length ≤ r.scatterLimit)
  (hmode : r.gatheredMode (r.engineAnswers engines request) request = .and)
include hroom hmode

/-- Without a fallback, a shard returns all that is asked for, and counts it. -/
theorem shard_asked (i : Fin r.shards) :
    let response := (engines i).searcher.search (engines i).readers (r.shardRequest request)
    (response.hits.filterMap SearchHit.document).Perm
        ((docs i).filter (fun doc => x.Asked request.toSearchRequest doc)) ∧
      response.totalHits = (response.hits.filterMap SearchHit.document).length := by
  intro response
  have hand : response.retrievalMode = .and := by
    cases hor : response.retrievalMode with
    | and => rfl
    | orFallback =>
      rw [h.gatheredMode_eq_orFallback_iff.mpr ⟨i, hor⟩] at hmode
      cases hmode
  obtain ⟨found, hfound, htotal, hhits⟩ := documents_search_asked (hexecutor i) hwithin hboost
    (hwhole i) (h.exactFor_shard hexact i) hand
  rw [← visible_eq_readers, h.visible i] at hfound
  have hperm : found.Perm ((docs i).filter (fun doc => x.Asked request.toSearchRequest doc)) :=
    Multiset.coe_eq_coe.mp hfound
  have hle : found.length ≤ r.scatterLimit := by
    rw [hperm.length_eq]
    refine (List.Sublist.length_le (List.Sublist.filter _ ?_)).trans hroom
    exact List.sublist_flatten_of_mem (List.mem_map_of_mem (List.mem_finRange i))
  have hpage : response.hits.filterMap SearchHit.document = found :=
    hhits.trans (page_zero_of_le hle)
  rw [hpage]
  exact ⟨hperm, htotal⟩

/-- **Without a fallback, exactly what is asked for is found.** -/
theorem map_fst_foundHits_asked : ((r.foundHits engines docs request).map Prod.fst).Perm
    (((List.finRange r.shards).flatMap docs).filter
      (fun doc => x.Asked request.toSearchRequest doc)) := by
  refine h.map_fst_foundHits_perm.trans ?_
  rw [List.filter_flatMap]
  exact List.Perm.flatMap_left _ fun i _ =>
    (h.shard_asked hexecutor hwithin hboost hwhole hexact hroom hmode i).1

/-- It is counted. -/
theorem totalHits_asked :
    ((r.gather (r.engineAnswers engines request) request).map ShardSearchResult.totalHits).sum
      = (r.foundHits engines docs request).length := by
  have hlength : ((r.foundHits engines docs request).map Prod.fst).length = _ :=
    h.map_fst_foundHits_perm.length_eq
  rw [List.length_map] at hlength
  rw [hlength, List.length_flatMap, h.gather_eq, List.map_map]
  exact congrArg List.sum (List.map_congr_left fun i _ =>
    (h.shard_asked hexecutor hwithin hboost hwhole hexact hroom hmode i).2)

end Placed

variable (r request) in
/-- **When all pages of a search are exact.**  Once calls that delete nothing, over documents with
distinct ids, are through, their tasks interleaved in any way, the pages of a search are those of
lists with scores that go down; without a fallback, as for a query of one token, of one list, which
has every document that is asked for once and no other, and each response counts it; if the
documents are exact for the request and the shards are asked for as many as there are. -/
theorem pages_exact (hranker : r.ranker = noopRanker) (hscatter : r.scatterLimit < 2 ^ 64)
    (hwithin : x.analysis.Within) (hboost : PositiveBoosts x.schema)
    (hround : ∀ score, (round score).key ≠ none) (writeBufferSize : Nat)
    (searcher : MultiSegmentSearcher)
    (calls : List (Call r.shards)) (hcalls : ∀ call ∈ calls, call.AppendOnly)
    (hids : ((calls.flatMap Call.docs).map Document.id).Nodup)
    (hlen : (calls.flatMap Call.docs).length ≤ u32Max)
    (events : List (Fin r.shards × Op)) (hevents : events.Perm (calls.flatMap r.tasks))
    (hzone : request.NoZone) (hinclude : request.includeDocs = true)
    (hexact : x.ExactFor ↑(calls.flatMap Call.docs) (r.shardRequest request))
    (hroom : ((calls.flatMap Call.docs).filter
      (fun doc => x.Asked request.toSearchRequest doc)).length ≤ r.scatterLimit) :
    ∃ (found : List (Document × F32)) (mode : RetrievalMode),
      ((x.queryTokens request.toSearchRequest).length ≤ 1 → mode = .and) ∧
      (mode = .and → (found.map Prod.fst).Perm ((calls.flatMap Call.docs).filter
        (fun doc => x.Asked request.toSearchRequest doc))) ∧
      ∀ order offset limit, ∃ response own,
        (r.searchLocal (scoring x round order (r.ranTasks writeBufferSize searcher events))
          (request.onPage offset limit)).1 = .ok response ∧
        response.retrievalMode = mode ∧
        (mode = .and → own = found ∧ response.totalHits = found.length) ∧
        response.hits = (page offset limit own).map shownHit ∧
        own.Pairwise (fun a b => partialCmp b.2.key a.2.key ≠ .gt) := by
  have hplaced : r.Placed (r.ranTasks writeBufferSize searcher events) (r.taskDocs events) :=
    placed_ranTasks writeBufferSize searcher hcalls hids hevents
  have hperm : ((List.finRange r.shards).flatMap (r.taskDocs events)).Perm
      (calls.flatMap Call.docs) := flatMap_docs_perm hevents
  have hwhole : ∀ i, WithinFormat (r.ranTasks writeBufferSize searcher events i).readers :=
    withinFormat_ranTasks writeBufferSize searcher hlen hevents
  have hexact' : x.ExactFor ↑((List.finRange r.shards).flatMap (r.taskDocs events))
      (r.shardRequest request) := by
    rwa [Multiset.coe_eq_coe.mpr hperm]
  have hroom' := (hperm.filter
    (fun doc => x.Asked request.toSearchRequest doc)).length_eq.trans_le hroom
  let engines := fun order => scoring x round order (r.ranTasks writeBufferSize searcher events)
  have hscoring := fun order => hplaced.scoring x round order
  have hexecutor : ∀ order i, (engines order i).searcher.executor
      = (x.withScores order).columnExecutor round := fun _ _ => rfl
  refine ⟨r.foundHits (engines x.scoreOrder) (r.taskDocs events) request,
    r.gatheredMode (r.engineAnswers (engines x.scoreOrder) request) request,
    (hscoring x.scoreOrder).gatheredMode_eq_and (hexecutor x.scoreOrder) hwithin hboost hwhole
      hexact', fun hand => ?_, fun order offset limit => ?_⟩
  · exact ((hscoring x.scoreOrder).map_fst_foundHits_asked (hexecutor x.scoreOrder) hwithin hboost
      hwhole hexact' hroom' hand).trans (hperm.filter _)
  · have hzone' : (request.onPage offset limit).NoZone := hzone
    obtain ⟨response, hok, hmode, hhits⟩ :=
      (hscoring order).page_foundHits hranker hscatter hzone' hinclude
    obtain ⟨counted, hok', htotal, -⟩ := r.counts_search (r.engineAnswers (engines order) request)
      ((hscoring order).gather_ne_nil (request.onPage offset limit))
    obtain rfl : response = counted := Except.ok.inj (hok.symm.trans hok')
    have hsame : r.gatheredMode (r.engineAnswers (engines order) request) request = _ :=
      hplaced.gatheredMode_scoring order
    refine ⟨response, _, hok, hmode.trans hsame, fun hand => ?_, hhits,
      (hscoring order).foundHits_ordered (hexecutor order) hround⟩
    have hfound := hplaced.foundHits_scoring order hand
    refine ⟨hfound, htotal.trans ?_⟩
    rw [← hfound]
    exact (hscoring order).totalHits_asked (hexecutor order) hwithin hboost hwhole
      ⟨hexact'.spelt, hexact'.oneTerm, hexact'.room⟩ hroom' (hsame.trans hand)

/-- Three documents on two shards, one of them with the word. -/
theorem pages_exact_paired :
    ∃ (found : List (Document × F32)) (mode : RetrievalMode),
      ((plain.queryTokens { query := "a" }).length ≤ 1 → mode = .and) ∧
      (mode = .and → (found.map Prod.fst).Perm ((pairedCalls.flatMap Call.docs).filter
        (fun doc => plain.Asked { query := "a" } doc))) ∧
      ∀ order offset limit, ∃ response own,
        (paired.searchLocal (scoring plain (fun _ => F32.one) order
          (paired.ranTasks 1000 columnSearcher (pairedCalls.flatMap paired.tasks).reverse))
          (Request.onPage { query := "a", includeDocs := true } offset limit)).1 = .ok response ∧
        response.retrievalMode = mode ∧
        (mode = .and → own = found ∧ response.totalHits = found.length) ∧
        response.hits = (page offset limit own).map shownHit ∧
        own.Pairwise (fun a b => partialCmp b.2.key a.2.key ≠ .gt) :=
  paired.pages_exact { query := "a", includeDocs := true } rfl (by decide)
    within_plainAnalysis positiveBoosts_defaultProductSchema
    (fun _ => (by decide : F32.one.key ≠ none)) 1000 columnSearcher pairedCalls (by decide)
    (by decide) (by decide) (pairedCalls.flatMap paired.tasks).reverse (List.reverse_perm _)
    (by decide) rfl
    ⟨by decide, Or.inr (Or.inr ⟨"a", by decide, by decide⟩), by decide⟩ (by decide)

end Router

end ZearchEngine
