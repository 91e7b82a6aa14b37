/-
# Paging through everything

A shard answers with at most as many hits as it is asked for, and it is asked for
`scatter_limit`, whatever page the client asked for.  So a match-all search shows the pages of
a list with `min scatter_limit n` documents of each shard that holds `n` (`length_browsed`),
and its pages show every document exactly if no shard holds more than it is asked for
(`pagesAll_iff`).
-/
import ZearchEngine.Cluster
import Mathlib.Algebra.BigOperators.Fin
import Mathlib.Algebra.Order.BigOperators.Group.Finset

namespace ZearchEngine

open ShardEngine

namespace Router

/-- The checks of the search handler (`crates/server/src/main.rs`). -/
def Request.Admitted (request : Request) : Prop :=
  request.query.utf8ByteSize ≤ 1024 ∧ request.limit ≤ 1000

instance (request : Request) : Decidable request.Admitted :=
  inferInstanceAs (Decidable (_ ∧ _))

variable (r : Router)

/-- The hits of successive searches: `pages` pages of `limit` hits, from `offset` on. -/
def pageHits (request : Request) (limit : Nat) :
    (Fin r.shards → ShardEngine) → Nat → Nat → List SearchHit
  | _, _, 0 => []
  | engines, offset, pages + 1 =>
    let (result, engines) :=
      r.searchLocal engines (request.onPage offset limit)
    (result.toOption.map SearchResponse.hits).getD []
      ++ pageHits request limit engines (offset + limit) pages

/-- The number of documents on all shards. -/
def docCount (docs : Fin r.shards → List Document) : Nat := ∑ i, (docs i).length

/-- Every page the server admits is as long as it can be, and pages that reach the end show the
id of every document once. -/
structure PagesAll (engines : Fin r.shards → ShardEngine) (docs : Fin r.shards → List Document)
    (request : Request) : Prop where
  count : ∀ offset limit,
    (request.onPage offset limit).Admitted →
    ∃ response,
      (r.searchLocal engines (request.onPage offset limit)).1 = .ok response ∧
      response.hits.length = min limit (r.docCount docs - offset)
  once : ∀ limit pages,
    (request.onPage 0 limit).Admitted → r.docCount docs ≤ pages * limit →
    ((r.pageHits request limit engines 0 pages).map SearchHit.id).Perm
      ((List.finRange r.shards).flatMap (fun i => (docs i).map Document.id))

variable {r} {engines : Fin r.shards → ShardEngine} {docs : Fin r.shards → List Document}
  {request : Request}

/-! ## 1. What there is to page through -/

namespace Placed

variable (h : r.Placed engines docs)
include h

/-- A shard answers a match-all search with the first documents it is asked for. -/
theorem ids_shardResult (hbrowse : request.Browses) (i : Fin r.shards) :
    ∃ shown : List Document, shown.Perm (docs i) ∧
      (r.shardResult engines request i).hits.map Prod.fst
        = (shown.take r.scatterLimit).map Document.id := by
  have hreq : (r.shardRequest request).Browses := ⟨hbrowse.query, hbrowse.filters⟩
  obtain ⟨response, hok, shown, hshown, hhits⟩ := search_browse (h.inv i) hreq rfl
  obtain rfl : (engines i).searcher.search (engines i).readers (r.shardRequest request)
      = response := by
    rw [ShardEngine.search_eq (h.inv i)] at hok
    exact Except.ok.inj (Prod.mk.inj hok).1
  refine ⟨shown, Multiset.coe_eq_coe.mp (by rw [hshown, h.visible i]), ?_⟩
  have hids := congrArg (List.map Prod.fst) hhits
  rw [List.map_map, List.map_map] at hids
  rw [shardResult, List.map_map]
  exact hids

theorem length_shardResult (hbrowse : request.Browses) (i : Fin r.shards) :
    (r.shardResult engines request i).hits.length = min r.scatterLimit (docs i).length := by
  obtain ⟨shown, hperm, hids⟩ := h.ids_shardResult hbrowse i
  have hlen := congrArg List.length hids
  rwa [List.length_map, List.length_map, List.length_take, hperm.length_eq] at hlen

/-- **The hits to page through** are as many as the shards were asked for. -/
theorem length_browsed (hbrowse : request.Browses) :
    (r.sortedHits (r.engineAnswers engines request) request).length
      = ∑ i, min r.scatterLimit (docs i).length := by
  rw [sortedHits, (r.sortHits.perm _).length_eq, h.allHits_eq, List.length_flatMap,
    Fin.sum_univ_def]
  simp only [h.length_shardResult hbrowse]

/-- If no shard holds more than it is asked for, these are all documents. -/
theorem perm_ids_browsed (hbrowse : request.Browses)
    (hle : ∀ i, (docs i).length ≤ r.scatterLimit) :
    ((r.sortedHits (r.engineAnswers engines request) request).map Prod.fst).Perm
      ((List.finRange r.shards).flatMap (fun i => (docs i).map Document.id)) := by
  have hsorted := (r.sortHits.perm (r.allHits (r.engineAnswers engines request) request)).map
    Prod.fst
  refine hsorted.trans ?_
  rw [h.allHits_eq, List.map_flatMap]
  refine List.Perm.flatMap_left _ (fun i _ => ?_)
  obtain ⟨shown, hperm, hids⟩ := h.ids_shardResult hbrowse i
  rw [hids, List.take_of_length_le (hperm.length_eq.trans_le (hle i))]
  exact hperm.map Document.id

end Placed

/-- Successive searches show consecutive pages: a search changes nothing that shows. -/
theorem map_pageHits (hranker : r.ranker = noopRanker) (hzone : request.NoZone) (limit : Nat) :
    ∀ (pages offset : Nat) (engines : Fin r.shards → ShardEngine), r.Placed engines docs →
      (r.pageHits request limit engines offset pages).map (fun hit => (hit.id, hit.score))
        = page offset (pages * limit) (r.sortedHits (r.engineAnswers engines request) request)
  | 0, offset, engines, _ => by simp [pageHits, page]
  | pages + 1, offset, engines, hplaced => by
    have hrest := map_pageHits hranker hzone limit pages (offset + limit) _ hplaced.refreshed
    rw [hplaced.sortedHits_refreshed] at hrest
    have hzone' : (request.onPage offset limit).NoZone := hzone
    obtain ⟨response, hok, hhits⟩ := hplaced.searchLocal_eq hranker hzone'
    have hafter : (r.searchLocal engines (request.onPage offset limit)).2
        = fun i => (engines i).refreshed := hplaced.searched_eq _
    rw [pageHits]
    simp only [hok, hafter, Except.toOption, Option.map_some, Option.getD_some, List.map_append,
      hrest, hhits]
    rw [Nat.add_mul, Nat.one_mul, Nat.add_comm (pages * limit) limit]
    exact page_append offset limit (pages * limit) _

/-! ## 2. When everything can be paged to -/

theorem le_of_sum_min {n : Nat} {f : Fin n → Nat} {c : Nat} (h : ∑ i, f i ≤ ∑ i, min c (f i)) :
    ∀ i, f i ≤ c := by
  intro i
  by_contra hlt
  have hstrict : ∑ i, min c (f i) < ∑ i, f i :=
    Finset.sum_lt_sum (fun i _ => Nat.min_le_right c (f i))
      ⟨i, Finset.mem_univ i, by rw [Nat.min_eq_left (by omega)]; omega⟩
  omega

/-- **How long a page is**: cut from what the shards were asked for, not from what there is. -/
theorem Placed.length_page (h : r.Placed engines docs) (hranker : r.ranker = noopRanker)
    (hbrowse : request.Browses) (hzone : request.NoZone) :
    ∃ response, (r.searchLocal engines request).1 = .ok response ∧ response.hits.length
      = min request.limit (∑ i, min r.scatterLimit (docs i).length - request.offset) := by
  obtain ⟨response, hok, hhits⟩ := h.searchLocal_eq hranker hzone
  refine ⟨response, hok, ?_⟩
  have hlen := congrArg List.length hhits
  rwa [List.length_map, ZearchEngine.length_page, h.length_browsed hbrowse] at hlen

/-- **Every match can be paged to exactly if no shard holds more documents than it is asked
for.** -/
theorem pagesAll_iff (r : Router) (hranker : r.ranker = noopRanker)
    {engines : Fin r.shards → ShardEngine} {docs : Fin r.shards → List Document}
    (h : r.Placed engines docs) (request : Request) (hbrowse : request.Browses)
    (hzone : request.NoZone) :
    r.PagesAll engines docs request ↔ ∀ i, (docs i).length ≤ r.scatterLimit := by
  have hquery : request.query.utf8ByteSize ≤ 1024 := by
    rw [hbrowse.query]
    decide
  constructor
  · -- one more hit is asked for after those the shards were asked for
    intro hpages
    let request' := request.onPage (∑ i, min r.scatterLimit (docs i).length) 1
    have hbrowse' : request'.Browses := ⟨hbrowse.query, hbrowse.filters⟩
    have hzone' : request'.NoZone := hzone
    have hadmitted : request'.Admitted := ⟨hquery, (by decide : 1 ≤ 1000)⟩
    obtain ⟨response, hok, hlen⟩ := hpages.count _ 1 hadmitted
    obtain ⟨response', hok', hlen'⟩ := h.length_page hranker hbrowse' hzone'
    obtain rfl : response' = response := by
      have hsame := hok'.symm.trans hok
      exact Except.ok.inj hsame
    have hzero : response'.hits.length = 0 := by
      rw [hlen']
      show min 1 (∑ i, min r.scatterLimit (docs i).length
        - ∑ i, min r.scatterLimit (docs i).length) = 0
      rw [Nat.sub_self]
      rfl
    rw [hzero] at hlen
    refine le_of_sum_min (c := r.scatterLimit) (f := fun i => (docs i).length) ?_
    show r.docCount docs ≤ _
    omega
  · intro hle
    have hsum : ∑ i, min r.scatterLimit (docs i).length = r.docCount docs :=
      Finset.sum_congr rfl (fun i _ => Nat.min_eq_right (hle i))
    refine ⟨fun offset limit _ => ?_, fun limit pages _ hpages => ?_⟩
    · have hbrowse' : (request.onPage offset limit).Browses := ⟨hbrowse.query, hbrowse.filters⟩
      have hzone' : (request.onPage offset limit).NoZone := hzone
      obtain ⟨response, hok, hlen⟩ := h.length_page hranker hbrowse' hzone'
      rw [hsum] at hlen
      exact ⟨response, hok, hlen⟩
    · have hall := map_pageHits hranker hzone limit pages 0 engines h
      rw [page_zero_of_le (by rw [h.length_browsed hbrowse, hsum]; exact hpages)] at hall
      have hids := congrArg (List.map Prod.fst) hall
      rw [List.map_map] at hids
      have hmap : (r.pageHits request limit engines 0 pages).map SearchHit.id
          = (r.sortedHits (r.engineAnswers engines request) request).map Prod.fst := hids
      rw [hmap]
      exact h.perm_ids_browsed hbrowse hle

/-- Two documents, one of them in a segment. -/
def pair : List Op := [.index (titled 1 "a"), .flush, .index (titled 2 "b")]

/-- They are on the shard behind `single`. -/
theorem placed_pair : single.Placed (fun _ => runNew 1000 .unscored pair)
    (fun _ => [titled 1 "a", titled 2 "b"]) :=
  single.placed_runNew 1000 .unscored (fun _ => pair) (fun _ => by decide) (fun _ => by decide)
    (fun _ _ _ => @Subsingleton.elim (Fin 1) _ _ _)

/-- A router that asks for more. -/
theorem pagesAll_iff_pair :
    single.PagesAll (fun _ => runNew 1000 .unscored pair) (fun _ => [titled 1 "a", titled 2 "b"])
      {} ↔ ∀ _ : Fin 1, 2 ≤ 200 :=
  pagesAll_iff single rfl placed_pair {} ⟨rfl, rfl⟩ (by decide)

/-- A router that asks each shard for one hit. -/
def narrow : Router := { single with rankerCandidates := 1 }

/-- **The second document cannot be paged to.** -/
theorem not_pagesAll_narrow :
    ¬ narrow.PagesAll (fun _ => runNew 1000 .unscored pair)
      (fun _ => [titled 1 "a", titled 2 "b"]) {} := by
  intro hpages
  obtain ⟨response, hok, hlen⟩ := hpages.count 1 1 (by decide)
  have hnone : (narrow.searchLocal (fun _ => runNew 1000 .unscored pair)
      (Request.onPage {} 1 1)).1.toOption.map (fun response => response.hits.length)
      = some 0 := by decide
  rw [hok] at hnone
  have hone : min 1 (narrow.docCount (fun _ => [titled 1 "a", titled 2 "b"]) - 1) = 1 := by decide
  rw [hone] at hlen
  simp only [Except.toOption, Option.map_some, Option.some.injEq] at hnone
  omega

end Router

end ZearchEngine
