/-
# Runs of a cluster

The calls of `Router` that write (`crates/router/src/router.rs`): `index` and `delete` go to the
shard of the id; `bulk_index` groups the documents by shard, and `flush` and `reindex` go to every
shard, in tasks that are spawned and awaited one after the other.  Clients call concurrently, so
what the shards see is an interleaving of the tasks of all calls.

Every task is a step of one shard, so only the order of the tasks on the same shard matters
(`Components.run_apply`), and a call leaves the shards as its tasks do in whatever order
(`run_tasks`).  So in every state that interleaved calls reach, all calls succeed
(`calls_succeed`), and what a search shows was indexed (`shown_was_indexed`); and once calls that
delete nothing are through, a search shows everything they indexed, each document once
(`indexed_shown_once`).
-/
import ZearchEngine.Lib.Components
import ZearchEngine.Availability
import ZearchEngine.CatchUp
import ZearchEngine.Facets
import ZearchEngine.Paging

namespace ZearchEngine

open ShardEngine Components

namespace Router

variable (r : Router)

/-! ## 1. Calls -/

/-- `by_shard`. -/
def byShard (docs : List Document) (i : Fin r.shards) : List Document :=
  docs.filter (fun doc => r.shardFor doc.id = i)

/-- A call on one shard. -/
def onShard {α : Type} (i : Fin r.shards) (task : ShardM α) (engines : Fin r.shards → ShardEngine) :
    Except Error α × (Fin r.shards → ShardEngine) :=
  let (result, s) := task (engines i)
  (result, Function.update engines i s)

/-- Tasks that are spawned, and awaited in the order of the shards.  The first error is returned;
the tasks of the shards after it run all the same. -/
def spawn {α : Type} (tasks : Fin r.shards → Option (ShardM α))
    (engines : Fin r.shards → ShardEngine) :
    Except Error (List α) × (Fin r.shards → ShardEngine) :=
  let ran i := (tasks i).map (fun task => task (engines i))
  (((List.finRange r.shards).filterMap ran).mapM Prod.fst,
    fun i => ((ran i).map Prod.snd).getD (engines i))

/-- `index`.  What goes to the suggest shards is not waited for. -/
def index (doc : Document) : (Fin r.shards → ShardEngine) →
    Except Error Unit × (Fin r.shards → ShardEngine) :=
  r.onShard (r.shardFor doc.id) (LocalShardClient.index doc)

/-- The tasks of `bulk_index`. -/
def bulkTasks (docs : List Document) (i : Fin r.shards) : Option (ShardM UInt32) :=
  if (r.byShard docs i).isEmpty then none else some (LocalShardClient.bulk (r.byShard docs i))

/-- `bulk_index`: the sum of what the shards return. -/
def bulkIndex (docs : List Document) (engines : Fin r.shards → ShardEngine) :
    Except Error UInt32 × (Fin r.shards → ShardEngine) :=
  let (results, engines) := r.spawn (r.bulkTasks docs) engines
  (results.map (fun counts => counts.foldl (fun total count => total + count) 0), engines)

/-- `delete`. -/
def delete (docId : DocId) : (Fin r.shards → ShardEngine) →
    Except Error Unit × (Fin r.shards → ShardEngine) :=
  r.onShard (r.shardFor docId) (LocalShardClient.delete docId)

/-- `flush`. -/
def flush (engines : Fin r.shards → ShardEngine) :
    Except Error Unit × (Fin r.shards → ShardEngine) :=
  let (results, engines) := r.spawn (fun _ => some LocalShardClient.flush) engines
  (results.map (fun _ => ()), engines)

/-- `reindex`: for each shard the number of documents rewritten. -/
def reindex : (Fin r.shards → ShardEngine) →
    Except Error (List Nat) × (Fin r.shards → ShardEngine) :=
  r.spawn (fun _ => some LocalShardClient.reindex)

/-- A call of a client; or a shard is restarted. -/
inductive Call (n : Nat) where
  | index (doc : Document)
  | bulkIndex (docs : List Document)
  | delete (docId : DocId)
  | flush
  | reindex
  | search (request : Request)
  | restart (shard : Fin n)

/-- The shards after a call. -/
def after (engines : Fin r.shards → ShardEngine) :
    Call r.shards → (Fin r.shards → ShardEngine)
  | .index doc => (r.index doc engines).2
  | .bulkIndex docs => (r.bulkIndex docs engines).2
  | .delete docId => (r.delete docId engines).2
  | .flush => (r.flush engines).2
  | .reindex => (r.reindex engines).2
  | .search request => (r.searchLocal engines request).2
  | .restart i => Function.update engines i ((engines i).step .reopen)

/-- The documents a call indexes. -/
def Call.docs {n : Nat} : Call n → List Document
  | .index doc => [doc]
  | .bulkIndex docs => docs
  | _ => []

/-- The call deletes nothing. -/
def Call.AppendOnly {n : Nat} : Call n → Prop
  | .delete _ => False
  | _ => True

instance {n : Nat} : DecidablePred (@Call.AppendOnly n)
  | .delete _ => isFalse id
  | .index _ | .bulkIndex _ | .flush | .reindex | .search _ | .restart _ => isTrue trivial

/-- **The tasks of a call**, each an operation of one shard. -/
def tasks : Call r.shards → List (Fin r.shards × Op)
  | .index doc => [(r.shardFor doc.id, .index doc)]
  | .bulkIndex docs => ((List.finRange r.shards).filter
      (fun i => !(r.byShard docs i).isEmpty)).map (fun i => (i, .indexBatch (r.byShard docs i)))
  | .delete docId => [(r.shardFor docId, .delete docId)]
  | .flush => (List.finRange r.shards).map (fun i => (i, .flush))
  | .reindex => (List.finRange r.shards).map (fun i => (i, .reindexSelf))
  | .search request => (List.finRange r.shards).map (fun i => (i, .search (r.shardRequest request)))
  | .restart i => [(i, .reopen)]

/-- New shards after some tasks. -/
def ranTasks (writeBufferSize : Nat) (searcher : MultiSegmentSearcher)
    (events : List (Fin r.shards × Op)) : Fin r.shards → ShardEngine :=
  LabelledRun.run (componentStep ShardEngine.step)
    (fun _ => openDisk writeBufferSize searcher Disk.empty) events

/-! ## 2. A call is its tasks -/

/-- A call has at most one task on a shard. -/
theorem nodup_tasks (call : Call r.shards) : ((r.tasks call).map Prod.fst).Nodup := by
  have hall : ∀ (is : List (Fin r.shards)) (op : Fin r.shards → Op), is.Nodup →
      ((is.map (fun i => (i, op i))).map Prod.fst).Nodup := by
    intro is op h
    rw [List.map_map]
    exact (List.map_id is).symm ▸ h
  have hrange := List.nodup_finRange r.shards
  cases call with
  | index doc => exact List.nodup_singleton _
  | bulkIndex docs => exact hall _ _ (hrange.filter _)
  | delete docId => exact List.nodup_singleton _
  | flush => exact hall _ _ hrange
  | reindex => exact hall _ _ hrange
  | search request => exact hall _ _ hrange
  | restart i => exact List.nodup_singleton _

theorem bind_pure_snd {α : Type} (x : ShardM α) (s : ShardEngine) :
    ((x >>= fun _ => pure ()) s).2 = (x s).2 := bind_snd (fun _ _ => rfl) x s

section

variable {r} {α : Type} {tasks : Fin r.shards → Option (ShardM α)} {i : Fin r.shards}

theorem spawn_snd_of_some {task : ShardM α} (h : tasks i = some task)
    (engines : Fin r.shards → ShardEngine) :
    (r.spawn tasks engines).2 i = (task (engines i)).2 := by
  simp [spawn, h]

theorem spawn_snd_of_none (h : tasks i = none) (engines : Fin r.shards → ShardEngine) :
    (r.spawn tasks engines).2 i = engines i := by
  simp [spawn, h]

end

/-- One shard after one operation of one shard. -/
theorem run_singleton (i j : Fin r.shards) (op : Op) (engines : Fin r.shards → ShardEngine) :
    LabelledRun.run ShardEngine.step (engines i) (labelsOf i [(j, op)])
      = Function.update engines j ((engines j).step op) i := by
  by_cases h : j = i
  · subst h
    rw [labelsOf_cons_self, Function.update_self]
    rfl
  · rw [labelsOf_cons_of_ne (e := (j, op)) h, Function.update_of_ne (Ne.symm h)]
    rfl

/-- One shard after a call. -/
theorem after_apply (engines : Fin r.shards → ShardEngine) (call : Call r.shards)
    (i : Fin r.shards) :
    r.after engines call i
      = LabelledRun.run ShardEngine.step (engines i) (labelsOf i (r.tasks call)) := by
  have hrange := List.nodup_finRange r.shards
  have hmem := List.mem_finRange i
  cases call with
  | index doc => exact (r.run_singleton i _ (.index doc) engines).symm
  | bulkIndex docs =>
    have hbulk : r.after engines (.bulkIndex docs) i = (r.spawn (r.bulkTasks docs) engines).2 i :=
      rfl
    rw [tasks, labelsOf_map (hrange.filter _), hbulk]
    by_cases hempty : (r.byShard docs i).isEmpty = true
    · rw [spawn_snd_of_none (if_pos hempty), if_neg (by simp [hempty])]
      rfl
    · rw [spawn_snd_of_some (if_neg hempty), if_pos (by simp [hempty])]
      exact (bind_pure_snd (LocalShardClient.bulk (r.byShard docs i)) (engines i)).symm.trans
        (LocalShardClient.exec_eq (.bulk (r.byShard docs i)) (engines i))
  | delete docId => exact (r.run_singleton i _ (.delete docId) engines).symm
  | flush =>
    rw [tasks, labelsOf_map hrange, if_pos hmem]
    rfl
  | reindex =>
    rw [tasks, labelsOf_map hrange, if_pos hmem]
    exact (bind_pure_snd LocalShardClient.reindex (engines i)).symm
  | search request =>
    rw [tasks, labelsOf_map hrange, if_pos hmem]
    exact (bind_pure_snd (LocalShardClient.search (r.shardRequest request)) (engines i)).symm.trans
      (LocalShardClient.exec_eq (.search (r.shardRequest request)) (engines i))
  | restart j => exact (r.run_singleton i j .reopen engines).symm

/-- **A call leaves the shards as its tasks do**, in whatever order these run. -/
theorem run_tasks (engines : Fin r.shards → ShardEngine) (call : Call r.shards)
    {events : List (Fin r.shards × Op)} (h : (r.tasks call).Perm events) :
    LabelledRun.run (componentStep ShardEngine.step) engines events = r.after engines call := by
  rw [← run_perm h (r.nodup_tasks call)]
  funext i
  rw [run_apply, after_apply]

/-- Each shard has had its own tasks. -/
theorem ranTasks_apply (writeBufferSize : Nat) (searcher : MultiSegmentSearcher)
    (events : List (Fin r.shards × Op)) (i : Fin r.shards) :
    r.ranTasks writeBufferSize searcher events i
      = runNew writeBufferSize searcher (labelsOf i events) :=
  run_apply ShardEngine.step i events _

/-! ## 3. Every call succeeds -/

theorem mem_byShard {docs : List Document} {i : Fin r.shards} {doc : Document} :
    doc ∈ r.byShard docs i ↔ doc ∈ docs ∧ r.shardFor doc.id = i := by
  simp [byShard]

theorem flatMap_filter_isEmpty {ι α : Type*} (f : ι → List α) : ∀ is : List ι,
    (is.filter (fun i => !(f i).isEmpty)).flatMap f = is.flatMap f
  | [] => rfl
  | i :: is => by
    rw [List.flatMap_cons, ← flatMap_filter_isEmpty f is]
    cases hi : f i with
    | nil => rw [List.filter_cons_of_neg (by simp [hi])]; rfl
    | cons a as => rw [List.filter_cons_of_pos (by simp [hi]), List.flatMap_cons, hi]

/-- **Every document goes to one shard.** -/
theorem flatMap_byShard_perm (docs : List Document) :
    (((List.finRange r.shards).filter (fun i => !(r.byShard docs i).isEmpty)).flatMap
      (r.byShard docs)).Perm docs := by
  have hlabels : r.byShard docs
      = fun i => labelsOf i (docs.map (fun doc => (r.shardFor doc.id, doc))) := by
    funext i
    rw [labelsOf, List.filter_map, List.map_map]
    exact (List.map_id _).symm
  have hsnd : (docs.map (fun doc => (r.shardFor doc.id, doc))).map Prod.snd = docs := by
    rw [List.map_map]
    exact List.map_id docs
  have hperm := @flatMap_labelsOf_perm _ _ _ _ (List.nodup_finRange r.shards)
    (docs.map (fun doc => (r.shardFor doc.id, doc))) (fun e _ => List.mem_finRange e.1)
  rwa [hsnd, ← hlabels, ← flatMap_filter_isEmpty] at hperm

/-- The tasks of a call return what each of them does, if none fails. -/
theorem spawn_fst {α : Type} {tasks : Fin r.shards → Option (ShardM α)}
    {engines : Fin r.shards → ShardEngine} {value : Fin r.shards → α}
    (h : ∀ i task, tasks i = some task → (task (engines i)).1 = .ok (value i)) :
    (r.spawn tasks engines).1
      = .ok (((List.finRange r.shards).filter (fun i => (tasks i).isSome)).map value) := by
  have hall : ∀ is : List (Fin r.shards),
      (is.filterMap (fun i => (tasks i).map (fun task => task (engines i)))).mapM Prod.fst
        = .ok ((is.filter (fun i => (tasks i).isSome)).map value) := by
    intro is
    induction is with
    | nil => rfl
    | cons i is ih =>
      cases htask : tasks i with
      | none => rw [List.filterMap_cons_none (by rw [htask]; rfl), ih, List.filter_cons_of_neg
          (by simp [htask])]
      | some task =>
        rw [List.filterMap_cons_some (by rw [htask]; rfl), List.mapM_cons, h i task htask, ih,
          List.filter_cons_of_pos (by simp [htask])]
        rfl
  exact hall _

theorem foldl_ofNat {ι : Type} (f : ι → Nat) : ∀ (is : List ι) (total : Nat),
    (is.map (fun i => UInt32.ofNat (f i))).foldl (fun total count => total + count)
        (UInt32.ofNat total) = UInt32.ofNat (total + (is.map f).sum)
  | [], _ => rfl
  | i :: is, total => by
    rw [List.map_cons, List.foldl_cons, ← UInt32.ofNat_add, foldl_ofNat f is, List.map_cons,
      List.sum_cons, Nat.add_assoc]

section

variable {r} {engines : Fin r.shards → ShardEngine} (hinv : ∀ i, Inv (engines i))
include hinv

theorem index_fst (doc : Document) : (r.index doc engines).1 = .ok () := by
  have hok := congrArg Prod.fst (indexBatch_eq (hinv (r.shardFor doc.id)) [doc])
  exact hok

theorem delete_fst (docId : DocId) : (r.delete docId engines).1 = .ok () := by
  have hok := congrArg Prod.fst (delete_eq (hinv (r.shardFor docId)) docId)
  exact hok

/-- The count wraps, as a `u32` does. -/
theorem bulkIndex_fst (docs : List Document) :
    (r.bulkIndex docs engines).1 = .ok (UInt32.ofNat docs.length) := by
  have hspawn : (r.spawn (r.bulkTasks docs) engines).1
      = .ok (((List.finRange r.shards).filter (fun i => (r.bulkTasks docs i).isSome)).map
          (fun i => UInt32.ofNat (r.byShard docs i).length)) := by
    refine r.spawn_fst (fun i task htask => ?_)
    rw [bulkTasks] at htask
    split at htask
    · cases htask
    · obtain rfl := Option.some.inj htask
      rw [LocalShardClient.bulk, ShardM.bind_ok (indexBatch_eq (hinv i) (r.byShard docs i))]
      rfl
  have hsome : ∀ i, (r.bulkTasks docs i).isSome = !(r.byShard docs i).isEmpty := by
    intro i
    rw [bulkTasks]
    cases (r.byShard docs i).isEmpty <;> rfl
  have hlength := (r.flatMap_byShard_perm docs).length_eq
  rw [List.length_flatMap] at hlength
  simp only [hsome] at hspawn
  have hzero : (0 : UInt32) = UInt32.ofNat 0 := rfl
  show (r.spawn (r.bulkTasks docs) engines).1.map _ = _
  rw [hspawn, Except.map, hzero, foldl_ofNat, Nat.zero_add, hlength]

theorem flush_fst : (r.flush engines).1 = .ok () := by
  have hspawn := @spawn_fst r _ (fun _ => some LocalShardClient.flush) engines (fun _ => ())
    (fun i task htask => by
      obtain rfl := Option.some.inj htask
      exact congrArg Prod.fst (flush_eq (hinv i)))
  show (r.spawn _ engines).1.map _ = _
  rw [hspawn]
  rfl

/-- A reindex rewrites what the shards hold. -/
theorem reindex_fst : (r.reindex engines).1
    = .ok ((List.finRange r.shards).map (fun i => (engines i).holds.card)) := by
  have hspawn := @spawn_fst r _ (fun _ => some LocalShardClient.reindex) engines
    (fun i => (engines i).holds.card) (fun i task htask => by
      obtain rfl := Option.some.inj htask
      have hok := congrArg Prod.fst (reindexSelf_eq (hinv i))
      refine hok.trans (congrArg Except.ok ?_)
      rw [← Multiset.coe_card, coe_liveDocuments_run_flushChanges])
  refine hspawn.trans ?_
  rw [List.filter_eq_self.mpr (fun _ _ => Option.isSome_some)]

end

theorem inv_ranTasks (writeBufferSize : Nat) (searcher : MultiSegmentSearcher)
    (events : List (Fin r.shards × Op)) (i : Fin r.shards) :
    Inv (r.ranTasks writeBufferSize searcher events i) := by
  rw [ranTasks_apply]
  exact inv_runNew writeBufferSize searcher _

/-- Healthy shards answer every search. -/
theorem exists_searchLocal {r : Router} {engines : Fin r.shards → ShardEngine}
    (hinv : ∀ i, Inv (engines i)) (request : Request) :
    ∃ response, (r.searchLocal engines request).1 = .ok response := by
  let i := r.shardFor 0
  have hanswer : (r.engineAnswers engines request).search i (r.shardRequest request)
      = some (r.shardResult engines request i) := by
    show (LocalShardClient.search _ _).1.toOption = _
    rw [localSearch_eq (hinv i) request]
    rfl
  have hgather : r.gather (r.engineAnswers engines request) request ≠ [] :=
    List.ne_nil_of_mem (List.mem_filterMap.mpr ⟨i, List.mem_finRange i, hanswer⟩)
  obtain ⟨response, hok, -⟩ := r.counts_search _ hgather
  exact ⟨response, hok⟩

/-- **Calls succeed and do what their tasks do.**  In every state that tasks of any calls lead to,
in any order, every call succeeds; a bulk call returns the number of its documents, as a `u32`,
and a reindex how many documents each shard holds; and the shards are left as the tasks of the
call leave them, in whatever order these run. -/
theorem calls_succeed (writeBufferSize : Nat) (searcher : MultiSegmentSearcher)
    (events : List (Fin r.shards × Op)) :
    let engines := r.ranTasks writeBufferSize searcher events
    (∀ doc, (r.index doc engines).1 = .ok ()) ∧
    (∀ docs, (r.bulkIndex docs engines).1 = .ok (UInt32.ofNat docs.length)) ∧
    (∀ docId, (r.delete docId engines).1 = .ok ()) ∧
    (∀ request, ∃ response, (r.searchLocal engines request).1 = .ok response) ∧
    (r.flush engines).1 = .ok () ∧
    (r.reindex engines).1 = .ok ((List.finRange r.shards).map (fun i => (engines i).holds.card)) ∧
    ∀ call events', (r.tasks call).Perm events' →
      r.ranTasks writeBufferSize searcher (events ++ events') = r.after engines call := by
  intro engines
  have hinv := r.inv_ranTasks writeBufferSize searcher events
  refine ⟨index_fst hinv, bulkIndex_fst hinv, delete_fst hinv, exists_searchLocal hinv,
    flush_fst hinv, reindex_fst hinv, fun call events' hperm => ?_⟩
  rw [ranTasks, LabelledRun.run_append]
  exact r.run_tasks _ call hperm

/-! ## 4. What is shown was indexed -/

theorem docs_of_mem_tasks {call : Call r.shards} {i : Fin r.shards} {op : Op}
    (h : (i, op) ∈ r.tasks call) {doc : Document} (hdoc : doc ∈ op.docs) :
    doc ∈ call.docs ∧ r.shardFor doc.id = i := by
  have hnone : ∀ (is : List (Fin r.shards)) (op' : Fin r.shards → Op), (∀ j, (op' j).docs = []) →
      (i, op) ∉ is.map (fun j => (j, op' j)) := by
    intro is op' hnil hmem
    obtain ⟨j, -, heq⟩ := List.mem_map.mp hmem
    obtain ⟨rfl, rfl⟩ := Prod.mk.inj heq
    rw [hnil] at hdoc
    cases hdoc
  cases call with
  | index doc' =>
    obtain ⟨rfl, rfl⟩ := Prod.mk.inj (List.mem_singleton.mp h)
    obtain rfl := List.mem_singleton.mp hdoc
    exact ⟨hdoc, rfl⟩
  | bulkIndex docs =>
    obtain ⟨j, -, heq⟩ := List.mem_map.mp h
    obtain ⟨rfl, rfl⟩ := Prod.mk.inj heq
    exact (r.mem_byShard).mp hdoc
  | delete docId =>
    obtain ⟨rfl, rfl⟩ := Prod.mk.inj (List.mem_singleton.mp h)
    cases hdoc
  | flush => exact absurd h (hnone _ _ (fun _ => rfl))
  | reindex => exact absurd h (hnone _ _ (fun _ => rfl))
  | search request => exact absurd h (hnone _ _ (fun _ => rfl))
  | restart j =>
    obtain ⟨rfl, rfl⟩ := Prod.mk.inj (List.mem_singleton.mp h)
    cases hdoc

section

variable {r} {engines : Fin r.shards → ShardEngine} (hinv : ∀ i, Inv (engines i))
include hinv

/-- What is fetched, some shard holds. -/
theorem mem_holds_of_mem_fetchDocs {request : Request} {docIds : List DocId} {doc : Document}
    (hdoc : doc ∈ r.fetchDocs (fun i docIds =>
      some (LocalShardClient.getDocs (r.searched engines request i) docIds)) docIds) :
    ∃ i, doc ∈ (engines i).holds := by
  obtain ⟨i, -, hmem⟩ := List.mem_flatMap.mp hdoc
  refine ⟨i, ?_⟩
  have hget : doc ∈ (r.searched engines request i).getDocs
      (docIds.filter (fun id => r.shardFor id = i)) := by
    simp only at hmem
    split at hmem
    · cases hmem
    · exact hmem
  rw [searched, localSearch_eq (hinv i), getDocs_refreshed] at hget
  exact mem_holds_of_mem_getDocs (hinv i) hget

/-- **What a page shows**, some shard holds under the id of the hit. -/
theorem holds_of_shown {request : Request} {pageHits : List ShardHit}
    {candidateDocMap : DocId → Option Document}
    (hcandidates : ∀ id doc, candidateDocMap id = some doc → ∃ i, doc ∈ (engines i).holds)
    {includeDocs : Bool} {hit : SearchHit}
    (hhit : hit ∈ r.buildHits (r.engineAnswers engines request) pageHits candidateDocMap
      includeDocs)
    {doc : Document} (hdoc : hit.document = some doc) :
    doc.id = hit.id ∧ ∃ i, doc ∈ (engines i).holds := by
  cases includeDocs with
  | false =>
    obtain ⟨shardHit, -, rfl⟩ := List.mem_map.mp hhit
    cases hdoc
  | true =>
    obtain ⟨shardHit, -, rfl⟩ := List.mem_map.mp hhit
    obtain ⟨hmem, hid⟩ := (holds_lastIndexed _).mem _ doc hdoc
    refine ⟨hid, ?_⟩
    split at hmem
    · obtain ⟨id, -, hcandidate⟩ := List.mem_filterMap.mp hmem
      exact hcandidates id doc hcandidate
    · split at hmem
      · cases hmem
      · exact mem_holds_of_mem_fetchDocs hinv hmem

end

/-- **What a search shows was indexed.**  In every state that tasks of the calls of clients lead
to, in any order and some of them still to come, deletions and restarts among them, every
document in the response to any search, from the cache or not and whatever the ranker and the
strategy do, was indexed by one of the calls under the id of its hit. -/
theorem shown_was_indexed (writeBufferSize : Nat) (searcher : MultiSegmentSearcher)
    (calls : List (Call r.shards)) (events : List (Fin r.shards × Op))
    (hevents : events ⊆ calls.flatMap r.tasks) (request : Request)
    (cached : Option CachedResponse) {response : SearchResponse}
    (hok : r.search (r.engineAnswers (r.ranTasks writeBufferSize searcher events) request) cached
      request = .ok response)
    {hit : SearchHit} (hhit : hit ∈ response.hits) {doc : Document}
    (hdoc : hit.document = some doc) :
    doc.id = hit.id ∧ ∃ call ∈ calls, doc ∈ call.docs := by
  have hinv := r.inv_ranTasks writeBufferSize searcher events
  have hheld : doc.id = hit.id ∧
      ∃ i, doc ∈ (r.ranTasks writeBufferSize searcher events i).holds := by
    cases cached with
    | some cached =>
      obtain rfl := Except.ok.inj hok
      exact holds_of_shown hinv (fun _ _ hnone => absurd hnone (by simp)) hhit hdoc
    | none =>
      rw [search] at hok
      cases hscatter : r.scatterGather
          (r.engineAnswers (r.ranTasks writeBufferSize searcher events) request) request with
      | error e =>
        rw [hscatter] at hok
        cases hok
      | ok cached =>
        rw [hscatter] at hok
        obtain rfl := Except.ok.inj hok
        refine holds_of_shown hinv (fun id candidate hcandidate => ?_) hhit hdoc
        exact mem_holds_of_mem_fetchDocs hinv ((holds_lastIndexed _).mem _ _ hcandidate).1
  obtain ⟨hid, i, hholds⟩ := hheld
  refine ⟨hid, ?_⟩
  rw [ranTasks_apply] at hholds
  have hindexed := Multiset.mem_of_le ((bounded_runNew writeBufferSize searcher
    (labelsOf i events)).holds_le (inv_runNew writeBufferSize searcher _)) hholds
  rw [indexedDocs_flatMap_entries, Multiset.mem_coe] at hindexed
  obtain ⟨op, hop, hopDoc⟩ := List.mem_flatMap.mp hindexed
  obtain ⟨call, hcall, htask⟩ := List.mem_flatMap.mp (hevents (mem_labelsOf.mp hop))
  exact ⟨call, hcall, (r.docs_of_mem_tasks htask hopDoc).1⟩

/-! ## 5. Once the calls are through -/

/-- The tasks of a call index its documents. -/
theorem docs_tasks_perm (call : Call r.shards) :
    ((r.tasks call).flatMap (fun e => e.2.docs)).Perm call.docs := by
  have hnone : ∀ (is : List (Fin r.shards)) (op : Op), op.docs = [] →
      (is.map (fun i => (i, op))).flatMap (fun e => e.2.docs) = [] := by
    intro is op hop
    rw [List.flatMap_map]
    exact List.flatMap_eq_nil_iff.mpr (fun _ _ => hop)
  cases call with
  | index doc => exact List.Perm.refl _
  | bulkIndex docs =>
    rw [tasks, List.flatMap_map]
    exact r.flatMap_byShard_perm docs
  | delete docId => exact List.Perm.refl _
  | flush => exact List.Perm.of_eq (hnone _ _ rfl)
  | reindex => exact List.Perm.of_eq (hnone _ _ rfl)
  | search request => exact List.Perm.of_eq (hnone _ _ rfl)
  | restart i => exact List.Perm.refl _

/-- The tasks of a call that deletes nothing delete nothing. -/
theorem appendOnly_of_mem_tasks {call : Call r.shards} (h : call.AppendOnly) {i : Fin r.shards}
    {op : Op} (hop : (i, op) ∈ r.tasks call) : op.AppendOnly := by
  have hall : ∀ (is : List (Fin r.shards)) (op' : Fin r.shards → Op),
      (i, op) ∈ is.map (fun j => (j, op' j)) → (∀ j, (op' j).AppendOnly) → op.AppendOnly := by
    intro is op' hmem happend
    obtain ⟨j, -, heq⟩ := List.mem_map.mp hmem
    obtain ⟨rfl, rfl⟩ := Prod.mk.inj heq
    exact happend _
  cases call with
  | index doc => exact hall [r.shardFor doc.id] (fun _ => .index doc) hop (fun _ => trivial)
  | bulkIndex docs => exact hall _ _ hop (fun _ => trivial)
  | delete docId => exact h.elim
  | flush => exact hall _ _ hop (fun _ => trivial)
  | reindex => exact hall _ _ hop (fun _ => trivial)
  | search request => exact hall _ _ hop (fun _ => trivial)
  | restart j => exact hall [j] (fun _ => .reopen) hop (fun _ => trivial)

section

variable {r} {calls : List (Call r.shards)} {events : List (Fin r.shards × Op)}

/-- What interleaved calls put on the shards is what they index. -/
theorem flatMap_docs_perm (hevents : events.Perm (calls.flatMap r.tasks)) :
    ((List.finRange r.shards).flatMap (fun i => (labelsOf i events).flatMap Op.docs)).Perm
      (calls.flatMap Call.docs) := by
  have hcalls : ∀ calls : List (Call r.shards),
      ((calls.flatMap r.tasks).flatMap (fun e => e.2.docs)).Perm (calls.flatMap Call.docs) := by
    intro calls
    rw [List.flatMap_assoc]
    exact List.Perm.flatMap_left _ (fun call _ => r.docs_tasks_perm call)
  have hlabels := (@flatMap_labelsOf_perm _ _ _ _ (List.nodup_finRange r.shards) events
    (fun e _ => List.mem_finRange e.1)).flatMap_right Op.docs
  rw [List.flatMap_assoc, List.flatMap_map] at hlabels
  exact hlabels.trans ((hevents.flatMap_right _).trans (hcalls calls))

variable (r) in
/-- The documents that tasks put on each shard. -/
def taskDocs (events : List (Fin r.shards × Op)) (i : Fin r.shards) : List Document :=
  (labelsOf i events).flatMap Op.docs

/-- **After calls that delete nothing** the shards hold what they indexed. -/
theorem placed_ranTasks (writeBufferSize : Nat) (searcher : MultiSegmentSearcher)
    (hcalls : ∀ call ∈ calls, call.AppendOnly)
    (hids : ((calls.flatMap Call.docs).map Document.id).Nodup)
    (hevents : events.Perm (calls.flatMap r.tasks)) :
    r.Placed (r.ranTasks writeBufferSize searcher events) (r.taskDocs events) := by
  have hran : r.ranTasks writeBufferSize searcher events
      = fun i => runNew writeBufferSize searcher (labelsOf i events) :=
    funext (r.ranTasks_apply writeBufferSize searcher events)
  have hcall : ∀ i, ∀ op ∈ labelsOf i events, ∃ call ∈ calls, (i, op) ∈ r.tasks call :=
    fun i op hop => List.mem_flatMap.mp (hevents.mem_iff.mp (mem_labelsOf.mp hop))
  rw [hran]
  refine r.placed_runNew writeBufferSize searcher (fun i => labelsOf i events) ?_ ?_ ?_
  · intro i op hop
    obtain ⟨call, hmem, htask⟩ := hcall i op hop
    exact r.appendOnly_of_mem_tasks (hcalls call hmem) htask
  · intro i
    have hall := ((flatMap_docs_perm hevents).map Document.id).nodup_iff.mpr hids
    have hsub : ((labelsOf i events).flatMap Op.docs).Sublist
        ((List.finRange r.shards).flatMap (fun i => (labelsOf i events).flatMap Op.docs)) :=
      List.sublist_flatten_of_mem (List.mem_map_of_mem (List.mem_finRange i))
    exact hall.sublist (hsub.map _)
  · intro i doc hdoc
    obtain ⟨op, hop, hopDoc⟩ := List.mem_flatMap.mp hdoc
    obtain ⟨call, -, htask⟩ := hcall i op hop
    exact (r.docs_of_mem_tasks htask hopDoc).2

end

/-- The document of every hit is the one its shard holds. -/
theorem Placed.document_shown {r : Router} {engines : Fin r.shards → ShardEngine}
    {docs : Fin r.shards → List Document} (h : r.Placed engines docs)
    (hscatter : r.scatterLimit < 2 ^ 64) {request : Request} (hinclude : request.includeDocs = true)
    {cached : CachedResponse}
    (hcached : ∀ hit ∈ cached.hits, hit ∈ r.sortedHits (r.engineAnswers engines request) request)
    {hit : SearchHit} (hhit : hit ∈ (r.respond (r.engineAnswers engines request) request
      (docMap (r.candidateDocs (r.engineAnswers engines request) request)) false cached).hits) :
    hit.document = r.placedDoc docs hit.id := by
  let answers := r.engineAnswers engines request
  let shown := page request.offset request.limit cached.hits
  have hpage : ∀ shardHit ∈ shown, docMap (r.candidateDocs answers request) shardHit.1
      = r.placedDoc docs shardHit.1 := by
    intro shardHit hmem
    have hsorted := hcached shardHit ((page_sublist _ _ _).mem hmem)
    have hmap := h.docMap_candidateDocs hscatter (fun _ => .inProcess) hsorted
    exact hmap.trans (by cases r.placedDoc docs shardHit.1 <;> rfl)
  have hplaced : ∀ shardHit ∈ shown, ∃ doc, r.placedDoc docs shardHit.1 = some doc ∧
      doc.id = shardHit.1 := by
    intro shardHit hmem
    obtain ⟨doc, hdoc, hid⟩ := h.exists_placed (hcached shardHit ((page_sublist _ _ _).mem hmem))
    exact ⟨doc, (placedDoc_eq_some h.nodup).mpr ⟨hdoc, hid⟩, hid⟩
  have hcache : (shown.map Prod.fst).filterMap (docMap (r.candidateDocs answers request))
      = (shown.map Prod.fst).filterMap (r.placedDoc docs) := by
    refine List.filterMap_congr (fun id hid => ?_)
    obtain ⟨shardHit, hmem, rfl⟩ := List.mem_map.mp hid
    exact hpage shardHit hmem
  have hlength : ((shown.map Prod.fst).filterMap (r.placedDoc docs)).length
      = (shown.map Prod.fst).length := by
    rw [List.filterMap_length_eq_length]
    intro id hid
    obtain ⟨shardHit, hmem, rfl⟩ := List.mem_map.mp hid
    obtain ⟨doc, hdoc, -⟩ := hplaced shardHit hmem
    rw [hdoc]
    rfl
  simp only [respond, buildHits, hinclude, Bool.not_true, Bool.false_eq_true, if_false] at hhit
  obtain ⟨shardHit, hmem, rfl⟩ := List.mem_map.mp hhit
  show docMap (if ((shown.map Prod.fst).filterMap
    (docMap (r.candidateDocs answers request))).length = (shown.map Prod.fst).length then _
    else _) shardHit.1 = _
  rw [hcache, if_pos hlength]
  refine docMap_eq (fun doc hdoc hid => ?_) (fun doc hdoc => ?_)
  · obtain ⟨id, -, hget⟩ := List.mem_filterMap.mp hdoc
    rwa [← hid, ((placedDoc_eq_some h.nodup).mp hget).2]
  · exact ⟨List.mem_filterMap.mpr ⟨shardHit.1, List.mem_map_of_mem hmem, hdoc⟩,
      ((placedDoc_eq_some h.nodup).mp hdoc).2⟩

/-- Documents found for their ids. -/
theorem map_filterMap_found {find : DocId → Option Document} : ∀ {ids : List DocId},
    (∀ id ∈ ids, ∃ doc, find id = some doc ∧ doc.id = id) →
      (ids.filterMap find).map (fun doc => (doc.id, some doc)) = ids.map (fun id => (id, find id))
  | [], _ => rfl
  | id :: ids, h => by
    obtain ⟨doc, hfind, hid⟩ := h id List.mem_cons_self
    have ih := map_filterMap_found (fun id hmem => h id (List.mem_cons_of_mem _ hmem))
    rw [List.filterMap_cons_some hfind, List.map_cons, List.map_cons, ih, hfind, hid]

/-- The shards count what they hold. -/
theorem Placed.totalHits_shardResult {r : Router} {engines : Fin r.shards → ShardEngine}
    {docs : Fin r.shards → List Document} (h : r.Placed engines docs) {request : Request}
    (hbrowse : request.Browses) {i : Fin r.shards} (hroom : (docs i).length ≤ r.scatterLimit) :
    (r.shardResult engines request i).totalHits = (docs i).length := by
  have hreq : (r.shardRequest request).MatchAll (engines i).visible.card := by
    rw [h.visible i, Multiset.coe_card]
    exact ⟨hbrowse.query, hbrowse.filters, rfl, hroom⟩
  obtain ⟨response, hok, -, -, htotal⟩ := search_matchAll (h.inv i) hreq
  rw [ShardEngine.search_eq (h.inv i)] at hok
  obtain rfl := Except.ok.inj (Prod.mk.inj hok).1
  rw [h.visible i, Multiset.coe_card] at htotal
  exact htotal

/-- **All pages of a match-all search** are pages of one list of what the shards hold. -/
theorem Placed.pages_shown {r : Router} {engines : Fin r.shards → ShardEngine}
    {docs : Fin r.shards → List Document} (h : r.Placed engines docs)
    (hranker : r.ranker = noopRanker) (hscatter : r.scatterLimit < 2 ^ 64) {request : Request}
    (hbrowse : request.Browses) (hzone : request.NoZone) (hinclude : request.includeDocs = true)
    (hroom : ∀ i, (docs i).length ≤ r.scatterLimit) :
    ∃ order : List Document, order.Perm ((List.finRange r.shards).flatMap docs) ∧
      ∀ offset limit, ∃ response,
        (r.searchLocal engines (request.onPage offset limit)).1 = .ok response ∧
        response.totalHits = order.length ∧
        response.hits.map (fun hit => (hit.id, hit.document))
          = (page offset limit order).map (fun doc => (doc.id, some doc)) := by
  let sorted := r.sortedHits (r.engineAnswers engines request) request
  let order := (sorted.map Prod.fst).filterMap (r.placedDoc docs)
  have hfound : ∀ id ∈ sorted.map Prod.fst,
      ∃ doc, r.placedDoc docs id = some doc ∧ doc.id = id := by
    intro id hid
    obtain ⟨hit, hhit, rfl⟩ := List.mem_map.mp hid
    obtain ⟨doc, hdoc, hdocId⟩ := h.exists_placed hhit
    exact ⟨doc, (placedDoc_eq_some h.nodup).mpr ⟨hdoc, hdocId⟩, hdocId⟩
  have hperm : order.Perm ((List.finRange r.shards).flatMap docs) := by
    have hids : order.Perm (((List.finRange r.shards).flatMap (fun i =>
        (docs i).map Document.id)).filterMap (r.placedDoc docs)) :=
      (h.perm_ids_browsed hbrowse hroom).filterMap (r.placedDoc docs)
    refine hids.trans (List.Perm.of_eq ?_)
    rw [← List.map_flatMap, List.filterMap_map]
    refine (List.filterMap_congr (fun doc hdoc => ?_)).trans List.filterMap_some
    obtain ⟨i, -, hmem⟩ := List.mem_flatMap.mp hdoc
    exact (placedDoc_eq_some h.nodup).mpr ⟨by rwa [h.assigned i doc hmem], rfl⟩
  have horder : order.map (fun doc => (doc.id, some doc))
      = sorted.map (fun hit => (hit.1, r.placedDoc docs hit.1)) :=
    (map_filterMap_found hfound).trans (List.map_map)
  refine ⟨order, hperm, fun offset limit => ?_⟩
  let request' := request.onPage offset limit
  have hzone' : request'.NoZone := hzone
  have hinclude' : request'.includeDocs = true := hinclude
  have hgather := h.gather_ne_nil request'
  obtain ⟨cached, hcached, hhits⟩ := hits_scatterGather hranker hzone' hgather
  obtain ⟨response, hok, htotal, -⟩ := r.counts_search _ hgather
  have hsearch : r.search (r.engineAnswers engines request') none request'
      = .ok (r.respond (r.engineAnswers engines request') request'
        (docMap (r.candidateDocs (r.engineAnswers engines request') request')) false cached) := by
    rw [search, hcached]
    rfl
  obtain rfl : r.respond (r.engineAnswers engines request') request'
        (docMap (r.candidateDocs (r.engineAnswers engines request') request')) false cached
      = response := Except.ok.inj (hsearch.symm.trans hok)
  refine ⟨_, hok, ?_, ?_⟩
  · rw [htotal, h.gather_eq, List.map_map, hperm.length_eq, List.length_flatMap]
    exact congrArg List.sum (List.map_congr_left fun i _ =>
      h.totalHits_shardResult hbrowse (hroom i))
  · have hfetched := h.fetchedHits_eq request'
    have hdocument : ∀ hit ∈ (r.respond (r.engineAnswers engines request') request'
        (docMap (r.candidateDocs (r.engineAnswers engines request') request')) false cached).hits,
        hit.document = r.placedDoc docs hit.id := fun hit hhit =>
      h.document_shown hscatter hinclude' (fun shardHit hmem => by
        rwa [hhits, hfetched] at hmem) hhit
    have hpage := map_hits_respond (r.engineAnswers engines request') request'
      (docMap (r.candidateDocs (r.engineAnswers engines request') request')) false cached
    rw [hhits, hfetched] at hpage
    have hmap := congrArg (List.map (fun hit : ShardHit => (hit.1, r.placedDoc docs hit.1))) hpage
    rw [List.map_map, ← page_map] at hmap
    rw [← page_map, horder]
    refine (List.map_congr_left (fun hit hhit => ?_)).trans hmap
    rw [hdocument hit hhit]
    rfl

/-- **Everything indexed is shown, once.**  When calls that delete nothing, over documents with
distinct ids, are through, their tasks interleaved in any way, the pages of a search for everything
are those of one list with each of the documents once, with its contents, and count them; if no
shard holds more than it is asked for. -/
theorem indexed_shown_once (hranker : r.ranker = noopRanker) (hscatter : r.scatterLimit < 2 ^ 64)
    (writeBufferSize : Nat) (searcher : MultiSegmentSearcher) (calls : List (Call r.shards))
    (hcalls : ∀ call ∈ calls, call.AppendOnly)
    (hids : ((calls.flatMap Call.docs).map Document.id).Nodup)
    (events : List (Fin r.shards × Op)) (hevents : events.Perm (calls.flatMap r.tasks))
    (hroom : ∀ i, (r.byShard (calls.flatMap Call.docs) i).length ≤ r.scatterLimit)
    (request : Request) (hbrowse : request.Browses) (hzone : request.NoZone)
    (hinclude : request.includeDocs = true) :
    ∃ order : List Document, order.Perm (calls.flatMap Call.docs) ∧ ∀ offset limit, ∃ response,
      (r.searchLocal (r.ranTasks writeBufferSize searcher events)
        (request.onPage offset limit)).1 = .ok response ∧
      response.totalHits = order.length ∧
      response.hits.map (fun hit => (hit.id, hit.document))
        = (page offset limit order).map (fun doc => (doc.id, some doc)) := by
  have hplaced := placed_ranTasks writeBufferSize searcher hcalls hids hevents
  have hperm := flatMap_docs_perm hevents
  obtain ⟨order, horder, hpages⟩ :=
    hplaced.pages_shown hranker hscatter hbrowse hzone hinclude (fun i => by
      have hown : (r.taskDocs events i).Sublist
          (((List.finRange r.shards).flatMap (r.taskDocs events)).filter
            (fun doc => r.shardFor doc.id = i)) := by
        have hsub : (r.taskDocs events i).Sublist
            ((List.finRange r.shards).flatMap (r.taskDocs events)) :=
          List.sublist_flatten_of_mem (List.mem_map_of_mem (List.mem_finRange i))
        have hfilter := hsub.filter (fun doc => r.shardFor doc.id = i)
        rwa [List.filter_eq_self.mpr (fun doc hdoc =>
          decide_eq_true (hplaced.assigned i doc hdoc))] at hfilter
      exact hown.length_le.trans ((hperm.filter _).length_eq.trans_le (hroom i)))
  exact ⟨order, horder.trans hperm, hpages⟩

/-- A router for two shards: odd ids go to the second. -/
def paired : Router :=
  { single with
    shards := 2
    shardFor := fun id => ⟨id.toNat % 2, Nat.mod_lt _ Nat.two_pos⟩ }

/-- Three documents, two of them on the second shard, which is restarted. -/
def pairedCalls : List (Call paired.shards) :=
  [.bulkIndex [titled 1 "a", titled 2 "b", titled 3 "c"], .flush, .restart ⟨1, Nat.one_lt_two⟩]

/-- The last call comes first, and the tasks of the others are out of order. -/
theorem indexed_shown_once_paired :
    ∃ order : List Document, order.Perm (pairedCalls.flatMap Call.docs) ∧
      ∀ offset limit, ∃ response,
        (paired.searchLocal (paired.ranTasks 1000 .unscored
          (pairedCalls.flatMap paired.tasks).reverse)
          (Request.onPage { includeDocs := true } offset limit)).1 = .ok response ∧
        response.totalHits = order.length ∧
        response.hits.map (fun hit => (hit.id, hit.document))
          = (page offset limit order).map (fun doc => (doc.id, some doc)) :=
  paired.indexed_shown_once rfl (by decide) 1000 .unscored pairedCalls (by decide) (by decide)
    (pairedCalls.flatMap paired.tasks).reverse (List.reverse_perm _) (by decide)
    { includeDocs := true } ⟨rfl, rfl⟩ (by decide) rfl

/-- A search between a call and the next. -/
theorem shown_was_indexed_single :
    (titled 1 "a").id = 1 ∧ ∃ call ∈ ([.index (titled 1 "a"), .flush] : List (Call 1)),
      titled 1 "a" ∈ call.docs :=
  single.shown_was_indexed 1000 .unscored [.index (titled 1 "a"), .flush]
    [((0 : Fin 1), .index (titled 1 "a"))]
    (List.cons_subset.mpr ⟨List.mem_cons_self, List.nil_subset _⟩) { includeDocs := true } none
    (show _ = Except.ok ⟨[⟨1, F32.one, some (titled 1 "a")⟩], 1, [], true, .and, false⟩ by rfl)
    (List.mem_singleton_self _) rfl

end Router

end ZearchEngine
