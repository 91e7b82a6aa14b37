/-
# Runs of a primary and its replicas

A primary hands what it logs to the task of each replica, and the task sends it to the replica
(`crates/shard/src/replication.rs`, `crates/shard/src/grpc_server.rs`).  Calls can fail, before or
after the replica has applied the entry; a replica that is opened again catches up, in two phases
between which the primary goes on, as far as the streams of its primary reach; and when the primary
is opened again, its old tasks are gone.

Whatever fails, a replica shows only what was indexed on the primary, as the wire leaves it
(`replica_shows_indexed`).  Without deletions every document is accounted for: it is on the
replica, on its way, or it was lost by a call that failed or by a restart of the primary
(`replica_accounts`).
-/
import ZearchEngine.Replicas

namespace ZearchEngine

open LabelledRun KeyedStore

/-! ## 1. Primary and replicas -/

/-- A primary, its replication, and its replicas, with those of them that are about to ask for a
full sync. -/
structure Replicated where
  primary : ShardEngine
  replication : ReplicationManager
  replicas : Nat → ShardEngine
  syncs : Nat → Bool

/-- What happens to a primary and its replicas. -/
inductive ReplicatedAction where
  | call (op : ShardEngine.Op)
  /-- A call to a replica that fails may have arrived all the same. -/
  | task (i : Nat) (event : ReplicaEvent) (arrives : Bool)
  /-- A call on a replica that needs no log. -/
  | onReplica (i : Nat) (op : ShardEngine.Op) (h : op.entries = [])
  /-- A replica is opened again, and takes the log, as far as its stream goes. -/
  | restart (i : Nat) (breaksOff : Option Nat)
  /-- A replica that is to have a full sync takes it, as far as its stream goes. -/
  | sync (i : Nat) (breaksOff : Option Nat)

namespace Replicated

open ShardEngine

/-- New shards. -/
def start (writeBufferSize : Nat) (searcher : MultiSegmentSearcher)
    (replicaEndpoints : List String) : Replicated where
  primary := openDisk writeBufferSize searcher Disk.empty
  replication := .start replicaEndpoints
  replicas _ := openDisk writeBufferSize searcher Disk.empty
  syncs _ := false

/-- The entry that a replica is sent with an event. -/
def delivered (g : Replicated) (i : Nat) (event : ReplicaEvent) (arrives : Bool) :
    Option ReplicaEntry :=
  if event.isOk || arrives then (g.replication.tasks[i]?).bind (fun t => t.answered event)
  else none

/-- A replica does something. -/
def update (g : Replicated) (i : Nat) (task : ShardM Unit) : Nat → ShardEngine :=
  Function.update g.replicas i (task (g.replicas i)).2

/-- A replica is opened again and takes the log. -/
def reopen (primary : ShardEngine) (breaksOff : Option Nat) : ShardM Bool := do
  exec .reopen
  catchUpLog primary breaksOff

/-- The shards after an action. -/
def step (g : Replicated) : ReplicatedAction → Replicated
  | .call op =>
    { g with
      primary := g.primary.step op
      replication := g.replication.afterCall g.primary.wal op }
  | .task i event arrives =>
    { g with
      replication := g.replication.step (.task i event)
      replicas := g.update i (match g.delivered i event arrives with
        | some entry => ShardGrpcServer.replicate (ReplicationManager.entryToProto entry)
        | none => pure ()) }
  | .onReplica i op _ => { g with replicas := g.update i (exec op) }
  | .restart i breaksOff =>
    let (result, replica) := reopen g.primary breaksOff (g.replicas i)
    { g with
      replicas := Function.update g.replicas i replica
      syncs := Function.update g.syncs i (result.toOption.getD false) }
  | .sync i breaksOff =>
    if g.syncs i then
      { g with
        replicas := g.update i (catchUpSync g.primary breaksOff)
        syncs := Function.update g.syncs i false }
    else g

end Replicated

/-- The entries that an action logs on the primary. -/
def ReplicatedAction.entries : ReplicatedAction → List WalEntry
  | .call op => op.entries
  | _ => []

/-- The action deletes nothing. -/
def ReplicatedAction.AppendOnly : ReplicatedAction → Prop
  | .call op => op.AppendOnly
  | _ => True

/-- The action is no part of opening replica `i` again. -/
def ReplicatedAction.LeavesOpen (i : Nat) : ReplicatedAction → Prop
  | .onReplica j op _ => j = i → op.StaysOpen
  | .restart j _ | .sync j _ => j ≠ i
  | _ => True

/-! ## 2. All comes from the primary -/

theorem ShardEngine.Bounded.step {s : ShardEngine} {log : List WalEntry}
    (h : ShardEngine.Bounded s log) (hinv : ShardEngine.Inv s) (op : ShardEngine.Op) :
    ShardEngine.Bounded (s.step op) (log ++ op.entries) := by
  have hrun := ShardEngine.run_inv (I := ShardEngine.Bounded)
    (fun _ _ _ hinv hc _ h => h.change hinv hc) hinv h
    (along_of_forall (s.runChanges [op]) s (fun _ _ => trivial))
  simpa using hrun

theorem ShardEngine.Exact.step {s : ShardEngine} {log : List WalEntry}
    (h : ShardEngine.Exact s log) (hinv : ShardEngine.Inv s) {op : ShardEngine.Op}
    (hop : op.AppendOnly) : ShardEngine.Exact (s.step op) (log ++ op.entries) := by
  have hall : ∀ op' ∈ [op], op'.AppendOnly := fun op' hop' => List.mem_singleton.mp hop' ▸ hop
  have hrun := ShardEngine.run_inv (I := ShardEngine.Exact)
    (fun _ _ _ hinv hc hentries h => h.change hinv hc hentries) hinv h
    (ShardEngine.along_entries (ShardEngine.isIndex_of_appendOnly hall))
  simpa using hrun

namespace Replicated

open ShardEngine

/-- The documents among entries, as they come over the wire. -/
def received (entries : List WalEntry) : List Document :=
  (indexedDocs entries).map Document.received

theorem received_append (entries entries' : List WalEntry) :
    received (entries ++ entries') = received entries ++ received entries' := by
  rw [received, indexedDocs_append, List.map_append]
  rfl

/-- All that is on its way to the replicas, or was, comes from the primary's log. -/
structure Sound (log : List WalEntry) (g : Replicated) : Prop where
  primary : Inv g.primary
  bounded : Bounded g.primary log
  replication : g.replication.Open
  sent : ∀ i, ∀ e ∈ g.replication.outstanding i, e.entry ∈ log
  replicas : ∀ i, Within (received log) (g.replicas i)

variable {log : List WalEntry} {g : Replicated}

theorem indexedDocs_subset {entries entries' : List WalEntry} (h : entries ⊆ entries') :
    indexedDocs entries ⊆ indexedDocs entries' :=
  List.filterMap_subset _ h

/-- What is delivered was on its way. -/
theorem Sound.delivered (h : Sound log g) {i : Nat} {event : ReplicaEvent} {arrives : Bool}
    {entry : ReplicaEntry} (hentry : g.delivered i event arrives = some entry) :
    entry.entry ∈ log := by
  rw [Replicated.delivered] at hentry
  split at hentry
  · refine h.sent i entry ?_
    rw [(h.replication.task i event).2.1, hentry]
    exact List.mem_cons_self
  · cases hentry

/-- **`replicate` applies the entry**, as it comes over the wire. -/
theorem replicate_eq {s : ShardEngine} (h : Inv s) (entry : ReplicaEntry) :
    ShardGrpcServer.replicate (ReplicationManager.entryToProto entry) s
      = (.ok (), s.applied entry.entry.received) := by
  obtain ⟨seq, entry⟩ := entry
  cases entry with
  | index doc => exact applyReplicated_eq h (.index doc.received)
  | delete docId => exact applyReplicated_eq h (.delete docId)

theorem Sound.replica (h : Sound log g) {i : Nat} {replica : ShardEngine}
    (hreplica : Within (received log) replica) (j : Nat) :
    Within (received log) (Function.update g.replicas i replica j) := by
  by_cases hj : j = i
  · subst hj
    rw [Function.update_self]
    exact hreplica
  · rw [Function.update_of_ne hj]
    exact h.replicas j

theorem Sound.update (h : Sound log g) {i : Nat} {task : ShardM Unit}
    (htask : Within (received log) (task (g.replicas i)).2) (j : Nat) :
    Within (received log) (g.update i task j) :=
  h.replica htask j

/-- A replica after an event of its task: it has applied what it was sent. -/
theorem Sound.replicas_task (h : Sound log g) (i : Nat) (event : ReplicaEvent) (arrives : Bool) :
    (g.step (.task i event arrives)).replicas i = (g.delivered i event arrives).elim (g.replicas i)
      (fun entry => (g.replicas i).applied entry.entry.received) := by
  have hself : (g.step (.task i event arrives)).replicas i
      = ((match g.delivered i event arrives with
        | some entry => ShardGrpcServer.replicate (ReplicationManager.entryToProto entry)
        | none => pure ()) (g.replicas i)).2 := Function.update_self _ _ _
  rw [hself]
  cases g.delivered i event arrives with
  | none => rfl
  | some entry => exact congrArg Prod.snd (replicate_eq (h.replicas i).inv entry)

/-- **Every action keeps it so.** -/
theorem Sound.step (h : Sound log g) (a : ReplicatedAction) :
    Sound (log ++ a.entries) (g.step a) := by
  cases a with
  | call op =>
    have hsub : log ⊆ log ++ op.entries := List.subset_append_left _ _
    have hreplicas : ∀ i, Within (received (log ++ op.entries)) (g.replicas i) := fun i =>
      (h.replicas i).mono (List.map_subset _ (indexedDocs_subset hsub))
    have hinv : Inv (g.primary.step op) := by
      rw [step_eq h.primary]
      exact h.primary.run (along_changes _ op)
    have hbounded := h.bounded.step h.primary op
    by_cases hop : op = .reopen
    · subst hop
      refine ⟨hinv, hbounded, ReplicationManager.open_start _, fun i e he => ?_, hreplicas⟩
      have hnone : e ∈ (ReplicationManager.start _).outstanding i := he
      rw [ReplicationManager.outstanding_start] at hnone
      cases hnone
    · obtain ⟨hopen, hout⟩ := h.replication.afterCall g.primary.wal hop
      refine ⟨hinv, hbounded, hopen, fun i e he => ?_, hreplicas⟩
      have hmem : e ∈ (g.replication.afterCall g.primary.wal op).outstanding i := he
      rw [hout] at hmem
      rcases List.mem_append.mp hmem with hold | hnew
      · exact hsub (h.sent i e hold)
      · refine List.mem_append_right _ ?_
        split at hnew
        · have hentry := List.mem_map_of_mem (f := ReplicaEntry.entry) hnew
          rwa [WriteOrder.map_entry_sequenced] at hentry
        · cases hnew
  | task i event arrives =>
    show Sound (log ++ []) _
    rw [List.append_nil]
    obtain ⟨hopen, hout, hothers⟩ := h.replication.task i event
    refine ⟨h.primary, h.bounded, hopen, fun j e he => ?_, h.update ?_⟩
    · have hmem : e ∈ (g.replication.step (.task i event)).outstanding j := he
      by_cases hj : j = i
      · subst hj
        refine h.sent j e ?_
        rw [hout]
        exact List.mem_append_right _ hmem
      · rw [hothers j hj] at hmem
        exact h.sent j e hmem
    · cases hdelivered : g.delivered i event arrives with
      | none => exact h.replicas i
      | some entry =>
        show Within _ (ShardGrpcServer.replicate _ _).2
        rw [replicate_eq (h.replicas i).inv]
        refine (h.replicas i).applied ?_
        have hsub : [entry.entry] ⊆ log := List.cons_subset.mpr
          ⟨h.delivered hdelivered, List.nil_subset _⟩
        have hone := List.map_subset Document.received (indexedDocs_subset hsub)
        rwa [← indexedDocs_map_received] at hone
  | onReplica i op hop =>
    show Sound (log ++ []) _
    rw [List.append_nil]
    exact ⟨h.primary, h.bounded, h.replication, h.sent, h.update ((h.replicas i).step hop)⟩
  | restart i breaksOff =>
    show Sound (log ++ []) _
    rw [List.append_nil]
    have hopened : Within (received log) ((g.replicas i).step .reopen) := (h.replicas i).step rfl
    have hlog : (indexedDocs g.primary.wal.readAll).map Document.received ⊆ received log := by
      refine List.map_subset _ (fun doc hdoc => ?_)
      rw [h.bounded.wal] at hdoc
      exact Multiset.mem_of_le (h.bounded.holds_le h.primary) (Multiset.mem_add.mpr (Or.inr hdoc))
    exact ⟨h.primary, h.bounded, h.replication, h.sent,
      h.replica (hopened.catchUpLog hlog breaksOff)⟩
  | sync i breaksOff =>
    show Sound (log ++ []) _
    rw [List.append_nil, Replicated.step]
    split
    · have hlive : g.primary.getAllLiveDocs.map Document.received ⊆ received log := by
        refine List.map_subset _ (fun doc hdoc => ?_)
        rw [← Multiset.mem_coe, coe_getAllLiveDocs] at hdoc
        exact Multiset.mem_of_le (h.bounded.holds_le h.primary)
          (Multiset.mem_of_le g.primary.visible_le_holds hdoc)
      exact ⟨h.primary, h.bounded, h.replication, h.sent,
        h.replica ((h.replicas i).catchUpSync hlive breaksOff)⟩
    · exact h

theorem sound_start (writeBufferSize : Nat) (searcher : MultiSegmentSearcher)
    (replicaEndpoints : List String) :
    Sound [] (start writeBufferSize searcher replicaEndpoints) where
  primary := inv_new writeBufferSize searcher
  bounded := bounded_new writeBufferSize searcher
  replication := ReplicationManager.open_start replicaEndpoints
  sent := fun i e he => by
    have hnone : e ∈ (ReplicationManager.start replicaEndpoints).outstanding i := he
    rw [ReplicationManager.outstanding_start] at hnone
    cases hnone
  replicas := fun _ => ⟨inv_new writeBufferSize searcher, rfl, fun _ hdoc => by cases hdoc⟩

theorem Sound.run : ∀ (actions : List ReplicatedAction) {g : Replicated} {log : List WalEntry},
    Sound log g →
    Sound (log ++ actions.flatMap ReplicatedAction.entries) (run Replicated.step g actions)
  | [], g, log, h => by rwa [List.flatMap_nil, List.append_nil]
  | a :: actions, g, log, h => by
    have hrest := Sound.run actions (h.step a)
    rwa [List.append_assoc] at hrest

/-- **A replica shows only what was indexed.**  In every run of a primary and its replicas, with
deletions and restarts on both sides, catch-ups that break off anywhere, connections and calls
that fail, and calls that arrive though they fail: every hit of every search on a replica, and
every document it returns for an id, is a document that was indexed on the primary, under its
id, as it comes over the wire. -/
theorem replica_shows_indexed (writeBufferSize : Nat) (searcher : MultiSegmentSearcher)
    (replicaEndpoints : List String) (actions : List ReplicatedAction) (i : Nat) :
    let replica := (run step (start writeBufferSize searcher replicaEndpoints) actions).replicas i
    let indexed := indexedDocs (actions.flatMap ReplicatedAction.entries)
    (∀ request, ∃ response, (search request replica).1 = .ok response ∧
      ∀ hit ∈ response.hits, ∃ doc ∈ indexed,
        hit.id = doc.id ∧ hit.document = some doc.received) ∧
    ∀ docIds, ∀ found ∈ replica.getDocs docIds, ∃ doc ∈ indexed, found = doc.received := by
  intro replica indexed
  have hsound := (sound_start writeBufferSize searcher replicaEndpoints).run actions
  have hwithin : Within (indexed.map Document.received) replica := hsound.replicas i
  refine ⟨fun request => ?_, fun docIds found hfound => ?_⟩
  · obtain ⟨response, hok, hhits⟩ := hwithin.search request
    refine ⟨response, hok, fun hit hhit => ?_⟩
    obtain ⟨found, hfound, hid, hdoc⟩ := hhits hit hhit
    obtain ⟨doc, hmem, rfl⟩ := List.mem_map.mp hfound
    exact ⟨doc, hmem, hid, hdoc⟩
  · have hheld := mem_holds_of_mem_getDocs hwithin.inv hfound
    obtain ⟨doc, hmem, rfl⟩ := List.mem_map.mp
      (hwithin.kept found (Multiset.mem_of_le hwithin.inv.holds_le_kept hheld))
    exact ⟨doc, hmem, rfl⟩

/-! ## 3. Where every document is -/

/-- The documents that a replica is still to be sent. -/
def onTheWay (g : Replicated) (i : Nat) : List Document :=
  received ((g.replication.outstanding i).map ReplicaEntry.entry)

/-- The documents that no replica `i` will ever be sent, from an action on: that of a call that
fails without having arrived, and all that is on its way when the primary is opened again. -/
def lost (i : Nat) (g : Replicated) : ReplicatedAction → List Document
  | .call .reopen => g.onTheWay i
  | .task j event arrives =>
    if j = i ∧ (event.isOk || arrives) = false then
      received (((g.replication.tasks[i]?).bind (fun t => t.answered event)).toList.map
        ReplicaEntry.entry)
    else []
  | _ => []

/-- The documents lost in a run. -/
def lostAlong (i : Nat) : Replicated → List ReplicatedAction → List Document
  | _, [] => []
  | g, a :: actions => g.lost i a ++ lostAlong i (g.step a) actions

theorem update_of_ne {i j : Nat} (h : j ≠ i) (task : ShardM Unit) :
    g.update j task i = g.replicas i :=
  Function.update_of_ne (fun heq => h heq.symm) _ _

/-- A full sync is for one replica. -/
theorem replicas_sync {i j : Nat} (h : j ≠ i) {breaksOff : Option Nat} :
    (g.step (.sync j breaksOff)).replicas i = g.replicas i := by
  rw [Replicated.step]
  split
  · exact update_of_ne h _
  · rfl

/-- What a replica holds after it has been sent an entry, or nothing. -/
theorem Sound.holds_task (h : Sound log g) (i : Nat) (event : ReplicaEvent) (arrives : Bool) :
    ((g.step (.task i event arrives)).replicas i).holds
      = (g.replicas i).holds + (↑(received ((g.delivered i event arrives).toList.map
          ReplicaEntry.entry)) : Multiset Document) := by
  rw [h.replicas_task]
  cases g.delivered i event arrives with
  | none => exact (add_zero _).symm
  | some entry =>
    refine ((h.replicas i).inv.holds_applied entry.entry.received).trans ?_
    exact congrArg (fun docs : List Document => (g.replicas i).holds + (docs : Multiset Document))
      (indexedDocs_map_received [entry.entry])

section

variable {i : Nat}

/-- **An action accounts for every document**: what the replica holds, what is on its way, and
what is lost, are what they were and what is logged. -/
theorem Sound.account_step (h : Sound log g) (hi : i < g.replication.tasks.length)
    {a : ReplicatedAction} (ha : a.LeavesOpen i) :
    ((g.step a).replicas i).holds + ↑((g.step a).onTheWay i) + ↑(g.lost i a)
      = (g.replicas i).holds + ↑(g.onTheWay i) + (↑(received a.entries) : Multiset Document) := by
  cases a with
  | call op =>
    by_cases hop : op = .reopen
    · subst hop
      have hnone : (g.step (.call .reopen)).onTheWay i = [] := by
        show received (((ReplicationManager.start _).outstanding i).map ReplicaEntry.entry) = []
        rw [ReplicationManager.outstanding_start]
        rfl
      rw [hnone, Multiset.coe_nil, add_zero]
      exact (add_zero _).symm
    · have hlost : g.lost i (.call op) = [] := by
        cases op with
        | reopen => exact absurd rfl hop
        | _ => rfl
      have hway : (g.step (.call op)).onTheWay i = g.onTheWay i ++ received op.entries := by
        show received (((g.replication.afterCall g.primary.wal op).outstanding i).map
          ReplicaEntry.entry) = _
        rw [(h.replication.afterCall g.primary.wal hop).2 i, if_pos hi, List.map_append,
          WriteOrder.map_entry_sequenced, received_append]
        rfl
      rw [hlost, hway, Multiset.coe_nil, add_zero, ← Multiset.coe_add, ← add_assoc]
      rfl
  | task j event arrives =>
    obtain ⟨-, hout, hothers⟩ := h.replication.task j event
    by_cases hj : j = i
    · subst hj
      have hway : g.onTheWay j = received (((g.replication.tasks[j]?).bind
          (fun t => t.answered event)).toList.map ReplicaEntry.entry)
            ++ (g.step (.task j event arrives)).onTheWay j := by
        rw [onTheWay, hout, List.map_append, received_append]
        rfl
      rw [h.holds_task, hway, ← Multiset.coe_add, Replicated.delivered]
      cases harrives : (event.isOk || arrives) with
      | true =>
        have hlost : g.lost j (.task j event arrives) = [] := by
          rw [Replicated.lost, harrives]
          simp
        rw [hlost, if_pos rfl]
        exact (add_zero _).trans ((add_assoc _ _ _).trans (add_zero _).symm)
      | false =>
        have hlost : g.lost j (.task j event arrives) = received (((g.replication.tasks[j]?).bind
            (fun t => t.answered event)).toList.map ReplicaEntry.entry) := by
          rw [Replicated.lost, harrives]
          simp
        rw [hlost, if_neg Bool.false_ne_true]
        show (g.replicas j).holds + 0 + _ + _ = (g.replicas j).holds + (_ + _) + 0
        rw [add_zero, add_zero, add_assoc, add_comm (Multiset.ofList ((g.step _).onTheWay j))]
    · have hlost : g.lost i (.task j event arrives) = [] := by
        rw [Replicated.lost, if_neg (fun hboth => hj hboth.1)]
      have hway : (g.step (.task j event arrives)).onTheWay i = g.onTheWay i := by
        rw [onTheWay, onTheWay]
        exact congrArg (fun out => received (out.map ReplicaEntry.entry))
          (hothers i (fun heq => hj heq.symm))
      have hsame : (g.step (.task j event arrives)).replicas i = g.replicas i := update_of_ne hj _
      rw [hlost, hway, hsame]
      rfl
  | onReplica j op hop =>
    by_cases hj : j = i
    · subst hj
      have hself : (g.step (.onReplica j op hop)).replicas j = (g.replicas j).step op :=
        Function.update_self _ _ _
      have hdocs : op.docs = [] := by rw [← indexedDocs_entries, hop]; rfl
      rw [hself, holds_step (h.replicas j).inv (ha rfl), hdocs, Multiset.coe_nil, add_zero]
      rfl
    · have hsame : (g.step (.onReplica j op hop)).replicas i = g.replicas i := update_of_ne hj _
      rw [hsame]
      rfl
  | restart j breaksOff =>
    have hsame : (g.step (.restart j breaksOff)).replicas i = g.replicas i :=
      Function.update_of_ne (fun heq => ha heq.symm) _ _
    rw [hsame]
    rfl
  | sync j breaksOff =>
    have hsame : (g.step (.sync j breaksOff)).replicas i = g.replicas i := replicas_sync ha
    have hway : (g.step (.sync j breaksOff)).onTheWay i = g.onTheWay i := by
      rw [Replicated.step]
      split <;> rfl
    rw [hsame, hway]
    rfl

/-- **A run accounts for every document.** -/
theorem Sound.account_run : ∀ (actions : List ReplicatedAction) {g : Replicated}
    {log : List WalEntry}, Sound log g → i < g.replication.tasks.length →
    (∀ a ∈ actions, a.LeavesOpen i) →
    ((LabelledRun.run Replicated.step g actions).replicas i).holds
        + ↑((LabelledRun.run Replicated.step g actions).onTheWay i) + ↑(lostAlong i g actions)
      = (g.replicas i).holds + ↑(g.onTheWay i)
        + (↑(received (actions.flatMap ReplicatedAction.entries)) : Multiset Document)
  | [], g, log, _, _, _ => rfl
  | a :: actions, g, log, h, hi, hopen => by
    have hlen : i < (g.step a).replication.tasks.length := by
      cases a with
      | call op => exact (ReplicationManager.length_tasks_afterCall _ _ op).symm ▸ hi
      | task j event arrives => exact (ReplicationManager.length_tasks_step _ j event).symm ▸ hi
      | onReplica j op hop => exact hi
      | restart j breaksOff => exact hi
      | sync j breaksOff =>
        rw [Replicated.step]
        split
        · exact hi
        · exact hi
    have hstep := h.account_step hi (hopen a List.mem_cons_self)
    have hrest := Sound.account_run actions (h.step a) hlen
      (fun b hb => hopen b (List.mem_cons_of_mem _ hb))
    rw [run_cons, lostAlong, List.flatMap_cons, received_append, ← Multiset.coe_add,
      ← Multiset.coe_add, add_comm (Multiset.ofList (g.lost i a)), ← add_assoc, hrest,
      add_right_comm, hstep, add_assoc _ (Multiset.ofList _) (Multiset.ofList _)]

/-- Nothing is deleted, on the primary or on replica `i`. -/
structure NoneDeleted (i : Nat) (log : List WalEntry) (g : Replicated) : Prop where
  exact : Exact g.primary log
  isIndex : ∀ entry ∈ log, entry.IsIndex
  deletedIds : (g.replicas i).writeBuffer.deletedIds = ∅

theorem NoneDeleted.step (h : NoneDeleted i log g) (hsound : Sound log g) {a : ReplicatedAction}
    (hdelete : a.AppendOnly) (hopen : a.LeavesOpen i) :
    NoneDeleted i (log ++ a.entries) (g.step a) := by
  cases a with
  | call op =>
    refine ⟨h.exact.step hsound.primary hdelete, fun entry hentry => ?_, h.deletedIds⟩
    rcases List.mem_append.mp hentry with hold | hnew
    · exact h.isIndex entry hold
    · have hall : ∀ op' ∈ [op], op'.AppendOnly := fun op' hop' =>
        List.mem_singleton.mp hop' ▸ hdelete
      exact isIndex_of_appendOnly hall entry (List.mem_flatMap.mpr ⟨op, by simp, hnew⟩)
  | task j event arrives =>
    show NoneDeleted i (log ++ []) _
    rw [List.append_nil]
    refine ⟨h.exact, h.isIndex, ?_⟩
    by_cases hj : j = i
    · subst hj
      rw [hsound.replicas_task]
      cases hdelivered : g.delivered j event arrives with
      | none => exact h.deletedIds
      | some entry =>
        have hindex := h.isIndex _ (hsound.delivered hdelivered)
        have hreceived : entry.entry.received.IsIndex := by
          cases hentry : entry.entry with
          | index doc => trivial
          | delete docId =>
            rw [hentry] at hindex
            exact hindex
        exact (hsound.replicas j).inv.deletedIds_applied hreceived h.deletedIds
    · have hsame : (g.step (.task j event arrives)).replicas i = g.replicas i := update_of_ne hj _
      rw [hsame]
      exact h.deletedIds
  | onReplica j op hop =>
    show NoneDeleted i (log ++ []) _
    rw [List.append_nil]
    refine ⟨h.exact, h.isIndex, ?_⟩
    by_cases hj : j = i
    · subst hj
      have hself : (g.step (.onReplica j op hop)).replicas j = (g.replicas j).step op :=
        Function.update_self _ _ _
      have happend : op.AppendOnly := by
        cases op with
        | delete docId => cases hop
        | _ => trivial
      rw [hself]
      exact (hsound.replicas j).inv.deletedIds_step happend (hopen rfl) h.deletedIds
    · have hsame : (g.step (.onReplica j op hop)).replicas i = g.replicas i := update_of_ne hj _
      rw [hsame]
      exact h.deletedIds
  | restart j breaksOff =>
    show NoneDeleted i (log ++ []) _
    rw [List.append_nil]
    have hsame : (g.step (.restart j breaksOff)).replicas i = g.replicas i :=
      Function.update_of_ne (fun heq => hopen heq.symm) _ _
    exact ⟨h.exact, h.isIndex, hsame.symm ▸ h.deletedIds⟩
  | sync j breaksOff =>
    show NoneDeleted i (log ++ []) _
    rw [List.append_nil]
    have hsame : (g.step (.sync j breaksOff)).replicas i = g.replicas i := replicas_sync hopen
    have hprimary : (g.step (.sync j breaksOff)).primary = g.primary := by
      rw [Replicated.step]
      split <;> rfl
    exact ⟨hprimary.symm ▸ h.exact, h.isIndex, hsame.symm ▸ h.deletedIds⟩

theorem NoneDeleted.run : ∀ (actions : List ReplicatedAction) {g : Replicated}
    {log : List WalEntry}, NoneDeleted i log g → Sound log g → (∀ a ∈ actions, a.AppendOnly) →
    (∀ a ∈ actions, a.LeavesOpen i) →
    NoneDeleted i (log ++ actions.flatMap ReplicatedAction.entries)
      (LabelledRun.run Replicated.step g actions)
  | [], g, log, h, _, _, _ => by rwa [List.flatMap_nil, List.append_nil]
  | a :: actions, g, log, h, hsound, hdelete, hopen => by
    have hrest := NoneDeleted.run actions
      (h.step hsound (hdelete a List.mem_cons_self) (hopen a List.mem_cons_self)) (hsound.step a)
      (fun b hb => hdelete b (List.mem_cons_of_mem _ hb))
      (fun b hb => hopen b (List.mem_cons_of_mem _ hb))
    rwa [List.append_assoc] at hrest

end

/-- **Replication accounts for every document.**  Take any run of a primary and its replicas that
deletes nothing and does not open replica `i` again.  The primary shows what was indexed.  What
the replica shows, what is on its way to it, and what was lost by calls that failed without having
arrived and by restarts of the primary, are together exactly what was indexed, as it comes over
the wire.  So once nothing is on its way, the replica shows everything exactly if nothing was
lost. -/
theorem replica_accounts (writeBufferSize : Nat) (searcher : MultiSegmentSearcher)
    (replicaEndpoints : List String) (actions : List ReplicatedAction)
    (hdelete : ∀ a ∈ actions, a.AppendOnly) {i : Nat} (hi : i < replicaEndpoints.length)
    (hopen : ∀ a ∈ actions, a.LeavesOpen i) :
    let new := start writeBufferSize searcher replicaEndpoints
    let g := run step new actions
    let indexed := indexedDocs (actions.flatMap ReplicatedAction.entries)
    g.primary.Shows ↑indexed ∧
    (∃ shown, (g.replicas i).Shows shown ∧
      shown + ↑(g.onTheWay i) + ↑(lostAlong i new actions) = ↑(indexed.map Document.received)) ∧
    (g.onTheWay i = [] →
      ((g.replicas i).Shows ↑(indexed.map Document.received) ↔ lostAlong i new actions = [])) := by
  intro new g indexed
  have hnew := sound_start writeBufferSize searcher replicaEndpoints
  have hsound := hnew.run actions
  have hstart : NoneDeleted i [] new :=
    ⟨exact_new writeBufferSize searcher, fun _ hentry => absurd hentry List.not_mem_nil, rfl⟩
  have hnone := hstart.run actions hnew hdelete hopen
  have hlength : i < new.replication.tasks.length := by
    rw [show new.replication.tasks.length = replicaEndpoints.length from List.length_map _]
    exact hi
  have haccount := hnew.account_run actions hlength hopen
  have hway : new.onTheWay i = [] := by
    show received (((ReplicationManager.start _).outstanding i).map ReplicaEntry.entry) = []
    rw [ReplicationManager.outstanding_start]
    rfl
  have hholds : (g.replicas i).visible = (g.replicas i).holds := by
    rw [visible, holds, WriteBuffer.allDocs, hnone.deletedIds]
    simp
  rw [← hholds, hway] at haccount
  have hall : (g.replicas i).visible + ↑(g.onTheWay i) + ↑(lostAlong i new actions)
      = (↑(indexed.map Document.received) : Multiset Document) := haccount.trans (zero_add _)
  refine ⟨?_, ⟨_, ((hsound.replicas i).inv.shows_iff _).mpr rfl, hall⟩, fun hidle => ?_⟩
  · exact (hsound.primary.shows_iff _).mpr hnone.exact.visible
  · rw [(hsound.replicas i).inv.shows_iff, ← hall, hidle, Multiset.coe_nil, add_zero,
      left_eq_add, Multiset.coe_eq_zero]

/-- Two documents are sent.  The first call fails, but only after it has arrived. -/
def sentTwo : List ReplicatedAction :=
  [.call (.indexBatch [titled 1 "a", titled 2 "b"]), .task 0 (.connect true) false,
    .task 0 .recv false, .task 0 (.replicate false) true, .task 0 (.connect true) false,
    .onReplica 0 .flush rfl, .task 0 .recv false, .task 0 (.replicate true) false]

theorem replica_accounts_sentTwo :
    ((run step (start 1000 .unscored ["replica"]) sentTwo).replicas 0).Shows
      ↑([titled 1 "a", titled 2 "b"].map Document.received) :=
  ((replica_accounts 1000 .unscored ["replica"] sentTwo
    (by simp [sentTwo, ReplicatedAction.AppendOnly, Op.AppendOnly]) (i := 0) (by decide)
    (by simp [sentTwo, ReplicatedAction.LeavesOpen, Op.StaysOpen])).2.2 rfl).mpr rfl

end Replicated

end ZearchEngine
