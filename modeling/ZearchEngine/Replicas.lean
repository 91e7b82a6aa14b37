/-
# What a replica is sent

The tasks of a primary's `ReplicationManager` (`crates/shard/src/replication.rs`) and what a replica
makes of what it is sent (`crates/shard/src/shard.rs`): by `replicate`, or by a catch-up whose
streams can break off anywhere.  The two phases of a catch-up, the log's and that of the full
sync, each ask the primary as it is then.

A replica writes no log.  So nothing it does by itself brings it a document (`Inv.kept_change`), a
restart takes from it what its buffer held, and it stays within the documents it is sent
(`Within`).  As long as it is not opened again it keeps them: entries add to what it `holds`
(`Inv.holds_applied`), and nothing takes from it (`holds_step`).
-/
import ZearchEngine.CatchUp
import ZearchEngine.Cluster
import ZearchEngine.ReadPaths
import ZearchEngine.Replication
import ZearchEngine.WriteOrder

namespace ZearchEngine

open LabelledRun KeyedStore

/-! ## 1. Tasks and catch-ups -/

namespace ReplicaTask

/-- What is being sent and what is queued. -/
def outstanding (t : ReplicaTask) : List ReplicaEntry := t.inFlight ++ t.queue

/-- The entry whose call returns with an event. -/
def answered (t : ReplicaTask) (event : ReplicaEvent) : Option ReplicaEntry :=
  match t.pc, event with
  | .sending entry, .replicate _ => some entry
  | _, _ => none

/-- An event takes the entry off the task whose call returns, and no other. -/
theorem outstanding_step (t : ReplicaTask) (event : ReplicaEvent) :
    t.outstanding = (t.answered event).toList ++ (t.step false event).outstanding := by
  obtain ⟨endpoint, backoffMs, queue, pc, accepted⟩ := t
  cases pc with
  | connecting =>
    cases event with
    | connect ok => cases ok <;> rfl
    | recv => rfl
    | replicate ok => rfl
  | draining =>
    cases event with
    | connect ok => rfl
    | recv => cases queue <;> rfl
    | replicate ok => rfl
  | sending entry =>
    cases event with
    | connect ok => rfl
    | recv => rfl
    | replicate ok => cases ok <;> rfl
  | exited => rfl

theorem outstanding_foldl_send : ∀ (entries : List ReplicaEntry) {t : ReplicaTask},
    t.pc ≠ .exited →
    (entries.foldl (fun t e => t.send e) t).outstanding = t.outstanding ++ entries ∧
      (entries.foldl (fun t e => t.send e) t).pc = t.pc
  | [], t, _ => ⟨(List.append_nil _).symm, rfl⟩
  | e :: entries, t, h => by
    have hsend : t.send e = { t with queue := t.queue ++ [e] } := by
      obtain ⟨endpoint, backoffMs, queue, pc, accepted⟩ := t
      cases pc with
      | exited => exact absurd rfl h
      | _ => rfl
    have hpc : (t.send e).pc = t.pc := by rw [hsend]
    have hout : (t.send e).outstanding = t.outstanding ++ [e] := by
      rw [hsend, outstanding, outstanding, List.append_assoc]
      rfl
    obtain ⟨hrest, hrestPc⟩ := outstanding_foldl_send entries (t := t.send e) (hpc ▸ h)
    refine ⟨?_, hrestPc.trans hpc⟩
    rw [List.foldl_cons, hrest, hout, List.append_assoc]
    rfl

end ReplicaTask

/-- The call has returned `Ok`. -/
def ReplicaEvent.isOk : ReplicaEvent → Bool
  | .replicate ok => ok
  | _ => false

theorem WriteOrder.map_entry_sequenced : ∀ (entries : List WalEntry) (wal : Log),
    (WriteOrder.sequenced wal entries).map ReplicaEntry.entry = entries
  | [], _ => rfl
  | entry :: entries, wal => by
    have hrest : WriteOrder.sequenced wal (entry :: entries)
        = ⟨wal.nextSeq, entry⟩
          :: WriteOrder.sequenced { wal with nextSeq := wal.nextSeq + 1 } entries := rfl
    rw [hrest, List.map_cons, map_entry_sequenced entries]

namespace ReplicationManager

/-- The tasks after a call of the shard, whose log was this.  Opening it again starts anew. -/
def afterCall (m : ReplicationManager) (wal : Log) : ShardEngine.Op → ReplicationManager
  | .reopen => start (m.tasks.map ReplicaTask.endpoint)
  | op => (WriteOrder.sequenced wal op.entries).foldl (fun m e => m.enqueue e.seq e.entry) m

/-- The shard is open, and so are its tasks. -/
structure Open (m : ReplicationManager) : Prop where
  dropped : m.dropped = false
  tasks : ∀ t ∈ m.tasks, t.pc ≠ .exited

/-- What a replica is still to be sent. -/
def outstanding (m : ReplicationManager) (i : Nat) : List ReplicaEntry :=
  ((m.tasks[i]?).map ReplicaTask.outstanding).getD []

theorem open_start (endpoints : List String) : (start endpoints).Open where
  dropped := rfl
  tasks := by
    intro t ht
    obtain ⟨endpoint, -, rfl⟩ := List.mem_map.mp ht
    exact fun h => by cases h

theorem outstanding_start (endpoints : List String) (i : Nat) :
    (start endpoints).outstanding i = [] := by
  rw [outstanding, start, List.getElem?_map, Option.map_map]
  cases endpoints[i]? <;> rfl

theorem foldl_enqueue : ∀ (entries : List ReplicaEntry) (m : ReplicationManager),
    (entries.foldl (fun m e => m.enqueue e.seq e.entry) m).tasks
        = m.tasks.map (fun t => entries.foldl (fun t e => t.send e) t) ∧
      (entries.foldl (fun m e => m.enqueue e.seq e.entry) m).dropped = m.dropped
  | [], m => ⟨(List.map_id _).symm, rfl⟩
  | e :: entries, m => by
    obtain ⟨htasks, hdropped⟩ := foldl_enqueue entries (m.enqueue e.seq e.entry)
    refine ⟨?_, hdropped⟩
    rw [List.foldl_cons, htasks, enqueue, List.map_map]
    rfl

/-- **A call adds its entries for every replica**, unless it opens the shard again. -/
theorem Open.foldl_enqueue {m : ReplicationManager} (h : m.Open) (entries : List ReplicaEntry) :
    (entries.foldl (fun m e => m.enqueue e.seq e.entry) m).Open ∧
    ∀ i, (entries.foldl (fun m e => m.enqueue e.seq e.entry) m).outstanding i
      = m.outstanding i ++ if i < m.tasks.length then entries else [] := by
  obtain ⟨htasks, hdropped⟩ := ReplicationManager.foldl_enqueue entries m
  refine ⟨⟨hdropped.trans h.dropped, fun t ht => ?_⟩, fun i => ?_⟩
  · rw [htasks] at ht
    obtain ⟨t, hmem, rfl⟩ := List.mem_map.mp ht
    rw [(ReplicaTask.outstanding_foldl_send entries (h.tasks t hmem)).2]
    exact h.tasks t hmem
  · rw [outstanding, outstanding, htasks, List.getElem?_map]
    by_cases hi : i < m.tasks.length
    · rw [if_pos hi, List.getElem?_eq_getElem hi]
      exact (ReplicaTask.outstanding_foldl_send entries (h.tasks _ (List.getElem_mem hi))).1
    · rw [if_neg hi, List.getElem?_eq_none (Nat.le_of_not_lt hi)]
      rfl

theorem length_tasks_step (m : ReplicationManager) (i : Nat) (event : ReplicaEvent) :
    (m.step (.task i event)).tasks.length = m.tasks.length :=
  List.length_modify _ _ _

theorem length_tasks_afterCall (m : ReplicationManager) (wal : Log) (op : ShardEngine.Op) :
    (m.afterCall wal op).tasks.length = m.tasks.length := by
  cases op with
  | reopen => simp [afterCall, start]
  | _ =>
    rw [afterCall, (ReplicationManager.foldl_enqueue _ m).1, List.length_map]
    all_goals exact fun h => by cases h

/-- What is still to be sent after a call. -/
theorem Open.afterCall {m : ReplicationManager} (h : m.Open) (wal : Log) {op : ShardEngine.Op}
    (hop : op ≠ .reopen) : (m.afterCall wal op).Open ∧
    ∀ i, (m.afterCall wal op).outstanding i = m.outstanding i
      ++ if i < m.tasks.length then WriteOrder.sequenced wal op.entries else [] := by
  cases op with
  | reopen => exact absurd rfl hop
  | _ => exact h.foldl_enqueue _

/-- **An event takes from its replica's task the entry whose call returns.** -/
theorem Open.task {m : ReplicationManager} (h : m.Open) (i : Nat) (event : ReplicaEvent) :
    (m.step (.task i event)).Open ∧
    m.outstanding i = ((m.tasks[i]?).bind (fun t => t.answered event)).toList
      ++ (m.step (.task i event)).outstanding i ∧
    ∀ j, j ≠ i → (m.step (.task i event)).outstanding j = m.outstanding j := by
  have hstep : m.step (.task i event)
      = { m with tasks := m.tasks.modify i (fun t => t.step false event) } := by
    rw [step, h.dropped]
  rw [hstep]
  refine ⟨⟨h.dropped, fun t ht => ?_⟩, ?_, fun j hj => ?_⟩
  · obtain ⟨j, hj⟩ := List.mem_iff_getElem?.mp ht
    rw [List.getElem?_modify] at hj
    obtain ⟨t, htask, rfl⟩ := Option.map_eq_some_iff.mp hj
    have hlive := h.tasks t (List.mem_of_getElem? htask)
    split
    · intro hexited
      rcases ReplicaTask.closed_of_exited hexited with hold | hclosed
      · exact hlive hold
      · cases hclosed
    · exact hlive
  · rw [outstanding, outstanding, List.getElem?_modify]
    cases m.tasks[i]? with
    | none => rfl
    | some t => simpa using t.outstanding_step event
  · have hother : ¬ i = j := fun hij => hj hij.symm
    simp [outstanding, hother]

end ReplicationManager

namespace ShardEngine

/-- The first phase of `catch_up_from_primary`: the log's stream, which may break off after some
requests (after none, if the primary is not reached).  Returns whether a full sync is to
follow. -/
def catchUpLog (primary : ShardEngine) (breaksOff : Option Nat) : ShardM Bool := do
  let fromSeq ← read fun s => s.wal.nextSeq
  match breaksOff with
  | some taken => do
    let _walCount ← applyRequests ((ShardGrpcServer.replicateCatchUp primary fromSeq).take taken)
    pure false
  | none => do
    let walCount ← applyRequests (ShardGrpcServer.replicateCatchUp primary fromSeq)
    let replicaHasData ← read hasData
    pure (walCount = 0 ∧ replicaHasData = false)

/-- The second phase: the full sync, whose stream may break off after some documents. -/
def catchUpSync (primary : ShardEngine) : Option Nat → ShardM Unit
  | some taken => applyDocuments ((ShardGrpcServer.fullSync primary).take taken)
  | none => do
    applyDocuments (ShardGrpcServer.fullSync primary)
    flush

/-- While nobody writes to the primary, the two phases are the catch-up. -/
theorem catchUpFromPrimary_phases (primary replica : ShardEngine) :
    (do
      let sync ← catchUpLog primary none
      if sync then catchUpSync primary none else pure () : ShardM Unit) replica
      = catchUpFromPrimary primary replica := by
  have hlog : catchUpLog primary none replica = (do
      let walCount ← applyRequests (ShardGrpcServer.replicateCatchUp primary replica.wal.nextSeq)
      let replicaHasData ← read hasData
      pure (decide (walCount = 0 ∧ replicaHasData = false)) : ShardM Bool) replica := rfl
  have hcatch : catchUpFromPrimary primary replica = (do
      let walCount ← applyRequests (ShardGrpcServer.replicateCatchUp primary replica.wal.nextSeq)
      let replicaHasData ← read hasData
      if walCount = 0 ∧ replicaHasData = false then catchUpSync primary none
      else pure () : ShardM Unit) replica := rfl
  rw [ShardM.bind_apply, hlog, hcatch, ShardM.bind_apply, ShardM.bind_apply]
  cases applyRequests (ShardGrpcServer.replicateCatchUp primary replica.wal.nextSeq) replica with
  | mk result after =>
    cases result with
    | error e => rfl
    | ok walCount =>
      let sync : ShardM Unit := catchUpSync primary none
      show (if decide (walCount = 0 ∧ hasData after = false) = true then sync
          else (pure () : ShardM Unit)) after
        = (if walCount = 0 ∧ hasData after = false then sync else (pure () : ShardM Unit)) after
      by_cases hsync : walCount = 0 ∧ hasData after = false
      · rw [if_pos hsync, if_pos (decide_eq_true hsync)]
      · rw [if_neg hsync, if_neg (by simpa using hsync)]

/-! ## 2. What a replica stores and holds -/

/-- Everything in the directories and in the buffer, deleted or not. -/
def kept (s : ShardEngine) : Multiset Document :=
  SegmentDirs.stored s.dirs + ↑s.writeBuffer.docs

theorem Inv.holds_le_kept {s : ShardEngine} (h : Inv s) : s.holds ≤ s.kept := by
  have hopen : ∀ id ∈ s.openIds, id ∈ s.openIds := fun _ hid => hid
  have hcollected := h.collected_le hopen
  rw [s.sources_openIds] at hcollected
  have hsegments : (↑s.segments.liveDocuments : Multiset Document) ≤ SegmentDirs.stored s.dirs := by
    rw [stored_eraseAll_add s.dirs s.openIds]
    exact hcollected.trans (Multiset.le_add_right _ _)
  exact add_le_add_left hsegments _

/-- Without a log, a change that logs nothing brings nothing. -/
theorem Inv.kept_change {s : ShardEngine} (h : Inv s) (hlog : s.NoLog) {c : Change}
    (hc : s.Enabled c) (hentries : c.entries = []) : (s.change c).kept ≤ s.kept := by
  cases c with
  | accept docs =>
    obtain rfl : docs = [] := List.map_eq_nil_iff.mp hentries
    exact le_refl s.kept
  | delete docId => cases hentries
  | refresh =>
    show SegmentDirs.stored s.dirs + ↑s.writeBuffer.refreshed.docs ≤ _
    rw [WriteBuffer.refreshed_docs]
    exact le_refl s.kept
  | drop => exact add_le_add_right (Multiset.zero_le _) _
  | flush =>
    show SegmentDirs.stored (s.segments.installDirs s.dirs [] s.writeBuffer.docs) + 0 ≤ _
    rw [add_zero, SegmentDirs.stored, h.synced.total_installDirs (by simp),
      SegmentDir.stored_written, add_comm]
    exact le_refl s.kept
  | merge ids => exact add_le_add_left (h.stored_installDirs_le hc) _
  | reindex =>
    have hopen : ∀ id ∈ s.openIds, id ∈ s.openIds := fun _ hid => hid
    have hle := h.stored_installDirs_le hopen
    rw [s.sources_openIds] at hle
    exact add_le_add_left hle _
  | reopen =>
    obtain ⟨hmarked, hdocs, -⟩ := h.reopened_spec
    show SegmentDirs.stored s.reopened.dirs + ↑s.reopened.writeBuffer.docs ≤ _
    rw [hmarked.stored, hdocs, hlog]
    exact add_le_add_right (Multiset.zero_le _) _

/-- A call that deletes nothing and is no restart marks nothing in the buffer. -/
theorem Inv.deletedIds_step {s : ShardEngine} (h : Inv s) {op : Op} (hdelete : op.AppendOnly)
    (hopen : op.StaysOpen) (hnone : s.writeBuffer.deletedIds = ∅) :
    (s.step op).writeBuffer.deletedIds = ∅ := by
  rw [step_eq h]
  refine Along.inv (I := fun t : ShardEngine => t.writeBuffer.deletedIds = ∅) (fun t c ht hc => ?_)
    _ s (along_grows s hdelete hopen) hnone
  cases c with
  | accept docs => exact (WriteBuffer.addAll_deletedIds docs t.writeBuffer).trans ht
  | delete docId => exact hc.2.elim
  | refresh => exact (WriteBuffer.refreshed_deletedIds t.writeBuffer).trans ht
  | drop => rfl
  | flush => rfl
  | merge ids => exact ht
  | reindex => exact ht
  | reopen => exact hc.2.elim

/-- What an entry makes of a shard: it takes the document, and may flush. -/
theorem applied_cases (s : ShardEngine) (entry : WalEntry) : s.applied entry = s.replay entry ∨
    s.applied entry = LabelledRun.run change (s.replay entry) (s.replay entry).flushChanges := by
  cases entry with
  | index doc =>
    rw [applied]
    split
    · exact Or.inr rfl
    · exact Or.inl rfl
  | delete docId => exact Or.inl rfl

/-- An entry adds its document. -/
theorem Inv.holds_applied {s : ShardEngine} (h : Inv s) (entry : WalEntry) :
    (s.applied entry).holds = s.holds + ↑(indexedDocs [entry]) := by
  have hreplay : (s.replay entry).holds = s.holds + ↑(indexedDocs [entry]) := by
    cases entry with
    | index doc =>
      show (↑s.segments.liveDocuments + ↑(s.writeBuffer.docs ++ [doc]) : Multiset Document) = _
      rw [← Multiset.coe_add, ← add_assoc]
      rfl
    | delete docId =>
      have hsegments : (s.replay (.delete docId)).segments.segments = s.segments.segments :=
        h.synced.segments_markDeleted docId
      rw [holds, SegmentList.liveDocuments, hsegments]
      exact (add_zero s.holds).symm
  rcases s.applied_cases entry with happlied | happlied
  · rw [happlied, hreplay]
  · rw [happlied, holds_run_flushChanges, hreplay]

/-- An entry that deletes nothing marks nothing in the buffer. -/
theorem Inv.deletedIds_applied {s : ShardEngine} (h : Inv s) {entry : WalEntry}
    (hentry : entry.IsIndex) (hnone : s.writeBuffer.deletedIds = ∅) :
    (s.applied entry).writeBuffer.deletedIds = ∅ := by
  have hreplay : (s.replay entry).writeBuffer.deletedIds = ∅ := by
    cases entry with
    | index doc => exact hnone
    | delete docId => exact hentry.elim
  rcases s.applied_cases entry with happlied | happlied
  · rw [happlied, hreplay]
  · rw [happlied]
    have hflush : ((s.replay entry).step .flush).writeBuffer.deletedIds = ∅ :=
      (h.replay entry).deletedIds_step trivial trivial hreplay
    rwa [step_eq (h.replay entry)] at hflush

/-! ## 3. A replica within what was indexed -/

/-- A replica in step, without a log, that has only documents of these. -/
structure Within (docs : List Document) (s : ShardEngine) : Prop where
  inv : Inv s
  noLog : s.NoLog
  kept : ∀ doc ∈ s.kept, doc ∈ docs

theorem Within.mono {docs docs' : List Document} {s : ShardEngine} (h : Within docs s)
    (hsub : docs ⊆ docs') : Within docs' s :=
  ⟨h.inv, h.noLog, fun doc hdoc => hsub (h.kept doc hdoc)⟩

variable {docs : List Document} {s : ShardEngine}

theorem Within.run (h : Within docs s) {cs : List Change}
    (hcs : Along ShardEngine.change Enabled s cs) (hentries : cs.flatMap Change.entries = []) :
    Within docs (LabelledRun.run ShardEngine.change s cs) := by
  have hboth := Along.and cs s hcs (along_of_forall (Q := fun c : Change => c.entries = []) cs s
    (List.flatMap_eq_nil_iff.mp hentries))
  refine Along.inv (I := Within docs) (fun t c ht hc => ?_) cs s hboth h
  exact ⟨ht.inv.after hc.1, ht.noLog.change hc.2, fun doc hdoc =>
    ht.kept doc (Multiset.mem_of_le (ht.inv.kept_change ht.noLog hc.1 hc.2) hdoc)⟩

theorem Within.step (h : Within docs s) {op : Op} (hop : op.entries = []) :
    Within docs (s.step op) := by
  rw [step_eq h.inv]
  exact h.run (along_changes s op) ((entries_changes s op).trans hop)

theorem Within.applied (h : Within docs s) {entry : WalEntry}
    (hdocs : indexedDocs [entry] ⊆ docs) : Within docs (s.applied entry) := by
  have hreplay : Within docs (s.replay entry) := by
    refine ⟨h.inv.replay entry, ?_, fun doc hdoc => ?_⟩
    · cases entry <;> exact h.noLog
    · cases entry with
      | index d =>
        rcases Multiset.mem_add.mp hdoc with hstored | hbuffer
        · exact h.kept doc (Multiset.mem_add.mpr (Or.inl hstored))
        · rcases List.mem_append.mp hbuffer with hold | hnew
          · exact h.kept doc (Multiset.mem_add.mpr (Or.inr hold))
          · exact hdocs hnew
      | delete docId =>
        refine h.kept doc ?_
        rw [ShardEngine.kept, ← (h.inv.synced.marked docId).stored]
        exact hdoc
  rcases s.applied_cases entry with happlied | happlied
  · rwa [happlied]
  · rw [happlied]
    exact hreplay.run (along_flushChanges _) (entries_flushChanges _)

theorem Within.foldl_applied : ∀ (entries : List WalEntry) {s : ShardEngine}, Within docs s →
    indexedDocs entries ⊆ docs → Within docs (entries.foldl ShardEngine.applied s)
  | [], _, h, _ => h
  | entry :: entries, s, h, hsub => by
    have hsplit : indexedDocs (entry :: entries) = indexedDocs [entry] ++ indexedDocs entries :=
      indexedDocs_append [entry] entries
    rw [hsplit, List.append_subset] at hsub
    exact Within.foldl_applied entries (h.applied hsub.1) hsub.2

/-- **What is shown is within.** -/
theorem Within.search (h : Within docs s) (request : SearchRequest) :
    ∃ response, (search request s).1 = .ok response ∧
      ∀ hit ∈ response.hits, ∃ doc ∈ docs, hit.id = doc.id ∧ hit.document = some doc := by
  refine ⟨_, congrArg Prod.fst (search_eq h.inv request), fun hit hhit => ?_⟩
  obtain ⟨doc, hvisible, hid, hdoc⟩ := h.inv.document_of_mem_hits hhit
  have hheld := Multiset.mem_of_le s.visible_le_holds hvisible
  exact ⟨doc, h.kept doc (Multiset.mem_of_le h.inv.holds_le_kept hheld), hid, hdoc⟩

section

variable {primary : ShardEngine}

/-- The first requests of the log's stream. -/
theorem Within.applyRequests (h : Within docs s)
    (hlog : (indexedDocs primary.wal.readAll).map Document.received ⊆ docs) (fromSeq : UInt64)
    (taken : Nat) : ∃ n t, Within docs t ∧ ShardEngine.applyRequests
      ((ShardGrpcServer.replicateCatchUp primary fromSeq).take taken) s = (.ok n, t) := by
  have hrun := applyRequests_eq ((primary.walRecordsSince fromSeq).take taken) h.inv
  rw [List.map_take] at hrun
  refine ⟨_, _, Within.foldl_applied _ h (List.Subset.trans ?_ hlog), hrun⟩
  have hmap : ((primary.walRecordsSince fromSeq).take taken).map
        (fun record => record.entry.received)
      = (((primary.walRecordsSince fromSeq).take taken).map WalRecord.entry).map
          WalEntry.received := by
    rw [List.map_map]
    rfl
  have hsub : ((primary.walRecordsSince fromSeq).take taken).Sublist primary.wal.records :=
    (List.take_sublist taken _).trans List.filter_sublist
  rw [hmap, indexedDocs_map_received]
  exact List.map_subset _ ((hsub.map WalRecord.entry).filterMap _).subset

/-- The documents of a full sync. -/
theorem Within.applyDocuments (h : Within docs s) {sent : List Document}
    (hsub : sent.map Document.received ⊆ docs) :
    ∃ t, Within docs t ∧
      ShardEngine.applyDocuments (sent.map Document.toProto) s = (.ok (), t) := by
  refine ⟨_, Within.foldl_applied _ h ?_, applyDocuments_eq sent h.inv⟩
  have hmap : sent.map (fun doc => WalEntry.index doc.received)
      = (sent.map Document.received).map WalEntry.index := by
    rw [List.map_map]
    rfl
  rwa [hmap, indexedDocs_map_index]

/-- **The log's stream brings only what the primary has**, wherever it ends. -/
theorem Within.catchUpLog (h : Within docs s)
    (hlog : (indexedDocs primary.wal.readAll).map Document.received ⊆ docs)
    (breaksOff : Option Nat) : Within docs (ShardEngine.catchUpLog primary breaksOff s).2 := by
  cases breaksOff with
  | some taken =>
    obtain ⟨n, t, ht, hrun⟩ := h.applyRequests hlog s.wal.nextSeq taken
    show Within docs ((ShardEngine.applyRequests ((ShardGrpcServer.replicateCatchUp primary
      s.wal.nextSeq).take taken) >>= fun _ => pure false : ShardM Bool) s).2
    rw [ShardM.bind_ok hrun]
    exact ht
  | none =>
    obtain ⟨n, t, ht, hrun⟩ := h.applyRequests hlog s.wal.nextSeq
      (ShardGrpcServer.replicateCatchUp primary s.wal.nextSeq).length
    rw [List.take_length] at hrun
    show Within docs ((ShardEngine.applyRequests (ShardGrpcServer.replicateCatchUp primary
      s.wal.nextSeq) >>= fun walCount => do
        let replicaHasData ← read hasData
        pure (decide (walCount = 0 ∧ replicaHasData = false)) : ShardM Bool) s).2
    rw [ShardM.bind_ok hrun, read, ShardM.step_bind]
    exact ht

/-- **So does the full sync's.** -/
theorem Within.catchUpSync (h : Within docs s)
    (hlive : primary.getAllLiveDocs.map Document.received ⊆ docs) (breaksOff : Option Nat) :
    Within docs (ShardEngine.catchUpSync primary breaksOff s).2 := by
  cases breaksOff with
  | some taken =>
    have htake : (ShardGrpcServer.fullSync primary).take taken
        = (primary.getAllLiveDocs.take taken).map Document.toProto := List.map_take.symm
    have hsent : (primary.getAllLiveDocs.take taken).map Document.received ⊆ docs :=
      List.Subset.trans (List.map_subset _ (List.take_subset _ _)) hlive
    obtain ⟨t, ht, hsync⟩ := h.applyDocuments hsent
    show Within docs (ShardEngine.applyDocuments ((ShardGrpcServer.fullSync primary).take taken)
      s).2
    rw [htake, hsync]
    exact ht
  | none =>
    obtain ⟨t, ht, hsync⟩ := h.applyDocuments hlive
    show Within docs ((ShardEngine.applyDocuments (primary.getAllLiveDocs.map Document.toProto)
      >>= fun _ => flush : ShardM Unit) s).2
    rw [ShardM.bind_ok hsync]
    have hflush : Op.flush.entries = [] := rfl
    exact ht.step hflush

end

end ShardEngine

end ZearchEngine
