/-
# Replication

`ReplicationManager` (`crates/shard/src/replication.rs`): a channel for each replica, and for
each channel a task that takes one entry after the other and sends it.  An entry is off the
channel before it is sent.  If its call fails, the task connects again and goes on with the next
entry.

So what a replica accepts is in order and without repetition (`accepted_sublist`), and nothing
is lost exactly as long as no call fails (`conserves_iff`).  Connections may fail as often as
they like: a task that is not connected has no entry in hand.
-/
import ZearchEngine.Proto

namespace ZearchEngine

open LabelledRun

/-! ## 1. The task of a replica -/

/-- Where a task is in its loops. -/
inductive ReplicaTask.Pc where
  /-- Connecting, or waiting before it tries again. -/
  | connecting
  /-- Connected, at `rx.recv()`. -/
  | draining
  /-- This entry is off the channel; its `replicate` call has not returned. -/
  | sending (entry : ReplicaEntry)
  /-- The task is over, and its end of the channel gone. -/
  | exited

/-- The background task of one replica, with its channel. -/
structure ReplicaTask where
  endpoint : String
  backoffMs : Nat
  queue : List ReplicaEntry
  pc : ReplicaTask.Pc
  /-- The entries whose call has returned `Ok`, in order. -/
  accepted : List ReplicaEntry

/-- What a task waits for. -/
inductive ReplicaEvent where
  /-- `ShardServiceClient::connect` returns. -/
  | connect (ok : Bool)
  /-- `rx.recv()` returns. -/
  | recv
  /-- `client.replicate` returns. -/
  | replicate (ok : Bool)

namespace ReplicaTask

/-- The task as it is spawned. -/
def spawn (endpoint : String) : ReplicaTask where
  endpoint := endpoint
  backoffMs := 100
  queue := []
  pc := .connecting
  accepted := []

/-- `tx.send`: fails if the task is over, which the caller ignores. -/
def send (entry : ReplicaEntry) (t : ReplicaTask) : ReplicaTask :=
  match t.pc with
  | .exited => t
  | _ => { t with queue := t.queue ++ [entry] }

/-- The end of the task drops the channel with what is in it. -/
def exit (t : ReplicaTask) : ReplicaTask := { t with queue := [], pc := .exited }

/-- The task after an event it waits for; `closed` is `rx.is_closed()`. -/
def step (closed : Bool) (t : ReplicaTask) (event : ReplicaEvent) : ReplicaTask :=
  match t.pc, event with
  | .connecting, .connect true => { t with backoffMs := 100, pc := .draining }
  | .connecting, .connect false => { t with backoffMs := min (t.backoffMs * 2) 10000 }
  | .draining, .recv =>
    match t.queue with
    | entry :: queue => { t with queue, pc := .sending entry }
    | [] => if closed then t.exit else t
  | .sending entry, .replicate true =>
    { t with accepted := t.accepted ++ [entry], pc := .draining }
  -- the entry is not put back
  | .sending _, .replicate false => if closed then t.exit else { t with pc := .connecting }
  | _, _ => t

/-- The entry being sent. -/
def inFlight (t : ReplicaTask) : List ReplicaEntry :=
  match t.pc with
  | .sending entry => [entry]
  | _ => []

/-- What has been accepted, is being sent, and is still queued. -/
def held (t : ReplicaTask) : List ReplicaEntry := t.accepted ++ t.inFlight ++ t.queue

/-- The event is the failure of the call that the task waits for. -/
def FailsCall (t : ReplicaTask) (event : ReplicaEvent) : Prop :=
  event = .replicate false ∧ t.inFlight ≠ []

/-! ## 2. What one event does -/

theorem held_send {t : ReplicaTask} (h : t.pc ≠ .exited) (entry : ReplicaEntry) :
    (t.send entry).held = t.held ++ [entry] := by
  obtain ⟨endpoint, backoffMs, queue, pc, accepted⟩ := t
  cases pc with
  | exited => exact absurd rfl h
  | _ => simp [send, held, inFlight]

theorem held_send_sublist (t : ReplicaTask) (entry : ReplicaEntry) :
    (t.send entry).held.Sublist (t.held ++ [entry]) := by
  by_cases h : t.pc = .exited
  · rw [send, h]
    exact List.sublist_append_left _ _
  · rw [held_send h entry]

/-- **An event that is not a failed call loses nothing.** -/
theorem held_step (closed : Bool) {t : ReplicaTask} {event : ReplicaEvent}
    (h : ¬ t.FailsCall event) : (t.step closed event).held = t.held := by
  obtain ⟨endpoint, backoffMs, queue, pc, accepted⟩ := t
  cases pc with
  | connecting =>
    cases event with
    | connect ok => cases ok <;> rfl
    | recv => rfl
    | replicate ok => rfl
  | draining =>
    cases event with
    | connect ok => rfl
    | recv =>
      cases queue with
      | nil => cases closed <;> rfl
      | cons entry queue => simp [step, held, inFlight]
    | replicate ok => rfl
  | sending entry =>
    cases event with
    | connect ok => rfl
    | recv => rfl
    | replicate ok =>
      cases ok with
      | true => simp [step, held, inFlight]
      | false => exact absurd ⟨rfl, List.cons_ne_nil _ _⟩ h
  | exited => rfl

/-- **A failed call loses the entry that was being sent**; at the end of the task, the queue as
well. -/
theorem held_step_fails (closed : Bool) {t : ReplicaTask} {event : ReplicaEvent}
    (h : t.FailsCall event) : (t.step closed event).held
      = t.accepted ++ (if closed then [] else t.queue) := by
  obtain ⟨rfl, hflight⟩ := h
  obtain ⟨endpoint, backoffMs, queue, pc, accepted⟩ := t
  cases pc with
  | sending entry => cases closed <;> simp [step, exit, held, inFlight]
  | _ => exact absurd rfl hflight

theorem held_step_sublist (closed : Bool) (t : ReplicaTask) (event : ReplicaEvent) :
    (t.step closed event).held.Sublist t.held := by
  by_cases h : t.FailsCall event
  · rw [held_step_fails closed h]
    refine ((List.sublist_append_left t.accepted t.inFlight)).append ?_
    split
    · exact List.nil_sublist _
    · exact List.Sublist.refl _
  · rw [held_step closed h]

theorem length_held_step_fails (closed : Bool) {t : ReplicaTask} {event : ReplicaEvent}
    (h : t.FailsCall event) : (t.step closed event).held.length < t.held.length := by
  have hflight := List.length_pos_iff.mpr h.2
  rw [held_step_fails closed h, held]
  cases closed <;> simp only [List.length_append, List.length_nil, if_true, if_false,
    Bool.false_eq_true] <;> omega

/-- A task ends only when the channel is closed. -/
theorem closed_of_exited {closed : Bool} {t : ReplicaTask} {event : ReplicaEvent}
    (h : (t.step closed event).pc = .exited) : t.pc = .exited ∨ closed = true := by
  by_cases hclosed : closed = true
  · exact Or.inr hclosed
  · left
    obtain rfl := Bool.eq_false_iff.mpr hclosed
    obtain ⟨endpoint, backoffMs, queue, pc, accepted⟩ := t
    cases pc with
    | exited => rfl
    | connecting =>
      cases event with
      | connect ok => cases ok <;> cases h
      | _ => cases h
    | draining =>
      cases event with
      | recv => cases queue <;> cases h
      | _ => cases h
    | sending entry =>
      cases event with
      | replicate ok => cases ok <;> cases h
      | _ => cases h

end ReplicaTask

/-! ## 3. The manager -/

/-- A manager with the tasks it has spawned, and the entries `enqueue` has been called with. -/
structure ReplicationManager where
  tasks : List ReplicaTask
  /-- The shard has closed, and the senders with it. -/
  dropped : Bool
  enqueued : List ReplicaEntry

/-- What happens to a manager and its tasks. -/
inductive ReplicationEvent where
  | enqueue (seq : UInt64) (entry : WalEntry)
  | task (i : Nat) (event : ReplicaEvent)
  | drop

namespace ReplicationManager

/-- `start`. -/
def start (replicaEndpoints : List String) : ReplicationManager where
  tasks := replicaEndpoints.map ReplicaTask.spawn
  dropped := false
  enqueued := []

/-- `enqueue`. -/
def enqueue (m : ReplicationManager) (seq : UInt64) (entry : WalEntry) : ReplicationManager :=
  { m with
    tasks := m.tasks.map (ReplicaTask.send ⟨seq, entry⟩)
    enqueued := m.enqueued ++ [⟨seq, entry⟩] }

/-- The manager after an event.  A closed shard enqueues nothing. -/
def step (m : ReplicationManager) : ReplicationEvent → ReplicationManager
  | .enqueue seq entry => if m.dropped then m else m.enqueue seq entry
  | .task i event =>
    { m with tasks := m.tasks.modify i (fun t => t.step m.dropped event) }
  | .drop => { m with dropped := true }

/-- Nothing that is meant for a replica is lost, repeated, or out of order. -/
def Conserves (i : Nat) (m : ReplicationManager) : Prop :=
  ∀ t, m.tasks[i]? = some t → t.accepted ++ t.inFlight ++ t.queue = m.enqueued

/-- The event is the failure of a `replicate` call to a replica. -/
def FailsCall (i : Nat) (m : ReplicationManager) : ReplicationEvent → Prop
  | .task j event => j = i ∧ ∃ t, m.tasks[i]? = some t ∧ t.FailsCall event
  | _ => False

/-- Tasks end only with the shard. -/
def Running (m : ReplicationManager) : Prop :=
  ∀ t ∈ m.tasks, t.pc = .exited → m.dropped = true

variable {m : ReplicationManager} {i : Nat}

/-- A task after an event of the manager: it has been sent an entry, had an event, or was left
alone. -/
theorem getElem?_step {event : ReplicationEvent} {t' : ReplicaTask}
    (h : (m.step event).tasks[i]? = some t') : ∃ t, m.tasks[i]? = some t ∧
      ((∃ seq entry, event = .enqueue seq entry ∧ m.dropped = false ∧
          t' = t.send ⟨seq, entry⟩ ∧ (m.step event).enqueued = m.enqueued ++ [⟨seq, entry⟩]) ∨
        (∃ e, event = .task i e ∧ t' = t.step m.dropped e ∧
          (m.step event).enqueued = m.enqueued) ∨
        ((∀ e, event ≠ .task i e) ∧ t' = t ∧ (m.step event).enqueued = m.enqueued)) := by
  cases event with
  | enqueue seq entry =>
    by_cases hdrop : m.dropped = true
    · have hsame : m.step (.enqueue seq entry) = m := by rw [step, if_pos hdrop]
      rw [hsame] at h ⊢
      exact ⟨t', h, Or.inr (Or.inr ⟨nofun, rfl, rfl⟩)⟩
    · have hstep : m.step (.enqueue seq entry) = m.enqueue seq entry := by
        rw [step, if_neg hdrop]
      rw [hstep] at h ⊢
      simp only [enqueue, List.getElem?_map, Option.map_eq_some_iff] at h
      obtain ⟨t, ht, rfl⟩ := h
      exact ⟨t, ht, Or.inl ⟨seq, entry, rfl, by simpa using hdrop, rfl, rfl⟩⟩
  | task j e =>
    simp only [step, List.getElem?_modify] at h
    obtain ⟨t, ht, heq⟩ := Option.map_eq_some_iff.mp h
    by_cases hj : j = i
    · subst hj
      rw [if_pos rfl] at heq
      exact ⟨t, ht, Or.inr (Or.inl ⟨e, rfl, heq.symm, rfl⟩)⟩
    · rw [if_neg hj] at heq
      refine ⟨t, ht, Or.inr (Or.inr ⟨fun e' heq' => hj ?_, heq.symm, rfl⟩)⟩
      injection heq'
  | drop => exact ⟨t', h, Or.inr (Or.inr ⟨nofun, rfl, rfl⟩)⟩

theorem Running.step (h : m.Running) (event : ReplicationEvent) : (m.step event).Running := by
  intro t' ht' hexited
  obtain ⟨i, hi⟩ := List.mem_iff_getElem?.mp ht'
  obtain ⟨t, ht, hcases⟩ := getElem?_step hi
  have hmono : m.dropped = true → (m.step event).dropped = true := by
    intro hdrop
    cases event with
    | enqueue seq entry => rwa [ReplicationManager.step, if_pos hdrop]
    | task j e => exact hdrop
    | drop => rfl
  have hold : t.pc = .exited → m.dropped = true := h t (List.mem_of_getElem? ht)
  rcases hcases with ⟨seq, entry, -, -, rfl, -⟩ | ⟨e, -, rfl, -⟩ | ⟨-, rfl, -⟩
  · refine hmono (hold ?_)
    rw [ReplicaTask.send] at hexited
    split at hexited
    · assumption
    · exact hexited
  · exact hmono ((ReplicaTask.closed_of_exited hexited).elim hold id)
  · exact hmono (hold hexited)

/-- **An event that is not a failed call keeps the account.** -/
theorem Conserves.step (h : m.Conserves i) (hrun : m.Running) {event : ReplicationEvent}
    (hok : ¬ FailsCall i m event) : (m.step event).Conserves i := by
  intro t' ht'
  obtain ⟨t, ht, hcases⟩ := getElem?_step ht'
  have hheld : t.held = m.enqueued := h t ht
  rcases hcases with ⟨seq, entry, -, hdrop, rfl, hnew⟩ | ⟨e, rfl, rfl, hnew⟩ | ⟨-, rfl, hnew⟩
  · have hlive : t.pc ≠ .exited := fun hexited => by
      rw [hrun t (List.mem_of_getElem? ht) hexited] at hdrop
      cases hdrop
    rw [hnew, ← hheld]
    exact ReplicaTask.held_send hlive _
  · rw [hnew, ← hheld]
    exact ReplicaTask.held_step _ (fun hfails => hok ⟨rfl, t, ht, hfails⟩)
  · rw [hnew]
    exact hheld

/-- **A failed call does not keep it.** -/
theorem not_conserves_step (h : m.Conserves i) {event : ReplicationEvent}
    (hfails : FailsCall i m event) : ¬ (m.step event).Conserves i := by
  intro hafter
  cases event with
  | task j e =>
    obtain ⟨rfl, t, ht, hcall⟩ := hfails
    have hstep : (m.step (.task j e)).tasks[j]? = some (t.step m.dropped e) := by
      simp only [step, List.getElem?_modify, ht, if_true]
      rfl
    have hlen := ReplicaTask.length_held_step_fails m.dropped hcall
    have hbefore : t.held = m.enqueued := h t ht
    have hheld : (t.step m.dropped e).held = m.enqueued := hafter _ hstep
    rw [hheld, hbefore] at hlen
    exact Nat.lt_irrefl _ hlen
  | enqueue seq entry => exact hfails
  | drop => exact hfails

theorem running_start (replicaEndpoints : List String) : (start replicaEndpoints).Running := by
  intro t ht hexited
  obtain ⟨endpoint, -, rfl⟩ := List.mem_map.mp ht
  cases hexited

theorem conserves_start (replicaEndpoints : List String) :
    (start replicaEndpoints).Conserves i := by
  intro t ht
  simp only [start, List.getElem?_map, Option.map_eq_some_iff] at ht
  obtain ⟨endpoint, -, rfl⟩ := ht
  rfl

/-! ## 4. Runs -/

/-- **Never more, never out of order.**  Whatever happens, what a replica has accepted or is
still to be sent are some of the enqueued entries, in their order. -/
theorem held_sublist (replicaEndpoints : List String) (events : List ReplicationEvent) (i : Nat) :
    ∀ t, (run step (start replicaEndpoints) events).tasks[i]? = some t →
      t.held.Sublist (run step (start replicaEndpoints) events).enqueued := by
  refine run_inv (I := fun m : ReplicationManager =>
    ∀ t, m.tasks[i]? = some t → t.held.Sublist m.enqueued) ?_ events _ ?_
  · intro m event h t' ht'
    obtain ⟨t, ht, hcases⟩ := getElem?_step ht'
    rcases hcases with ⟨seq, entry, -, -, rfl, hnew⟩ | ⟨e, -, rfl, hnew⟩ | ⟨-, rfl, hnew⟩
    · rw [hnew]
      exact (ReplicaTask.held_send_sublist t _).trans ((h t ht).append_right _)
    · rw [hnew]
      exact (ReplicaTask.held_step_sublist _ t e).trans (h t ht)
    · rw [hnew]
      exact h _ ht
  · exact fun t ht => (congrArg (List.Sublist t.held) (conserves_start replicaEndpoints t ht)).mp
      (List.Sublist.refl _)

theorem accepted_sublist (replicaEndpoints : List String) (events : List ReplicationEvent)
    (i : Nat) : ∀ t, (run step (start replicaEndpoints) events).tasks[i]? = some t →
      t.accepted.Sublist (run step (start replicaEndpoints) events).enqueued := fun t ht =>
  ((List.sublist_append_left _ _).trans (List.sublist_append_left _ _)).trans
    (held_sublist replicaEndpoints events i t ht)

/-- **Nothing is lost while no call fails.** -/
theorem conserves_run {replicaEndpoints : List String} {events : List ReplicationEvent} {i : Nat}
    (hok : Along step (fun m event => ¬ FailsCall i m event) (start replicaEndpoints) events) :
    (run step (start replicaEndpoints) events).Conserves i := by
  have hinv := Along.inv (I := fun m => m.Conserves i ∧ m.Running)
    (fun m event hm hok => ⟨hm.1.step hm.2 hok, hm.2.step event⟩) _ _ hok
    ⟨conserves_start replicaEndpoints, running_start replicaEndpoints⟩
  exact hinv.1

/-- **Replication drops nothing exactly if no call fails.**  At every moment the entries a
replica has accepted, followed by the one being sent and those still queued, are the enqueued
entries in order, if and only if no `replicate` call to it fails.  Connections may fail. -/
theorem conserves_iff (replicaEndpoints : List String) (events : List ReplicationEvent)
    (i : Nat) :
    (∀ k, (run step (start replicaEndpoints) (events.take k)).Conserves i) ↔
      Along step (fun m event => ¬ FailsCall i m event) (start replicaEndpoints) events := by
  constructor
  · intro h
    refine Along.imp (fun m event hm hfails => ?_) _ _ (along_of_take events _ h)
    exact not_conserves_step hm.1 hfails hm.2
  · exact fun h k => conserves_run (h.take k)

/-- **A failed call loses an entry.**  One deletion is enqueued; the replica goes down after the
task has connected, and is back before the task connects again. -/
theorem not_conserves_failed :
    ¬ (run step (start ["replica"])
      [.enqueue 0 (.delete 7), .task 0 (.connect true), .task 0 .recv,
        .task 0 (.replicate false), .task 0 (.connect true)]).Conserves 0 := by
  intro h
  have hlen := congrArg List.length (h _ rfl)
  exact absurd hlen (by decide)

/-- A replica that is down while entries are enqueued gets them when it is up. -/
example : (run step (start ["replica"])
    [.task 0 (.connect false), .enqueue 0 (.delete 7), .task 0 (.connect false),
      .enqueue 1 (.delete 8), .task 0 (.connect true), .task 0 .recv,
      .task 0 (.replicate true)]).Conserves 0 :=
  conserves_run (by simp [Along, FailsCall, ReplicaTask.FailsCall])

end ReplicationManager

end ZearchEngine
