/-
# One order of writes

`index`, `index_batch` and `delete` (`crates/shard/src/shard.rs`) by several writers on a
primary with replicas.  A call appends its entries to the log, sends them on the channel of each
replica, and updates the write buffer; it holds no lock from one of these steps to the next.  So
two calls that are logged in one order can reach a channel, or the buffer, in the other.

All orders agree in runs where no call overtakes: none sends on a channel, or updates the
buffer, before a call that was logged earlier has done so.  In a run that ends with all calls
done, they agree only then (`one_order`).
-/
import ZearchEngine.AppendOnly
import ZearchEngine.Lib.Delivery
import ZearchEngine.Proto

namespace ZearchEngine.WriteOrder

open LabelledRun Delivery

/-! ## 1. Writers -/

/-- A call of a writer. -/
inductive Call where
  | index (doc : Document)
  | indexBatch (docs : List Document)
  | delete (docId : DocId)

/-- What a call logs. -/
def Call.entries : Call → List WalEntry
  | .index doc => [.index doc]
  | .indexBatch docs => docs.map .index
  | .delete docId => [.delete docId]

/-- Where the entries of a call go after the log. -/
inductive Sink where
  | channel (replica : Nat)
  | buffer
deriving DecidableEq

/-- A primary with its writers. -/
structure Primary where
  wal : Log
  replicas : Nat
  /-- What has been sent to each replica, in order. -/
  channels : Nat → List ReplicaEntry
  writeBuffer : WriteBuffer
  /-- What the buffer has been updated with, in order. -/
  applied : List ReplicaEntry
  /-- What is left of the call of each writer. -/
  writers : Nat → List (Sink × List ReplicaEntry)

/-- `wal.append_batch`: the entries with the numbers they are given. -/
def sequenced (wal : Log) (entries : List WalEntry) : List ReplicaEntry :=
  List.zipWith (fun entry seq => ⟨seq, entry⟩) entries (wal.appendBatch entries).1

/-- `rm.enqueue`: one channel after the other. -/
def enqueue (replicas : Nat) (entry : ReplicaEntry) : List (Sink × List ReplicaEntry) :=
  (List.range replicas).map (fun j => (.channel j, [entry]))

/-- What a call does after the log.  The buffer is locked once for all its entries. -/
def plan (replicas : Nat) (entries : List ReplicaEntry) : List (Sink × List ReplicaEntry) :=
  entries.flatMap (enqueue replicas) ++ [(.buffer, entries)]

/-- `buf.add` or `buf.mark_deleted`. -/
def updateBuffer (b : WriteBuffer) (e : ReplicaEntry) : WriteBuffer :=
  match e.entry with
  | .index doc => (b.add doc).2
  | .delete docId => b.markDeleted docId

/-- The scheduler's choice.  A flush drains the buffer and empties the log, at any time. -/
inductive Action where
  | begin (writer : Nat) (call : Call)
  | next (writer : Nat)
  | drain
  | truncate

/-- The primary after an action.  A call that has updated the buffer may go on with a flush or
with the segments; here its writer is free again, so there are more runs than in the source. -/
def step (p : Primary) : Action → Primary
  | .begin t call =>
    match p.writers t with
    | [] =>
      { p with
        wal := (p.wal.appendBatch call.entries).2
        writers := Function.update p.writers t
          (plan p.replicas (sequenced p.wal call.entries)) }
    | _ :: _ => p
  | .next t =>
    match p.writers t with
    | [] => p
    | (.channel j, entries) :: left =>
      { p with
        channels := Function.update p.channels j (p.channels j ++ entries)
        writers := Function.update p.writers t left }
    | (.buffer, entries) :: left =>
      { p with
        writeBuffer := entries.foldl updateBuffer p.writeBuffer
        applied := p.applied ++ entries
        writers := Function.update p.writers t left }
  | .drain => { p with writeBuffer := p.writeBuffer.drain.2 }
  | .truncate => { p with wal := p.wal.truncate }

/-- A primary on which nobody writes. -/
def start (wal : Log) (writeBuffer : WriteBuffer) (replicas : Nat) : Primary where
  wal := wal
  replicas := replicas
  channels := fun _ => []
  writeBuffer := writeBuffer
  applied := []
  writers := fun _ => []

/-- All replicas have been sent, and the buffer has been updated with, entries in the order of
the log; and the buffer holds the documents of the last of these updates, in their order, after
those it was `found` with. -/
structure OneOrder (found : List Document) (p : Primary) : Prop where
  channels : ∀ j, (p.channels j).Pairwise (fun a b => a.seq < b.seq)
  applied : p.applied.Pairwise (fun a b => a.seq < b.seq)
  docs : p.writeBuffer.docs <:+ found ++ indexedDocs (p.applied.map ReplicaEntry.entry)

/-! ## 2. Deliveries -/

/-- The number of an entry. -/
def num (e : ReplicaEntry) : Nat := e.seq.toNat

/-- Channels and buffer as sinks of the logged entries. -/
def Primary.deliveries (p : Primary) : Delivery.State Sink ReplicaEntry where
  delivered
    | .channel j => p.channels j
    | .buffer => p.applied
  waiting := p.writers

/-- The action overtakes none: no other call has an earlier entry for the same sink. -/
def Turn (p : Primary) : Action → Prop
  | .next t => p.deliveries.Turn num t
  | _ => True

theorem deliveries_next (p : Primary) (t : Nat) :
    (step p (.next t)).deliveries = p.deliveries.deliver t := by
  cases hwait : p.writers t with
  | nil =>
    have hwait' : p.deliveries.waiting t = [] := hwait
    simp only [step, hwait, State.deliver, hwait']
  | cons head left =>
    obtain ⟨sink, entries⟩ := head
    have hwait' : p.deliveries.waiting t = (sink, entries) :: left := hwait
    simp only [State.deliver, hwait']
    cases sink with
    | channel j =>
      simp only [step, hwait, Primary.deliveries, State.mk.injEq, and_true]
      funext sink
      cases sink with
      | channel i => by_cases hi : i = j <;> simp [hi]
      | buffer => rfl
    | buffer =>
      simp only [step, hwait, Primary.deliveries, State.mk.injEq, and_true]
      funext sink
      cases sink <;> rfl

theorem deliveries_begin (p : Primary) {t : Nat} (hidle : p.writers t = []) (call : Call) :
    (step p (.begin t call)).deliveries
      = p.deliveries.take t (plan p.replicas (sequenced p.wal call.entries)) := by
  simp only [step, hidle]
  rfl

theorem pendingFor_append (i : Sink) (a b : List (Sink × List ReplicaEntry)) :
    pendingFor i (a ++ b) = pendingFor i a ++ pendingFor i b := by
  simp [pendingFor]

theorem pendingFor_enqueue (sink : Sink) (entry : ReplicaEntry) : ∀ replicas : Nat,
    pendingFor sink (enqueue replicas entry)
      = if ∃ j < replicas, sink = .channel j then [entry] else []
  | 0 => by simp [enqueue, pendingFor]
  | n + 1 => by
    have hlast : enqueue (n + 1) entry = enqueue n entry ++ [(.channel n, [entry])] := by
      simp [enqueue, List.range_succ]
    rw [hlast, pendingFor_append, pendingFor_enqueue sink entry n, pendingFor_cons]
    by_cases hn : Sink.channel n = sink
    · subst hn
      simp [pendingFor]
    · have hiff : (∃ j < n + 1, sink = .channel j) ↔ ∃ j < n, sink = .channel j := by
        constructor
        · rintro ⟨j, hj, rfl⟩
          exact ⟨j, (Nat.lt_succ_iff_lt_or_eq.mp hj).resolve_right (fun h => hn (by rw [h])), rfl⟩
        · rintro ⟨j, hj, rfl⟩
          exact ⟨j, Nat.lt_succ_of_lt hj, rfl⟩
      simp only [hiff]
      simp [hn, pendingFor]

theorem pendingFor_enqueues_sublist (sink : Sink) (replicas : Nat) :
    ∀ entries : List ReplicaEntry,
    (pendingFor sink (entries.flatMap (enqueue replicas))).Sublist entries
  | [] => List.Sublist.slnil
  | entry :: entries => by
    rw [List.flatMap_cons, pendingFor_append, pendingFor_enqueue]
    have ih := pendingFor_enqueues_sublist sink replicas entries
    split
    · exact ih.cons_cons entry
    · exact ih.cons entry

/-- Each sink is to get the entries of a call in order, each at most once. -/
theorem pendingFor_plan_sublist (sink : Sink) (replicas : Nat) (entries : List ReplicaEntry) :
    (pendingFor sink (plan replicas entries)).Sublist entries := by
  rw [plan, pendingFor_append, pendingFor_cons]
  cases sink with
  | channel j =>
    simpa [pendingFor] using pendingFor_enqueues_sublist (.channel j) replicas entries
  | buffer =>
    have hnone : pendingFor .buffer (entries.flatMap (enqueue replicas)) = [] := by
      refine List.eq_nil_iff_forall_not_mem.mpr (fun e he => ?_)
      obtain ⟨d, hd, -⟩ := List.mem_flatMap.mp he
      obtain ⟨hmem, hsink⟩ := List.mem_filter.mp hd
      obtain ⟨entry, -, hmem⟩ := List.mem_flatMap.mp hmem
      obtain ⟨j, -, rfl⟩ := List.mem_map.mp hmem
      simp at hsink
    rw [hnone, if_pos rfl]
    simp [pendingFor]

/-- The numbers of a batch that does not reach the end of the counter. -/
theorem map_num_sequenced : ∀ (entries : List WalEntry) (wal : Log) (n : Nat),
    wal.nextSeq = UInt64.ofNat n → n + entries.length ≤ 2 ^ 64 →
    (sequenced wal entries).map num = List.range' n entries.length
  | [], _, _, _, _ => rfl
  | entry :: entries, wal, n, hnext, hlen => by
    have hn : n < 2 ^ 64 := by
      rw [List.length_cons] at hlen
      omega
    have hrest : sequenced wal (entry :: entries)
        = ⟨wal.nextSeq, entry⟩ :: sequenced { wal with nextSeq := wal.nextSeq + 1 } entries := rfl
    have ih := map_num_sequenced entries { wal with nextSeq := wal.nextSeq + 1 } (n + 1)
      (by simp only [hnext, UInt64.ofNat_add]; rfl) (by rw [List.length_cons] at hlen; omega)
    rw [hrest, List.map_cons, ih, List.length_cons, List.range'_succ, num, hnext,
      UInt64.toNat_ofNat_of_lt' hn]

/-! ## 3. Runs -/

/-- The entries of the calls of a run. -/
def entries (actions : List Action) : List WalEntry :=
  actions.flatMap (fun a => match a with
    | .begin _ call => call.entries
    | _ => [])

/-- The sinks of a primary whose next number is `n` are in order, and stay so. -/
structure Kept (n : Nat) (p : Primary) : Prop where
  nextSeq : p.wal.nextSeq = UInt64.ofNat n
  inv : Inv num n p.deliveries

theorem Kept.begin {n : Nat} {p : Primary} (h : Kept n p) {t : Nat} (hidle : p.writers t = [])
    {call : Call} (hlen : n + call.entries.length ≤ 2 ^ 64) :
    Kept (n + call.entries.length) (step p (.begin t call)) where
  nextSeq := by
    simp only [step, hidle, Log.appendBatch, h.nextSeq, UInt64.ofNat_add]
  inv := by
    have hnums := map_num_sequenced call.entries p.wal n h.nextSeq hlen
    have hsorted : (sequenced p.wal call.entries).Pairwise (fun a b => num a < num b) := by
      rw [← List.pairwise_map, hnums]
      exact List.pairwise_lt_range'
    rw [deliveries_begin p hidle]
    refine h.inv.take (Nat.le_add_right _ _)
      (fun i => hsorted.sublist (pendingFor_plan_sublist i _ _)) (fun i y hy => ?_)
    have hmem := List.mem_map_of_mem (f := num) ((pendingFor_plan_sublist i _ _).mem hy)
    rw [hnums] at hmem
    exact List.mem_range'_1.mp hmem

/-- **In a run without overtaking the sinks stay in order.** -/
theorem Kept.run : ∀ (actions : List Action) (p : Primary) (n : Nat), Kept n p →
    n + (entries actions).length ≤ 2 ^ 64 → Along step Turn p actions →
    ∃ n', Kept n' (LabelledRun.run step p actions)
  | [], _, n, h, _, _ => ⟨n, h⟩
  | a :: actions, p, n, h, hlen, hturn => by
    have hsplit : entries (a :: actions) = entries [a] ++ entries actions := by
      simp [entries]
    rw [hsplit, List.length_append] at hlen
    have hrest : n + (entries actions).length ≤ 2 ^ 64 := by omega
    cases a with
    | begin t call =>
      have hcall : entries [.begin t call] = call.entries := by simp [entries]
      rw [hcall] at hlen
      cases hidle : p.writers t with
      | nil =>
        exact Kept.run actions _ _ (h.begin hidle (by omega)) (by omega) hturn.2
      | cons d left =>
        have hsame : step p (.begin t call) = p := by simp only [step, hidle]
        rw [run_cons, hsame]
        exact Kept.run actions p n h hrest (hsame ▸ hturn.2)
    | next t =>
      refine Kept.run actions _ n ⟨?_, ?_⟩ hrest hturn.2
      · rw [← h.nextSeq, step]
        split <;> rfl
      · rw [deliveries_next]
        exact h.inv.deliver hturn.1
    | drain => exact Kept.run actions _ n ⟨h.nextSeq, h.inv⟩ hrest hturn.2
    | truncate => exact Kept.run actions _ n ⟨h.nextSeq, h.inv⟩ hrest hturn.2

theorem Bad.step {p : Primary} (h : Bad num p.deliveries) (a : Action) :
    Bad num (step p a).deliveries := by
  cases a with
  | begin t call =>
    cases hidle : p.writers t with
    | nil =>
      rw [deliveries_begin p hidle]
      exact h.take hidle _
    | cons d left => simpa only [WriteOrder.step, hidle] using h
  | next t =>
    rw [deliveries_next]
    exact h.deliver t
  | drain => exact h
  | truncate => exact h

/-- **Overtaking is never made good.** -/
theorem bad_run : ∀ (actions : List Action) (p : Primary), ¬ Along step Turn p actions →
    Bad num (run step p actions).deliveries
  | [], _, h => absurd trivial h
  | a :: actions, p, h => by
    by_cases hturn : Turn p a
    · exact bad_run actions _ (fun hrest => h ⟨hturn, hrest⟩)
    · have hnow : Bad num (step p a).deliveries := by
        cases a with
        | next t =>
          rw [deliveries_next]
          exact bad_of_not_turn hturn
        | begin t call => exact absurd trivial hturn
        | drain => exact absurd trivial hturn
        | truncate => exact absurd trivial hturn
      exact run_inv (I := fun p : Primary => Bad num p.deliveries)
        (fun p a hbad => Bad.step hbad a) actions _ hnow

/-! ## 4. The buffer -/

theorem docs_foldl_updateBuffer : ∀ (entries : List ReplicaEntry) (b : WriteBuffer),
    (entries.foldl updateBuffer b).docs
      = b.docs ++ indexedDocs (entries.map ReplicaEntry.entry)
  | [], b => by simp [indexedDocs]
  | ⟨seq, .index doc⟩ :: entries, b => by
    rw [List.foldl_cons, docs_foldl_updateBuffer entries, updateBuffer, WriteBuffer.add_docs,
      List.append_assoc]
    rfl
  | ⟨seq, .delete docId⟩ :: entries, b => by
    rw [List.foldl_cons, docs_foldl_updateBuffer entries]
    rfl

/-- The buffer holds the last of the documents it was found or updated with. -/
theorem docs_suffix_step (found : List Document) (p : Primary) (a : Action)
    (h : p.writeBuffer.docs <:+ found ++ indexedDocs (p.applied.map ReplicaEntry.entry)) :
    (step p a).writeBuffer.docs
      <:+ found ++ indexedDocs ((step p a).applied.map ReplicaEntry.entry) := by
  cases a with
  | begin t call =>
    rw [step]
    split <;> exact h
  | next t =>
    rw [step]
    split
    · exact h
    · exact h
    · simp only [docs_foldl_updateBuffer, List.map_append, indexedDocs_append]
      rw [← List.append_assoc]
      obtain ⟨old, hold⟩ := h
      exact ⟨old, by rw [← List.append_assoc, hold]⟩
  | drain => exact List.nil_suffix
  | truncate => exact h

theorem docs_suffix_run (actions : List Action) (wal : Log) (writeBuffer : WriteBuffer)
    (replicas : Nat) :
    (run step (start wal writeBuffer replicas) actions).writeBuffer.docs
      <:+ writeBuffer.docs ++ indexedDocs
        ((run step (start wal writeBuffer replicas) actions).applied.map ReplicaEntry.entry) :=
  run_inv (fun p a h => docs_suffix_step writeBuffer.docs p a h) actions _
    ⟨[], by simp [start, indexedDocs]⟩

theorem ordered_iff (p : Primary) : Ordered num p.deliveries ↔
    (∀ j, (p.channels j).Pairwise (fun a b => a.seq < b.seq)) ∧
      p.applied.Pairwise (fun a b => a.seq < b.seq) := by
  constructor
  · exact fun h => ⟨fun j => (h (.channel j)).imp UInt64.lt_iff_toNat_lt.mpr,
      (h .buffer).imp UInt64.lt_iff_toNat_lt.mpr⟩
  · rintro ⟨hchannels, happlied⟩ (j | -)
    · exact (hchannels j).imp UInt64.lt_iff_toNat_lt.mp
    · exact happlied.imp UInt64.lt_iff_toNat_lt.mp

/-- **One order of writes.**  In every run in which no call overtakes, the replicas are sent the
entries, and the buffer holds the documents, in the order of the log, at every moment.  In a run
at whose end all calls are done, the orders agree only if no call overtook. -/
theorem one_order (wal : Log) (writeBuffer : WriteBuffer) (replicas : Nat)
    (actions : List Action)
    (hfew : wal.nextSeq.toNat + (entries actions).length ≤ 2 ^ 64) :
    (Along step Turn (start wal writeBuffer replicas) actions → ∀ k,
      OneOrder writeBuffer.docs (run step (start wal writeBuffer replicas) (actions.take k))) ∧
    ((∀ t, (run step (start wal writeBuffer replicas) actions).writers t = []) →
      (∀ k, OneOrder writeBuffer.docs
        (run step (start wal writeBuffer replicas) (actions.take k))) →
      Along step Turn (start wal writeBuffer replicas) actions) := by
  constructor
  · intro hturn k
    have hstart : Kept wal.nextSeq.toNat (start wal writeBuffer replicas) := by
      refine ⟨UInt64.ofNat_toNat.symm, fun i => ?_, fun t i => List.Pairwise.nil,
        fun i t x hx => ?_, fun i x hx => ?_, fun t i y hy => nomatch hy⟩
      all_goals cases i
      all_goals first | exact List.Pairwise.nil | exact nomatch hx
    have hle : (entries (actions.take k)).length ≤ (entries actions).length := by
      have hsplit : entries actions = entries (actions.take k) ++ entries (actions.drop k) := by
        rw [entries, entries, entries, ← List.flatMap_append, List.take_append_drop]
      rw [hsplit, List.length_append]
      omega
    obtain ⟨n, hkept⟩ := Kept.run (actions.take k) _ _ hstart (by omega) (hturn.take k)
    obtain ⟨hchannels, happlied⟩ := (ordered_iff _).mp hkept.inv.ordered
    exact ⟨hchannels, happlied, docs_suffix_run _ wal writeBuffer replicas⟩
  · intro hdone horder
    by_contra hovertakes
    have hend : OneOrder writeBuffer.docs (run step (start wal writeBuffer replicas) actions) := by
      simpa using horder actions.length
    exact (bad_run actions _ hovertakes).not_ordered hdone
      ((ordered_iff _).mpr ⟨hend.channels, hend.applied⟩)

/-- A document with its id as title. -/
def sample (id : DocId) : Document := ⟨id, toString id, "", ⟨0⟩, "", .empty⟩

/-- Two calls that overlap and do not overtake. -/
theorem one_order_interleaved :
    let actions : List Action := [.begin 0 (.index (sample 1)), .begin 1 (.index (sample 2)),
      .next 0, .next 1, .next 0, .next 1]
    ∀ k, OneOrder [] (run step (start (.openRecords []) (.new 100) 1) (actions.take k)) := by
  intro actions
  refine (one_order (.openRecords []) (.new 100) 1 actions (by decide)).1 ?_
  refine ⟨trivial, trivial, ?_, ?_, ?_, ?_, trivial⟩
  all_goals
    intro u hu
    match u with
    | 0 => first | exact absurd rfl hu | decide
    | 1 => first | exact absurd rfl hu | decide
    | u + 2 => exact fun y hy => nomatch hy

/-- **Two calls in two orders.**  The second call to be logged is the first to reach the replica
and the buffer. -/
theorem not_one_order_overtaken :
    let p := run step (start (.openRecords []) (.new 100) 1)
      [.begin 0 (.index (sample 1)), .begin 1 (.index (sample 2)), .next 1, .next 1, .next 0,
        .next 0]
    p.wal.readAll = [.index (sample 1), .index (sample 2)] ∧
    p.writeBuffer.docs = [sample 2, sample 1] ∧
    (p.channels 0).map ReplicaEntry.seq = [1, 0] ∧
    ¬ OneOrder [] p := by
  intro p
  have hchannel : (p.channels 0).map ReplicaEntry.seq = [1, 0] := by decide
  refine ⟨by decide, by decide, hchannel, fun h => ?_⟩
  have hpair := List.pairwise_map.mpr (h.channels 0)
  rw [hchannel] at hpair
  exact absurd hpair (by decide)

end ZearchEngine.WriteOrder
