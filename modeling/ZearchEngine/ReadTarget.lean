/-
# Read targets

`ShardGroup::read_target` (`crates/router/src/client.rs`) distributes the reads of a shard over
its primary and its replicas.  A call takes a ticket from a shared counter and starts there,
modulo the number of endpoints; it returns the first endpoint from there on whose circuit is
closed.

A call looks at every endpoint once, as long as its ticket leaves room for the additions
(`exists_position`).  With all circuits closed it returns the one it starts at, so calls with
consecutive tickets go round the endpoints (`goRound_perm`), whoever makes them and whenever they
return (`readTarget_fair`).
-/
import ZearchEngine.Lib.LabelledRun
import Mathlib

namespace ZearchEngine

/-! ## 1. Going round -/

/-- **A round that starts anywhere** comes across every position once. -/
theorem goRound_perm (s n : Nat) :
    ((List.range n).map (fun i => (s + i) % n)).Perm (List.range n) := by
  have hrotate : (List.range n).map (fun i => (s + i) % n) = (List.range n).rotate s := by
    refine List.ext_getElem? (fun i => ?_)
    by_cases hi : i < n
    · have hmod : (s + i) % n < n := Nat.mod_lt _ (by omega)
      rw [List.getElem?_rotate (by simpa using hi)]
      simp [hi, hmod, Nat.add_comm i s]
    · simp [hi]
  rw [hrotate]
  exact List.rotate_perm _ _

/-- **Any number of rounds** comes across every element as often. -/
theorem goRounds_perm {α : Type} (l : List α) (s : Nat) : ∀ m : Nat,
    ((List.range (l.length * m)).map (fun i => l[(s + i) % l.length]?)).Perm
      ((List.replicate m l).flatten.map some) := by
  intro m
  induction m with
  | zero => simp
  | succ m ih =>
    have hround : (List.range l.length).map (fun i => l[(s + (l.length * m + i)) % l.length]?)
        = ((List.range l.length).map (fun i => (s + i) % l.length)).map (fun i => l[i]?) := by
      rw [List.map_map]
      refine List.map_congr_left (fun i _ => ?_)
      have hmod : (s + (l.length * m + i)) % l.length = (s + i) % l.length := by
        rw [Nat.add_left_comm, Nat.mul_add_mod]
      rw [hmod]
      rfl
    have hall : (List.range l.length).map (fun i => l[i]?) = l.map some := by
      refine List.ext_getElem? (fun i => ?_)
      by_cases hi : i < l.length
      · simp [hi]
      · simp [hi]
    have hperm := (goRound_perm s l.length).map (fun i => l[i]?)
    rw [← hround, hall] at hperm
    rw [Nat.mul_succ, List.range_add, List.map_append, List.map_map, List.replicate_succ',
      List.flatten_append, List.map_append, List.flatten_singleton]
    exact ih.append hperm

/-! ## 2. One call -/

/-- Groups a primary and its replicas.  The counter is an `AtomicUsize`. -/
structure ShardGroup (C : Type) where
  primary : C
  replicas : List C
  next : UInt64

namespace ShardGroup

variable {C : Type}

section

variable (g : ShardGroup C)

/-- The primary and the replicas. -/
def endpoints : List C := g.primary :: g.replicas

/-- `total`. -/
def total : Nat := 1 + g.replicas.length

/-- The client at an index; none if the index is out of bounds. -/
def client (idx : Nat) : Option C :=
  if idx = 0 then some g.primary else g.replicas[idx - 1]?

/-- The loop of `read_target`, over what is left of `0..total`; none if it panics. -/
def scan (isCircuitOpen : C → Bool) (start : UInt64) : List Nat → Option C
  | [] => some g.primary
  | i :: is => do
    let client ← g.client ((start + .ofNat i).toNat % g.total)
    if !isCircuitOpen client then some client else scan isCircuitOpen start is

/-- `read_target`. -/
def readTarget (isCircuitOpen : C → Bool) : Option C × ShardGroup C :=
  let start := g.next
  (g.scan isCircuitOpen start (List.range g.total), { g with next := g.next + 1 })

end

variable {g : ShardGroup C} {isCircuitOpen : C → Bool} {start : UInt64}

theorem length_endpoints : g.endpoints.length = g.total := Nat.add_comm _ _

theorem total_pos : 0 < g.total := by
  rw [total]
  omega

theorem client_eq (idx : Nat) : g.client idx = g.endpoints[idx]? := by
  cases idx with
  | zero => rfl
  | succ idx => simp [client, endpoints]

/-- No index is out of bounds. -/
theorem exists_client (start : UInt64) (i : Nat) :
    ∃ c ∈ g.endpoints, g.client ((start + .ofNat i).toNat % g.total) = some c := by
  have hlt : (start + .ofNat i).toNat % g.total < g.endpoints.length := by
    rw [length_endpoints]
    exact Nat.mod_lt _ total_pos
  exact ⟨g.endpoints[(start + .ofNat i).toNat % g.total], List.getElem_mem hlt, by
    rw [client_eq, List.getElem?_eq_getElem hlt]⟩

/-- **What the loop returns**: an endpoint with a closed circuit, if it comes across one, and
otherwise the primary. -/
theorem scan_spec (isCircuitOpen : C → Bool) (start : UInt64) : ∀ is : List Nat,
    ∃ c ∈ g.endpoints, g.scan isCircuitOpen start is = some c ∧
      ((∃ i ∈ is, ∃ e, g.client ((start + .ofNat i).toNat % g.total) = some e ∧
        isCircuitOpen e = false) → isCircuitOpen c = false) ∧
      ((∀ e ∈ g.endpoints, isCircuitOpen e = true) → c = g.primary) := by
  intro is
  induction is with
  | nil => exact ⟨g.primary, List.mem_cons_self, rfl, by simp, fun _ => rfl⟩
  | cons i is ih =>
    obtain ⟨e, he, hclient⟩ := exists_client (g := g) start i
    rw [scan, hclient, Option.bind_eq_bind, Option.bind_some]
    cases hopen : isCircuitOpen e with
    | false => exact ⟨e, he, by simp, fun _ => hopen, fun hall => by simp [hall e he] at hopen⟩
    | true =>
      obtain ⟨c, hc, hscan, hclosed, hprimary⟩ := ih
      refine ⟨c, hc, by simpa using hscan, ?_, hprimary⟩
      rintro ⟨j, hj, e', hclient', hclosed'⟩
      rcases List.mem_cons.mp hj with rfl | hj
      · rw [hclient] at hclient'
        rw [← Option.some.inj hclient', hopen] at hclosed'
        cases hclosed'
      · exact hclosed ⟨j, hj, e', hclient', hclosed'⟩

/-- A ticket that leaves room for the additions. -/
theorem toNat_add_ofNat {i : Nat} (h : start.toNat + i < 2 ^ 64) :
    (start + .ofNat i).toNat = start.toNat + i := by
  have hsize : i < UInt64.size := (Nat.le_add_left _ _).trans_lt h
  rw [UInt64.toNat_add, UInt64.toNat_ofNat_of_lt' hsize, Nat.mod_eq_of_lt h]

/-- **The loop comes across every endpoint.** -/
theorem exists_position (hstart : start.toNat + g.replicas.length < 2 ^ 64) {idx : Nat}
    (hidx : idx < g.total) :
    ∃ i ∈ List.range g.total, (start + .ofNat i).toNat % g.total = idx := by
  have hmem := (goRound_perm start.toNat g.total).mem_iff.mpr (List.mem_range.mpr hidx)
  obtain ⟨i, hi, heq⟩ := List.mem_map.mp hmem
  have htotal : g.total = 1 + g.replicas.length := rfl
  have hlt := List.mem_range.mp hi
  exact ⟨i, hi, by rwa [toNat_add_ofNat (by omega)]⟩

/-- **What a call returns**, if its ticket leaves room: an endpoint, with a closed circuit if
there is one, and otherwise the primary. -/
theorem readTarget_spec (hnext : g.next.toNat + g.replicas.length < 2 ^ 64)
    (isCircuitOpen : C → Bool) :
    ∃ c ∈ g.endpoints, (g.readTarget isCircuitOpen).1 = some c ∧
      ((∃ e ∈ g.endpoints, isCircuitOpen e = false) → isCircuitOpen c = false) ∧
      ((∀ e ∈ g.endpoints, isCircuitOpen e = true) → c = g.primary) := by
  obtain ⟨c, hc, hscan, hclosed, hprimary⟩ :=
    scan_spec (g := g) isCircuitOpen g.next (List.range g.total)
  refine ⟨c, hc, hscan, ?_, hprimary⟩
  rintro ⟨e, he, hopen⟩
  obtain ⟨idx, hidx, rfl⟩ := List.mem_iff_getElem.mp he
  obtain ⟨i, hi, heq⟩ := exists_position hnext (length_endpoints (g := g) ▸ hidx)
  exact hclosed ⟨i, hi, g.endpoints[idx], by rw [heq, client_eq, List.getElem?_eq_getElem hidx],
    hopen⟩

/-- With all circuits closed, a call returns the endpoint it starts at. -/
theorem scan_of_closed (h : ∀ e ∈ g.endpoints, isCircuitOpen e = false) (start : UInt64) :
    g.scan isCircuitOpen start (List.range g.total) = g.endpoints[start.toNat % g.total]? := by
  obtain ⟨e, he, hclient⟩ := exists_client (g := g) start 0
  have htotal : g.total = g.replicas.length + 1 := Nat.add_comm _ _
  have hstart : (start + .ofNat 0).toNat = start.toNat := by simp
  rw [htotal, List.range_succ_eq_map, ← htotal, scan, hclient, ← client_eq]
  rw [hstart] at hclient
  simp [hclient, h e he]

/-- The counter does not matter to the loop. -/
theorem scan_with_next (g : ShardGroup C) (isCircuitOpen : C → Bool) (start next : UInt64) :
    ∀ is : List Nat, ({ g with next } : ShardGroup C).scan isCircuitOpen start is
      = g.scan isCircuitOpen start is := by
  intro is
  induction is with
  | nil => rfl
  | cons i is ih =>
    rw [scan, scan, ih]
    rfl

end ShardGroup

/-! ## 3. Callers -/

/-- A call: the ticket it took, and, once it has returned, the circuits it found and the result
of its loop. -/
structure ReadCall (C : Type) where
  start : UInt64
  returned : Option ((C → Bool) × Option C)

/-- The endpoint that a call returned. -/
def ReadCall.client {C : Type} (call : ReadCall C) : Option C := call.returned.bind Prod.snd

/-- The call has returned, and found all circuits closed. -/
def ReadCall.FoundClosed {C : Type} (call : ReadCall C) (g : ShardGroup C) : Prop :=
  ∃ isCircuitOpen result, call.returned = some (isCircuitOpen, result) ∧
    ∀ e ∈ g.endpoints, isCircuitOpen e = false

/-- The calls in the order in which they took their tickets, and for each caller the one it is
in. -/
structure Reads (ι C : Type) where
  group : ShardGroup C
  calls : List (ReadCall C)
  current : ι → Option Nat

/-- What a caller does next: take a ticket, or return, with the circuits as they are. -/
inductive ReadStep (ι C : Type) where
  | fetchAdd (caller : ι)
  | finish (caller : ι) (isCircuitOpen : C → Bool)

namespace Reads

variable {ι C : Type}

/-- A step that cannot be taken changes nothing. -/
def step [DecidableEq ι] (s : Reads ι C) : ReadStep ι C → Reads ι C
  | .fetchAdd caller =>
    match s.current caller with
    | some _ => s
    | none =>
      { group := { s.group with next := s.group.next + 1 }
        calls := s.calls ++ [⟨s.group.next, none⟩]
        current := Function.update s.current caller (some s.calls.length) }
  | .finish caller isCircuitOpen =>
    match s.current caller with
    | none => s
    | some k =>
      { s with
        calls := s.calls.modify k (fun call => { call with
          returned := some (isCircuitOpen, s.group.scan isCircuitOpen call.start
            (List.range s.group.total)) })
        current := Function.update s.current caller none }

/-- Nobody has called yet. -/
def init (ι : Type) (g : ShardGroup C) : Reads ι C := ⟨g, [], fun _ => none⟩

/-- After some steps, in any order of the callers. -/
def run [DecidableEq ι] (g : ShardGroup C) (steps : List (ReadStep ι C)) : Reads ι C :=
  LabelledRun.run step (init ι g) steps

/-- The tickets are consecutive, and what has returned is what the loop returns. -/
structure Numbered (g : ShardGroup C) (s : Reads ι C) : Prop where
  group : s.group = { g with next := g.next + .ofNat s.calls.length }
  start : ∀ k call, s.calls[k]? = some call → call.start = g.next + .ofNat k
  returned : ∀ call ∈ s.calls, ∀ isCircuitOpen result,
    call.returned = some (isCircuitOpen, result) →
      result = g.scan isCircuitOpen call.start (List.range g.total)

theorem Numbered.step [DecidableEq ι] {g : ShardGroup C} {s : Reads ι C} (h : s.Numbered g)
    (a : ReadStep ι C) : (s.step a).Numbered g := by
  cases a with
  | fetchAdd caller =>
    rw [Reads.step]
    cases s.current caller with
    | some k => exact h
    | none =>
      refine ⟨?_, fun k call hcall => ?_, fun call hcall isCircuitOpen result hreturned => ?_⟩
      · rw [h.group]
        simp [UInt64.ofNat_add, UInt64.add_assoc]
      · dsimp only at hcall
        rw [List.getElem?_append] at hcall
        split at hcall
        · exact h.start k call hcall
        · next hge =>
          rw [List.getElem?_singleton] at hcall
          split at hcall
          · next hk =>
            obtain rfl : k = s.calls.length := by omega
            rw [← Option.some.inj hcall, h.group]
          · cases hcall
      · rcases List.mem_append.mp hcall with hold | hnew
        · exact h.returned call hold isCircuitOpen result hreturned
        · rw [List.mem_singleton.mp hnew] at hreturned
          cases hreturned
  | finish caller isCircuitOpen =>
    rw [Reads.step]
    cases s.current caller with
    | none => exact h
    | some k =>
      refine ⟨?_, fun k' call hcall => ?_, fun call hcall isCircuitOpen' result hreturned => ?_⟩
      · rw [List.length_modify]
        exact h.group
      · dsimp only at hcall
        rw [List.getElem?_modify] at hcall
        obtain ⟨old, hold, rfl⟩ := Option.map_eq_some_iff.mp hcall
        have hstart := h.start k' old hold
        split
        · exact hstart
        · exact hstart
      · obtain ⟨k', hk'⟩ := List.mem_iff_getElem?.mp hcall
        dsimp only at hk'
        rw [List.getElem?_modify] at hk'
        obtain ⟨old, hold, rfl⟩ := Option.map_eq_some_iff.mp hk'
        split at hreturned
        · -- this is the call that returns
          obtain ⟨rfl, rfl⟩ := Prod.mk.inj (Option.some.inj hreturned)
          rw [if_pos ‹_›, h.group, ShardGroup.scan_with_next]
          rfl
        · next hne =>
          rw [if_neg hne]
          exact h.returned old (List.mem_of_getElem? hold) isCircuitOpen' result hreturned

theorem numbered_run [DecidableEq ι] (g : ShardGroup C) (steps : List (ReadStep ι C)) :
    (run g steps).Numbered g := by
  refine LabelledRun.run_inv (I := Numbered g) (fun s a h => h.step a) steps _ ⟨?_, ?_, ?_⟩
  · simp [init]
  · intro k call hcall
    simp [init] at hcall
  · intro call hcall
    cases hcall

/-- A call with all circuits closed returns the endpoint that its ticket names. -/
theorem Numbered.client_eq {g : ShardGroup C} {s : Reads ι C} (h : s.Numbered g)
    {call : ReadCall C} (hcall : call ∈ s.calls) (hclosed : call.FoundClosed g) :
    call.client = g.endpoints[call.start.toNat % g.total]? := by
  obtain ⟨isCircuitOpen, result, hreturned, hall⟩ := hclosed
  rw [ReadCall.client, hreturned, Option.bind_some, h.returned call hcall _ _ hreturned]
  exact ShardGroup.scan_of_closed hall call.start

/-- **Tickets that follow each other** name endpoints that follow each other, as long as they
leave room for the additions. -/
theorem ticket_mod {g : ShardGroup C} {start : UInt64} {n : Nat}
    (hroom : ∀ j < n, (start + .ofNat j).toNat + g.replicas.length < 2 ^ 64) :
    ∀ j < n, (start + .ofNat j).toNat % g.total = (start.toNat + j) % g.total := by
  have htotal : g.total = 1 + g.replicas.length := rfl
  rcases Nat.eq_zero_or_pos g.replicas.length with hnone | hsome
  · intro j _
    rw [htotal, hnone, Nat.mod_one, Nat.mod_one]
  · -- no ticket is the last one of the counter, so the next one is greater by 1
    have hadd : ∀ j < n, (start + .ofNat j).toNat = start.toNat + j := by
      intro j
      induction j with
      | zero => simp
      | succ j ih =>
        intro hj
        have hprev := hroom j (by omega)
        have hsucc : start + .ofNat (j + 1) = (start + .ofNat j) + .ofNat 1 := by
          rw [UInt64.ofNat_add, UInt64.add_assoc]
        rw [hsucc, ShardGroup.toNat_add_ofNat (by omega), ih (by omega)]
        rfl
    exact fun j hj => by rw [hadd j hj]

/-- **Consecutive calls go round the endpoints.** -/
theorem Numbered.window_perm {g : ShardGroup C} {s : Reads ι C} (h : s.Numbered g) (a m : Nat)
    (hfull : ((s.calls.drop a).take (g.total * m)).length = g.total * m)
    (hroom : ∀ call ∈ (s.calls.drop a).take (g.total * m),
      call.start.toNat + g.replicas.length < 2 ^ 64)
    (hclosed : ∀ call ∈ (s.calls.drop a).take (g.total * m), call.FoundClosed g) :
    (((s.calls.drop a).take (g.total * m)).map ReadCall.client).Perm
      ((List.replicate m g.endpoints).flatten.map some) := by
  have hget : ∀ j < g.total * m, ∃ call ∈ (s.calls.drop a).take (g.total * m),
      ((s.calls.drop a).take (g.total * m))[j]? = some call ∧
        call.start = (g.next + .ofNat a) + .ofNat j := by
    intro j hj
    obtain ⟨call, hcall⟩ : ∃ call, ((s.calls.drop a).take (g.total * m))[j]? = some call :=
      ⟨_, List.getElem?_eq_getElem (by rw [hfull]; exact hj)⟩
    have hat : s.calls[a + j]? = some call := by
      rwa [List.getElem?_take_of_lt hj, List.getElem?_drop] at hcall
    refine ⟨call, List.mem_of_getElem? hcall, hcall, ?_⟩
    rw [h.start _ _ hat, UInt64.ofNat_add, UInt64.add_assoc]
  have htickets : ∀ j < g.total * m,
      ((g.next + .ofNat a) + .ofNat j).toNat + g.replicas.length < 2 ^ 64 := by
    intro j hj
    obtain ⟨call, hmem, -, hstart⟩ := hget j hj
    exact hstart ▸ hroom call hmem
  have hmod := ticket_mod htickets
  have hmap : ((s.calls.drop a).take (g.total * m)).map ReadCall.client
      = (List.range (g.total * m)).map
        (fun j => g.endpoints[((g.next + .ofNat a).toNat + j) % g.total]?) := by
    refine List.ext_getElem? (fun j => ?_)
    by_cases hj : j < g.total * m
    · obtain ⟨call, hmem, hcall, hstart⟩ := hget j hj
      have hold : call ∈ s.calls := List.mem_of_mem_drop (List.mem_of_mem_take hmem)
      rw [List.getElem?_map, hcall, Option.map_some, h.client_eq hold (hclosed call hmem),
        hstart, hmod j hj]
      simp [hj]
    · rw [List.getElem?_eq_none (by rw [List.length_map, hfull]; omega),
        List.getElem?_eq_none (by rw [List.length_map, List.length_range]; omega)]
  have hrounds := goRounds_perm g.endpoints (g.next + .ofNat a).toNat m
  rwa [ShardGroup.length_endpoints, ← hmap] at hrounds

end Reads

/-- **Read balancing skips open circuits and is fair.**  A call whose ticket leaves room for the
additions returns an endpoint with a closed circuit if there is one, and otherwise the primary;
so does each of the calls of any callers, with the ticket it took.  And of these calls, any
window of `total * m` consecutive ones that find all circuits closed returns every endpoint `m`
times. -/
theorem ShardGroup.readTarget_fair {C ι : Type} [DecidableEq ι] (g : ShardGroup C) :
    (∀ isCircuitOpen : C → Bool, g.next.toNat + g.replicas.length < 2 ^ 64 →
      ∃ c ∈ g.endpoints, (g.readTarget isCircuitOpen).1 = some c ∧
        ((∃ e ∈ g.endpoints, isCircuitOpen e = false) → isCircuitOpen c = false) ∧
        ((∀ e ∈ g.endpoints, isCircuitOpen e = true) → c = g.primary)) ∧
    ∀ steps : List (ReadStep ι C),
      (∀ call ∈ (Reads.run g steps).calls, ∀ isCircuitOpen result,
        call.returned = some (isCircuitOpen, result) →
          result = ({ g with next := call.start }.readTarget isCircuitOpen).1) ∧
      ∀ a m : Nat,
        let window := ((Reads.run g steps).calls.drop a).take (g.total * m)
        window.length = g.total * m →
        (∀ call ∈ window, call.start.toNat + g.replicas.length < 2 ^ 64) →
        (∀ call ∈ window, call.FoundClosed g) →
        (window.map ReadCall.client).Perm ((List.replicate m g.endpoints).flatten.map some) := by
  refine ⟨fun isCircuitOpen hnext => readTarget_spec hnext isCircuitOpen, fun steps => ?_⟩
  have hrun : (Reads.run g steps).Numbered g := Reads.numbered_run g steps
  refine ⟨fun call hcall isCircuitOpen result hreturned => ?_, fun a m => hrun.window_perm a m⟩
  rw [hrun.returned call hcall isCircuitOpen result hreturned]
  exact (scan_with_next g isCircuitOpen call.start call.start _).symm

/-- A primary and one replica. -/
def twoEndpoints : ShardGroup Nat := ⟨0, [1], 3⟩

/-- Two callers, of which the second one returns first. -/
def twoReads : List (ReadStep Bool Nat) :=
  [.fetchAdd false, .fetchAdd true, .finish true (fun _ => false), .finish false (fun _ => false)]

/-- The replica is skipped if its circuit is open; the two callers get one endpoint each. -/
theorem ShardGroup.readTarget_fair_twoReads :
    (∃ c ∈ twoEndpoints.endpoints, (twoEndpoints.readTarget (fun e => e = 1)).1 = some c ∧
      ((∃ e ∈ twoEndpoints.endpoints, decide (e = 1) = false) → decide (c = 1) = false) ∧
      ((∀ e ∈ twoEndpoints.endpoints, decide (e = 1) = true) → c = twoEndpoints.primary)) ∧
    ((((Reads.run twoEndpoints twoReads).calls.drop 0).take (2 * 1)).map ReadCall.client).Perm
      ((List.replicate 1 twoEndpoints.endpoints).flatten.map some) := by
  obtain ⟨hone, hruns⟩ := @readTarget_fair Nat Bool _ twoEndpoints
  have hcalls : (Reads.run twoEndpoints twoReads).calls
      = [⟨3, some (fun _ => false, some 1)⟩, ⟨4, some (fun _ => false, some 0)⟩] := rfl
  refine ⟨hone (fun e => e = 1) (by decide), (hruns twoReads).2 0 1 rfl ?_ ?_⟩
  · rw [hcalls]
    decide
  · rw [hcalls]
    intro call hcall
    have hcases : call = ⟨3, some (fun _ => false, some 1)⟩ ∨
        call = ⟨4, some (fun _ => false, some 0)⟩ := by
      simpa using List.mem_of_mem_drop (List.mem_of_mem_take hcall)
    rcases hcases with rfl | rfl
    · exact ⟨fun _ => false, some 1, rfl, fun _ _ => rfl⟩
    · exact ⟨fun _ => false, some 0, rfl, fun _ _ => rfl⟩

end ZearchEngine
