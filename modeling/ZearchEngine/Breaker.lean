/-
# Circuit breakers

`CircuitBreaker` (`crates/core/src/breaker.rs`) and the two clients it is put around:
`BreakerShardClient` (`crates/router/src/breaker.rs`), whose searches the router awaits under
`query_timeout`, and `BreakerRanker` (`crates/ranker/src/breaker.rs`), which
`rerank_with_fallback` awaits under its own timeout.

A client records the outcome of a call after it has awaited the inner future.  A timeout is
imposed from outside and drops the client's future at that await, so what stands behind it does
not run: a call that times out is not recorded at all.  `trips_iff` says which streaks of failed
calls trip the breaker: those that have enough errors in them.

Each counter update is taken to be one step.
-/
import ZearchEngine.Lib.LabelledRun
import Mathlib.Data.List.Basic

namespace ZearchEngine

/-! ## 1. The breaker -/

/-- Open after N consecutive failures; half-open after the recovery window. -/
structure CircuitBreaker where
  failures : UInt32 := 0
  openedAtMs : UInt64 := 0
  threshold : UInt32
  recoveryMs : UInt64
deriving DecidableEq

namespace CircuitBreaker

variable (b : CircuitBreaker)

/-- `is_open`, at the time `now`. -/
def isOpen (now : UInt64) : Bool :=
  if b.openedAtMs = 0 then false
  else
    let elapsed := if now < b.openedAtMs then 0 else now - b.openedAtMs
    elapsed < b.recoveryMs

/-- `record_success`. -/
def recordSuccess : CircuitBreaker := { b with failures := 0, openedAtMs := 0 }

/-- `record_failure`, at the time `now`. -/
def recordFailure (now : UInt64) : CircuitBreaker :=
  { b with
    failures := b.failures + 1
    openedAtMs := if b.threshold ≤ b.failures + 1 ∧ b.openedAtMs = 0 then now
      else b.openedAtMs }

/-- The breaker opened at the time `t`: it is open from then on until `recovery_ms` later. -/
structure OpenedAt (t : UInt64) : Prop where
  set : b.openedAtMs = t
  isOpen_iff : ∀ now, t ≤ now → (b.isOpen now ↔ now.toNat < t.toNat + b.recoveryMs.toNat)

end CircuitBreaker

/-! ## 2. The clients -/

/-- `search_core::Error`, as far as these clients raise it or pass it on. -/
inductive CallError where
  | shard (message : String)
  | internal (message : String)
deriving DecidableEq

/-- What has become of a future when its timeout passes: its result, or none if it is still
pending and is dropped. -/
abbrev Awaited (α : Type) := Option (Except CallError α)

variable {α : Type}

/-- `BreakerShardClient::record`, at the time `now`. -/
def BreakerShardClient.record (b : CircuitBreaker) (now : UInt64) :
    Except CallError α → Except CallError α × CircuitBreaker
  | .ok a => (.ok a, b.recordSuccess)
  | .error e => (.error e, b.recordFailure now)

/-- `BreakerShardClient::search`: `self.record(self.inner.search(request).await)`. -/
def BreakerShardClient.search (b : CircuitBreaker) (now : UInt64) :
    Awaited α → Awaited α × CircuitBreaker
  | some result => (some (record b now result).1, (record b now result).2)
  | none => (none, b)

/-- `BreakerRanker::rerank`: an open breaker answers at once. -/
def BreakerRanker.rerank (b : CircuitBreaker) (startedAt now : UInt64) (inner : Awaited α) :
    Awaited α × CircuitBreaker :=
  if b.isOpen startedAt then (some (.error (.internal "ranker circuit open")), b)
  else
    match inner with
    | some (.ok a) => (some (.ok a), b.recordSuccess)
    | some (.error e) => (some (.error e), b.recordFailure now)
    | none => (none, b)

/-- What the router makes of a shard's search under its timeout. -/
def Router.searchResult (awaited : Awaited α) : Except CallError α :=
  awaited.getD (.error (.shard "shard query timeout"))

/-! ## 3. Calls one after another -/

/-- How a call came out for its caller. -/
inductive Outcome where
  | success | error | timedOut
deriving DecidableEq

/-- The outcome of an awaited future. -/
def Outcome.of : Awaited α → Outcome
  | some (.ok _) => .success
  | some (.error _) => .error
  | none => .timedOut

/-- The client that is called. -/
inductive BreakerClient where
  | shardClient | ranker

/-- A call: what becomes of the inner future, and the clock when the call starts and when its
outcome is recorded.  The clock counts milliseconds since 1970 and is past 0. -/
structure BreakerCall (α : Type) where
  inner : Awaited α
  startedAt : UInt64
  finishedAt : UInt64
  finishedAt_ne_zero : finishedAt ≠ 0

/-- The client's method. -/
def BreakerClient.call (client : BreakerClient) (b : CircuitBreaker) (c : BreakerCall α) :
    Awaited α × CircuitBreaker :=
  match client with
  | .shardClient => BreakerShardClient.search b c.finishedAt c.inner
  | .ranker => BreakerRanker.rerank b c.startedAt c.finishedAt c.inner

/-- The breaker, and the outcomes so far with the times they were recorded, the last first. -/
structure BreakerRun where
  breaker : CircuitBreaker
  history : List (Outcome × UInt64) := []

namespace BreakerRun

/-- One call. -/
def step (client : BreakerClient) (r : BreakerRun) (c : BreakerCall α) : BreakerRun where
  breaker := (client.call r.breaker c).2
  history := (Outcome.of (client.call r.breaker c).1, c.finishedAt) :: r.history

/-- The calls since the last success. -/
def streak (r : BreakerRun) : List (Outcome × UInt64) :=
  r.history.takeWhile (fun o => o.1 ≠ .success)

/-- The errors since the last success. -/
def errors (r : BreakerRun) : List (Outcome × UInt64) := r.streak.filter (fun o => o.1 = .error)

/-- The last `n` calls have all been errors or timeouts. -/
def LastFailed (r : BreakerRun) (n : Nat) : Prop :=
  n ≤ r.history.length ∧ ∀ o ∈ r.history.take n, o.1 ≠ .success

/-- The breaker opened at the time of one of the calls since the last success. -/
def Opened (r : BreakerRun) : Prop := ∃ o ∈ r.streak, r.breaker.OpenedAt o.2

/-! ## 4. What is recorded -/

/-- **What a call does**: a success and an error are recorded, a timeout is not, and neither is
the answer of an open breaker. -/
theorem call_cases (client : BreakerClient) (b : CircuitBreaker) (c : BreakerCall α) :
    (Outcome.of (client.call b c).1 = .success ∧ (client.call b c).2 = b.recordSuccess) ∨
    (Outcome.of (client.call b c).1 = .error ∧
      (client.call b c).2 = b.recordFailure c.finishedAt) ∨
    (Outcome.of (client.call b c).1 = .error ∧ b.openedAtMs ≠ 0 ∧ (client.call b c).2 = b) ∨
    (Outcome.of (client.call b c).1 = .timedOut ∧ (client.call b c).2 = b) := by
  cases client with
  | shardClient =>
    unfold BreakerClient.call BreakerShardClient.search
    cases c.inner with
    | none => exact .inr (.inr (.inr ⟨rfl, rfl⟩))
    | some result =>
      cases result with
      | ok a => exact .inl ⟨rfl, rfl⟩
      | error e => exact .inr (.inl ⟨rfl, rfl⟩)
  | ranker =>
    unfold BreakerClient.call BreakerRanker.rerank
    by_cases hopen : b.isOpen c.startedAt
    · have hne : b.openedAtMs ≠ 0 := by
        intro hzero
        simp [CircuitBreaker.isOpen, hzero] at hopen
      simp only [hopen, if_true]
      exact .inr (.inr (.inl ⟨rfl, hne, trivial⟩))
    · simp only [hopen]
      cases c.inner with
      | none => exact .inr (.inr (.inr ⟨rfl, rfl⟩))
      | some result =>
        cases result with
        | ok a => exact .inl ⟨rfl, rfl⟩
        | error e => exact .inr (.inl ⟨rfl, rfl⟩)

/-- The breaker against the calls so far.  While it has not opened, it counts the errors since
the last success, which are fewer than the threshold; once it has, they are enough, and it did
so at the time of one of them. -/
structure Tracks (r : BreakerRun) (threshold : UInt32) (recoveryMs : UInt64) : Prop where
  sameThreshold : r.breaker.threshold = threshold
  sameRecovery : r.breaker.recoveryMs = recoveryMs
  closed : r.breaker.openedAtMs = 0 →
    r.breaker.failures.toNat = r.errors.length ∧ r.errors.length < threshold.toNat
  opened : r.breaker.openedAtMs ≠ 0 →
    threshold.toNat ≤ r.errors.length ∧ ∃ o ∈ r.errors, o.2 = r.breaker.openedAtMs

variable {client : BreakerClient} {threshold : UInt32} {recoveryMs : UInt64}

/-- **Each call keeps track.** -/
theorem Tracks.step {r : BreakerRun} (h : r.Tracks threshold recoveryMs)
    (hthreshold : 1 ≤ threshold.toNat) (c : BreakerCall α) :
    (r.step client c).Tracks threshold recoveryMs := by
  rcases call_cases client r.breaker c with ⟨hout, hb⟩ | ⟨hout, hb⟩ | ⟨hout, hne, hb⟩ | ⟨hout, hb⟩
  · -- a success starts over
    have herrors : (r.step client c).errors = [] := by
      simp [errors, streak, BreakerRun.step, hout]
    refine ⟨?_, ?_, fun _ => ?_, fun hopen => ?_⟩
    · simp [BreakerRun.step, hb, CircuitBreaker.recordSuccess, h.sameThreshold]
    · simp [BreakerRun.step, hb, CircuitBreaker.recordSuccess, h.sameRecovery]
    · rw [herrors]
      exact ⟨by simp [BreakerRun.step, hb, CircuitBreaker.recordSuccess], hthreshold⟩
    · exact absurd (by simp [BreakerRun.step, hb, CircuitBreaker.recordSuccess]) hopen
  · -- an error is counted, and opens the breaker if it is the last one needed
    have herrors : (r.step client c).errors = (.error, c.finishedAt) :: r.errors := by
      simp [errors, streak, BreakerRun.step, hout]
    have hbreaker : (r.step client c).breaker = r.breaker.recordFailure c.finishedAt := hb
    by_cases hopen : r.breaker.openedAtMs = 0
    · obtain ⟨hcount, hfew⟩ := h.closed hopen
      have hfailures : (r.breaker.failures + 1).toNat = r.errors.length + 1 := by
        have hlt := threshold.toNat_lt
        rw [UInt32.toNat_add, hcount]
        exact Nat.mod_eq_of_lt (by simp; omega)
      have henough : r.breaker.threshold ≤ r.breaker.failures + 1 ↔
          threshold.toNat ≤ r.errors.length + 1 := by
        rw [h.sameThreshold, UInt32.le_iff_toNat_le, hfailures]
      refine ⟨hbreaker ▸ h.sameThreshold, hbreaker ▸ h.sameRecovery, fun hzero => ?_, fun hne => ?_⟩
      · rw [hbreaker] at hzero ⊢
        have hnot : ¬ threshold.toNat ≤ r.errors.length + 1 := by
          intro hle
          rw [CircuitBreaker.recordFailure] at hzero
          simp only [henough, hle, hopen, and_self, if_true] at hzero
          exact c.finishedAt_ne_zero hzero
        rw [herrors]
        exact ⟨hfailures, by rw [List.length_cons]; omega⟩
      · rw [hbreaker, CircuitBreaker.recordFailure] at hne ⊢
        have hle : threshold.toNat ≤ r.errors.length + 1 := by
          by_contra hnot
          simp only [henough, hnot, false_and, if_false] at hne
          exact hne hopen
        rw [herrors]
        refine ⟨by rw [List.length_cons]; omega, _, List.mem_cons_self, ?_⟩
        simp only [henough, hle, hopen, and_self, if_true]
    · obtain ⟨henough, o, ho, htime⟩ := h.opened hopen
      have hsame : (r.breaker.recordFailure c.finishedAt).openedAtMs = r.breaker.openedAtMs := by
        simp [CircuitBreaker.recordFailure, hopen]
      refine ⟨hbreaker ▸ h.sameThreshold, hbreaker ▸ h.sameRecovery, fun hzero => ?_, fun _ => ?_⟩
      · rw [hbreaker, hsame] at hzero
        exact absurd hzero hopen
      · rw [herrors, hbreaker, hsame]
        exact ⟨by rw [List.length_cons]; omega, o, List.mem_cons_of_mem _ ho, htime⟩
  · -- the answer of an open breaker
    have herrors : (r.step client c).errors = (.error, c.finishedAt) :: r.errors := by
      simp [errors, streak, BreakerRun.step, hout]
    have hbreaker : (r.step client c).breaker = r.breaker := hb
    obtain ⟨henough, o, ho, htime⟩ := h.opened hne
    refine ⟨hbreaker ▸ h.sameThreshold, hbreaker ▸ h.sameRecovery, fun hzero => ?_, fun _ => ?_⟩
    · exact absurd (hbreaker ▸ hzero) hne
    · rw [herrors, hbreaker]
      exact ⟨by rw [List.length_cons]; omega, o, List.mem_cons_of_mem _ ho, htime⟩
  · -- a timeout leaves no trace
    have herrors : (r.step client c).errors = r.errors := by
      simp [errors, streak, BreakerRun.step, hout]
    have hbreaker : (r.step client c).breaker = r.breaker := hb
    exact ⟨hbreaker ▸ h.sameThreshold, hbreaker ▸ h.sameRecovery,
      by rw [herrors, hbreaker]; exact h.closed, by rw [herrors, hbreaker]; exact h.opened⟩

/-- The run of some calls on a new breaker. -/
def runNew (client : BreakerClient) (threshold : UInt32) (recoveryMs : UInt64)
    (calls : List (BreakerCall α)) : BreakerRun :=
  LabelledRun.run (step client) { breaker := { threshold, recoveryMs } } calls

theorem tracks_runNew (client : BreakerClient) (recoveryMs : UInt64)
    (hthreshold : 1 ≤ threshold.toNat) (calls : List (BreakerCall α)) :
    (runNew client threshold recoveryMs calls).Tracks threshold recoveryMs := by
  have hnew : ({ breaker := { threshold, recoveryMs } } : BreakerRun).Tracks threshold
      recoveryMs := by
    refine ⟨rfl, rfl, fun _ => ⟨rfl, hthreshold⟩, fun hne => absurd rfl hne⟩
  exact LabelledRun.run_inv (I := fun r : BreakerRun => r.Tracks threshold recoveryMs)
    (fun _ c h => h.step hthreshold c) calls _ hnew

/-! ## 5. What trips the breaker -/

/-- An opened breaker is open until the recovery time is over. -/
theorem openedAt_openedAtMs {b : CircuitBreaker} (h : b.openedAtMs ≠ 0) :
    b.OpenedAt b.openedAtMs where
  set := rfl
  isOpen_iff := by
    intro now hnow
    have hle := UInt64.le_iff_toNat_le.mp hnow
    have hnot : ¬ now < b.openedAtMs := UInt64.not_lt.mpr hnow
    simp only [CircuitBreaker.isOpen, h, hnot, if_false, decide_eq_true_eq,
      UInt64.lt_iff_toNat_lt, UInt64.toNat_sub_of_le _ _ hnow]
    omega

/-- The times in the history are those of calls, and so not 0. -/
theorem time_ne_zero (client : BreakerClient) (threshold : UInt32) (recoveryMs : UInt64)
    (calls : List (BreakerCall α)) :
    ∀ o ∈ (runNew client threshold recoveryMs calls).history, o.2 ≠ 0 := by
  refine LabelledRun.run_inv (I := fun r : BreakerRun => ∀ o ∈ r.history, o.2 ≠ 0)
    (fun r c h o ho => ?_) calls _ (by simp)
  rcases List.mem_cons.mp ho with rfl | ho
  · exact c.finishedAt_ne_zero
  · exact h o ho

/-- **When the breaker is open**: as soon as enough errors have come in since the last
success. -/
theorem opened_iff (client : BreakerClient) (recoveryMs : UInt64)
    (hthreshold : 1 ≤ threshold.toNat) (calls : List (BreakerCall α)) :
    (runNew client threshold recoveryMs calls).Opened ↔
      threshold.toNat ≤ (runNew client threshold recoveryMs calls).errors.length := by
  have htracks := tracks_runNew client recoveryMs hthreshold calls
  constructor
  · rintro ⟨o, ho, hopened⟩
    refine (htracks.opened ?_).1
    rw [hopened.set]
    exact time_ne_zero client threshold recoveryMs calls o ((List.takeWhile_sublist _).subset ho)
  · intro henough
    have hne : (runNew client threshold recoveryMs calls).breaker.openedAtMs ≠ 0 := by
      intro hzero
      have hfew := (htracks.closed hzero).2
      omega
    obtain ⟨-, o, ho, htime⟩ := htracks.opened hne
    exact ⟨o, (List.mem_filter.mp ho).1, htime ▸ openedAt_openedAtMs hne⟩

/-- **When failed calls trip the breaker.**  After any calls through a client on a new breaker
with a threshold of at least 1: if the last `threshold` calls have all been errors or timeouts
then the breaker opened at the time of one of the calls since the last success, if and only if
in that case at least `threshold` of these calls were errors.  Timeouts do not count. -/
theorem trips_iff (client : BreakerClient) (threshold : UInt32) (recoveryMs : UInt64)
    (hthreshold : 1 ≤ threshold.toNat) (calls : List (BreakerCall α)) :
    let r := runNew client threshold recoveryMs calls
    (r.LastFailed threshold.toNat → r.Opened) ↔
      (r.LastFailed threshold.toNat → threshold.toNat ≤ r.errors.length) := by
  intro r
  have hopened : r.Opened ↔ threshold.toNat ≤ r.errors.length :=
    opened_iff client recoveryMs hthreshold calls
  rw [hopened]

/-- A search or a rerank that fails, or is dropped, one second after 1970. -/
def failedCall (inner : Awaited Unit) : BreakerCall Unit where
  inner := inner
  startedAt := 999
  finishedAt := 1000
  finishedAt_ne_zero := by decide

/-- Two errors trip a breaker that asks for two. -/
theorem trips_two_errors :
    let r := runNew .ranker 2 10000 [failedCall (some (.error (.internal "boom"))),
      failedCall (some (.error (.internal "boom")))]
    r.LastFailed 2 → r.Opened :=
  (trips_iff .ranker 2 10000 (by decide) _).mpr (fun _ => by decide)

/-- **A call that times out does not trip one that asks for a single failure**, whichever client
it goes through. -/
theorem not_trips_timeout :
    let search := runNew .shardClient 1 10000 [failedCall none]
    let rerank := runNew .ranker 1 10000 [failedCall none]
    (search.LastFailed 1 ∧ ¬ search.Opened) ∧ (rerank.LastFailed 1 ∧ ¬ rerank.Opened) := by
  intro search rerank
  have hsearch : ¬ search.Opened :=
    (opened_iff .shardClient 10000 (by decide) _).not.mpr (by decide)
  have hrerank : ¬ rerank.Opened := (opened_iff .ranker 10000 (by decide) _).not.mpr (by decide)
  exact ⟨⟨⟨by decide, by decide⟩, hsearch⟩, ⟨⟨by decide, by decide⟩, hrerank⟩⟩

end BreakerRun

end ZearchEngine
