/-
# Half-open breakers

A `CircuitBreaker` (`crates/core/src/breaker.rs`) whose recovery time is over lets calls through
again: it is half-open.  Nothing records that it is.  `opened_at_ms` still holds the time of the
failure that opened the breaker, `is_open` compares it with the clock, and `record_failure` sets
it only where it is 0.  So the half-open breaker stays half-open when its probe fails, however
many probes do, until a success sets `opened_at_ms` back.

`reopens_iff` says which histories of recorded outcomes never show this: those without a failure
that comes after the recovery time of the one that opened the breaker.  Before enough failures
have come in since the last success the breaker is never open (`staysClosed`).
-/
import ZearchEngine.Breaker
import Mathlib

namespace ZearchEngine

/-! ## 1. Histories -/

/-- A call of `record_success` or of `record_failure`, and the clock at the call, in
milliseconds since 1970. -/
structure Recorded where
  failed : Bool
  time : UInt64
  time_ne_zero : time ≠ 0

namespace CircuitBreaker

/-- The breaker after the call. -/
def record (b : CircuitBreaker) (r : Recorded) : CircuitBreaker :=
  if r.failed then b.recordFailure r.time else b.recordSuccess

/-- A new breaker after some calls, the first one first. -/
def afterRecords (threshold : UInt32) (recoveryMs : UInt64) (history : List Recorded) :
    CircuitBreaker :=
  LabelledRun.run record { threshold, recoveryMs } history

/-- The failures since the last success. -/
def failuresSince (history : List Recorded) : List Recorded :=
  history.foldl (fun failures r => if r.failed then failures ++ [r] else []) []

theorem failuresSince_append (history : List Recorded) (r : Recorded) :
    failuresSince (history ++ [r]) = if r.failed then failuresSince history ++ [r] else [] := by
  simp [failuresSince]

/-- More failures are added to those that are there. -/
theorem failuresSince_append_of_failed {failures : List Recorded} (h : ∀ r ∈ failures, r.failed)
    (history : List Recorded) :
    failuresSince (history ++ failures) = failuresSince history ++ failures := by
  induction failures generalizing history with
  | nil => simp
  | cons r failures ih =>
    obtain ⟨hr, hrest⟩ := List.forall_mem_cons.mp h
    have hcons : history ++ r :: failures = history ++ [r] ++ failures := by simp
    rw [hcons, ih hrest, failuresSince_append, if_pos hr]
    simp

/-! ## 2. When a breaker is open -/

/-- `is_open`, in numbers. -/
theorem isOpen_iff (b : CircuitBreaker) (now : UInt64) :
    b.isOpen now = true ↔
      b.openedAtMs ≠ 0 ∧ now.toNat - b.openedAtMs.toNat < b.recoveryMs.toNat := by
  unfold isOpen
  split
  · next hzero => simp [hzero]
  · next hne =>
    by_cases hbefore : now < b.openedAtMs
    · have hlt := UInt64.lt_iff_toNat_lt.mp hbefore
      simp [hbefore, hne, UInt64.lt_iff_toNat_lt, Nat.sub_eq_zero_of_le (Nat.le_of_lt hlt)]
    · have hle := UInt64.le_iff_toNat_le.mp (UInt64.not_lt.mp hbefore)
      simp [hbefore, hne, UInt64.lt_iff_toNat_lt,
        UInt64.toNat_sub_of_le _ _ (UInt64.not_lt.mp hbefore)]

/-- The failure that opens the breaker: the one that makes them `threshold` since the last
success. -/
def opening (threshold : UInt32) (history : List Recorded) : Option Recorded :=
  (failuresSince history)[threshold.toNat - 1]?

variable {threshold : UInt32} {recoveryMs : UInt64}

theorem opening_eq_none_iff (hthreshold : 1 ≤ threshold.toNat) (history : List Recorded) :
    opening threshold history = none ↔ (failuresSince history).length < threshold.toNat := by
  unfold opening
  rw [List.getElem?_eq_none_iff]
  omega

/-- What the breaker holds against the history: the failures since the last success, counted in
32 bits, and the time of the one that opened it. -/
structure Follows (b : CircuitBreaker) (threshold : UInt32) (recoveryMs : UInt64)
    (history : List Recorded) : Prop where
  sameThreshold : b.threshold = threshold
  sameRecovery : b.recoveryMs = recoveryMs
  count : b.failures.toNat = (failuresSince history).length % 2 ^ 32
  openedAt : b.openedAtMs = ((opening threshold history).map Recorded.time).getD 0

/-- **Each call follows.**  A failure that is not the `threshold`-th one changes nothing but the
count. -/
theorem Follows.record {b : CircuitBreaker} {history : List Recorded}
    (h : b.Follows threshold recoveryMs history) (hthreshold : 1 ≤ threshold.toNat)
    (r : Recorded) : (b.record r).Follows threshold recoveryMs (history ++ [r]) := by
  unfold CircuitBreaker.record
  by_cases hfailed : r.failed
  · have hsince : failuresSince (history ++ [r]) = failuresSince history ++ [r] := by
      rw [failuresSince_append, if_pos hfailed]
    have hcount : (b.failures + 1).toNat = (failuresSince (history ++ [r])).length % 2 ^ 32 := by
      rw [UInt32.toNat_add, h.count, hsince]
      simp
    rw [if_pos hfailed]
    refine ⟨h.sameThreshold, h.sameRecovery, hcount, ?_⟩
    have hlt := threshold.toNat_lt
    have hnone := opening_eq_none_iff hthreshold history
    simp only [recordFailure, h.sameThreshold, h.openedAt, UInt32.le_iff_toNat_le, hcount]
    cases hopening : opening threshold history with
    | none =>
      have hfew := hnone.mp hopening
      have hmod : (failuresSince history ++ [r]).length % 2 ^ 32
          = (failuresSince history).length + 1 := by
        rw [List.length_append, List.length_singleton, Nat.mod_eq_of_lt (by omega)]
      simp only [hsince, hmod, opening, Option.map_none, Option.getD_none, and_true]
      by_cases hlast : threshold.toNat = (failuresSince history).length + 1
      · simp [hlast]
      · rw [if_neg (by omega), List.getElem?_eq_none (by simp; omega)]
        rfl
    | some first =>
      -- the breaker has opened, and keeps its time
      have hmany : threshold.toNat - 1 < (failuresSince history).length :=
        (List.getElem?_eq_some_iff.mp hopening).1
      have hsame : opening threshold (history ++ [r]) = some first := by
        rw [opening, hsince, List.getElem?_append_left hmany]
        exact hopening
      simp [hsame, first.time_ne_zero]
  · have hsince : failuresSince (history ++ [r]) = [] := by
      rw [failuresSince_append, if_neg hfailed]
    rw [if_neg hfailed]
    refine ⟨h.sameThreshold, h.sameRecovery, by simp [recordSuccess, hsince], ?_⟩
    simp [recordSuccess, opening, hsince]

theorem follows_afterRecords (recoveryMs : UInt64) (hthreshold : 1 ≤ threshold.toNat)
    (history : List Recorded) :
    (afterRecords threshold recoveryMs history).Follows threshold recoveryMs history := by
  induction history using List.reverseRecOn with
  | nil => exact ⟨rfl, rfl, rfl, by simp [opening, failuresSince, afterRecords]⟩
  | append_singleton history r ih =>
    have hstep : afterRecords threshold recoveryMs (history ++ [r])
        = (afterRecords threshold recoveryMs history).record r := by
      unfold afterRecords
      rw [LabelledRun.run_append]
      rfl
    rw [hstep]
    exact ih.record hthreshold r

/-- **When a breaker is open**: while the recovery time of the failure that opened it lasts. -/
theorem isOpen_afterRecords_iff (recoveryMs : UInt64) (hthreshold : 1 ≤ threshold.toNat)
    (history : List Recorded) (now : UInt64) :
    (afterRecords threshold recoveryMs history).isOpen now = true ↔
      ∃ first, opening threshold history = some first ∧
        now.toNat - first.time.toNat < recoveryMs.toNat := by
  have h := follows_afterRecords recoveryMs hthreshold history
  rw [isOpen_iff, h.sameRecovery, h.openedAt]
  cases opening threshold history with
  | none => simp
  | some first => simp [first.time_ne_zero]

/-! ## 3. What a failed probe does -/

/-- A failure recorded while the breaker is not open, with enough failures since the last success,
opens it from then on until the recovery time is over or a success comes in. -/
def Reopens (threshold : UInt32) (recoveryMs : UInt64) (history : List Recorded) : Prop :=
  ∀ before probe after rest, history = before ++ probe :: (after ++ rest) →
    (afterRecords threshold recoveryMs before).isOpen probe.time = false →
    probe.failed = true →
    threshold.toNat ≤ (failuresSince (before ++ [probe])).length →
    (∀ r ∈ after, r.failed = true) →
    ∀ now : UInt64, (∀ r ∈ probe :: after, r.time ≤ now) →
      now.toNat < probe.time.toNat + recoveryMs.toNat →
      (afterRecords threshold recoveryMs (before ++ probe :: after)).isOpen now = true

/-- With fewer failures than the threshold since the last success the breaker is not open. -/
def StaysClosed (threshold : UInt32) (recoveryMs : UInt64) (history : List Recorded) : Prop :=
  ∀ before rest, history = before ++ rest → (failuresSince before).length < threshold.toNat →
    ∀ now, (afterRecords threshold recoveryMs before).isOpen now = false

/-- No failure comes in when the recovery time of the one that opened the breaker is over. -/
def NoFailedProbe (threshold : UInt32) (recoveryMs : UInt64) (history : List Recorded) : Prop :=
  ∀ before probe rest, history = before ++ probe :: rest → probe.failed = true →
    ∀ first, opening threshold before = some first →
      probe.time.toNat < first.time.toNat + recoveryMs.toNat

theorem staysClosed (recoveryMs : UInt64) (hthreshold : 1 ≤ threshold.toNat)
    (history : List Recorded) : StaysClosed threshold recoveryMs history := by
  intro before rest _ hfew now
  have hnone := (opening_eq_none_iff hthreshold before).mpr hfew
  rw [Bool.eq_false_iff, ne_eq, isOpen_afterRecords_iff recoveryMs hthreshold, hnone]
  simp

/-- Later failures do not change which one opened the breaker. -/
theorem opening_append_of_failed {failures : List Recorded} (h : ∀ r ∈ failures, r.failed)
    {history : List Recorded} {first : Recorded} (hfirst : opening threshold history = some first) :
    opening threshold (history ++ failures) = some first := by
  unfold opening at *
  rw [failuresSince_append_of_failed h, List.getElem?_append_left]
  · exact hfirst
  · exact (List.getElem?_eq_some_iff.mp hfirst).1

/-- The failure with which there are enough opens the breaker. -/
theorem opening_append_of_none (hthreshold : 1 ≤ threshold.toNat) {before : List Recorded}
    {probe : Recorded} (hnone : opening threshold before = none) (hfailed : probe.failed = true)
    (henough : threshold.toNat ≤ (failuresSince (before ++ [probe])).length) :
    opening threshold (before ++ [probe]) = some probe := by
  have hfew := (opening_eq_none_iff hthreshold before).mp hnone
  have hsince : failuresSince (before ++ [probe]) = failuresSince before ++ [probe] := by
    rw [failuresSince_append, if_pos hfailed]
  have hlast : threshold.toNat - 1 = (failuresSince before).length := by
    rw [hsince] at henough
    simp at henough
    omega
  rw [opening, hsince, hlast]
  simp

/-- **A failed probe of a half-open breaker** is the end of it: the breaker is not open after. -/
theorem not_reopens_of_late (hthreshold : 1 ≤ threshold.toNat) {recoveryMs : UInt64}
    (hrecovery : recoveryMs ≠ 0) {before rest : List Recorded} {probe first : Recorded}
    (hfailed : probe.failed = true) (hfirst : opening threshold before = some first)
    (hlate : first.time.toNat + recoveryMs.toNat ≤ probe.time.toNat) :
    ¬ Reopens threshold recoveryMs (before ++ probe :: rest) := by
  intro hreopens
  have hpos : 0 < recoveryMs.toNat := by
    refine Nat.pos_of_ne_zero fun hzero => hrecovery (UInt64.toNat_inj.mp ?_)
    rw [hzero]
    rfl
  have hhalfOpen : ¬ (afterRecords threshold recoveryMs before).isOpen probe.time = true := by
    rw [isOpen_afterRecords_iff recoveryMs hthreshold, hfirst]
    rintro ⟨first', heq, hlt⟩
    obtain rfl := Option.some.inj heq
    omega
  have hmany := (opening_eq_none_iff hthreshold before).not.mp (by simp [hfirst])
  have henough : threshold.toNat ≤ (failuresSince (before ++ [probe])).length := by
    rw [failuresSince_append, if_pos hfailed, List.length_append]
    omega
  -- the probe fails, and the breaker is as open as before
  have hopen := hreopens before probe [] rest (by simp) (Bool.eq_false_iff.mpr hhalfOpen) hfailed
    henough (by simp) probe.time (by simp) (by omega)
  have hsame : opening threshold (before ++ [probe]) = some first :=
    opening_append_of_failed (by simpa using hfailed) hfirst
  rw [isOpen_afterRecords_iff recoveryMs hthreshold, hsame] at hopen
  obtain ⟨first', heq, hlt⟩ := hopen
  obtain rfl := Option.some.inj heq
  omega

/-- **When a breaker opens again.**  In every history, a failure that comes in while the breaker is
closed or half-open, and with which there are enough, opens it for the recovery time, and it is
closed while there are not enough, if and only if the recovery time is 0 or no failure comes in
when the recovery time of the one that opened the breaker is over. -/
theorem reopens_iff (threshold : UInt32) (recoveryMs : UInt64)
    (hthreshold : 1 ≤ threshold.toNat) (history : List Recorded) :
    Reopens threshold recoveryMs history ∧ StaysClosed threshold recoveryMs history ↔
      recoveryMs = 0 ∨ NoFailedProbe threshold recoveryMs history := by
  rw [and_iff_left (staysClosed recoveryMs hthreshold history)]
  constructor
  · intro hreopens
    by_contra hnot
    obtain ⟨hrecovery, hprobe⟩ := not_or.mp hnot
    unfold NoFailedProbe at hprobe
    push Not at hprobe
    obtain ⟨before, probe, rest, rfl, hfailed, first, hfirst, hlate⟩ := hprobe
    exact not_reopens_of_late hthreshold hrecovery hfailed hfirst (by omega) hreopens
  · intro hcondition before probe after rest hhistory hclosed hfailed henough hafter now hnow hlt
    have hlate : probe.time.toNat ≤ now.toNat :=
      UInt64.le_iff_toNat_le.mp (hnow probe List.mem_cons_self)
    -- the breaker has not opened before the probe
    have hnone : opening threshold before = none := by
      cases hfirst : opening threshold before with
      | none => rfl
      | some first =>
        rcases hcondition with rfl | hprobe
        · simp at hlt
          omega
        · have hsoon := hprobe before probe _ hhistory hfailed first hfirst
          have hopen := (isOpen_afterRecords_iff recoveryMs hthreshold before probe.time).mpr
            ⟨first, hfirst, by omega⟩
          rw [hclosed] at hopen
          cases hopen
    have hfirst := opening_append_of_none hthreshold hnone hfailed henough
    have hcons : before ++ probe :: after = before ++ [probe] ++ after := by simp
    rw [hcons, isOpen_afterRecords_iff recoveryMs hthreshold]
    exact ⟨probe, opening_append_of_failed hafter hfirst, by omega⟩

/-- A failure, so many milliseconds after 1970. -/
def failureAt (time : UInt64) (h : time ≠ 0) : Recorded := ⟨true, time, h⟩

/-- **A failed probe does not open the breaker again**: it asks for one failure and recovers in ten
seconds; the second failure comes when they are over. -/
theorem not_reopens_probe :
    ¬ (Reopens 1 10000 [failureAt 1000 (by decide), failureAt 11000 (by decide)] ∧
      StaysClosed 1 10000 [failureAt 1000 (by decide), failureAt 11000 (by decide)]) := by
  rintro ⟨hreopens, -⟩
  have hopen := hreopens [failureAt 1000 (by decide)] (failureAt 11000 (by decide)) [] [] rfl
    (by decide) rfl (by decide) (by simp) 11000 (by decide) (by decide)
  exact absurd hopen (by decide)

/-- A failure within the ten seconds finds the breaker open. -/
theorem reopens_early :
    Reopens 1 10000 [failureAt 1000 (by decide)] ∧
      StaysClosed 1 10000 [failureAt 1000 (by decide)] := by
  refine (reopens_iff 1 10000 (by decide) _).mpr (Or.inr ?_)
  intro before probe rest hhistory _ first hfirst
  rcases List.cons_eq_append_iff.mp hhistory with ⟨rfl, -⟩ | ⟨tail, rfl, htail⟩
  · cases hfirst
  · simp at htail

end CircuitBreaker

end ZearchEngine
