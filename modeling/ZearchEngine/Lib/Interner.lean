/-
# Dictionaries that number their values

A table gives each value it is shown a number, the first time it is shown, and keeps a map from
values to numbers beside the list of values.  A sequence of values is then stored as a sequence
of numbers, with `none` where there is no value; `decode` reads it back.

* `getElem?_intern`: a number just given out stands for the value;
* `decode_append_intern`: showing another value does not disturb what was stored before;
* `mem_positions`: the places at which a stored sequence meets a condition.
-/
import Mathlib.Data.Finset.Basic
import Mathlib.Data.List.Nodup
import Mathlib.Logic.Function.Basic

/-- A list of values without repetition, with the map from a value to its place. -/
structure Interner (α : Type) where
  number : α → Option Nat
  values : List α
  number_eq_some_iff : ∀ a i, number a = some i ↔ values[i]? = some a

namespace Interner

variable {α : Type}

/-! ## 1. Numbers -/

/-- Nothing has been shown yet. -/
def empty : Interner α where
  number _ := none
  values := []
  number_eq_some_iff := by simp

theorem number_eq_none_iff (t : Interner α) (a : α) : t.number a = none ↔ a ∉ t.values := by
  rw [List.mem_iff_getElem?]
  constructor
  · rintro hnone ⟨i, hi⟩
    rw [(t.number_eq_some_iff a i).mpr hi] at hnone
    cases hnone
  · intro hnot
    by_contra hne
    obtain ⟨i, hi⟩ := Option.ne_none_iff_exists'.mp hne
    exact hnot ⟨i, (t.number_eq_some_iff a i).mp hi⟩

/-- No value has two places. -/
theorem nodup_values (t : Interner α) : t.values.Nodup := by
  rw [List.nodup_iff_injective_getElem]
  intro i j hij
  have hvalue : t.values[i] = t.values[j] := hij
  have hi : t.number t.values[i] = some i.1 :=
    (t.number_eq_some_iff _ _).mpr (List.getElem?_eq_getElem i.2)
  have hj : t.number t.values[i] = some j.1 := by
    rw [hvalue]
    exact (t.number_eq_some_iff _ _).mpr (List.getElem?_eq_getElem j.2)
  rw [hi, Option.some.injEq] at hj
  exact Fin.ext hj

/-! ## 2. Stored sequences -/

/-- The value a stored number stands for. -/
def decode (values : List α) (numbers : List (Option Nat)) : List (Option α) :=
  numbers.map (fun number => number.bind (values[·]?))

/-- Every number stands for a value. -/
def Bounded (values : List α) (numbers : List (Option Nat)) : Prop :=
  ∀ number ∈ numbers, ∀ i ∈ number, i < values.length

theorem Bounded.mono {values values' : List α} {numbers : List (Option Nat)}
    (h : Bounded values numbers) (hextends : values <+: values') : Bounded values' numbers :=
  fun number hmem i hi => Nat.lt_of_lt_of_le (h number hmem i hi) hextends.length_le

theorem Bounded.append {values : List α} {numbers : List (Option Nat)} {number : Option Nat}
    (h : Bounded values numbers) (hnumber : ∀ i ∈ number, i < values.length) :
    Bounded values (numbers ++ [number]) := by
  intro m hm
  rcases List.mem_append.mp hm with hm | hm
  · exact h m hm
  · rw [List.mem_singleton.mp hm]
    exact hnumber

/-- A longer list of values reads the same. -/
theorem decode_prefix {values values' : List α} {numbers : List (Option Nat)}
    (h : Bounded values numbers) (hextends : values <+: values') :
    decode values' numbers = decode values numbers := by
  obtain ⟨rest, rfl⟩ := hextends
  refine List.map_congr_left (fun number hmem => ?_)
  cases number with
  | none => rfl
  | some i =>
    have hi : i < values.length := h _ hmem i rfl
    exact List.getElem?_append_left hi

/-- What is read is in the list of values. -/
theorem mem_values_of_decode {values : List α} {numbers : List (Option Nat)} {i : Nat} {a : α}
    (h : (decode values numbers)[i]? = some (some a)) : a ∈ values := by
  rw [decode, List.getElem?_map, Option.map_eq_some_iff] at h
  obtain ⟨number, -, hbind⟩ := h
  obtain ⟨k, -, hk⟩ := Option.bind_eq_some_iff.mp hbind
  exact List.mem_of_getElem? hk

/-- A stored number is that of a value exactly where the value is read. -/
theorem number_eq_iff (t : Interner α) {numbers : List (Option Nat)} {i k : Nat} {a : α}
    (hk : t.number a = some k) (h : Bounded t.values numbers) :
    numbers[i]? = some (some k) ↔ (decode t.values numbers)[i]? = some (some a) := by
  have ha := (t.number_eq_some_iff a k).mp hk
  rw [decode, List.getElem?_map]
  cases hnum : numbers[i]? with
  | none => simp
  | some number =>
    cases number with
    | none => simp
    | some j =>
      have hj : j < t.values.length := h _ (List.mem_of_getElem? hnum) j rfl
      simp only [Option.some.injEq, Option.map_some, Option.bind_some]
      constructor
      · rintro rfl
        exact ha
      · intro hja
        have hnumber := (t.number_eq_some_iff a j).mpr hja
        rw [hk, Option.some.injEq] at hnumber
        exact hnumber.symm

/-- Where one of some values is read, one of their numbers is stored. -/
theorem mem_numbers_iff (t : Interner α) (targets : List α) {numbers : List (Option Nat)}
    (h : Bounded t.values numbers) {i : Nat} :
    (∃ number, numbers[i]? = some number ∧ number ∈ (targets.filterMap t.number).map some) ↔
      ∃ a ∈ targets, (decode t.values numbers)[i]? = some (some a) := by
  constructor
  · rintro ⟨_, hnumber, hmem⟩
    obtain ⟨k, hk, rfl⟩ := List.mem_map.mp hmem
    obtain ⟨a, ha, hak⟩ := List.mem_filterMap.mp hk
    exact ⟨a, ha, (t.number_eq_iff hak h).mp hnumber⟩
  · rintro ⟨a, ha, hread⟩
    have hmem : a ∈ t.values := mem_values_of_decode hread
    obtain ⟨k, hk⟩ := Option.ne_none_iff_exists'.mp
      (fun hnone => (t.number_eq_none_iff a).mp hnone hmem)
    exact ⟨some k, (t.number_eq_iff hk h).mpr hread,
      List.mem_map_of_mem (List.mem_filterMap.mpr ⟨a, ha, hk⟩)⟩

/-! ## 3. Places -/

/-- The places at which a list meets a condition. -/
def positions {β : Type} (p : β → Bool) (l : List β) : Finset Nat :=
  ((l.zipIdx.filter (fun e => p e.1)).map Prod.snd).toFinset

theorem mem_positions {β : Type} {p : β → Bool} {l : List β} {i : Nat} :
    i ∈ positions p l ↔ ∃ b, l[i]? = some b ∧ p b := by
  simp only [positions, List.mem_toFinset, List.mem_map, List.mem_filter, Prod.exists,
    List.mem_zipIdx_iff_getElem?]
  constructor
  · rintro ⟨b, j, ⟨hb, hp⟩, rfl⟩
    exact ⟨b, hb, hp⟩
  · rintro ⟨b, hb, hp⟩
    exact ⟨b, i, ⟨hb, hp⟩, rfl⟩

/-! ## 4. Showing a value -/

variable [DecidableEq α]

/-- Searching the list finds the number the map holds. -/
theorem idxOf?_values (t : Interner α) (a : α) : t.values.idxOf? a = t.number a := by
  cases h : t.number a with
  | none => exact List.idxOf?_eq_none_iff.mpr ((t.number_eq_none_iff a).mp h)
  | some i =>
    obtain ⟨hi, ha⟩ := List.getElem?_eq_some_iff.mp ((t.number_eq_some_iff a i).mp h)
    refine List.idxOf?_eq_some_iff.mpr ⟨hi, ha, fun j hj heq => ?_⟩
    have hjl : j < t.values.length := by omega
    have hji : j = i := (List.Nodup.getElem_inj_iff t.nodup_values).mp (heq.trans ha.symm)
    omega

/-- A new value goes to the end of the list. -/
theorem number_push {t : Interner α} {a : α} (hnew : t.number a = none) (b : α) (i : Nat) :
    Function.update t.number a (some t.values.length) b = some i ↔
      (t.values ++ [a])[i]? = some b := by
  have hfresh := (t.number_eq_none_iff a).mp hnew
  rw [List.getElem?_append]
  by_cases hba : b = a
  · subst hba
    rw [Function.update_self, Option.some.injEq]
    constructor
    · rintro rfl
      simp
    · intro h
      split at h
      · exact absurd (List.mem_of_getElem? h) hfresh
      · obtain ⟨hlt, -⟩ := List.getElem?_eq_some_iff.mp h
        rw [List.length_singleton] at hlt
        omega
  · rw [Function.update_of_ne hba, t.number_eq_some_iff]
    split
    · rfl
    · rename_i hge
      rw [List.getElem?_eq_none (by omega)]
      simp only [reduceCtorEq, false_iff]
      intro h
      have hmem := List.mem_of_getElem? h
      exact hba (List.mem_singleton.mp hmem)

/-- The number of a value, which is a new one if the value has none. -/
def intern (t : Interner α) (a : α) : Nat × Interner α :=
  match h : t.number a with
  | some i => (i, t)
  | none =>
    (t.values.length,
      { number := Function.update t.number a (some t.values.length)
        values := t.values ++ [a]
        number_eq_some_iff := number_push h })

/-- What `intern` does to the table. -/
theorem intern_cases (t : Interner α) (a : α) :
    (t.number a = some (t.intern a).1 ∧ (t.intern a).2 = t) ∨
    (t.number a = none ∧ (t.intern a).1 = t.values.length ∧
      (t.intern a).2.values = t.values ++ [a]) := by
  unfold intern
  split
  · next i h => exact .inl ⟨h, rfl⟩
  · next h => exact .inr ⟨h, rfl, rfl⟩

theorem intern_of_some {t : Interner α} {a : α} {i : Nat} (h : t.number a = some i) :
    t.intern a = (i, t) := by
  unfold intern
  split
  · next j hj =>
    rw [h, Option.some.injEq] at hj
    rw [hj]
  · next hnone =>
    rw [h] at hnone
    cases hnone

/-- A new value goes into the map as well. -/
theorem number_intern_of_none {t : Interner α} {a : α} (h : t.number a = none) :
    (t.intern a).2.number = Function.update t.number a (some t.values.length) := by
  unfold intern
  split
  · next i hi =>
    rw [h] at hi
    cases hi
  · rfl

/-- **The number stands for the value.** -/
theorem getElem?_intern (t : Interner α) (a : α) :
    (t.intern a).2.values[(t.intern a).1]? = some a := by
  obtain ⟨hnum, ht⟩ | ⟨-, hi, hvalues⟩ := t.intern_cases a
  · rw [ht]
    exact (t.number_eq_some_iff a _).mp hnum
  · rw [hvalues, hi]
    simp

/-- Values keep their places. -/
theorem prefix_intern (t : Interner α) (a : α) : t.values <+: (t.intern a).2.values := by
  obtain ⟨-, ht⟩ | ⟨-, -, hvalues⟩ := t.intern_cases a
  · rw [ht]
  · rw [hvalues]
    exact List.prefix_append _ _

theorem intern_lt (t : Interner α) (a : α) :
    (t.intern a).1 < (t.intern a).2.values.length :=
  (List.getElem?_eq_some_iff.mp (t.getElem?_intern a)).1

/-- **Storing one more value** leaves what was stored before. -/
theorem decode_append_intern (t : Interner α) (a : α) {numbers : List (Option Nat)}
    (h : Bounded t.values numbers) :
    decode (t.intern a).2.values (numbers ++ [some (t.intern a).1])
      = decode t.values numbers ++ [some a] := by
  rw [decode, List.map_append, ← decode, decode_prefix h (t.prefix_intern a)]
  simp [t.getElem?_intern a]

end Interner
