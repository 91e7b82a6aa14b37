/-
# Seeking in sorted lists

Several strictly increasing lists are read in step: each can be moved to its first element that
is not below a target (`seek`).  What the lists have in common (`common`) is what they have in
common after the move, as far as it is not below the target (`common_seek`).  So moving all of
them to the largest of their first elements loses nothing (`common_seek_head`), and a list
whose first element is below the target gets shorter (`length_seek_lt`), which is what makes
such a loop end.
-/
import Mathlib

namespace Leapfrog

variable {α : Type*} [LinearOrder α]

/-- Move to the first element that is not below `t`. -/
def seek (t : α) (l : List α) : List α := l.dropWhile (fun a => a < t)

/-- What all lists have in common, in the order of the first. -/
def common : List (List α) → List α
  | [] => []
  | l :: ls => l.filter (fun a => ∀ l' ∈ ls, a ∈ l')

theorem mem_common {ls : List (List α)} (hne : ls ≠ []) {a : α} :
    a ∈ common ls ↔ ∀ l ∈ ls, a ∈ l := by
  cases ls with
  | nil => exact absurd rfl hne
  | cons l ls => simp [common]

theorem nodup_common {ls : List (List α)} (h : ∀ l ∈ ls, l.Nodup) : (common ls).Nodup := by
  cases ls with
  | nil => exact List.nodup_nil
  | cons l ls => exact (h l List.mem_cons_self).filter _

/-- A list without elements leaves nothing in common. -/
theorem common_eq_nil {ls : List (List α)} (h : [] ∈ ls) : common ls = [] := by
  have hne : ls ≠ [] := List.ne_nil_of_mem h
  refine List.eq_nil_iff_forall_not_mem.mpr (fun a ha => ?_)
  exact List.not_mem_nil ((mem_common hne).mp ha [] h)

/-! ## Seeking -/

/-- In a sorted list, what is below the target is in front. -/
theorem seek_eq_filter (t : α) : ∀ {l : List α}, l.Pairwise (· < ·) →
    seek t l = l.filter (fun a => t ≤ a)
  | [], _ => rfl
  | a :: l, h => by
    obtain ⟨hhead, htail⟩ := List.pairwise_cons.mp h
    by_cases hlt : a < t
    · rw [seek, List.dropWhile_cons_of_pos (by simpa using hlt),
        List.filter_cons_of_neg (by simpa using hlt)]
      exact seek_eq_filter t htail
    · have hall : l.filter (fun a => t ≤ a) = l := by
        rw [List.filter_eq_self]
        intro b hb
        simpa using (not_lt.mp hlt).trans (hhead b hb).le
      rw [seek, List.dropWhile_cons_of_neg (by simpa using hlt),
        List.filter_cons_of_pos (by simpa using hlt), hall]

theorem mem_seek {t a : α} {l : List α} (h : l.Pairwise (· < ·)) :
    a ∈ seek t l ↔ a ∈ l ∧ t ≤ a := by
  rw [seek_eq_filter t h, List.mem_filter, decide_eq_true_iff]

theorem length_seek_le (t : α) (l : List α) : (seek t l).length ≤ l.length :=
  (List.dropWhile_sublist _).length_le

/-- A list that starts below the target gets shorter. -/
theorem length_seek_lt {t a : α} {l : List α} (hhead : l.head? = some a) (hlt : a < t) :
    (seek t l).length < l.length := by
  cases l with
  | nil => cases hhead
  | cons b l =>
    obtain rfl : b = a := Option.some.inj hhead
    rw [seek, List.dropWhile_cons_of_pos (by simpa using hlt), List.length_cons]
    exact Nat.lt_succ_of_le (length_seek_le t l)

/-- A list that does not start below the target stays. -/
theorem seek_eq_self {t a : α} {l : List α} (hhead : l.head? = some a) (hle : t ≤ a) :
    seek t l = l := by
  cases l with
  | nil => rfl
  | cons b l =>
    obtain rfl : b = a := Option.some.inj hhead
    exact List.dropWhile_cons_of_neg (by simpa using hle)

/-- Seeking an element of a sorted list stops at it. -/
theorem head?_seek_of_mem {t : α} : ∀ {l : List α}, l.Pairwise (· < ·) → t ∈ l →
    (seek t l).head? = some t
  | a :: l, h, hmem => by
    obtain ⟨hhead, htail⟩ := List.pairwise_cons.mp h
    rcases List.mem_cons.mp hmem with rfl | hin
    · rw [seek_eq_self (t := t) (a := t) rfl le_rfl]
      rfl
    · rw [seek, List.dropWhile_cons_of_pos (by simpa using hhead t hin)]
      exact head?_seek_of_mem htail hin

/-- **Seeking in all lists** keeps what they have in common from the target on. -/
theorem common_seek (t : α) {ls : List (List α)} (h : ∀ l ∈ ls, l.Pairwise (· < ·)) :
    common (ls.map (seek t)) = (common ls).filter (fun a => t ≤ a) := by
  cases ls with
  | nil => rfl
  | cons l ls =>
    rw [List.map_cons, common, common, seek_eq_filter t (h l List.mem_cons_self),
      List.filter_filter, List.filter_filter]
    refine List.filter_congr (fun a _ => ?_)
    simp only [List.forall_mem_map]
    have hmem : t ≤ a → ((∀ l' ∈ ls, a ∈ seek t l') ↔ ∀ l' ∈ ls, a ∈ l') := fun hle =>
      forall_congr' fun l' => forall_congr' fun hl' => by
        rw [mem_seek (h l' (List.mem_cons_of_mem _ hl'))]
        exact and_iff_left hle
    by_cases hle : t ≤ a <;> simp [hle, hmem]

/-- A common element is not below the first element of any list. -/
theorem le_of_mem_common {ls : List (List α)} (h : ∀ l ∈ ls, l.Pairwise (· < ·)) {a b : α}
    (ha : a ∈ common ls) {l : List α} (hl : l ∈ ls) (hhead : l.head? = some b) : b ≤ a := by
  have hmem : a ∈ l := (mem_common (List.ne_nil_of_mem hl)).mp ha l hl
  have hsorted := h l hl
  cases l with
  | nil => cases hhead
  | cons c l =>
    obtain rfl : c = b := Option.some.inj hhead
    rcases List.mem_cons.mp hmem with rfl | hmem
    · exact le_refl a
    · exact ((List.pairwise_cons.mp hsorted).1 a hmem).le

/-- Seeking the first element of one of the lists loses nothing. -/
theorem common_seek_head {ls : List (List α)} (h : ∀ l ∈ ls, l.Pairwise (· < ·)) {t : α}
    (ht : ∃ l ∈ ls, ∃ a, l.head? = some a ∧ t ≤ a) : common (ls.map (seek t)) = common ls := by
  obtain ⟨l, hl, a, hhead, hle⟩ := ht
  rw [common_seek t h, List.filter_eq_self]
  intro b hb
  simpa using hle.trans (le_of_mem_common h hb hl hhead)

/-- When all lists start with the same element, it is the first they have in common. -/
theorem common_eq_cons {ls : List (List α)} (hne : ls ≠ []) {a : α}
    (hhead : ∀ l ∈ ls, l.head? = some a) : ∃ rest, common ls = a :: rest := by
  cases ls with
  | nil => exact absurd rfl hne
  | cons l ls =>
    have hl := hhead l List.mem_cons_self
    cases l with
    | nil => cases hl
    | cons b l =>
      obtain rfl : b = a := Option.some.inj hl
      have hall : ∀ l' ∈ ls, b ∈ l' := fun l' hl' =>
        List.mem_of_head? (hhead l' (List.mem_cons_of_mem _ hl'))
      exact ⟨_, by rw [common, List.filter_cons_of_pos (by simpa using hall)]⟩

theorem pairwise_common {ls : List (List α)} (h : ∀ l ∈ ls, l.Pairwise (· < ·)) :
    (common ls).Pairwise (· < ·) := by
  cases ls with
  | nil => exact List.Pairwise.nil
  | cons l ls => exact (h l List.mem_cons_self).filter _

end Leapfrog
