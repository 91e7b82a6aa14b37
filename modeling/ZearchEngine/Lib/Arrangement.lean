/-
# Orders left open

A hash map hands out its entries in an order of its own, and an unstable sort leaves elements
that compare as equal in some order.  All that is known of the first is that nothing is lost or
made up (`Arrangement`), of the second that its result is in order as well (`UnstableSort`).

* `belonging_lt_of_mem_take`, `mem_take_stable`: an element is among the first `n` of what some
  sort makes of a list exactly if fewer than `n` elements belong before it.
* `pairwise_insertionSort_stable`: a stable sort keeps whatever holds of the order in which
  elements that compare as equal came in.
-/
import Mathlib.Data.List.Nodup
import Mathlib.Data.List.Sort
import Mathlib.Data.List.TakeWhile

variable {α : Type*}

/-! ## 1. Any order -/

/-- An order for the elements of each list. -/
structure Arrangement (α : Type*) where
  run : List α → List α
  perm : ∀ l, (run l).Perm l

namespace Arrangement

/-- The elements as they come. -/
def keep : Arrangement α where
  run l := l
  perm := List.Perm.refl

/-- The elements with a property first. -/
def first (p : α → Bool) : Arrangement α where
  run l := l.filter p ++ l.filter (fun a => !p a)
  perm l := List.filter_append_perm p l

@[simp] theorem run_nil (order : Arrangement α) : order.run [] = [] := (order.perm []).eq_nil

theorem mem_run (order : Arrangement α) {l : List α} {a : α} : a ∈ order.run l ↔ a ∈ l :=
  (order.perm l).mem_iff

end Arrangement

/-! ## 2. Unstable sorts -/

/-- A sort by a comparison: in order, if all elements compare. -/
structure UnstableSort (cmp : α → α → Ordering) (comparable : α → Prop)
    extends Arrangement α where
  sorted : ∀ l, (∀ a ∈ l, comparable a) → (run l).Pairwise (fun a b => cmp a b ≠ .gt)

namespace UnstableSort

variable {cmp : α → α → Ordering} {comparable : α → Prop}

/-- The number of elements of a list that belong before this one. -/
def belonging (cmp : α → α → Ordering) (l : List α) (a : α) : Nat :=
  (l.filter (fun c => cmp a c = .gt)).length

/-- What belongs before an element of the beginning is in the beginning. -/
theorem mem_take_of_gt (sort : UnstableSort cmp comparable) {l : List α}
    (hl : ∀ a ∈ l, comparable a) {n : Nat} {a c : α} (ha : a ∈ (sort.run l).take n) (hc : c ∈ l)
    (hgt : cmp a c = .gt) : c ∈ (sort.run l).take n := by
  have hsplit : c ∈ (sort.run l).take n ++ (sort.run l).drop n := by
    rw [List.take_append_drop]
    exact sort.mem_run.mpr hc
  refine (List.mem_append.mp hsplit).resolve_right (fun hdrop => ?_)
  have hsorted := sort.sorted l hl
  rw [← List.take_append_drop n (sort.run l), List.pairwise_append] at hsorted
  exact hsorted.2.2 a ha c hdrop hgt

/-- **Fewer than `n` elements belong before one of the first `n`.** -/
theorem belonging_lt_of_mem_take (hself : ∀ a, cmp a a ≠ .gt)
    (sort : UnstableSort cmp comparable) {l : List α} (hl : ∀ a ∈ l, comparable a) {n : Nat}
    {a : α} (ha : a ∈ (sort.run l).take n) : belonging cmp l a < n := by
  have hperm : belonging cmp l a = ((sort.run l).filter (fun c => cmp a c = .gt)).length :=
    ((sort.perm l).symm.filter _).length_eq
  -- all of them are among the first `n`, and the element itself is not one of them
  have hdrop : ((sort.run l).drop n).filter (fun c => cmp a c = .gt) = [] := by
    refine List.filter_eq_nil_iff.mpr (fun c hc hgt => ?_)
    have hsorted := sort.sorted l hl
    rw [← List.take_append_drop n (sort.run l), List.pairwise_append] at hsorted
    exact hsorted.2.2 a ha c hc (of_decide_eq_true hgt)
  have hfilter : (sort.run l).filter (fun c => cmp a c = .gt)
      = ((sort.run l).take n).filter (fun c => cmp a c = .gt) := by
    conv_lhs => rw [← List.take_append_drop n (sort.run l), List.filter_append, hdrop,
      List.append_nil]
  have hlt : (((sort.run l).take n).filter (fun c => cmp a c = .gt)).length
      < ((sort.run l).take n).length :=
    List.length_filter_lt_length_iff_exists.mpr ⟨a, ha, by simpa using hself a⟩
  rw [hperm, hfilter]
  exact hlt.trans_le (List.length_take_le n _)

section Stable

variable (le : α → α → Prop) [DecidableRel le] [IsTrans α le] [Std.Total le]
  [DecidablePred comparable]

/-- The sort that leaves elements that compare as equal, and lists whose elements do not all
compare, in the order of an arrangement. -/
def stable (hle : ∀ a b, comparable a → comparable b → le a b → cmp a b ≠ .gt)
    (order : Arrangement α) : UnstableSort cmp comparable where
  run l := if ∀ a ∈ l, comparable a then (order.run l).insertionSort le else order.run l
  perm l := by
    split
    · exact (List.perm_insertionSort le _).trans (order.perm l)
    · exact order.perm l
  sorted l hl := by
    rw [if_pos hl]
    have hsorted := List.pairwise_insertionSort le (order.run l)
    refine hsorted.imp_of_mem (fun {a b} ha hb hab => hle a b (hl a ?_) (hl b ?_) hab)
    · exact order.mem_run.mp ((List.mem_insertionSort le).mp ha)
    · exact order.mem_run.mp ((List.mem_insertionSort le).mp hb)

variable {le}

/-- **Some sort has an element among the first `n`** if fewer than `n` belong before it: the one
that puts it before all that compare as equal. -/
theorem mem_take_stable [DecidableEq α]
    (hle : ∀ a b, comparable a → comparable b → (le a b ↔ cmp a b ≠ .gt)) {l : List α}
    (hl : ∀ a ∈ l, comparable a) {n : Nat} {a : α} (ha : a ∈ l)
    (hbefore : belonging cmp l a < n) :
    a ∈ ((stable le (fun a b ha hb => (hle a b ha hb).mp) (.first (fun c => c = a)) :
      UnstableSort cmp comparable).run l).take n := by
  have hperm := (Arrangement.first (fun c => c = a)).perm l
  obtain ⟨rest, hrest⟩ : ∃ rest, (Arrangement.first (fun c => c = a)).run l = a :: rest := by
    obtain ⟨k, hk⟩ := Nat.exists_eq_succ_of_ne_zero (List.count_pos_iff.mpr ha).ne'
    refine ⟨List.replicate k a ++ l.filter (fun c => !decide (c = a)), ?_⟩
    show l.filter (fun c => c = a) ++ _ = _
    rw [List.filter_eq, hk, List.replicate_succ, List.cons_append]
  rw [hrest] at hperm
  rw [stable]
  simp only [if_pos hl, hrest, List.insertionSort_cons, List.orderedInsert_eq_take_drop]
  -- before it stand only elements that belong before it
  generalize hsort : rest.insertionSort le = sorted
  have hmem : ∀ c ∈ sorted, c ∈ l := by
    intro c hc
    rw [← hsort, List.mem_insertionSort] at hc
    exact hperm.mem_iff.mp (List.mem_cons_of_mem a hc)
  have hshort : (sorted.takeWhile (fun b => ¬ le a b)).length ≤ belonging cmp l a := by
    have hall : sorted.takeWhile (fun b => ¬ le a b)
        = (sorted.takeWhile (fun b => ¬ le a b)).filter (fun c => cmp a c = .gt) := by
      refine (List.filter_eq_self.mpr (fun c hc => ?_)).symm
      have hnot : ¬ le a c := by simpa using List.mem_takeWhile_imp hc
      have hcl := hmem c ((List.takeWhile_sublist _).subset hc)
      simpa [hle a c (hl a ha) (hl c hcl)] using hnot
    have hsub : ((sorted.takeWhile (fun b => ¬ le a b)).filter (fun c => cmp a c = .gt)).length
        ≤ (sorted.filter (fun c => cmp a c = .gt)).length :=
      ((List.takeWhile_sublist _).filter _).length_le
    have hrest' : (sorted.filter (fun c => cmp a c = .gt)).length
        ≤ (l.filter (fun c => cmp a c = .gt)).length := by
      rw [← hsort, ((List.perm_insertionSort le _).filter _).length_eq,
        ← (hperm.filter _).length_eq]
      exact ((List.sublist_cons_self a rest).filter _).length_le
    rw [hall]
    exact hsub.trans hrest'
  rw [List.take_append]
  have hpos : 0 < n - (sorted.takeWhile (fun b => ¬ le a b)).length := by omega
  obtain ⟨k, hk⟩ := Nat.exists_eq_succ_of_ne_zero hpos.ne'
  rw [hk, List.take_succ_cons]
  exact List.mem_append_right _ List.mem_cons_self

/-- Of two elements that compare as equal, some sort puts the first before the second. -/
theorem pair_sublist_stable [DecidableEq α]
    (hle : ∀ a b, comparable a → comparable b → le a b → cmp a b ≠ .gt) {l : List α}
    (hl : ∀ a ∈ l, comparable a) {a b : α} (ha : a ∈ l) (hb : b ∈ l) (hne : a ≠ b)
    (hab : le a b) :
    [a, b].Sublist ((stable le hle (.first (fun c => c = a))).run l) := by
  have hfirst : [a, b].Sublist ((Arrangement.first (fun c => c = a)).run l) := by
    have hleft : [a].Sublist (l.filter (fun c => c = a)) :=
      List.singleton_sublist.mpr (List.mem_filter.mpr ⟨ha, by simp⟩)
    have hright : [b].Sublist (l.filter (fun c => !decide (c = a))) :=
      List.singleton_sublist.mpr (List.mem_filter.mpr ⟨hb, by simpa using hne.symm⟩)
    exact hleft.append hright
  rw [stable]
  simp only [if_pos hl]
  exact List.pair_sublist_insertionSort hab hfirst

/-- A relation that holds between an element and all of a list holds where it is inserted, between
those that compare as equal. -/
theorem pairwise_orderedInsert {S : α → α → Prop} {a : α} : ∀ {l : List α},
    (∀ c ∈ l, S a c) → l.Pairwise (fun x y => le x y ∧ (le y x → S x y)) →
      (l.orderedInsert le a).Pairwise (fun x y => le x y ∧ (le y x → S x y))
  | [], _, _ => List.pairwise_singleton _ _
  | b :: l, ha, hl => by
    obtain ⟨hb, hl⟩ := List.pairwise_cons.mp hl
    by_cases hab : le a b
    · rw [List.orderedInsert_cons_of_le le l hab]
      refine List.pairwise_cons.mpr ⟨fun c hc => ?_, List.pairwise_cons.mpr ⟨hb, hl⟩⟩
      refine ⟨?_, fun _ => ha c hc⟩
      rcases List.mem_cons.mp hc with rfl | hc
      · exact hab
      · exact IsTrans.trans _ _ _ hab (hb c hc).1
    · rw [List.orderedInsert_of_not_le le l hab]
      have hrest := pairwise_orderedInsert (fun c hc => ha c (List.mem_cons_of_mem _ hc)) hl
      refine List.pairwise_cons.mpr ⟨fun c hc => ?_, hrest⟩
      rcases (List.mem_orderedInsert le).mp hc with rfl | hc
      · exact ⟨(Std.Total.total c b).resolve_left hab, fun hcb => absurd hcb hab⟩
      · exact hb c hc

/-- **A stable sort** keeps what holds of the order in which elements that compare as equal came
in. -/
theorem pairwise_insertionSort_stable {S : α → α → Prop} : ∀ {l : List α}, l.Pairwise S →
    (l.insertionSort le).Pairwise (fun x y => le x y ∧ (le y x → S x y))
  | [], _ => List.Pairwise.nil
  | a :: l, h => by
    obtain ⟨ha, hl⟩ := List.pairwise_cons.mp h
    rw [List.insertionSort_cons]
    exact pairwise_orderedInsert (fun c hc => ha c ((List.mem_insertionSort le).mp hc))
      (pairwise_insertionSort_stable hl)

end Stable

end UnstableSort

/-- In an ordered list an element that does not belong behind another stands before it. -/
theorem List.Pairwise.pair_sublist {R : α → α → Prop} {a b : α} : ∀ {l : List α}, l.Pairwise R →
    a ∈ l → b ∈ l → a ≠ b → ¬ R b a → [a, b].Sublist l
  | c :: l, h, ha, hb, hne, hnot => by
    obtain ⟨hc, hl⟩ := List.pairwise_cons.mp h
    rcases List.mem_cons.mp ha with rfl | hal
    · have hbl := (List.mem_cons.mp hb).resolve_left hne.symm
      exact (List.singleton_sublist.mpr hbl).cons_cons a
    · rcases List.mem_cons.mp hb with rfl | hbl
      · exact absurd (hc a hal) hnot
      · exact (pair_sublist hl hal hbl hne hnot).cons c
