/-
# Independent components

A system of components, each a deterministic labelled system of its own.  A label of the whole
names the component that takes the step, so a list of such labels is an interleaving of runs of
the components.

* `run_apply`: each component ends where its own labels take it.
* `run_congr`: interleavings that give every component the same labels in the same order end in
  the same state.
* `run_perm`: steps of different components commute.
-/
import ZearchEngine.Lib.LabelledRun
import Mathlib.Data.List.Perm.Basic
import Mathlib.Data.List.Nodup

namespace Components

variable {ι σ α : Type*} [DecidableEq ι]

/-- The labels of one component, in their order. -/
def labelsOf (i : ι) (es : List (ι × α)) : List α :=
  (es.filter (fun e => e.1 = i)).map Prod.snd

@[simp] theorem labelsOf_nil (i : ι) : labelsOf i ([] : List (ι × α)) = [] := rfl

theorem labelsOf_cons_self (i : ι) (a : α) (es : List (ι × α)) :
    labelsOf i ((i, a) :: es) = a :: labelsOf i es := by
  simp [labelsOf]

theorem labelsOf_cons_of_ne {i : ι} {e : ι × α} (h : e.1 ≠ i) (es : List (ι × α)) :
    labelsOf i (e :: es) = labelsOf i es := by
  simp [labelsOf, h]

theorem labelsOf_append (i : ι) (es es' : List (ι × α)) :
    labelsOf i (es ++ es') = labelsOf i es ++ labelsOf i es' := by
  simp [labelsOf]

theorem mem_labelsOf {i : ι} {a : α} {es : List (ι × α)} : a ∈ labelsOf i es ↔ (i, a) ∈ es := by
  simp [labelsOf]

theorem labelsOf_perm {es es' : List (ι × α)} (h : es.Perm es') (i : ι) :
    (labelsOf i es).Perm (labelsOf i es') := (h.filter _).map _

theorem labelsOf_flatMap {β : Type*} (i : ι) (f : β → List (ι × α)) :
    ∀ bs : List β, labelsOf i (bs.flatMap f) = bs.flatMap (fun b => labelsOf i (f b))
  | [] => rfl
  | b :: bs => by
    rw [List.flatMap_cons, labelsOf_append, labelsOf_flatMap i f bs, List.flatMap_cons]

/-- One label for each of some components. -/
theorem labelsOf_map {is : List ι} (h : is.Nodup) (f : ι → α) (i : ι) :
    labelsOf i (is.map (fun j => (j, f j))) = if i ∈ is then [f i] else [] := by
  have hfilter : is.filter ((fun e : ι × α => decide (e.1 = i)) ∘ fun j => (j, f j))
      = List.replicate (is.count i) i := List.filter_eq i
  rw [labelsOf, List.filter_map, List.map_map, hfilter, h.count]
  split <;> rfl

/-- A component of which there is at most one label has it, wherever it stands. -/
theorem labelsOf_eq_of_perm {es es' : List (ι × α)} (h : es.Perm es')
    (hnodup : (es.map Prod.fst).Nodup) (i : ι) : labelsOf i es = labelsOf i es' := by
  have hlength : (labelsOf i es).length ≤ 1 := by
    have hcount : (es.map Prod.fst).count i ≤ 1 := List.nodup_iff_count_le_one.mp hnodup i
    rw [List.count_eq_countP, List.countP_map, List.countP_eq_length_filter] at hcount
    rw [labelsOf, List.length_map]
    exact hcount
  have hperm := labelsOf_perm h i
  match hes : labelsOf i es with
  | [] =>
    rw [hes] at hperm
    exact hperm.nil_eq
  | [a] =>
    rw [hes] at hperm
    exact (List.perm_singleton.mp hperm.symm).symm
  | a :: b :: rest =>
    rw [hes] at hlength
    exact absurd hlength (by simp)

theorem flatMap_ite_eq (j : ι) (a : α) : ∀ is : List ι,
    is.flatMap (fun i => if i = j then [a] else []) = List.replicate (is.count j) a
  | [] => rfl
  | i :: is => by
    rw [List.flatMap_cons, flatMap_ite_eq j a is, List.count_cons]
    by_cases hi : i = j
    · simp [hi, List.replicate_succ]
    · simp [hi]

/-- **The labels of all components** are all labels. -/
theorem flatMap_labelsOf_perm {is : List ι} (h : is.Nodup) :
    ∀ {es : List (ι × α)}, (∀ e ∈ es, e.1 ∈ is) →
      (is.flatMap (fun i => labelsOf i es)).Perm (es.map Prod.snd)
  | [], _ => by simp
  | (j, a) :: es, hes => by
    have hcons : ∀ i, labelsOf i ((j, a) :: es) = (if i = j then [a] else []) ++ labelsOf i es := by
      intro i
      by_cases hi : i = j
      · subst hi
        rw [labelsOf_cons_self, if_pos rfl]
        rfl
      · rw [labelsOf_cons_of_ne (e := (j, a)) (Ne.symm hi), if_neg hi]
        rfl
    have hhead : is.flatMap (fun i => if i = j then [a] else []) = [a] := by
      have hcount : is.count j = 1 :=
        List.count_eq_one_of_mem h (hes (j, a) List.mem_cons_self)
      rw [flatMap_ite_eq, hcount]
      rfl
    have ih := flatMap_labelsOf_perm h (fun e he => hes e (List.mem_cons_of_mem _ he))
    simp only [hcons]
    refine (List.flatMap_append_perm is _ _).symm.trans ?_
    rw [hhead]
    exact ih.cons a

variable (step : σ → α → σ)

/-- One component takes a step. -/
def componentStep (s : ι → σ) (e : ι × α) : ι → σ :=
  Function.update s e.1 (step (s e.1) e.2)

/-- **Each component runs on its own.** -/
theorem run_apply (i : ι) : ∀ (es : List (ι × α)) (s : ι → σ),
    LabelledRun.run (componentStep step) s es i = LabelledRun.run step (s i) (labelsOf i es)
  | [], _ => rfl
  | (j, a) :: es, s => by
    rw [LabelledRun.run_cons, run_apply i es]
    by_cases h : j = i
    · subst h
      rw [labelsOf_cons_self, LabelledRun.run_cons, componentStep, Function.update_self]
    · rw [labelsOf_cons_of_ne (e := (j, a)) h, componentStep, Function.update_of_ne (Ne.symm h)]

variable {step}

/-- **Only the order within a component matters.** -/
theorem run_congr {es es' : List (ι × α)} (h : ∀ i, labelsOf i es = labelsOf i es') (s : ι → σ) :
    LabelledRun.run (componentStep step) s es = LabelledRun.run (componentStep step) s es' := by
  funext i
  rw [run_apply, run_apply, h i]

/-- **Steps of different components commute.** -/
theorem run_perm {es es' : List (ι × α)} (h : es.Perm es') (hnodup : (es.map Prod.fst).Nodup)
    (s : ι → σ) :
    LabelledRun.run (componentStep step) s es = LabelledRun.run (componentStep step) s es' :=
  run_congr (labelsOf_eq_of_perm h hnodup) s

end Components
