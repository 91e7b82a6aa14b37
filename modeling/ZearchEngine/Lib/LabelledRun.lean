/-
# Runs of a deterministic labelled system

A system is a total function `step : σ → α → σ`.  A label is whatever chooses the next step:
a request to a single-threaded component, or the scheduler's choice of a thread.  A label that
cannot fire is a step that changes nothing, so that every list of labels is a run.

Three rules carry the inductions of the developments built on it.

* `run_inv`: an invariant kept by every step holds at the end of every run.
* `Along.inv`: an invariant kept by every step that meets a condition holds at the end of
  every run all of whose steps meet it.
* `Along.ghost`: the same for an invariant relating the state to a ghost value that the labels
  alone determine, such as everything a client has submitted so far.
-/
import Mathlib.Data.List.Basic

namespace LabelledRun

variable {σ α β : Type*} (step : σ → α → σ)

/-- The state after the labels of `as`, in order. -/
def run (s : σ) (as : List α) : σ := as.foldl step s

@[simp] theorem run_nil (s : σ) : run step s [] = s := rfl

@[simp] theorem run_cons (s : σ) (a : α) (as : List α) :
    run step s (a :: as) = run step (step s a) as := rfl

theorem run_append (s : σ) (as bs : List α) :
    run step s (as ++ bs) = run step (run step s as) bs :=
  List.foldl_append

/-- Every step of the run from `s` meets `P`, in the state it is taken from. -/
def Along (P : σ → α → Prop) : σ → List α → Prop
  | _, [] => True
  | s, a :: as => P s a ∧ Along P (step s a) as

/-- Whether a run meets a decidable condition can be computed. -/
instance decidableAlong (P : σ → α → Prop) [∀ s a, Decidable (P s a)] :
    ∀ (as : List α) (s : σ), Decidable (Along step P s as)
  | [], _ => isTrue trivial
  | a :: as, s =>
    @instDecidableAnd _ _ inferInstance (decidableAlong P as (step s a))

variable {step}

/-- **The invariant rule.** -/
theorem run_inv {I : σ → Prop} (hstep : ∀ s a, I s → I (step s a)) :
    ∀ (as : List α) (s : σ), I s → I (run step s as) := by
  intro as
  induction as with
  | nil => exact fun _ hI => hI
  | cons a as ih =>
    intro s hI
    exact ih (step s a) (hstep s a hI)

/-- **The invariant rule, under a condition on the steps.** -/
theorem Along.inv {P : σ → α → Prop} {I : σ → Prop}
    (hstep : ∀ s a, I s → P s a → I (step s a)) :
    ∀ (as : List α) (s : σ), Along step P s as → I s → I (run step s as) := by
  intro as
  induction as with
  | nil => exact fun _ _ hI => hI
  | cons a as ih =>
    intro s h hI
    exact ih (step s a) h.2 (hstep s a hI h.1)

theorem along_append (P : σ → α → Prop) : ∀ (as bs : List α) (s : σ),
    Along step P s (as ++ bs) ↔ Along step P s as ∧ Along step P (run step s as) bs := by
  intro as bs
  induction as with
  | nil => simp [Along]
  | cons a as ih =>
    intro s
    simp [Along, ih, and_assoc]

/-- The condition restricted to the labels holds along every run over such labels. -/
theorem along_of_forall {Q : α → Prop} :
    ∀ (as : List α) (s : σ), (∀ a ∈ as, Q a) → Along step (fun _ a => Q a) s as := by
  intro as
  induction as with
  | nil => exact fun _ _ => trivial
  | cons a as ih =>
    intro s h
    exact ⟨h a List.mem_cons_self,
      ih (step s a) (fun b hb => h b (List.mem_cons_of_mem _ hb))⟩

/-- What holds before and after every step of a run when it holds in every state reached. -/
theorem along_of_take {I : σ → Prop} :
    ∀ (as : List α) (s : σ), (∀ k, I (run step s (as.take k))) →
      Along step (fun s a => I s ∧ I (step s a)) s as := by
  intro as
  induction as with
  | nil => exact fun _ _ => trivial
  | cons a as ih =>
    intro s h
    exact ⟨⟨h 0, h 1⟩, ih (step s a) (fun k => h (k + 1))⟩

theorem Along.imp {P Q : σ → α → Prop} (h : ∀ s a, P s a → Q s a) :
    ∀ (as : List α) (s : σ), Along step P s as → Along step Q s as := by
  intro as
  induction as with
  | nil => exact fun _ _ => trivial
  | cons a as ih =>
    intro s hP
    exact ⟨h s a hP.1, ih (step s a) hP.2⟩

/-- The first steps of a run meet what all its steps meet. -/
theorem Along.take {P : σ → α → Prop} {as : List α} {s : σ} (h : Along step P s as) (k : Nat) :
    Along step P s (as.take k) := by
  rw [← List.take_append_drop k as, along_append] at h
  exact h.1

/-- **The invariant rule with a ghost value.** -/
theorem Along.ghost {P : σ → α → Prop} {I : σ → β → Prop} (upd : β → α → β)
    (hstep : ∀ s a b, I s b → P s a → I (step s a) (upd b a)) :
    ∀ (as : List α) (s : σ) (b : β), Along step P s as → I s b →
      I (run step s as) (as.foldl upd b) := by
  intro as
  induction as with
  | nil => exact fun _ _ _ hI => hI
  | cons a as ih =>
    intro s b h hI
    exact ih (step s a) (upd b a) h.2 (hstep s a b hI h.1)

/-- Two conditions along a run. -/
theorem Along.and {P Q : σ → α → Prop} :
    ∀ (as : List α) (s : σ), Along step P s as → Along step Q s as →
      Along step (fun s a => P s a ∧ Q s a) s as := by
  intro as
  induction as with
  | nil => exact fun _ _ _ => trivial
  | cons a as ih =>
    intro s hP hQ
    exact ⟨⟨hP.1, hQ.1⟩, ih (step s a) hP.2 hQ.2⟩

end LabelledRun
