/-
# Crash points of a sequence of effects

An operation is carried out as a sequence of effects on durable state.  A crash stops it
between two effects, or in the middle of one, which then may have been carried out in part
(`tear`).  `CrashPoint.state` is what is found afterwards.

* `CrashPoint.inv`: what the effects carried out preserve, and the torn one too, holds at the
  crash point;
* `CrashPoint.append_cases`: a crash inside `es ++ fs` is a crash inside `es` or, after all of
  `es`, one inside `fs`.
-/
import Mathlib.Data.List.Basic

variable {σ ε : Type*}

/-- A place where a sequence of effects may stop: the effects carried out, the rest, and
whether the next one had begun. -/
structure CrashPoint (effects : List ε) where
  done : List ε
  rest : List ε
  split : effects = done ++ rest
  torn : Bool

namespace CrashPoint

/-- A crash after `n` effects, or in the middle of the next one. -/
def after (effects : List ε) (n : Nat) (torn : Bool) : CrashPoint effects where
  done := effects.take n
  rest := effects.drop n
  split := (List.take_append_drop n effects).symm
  torn := torn

variable (apply tear : σ → ε → σ)

/-- The state found after a crash at `p`, of a sequence begun in `s`. -/
def state {effects : List ε} (p : CrashPoint effects) (s : σ) : σ :=
  match p.torn, p.rest with
  | true, e :: _ => tear (p.done.foldl apply s) e
  | _, _ => p.done.foldl apply s

variable {apply tear}

theorem foldl_inv {I : σ → Prop} : ∀ (es : List ε) (s : σ),
    (∀ s, ∀ e ∈ es, I s → I (apply s e)) → I s → I (es.foldl apply s)
  | [], _, _, hI => hI
  | e :: es, s, h, hI =>
    foldl_inv es (apply s e) (fun s f hf => h s f (List.mem_cons_of_mem _ hf))
      (h s e List.mem_cons_self hI)

/-- **What the effects carried out preserve, and a torn one too, holds at the crash point.** -/
theorem inv {effects : List ε} {I : σ → Prop} (p : CrashPoint effects)
    (happly : ∀ s, ∀ e ∈ p.done, I s → I (apply s e))
    (htear : ∀ s, ∀ e ∈ effects, I s → I (tear s e)) {s : σ} (hI : I s) :
    I (p.state apply tear s) := by
  have hdone : I (p.done.foldl apply s) := foldl_inv p.done s happly hI
  unfold state
  split
  · next e es _ hrest =>
    refine htear _ e ?_ hdone
    rw [p.split, hrest]
    exact List.mem_append_right _ List.mem_cons_self
  · exact hdone

/-- Until all of `es ++ [e]` is done, only effects of `es` are. -/
theorem mem_of_mem_done {es : List ε} {e : ε} (p : CrashPoint (es ++ [e]))
    (h : p.done ≠ es ++ [e]) : ∀ x ∈ p.done, x ∈ es := by
  intro x hx
  rcases List.eq_nil_or_concat p.rest with hrest | ⟨rest, last, hrest⟩
  · have hall := p.split
    rw [hrest, List.append_nil] at hall
    exact absurd hall.symm h
  · have hall := p.split
    rw [hrest, List.concat_eq_append, ← List.append_assoc] at hall
    obtain ⟨hes, -⟩ := List.append_inj' hall rfl
    rw [hes]
    exact List.mem_append_left _ hx

/-- **A crash inside `es ++ fs`** is one inside `es`, or one inside `fs` after all of `es`. -/
theorem append_cases {es fs : List ε} (p : CrashPoint (es ++ fs)) (apply tear : σ → ε → σ) :
    (∃ q : CrashPoint es, q.done = p.done ∧ q.done ≠ es ∧
      ∀ s : σ, p.state apply tear s = q.state apply tear s) ∨
    (∃ q : CrashPoint fs, p.done = es ++ q.done ∧
      ∀ s : σ, p.state apply tear s = q.state apply tear (es.foldl apply s)) := by
  obtain ⟨done, rest, hsplit, torn⟩ := p
  rcases List.append_eq_append_iff.mp hsplit with ⟨mid, hdone, hfs⟩ | ⟨mid, hes, hrest⟩
  · refine Or.inr ⟨⟨mid, rest, hfs, torn⟩, hdone, fun s => ?_⟩
    subst hdone
    simp only [state, List.foldl_append]
  · cases mid with
    | nil =>
      refine Or.inr ⟨⟨[], fs, rfl, torn⟩, by simpa using hes.symm, fun s => ?_⟩
      have hdone : done = es := by simpa using hes.symm
      have hrest' : rest = fs := by simpa using hrest
      subst hdone hrest'
      rfl
    | cons e mid =>
      refine Or.inl ⟨⟨done, e :: mid, hes, torn⟩, rfl, ?_, fun s => ?_⟩
      · intro h
        rw [← h] at hes
        simp at hes
      · subst hrest
        cases torn <;> rfl

/-- When no effect can be torn, a crash leaves what was done. -/
theorem state_of_atomic {effects : List ε} (p : CrashPoint effects)
    (h : ∀ s, ∀ e ∈ effects, tear s e = s) (s : σ) :
    p.state apply tear s = p.done.foldl apply s := by
  unfold state
  split
  · next e es _ hrest =>
    refine h _ e ?_
    rw [p.split, hrest]
    exact List.mem_append_right _ List.mem_cons_self
  · rfl

/-- A single effect is done or not. -/
theorem done_singleton {e : ε} (p : CrashPoint [e]) : p.done = [] ∨ p.done = [e] := by
  obtain ⟨done, rest, hsplit, torn⟩ := p
  cases done with
  | nil => exact Or.inl rfl
  | cons f done =>
    obtain ⟨rfl, hnil⟩ := List.cons.inj hsplit
    obtain ⟨rfl, rfl⟩ := List.append_eq_nil_iff.mp hnil.symm
    exact Or.inr rfl

/-- A crash of nothing. -/
theorem of_eq_nil {effects : List ε} (p : CrashPoint effects) (h : effects = []) :
    p.done = [] ∧ ∀ s : σ, p.state apply tear s = s := by
  subst h
  have hdone : p.done = [] := (List.append_eq_nil_iff.mp p.split.symm).1
  refine ⟨hdone, fun s => ?_⟩
  rw [p.state_of_atomic (fun _ _ he => absurd he List.not_mem_nil), hdone, List.foldl_nil]

end CrashPoint
