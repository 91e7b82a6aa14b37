/-
# Edit distance

An edit inserts, deletes or substitutes one element of a list; `Edits n a b` says that `n` of them
lead from `a` to `b`.  `distance` is the recursion that looks at the first elements only and takes
the rest for free where these are equal.

**The recursion gives the least number of edits** (`isLeast_distance`).  Edits happen anywhere and
in any order; an alignment has them in the order of the places, each place touched once.  A
sequence of edits is no shorter than some alignment, since alignments compose (`Align.trans`), and
the same fact says that skipping an equal first element costs nothing.
-/
import Mathlib

namespace EditScript

variable {α : Type}

/-! ## 1. Edits -/

/-- One insertion, deletion or substitution, somewhere. -/
inductive Edit : List α → List α → Prop
  | insert (pre post : List α) (d : α) : Edit (pre ++ post) (pre ++ d :: post)
  | delete (pre post : List α) (c : α) : Edit (pre ++ c :: post) (pre ++ post)
  | substitute (pre post : List α) (c d : α) : Edit (pre ++ c :: post) (pre ++ d :: post)

/-- `n` edits, one after another. -/
inductive Edits : Nat → List α → List α → Prop
  | refl (a : List α) : Edits 0 a a
  | step {n : Nat} {a b c : List α} (h : Edit a b) (hs : Edits n b c) : Edits (n + 1) a c

theorem Edits.trans {n m : Nat} {a b c : List α} (h : Edits n a b) (h' : Edits m b c) :
    Edits (n + m) a c := by
  induction h with
  | refl a => simpa using h'
  | step hedit _ ih =>
    rw [Nat.add_right_comm]
    exact .step hedit (ih h')

theorem Edit.single {a b : List α} (h : Edit a b) : Edits 1 a b := .step h (.refl b)

theorem Edit.symm {a b : List α} (h : Edit a b) : Edit b a := by
  cases h with
  | insert pre post d => exact .delete pre post d
  | delete pre post c => exact .insert pre post c
  | substitute pre post c d => exact .substitute pre post d c

theorem Edits.symm {n : Nat} {a b : List α} (h : Edits n a b) : Edits n b a := by
  induction h with
  | refl a => exact .refl a
  | step hedit _ ih => exact ih.trans hedit.symm.single

theorem Edit.cons {a b : List α} (x : α) (h : Edit a b) : Edit (x :: a) (x :: b) := by
  cases h with
  | insert pre post d => exact .insert (x :: pre) post d
  | delete pre post c => exact .delete (x :: pre) post c
  | substitute pre post c d => exact .substitute (x :: pre) post c d

theorem Edits.cons {n : Nat} {a b : List α} (x : α) (h : Edits n a b) :
    Edits n (x :: a) (x :: b) := by
  induction h with
  | refl a => exact .refl _
  | step hedit _ ih => exact .step (hedit.cons x) ih

/-- Edits can be read from the other end. -/
theorem Edit.reverse {a b : List α} (h : Edit a b) : Edit a.reverse b.reverse := by
  cases h with
  | insert pre post d => simpa using Edit.insert post.reverse pre.reverse d
  | delete pre post c => simpa using Edit.delete post.reverse pre.reverse c
  | substitute pre post c d => simpa using Edit.substitute post.reverse pre.reverse c d

theorem Edits.reverse {n : Nat} {a b : List α} (h : Edits n a b) :
    Edits n a.reverse b.reverse := by
  induction h with
  | refl a => exact .refl _
  | step hedit _ ih => exact .step hedit.reverse ih

theorem edits_zero_iff {a b : List α} : Edits 0 a b ↔ a = b := by
  constructor
  · intro h
    cases h
    rfl
  · rintro rfl
    exact .refl a

/-! ## 2. Alignments -/

/-- Edits in the order of the places, each place touched at most once. -/
inductive Align : Nat → List α → List α → Prop
  | nil : Align 0 [] []
  | keep {n : Nat} {a b : List α} (c : α) (h : Align n a b) : Align n (c :: a) (c :: b)
  | delete {n : Nat} {a b : List α} (c : α) (h : Align n a b) : Align (n + 1) (c :: a) b
  | insert {n : Nat} {a b : List α} (d : α) (h : Align n a b) : Align (n + 1) a (d :: b)
  | substitute {n : Nat} {a b : List α} (c d : α) (h : Align n a b) :
      Align (n + 1) (c :: a) (d :: b)

theorem Align.refl (a : List α) : Align 0 a a := by
  induction a with
  | nil => exact .nil
  | cons c a ih => exact .keep c ih

theorem Align.append {n : Nat} {a b : List α} (pre : List α) (h : Align n a b) :
    Align n (pre ++ a) (pre ++ b) := by
  induction pre with
  | nil => exact h
  | cons c pre ih => exact .keep c ih

/-- An alignment is a sequence of edits. -/
theorem Align.edits {n : Nat} {a b : List α} (h : Align n a b) : Edits n a b := by
  induction h with
  | nil => exact .refl []
  | keep c _ ih => exact ih.cons c
  | delete c _ ih => exact .step (.delete [] _ c) ih
  | insert d _ ih => exact ih.trans (Edit.insert [] _ d).single
  | substitute c d _ ih => exact .step (.substitute [] _ c d) (ih.cons d)

theorem Edit.align {a b : List α} (h : Edit a b) : Align 1 a b := by
  cases h with
  | insert pre post d => exact (Align.insert d (.refl post)).append pre
  | delete pre post c => exact (Align.delete c (.refl post)).append pre
  | substitute pre post c d => exact (Align.substitute c d (.refl post)).append pre

theorem Align.inserts {n : Nat} {a b : List α} (ds : List α) (h : Align n a b) :
    Align (n + ds.length) a (ds ++ b) := by
  induction ds with
  | nil => exact h
  | cons d ds ih => exact .insert d ih

theorem align_nil (a : List α) : Align a.length a [] := by
  induction a with
  | nil => exact .nil
  | cons c a ih => exact .delete c ih

/-- The lengths are no further apart than the edits. -/
theorem Align.length_le {n : Nat} {a b : List α} (h : Align n a b) :
    a.length ≤ b.length + n ∧ b.length ≤ a.length + n := by
  induction h with
  | nil => simp
  | keep c _ ih | delete c _ ih | insert d _ ih | substitute c d _ ih =>
    simp only [List.length_cons]
    omega

/-- An element is dropped or becomes another. -/
theorem Align.replace {n : Nat} {a b : List α} (c : α) (o : Option α) (h : Align n a b) :
    Align (n + 1) (c :: a) (o.toList ++ b) := by
  cases o with
  | none => exact .delete c h
  | some d => exact .substitute c d h

/-- What an alignment does to the first element: some elements come before it, and it is dropped,
becomes another or is kept. -/
theorem Align.uncons {m : Nat} {x : α} {b c : List α} (h : Align m (x :: b) c) :
    ∃ (ds : List α) (o : Option α) (c' : List α) (k : Nat), c = ds ++ (o.toList ++ c') ∧
      Align k b c' ∧ (k + 1 + ds.length ≤ m ∨ o = some x ∧ k + ds.length ≤ m) := by
  generalize hb : x :: b = b' at h
  induction h with
  | nil => cases hb
  | @keep k _ c y h _ =>
    cases hb
    exact ⟨[], some x, c, k, rfl, h, .inr ⟨rfl, Nat.le_refl _⟩⟩
  | @delete k _ c y h _ =>
    cases hb
    exact ⟨[], none, c, k, rfl, h, .inl (Nat.le_refl _)⟩
  | insert d _ ih =>
    obtain ⟨ds, o, c', k, rfl, h, hle⟩ := ih hb
    refine ⟨d :: ds, o, c', k, rfl, h, hle.imp ?_ (And.imp_right ?_)⟩
    · simp only [List.length_cons]
      omega
    · simp only [List.length_cons]
      omega
  | @substitute k _ c y d h _ =>
    cases hb
    exact ⟨[], some d, c, k, rfl, h, .inl (Nat.le_refl _)⟩

/-- **Alignments compose.**  What the second does with an element that the first has inserted or
substituted is done at once, and an element that comes and goes is left out. -/
theorem Align.trans {n m : Nat} {a b c : List α} (h : Align n a b) (h' : Align m b c) :
    ∃ k ≤ n + m, Align k a c := by
  induction h generalizing m c with
  | nil => exact ⟨m, by omega, h'⟩
  | delete x _ ih =>
    obtain ⟨k, hk, h⟩ := ih h'
    exact ⟨k + 1, by omega, .delete x h⟩
  | keep x _ ih =>
    obtain ⟨ds, o, c', j, rfl, hrest, hle⟩ := h'.uncons
    obtain ⟨k, hk, h⟩ := ih hrest
    rcases hle with hle | ⟨rfl, hle⟩
    · exact ⟨_, by omega, (h.replace x o).inserts ds⟩
    · exact ⟨_, by omega, (Align.keep x h).inserts ds⟩
  | insert x _ ih =>
    obtain ⟨ds, o, c', j, rfl, hrest, hle⟩ := h'.uncons
    obtain ⟨k, hk, h⟩ := ih hrest
    have hlen : o.toList.length ≤ 1 := by cases o <;> simp
    exact ⟨_, by omega, (h.inserts o.toList).inserts ds⟩
  | substitute w x _ ih =>
    obtain ⟨ds, o, c', j, rfl, hrest, hle⟩ := h'.uncons
    obtain ⟨k, hk, h⟩ := ih hrest
    exact ⟨_, by omega, (h.replace w o).inserts ds⟩

/-- A sequence of edits is no shorter than an alignment. -/
theorem Edits.align {n : Nat} {a b : List α} (h : Edits n a b) : ∃ k ≤ n, Align k a b := by
  induction h with
  | refl a => exact ⟨0, Nat.le_refl 0, .refl a⟩
  | step hedit _ ih =>
    obtain ⟨k, hk, halign⟩ := ih
    obtain ⟨k', hk', halign'⟩ := hedit.align.trans halign
    exact ⟨k', by omega, halign'⟩

/-! ## 3. The recursion -/

variable [DecidableEq α]

/-- Nothing is charged for equal first elements. -/
def distance : List α → List α → Nat
  | [], b => b.length
  | a, [] => a.length
  | c :: a, d :: b =>
    if c = d then distance a b
    else 1 + min (min (distance a (d :: b)) (distance (c :: a) b)) (distance a b)

@[simp] theorem distance_nil_left (b : List α) : distance [] b = b.length := by
  rw [distance]

@[simp] theorem distance_nil_right (a : List α) : distance a [] = a.length := by
  cases a with
  | nil => rw [distance]
  | cons c a => rw [distance]; simp

/-- The recursion is the length of an alignment. -/
theorem align_distance (a b : List α) : Align (distance a b) a b := by
  induction a, b using distance.induct with
  | case1 b =>
    simpa using (Align.nil (α := α)).inserts b
  | case2 a _ =>
    rw [distance_nil_right]
    exact align_nil a
  | case3 a d b ih =>
    rw [distance, if_pos rfl]
    exact .keep d ih
  | case4 c a d b hne ihDelete ihInsert ihSubstitute =>
    rw [distance, if_neg hne, Nat.add_comm]
    rcases min_choice (min (distance a (d :: b)) (distance (c :: a) b)) (distance a b) with h | h
    · rcases min_choice (distance a (d :: b)) (distance (c :: a) b) with h' | h'
      · rw [h, h']
        exact .delete c ihDelete
      · rw [h, h']
        exact .insert d ihInsert
    · rw [h]
      exact .substitute c d ihSubstitute

/-- No alignment is shorter.  Where the first elements are equal and an alignment does not keep
them, undoing what it does to one of them gives an alignment of the rests. -/
theorem distance_le_of_align {n : Nat} {a b : List α} (h : Align n a b) : distance a b ≤ n := by
  induction a, b using distance.induct generalizing n with
  | case1 b => simpa using h.length_le.2
  | case2 a _ => simpa using h.length_le.1
  | case3 a d b ih =>
    rw [distance, if_pos rfl]
    cases h with
    | keep _ h => exact ih h
    | delete _ h =>
      obtain ⟨k, hk, h'⟩ := h.trans (Align.delete d (.refl b))
      exact (ih h').trans (by omega)
    | insert _ h =>
      obtain ⟨k, hk, h'⟩ := (Align.insert d (.refl a)).trans h
      exact (ih h').trans (by omega)
    | substitute _ _ h => exact (ih h).trans (Nat.le_succ _)
  | case4 c a d b hne ihDelete ihInsert ihSubstitute =>
    rw [distance, if_neg hne]
    cases h with
    | keep _ _ => exact absurd rfl hne
    | delete _ h =>
      have := ihDelete h
      omega
    | insert _ h =>
      have := ihInsert h
      omega
    | substitute _ _ h =>
      have := ihSubstitute h
      omega

/-! ## 4. The least number of edits -/

/-- **The recursion gives the least number of edits** that lead from one list to the other. -/
theorem isLeast_distance (a b : List α) : IsLeast {n | Edits n a b} (distance a b) := by
  refine ⟨(align_distance a b).edits, fun n hn => ?_⟩
  obtain ⟨k, hk, h⟩ := Edits.align hn
  exact (distance_le_of_align h).trans hk

theorem edits_distance (a b : List α) : Edits (distance a b) a b := (isLeast_distance a b).1

theorem distance_le_of_edits {n : Nat} {a b : List α} (h : Edits n a b) : distance a b ≤ n :=
  (isLeast_distance a b).2 h

theorem distance_eq_zero_iff {a b : List α} : distance a b = 0 ↔ a = b := by
  constructor
  · intro h
    exact edits_zero_iff.mp (h ▸ edits_distance a b)
  · intro h
    exact Nat.le_zero.mp (distance_le_of_edits (edits_zero_iff.mpr h))

theorem distance_comm (a b : List α) : distance a b = distance b a :=
  le_antisymm (distance_le_of_edits (edits_distance b a).symm)
    (distance_le_of_edits (edits_distance a b).symm)

theorem distance_triangle (a b c : List α) : distance a c ≤ distance a b + distance b c :=
  distance_le_of_edits ((edits_distance a b).trans (edits_distance b c))

/-- The recursion may start at either end. -/
theorem distance_reverse (a b : List α) : distance a.reverse b.reverse = distance a b := by
  refine le_antisymm (distance_le_of_edits (edits_distance a b).reverse) ?_
  have h := (edits_distance a.reverse b.reverse).reverse
  rw [List.reverse_reverse, List.reverse_reverse] at h
  exact distance_le_of_edits h

end EditScript
