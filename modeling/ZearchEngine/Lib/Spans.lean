/-
# Spans between offsets

A list whose elements are of different widths, addressed by offsets, as the characters of a text
are by bytes.  `slice a b` is what stands between two offsets; there is no slice if one of them
is inside an element, or if they are in the wrong order (`slice_eq_some_iff`).

Trimming a list keeps what stands from the first element with a property to the last one.  Its
span can be found by a search from each end (`firstIndex_eq`, `lastEnd_eq`), and every element
with the property is inside it (`Trims.covers`).
-/
import Mathlib

namespace Spans

variable {α : Type} (width : α → Nat)

/-! ## 1. Offsets -/

/-- How wide a list is. -/
def size (l : List α) : Nat := (l.map width).sum

/-- The elements with the offsets where they start; the list starts at `o`. -/
def indices (o : Nat) : List α → List (Nat × α)
  | [] => []
  | x :: l => (o, x) :: indices (o + width x) l

/-- What stands before an offset and after it; none if the offset is inside an element or
behind the list. -/
def splitAt : Nat → List α → Option (List α × List α)
  | 0, l => some ([], l)
  | _ + 1, [] => none
  | n + 1, x :: l =>
    if width x ≤ n + 1 then (splitAt (n + 1 - width x) l).map (fun s => (x :: s.1, s.2)) else none

/-- What stands between two offsets. -/
def slice (a b : Nat) (l : List α) : Option (List α) :=
  if a ≤ b then
    (splitAt width a l).bind (fun s => (splitAt width (b - a) s.2).map Prod.fst)
  else none

variable {width}

@[simp] theorem size_nil : size width [] = 0 := rfl

@[simp] theorem size_cons (x : α) (l : List α) : size width (x :: l) = width x + size width l := by
  simp [size]

@[simp] theorem size_append (l l' : List α) :
    size width (l ++ l') = size width l + size width l' := by
  simp [size]

theorem indices_append (o : Nat) (l l' : List α) :
    indices width o (l ++ l') = indices width o l ++ indices width (o + size width l) l' := by
  induction l generalizing o with
  | nil => simp [indices]
  | cons x l ih => simp [indices, ih, Nat.add_assoc]

theorem map_snd_indices (o : Nat) (l : List α) : (indices width o l).map Prod.snd = l := by
  induction l generalizing o with
  | nil => rfl
  | cons x l ih => simp [indices, ih]

/-- **The offset of an element** is the width of what stands before it. -/
theorem mem_indices_iff {o i : Nat} {x : α} {l : List α} :
    (i, x) ∈ indices width o l ↔ ∃ pre post, l = pre ++ x :: post ∧ i = o + size width pre := by
  constructor
  · intro h
    induction l generalizing o with
    | nil => cases h
    | cons y l ih =>
      rcases List.mem_cons.mp h with heq | hin
      · obtain ⟨rfl, rfl⟩ := Prod.mk.inj heq
        exact ⟨[], l, rfl, by simp⟩
      · obtain ⟨pre, post, rfl, rfl⟩ := ih hin
        exact ⟨y :: pre, post, rfl, by simp [Nat.add_assoc]⟩
  · rintro ⟨pre, post, rfl, rfl⟩
    rw [indices_append]
    exact List.mem_append_right _ List.mem_cons_self

/-! ## 2. Slices -/

section

variable (hwidth : ∀ x, 0 < width x)

include hwidth

theorem splitAt_cons {n : Nat} {x : α} {l : List α} (h : width x ≤ n) :
    splitAt width n (x :: l) = (splitAt width (n - width x) l).map (fun s => (x :: s.1, s.2)) := by
  cases n with
  | zero => exact absurd h (Nat.not_le.mpr (hwidth x))
  | succ n => rw [splitAt, if_pos h]

theorem splitAt_eq_some_iff {n : Nat} {l pre post : List α} :
    splitAt width n l = some (pre, post) ↔ l = pre ++ post ∧ size width pre = n := by
  constructor
  · intro h
    induction l generalizing n pre with
    | nil =>
      cases n with
      | zero =>
        cases h
        exact ⟨rfl, rfl⟩
      | succ n => cases h
    | cons x l ih =>
      cases n with
      | zero =>
        cases h
        exact ⟨rfl, rfl⟩
      | succ n =>
        rw [splitAt] at h
        split at h
        · next hle =>
          obtain ⟨⟨pre', post'⟩, hsplit, heq⟩ := Option.map_eq_some_iff.mp h
          obtain ⟨rfl, rfl⟩ := Prod.mk.inj heq
          obtain ⟨rfl, hsize⟩ := ih hsplit
          refine ⟨rfl, ?_⟩
          rw [size_cons, hsize]
          omega
        · cases h
  · rintro ⟨rfl, rfl⟩
    induction pre with
    | nil => simp [splitAt]
    | cons x pre ih =>
      rw [List.cons_append, splitAt_cons hwidth (by simp), size_cons, Nat.add_sub_cancel_left, ih]
      rfl

/-- **A slice** is what stands between two offsets that are between elements. -/
theorem slice_eq_some_iff {a b : Nat} {l mid : List α} :
    slice width a b l = some mid ↔
      ∃ pre post, l = pre ++ mid ++ post ∧ size width pre = a ∧ size width (pre ++ mid) = b := by
  rw [slice]
  constructor
  · intro h
    split at h
    · next hle =>
      obtain ⟨⟨pre, rest⟩, hpre, h⟩ := Option.bind_eq_some_iff.mp h
      obtain ⟨⟨mid', post⟩, hmid, rfl⟩ := Option.map_eq_some_iff.mp h
      obtain ⟨rfl, hsize⟩ := (splitAt_eq_some_iff hwidth).mp hpre
      obtain ⟨rfl, hsize'⟩ := (splitAt_eq_some_iff hwidth).mp hmid
      refine ⟨pre, post, (List.append_assoc _ _ _).symm, hsize, ?_⟩
      dsimp only
      rw [size_append, hsize, hsize', Nat.add_sub_of_le hle]
    · cases h
  · rintro ⟨pre, post, rfl, rfl, rfl⟩
    have hpre : splitAt width (size width pre) (pre ++ mid ++ post) = some (pre, mid ++ post) :=
      (splitAt_eq_some_iff hwidth).mpr ⟨List.append_assoc _ _ _, rfl⟩
    have hmid : splitAt width (size width mid) (mid ++ post) = some (mid, post) :=
      (splitAt_eq_some_iff hwidth).mpr ⟨rfl, rfl⟩
    rw [size_append, if_pos (Nat.le_add_right _ _), Nat.add_sub_cancel_left, hpre,
      Option.bind_some, hmid, Option.map_some]

/-- A slice of a slice. -/
theorem slice_slice {o : Nat} {l word pre mid post : List α}
    (h : slice width o (o + size width word) l = some word) (hword : word = pre ++ mid ++ post) :
    slice width (o + size width pre) (o + size width (pre ++ mid)) l = some mid := by
  obtain ⟨before, after, rfl, rfl, -⟩ := (slice_eq_some_iff hwidth).mp h
  refine (slice_eq_some_iff hwidth).mpr ⟨before ++ pre, post ++ after, ?_, ?_, ?_⟩
  · rw [hword]
    simp
  · rw [size_append]
  · rw [List.append_assoc, size_append]

end

/-! ## 3. Trimming -/

/-- `mid` is what stands from the first element with the property to the last one. -/
structure Trims (p : α → Bool) (l pre mid post : List α) : Prop where
  eq : l = pre ++ mid ++ post
  before : ∀ x ∈ pre, p x = false
  after : ∀ x ∈ post, p x = false
  head : ∃ x, mid.head? = some x ∧ p x = true
  last : ∃ x, mid.getLast? = some x ∧ p x = true

variable (width)

/-- The offset of the first element with the property. -/
def firstIndex (p : α → Bool) (l : List α) : Option Nat :=
  ((indices width 0 l).find? (fun e => p e.2)).map Prod.fst

/-- The offset behind the last element with the property. -/
def lastEnd (p : α → Bool) (l : List α) : Option Nat :=
  ((indices width 0 l).reverse.find? (fun e => p e.2)).map (fun e => e.1 + width e.2)

variable {width} {p : α → Bool} {l pre mid post : List α}

theorem exists_first (h : ∃ x ∈ l, p x = true) :
    ∃ pre x rest, l = pre ++ x :: rest ∧ (∀ y ∈ pre, p y = false) ∧ p x = true := by
  obtain ⟨x, hx⟩ := Option.isSome_iff_exists.mp (List.find?_isSome.mpr h)
  obtain ⟨hpx, pre, rest, rfl, hpre⟩ := List.find?_eq_some_iff_append.mp hx
  exact ⟨pre, x, rest, rfl, fun y hy => by simpa using hpre y hy, hpx⟩

theorem exists_last (h : ∃ x ∈ l, p x = true) :
    ∃ front x post, l = front ++ x :: post ∧ (∀ y ∈ post, p y = false) ∧ p x = true := by
  obtain ⟨pre, x, rest, heq, hpre, hx⟩ := exists_first (l := l.reverse) (by simpa using h)
  refine ⟨rest.reverse, x, pre.reverse, ?_, fun y hy => hpre y (List.mem_reverse.mp hy), hx⟩
  rw [← List.reverse_reverse l, heq]
  simp

/-- **A list with such an element** can be trimmed. -/
theorem exists_trims (h : ∃ x ∈ l, p x = true) : ∃ pre mid post, Trims p l pre mid post := by
  obtain ⟨front, y, post, rfl, hpost, hy⟩ := exists_last h
  obtain ⟨pre, x, rest, heq, hpre, hx⟩ :=
    exists_first (l := front ++ [y]) ⟨y, List.mem_append_right _ List.mem_cons_self, hy⟩
  refine ⟨pre, x :: rest, post, ⟨?_, hpre, hpost, ⟨x, rfl, hx⟩, ⟨y, ?_, hy⟩⟩⟩
  · rw [← heq]
    simp
  · have hlast : (pre ++ x :: rest).getLast? = some y := by
      rw [← heq]
      simp
    rwa [List.getLast?_append_of_ne_nil _ (List.cons_ne_nil x rest)] at hlast

/-- A search from either end passes by the elements without the property. -/
theorem forall_indices {o : Nat} (h : ∀ x ∈ l, p x = false) :
    ∀ e ∈ indices width o l, ¬ p e.2 = true := by
  intro e he
  have hmem : e.2 ∈ (indices width o l).map Prod.snd := List.mem_map_of_mem he
  rw [map_snd_indices] at hmem
  simp [h e.2 hmem]

/-- An element of a list in two parts is in the first one or in the second one. -/
theorem append_eq_cons_cases {l₁ l₂ as bs : List α} {x : α} (h : l₁ ++ l₂ = as ++ x :: bs) :
    (∃ cs, l₁ = as ++ x :: cs ∧ bs = cs ++ l₂) ∨ ∃ cs, as = l₁ ++ cs ∧ l₂ = cs ++ x :: bs := by
  rcases List.append_eq_append_iff.mp h with ⟨cs, has, hl₂⟩ | ⟨cs, hl₁, hrest⟩
  · exact Or.inr ⟨cs, has, hl₂⟩
  · cases cs with
    | nil => exact Or.inr ⟨[], by simpa using hl₁.symm, by simpa using hrest.symm⟩
    | cons y cs =>
      obtain ⟨rfl, rfl⟩ := List.cons.inj hrest
      exact Or.inl ⟨cs, hl₁, rfl⟩

namespace Trims

theorem firstIndex_eq (h : Trims p l pre mid post) :
    firstIndex width p l = some (size width pre) := by
  obtain ⟨x, hhead, hx⟩ := h.head
  obtain ⟨rest, rfl⟩ := List.head?_eq_some_iff.mp hhead
  have hnone := List.find?_eq_none.mpr (@forall_indices _ width p pre 0 h.before)
  rw [firstIndex, h.eq, List.append_assoc, indices_append, List.find?_append, hnone,
    List.cons_append, indices]
  simp [hx]

theorem lastEnd_eq (h : Trims p l pre mid post) :
    lastEnd width p l = some (size width (pre ++ mid)) := by
  obtain ⟨y, hlast, hy⟩ := h.last
  obtain ⟨front, rfl⟩ := List.getLast?_eq_some_iff.mp hlast
  have heq : l = (pre ++ front) ++ y :: post := by
    rw [h.eq]
    simp
  have hnone : (indices width (size width (pre ++ front) + width y) post).reverse.find?
      (fun e => p e.2) = none :=
    List.find?_eq_none.mpr (fun e he => forall_indices h.after e (List.mem_reverse.mp he))
  rw [lastEnd, heq, indices_append, indices, List.reverse_append, List.reverse_cons,
    Nat.zero_add, List.append_assoc, List.find?_append, hnone]
  simp [hy, Nat.add_assoc]

/-- **Every element with the property** is inside what is kept. -/
theorem covers (h : Trims p l pre mid post) {i : Nat} {x : α}
    (hin : (i, x) ∈ indices width 0 l) (hx : p x = true) :
    size width pre ≤ i ∧ i + width x ≤ size width (pre ++ mid) := by
  obtain ⟨as, bs, heq, rfl⟩ := mem_indices_iff.mp hin
  rw [h.eq] at heq
  rw [Nat.zero_add]
  constructor
  · rcases append_eq_cons_cases ((List.append_assoc _ _ _).symm.trans heq) with
      ⟨cs, hpre, -⟩ | ⟨cs, has, -⟩
    · have hin : x ∈ pre := hpre ▸ List.mem_append_right _ List.mem_cons_self
      exact absurd hx (by simp [h.before x hin])
    · rw [has, size_append]
      exact Nat.le_add_right _ _
  · rcases append_eq_cons_cases heq with ⟨cs, hkept, -⟩ | ⟨cs, -, hpost⟩
    · rw [hkept, size_append, size_cons]
      omega
    · have hin : x ∈ post := hpost ▸ List.mem_append_right _ List.mem_cons_self
      exact absurd hx (by simp [h.after x hin])

end Trims

end Spans
