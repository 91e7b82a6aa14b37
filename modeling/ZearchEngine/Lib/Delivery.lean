/-
# Numbered items delivered to several sinks

Writers take items whose numbers come from one counter, and deliver them afterwards, one
delivery at a time, each to one sink.  Nothing holds the writers to the order of the numbers.

Every sink gets its items in the order of their numbers as long as no delivery overtakes: it
comes before no smaller number that another writer still has for the same sink
(`Inv.deliver`).  One that does overtake is never made good (`Bad`): at the latest when the
other writer delivers, the sink is out of order.
-/
import Mathlib.Data.List.Basic
import Mathlib.Logic.Function.Basic
import Mathlib.Logic.Basic

namespace Delivery

variable {ι ε : Type*}

/-- What the sinks have got, and what each writer has still to deliver, where to. -/
structure State (ι ε : Type*) where
  delivered : ι → List ε
  waiting : Nat → List (ι × List ε)

/-- The sinks have got their items in the order of the numbers. -/
def Ordered (num : ε → Nat) (s : State ι ε) : Prop :=
  ∀ i, (s.delivered i).Pairwise (fun x y => num x < num y)

/-- A writer takes items, with a plan for their delivery. -/
def State.take (s : State ι ε) (t : Nat) (plan : List (ι × List ε)) : State ι ε :=
  { s with waiting := Function.update s.waiting t plan }

@[simp] theorem waiting_take_self (s : State ι ε) (t : Nat) (plan : List (ι × List ε)) :
    (s.take t plan).waiting t = plan := Function.update_self ..

theorem waiting_take_of_ne (s : State ι ε) {t u : Nat} (hu : u ≠ t) (plan : List (ι × List ε)) :
    (s.take t plan).waiting u = s.waiting u := Function.update_of_ne hu ..

variable [DecidableEq ι]

/-- What is to be delivered to one sink. -/
def pendingFor (i : ι) (plan : List (ι × List ε)) : List ε :=
  (plan.filter (fun d => d.1 = i)).flatMap Prod.snd

theorem pendingFor_cons (i j : ι) (xs : List ε) (plan : List (ι × List ε)) :
    pendingFor i ((j, xs) :: plan) = (if j = i then xs else []) ++ pendingFor i plan := by
  by_cases h : j = i <;> simp [pendingFor, h]

namespace State

/-- A writer makes its next delivery. -/
def deliver (s : State ι ε) (t : Nat) : State ι ε :=
  match s.waiting t with
  | [] => s
  | (i, xs) :: left =>
    { delivered := Function.update s.delivered i (s.delivered i ++ xs)
      waiting := Function.update s.waiting t left }

/-- The next delivery of a writer overtakes none: no other writer has a smaller number for its
sink. -/
def Turn (num : ε → Nat) (s : State ι ε) (t : Nat) : Prop :=
  match s.waiting t with
  | [] => True
  | (i, xs) :: _ => ∀ u ≠ t, ∀ y ∈ pendingFor i (s.waiting u), ∀ x ∈ xs, num x < num y

end State

/-! ## 1. Order -/

/-- The sinks are in order, and what they have got comes before what they will get; the next
number is above all. -/
structure Inv (num : ε → Nat) (next : Nat) (s : State ι ε) : Prop where
  ordered : Ordered num s
  plan : ∀ t i, (pendingFor i (s.waiting t)).Pairwise (fun x y => num x < num y)
  ahead : ∀ i t, ∀ x ∈ s.delivered i, ∀ y ∈ pendingFor i (s.waiting t), num x < num y
  deliveredLt : ∀ i, ∀ x ∈ s.delivered i, num x < next
  waitingLt : ∀ t i, ∀ y ∈ pendingFor i (s.waiting t), num y < next

variable {num : ε → Nat} {next : Nat} {s : State ι ε} {t : Nat}

/-- **New items** are numbered above all others. -/
theorem Inv.take (h : Inv num next s) {next' : Nat} (hle : next ≤ next')
    {plan : List (ι × List ε)}
    (hplan : ∀ i, (pendingFor i plan).Pairwise (fun x y => num x < num y))
    (hnew : ∀ i, ∀ y ∈ pendingFor i plan, next ≤ num y ∧ num y < next') :
    Inv num next' (s.take t plan) where
  ordered := h.ordered
  plan u i := by
    by_cases hu : u = t
    · subst hu
      simpa using hplan i
    · simpa [waiting_take_of_ne s hu] using h.plan u i
  ahead i u x hx y hy := by
    by_cases hu : u = t
    · subst hu
      rw [waiting_take_self] at hy
      exact Nat.lt_of_lt_of_le (h.deliveredLt i x hx) (hnew i y hy).1
    · rw [waiting_take_of_ne s hu] at hy
      exact h.ahead i u x hx y hy
  deliveredLt i x hx := Nat.lt_of_lt_of_le (h.deliveredLt i x hx) hle
  waitingLt u i y hy := by
    by_cases hu : u = t
    · subst hu
      rw [waiting_take_self] at hy
      exact (hnew i y hy).2
    · rw [waiting_take_of_ne s hu] at hy
      exact Nat.lt_of_lt_of_le (h.waitingLt u i y hy) hle

/-- What is pending after a delivery was pending before. -/
theorem mem_pendingFor_deliver {i j : ι} {xs : List ε} {left : List (ι × List ε)}
    (hwait : s.waiting t = (j, xs) :: left) {u : Nat} {y : ε}
    (hy : y ∈ pendingFor i ((s.deliver t).waiting u)) : y ∈ pendingFor i (s.waiting u) := by
  simp only [State.deliver, hwait] at hy
  by_cases hu : u = t
  · subst hu
    rw [Function.update_self] at hy
    rw [hwait, pendingFor_cons]
    exact List.mem_append_right _ hy
  · rwa [Function.update_of_ne hu] at hy

/-- What a sink has got after a delivery. -/
theorem mem_delivered_deliver {i j : ι} {xs : List ε} {left : List (ι × List ε)}
    (hwait : s.waiting t = (j, xs) :: left) {x : ε} :
    x ∈ (s.deliver t).delivered i ↔ x ∈ s.delivered i ∨ (j = i ∧ x ∈ xs) := by
  simp only [State.deliver, hwait]
  by_cases hj : j = i
  · subst hj
    simp
  · simp [Function.update_of_ne (Ne.symm hj), hj]

/-- **A delivery that overtakes none keeps the order.** -/
theorem Inv.deliver (h : Inv num next s) (hturn : s.Turn num t) : Inv num next (s.deliver t) := by
  cases hwait : s.waiting t with
  | nil => simpa only [State.deliver, hwait] using h
  | cons head left =>
    obtain ⟨j, xs⟩ := head
    simp only [State.Turn, hwait] at hturn
    have hsplit : pendingFor j (s.waiting t) = xs ++ pendingFor j left := by
      rw [hwait, pendingFor_cons, if_pos rfl]
    have hown := h.plan t j
    rw [hsplit] at hown
    obtain ⟨hxs, -, hcross⟩ := List.pairwise_append.mp hown
    have hpending : ∀ x ∈ xs, x ∈ pendingFor j (s.waiting t) := fun x hx =>
      hsplit ▸ List.mem_append_left _ hx
    refine ⟨fun i => ?_, fun u i => ?_, fun i u x hx y hy => ?_, fun i x hx => ?_,
      fun u i y hy => h.waitingLt u i y (mem_pendingFor_deliver hwait hy)⟩
    · simp only [State.deliver, hwait]
      by_cases hi : i = j
      · subst hi
        rw [Function.update_self]
        exact List.pairwise_append.mpr ⟨h.ordered i, hxs, fun x hx y hy =>
          h.ahead i t x hx y (hpending y hy)⟩
      · rw [Function.update_of_ne hi]
        exact h.ordered i
    · simp only [State.deliver, hwait]
      by_cases hu : u = t
      · subst hu
        rw [Function.update_self]
        have hplan := h.plan u i
        rw [hwait, pendingFor_cons] at hplan
        exact (List.pairwise_append.mp hplan).2.1
      · rw [Function.update_of_ne hu]
        exact h.plan u i
    · rcases (mem_delivered_deliver hwait).mp hx with hold | ⟨rfl, hnew⟩
      · exact h.ahead i u x hold y (mem_pendingFor_deliver hwait hy)
      · by_cases hu : u = t
        · subst hu
          simp only [State.deliver, hwait, Function.update_self] at hy
          exact hcross x hnew y hy
        · exact hturn u hu y (mem_pendingFor_deliver hwait hy) x hnew
    · rcases (mem_delivered_deliver hwait).mp hx with hold | ⟨rfl, hnew⟩
      · exact h.deliveredLt i x hold
      · exact h.waitingLt t j x (hpending x hnew)

/-! ## 2. Disorder -/

/-- A sink is out of order, or will be when a writer delivers what it has. -/
def Bad (num : ε → Nat) (s : State ι ε) : Prop :=
  ∃ i, ¬ (s.delivered i).Pairwise (fun x y => num x < num y) ∨
    ∃ t, ∃ x ∈ s.delivered i, ∃ y ∈ pendingFor i (s.waiting t), ¬ num x < num y

theorem Bad.take (h : Bad num s) (hidle : s.waiting t = []) (plan : List (ι × List ε)) :
    Bad num (s.take t plan) := by
  obtain ⟨i, hout | ⟨u, x, hx, y, hy, hlt⟩⟩ := h
  · exact ⟨i, Or.inl hout⟩
  · refine ⟨i, Or.inr ⟨u, x, hx, y, ?_, hlt⟩⟩
    have hu : u ≠ t := by
      rintro rfl
      rw [hidle] at hy
      cases hy
    rwa [waiting_take_of_ne s hu]

theorem Bad.deliver (h : Bad num s) (t : Nat) : Bad num (s.deliver t) := by
  cases hwait : s.waiting t with
  | nil => simpa only [State.deliver, hwait] using h
  | cons head left =>
    obtain ⟨j, xs⟩ := head
    have hprefix : ∀ i, ∃ more, (s.deliver t).delivered i = s.delivered i ++ more := by
      intro i
      simp only [State.deliver, hwait]
      by_cases hi : i = j
      · subst hi
        exact ⟨xs, Function.update_self ..⟩
      · exact ⟨[], by rw [Function.update_of_ne hi, List.append_nil]⟩
    obtain ⟨i, hout | ⟨u, x, hx, y, hy, hlt⟩⟩ := h
    · refine ⟨i, Or.inl fun hpair => hout ?_⟩
      obtain ⟨more, hmore⟩ := hprefix i
      rw [hmore] at hpair
      exact (List.pairwise_append.mp hpair).1
    · by_cases hnow : u = t ∧ j = i ∧ y ∈ xs
      · -- the smaller number arrives
        obtain ⟨rfl, rfl, hyxs⟩ := hnow
        refine ⟨j, Or.inl fun hpair => hlt ?_⟩
        simp only [State.deliver, hwait, Function.update_self] at hpair
        exact (List.pairwise_append.mp hpair).2.2 x hx y hyxs
      · refine ⟨i, Or.inr ⟨u, x, (mem_delivered_deliver hwait).mpr (Or.inl hx), y, ?_, hlt⟩⟩
        simp only [State.deliver, hwait]
        by_cases hu : u = t
        · subst hu
          rw [hwait, pendingFor_cons] at hy
          rw [Function.update_self]
          refine (List.mem_append.mp hy).resolve_left fun hmem => ?_
          split at hmem
          · exact hnow ⟨rfl, ‹_›, hmem⟩
          · cases hmem
        · rwa [Function.update_of_ne hu]

/-- **Overtaking is never made good.** -/
theorem bad_of_not_turn (h : ¬ s.Turn num t) : Bad num (s.deliver t) := by
  cases hwait : s.waiting t with
  | nil =>
    rw [State.Turn, hwait] at h
    exact absurd trivial h
  | cons head left =>
    obtain ⟨j, xs⟩ := head
    simp only [State.Turn, hwait] at h
    simp only [not_forall] at h
    obtain ⟨u, hu, y, hy, x, hx, hlt⟩ := h
    refine ⟨j, Or.inr ⟨u, x, (mem_delivered_deliver hwait).mpr (Or.inr ⟨rfl, hx⟩), y, ?_,
      hlt⟩⟩
    simpa only [State.deliver, hwait, Function.update_of_ne hu] using hy

/-- When all has been delivered, the sinks show it. -/
theorem Bad.not_ordered (h : Bad num s) (hdone : ∀ t, s.waiting t = []) : ¬ Ordered num s := by
  obtain ⟨i, hout | ⟨u, x, -, y, hy, -⟩⟩ := h
  · exact fun hord => hout (hord i)
  · rw [hdone u] at hy
    cases hy

end Delivery
