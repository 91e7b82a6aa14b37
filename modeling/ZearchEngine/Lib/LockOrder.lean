/-
# Locks taken in order

Threads that take and give back readers-writer locks.  A thread is what it holds and what it will
still do, and it does its next action as soon as the lock is free for it.  Which of the threads
that can go on does so is left open, and so is what a thread does between two locks.

If every thread takes its locks in an order of the locks, and holds nothing when it is done, then
as long as some thread is not done, some thread can go on (`Sound.exists_canProceed`).  This holds
also where a reader waits behind a writer that waits itself, as readers do in implementations that
do not let writers starve.  Every step is one action done, so a run ends with all threads done
(`length_le_remaining`, `Sound.finished_of_stuck`).
-/
import ZearchEngine.Lib.LabelledRun
import Mathlib

namespace LockOrder

/-! ## 1. Threads -/

/-- How a lock is held: by any number of readers, or by one writer. -/
inductive Mode where
  | read | write
deriving DecidableEq

/-- Two holders of one lock that exclude each other. -/
def Mode.Excludes (m m' : Mode) : Prop := m = .write ∨ m' = .write

theorem Mode.Excludes.symm {m m' : Mode} (h : m.Excludes m') : m'.Excludes m := Or.symm h

inductive Action (L : Type) where
  | acquire (l : L) (m : Mode)
  | release (l : L)
  | work

/-- A thread: the locks it holds, and what it will still do. -/
structure Thread (L : Type) where
  held : List (L × Mode)
  rest : List (Action L)

/-- The thread is done. -/
def Thread.Finished {L : Type} (t : Thread L) : Prop := t.rest = []

section

variable {L : Type} [DecidableEq L] {ι : Type} [DecidableEq ι]

/-- The thread after its next action. -/
def Thread.next (t : Thread L) : Thread L :=
  match t.rest with
  | [] => t
  | .acquire l m :: rest => ⟨(l, m) :: t.held, rest⟩
  | .release l :: rest => ⟨t.held.filter (fun h => h.1 ≠ l), rest⟩
  | .work :: rest => ⟨t.held, rest⟩

/-- No thread holds the lock in a mode that excludes this one. -/
def Free (s : ι → Thread L) (l : L) (m : Mode) : Prop :=
  ∀ i, ∀ h ∈ (s i).held, h.1 = l → ¬ m.Excludes h.2

/-- The thread is not done, and the lock it takes next is free, if it takes one. -/
def Enabled (s : ι → Thread L) (i : ι) : Prop :=
  match (s i).rest with
  | [] => False
  | .acquire l m :: _ => Free s l m
  | _ => True

/-- A thread wants to write under the lock. -/
def WriterWaits (s : ι → Thread L) (l : L) : Prop :=
  ∃ i rest, (s i).rest = .acquire l .write :: rest

/-- As `Enabled`, but a reader lets writers that wait go first. -/
def CanProceed (s : ι → Thread L) (i : ι) : Prop :=
  Enabled s i ∧ ∀ l rest, (s i).rest = .acquire l .read :: rest → ¬ WriterWaits s l

/-- The threads after the next action of one. -/
def advance (s : ι → Thread L) (i : ι) : ι → Thread L := Function.update s i (s i).next

/-- Every step of the run is one of a thread that can do its next action. -/
def Schedule (s : ι → Thread L) (is : List ι) : Prop :=
  LabelledRun.Along advance Enabled s is

/-- The threads after a run. -/
def after (s : ι → Thread L) (is : List ι) : ι → Thread L := LabelledRun.run advance s is

end

/-! ## 2. Order -/

section

variable {L : Type} [LinearOrder L]

/-- A thread that holds these locks takes others only above them, gives back what it holds, and
holds nothing at the end. -/
def Ordered : List (L × Mode) → List (Action L) → Prop
  | held, [] => held = []
  | held, .acquire l m :: rest => (∀ h ∈ held, h.1 < l) ∧ Ordered ((l, m) :: held) rest
  | held, .release l :: rest =>
    (∃ m, (l, m) ∈ held) ∧ Ordered (held.filter (fun h => h.1 ≠ l)) rest
  | held, .work :: rest => Ordered held rest

/-- **Sections one after the other** are ordered, if each is on its own. -/
theorem Ordered.append {held : List (L × Mode)} {as bs : List (Action L)} (h : Ordered held as)
    (hbs : Ordered [] bs) : Ordered held (as ++ bs) := by
  induction as generalizing held with
  | nil =>
    obtain rfl : held = [] := h
    exact hbs
  | cons a as ih =>
    cases a with
    | acquire l m => exact ⟨h.1, ih h.2⟩
    | release l => exact ⟨h.1, ih h.2⟩
    | work => exact @ih held h

theorem Ordered.flatten {sections : List (List (Action L))}
    (h : ∀ s ∈ sections, Ordered [] s) : Ordered [] sections.flatten := by
  induction sections with
  | nil => rfl
  | cons s sections ih =>
    rw [List.flatten_cons]
    exact (h s List.mem_cons_self).append (ih fun s' hs' => h s' (List.mem_cons_of_mem s hs'))

/-- One lock, taken, used and given back. -/
theorem ordered_section (l : L) (m : Mode) : Ordered [] [.acquire l m, .work, .release l] :=
  ⟨fun _ h => absurd h List.not_mem_nil, ⟨m, List.mem_cons_self⟩, by simp [Ordered]⟩

end

/-! ## 3. Progress -/

section

variable {L : Type} [LinearOrder L] {ι : Type}

/-- Every thread goes on in order, and no two hold a lock in modes that exclude each other. -/
structure Sound (s : ι → Thread L) : Prop where
  ordered : ∀ i, Ordered (s i).held (s i).rest
  exclusive : ∀ i j, i ≠ j → ∀ h ∈ (s i).held, ∀ k ∈ (s j).held, h.1 = k.1 → ¬ h.2.Excludes k.2

/-- A thread that starts. -/
def Thread.start (actions : List (Action L)) : Thread L := ⟨[], actions⟩

theorem sound_start {actions : ι → List (Action L)} (h : ∀ i, Ordered [] (actions i)) :
    Sound (fun i => Thread.start (actions i)) where
  ordered := h
  exclusive _ _ _ _ hh := absurd hh List.not_mem_nil

/-- What a thread holds after its next action: what it held, or the lock it took. -/
theorem mem_held_next {s : ι → Thread L} {i : ι} (henabled : Enabled s i) {h : L × Mode}
    (hh : h ∈ (s i).next.held) : h ∈ (s i).held ∨ Free s h.1 h.2 := by
  rw [Enabled] at henabled
  rw [Thread.next] at hh
  split at hh
  · exact Or.inl hh
  · next l m rest heq =>
    rw [heq] at henabled
    rcases List.mem_cons.mp hh with rfl | hold
    · exact Or.inr henabled
    · exact Or.inl hold
  · exact Or.inl (List.mem_of_mem_filter hh)
  · exact Or.inl hh

/-- A thread that holds a lock is not done, and waits only for locks above. -/
theorem Sound.of_mem_held {s : ι → Thread L} (h : Sound s) {i : ι} {k : L × Mode}
    (hk : k ∈ (s i).held) : ¬ (s i).Finished ∧
      ∀ l m rest, (s i).rest = .acquire l m :: rest → k.1 < l := by
  have hordered := h.ordered i
  constructor
  · intro hdone
    rw [Thread.Finished] at hdone
    rw [hdone] at hordered
    rw [hordered] at hk
    exact absurd hk List.not_mem_nil
  · intro l m rest heq
    rw [heq] at hordered
    exact hordered.1 k hk

/-- **Some thread can go on**, as long as one is not done: if all wait, then one of those that
wait for the highest lock.  A holder of that lock would wait for a higher one. -/
theorem Sound.exists_canProceed [Finite L] {s : ι → Thread L} (h : Sound s) {i : ι}
    (hi : ¬ (s i).Finished) : ∃ j, CanProceed s j := by
  by_contra hstuck
  push Not at hstuck
  -- whoever is not done waits for a lock
  have hwaits : ∀ j, ¬ (s j).Finished → ∃ l m rest, (s j).rest = .acquire l m :: rest := by
    intro j hj
    rcases hrest : (s j).rest with _ | ⟨a, rest⟩
    · exact absurd hrest hj
    · cases a with
      | acquire l m => exact ⟨l, m, rest, rfl⟩
      | release l =>
        exact absurd ⟨by simp [Enabled, hrest], by simp [hrest]⟩ (hstuck j)
      | work =>
        exact absurd ⟨by simp [Enabled, hrest], by simp [hrest]⟩ (hstuck j)
  let waited : Set L := {l | ∃ j m rest, (s j).rest = .acquire l m :: rest}
  obtain ⟨l₀, m₀, rest₀, hwait⟩ := hwaits i hi
  obtain ⟨l, ⟨j, m, rest, hj⟩, hmax⟩ :=
    (Set.toFinite waited).exists_maximal ⟨l₀, i, m₀, rest₀, hwait⟩
  -- nobody holds the highest lock that is waited for
  have hfree : ∀ m, Free s l m := by
    rintro m j' k hk rfl -
    obtain ⟨hnotDone, habove⟩ := h.of_mem_held hk
    obtain ⟨l', m', rest', hrest'⟩ := hwaits j' hnotDone
    have hlt := habove l' m' rest' hrest'
    exact absurd (hmax ⟨j', m', rest', hrest'⟩ hlt.le) (not_le_of_gt hlt)
  by_cases hwriter : WriterWaits s l
  · obtain ⟨w, restW, hw⟩ := hwriter
    refine hstuck w ⟨?_, by simp [hw]⟩
    rw [Enabled, hw]
    exact hfree .write
  · refine hstuck j ⟨?_, fun l' rest' heq => ?_⟩
    · rw [Enabled, hj]
      exact hfree m
    · rw [hj] at heq
      cases heq
      exact hwriter

/-- If nobody can go on, everybody is done. -/
theorem Sound.finished_of_stuck [Finite L] {s : ι → Thread L} (h : Sound s)
    (hstuck : ∀ i, ¬ CanProceed s i) (i : ι) : (s i).Finished := by
  by_contra hi
  obtain ⟨j, hj⟩ := h.exists_canProceed hi
  exact hstuck j hj

end

/-! ## 4. Runs -/

section

variable {L : Type} [LinearOrder L] {ι : Type} [DecidableEq ι]

theorem Sound.advance {s : ι → Thread L} (h : Sound s) (i : ι) (henabled : Enabled s i) :
    Sound (LockOrder.advance s i) where
  ordered j := by
    have hold := h.ordered j
    by_cases hj : j = i
    · subst hj
      rw [LockOrder.advance, Function.update_self, Thread.next]
      split
      · exact hold
      · next heq => rw [heq] at hold; exact hold.2
      · next heq => rw [heq] at hold; exact hold.2
      · next heq => rw [heq] at hold; exact hold
    · rw [LockOrder.advance, Function.update_of_ne hj]
      exact hold
  exclusive := by
    -- the thread that moved holds no lock that another one excludes it from
    have hnew : ∀ j, j ≠ i → ∀ k ∈ (s i).next.held, ∀ k' ∈ (s j).held, k.1 = k'.1 →
        ¬ k.2.Excludes k'.2 := by
      intro j hj k hk k' hk' heq
      rcases mem_held_next henabled hk with hold | hfree
      · exact h.exclusive i j (Ne.symm hj) k hold k' hk' heq
      · exact hfree j k' hk' heq.symm
    intro j j' hne k hk k' hk' heq
    rw [LockOrder.advance] at hk hk'
    by_cases hj : j = i
    · subst hj
      rw [Function.update_self] at hk
      rw [Function.update_of_ne (Ne.symm hne)] at hk'
      exact hnew j' (Ne.symm hne) k hk k' hk' heq
    · rw [Function.update_of_ne hj] at hk
      by_cases hj' : j' = i
      · subst hj'
        rw [Function.update_self] at hk'
        exact fun hexcludes => hnew j hj k' hk' k hk heq.symm hexcludes.symm
      · rw [Function.update_of_ne hj'] at hk'
        exact h.exclusive j j' hne k hk k' hk' heq

/-- **Order and exclusion last.** -/
theorem Sound.after {s : ι → Thread L} (h : Sound s) {is : List ι} (hrun : Schedule s is) :
    Sound (LockOrder.after s is) :=
  LabelledRun.Along.inv (fun _ i hs henabled => hs.advance i henabled) is s hrun h

variable [Fintype ι]

/-- The number of actions that are still to be done. -/
def remaining (s : ι → Thread L) : Nat := ∑ i, (s i).rest.length

theorem remaining_advance {s : ι → Thread L} {i : ι} (henabled : Enabled s i) :
    remaining (LockOrder.advance s i) + 1 = remaining s := by
  have hlen : (s i).next.rest.length + 1 = (s i).rest.length := by
    rw [Enabled] at henabled
    rw [Thread.next]
    split <;> simp_all
  have hothers : ∀ j ∈ Finset.univ.erase i,
      (LockOrder.advance s i j).rest.length = (s j).rest.length := by
    intro j hj
    rw [LockOrder.advance, Function.update_of_ne (Finset.ne_of_mem_erase hj)]
  rw [remaining, remaining, ← Finset.add_sum_erase _ _ (Finset.mem_univ i),
    ← Finset.add_sum_erase _ (fun j => (s j).rest.length) (Finset.mem_univ i),
    Finset.sum_congr rfl hothers, ← hlen, LockOrder.advance, Function.update_self]
  omega

/-- **A run is no longer than what there is to do.** -/
theorem length_le_remaining {s : ι → Thread L} {is : List ι} (hrun : Schedule s is) :
    is.length + remaining (LockOrder.after s is) = remaining s := by
  induction is generalizing s with
  | nil => exact Nat.zero_add _
  | cons i is ih =>
    have hrest := ih hrun.2
    have hstep := remaining_advance hrun.1
    rw [List.length_cons]
    have hafter : LockOrder.after s (i :: is) = LockOrder.after (LockOrder.advance s i) is := rfl
    rw [hafter]
    omega

end

end LockOrder
