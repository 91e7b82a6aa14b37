/-
# The best `k` of a stream

Elements arrive one by one, each with a score, and only `k` of them can be kept.  `IsTop` says
that what is kept is a choice of `k` elements of all that have arrived such that none left out
has a larger score.  The choice is not unique, but its scores are (`IsTop.eq_take_sort`).

* `IsTop.le_of_many`: where `k` elements reach a score, so does everything that is kept.
* `IsTop.add`: elements that score no more than everything kept may be skipped unseen, once `k`
  are kept.  This is what makes pruning by upper bounds sound.
* `Heap.isTop_keep`: a bounded min-heap that takes in every element and evicts its least one
  keeps a choice of the best `k`.
-/
import Mathlib.Algebra.Order.Group.Multiset
import Mathlib.Data.Multiset.Sort

namespace TopK

/-! ## 1. Choices of the best `k` -/

section

variable {α R : Type*} [LinearOrder R] {score : α → R} {k : Nat} {top all : Multiset α}

/-- `top` is a choice of the `k` elements of `all` with the largest scores: of all elements, if
there are fewer. -/
def IsTop (score : α → R) (k : Nat) (top all : Multiset α) : Prop :=
  top.card ≤ k ∧ ∃ rest, all = top + rest ∧ (top.card < k → rest = 0) ∧
    ∀ y ∈ rest, ∀ x ∈ top, score y ≤ score x

theorem isTop_zero (score : α → R) (k : Nat) : IsTop score k 0 0 :=
  ⟨Nat.zero_le k, 0, rfl, fun _ => rfl, by simp⟩

theorem IsTop.le (h : IsTop score k top all) : top ≤ all := by
  obtain ⟨-, rest, rfl, -, -⟩ := h
  exact Multiset.le_add_right top rest

/-- **Skipping.**  Once `k` elements are kept, those that score no more than each of them can be
left out. -/
theorem IsTop.add (h : IsTop score k top all) {more : Multiset α}
    (hmore : ∀ y ∈ more, k ≤ top.card ∧ ∀ x ∈ top, score y ≤ score x) :
    IsTop score k top (all + more) := by
  obtain ⟨hcard, rest, rfl, hroom, hrest⟩ := h
  refine ⟨hcard, rest + more, add_assoc top rest more, fun hlt => ?_, fun y hy => ?_⟩
  · have hnone : more = 0 := Multiset.eq_zero_of_forall_notMem (fun y hy =>
      absurd (hmore y hy).1 (Nat.not_le.mpr hlt))
    rw [hroom hlt, hnone, add_zero]
  · rcases Multiset.mem_add.mp hy with hy | hy
    · exact hrest y hy
    · exact (hmore y hy).2

/-- While there is room, an element is just kept. -/
theorem IsTop.cons (h : IsTop score k top all) (hroom : top.card < k) (x : α) :
    IsTop score k (x ::ₘ top) (x ::ₘ all) := by
  obtain ⟨-, rest, rfl, hnone, -⟩ := h
  obtain rfl := hnone hroom
  refine ⟨by rw [Multiset.card_cons]; omega, 0, by simp, fun _ => rfl, by simp⟩

/-- Without room, one with the least score goes. -/
theorem IsTop.evict (h : IsTop score k top all) (hfull : top.card = k) {x least : α}
    {kept : Multiset α} (hsplit : x ::ₘ top = least ::ₘ kept)
    (hleast : ∀ z ∈ kept, score least ≤ score z) : IsTop score k kept (x ::ₘ all) := by
  obtain ⟨-, rest, rfl, -, hrest⟩ := h
  have hcard : kept.card = k := by
    have hcards := congrArg Multiset.card hsplit
    rw [Multiset.card_cons, Multiset.card_cons] at hcards
    omega
  refine ⟨hcard.le, least ::ₘ rest, ?_, fun hlt => absurd hcard hlt.ne, ?_⟩
  · rw [← Multiset.cons_add, hsplit, Multiset.cons_add, Multiset.add_cons]
  · intro y hy z hz
    rcases Multiset.mem_cons.mp hy with rfl | hy
    · exact hleast z hz
    · -- a kept element is `x` or was kept before; in the first case the least one bounds `y`
      have hmem : z ∈ x ::ₘ top := hsplit ▸ Multiset.mem_cons_of_mem hz
      rcases Multiset.mem_cons.mp hmem with rfl | hmem
      · have hleast' : least ∈ z ::ₘ top := hsplit ▸ Multiset.mem_cons_self least kept
        rcases Multiset.mem_cons.mp hleast' with rfl | hleast'
        · have htop : top = kept := (Multiset.cons_inj_right _).mp hsplit
          exact hrest y hy _ (htop ▸ hz)
        · exact (hrest y hy least hleast').trans (hleast z hz)
      · exact hrest y hy z hmem

/-- With room for all, all are kept. -/
theorem IsTop.eq_of_card_le (h : IsTop score k top all) (hcard : all.card ≤ k) : top = all := by
  obtain ⟨-, rest, rfl, hroom, -⟩ := h
  rw [Multiset.card_add] at hcard
  have hrest : rest = 0 := by
    rcases Nat.lt_or_ge top.card k with hlt | hge
    · exact hroom hlt
    · exact Multiset.card_eq_zero.mp (by omega)
  rw [hrest, add_zero]

/-- With room for all, all are a choice. -/
theorem isTop_self (hcard : all.card ≤ k) : IsTop score k all all :=
  ⟨hcard, 0, (add_zero all).symm, fun _ => rfl, by simp⟩

/-- **The front of a list** is a choice if nothing behind it scores more. -/
theorem isTop_take {l : List α}
    (h : ∀ y ∈ l.drop k, ∀ x ∈ l.take k, score y ≤ score x) : IsTop score k ↑(l.take k) ↑l := by
  have hlen := l.length_take (i := k)
  refine ⟨?_, ↑(l.drop k), ?_, fun hlt => ?_, fun y hy x hx => h y hy x hx⟩
  · rw [Multiset.coe_card, hlen]
    exact min_le_left k _
  · rw [Multiset.coe_add, List.take_append_drop]
  · rw [Multiset.coe_card, hlen] at hlt
    rw [List.drop_of_length_le (by omega)]
    rfl

/-- A sort by score puts the best first. -/
theorem pairwise_insertionSort_score (score : α → R) (l : List α) :
    (l.insertionSort (fun a b => score b ≤ score a)).Pairwise
      (fun a b => score b ≤ score a) := by
  have htotal : Std.Total (fun a b : α => score b ≤ score a) :=
    ⟨fun a b => le_total (score b) (score a)⟩
  have htrans : IsTrans α (fun a b => score b ≤ score a) :=
    ⟨fun _ _ _ hab hbc => hbc.trans hab⟩
  exact List.pairwise_insertionSort _ l

/-- The front of a list with descending scores. -/
theorem isTop_take_of_pairwise {l : List α} (h : l.Pairwise (fun a b => score b ≤ score a)) :
    IsTop score k ↑(l.take k) ↑l := by
  rw [← List.take_append_drop k l, List.pairwise_append] at h
  exact isTop_take (fun y hy x hx => h.2.2 x hx y hy)

/-- As many as there is room for, or all. -/
theorem IsTop.card_eq (h : IsTop score k top all) : top.card = min k all.card := by
  obtain ⟨hcard, rest, rfl, hroom, -⟩ := h
  rw [Multiset.card_add]
  rcases Nat.lt_or_ge top.card k with hlt | hge
  · rw [hroom hlt, Multiset.card_zero]
    omega
  · omega

/-- What is left out scores no more than what is kept. -/
theorem IsTop.le_of_notMem (h : IsTop score k top all) {x y : α} (hy : y ∈ all)
    (hnot : y ∉ top) (hx : x ∈ top) : score y ≤ score x := by
  obtain ⟨-, rest, rfl, -, hrest⟩ := h
  exact hrest y ((Multiset.mem_add.mp hy).resolve_left hnot) x hx

/-- While something is left out, there is no room. -/
theorem IsTop.card_of_notMem (h : IsTop score k top all) {y : α} (hy : y ∈ all)
    (hnot : y ∉ top) : top.card = k := by
  obtain ⟨hcard, rest, rfl, hroom, -⟩ := h
  refine hcard.antisymm (not_lt.mp (fun hlt => ?_))
  rw [hroom hlt, add_zero] at hy
  exact hnot hy

/-- Of distinct elements, a part is a choice if it is full and scores as much as anything that is
left out. -/
theorem isTop_of_notMem (hcard : top.card ≤ k) (hnodup : all.Nodup) (hle : top ≤ all)
    (h : ∀ y ∈ all, y ∉ top → top.card = k ∧ ∀ x ∈ top, score y ≤ score x) :
    IsTop score k top all := by
  obtain ⟨rest, rfl⟩ := Multiset.le_iff_exists_add.mp hle
  have hnot : ∀ y ∈ rest, y ∉ top := fun y hy htop =>
    Multiset.disjoint_left.mp (Multiset.nodup_add.mp hnodup).2.2 htop hy
  refine ⟨hcard, rest, rfl, fun hlt => ?_, fun y hy => ?_⟩
  · refine Multiset.eq_zero_of_forall_notMem (fun y hy => ?_)
    exact hlt.ne (h y (Multiset.mem_add.mpr (Or.inr hy)) (hnot y hy)).1
  · exact (h y (Multiset.mem_add.mpr (Or.inr hy)) (hnot y hy)).2

/-- **Counting.**  Where `k` elements reach a score, so do all that are kept, and there are `k`
of them. -/
theorem IsTop.le_of_many (h : IsTop score k top all) {many : Multiset α} (hmany : many ≤ all)
    (hcard : k ≤ many.card) {b : R} (hb : ∀ y ∈ many, b ≤ score y) :
    top.card = k ∧ ∀ x ∈ top, b ≤ score x := by
  have hfull : top.card = k := by
    rw [h.card_eq]
    exact min_eq_left (hcard.trans (Multiset.card_le_card hmany))
  refine ⟨hfull, fun x hx => ?_⟩
  obtain ⟨-, rest, rfl, -, hrest⟩ := h
  by_contra hlt
  -- none that is left out reaches the score, so all that do are kept, and `x` as well
  have hall : many ≤ top.filter (fun y => b ≤ score y) := by
    have hfilter := Multiset.filter_le_filter (fun y => b ≤ score y) hmany
    have hnone : rest.filter (fun y => b ≤ score y) = 0 :=
      Multiset.filter_eq_nil.mpr (fun y hy hle => hlt (hle.trans (hrest y hy x hx)))
    rwa [Multiset.filter_eq_self.mpr hb, Multiset.filter_add, hnone, add_zero] at hfilter
  have hfewer : (top.filter (fun y => b ≤ score y)).card < top.card :=
    Multiset.card_lt_card ((Multiset.filter_le _ _).lt_of_ne (fun heq =>
      hlt (Multiset.filter_eq_self.mp heq x hx)))
  have hcards := Multiset.card_le_card hall
  omega

/-- A choice stays one along a function that keeps the scores. -/
theorem IsTop.along {β : Type*} {f : α → β} {score : β → R}
    (h : IsTop (fun a => score (f a)) k top all) : IsTop score k (top.map f) (all.map f) := by
  obtain ⟨hcard, rest, rfl, hroom, hrest⟩ := h
  refine ⟨by rwa [Multiset.card_map], rest.map f, Multiset.map_add f top rest, ?_, ?_⟩
  · intro hlt
    rw [Multiset.card_map] at hlt
    rw [hroom hlt, Multiset.map_zero]
  · intro b hb a ha
    obtain ⟨y, hy, rfl⟩ := Multiset.mem_map.mp hb
    obtain ⟨x, hx, rfl⟩ := Multiset.mem_map.mp ha
    exact hrest y hy x hx

/-- The scores of a choice are a choice of the best scores. -/
theorem IsTop.map (h : IsTop score k top all) : IsTop id k (top.map score) (all.map score) :=
  IsTop.along h

/-- **The best scores are unique**: they are the first `k` of all scores, sorted descending. -/
theorem IsTop.eq_take_sort (h : IsTop score k top all) :
    top.map score = ↑(((all.map score).sort (· ≥ ·)).take k) := by
  obtain ⟨hcard, rest, hall, hroom, hrest⟩ := h.map
  have hsort : (all.map score).sort (· ≥ ·)
      = (top.map score).sort (· ≥ ·) ++ rest.sort (· ≥ ·) := by
    refine List.Perm.eq_of_pairwise' (r := fun a b : R => a ≥ b) ?_ ?_ ?_
    · exact Multiset.pairwise_sort _ _
    · refine List.pairwise_append.mpr
        ⟨Multiset.pairwise_sort _ _, Multiset.pairwise_sort _ _, fun a ha b hb => ?_⟩
      exact hrest b ((Multiset.mem_sort _).mp hb) a ((Multiset.mem_sort _).mp ha)
    · rw [← Multiset.coe_eq_coe, ← Multiset.coe_add, Multiset.sort_eq, Multiset.sort_eq,
        Multiset.sort_eq, hall]
  have hlen : ((top.map score).sort (· ≥ ·)).length = (top.map score).card :=
    Multiset.length_sort _
  rcases Nat.lt_or_ge (top.map score).card k with hlt | hge
  · have htake : ((all.map score).sort (· ≥ ·)).take k = (top.map score).sort (· ≥ ·) := by
      rw [hsort, hroom hlt, Multiset.sort_zero, List.append_nil]
      exact List.take_of_length_le (by omega)
    rw [htake, Multiset.sort_eq]
  · have htake : ((all.map score).sort (· ≥ ·)).take k = (top.map score).sort (· ≥ ·) := by
      rw [hsort, List.take_append_of_le_length (by omega)]
      exact List.take_of_length_le (by omega)
    rw [htake, Multiset.sort_eq]

end

/-! ## 2. A min-heap -/

/-- A min-heap: its elements in the order in which `pop` returns them. -/
structure Heap (β : Type*) [LinearOrder β] where
  items : List β
  sorted : items.Pairwise (· ≤ ·)

namespace Heap

variable {β : Type*} [LinearOrder β]

def empty : Heap β := ⟨[], List.Pairwise.nil⟩

def push (h : Heap β) (x : β) : Heap β where
  items := h.items.orderedInsert (· ≤ ·) x
  sorted := h.sorted.orderedInsert x h.items

/-- The heap without its least element. -/
def pop (h : Heap β) : Heap β where
  items := h.items.tail
  sorted := h.sorted.tail

/-- The least element. -/
def peek (h : Heap β) : Option β := h.items.head?

def len (h : Heap β) : Nat := h.items.length

/-- Take the element in, and evict the least one if there are now more than `k`. -/
def keep (h : Heap β) (k : Nat) (x : β) : Heap β :=
  if k < (h.push x).len then (h.push x).pop else h.push x

theorem coe_push (h : Heap β) (x : β) :
    (↑(h.push x).items : Multiset β) = x ::ₘ ↑h.items :=
  Multiset.coe_eq_coe.mpr (List.perm_orderedInsert (· ≤ ·) x h.items)

theorem len_push (h : Heap β) (x : β) : (h.push x).len = h.len + 1 :=
  List.orderedInsert_length (· ≤ ·) h.items x

theorem keep_le (h : Heap β) (k : Nat) (x : β) :
    (↑(h.keep k x).items : Multiset β) ≤ x ::ₘ ↑h.items := by
  rw [← coe_push, keep]
  split
  · exact Multiset.coe_le.mpr (List.tail_sublist _).subperm
  · exact le_refl _

theorem keep_ne_nil (h : Heap β) {k : Nat} (hk : 1 ≤ k) (x : β) : (h.keep k x).items ≠ [] := by
  have hlen : (h.push x).items.length = h.len + 1 := h.len_push x
  refine List.ne_nil_of_length_pos ?_
  by_cases hlt : k < (h.push x).len
  · rw [keep, if_pos hlt, pop, List.length_tail]
    rw [len] at hlt
    omega
  · rw [keep, if_neg hlt]
    omega

/-- There are never more than `k`. -/
theorem len_keep_le (h : Heap β) {k : Nat} (hle : h.len ≤ k) (x : β) : (h.keep k x).len ≤ k := by
  have hlen : (h.push x).items.length = h.len + 1 := h.len_push x
  by_cases hlt : k < (h.push x).len
  · rw [keep, if_pos hlt, len, pop, List.length_tail]
    omega
  · rw [keep, if_neg hlt]
    exact not_lt.mp hlt

/-- The least element is below the others. -/
theorem le_of_peek {h : Heap β} {x : β} (hpeek : h.peek = some x) : ∀ y ∈ h.items, x ≤ y := by
  obtain ⟨items, sorted⟩ := h
  cases items with
  | nil => cases hpeek
  | cons a items =>
    obtain rfl : a = x := Option.some.inj hpeek
    intro y hy
    rcases List.mem_cons.mp hy with rfl | hy
    · exact le_refl y
    · exact (List.pairwise_cons.mp sorted).1 y hy

/-- **A bounded heap keeps the best `k`**, for a score that the heap's order respects. -/
theorem isTop_keep {R : Type*} [LinearOrder R] {score : β → R} (hscore : Monotone score) {k : Nat}
    {h : Heap β} {all : Multiset β} (htop : IsTop score k ↑h.items all) (x : β) :
    IsTop score k ↑(h.keep k x).items (x ::ₘ all) := by
  have hcard : (↑h.items : Multiset β).card = h.len := rfl
  have hpush := h.coe_push x
  rcases Nat.lt_or_ge h.len k with hroom | hge
  · have hkeep : h.keep k x = h.push x := if_neg (by rw [len_push]; omega)
    rw [hkeep, hpush]
    exact htop.cons (by rwa [hcard]) x
  · have hfull : h.len = k := le_antisymm (hcard ▸ htop.1) hge
    have hkeep : h.keep k x = (h.push x).pop := if_pos (by rw [len_push]; omega)
    rw [hkeep]
    have hlen := h.len_push x
    generalize h.push x = pushed at hpush hlen
    obtain ⟨items, sorted⟩ := pushed
    cases items with
    | nil => cases hlen
    | cons least kept =>
      have hsplit : x ::ₘ (↑h.items : Multiset β) = least ::ₘ ↑kept := hpush.symm
      refine htop.evict (by rwa [hcard]) hsplit (fun z hz => hscore ?_)
      exact (List.pairwise_cons.mp sorted).1 z hz

end Heap

end TopK
