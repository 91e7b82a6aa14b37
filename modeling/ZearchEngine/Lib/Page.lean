/-
# Pages of a list

A page is `limit` elements from position `offset` on.  Consecutive pages are one longer page
(`page_append`), and a page shows what has been taken out of a list: taking elements out before
the page is cut leaves the page as it was only if none of them stood before its end
(`page_filter_eq_iff`).
-/
import Mathlib.Data.List.NodupEquivFin
import Mathlib.Data.List.TakeDrop
import Mathlib.Order.Monotone.Basic
import Mathlib.Order.WellFounded

namespace ZearchEngine

variable {α β : Type*}

/-- The elements from `offset` on, at most `limit`. -/
def page (offset limit : Nat) (l : List α) : List α := (l.drop offset).take limit

theorem length_page (offset limit : Nat) (l : List α) :
    (page offset limit l).length = min limit (l.length - offset) := by
  rw [page, List.length_take, List.length_drop]

theorem page_sublist (offset limit : Nat) (l : List α) : (page offset limit l).Sublist l :=
  (List.take_sublist _ _).trans (List.drop_sublist _ _)

/-- The page that shows everything. -/
theorem page_zero_of_le {limit : Nat} {l : List α} (h : l.length ≤ limit) :
    page 0 limit l = l := by
  rw [page, List.drop_zero, List.take_of_length_le h]

theorem page_map (f : α → β) (offset limit : Nat) (l : List α) :
    page offset limit (l.map f) = (page offset limit l).map f := by
  rw [page, page, ← List.map_drop, ← List.map_take]

/-- Where all elements are found, pages can be cut out before or after looking for them. -/
theorem page_filterMap {f : α → Option β} {l : List α} (h : ∀ a ∈ l, (f a).isSome = true)
    (offset limit : Nat) :
    page offset limit (l.filterMap f) = (page offset limit l).filterMap f := by
  have hfound : ∀ {l : List α}, (∀ a ∈ l, (f a).isSome = true) →
      (l.filterMap f).map some = l.map f := by
    intro l h
    rw [List.map_filterMap_some_eq_filter_map_isSome, List.filter_eq_self]
    intro o ho
    obtain ⟨a, ha, rfl⟩ := List.mem_map.mp ho
    exact h a ha
  refine List.map_injective_iff.mpr (Option.some_injective β) ?_
  calc (page offset limit (l.filterMap f)).map some
      = page offset limit (l.map f) := by rw [← page_map, hfound h]
    _ = (page offset limit l).map f := page_map f offset limit l
    _ = ((page offset limit l).filterMap f).map some :=
        (hfound fun a ha => h a ((page_sublist offset limit l).subset ha)).symm

/-- **Consecutive pages put together** are one longer page. -/
theorem page_append (offset a b : Nat) (l : List α) :
    page offset a l ++ page (offset + a) b l = page offset (a + b) l := by
  rw [page, page, page, List.take_add, List.drop_drop]

/-- Taking out what stands after the page leaves the page as it was. -/
theorem page_filter_eq_of_forall {p : α → Bool} {offset limit : Nat} {l : List α}
    (h : ∀ a ∈ l.take (offset + limit), p a) :
    page offset limit (l.filter p) = page offset limit l := by
  have hsplit : l.filter p
      = l.take (offset + limit) ++ (l.drop (offset + limit)).filter p := by
    conv_lhs => rw [← List.take_append_drop (offset + limit) l, List.filter_append,
      List.filter_eq_self.mpr h]
  by_cases hlen : l.length ≤ offset + limit
  · rw [hsplit, List.drop_eq_nil_of_le hlen, List.filter_nil, List.append_nil,
      List.take_of_length_le hlen]
  · have htake : (l.filter p).take (offset + limit) = l.take (offset + limit) := by
      rw [hsplit, List.take_append_of_le_length (by rw [List.length_take]; omega),
        List.take_take, Nat.min_self]
    calc page offset limit (l.filter p)
        = ((l.filter p).take (offset + limit)).drop offset := by
          rw [page, List.drop_take, Nat.add_sub_cancel_left]
      _ = (l.take (offset + limit)).drop offset := by rw [htake]
      _ = page offset limit l := by rw [page, List.drop_take, Nat.add_sub_cancel_left]

/-- In a list without repetitions, an element that keeps its position when elements are taken
out has lost none before it. -/
theorem forall_take_of_getElem?_filter {p : α → Bool} : ∀ {l : List α} {n : Nat} {a : α},
    l.Nodup → l[n]? = some a → (l.filter p)[n]? = some a → ∀ b ∈ l.take n, p b
  | [], _, _, _, ha, _ => by simp at ha
  | b :: l, 0, _, _, _, _ => by simp
  | b :: l, n + 1, a, hnodup, ha, hfilter => by
    rw [List.nodup_cons] at hnodup
    rw [List.getElem?_cons_succ] at ha
    cases hb : p b with
    | true =>
      rw [List.filter_cons_of_pos hb, List.getElem?_cons_succ] at hfilter
      have ih := forall_take_of_getElem?_filter hnodup.2 ha hfilter
      rw [List.take_succ_cons]
      intro c hc
      rcases List.mem_cons.mp hc with rfl | hc
      · exact hb
      · exact ih c hc
    | false =>
      -- with `b` gone, `a` stands too far left for a list of which all positions are different
      exfalso
      rw [List.filter_cons_of_neg (by simp [hb])] at hfilter
      have hlt : n + 1 < (l.filter p).length := (List.getElem?_eq_some_iff.mp hfilter).1
      obtain ⟨f, hf⟩ := List.sublist_iff_exists_orderEmbedding_getElem?_eq.mp
        (List.filter_sublist (p := p) (l := l))
      have hpos : l[f (n + 1)]? = some a := by rw [← hf, hfilter]
      have hge : n + 1 ≤ f (n + 1) := f.strictMono.le_apply
      have hn : n < l.length := (List.getElem?_eq_some_iff.mp ha).1
      have hinj := (List.getElem?_inj hn hnodup.2).mp (ha.trans hpos.symm)
      omega

/-- **A page shows what was taken out before its end**: of a list without repetitions, the page
is as it was exactly if it is empty or nothing up to its end was taken out. -/
theorem page_filter_eq_iff {p : α → Bool} {offset limit : Nat} {l : List α} (hnodup : l.Nodup) :
    page offset limit (l.filter p) = page offset limit l ↔
      limit = 0 ∨ l.length ≤ offset ∨ ∀ a ∈ l.take (offset + limit), p a := by
  constructor
  · intro heq
    by_contra hnot
    push Not at hnot
    obtain ⟨hlimit, hoffset, a, ha, hpa⟩ := hnot
    have hfirst : (page offset limit l)[0]? = l[offset]? := by
      rw [page, List.getElem?_take_of_lt (Nat.pos_of_ne_zero hlimit), List.getElem?_drop]
      rfl
    have hfirst' : (page offset limit (l.filter p))[0]? = (l.filter p)[offset]? := by
      rw [page, List.getElem?_take_of_lt (Nat.pos_of_ne_zero hlimit), List.getElem?_drop]
      rfl
    have hget : l[offset]? = some l[offset] := List.getElem?_eq_getElem hoffset
    have hbefore := forall_take_of_getElem?_filter hnodup hget
      (by rw [← hfirst', heq, hfirst, hget])
    rw [List.take_add] at ha
    rcases List.mem_append.mp ha with hmem | hmem
    · exact hpa (hbefore a hmem)
    · have hin : a ∈ page offset limit (l.filter p) := by rw [heq]; exact hmem
      exact hpa (List.mem_filter.mp ((page_sublist _ _ _).subset hin)).2
  · rintro (rfl | hoffset | hall)
    · rfl
    · have hle : (l.filter p).length ≤ offset := Nat.le_trans (List.length_filter_le p l) hoffset
      rw [page, page, List.drop_eq_nil_of_le hle, List.drop_eq_nil_of_le hoffset]
    · exact page_filter_eq_of_forall hall

end ZearchEngine
