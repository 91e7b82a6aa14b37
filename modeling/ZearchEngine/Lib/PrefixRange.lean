/-
# The range of a prefix

In a sorted list of words, those with a given prefix stand together, and begin where the words
are no longer below the prefix.  So skipping what is below and taking what has the prefix finds
all of them (`scan_eq_filter`).
-/
import Mathlib.Data.List.Lex
import Mathlib.Order.Lattice

namespace PrefixRange

variable {α β : Type*} [LinearOrder α]

/-- What lies between a prefix and a word that has it, has it as well. -/
theorem prefix_of_between : ∀ {p t u : List α}, ¬ t < p → t < u → p <+: u → p <+: t
  | [], _, _, _, _, _ => List.nil_prefix
  | a :: p, [], u, hpt, _, _ => absurd (List.nil_lt_cons a p) hpt
  | a :: p, b :: t, [], _, _, hpu => by
    rw [List.prefix_nil] at hpu
    cases hpu
  | a :: p, b :: t, c :: u, hpt, htu, hpu => by
    obtain ⟨rfl, hpu'⟩ := List.cons_prefix_cons.mp hpu
    rw [List.cons_lt_cons_iff, not_or, not_and, not_lt] at hpt
    rcases List.cons_lt_cons_iff.mp htu with hlt | ⟨rfl, htu'⟩
    · exact absurd hlt (not_lt.mpr hpt.1)
    · exact List.cons_prefix_cons.mpr ⟨rfl, prefix_of_between (hpt.2 rfl) htu' hpu'⟩

variable (key : β → List α) (p : List α)

/-- Where no word is below the prefix, those that have it come first. -/
theorem takeWhile_eq_filter : ∀ {l : List β}, l.Pairwise (fun a b => key a < key b) →
    (∀ b ∈ l, ¬ key b < p) →
    l.takeWhile (fun b => p.isPrefixOf (key b)) = l.filter (fun b => p.isPrefixOf (key b))
  | [], _, _ => rfl
  | a :: l, hsorted, hlow => by
    obtain ⟨hfirst, hrest⟩ := List.pairwise_cons.mp hsorted
    obtain ⟨ha, hl⟩ := List.forall_mem_cons.mp hlow
    rw [List.takeWhile_cons, List.filter_cons]
    by_cases hp : p.isPrefixOf (key a) = true
    · rw [if_pos hp, if_pos hp, takeWhile_eq_filter hrest hl]
    · rw [if_neg hp, if_neg hp]
      refine (List.filter_eq_nil_iff.mpr fun b hb hpb => hp ?_).symm
      rw [List.isPrefixOf_iff_prefix] at hpb ⊢
      exact prefix_of_between ha (hfirst b hb) hpb

/-- **Scanning finds the words with the prefix.** -/
theorem scan_eq_filter : ∀ {l : List β}, l.Pairwise (fun a b => key a < key b) →
    (l.dropWhile (fun b => key b < p)).takeWhile (fun b => p.isPrefixOf (key b))
      = l.filter (fun b => p.isPrefixOf (key b))
  | [], _ => rfl
  | a :: l, hsorted => by
    obtain ⟨hfirst, hrest⟩ := List.pairwise_cons.mp hsorted
    by_cases hlow : key a < p
    · have hnot : ¬ p.isPrefixOf (key a) = true := fun hp =>
        (List.IsPrefix.le (List.isPrefixOf_iff_prefix.mp hp)) hlow
      rw [List.dropWhile_cons_of_pos (by simpa using hlow), scan_eq_filter hrest,
        List.filter_cons, if_neg hnot]
    · rw [List.dropWhile_cons_of_neg (by simpa using hlow)]
      refine takeWhile_eq_filter key p hsorted (List.forall_mem_cons.mpr ⟨hlow, fun b hb hb' => ?_⟩)
      exact hlow ((hfirst b hb).trans hb')

end PrefixRange
