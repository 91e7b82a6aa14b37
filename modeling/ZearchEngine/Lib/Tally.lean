/-
# Tallies by key

A list of keys with values, no key twice, to which entries are added one by one: an entry is
combined with what its key already has, or with an initial value.  So each key ends up with its
own entries, combined in order, whatever came between them (`get_foldl_upsert`); counts end up as
sums (`get_foldl_upsert_add`).
-/
import Mathlib.Algebra.BigOperators.Group.List.Basic
import Mathlib.Data.List.Nodup

namespace Tally

variable {κ β γ : Type} [DecidableEq κ]

/-! ## 1. Looking up and adding -/

/-- The value of a key; `init` if it has none. -/
def get (init : β) (entries : List (κ × β)) (key : κ) : β :=
  ((entries.find? (fun m => m.1 = key)).map Prod.snd).getD init

/-- An entry is combined with what its key has. -/
def upsert (combine : β → γ → β) (init : β) (entries : List (κ × β)) (e : κ × γ) :
    List (κ × β) :=
  if entries.any (fun m => m.1 = e.1) then
    entries.map (fun m => if m.1 = e.1 then (m.1, combine m.2 e.2) else m)
  else entries ++ [(e.1, combine init e.2)]

/-- No key has two entries. -/
def Distinct (entries : List (κ × β)) : Prop := (entries.map Prod.fst).Nodup

variable (combine : β → γ → β) (init : β)

theorem Distinct.upsert {entries : List (κ × β)} (h : Distinct entries) (e : κ × γ) :
    Distinct (upsert combine init entries e) := by
  rw [Distinct, Tally.upsert]
  split
  · have hkeys : (entries.map (fun m => if m.1 = e.1 then (m.1, combine m.2 e.2) else m)).map
        Prod.fst = entries.map Prod.fst := by
      rw [List.map_map]
      refine List.map_congr_left fun m _ => ?_
      by_cases hm : m.1 = e.1 <;> simp [hm]
    rw [hkeys]
    exact h
  · next hnone =>
    have hfresh : e.1 ∉ entries.map Prod.fst := by simpa using hnone
    rw [List.map_append, List.map_singleton]
    exact List.nodup_append.mpr ⟨h, List.nodup_singleton _, fun a ha b hb => by
      rw [List.mem_singleton.mp hb]
      exact fun heq => hfresh (heq ▸ ha)⟩

theorem Distinct.foldl_upsert : ∀ (es : List (κ × γ)) {entries : List (κ × β)},
    Distinct entries → Distinct (es.foldl (Tally.upsert combine init) entries)
  | [], _, h => h
  | e :: es, _, h => Distinct.foldl_upsert es (h.upsert combine init e)

/-- **What an entry changes**: the value of its own key. -/
theorem get_upsert (entries : List (κ × β)) (e : κ × γ) (key : κ) :
    get init (upsert combine init entries e) key
      = if e.1 = key then combine (get init entries key) e.2 else get init entries key := by
  have hfind : (entries.map (fun m => if m.1 = e.1 then (m.1, combine m.2 e.2) else m)).find?
      (fun m => m.1 = key) = (entries.find? (fun m => m.1 = key)).map
        (fun m => if m.1 = e.1 then (m.1, combine m.2 e.2) else m) := by
    rw [List.find?_map]
    congr 2
    funext m
    by_cases hm : m.1 = e.1 <;> simp [hm]
  rw [get, upsert]
  split
  · next hany =>
    rw [hfind, Option.map_map]
    by_cases hkey : e.1 = key
    · subst hkey
      have hsome : (entries.find? (fun m => m.1 = e.1)).isSome := by
        simpa [List.find?_isSome] using hany
      obtain ⟨m, hm⟩ := Option.isSome_iff_exists.mp hsome
      have hkeys : m.1 = e.1 := by simpa using List.find?_some hm
      rw [if_pos rfl, get, hm]
      simp [hkeys]
    · rw [if_neg hkey, get]
      cases hm : entries.find? (fun m => m.1 = key) with
      | none => rfl
      | some m =>
        have hkeys : m.1 = key := by simpa using List.find?_some hm
        have hne : ¬ m.1 = e.1 := fun heq => hkey (heq.symm.trans hkeys)
        simp [hne]
  · next hnone =>
    rw [get, List.find?_append]
    by_cases hkey : e.1 = key
    · subst hkey
      have hfresh : entries.find? (fun m => m.1 = e.1) = none :=
        List.find?_eq_none.mpr fun m hm heq => hnone (List.any_eq_true.mpr ⟨m, hm, heq⟩)
      rw [if_pos rfl, hfresh]
      simp
    · rw [if_neg hkey]
      simp [hkey]

/-- **Each key combines its own entries**, in order. -/
theorem get_foldl_upsert (key : κ) : ∀ (es : List (κ × γ)) (entries : List (κ × β)),
    get init (es.foldl (upsert combine init) entries) key
      = ((es.filter (fun e => e.1 = key)).map Prod.snd).foldl combine (get init entries key)
  | [], _ => rfl
  | e :: es, entries => by
    rw [List.foldl_cons, get_foldl_upsert key es, get_upsert]
    by_cases hkey : e.1 = key
    · rw [if_pos hkey, List.filter_cons_of_pos (by simpa using hkey), List.map_cons,
        List.foldl_cons]
    · rw [if_neg hkey, List.filter_cons_of_neg (by simpa using hkey)]

/-- An entry is the value of its key. -/
theorem get_eq_of_mem {entries : List (κ × β)} (h : Distinct entries) {key : κ} {value : β}
    (hmem : (key, value) ∈ entries) : get init entries key = value := by
  have hsome : (entries.find? (fun m => m.1 = key)).isSome :=
    List.find?_isSome.mpr ⟨_, hmem, by simp⟩
  obtain ⟨m, hm⟩ := Option.isSome_iff_exists.mp hsome
  have hkey : m.1 = key := by simpa using List.find?_some hm
  have heq : m = (key, value) :=
    List.inj_on_of_nodup_map h (List.mem_of_find?_eq_some hm) hmem hkey
  rw [get, hm, heq]
  rfl

theorem get_eq_of_forall_ne {entries : List (κ × β)} {key : κ}
    (h : ∀ m ∈ entries, m.1 ≠ key) : get init entries key = init := by
  have hnone : entries.find? (fun m => m.1 = key) = none :=
    List.find?_eq_none.mpr fun m hm => by simpa using h m hm
  rw [get, hnone]
  rfl

/-- The order of the entries does not matter. -/
theorem get_perm {entries entries' : List (κ × β)} (hperm : entries.Perm entries')
    (h : Distinct entries) (key : κ) : get init entries key = get init entries' key := by
  have h' : Distinct entries' := (hperm.map Prod.fst).nodup_iff.mp h
  by_cases hkey : ∃ m ∈ entries, m.1 = key
  · obtain ⟨⟨k, value⟩, hmem, rfl⟩ := hkey
    rw [get_eq_of_mem init h hmem, get_eq_of_mem init h' (hperm.mem_iff.mp hmem)]
  · have hnone : ∀ m ∈ entries, m.1 ≠ key := fun m hm heq => hkey ⟨m, hm, heq⟩
    rw [get_eq_of_forall_ne init hnone,
      get_eq_of_forall_ne init fun m hm => hnone m (hperm.mem_iff.mpr hm)]

/-- A value is that of an entry, or the initial one. -/
theorem get_cases (entries : List (κ × β)) (key : κ) :
    get init entries key = init ∨ ∃ m ∈ entries, get init entries key = m.2 := by
  rw [get]
  cases hm : entries.find? (fun m => m.1 = key) with
  | none => exact Or.inl rfl
  | some m => exact Or.inr ⟨m, List.mem_of_find?_eq_some hm, rfl⟩

/-- Values that are changed one by one. -/
theorem get_map {δ : Type} (f : κ → β → δ) (entries : List (κ × β)) (key : κ) :
    get (f key init) (entries.map (fun m => (m.1, f m.1 m.2))) key
      = f key (get init entries key) := by
  rw [get, get, List.find?_map, Option.map_map]
  show ((entries.find? (fun m => m.1 = key)).map (fun m => f m.1 m.2)).getD (f key init) = _
  cases hfind : entries.find? (fun m => m.1 = key) with
  | none => rfl
  | some m =>
    have hkey : m.1 = key := by simpa using List.find?_some hfind
    rw [← hkey]
    rfl

/-! ## 2. Sums -/

section

variable {α N : Type} [AddCommMonoid N]

/-- The entries of a key, added up by a function. -/
def sumOf (f : β → N) (entries : List (κ × β)) (key : κ) : N :=
  ((entries.filter (fun e => e.1 = key)).map (fun e => f e.2)).sum

/-- Of distinct keys there is one entry at most to be added up. -/
theorem sumOf_eq (f : β → N) (init : β) (hinit : f init = 0) (key : κ) : ∀ {entries : List (κ × β)},
    Distinct entries → sumOf f entries key = f (get init entries key)
  | [], _ => by
    rw [get]
    exact hinit.symm
  | e :: entries, h => by
    obtain ⟨hfresh, hrest⟩ := List.nodup_cons.mp h
    by_cases hkey : e.1 = key
    · have hnone : entries.filter (fun e => e.1 = key) = [] := by
        refine List.filter_eq_nil_iff.mpr fun m hm heq => hfresh ?_
        exact List.mem_map.mpr ⟨m, hm, (of_decide_eq_true heq).trans hkey.symm⟩
      rw [sumOf, List.filter_cons_of_pos (by simpa using hkey), hnone]
      simp [get, hkey]
    · have ih := sumOf_eq f init hinit key hrest
      rw [sumOf, List.filter_cons_of_neg (by simpa using hkey), ← sumOf, ih]
      simp [get, hkey]

theorem sumOf_flatMap (f : β → N) (l : List α) (g : α → List (κ × β)) (key : κ) :
    sumOf f (l.flatMap g) key = (l.map (fun a => sumOf f (g a) key)).sum := by
  rw [sumOf, List.filter_flatMap, List.map_flatMap, List.flatMap_def, List.sum_flatten,
    List.map_map]
  rfl

/-- **Counts are added up.** -/
theorem get_foldl_upsert_add (es : List (κ × N)) (entries : List (κ × N)) (key : κ) :
    get 0 (es.foldl (upsert (· + ·) 0) entries) key = get 0 entries key + sumOf id es key := by
  have hfold : ∀ (l : List N) (start : N), l.foldl (· + ·) start = start + l.sum := by
    intro l
    induction l with
    | nil => simp
    | cons n l ih => simp [ih, add_assoc]
  rw [get_foldl_upsert, hfold]
  rfl

end

end Tally
