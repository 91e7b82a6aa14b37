/-
# Totals over a keyed store

A finite store of values under distinct keys (`AList`), and the total of a measure over its
values in any commutative monoid.  The one law everything else follows from is `total_eq_sum`:
the total is a sum, over any finite set of keys that covers the store, of what each key
contributes, so two stores have equal totals as soon as every key contributes the same.

`alter` changes the value under a key in place, `eraseAll` removes a list of keys, and
`mapValues` changes every value; the first two can be done before or after the third.
-/
import Mathlib.Algebra.BigOperators.Group.Finset.Basic
import Mathlib.Data.List.AList

namespace KeyedStore

variable {κ ν M : Type*} [DecidableEq κ]

/-- Values under distinct keys. -/
abbrev Store (κ ν : Type*) := AList (fun _ : κ => ν)

/-! ## 1. Changing a store -/

/-- Change the value under `k`, if there is one. -/
def alter (k : κ) (f : ν → ν) (m : Store κ ν) : Store κ ν :=
  match m.lookup k with
  | none => m
  | some v => m.insert k (f v)

/-- Remove the keys of a list, one after the other. -/
def eraseAll (ks : List κ) (m : Store κ ν) : Store κ ν :=
  ks.foldl (fun m k => m.erase k) m

theorem lookup_alter_self (k : κ) (f : ν → ν) (m : Store κ ν) :
    (alter k f m).lookup k = (m.lookup k).map f := by
  unfold alter
  split
  · next h => rw [h]; rfl
  · next v h => rw [h, AList.lookup_insert]; rfl

theorem lookup_alter_of_ne {j k : κ} (h : j ≠ k) (f : ν → ν) (m : Store κ ν) :
    (alter k f m).lookup j = m.lookup j := by
  unfold alter
  split
  · rfl
  · exact AList.lookup_insert_ne h

theorem alter_insert (k : κ) (f : ν → ν) (v : ν) (m : Store κ ν) :
    alter k f (m.insert k v) = m.insert k (f v) := by
  rw [alter, AList.lookup_insert]
  exact AList.insert_insert m

theorem lookup_eraseAll : ∀ (ks : List κ) (m : Store κ ν) (j : κ),
    (eraseAll ks m).lookup j = if j ∈ ks then none else m.lookup j
  | [], m, j => by simp [eraseAll]
  | k :: ks, m, j => by
    have ih := lookup_eraseAll ks (m.erase k) j
    rw [eraseAll, List.foldl_cons, ← eraseAll, ih]
    by_cases hj : j = k
    · subst hj
      simp
    · simp [hj, AList.lookup_erase_ne hj]

/-- Keys that are not there leave nothing to remove. -/
theorem eraseAll_of_notMem {m : Store κ ν} : ∀ (ks : List κ), (∀ k ∈ ks, k ∉ m) →
    eraseAll ks m = m
  | [], _ => rfl
  | k :: ks, h => by
    have hfirst : m.erase k = m :=
      AList.ext (List.kerase_of_notMem_keys (h k List.mem_cons_self))
    rw [eraseAll, List.foldl_cons, ← eraseAll, hfirst]
    exact eraseAll_of_notMem ks (fun j hj => h j (List.mem_cons_of_mem k hj))

theorem mem_iff_lookup {m : Store κ ν} {k : κ} : k ∈ m ↔ ∃ v, m.lookup k = some v := by
  rw [← AList.lookup_isSome, Option.isSome_iff_exists]

/-! ## 2. Totals -/

variable [AddCommMonoid M]

/-- What one key contributes. -/
def share (f : ν → M) (v : Option ν) : M := v.elim 0 f

@[simp] theorem share_none (f : ν → M) : share f none = 0 := rfl

@[simp] theorem share_some (f : ν → M) (v : ν) : share f (some v) = f v := rfl

/-- The total of a measure over the values of a store. -/
def total (f : ν → M) (m : Store κ ν) : M := (m.entries.map (fun e => f e.2)).sum

/-- **A total is the sum of what the keys contribute**, over any set of keys that covers the
store. -/
theorem total_eq_sum (f : ν → M) (m : Store κ ν) {S : Finset κ} (hS : ∀ k ∈ m, k ∈ S) :
    total f m = ∑ k ∈ S, share f (m.lookup k) := by
  have hkeys : total f m = (m.keys.map (fun k => share f (m.lookup k))).sum := by
    have hmap : m.keys.map (fun k => share f (m.lookup k))
        = m.entries.map (fun e => share f (m.lookup e.1)) := by
      simp [AList.keys, List.keys]
    rw [total, hmap]
    refine congrArg List.sum (List.map_congr_left (fun e he => ?_))
    have hlook : m.lookup e.1 = some e.2 := AList.mem_lookup_iff.mpr he
    rw [hlook, share_some]
  have hsub : m.keys.toFinset ⊆ S := fun k hk => hS k (List.mem_toFinset.mp hk)
  rw [hkeys, ← List.sum_toFinset _ m.keys_nodup]
  refine Finset.sum_subset hsub (fun k _ hk => ?_)
  have hnone : m.lookup k = none := by
    rw [AList.lookup_eq_none]
    exact fun h => hk (List.mem_toFinset.mpr h)
  rw [hnone, share_none]

/-- Two stores have the same total when every key contributes the same. -/
theorem total_congr (f : ν → M) {m n : Store κ ν}
    (h : ∀ k, share f (m.lookup k) = share f (n.lookup k)) : total f m = total f n := by
  rw [total_eq_sum f m (S := m.keys.toFinset ∪ n.keys.toFinset)
      (fun k hk => Finset.mem_union_left _ (List.mem_toFinset.mpr hk)),
    total_eq_sum f n (S := m.keys.toFinset ∪ n.keys.toFinset)
      (fun k hk => Finset.mem_union_right _ (List.mem_toFinset.mpr hk))]
  exact Finset.sum_congr rfl (fun k _ => h k)

/-- Every key's contribution can be taken out of the total. -/
theorem total_erase (f : ν → M) (m : Store κ ν) (k : κ) :
    total f m = share f (m.lookup k) + total f (m.erase k) := by
  have hS : ∀ j ∈ m, j ∈ insert k (m.keys.toFinset.erase k) := fun j hj => by
    by_cases hjk : j = k
    · exact Finset.mem_insert.mpr (Or.inl hjk)
    · exact Finset.mem_insert_of_mem (Finset.mem_erase.mpr ⟨hjk, List.mem_toFinset.mpr hj⟩)
  have hS' : ∀ j ∈ m.erase k, j ∈ m.keys.toFinset.erase k := fun j hj => by
    obtain ⟨hne, hmem⟩ := AList.mem_erase.mp hj
    exact Finset.mem_erase.mpr ⟨hne, List.mem_toFinset.mpr hmem⟩
  rw [total_eq_sum f m hS, total_eq_sum f _ hS', Finset.sum_insert (Finset.notMem_erase _ _)]
  refine congrArg _ (Finset.sum_congr rfl (fun j hj => ?_))
  rw [AList.lookup_erase_ne (Finset.ne_of_mem_erase hj)]

theorem total_insert (f : ν → M) (m : Store κ ν) (k : κ) (v : ν) :
    total f (m.insert k v) = f v + total f (m.erase k) := by
  rw [total_erase f _ k, AList.lookup_insert, share_some]
  refine congrArg _ (total_congr f (fun j => ?_))
  by_cases hj : j = k
  · subst hj
    simp
  · rw [AList.lookup_erase_ne hj, AList.lookup_erase_ne hj, AList.lookup_insert_ne hj]

theorem total_insert_of_notMem (f : ν → M) {m : Store κ ν} {k : κ} (h : k ∉ m) (v : ν) :
    total f (m.insert k v) = f v + total f m := by
  rw [total_insert, total_erase f m k, AList.lookup_eq_none.mpr h, share_none, zero_add]

omit [DecidableEq κ] in
theorem total_add (f g : ν → M) (m : Store κ ν) :
    total (fun v => f v + g v) m = total f m + total g m :=
  List.sum_map_add

/-- What a list of keys contributes can be taken out of the total. -/
theorem total_eraseAll (f : ν → M) (m : Store κ ν) (ks : List κ) :
    total f m = ∑ k ∈ ks.toFinset, share f (m.lookup k) + total f (eraseAll ks m) := by
  have hS : ∀ j ∈ m, j ∈ ks.toFinset ∪ m.keys.toFinset := fun j hj =>
    Finset.mem_union_right _ (List.mem_toFinset.mpr hj)
  have hS' : ∀ j ∈ eraseAll ks m, j ∈ m.keys.toFinset \ ks.toFinset := fun j hj => by
    obtain ⟨v, hv⟩ := mem_iff_lookup.mp hj
    rw [lookup_eraseAll] at hv
    split at hv
    · cases hv
    · next hnot =>
      have hmem : j ∈ m := mem_iff_lookup.mpr ⟨v, hv⟩
      exact Finset.mem_sdiff.mpr
        ⟨List.mem_toFinset.mpr hmem, fun h => hnot (List.mem_toFinset.mp h)⟩
  rw [total_eq_sum f m hS, total_eq_sum f _ hS', ← Finset.union_sdiff_self_eq_union,
    Finset.sum_union Finset.disjoint_sdiff]
  refine congrArg _ (Finset.sum_congr rfl (fun j hj => ?_))
  have hnot : j ∉ ks := fun h => (Finset.mem_sdiff.mp hj).2 (List.mem_toFinset.mpr h)
  rw [lookup_eraseAll, if_neg hnot]

/-- The members of a total of multisets are the members of its parts. -/
theorem mem_total {β : Type*} {f : ν → Multiset β} {m : Store κ ν} {b : β} :
    b ∈ total f m ↔ ∃ k v, m.lookup k = some v ∧ b ∈ f v := by
  rw [total_eq_sum f m (S := m.keys.toFinset) (fun k hk => List.mem_toFinset.mpr hk),
    Multiset.mem_sum]
  constructor
  · rintro ⟨k, -, hb⟩
    cases hlook : m.lookup k with
    | none => simp [hlook] at hb
    | some v => exact ⟨k, v, hlook, by rwa [hlook] at hb⟩
  · rintro ⟨k, v, hlook, hb⟩
    have hk : k ∈ m := mem_iff_lookup.mpr ⟨v, hlook⟩
    exact ⟨k, List.mem_toFinset.mpr hk, by rw [hlook]; exact hb⟩

/-! ## 3. Mapping the values -/

variable {μ : Type*} (g : ν → μ)

omit [DecidableEq κ] in
theorem keys_map_snd (l : List (Sigma fun _ : κ => ν)) :
    (l.map (fun e => (⟨e.1, g e.2⟩ : Sigma fun _ : κ => μ))).keys = l.keys := by
  simp [List.keys, Function.comp_def]

/-- Change every value, and leave the keys as they are. -/
def mapValues (m : Store κ ν) : Store κ μ where
  entries := m.entries.map (fun e => ⟨e.1, g e.2⟩)
  nodupKeys := by
    rw [List.NodupKeys, keys_map_snd]
    exact m.nodupKeys

omit [DecidableEq κ] in
@[simp] theorem keys_mapValues (m : Store κ ν) : (mapValues g m).keys = m.keys :=
  keys_map_snd g m.entries

omit [DecidableEq κ] in
@[simp] theorem mem_mapValues {m : Store κ ν} {k : κ} : k ∈ mapValues g m ↔ k ∈ m := by
  rw [AList.mem_keys, keys_mapValues, ← AList.mem_keys]

@[simp] theorem lookup_mapValues (m : Store κ ν) (k : κ) :
    (mapValues g m).lookup k = (m.lookup k).map g :=
  @List.dlookup_map₂ κ _ (fun _ => ν) (fun _ => μ) m.entries (fun _ => g) k

theorem kerase_map (k : κ) : ∀ l : List (Sigma fun _ : κ => ν),
    (l.map (fun e => (⟨e.1, g e.2⟩ : Sigma fun _ : κ => μ))).kerase k
      = (l.kerase k).map (fun e => ⟨e.1, g e.2⟩)
  | [] => rfl
  | ⟨j, v⟩ :: l => by
    by_cases hk : k = j
    · subst hk
      simp
    · have ih := kerase_map k l
      have hleft : (⟨j, g v⟩ :: l.map (fun e => (⟨e.1, g e.2⟩ : Sigma fun _ : κ => μ))).kerase k
          = ⟨j, g v⟩ :: (l.map (fun e => ⟨e.1, g e.2⟩)).kerase k := List.kerase_cons_ne hk
      rw [List.map_cons, hleft, ih, List.kerase_cons_ne hk, List.map_cons]

theorem mapValues_erase (m : Store κ ν) (k : κ) :
    mapValues g (m.erase k) = (mapValues g m).erase k :=
  AList.ext (kerase_map g k m.entries).symm

theorem mapValues_insert (m : Store κ ν) (k : κ) (v : ν) :
    mapValues g (m.insert k v) = (mapValues g m).insert k (g v) := by
  have hrest := kerase_map g k m.entries
  refine AList.ext ?_
  simp only [mapValues, AList.entries_insert, List.map_cons, hrest]

theorem mapValues_eraseAll : ∀ (ks : List κ) (m : Store κ ν),
    mapValues g (eraseAll ks m) = eraseAll ks (mapValues g m)
  | [], _ => rfl
  | k :: ks, m => by
    rw [eraseAll, List.foldl_cons, ← eraseAll, mapValues_eraseAll ks, mapValues_erase]
    rfl

/-- A change of one value, before and after all values are mapped. -/
theorem mapValues_alter {f : ν → ν} {f' : μ → μ} (h : ∀ v, g (f v) = f' (g v)) (k : κ)
    (m : Store κ ν) : mapValues g (alter k f m) = alter k f' (mapValues g m) := by
  unfold alter
  rw [lookup_mapValues]
  cases m.lookup k with
  | none => rfl
  | some v => simp only [Option.map_some, mapValues_insert, h]

end KeyedStore
