/-
# Keys of the query cache

`QueryCacheKey::from_request` (`crates/router/src/cache.rs`).  The key has the parts of the
request that the response depends on; the filters are flattened to one string each and sorted by
field, so that the order in which a `HashMap` is iterated does not matter.

A filter's string starts with its kind, and a range is two bounds that contain no colon, so for
these two kinds the string determines the filter.  The values of an `in` list are joined with
commas, and a value may itself have a comma in it: `["a,b"]` and `["a", "b"]` have one string.
`sound_iff` says which pairs of requests the key tells apart as it should: all but those that
have such lists on a field and agree otherwise.

How `{:?}` writes an `f64` is a parameter, of which what Rust documents is assumed.
-/
import ZearchEngine.Router
import Mathlib.Data.String.Basic
import Std.Data.String.ToNat

namespace ZearchEngine

/-! ## 1. Requests and keys -/

/-- `SearchRequest` with all its fields.  `filters` is a map: no field stands in it twice. -/
structure ClientRequest extends Router.Request where
  language : Option String := none
  nodup : (filters.map Prod.fst).Nodup := by decide

/-- The filter on a field. -/
def ClientRequest.filterOn (req : ClientRequest) (field : String) : Option FilterValue :=
  (req.filters.find? (fun f => f.1 = field)).map Prod.snd

structure QueryCacheKey where
  query : String
  /-- Sorted (field, serialized value) pairs. -/
  filters : List (String × String)
  aggregations : List String
  /-- The field, and whether the order is ascending. -/
  sort : Option (String × Bool)
  offset : Nat
  limit : Nat
  typoTolerance : Bool
  language : Option String
  destinationZone : Option String
deriving DecidableEq

/-- The same number: the same float, or two NaNs. -/
def F64.Same (a b : F64) : Prop := a = b ∨ (a.key = none ∧ b.key = none)

/-- `{:?}` of an `f64`: the shortest decimal that is read as the same float, and `NaN`. -/
structure FloatDebug where
  text : F64 → String
  text_eq_iff : ∀ a b, text a = text b ↔ a.Same b
  no_colon : ∀ a, ':' ∉ (text a).toList

namespace QueryCacheKey

variable (debug : FloatDebug)

/-- `{:?}` of an `Option<f64>`. -/
def boundText : Option F64 → String
  | none => "None"
  | some x => "Some(" ++ debug.text x ++ ")"

/-- The values of an `in` list, sorted and joined. -/
def joined (values : List String) : String := ",".intercalate (values.insertionSort (· ≤ ·))

/-- The serialized value of a filter. -/
def filterText : FilterValue → String
  | .equality eq => "eq:" ++ eq
  | .range gte lte => "range:" ++ boundText debug gte ++ ":" ++ boundText debug lte
  | .multiValue values => "in:" ++ joined values

/-- `sort_by` on the field. -/
def sortByField (filters : List (String × String)) : List (String × String) :=
  filters.insertionSort (fun a b => a.1 ≤ b.1)

/-- `from_request`. -/
def fromRequest (req : ClientRequest) : QueryCacheKey where
  query := req.query
  filters := sortByField (req.filters.map (fun (field, filter) => (field, filterText debug filter)))
  aggregations := req.aggregations
  sort := req.sort.map (fun s => (s.field, s.order = .asc))
  offset := req.offset
  limit := req.limit
  typoTolerance := req.typoTolerance
  language := req.language
  destinationZone := req.destinationZone

end QueryCacheKey

/-! ## 2. What the key should tell apart -/

/-- Filters of the same kind with the same operands, where `J` compares the values of `in`
lists. -/
def FilterValue.SameBy (J : List String → List String → Prop) : FilterValue → FilterValue → Prop
  | .equality a, .equality b => a = b
  | .range gte lte, .range gte' lte' => Option.Rel F64.Same gte gte' ∧ Option.Rel F64.Same lte lte'
  | .multiValue values, .multiValue values' => J values values'
  | _, _ => False

/-- The requests agree on all that the response depends on, and have the same filter on every
field.  Which documents a hit brings along is not part of it. -/
structure AgreeBy (J : List String → List String → Prop) (r r' : ClientRequest) : Prop where
  query : r.query = r'.query
  aggregations : r.aggregations = r'.aggregations
  sort : r.sort = r'.sort
  offset : r.offset = r'.offset
  limit : r.limit = r'.limit
  typoTolerance : r.typoTolerance = r'.typoTolerance
  language : r.language = r'.language
  destinationZone : r.destinationZone = r'.destinationZone
  filters : ∀ field, Option.Rel (FilterValue.SameBy J) (r.filterOn field) (r'.filterOn field)

/-- The requests agree, up to the order of the values of an `in` list. -/
abbrev Agree : ClientRequest → ClientRequest → Prop := AgreeBy List.Perm

/-- Requests that agree under one comparison of `in` lists agree under another that holds of the
lists they have. -/
theorem AgreeBy.mono {J J' : List String → List String → Prop} {r r' : ClientRequest}
    (h : AgreeBy J r r')
    (hJ : ∀ field values values', r.filterOn field = some (.multiValue values) →
      r'.filterOn field = some (.multiValue values') → J values values' → J' values values') :
    AgreeBy J' r r' := by
  refine { h with filters := fun field => ?_ }
  have hfield := h.filters field
  cases hf : r.filterOn field with
  | none =>
    rw [hf] at hfield
    cases hf' : r'.filterOn field with
    | none => exact .none
    | some f' => simp [hf'] at hfield
  | some f =>
    rw [hf] at hfield
    cases hf' : r'.filterOn field with
    | none => simp [hf'] at hfield
    | some f' =>
      rw [hf'] at hfield
      have hsame : f.SameBy J f' := by simpa using hfield
      refine .some ?_
      cases f with
      | multiValue values =>
        cases f' with
        | multiValue values' => exact hJ field values values' hf hf' hsame
        | _ => exact hsame
      | _ => cases f' <;> exact hsame

namespace QueryCacheKey

variable (debug : FloatDebug)

/-! ## 3. One filter -/

/-- Text up to a first separator determines what stands before and behind it. -/
theorem append_cons_inj {α : Type} {c : α} : ∀ {a b a' b' : List α}, c ∉ a → c ∉ a' →
    (a ++ c :: b = a' ++ c :: b' ↔ a = a' ∧ b = b')
  | [], _, [], _, _, _ => by simp
  | [], _, x :: a', _, _, ha' => by
    have hne : c ≠ x := fun h => ha' (h ▸ List.mem_cons_self)
    simp [hne]
  | x :: a, _, [], _, ha, _ => by
    have hne : x ≠ c := fun h => ha (h ▸ List.mem_cons_self)
    simp [hne]
  | x :: a, b, x' :: a', b', ha, ha' => by
    have ih : a ++ c :: b = a' ++ c :: b' ↔ a = a' ∧ b = b' :=
      append_cons_inj (fun h => ha (List.mem_cons_of_mem _ h))
        (fun h => ha' (List.mem_cons_of_mem _ h))
    simp only [List.cons_append, List.cons.injEq, ih, and_assoc]

theorem colon_not_mem_boundText (bound : Option F64) :
    ':' ∉ (boundText debug bound).toList := by
  cases bound with
  | none => simp [boundText]
  | some x =>
    have hx := debug.no_colon x
    simp [boundText, hx]

theorem boundText_eq_iff (bound bound' : Option F64) :
    boundText debug bound = boundText debug bound' ↔ Option.Rel F64.Same bound bound' := by
  cases bound with
  | none =>
    cases bound' with
    | none => simp [boundText]
    | some x' => simp [boundText, String.ext_iff]
  | some x =>
    cases bound' with
    | none => simp [boundText, String.ext_iff]
    | some x' => simp [boundText, debug.text_eq_iff]

/-- **When two filters have one string.** -/
theorem filterText_eq_iff (f f' : FilterValue) :
    filterText debug f = filterText debug f' ↔
      f.SameBy (fun values values' => joined values = joined values') f' := by
  cases f with
  | equality eq =>
    cases f' with
    | equality eq' => simp [filterText, FilterValue.SameBy]
    | range gte lte => simp [filterText, FilterValue.SameBy, String.ext_iff]
    | multiValue values => simp [filterText, FilterValue.SameBy, String.ext_iff]
  | range gte lte =>
    cases f' with
    | equality eq' => simp [filterText, FilterValue.SameBy, String.ext_iff]
    | range gte' lte' =>
      have hsplit : (boundText debug gte).toList ++ ':' :: (boundText debug lte).toList
          = (boundText debug gte').toList ++ ':' :: (boundText debug lte').toList ↔ _ ∧ _ :=
        append_cons_inj (colon_not_mem_boundText debug gte) (colon_not_mem_boundText debug gte')
      rw [FilterValue.SameBy, ← boundText_eq_iff, ← boundText_eq_iff]
      simp only [filterText, String.ext_iff, String.toList_append] at hsplit ⊢
      simpa using hsplit
    | multiValue values => simp [filterText, FilterValue.SameBy, String.ext_iff]
  | multiValue values =>
    cases f' with
    | equality eq' => simp [filterText, FilterValue.SameBy, String.ext_iff]
    | range gte lte => simp [filterText, FilterValue.SameBy, String.ext_iff]
    | multiValue values' => simp [filterText, FilterValue.SameBy]

/-! ## 4. All filters -/

theorem filterOn_eq_some_iff (req : ClientRequest) (field : String) (filter : FilterValue) :
    req.filterOn field = some filter ↔ (field, filter) ∈ req.filters := by
  rw [ClientRequest.filterOn, Option.map_eq_some_iff]
  constructor
  · rintro ⟨⟨field', filter'⟩, hfind, rfl⟩
    obtain rfl : field' = field := by simpa using List.find?_some hfind
    exact List.mem_of_find?_eq_some hfind
  · intro hmem
    cases hfind : req.filters.find? (fun f => f.1 = field) with
    | none => simpa using List.find?_eq_none.mp hfind _ hmem
    | some f =>
      have hfield : f.1 = field := by simpa using List.find?_some hfind
      have heq := List.inj_on_of_nodup_map req.nodup (List.mem_of_find?_eq_some hfind) hmem hfield
      exact ⟨f, rfl, by rw [heq]⟩

/-- **Sorting forgets the order of a map and nothing else.** -/
theorem sortByField_eq_iff {l l' : List (String × String)} (h : (l.map Prod.fst).Nodup)
    (h' : (l'.map Prod.fst).Nodup) :
    sortByField l = sortByField l' ↔ ∀ e, e ∈ l ↔ e ∈ l' := by
  have hperm : ∀ l : List (String × String), (sortByField l).Perm l :=
    fun l => List.perm_insertionSort _ l
  have hsorted : ∀ l : List (String × String),
      (sortByField l).Pairwise (fun a b => a.1 ≤ b.1) := by
    intro l
    have : IsTrans (String × String) (fun a b => a.1 ≤ b.1) := ⟨fun _ _ _ => le_trans⟩
    have : Std.Total (fun a b : String × String => a.1 ≤ b.1) := ⟨fun a b => le_total a.1 b.1⟩
    exact List.pairwise_insertionSort _ l
  constructor
  · intro heq e
    rw [← (hperm l).mem_iff, heq, (hperm l').mem_iff]
  · intro hmem
    have hll : l.Perm l' := (List.perm_ext_iff_of_nodup h.of_map h'.of_map).mpr hmem
    refine ((hperm l).trans (hll.trans (hperm l').symm)).eq_of_pairwise ?_ (hsorted l) (hsorted l')
    intro a b ha hb hab hba
    have ha' : a ∈ l := (hperm l).mem_iff.mp ha
    have hb' : b ∈ l := (hmem b).mpr ((hperm l').mem_iff.mp hb)
    exact List.inj_on_of_nodup_map h ha' hb' (le_antisymm hab hba)

/-- The sorted strings of two requests are the same when the filters on every field have one
string. -/
theorem sortByField_map_eq_iff (text : FilterValue → String) (r r' : ClientRequest) :
    sortByField (r.filters.map (fun (field, filter) => (field, text filter)))
        = sortByField (r'.filters.map (fun (field, filter) => (field, text filter))) ↔
      ∀ field, Option.Rel (fun f f' => text f = text f') (r.filterOn field)
        (r'.filterOn field) := by
  have hmem : ∀ (req : ClientRequest) (field t : String),
      (field, t) ∈ req.filters.map (fun (field, filter) => (field, text filter)) ↔
        ∃ f, req.filterOn field = some f ∧ text f = t := by
    intro req field t
    simp only [List.mem_map, Prod.exists, Prod.mk.injEq, filterOn_eq_some_iff]
    constructor
    · rintro ⟨_, f, hf, rfl, rfl⟩
      exact ⟨f, hf, rfl⟩
    · rintro ⟨f, hf, rfl⟩
      exact ⟨field, f, hf, rfl, rfl⟩
  have hnodup : ∀ req : ClientRequest,
      ((req.filters.map (fun (field, filter) => (field, text filter))).map Prod.fst).Nodup := by
    intro req
    rw [List.map_map]
    exact req.nodup
  rw [sortByField_eq_iff (hnodup r) (hnodup r')]
  constructor
  · intro hall field
    have hfield : ∀ t, (∃ f, r.filterOn field = some f ∧ text f = t) ↔
        ∃ f, r'.filterOn field = some f ∧ text f = t := fun t => by
      rw [← hmem, ← hmem]
      exact hall (field, t)
    cases hf : r.filterOn field with
    | none =>
      cases hf' : r'.filterOn field with
      | none => exact .none
      | some f' => simpa [hf] using (hfield (text f')).mpr ⟨f', hf', rfl⟩
    | some f =>
      obtain ⟨f', hf', htext⟩ := (hfield (text f)).mp ⟨f, hf, rfl⟩
      rw [hf']
      exact .some htext.symm
  · rintro hall ⟨field, t⟩
    rw [hmem, hmem]
    have hfield := hall field
    cases hf : r.filterOn field with
    | none =>
      rw [hf] at hfield
      cases hf' : r'.filterOn field with
      | none => simp
      | some f' => simp [hf'] at hfield
    | some f =>
      rw [hf] at hfield
      cases hf' : r'.filterOn field with
      | none => simp [hf'] at hfield
      | some f' =>
        rw [hf'] at hfield
        have htext : text f = text f' := by simpa using hfield
        simp [htext]

/-! ## 5. Soundness of the key -/

/-- **What a key tells apart**: everything but `in` lists that sort and join to the same
text. -/
theorem fromRequest_eq_iff (r r' : ClientRequest) :
    fromRequest debug r = fromRequest debug r' ↔
      AgreeBy (fun values values' => joined values = joined values') r r' := by
  have hsort : Function.Injective
      (Option.map (fun s : SortSpec => (s.field, decide (s.order = .asc)))) := by
    refine Option.map_injective (fun a b hab => ?_)
    obtain ⟨field, order⟩ := a
    obtain ⟨field', order'⟩ := b
    cases order <;> cases order' <;> simp_all
  have hfilters := sortByField_map_eq_iff (filterText debug) r r'
  simp only [filterText_eq_iff] at hfilters
  constructor
  · intro h
    simp only [fromRequest, QueryCacheKey.mk.injEq] at h
    obtain ⟨hq, hf, ha, hs, ho, hl, ht, hlang, hz⟩ := h
    exact ⟨hq, ha, hsort hs, ho, hl, ht, hlang, hz, hfilters.mp hf⟩
  · intro h
    simp only [fromRequest, QueryCacheKey.mk.injEq]
    exact ⟨h.query, hfilters.mpr h.filters, h.aggregations, by rw [h.sort], h.offset, h.limit,
      h.typoTolerance, h.language, h.destinationZone⟩

/-- Lists with the same values, in whatever order, have one joined text. -/
theorem joined_eq_of_perm {values values' : List String} (h : values.Perm values') :
    joined values = joined values' := by
  have hsorted := fun l : List String => List.pairwise_insertionSort (· ≤ ·) l
  have hperm := fun l : List String => List.perm_insertionSort (· ≤ ·) l
  rw [joined, joined, ((hperm values).trans (h.trans (hperm values').symm)).eq_of_pairwise
    (fun _ _ _ _ => le_antisymm) (hsorted values) (hsorted values')]

/-- The key is sound for two requests if lists of one joined text have the same values. -/
theorem fromRequest_eq_iff_of_perm {r r' : ClientRequest}
    (h : AgreeBy (fun values values' => joined values = joined values') r r' →
      ∀ field values values', r.filterOn field = some (.multiValue values) →
        r'.filterOn field = some (.multiValue values') → values.Perm values') :
    fromRequest debug r = fromRequest debug r' ↔ Agree r r' := by
  rw [fromRequest_eq_iff]
  constructor
  · intro hjoined
    exact hjoined.mono
      (fun field values values' hf hf' _ => h hjoined field values values' hf hf')
  · intro hagree
    exact hagree.mono (fun _ _ _ _ _ hperm => joined_eq_of_perm hperm)

/-- **When the key is sound for two requests.**  Their keys are equal exactly if they agree, if
and only if the lists of `in` filters that they have on the same field are the same values
whenever the two requests agree up to lists of one joined text. -/
theorem sound_iff (r r' : ClientRequest) :
    (fromRequest debug r = fromRequest debug r' ↔ Agree r r') ↔
      (AgreeBy (fun values values' => joined values = joined values') r r' →
        ∀ field values values', r.filterOn field = some (.multiValue values) →
          r'.filterOn field = some (.multiValue values') → values.Perm values') := by
  constructor
  · intro hsound hjoined field values values' hf hf'
    rw [fromRequest_eq_iff] at hsound
    have hfield := (hsound.mp hjoined).filters field
    rw [hf, hf'] at hfield
    simpa [FilterValue.SameBy] using hfield
  · exact fun hcond => fromRequest_eq_iff_of_perm debug hcond

/-! ## 6. Lists without commas -/

/-- The values of the filter's list, if it is an `in` filter, are not empty and have no comma. -/
def Plain (filter : FilterValue) : Prop :=
  ∀ values, filter = .multiValue values → ∀ v ∈ values, v ≠ "" ∧ ',' ∉ v.toList

/-- **The joined text of plain values determines them.** -/
theorem perm_of_joined_eq {values values' : List String}
    (h : ∀ v ∈ values, v ≠ "" ∧ ',' ∉ v.toList) (h' : ∀ v ∈ values', v ≠ "" ∧ ',' ∉ v.toList)
    (heq : joined values = joined values') : values.Perm values' := by
  have hperm := fun l : List String => List.perm_insertionSort (· ≤ ·) l
  -- the text of a list that is not empty is not empty, and splitting it gives the list back
  have hback : ∀ l : List String, (∀ v ∈ l, v ≠ "" ∧ ',' ∉ v.toList) → l ≠ [] →
      ((",".intercalate l).toList.splitOn ',') = l.map String.toList := by
    intro l hl hne
    rw [String.toList_intercalate]
    refine List.splitOn_intercalate ',' (fun cs hcs => ?_) (by simpa using hne)
    obtain ⟨v, hv, rfl⟩ := List.mem_map.mp hcs
    exact (hl v hv).2
  have hempty : ∀ l : List String, (∀ v ∈ l, v ≠ "" ∧ ',' ∉ v.toList) →
      ",".intercalate l = "" → l = [] := by
    intro l hl htext
    by_contra hne
    have hsplit := hback l hl hne
    rw [htext] at hsplit
    obtain ⟨v, rfl⟩ : ∃ v, l = [v] := List.length_eq_one_iff.mp (by
      simpa using (congrArg List.length hsplit).symm)
    exact (hl v (by simp)).1 (by simpa using htext)
  have hplain : ∀ l : List String, (∀ v ∈ l, v ≠ "" ∧ ',' ∉ v.toList) →
      ∀ v ∈ l.insertionSort (· ≤ ·), v ≠ "" ∧ ',' ∉ v.toList :=
    fun l hl v hv => hl v ((hperm l).mem_iff.mp hv)
  have hsorted : values.insertionSort (· ≤ ·) = values'.insertionSort (· ≤ ·) := by
    rw [joined, joined] at heq
    by_cases hnil : values.insertionSort (· ≤ ·) = []
    · rw [hnil] at heq
      rw [hnil, hempty _ (hplain values' h') (by simpa using heq.symm)]
    · have hnil' : values'.insertionSort (· ≤ ·) ≠ [] := by
        intro hn
        rw [hn] at heq
        exact hnil (hempty _ (hplain values h) (by simpa using heq))
      have hmaps := (hback _ (hplain values h) hnil).symm.trans
        ((congrArg (fun t => t.toList.splitOn ',') heq).trans (hback _ (hplain values' h') hnil'))
      exact List.map_injective_iff.mpr (fun a b hab => String.toList_inj.mp hab) hmaps
  exact (hperm values).symm.trans (hsorted ▸ hperm values')

/-- For requests whose lists are plain the key is sound. -/
theorem fromRequest_eq_iff_agree {r r' : ClientRequest}
    (h : ∀ field filter, r.filterOn field = some filter → Plain filter)
    (h' : ∀ field filter, r'.filterOn field = some filter → Plain filter) :
    fromRequest debug r = fromRequest debug r' ↔ Agree r r' :=
  fromRequest_eq_iff_of_perm debug (fun hjoined field values values' hf hf' => by
    have hfield := hjoined.filters field
    rw [hf, hf'] at hfield
    have heq : joined values = joined values' := by simpa [FilterValue.SameBy] using hfield
    exact perm_of_joined_eq (h field _ hf values rfl) (h' field _ hf' values' rfl) heq)

end QueryCacheKey

theorem isDigit_of_mem_repr {n : Nat} {c : Char} (h : c ∈ (Nat.repr n).toList) : c.isDigit := by
  rw [Nat.toList_repr] at h
  exact Nat.isDigit_of_mem_toDigits (by decide) (by decide) h

/-- A way to write floats that tells apart what `{:?}` tells apart: the number of the bits. -/
def FloatDebug.ofBits : FloatDebug where
  text x := if x.key = none then "NaN" else Nat.repr x.bits.toNat
  text_eq_iff a b := by
    have hdigit : ∀ n : Nat, Nat.repr n ≠ "NaN" := by
      intro n hn
      have hN := isDigit_of_mem_repr (n := n) (c := 'N') (by rw [hn]; decide)
      exact absurd hN (by decide)
    have hinj : Nat.repr a.bits.toNat = Nat.repr b.bits.toNat ↔ a = b := by
      rw [Nat.repr_inj, UInt64.toNat_inj, F64.mk.injEq]
    unfold F64.Same
    by_cases ha : a.key = none
    · by_cases hb : b.key = none
      · simp [ha, hb]
      · have hne : a ≠ b := fun hab => hb (hab ▸ ha)
        simp [ha, hb, hne, (hdigit _).symm]
    · by_cases hb : b.key = none
      · have hne : a ≠ b := fun hab => ha (hab ▸ hb)
        simp [ha, hb, hne, hdigit]
      · simp [ha, hb, hinj]
  no_colon a := by
    split
    · decide
    · exact fun hmem => absurd (isDigit_of_mem_repr hmem) (by decide)

namespace QueryCacheKey

/-- **A comma in a value**: a request for the brand "a,b" and one for the brands "a" and "b"
have one key. -/
theorem fromRequest_comma :
    let r : ClientRequest := { filters := [("brand", .multiValue ["a,b"])] }
    let r' : ClientRequest := { filters := [("brand", .multiValue ["a", "b"])] }
    fromRequest .ofBits r = fromRequest .ofBits r' ∧ ¬ Agree r r' := by
  intro r r'
  refine ⟨by rfl, fun hagree => ?_⟩
  have hfield := hagree.filters "brand"
  simp [r, r', ClientRequest.filterOn, FilterValue.SameBy] at hfield

end QueryCacheKey

end ZearchEngine
