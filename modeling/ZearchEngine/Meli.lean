/-
# The catalogue mapper

`MeliMapper` of `crates/meli` (`mapper.rs`, `types.rs`) turns the items of a catalogue into
documents.  The id of a document is the number after the site prefix of the item's id.

The site is dropped, and a number may be written with a plus sign and leading zeros.  So two
items get one document id exactly if what is left of their ids after the prefix, the plus sign
and the zeros is the same (`map_id_eq_iff`).  Within a site this leaves every plainly written id
its own document; across sites it does not (`not_map_injective`).

The attributes of a document are strings, so it is the same on every shard (`received_of_map`);
an item without a document is reported under the field at fault (`map_eq_error_iff`).

`to_lowercase` is the standard library's Unicode function, and the results hold for any.
-/
import ZearchEngine.Proto
import ZearchEngine.Schema
import ZearchEngine.SegmentName

namespace ZearchEngine

/-! ## 1. Items -/

structure MeliAttribute where
  id : String
  name : String
  valueName : Option String

/-- An item as returned by the Items API. -/
structure MeliItem where
  id : String
  siteId : String
  title : String
  price : F64
  categoryId : String
  condition : String
  attributes : List MeliAttribute
  thumbnail : String
  status : String

inductive MappingError where
  | invalidId (id : String)
  | invalidCategoryId (categoryId : String)
deriving DecidableEq

/-- `#[error(..)]`. -/
def MappingError.toString : MappingError → String
  | .invalidId id =>
    "invalid item id '" ++ id ++ "': expected site prefix + numeric id (e.g. MLA1234)"
  | .invalidCategoryId id =>
    "invalid category_id '" ++ id ++ "': expected site prefix + numeric id (e.g. MLA109027)"

/-! ## 2. Attributes -/

/-- `attributes.insert(key, value)`: a key that is there keeps its place and gets the value. -/
def Attributes.insert (a : Attributes) (key : String) (value : Value) : Attributes where
  entries :=
    if key ∈ a.entries.map Prod.fst then
      a.entries.map (fun e => (e.1, if e.1 = key then value else e.2))
    else a.entries ++ [(key, value)]
  nodup := by
    split
    · next hkey => simpa [Function.comp_def] using a.nodup
    · next hkey =>
      rw [List.map_append]
      exact a.nodup.append (List.nodup_singleton key) (by simpa using hkey)

/-- `collect` into a `HashMap`. -/
def Attributes.collect (entries : List (String × Value)) : Attributes :=
  entries.foldl (fun a e => a.insert e.1 e.2) .empty

/-- `if !s.is_empty() { attributes.insert(key, Value::String(s)) }`. -/
def Attributes.insertNonempty (a : Attributes) (key s : String) : Attributes :=
  if s.isEmpty then a else a.insert key (.string s)

theorem Attributes.AllStrings.insert {a : Attributes} (h : a.AllStrings) (key s : String) :
    (a.insert key (.string s)).AllStrings := by
  intro e he
  simp only [Attributes.insert] at he
  split at he
  · obtain ⟨old, hold, rfl⟩ := List.mem_map.mp he
    by_cases hkey : old.1 = key
    · exact ⟨s, by simp [hkey]⟩
    · simpa [hkey] using h old hold
  · rcases List.mem_append.mp he with hold | hnew
    · exact h e hold
    · exact ⟨s, by rw [List.mem_singleton.mp hnew]⟩

theorem Attributes.AllStrings.insertNonempty {a : Attributes} (h : a.AllStrings)
    (key s : String) : (a.insertNonempty key s).AllStrings := by
  unfold Attributes.insertNonempty
  split
  · exact h
  · exact h.insert key s

theorem Attributes.AllStrings.foldl_insert {entries : List (String × Value)} {a : Attributes}
    (h : a.AllStrings) (hall : ∀ e ∈ entries, ∃ s, e.2 = .string s) :
    (entries.foldl (fun a e => a.insert e.1 e.2) a).AllStrings := by
  induction entries generalizing a with
  | nil => exact h
  | cons e entries ih =>
    obtain ⟨s, hs⟩ := hall e List.mem_cons_self
    rw [List.foldl_cons, hs]
    exact ih (h.insert e.1 s) (fun e' he' => hall e' (List.mem_cons_of_mem e he'))

theorem Attributes.allStrings_collect {entries : List (String × Value)}
    (hall : ∀ e ∈ entries, ∃ s, e.2 = .string s) : (Attributes.collect entries).AllStrings := by
  have hempty : Attributes.empty.AllStrings := by
    intro e he
    cases he
  exact hempty.foldl_insert hall

/-! ## 3. The mapper -/

/-- Strip the site prefix and parse the numeric suffix as `u64`. -/
def stripPrefix (id siteId : String) : Option UInt64 :=
  if startsWith id siteId then
    (parseU64 (id.toList.drop siteId.toList.length)).map .ofNat
  else none

/-- An id with a number is the prefix and a text for the number. -/
theorem stripPrefix_eq_some_iff {id siteId : String} {n : UInt64} :
    stripPrefix id siteId = some n ↔
      ∃ rest, id.toList = siteId.toList ++ rest ∧ parseU64 rest = some n.toNat := by
  unfold stripPrefix startsWith
  rw [Option.ite_none_right_eq_some, List.isPrefixOf_iff_prefix]
  constructor
  · rintro ⟨⟨rest, hrest⟩, hparse⟩
    rw [← hrest, List.drop_left] at hparse
    obtain ⟨m, hm, rfl⟩ := Option.map_eq_some_iff.mp hparse
    have hlt : m < 2 ^ 64 := (parseU64_eq_some_iff.mp hm).1.2.2
    exact ⟨rest, hrest.symm, by rw [hm, UInt64.toNat_ofNat_of_lt' hlt]⟩
  · rintro ⟨rest, hrest, hparse⟩
    rw [hrest, List.drop_left, hparse]
    exact ⟨List.prefix_append _ _, by simp⟩

namespace MeliMapper

variable (toLowercase : String → String)

/-- The attributes with a value, and after them the fields that have a place of their own. -/
def documentAttributes (item : MeliItem) : Attributes :=
  let attributes := Attributes.collect (item.attributes.filterMap (fun a =>
    a.valueName.map (fun val => (toLowercase a.id, .string val))))
  ((attributes.insertNonempty "condition" item.condition).insertNonempty
    "thumbnail" item.thumbnail).insertNonempty "status" item.status

/-- Convert an item into a document, stripping the site prefix from `id` and `category_id`. -/
def map (item : MeliItem) : Except MappingError Document :=
  match stripPrefix item.id item.siteId with
  | none => .error (.invalidId item.id)
  | some id =>
    match stripPrefix item.categoryId item.siteId with
    | none => .error (.invalidCategoryId item.categoryId)
    | some category =>
      .ok {
        id
        title := item.title
        description := ""
        price := item.price
        category := ToString.toString category
        attributes := documentAttributes toLowercase item }

/-- Map a batch, returning the documents and the errors. -/
def mapBatch (items : List MeliItem) : List Document × List MappingError :=
  items.foldl (fun acc item =>
    match map toLowercase item with
    | .ok doc => (acc.1 ++ [doc], acc.2)
    | .error e => (acc.1, acc.2 ++ [e])) ([], [])

variable {toLowercase : String → String}

/-- The document of an item has the number in the item's id. -/
theorem of_map_eq_ok {item : MeliItem} {doc : Document} (h : map toLowercase item = .ok doc) :
    stripPrefix item.id item.siteId = some doc.id ∧
      doc.attributes = documentAttributes toLowercase item := by
  unfold map at h
  split at h
  · cases h
  · next id hid =>
    split at h
    · cases h
    · cases h
      exact ⟨hid, rfl⟩

/-- An error names the field that has no number after the site. -/
theorem map_eq_error_iff {item : MeliItem} {e : MappingError} :
    map toLowercase item = .error e ↔
      (e = .invalidId item.id ∧ stripPrefix item.id item.siteId = none) ∨
      (e = .invalidCategoryId item.categoryId ∧ stripPrefix item.id item.siteId ≠ none ∧
        stripPrefix item.categoryId item.siteId = none) := by
  unfold map
  split
  · next hid => simp [hid, eq_comm]
  · next id hid =>
    split
    · next hcategory => simp [hid, hcategory, eq_comm]
    · next category hcategory => simp [hid, hcategory]

theorem allStrings_documentAttributes (item : MeliItem) :
    (documentAttributes toLowercase item).AllStrings := by
  have hcollect : (Attributes.collect (item.attributes.filterMap (fun a =>
      a.valueName.map (fun val => (toLowercase a.id, Value.string val))))).AllStrings := by
    refine Attributes.allStrings_collect (fun e he => ?_)
    obtain ⟨a, -, ha⟩ := List.mem_filterMap.mp he
    obtain ⟨val, -, rfl⟩ := Option.map_eq_some_iff.mp ha
    exact ⟨val, rfl⟩
  exact ((hcollect.insertNonempty "condition" item.condition).insertNonempty
    "thumbnail" item.thumbnail).insertNonempty "status" item.status

/-- **The attributes of a mapped document are strings**, so every way to a shard keeps it. -/
theorem received_of_map {item : MeliItem} {doc : Document}
    (h : map toLowercase item = .ok doc) : doc.received = doc := by
  rw [received_eq_iff, (of_map_eq_ok h).2]
  exact allStrings_documentAttributes item

end MeliMapper

/-! ## 4. Which items share a document -/

namespace MeliItem

/-- The id without the site prefix. -/
def suffix (item : MeliItem) : List Char := item.id.toList.drop item.siteId.toList.length

/-- What counts of the id: neither the prefix, nor a plus sign, nor leading zeros. -/
def numeral (item : MeliItem) : List Char := Digits.significant (withoutPlus item.suffix)

/-- The number is written without a plus sign and without leading zeros. -/
def Plain (item : MeliItem) : Prop :=
  ∀ c rest, item.suffix = c :: rest → c ≠ '+' ∧ (c = '0' → rest = [])

variable {a b : MeliItem} {m n : UInt64}

/-- The id of an accepted item. -/
theorem of_stripPrefix (h : stripPrefix a.id a.siteId = some m) :
    a.id.toList = a.siteId.toList ++ a.suffix ∧ parseU64 a.suffix = some m.toNat := by
  obtain ⟨rest, hrest, hparse⟩ := stripPrefix_eq_some_iff.mp h
  have hsuffix : a.suffix = rest := by
    unfold suffix
    rw [hrest, List.drop_left]
  rw [hsuffix]
  exact ⟨hrest, hparse⟩

/-- **The same number is the same numeral.** -/
theorem eq_iff_numeral_eq (ha : stripPrefix a.id a.siteId = some m)
    (hb : stripPrefix b.id b.siteId = some n) : m = n ↔ a.numeral = b.numeral := by
  obtain ⟨⟨-, hdigitsA, -⟩, hm⟩ := parseU64_eq_some_iff.mp (of_stripPrefix ha).2
  obtain ⟨⟨-, hdigitsB, -⟩, hn⟩ := parseU64_eq_some_iff.mp (of_stripPrefix hb).2
  rw [← UInt64.toNat_inj, ← hm, ← hn]
  exact Digits.ofDigitChars_eq_iff hdigitsA hdigitsB

/-- A plainly written number is its numeral, but for zero. -/
theorem Plain.numeral_eq (h : a.Plain) :
    a.numeral = if a.suffix = ['0'] then [] else a.suffix := by
  unfold numeral
  cases hsuffix : a.suffix with
  | nil => rfl
  | cons c rest =>
    obtain ⟨hplus, hzero⟩ := h c rest hsuffix
    have hwithout : withoutPlus (c :: rest) = c :: rest := by
      unfold withoutPlus
      split
      · next heq =>
        cases heq
        exact absurd rfl hplus
      · rfl
    rw [hwithout]
    by_cases hc : c = '0'
    · obtain rfl := hzero hc
      rw [hc, if_pos rfl]
      rfl
    · rw [Digits.significant_cons_of_ne rest hc, if_neg (by simp [hc])]

/-- **Within a site, a plainly written number is one id.** -/
theorem Plain.id_eq (hplainA : a.Plain) (hplainB : b.Plain) (hsite : a.siteId = b.siteId)
    (ha : stripPrefix a.id a.siteId = some m) (hb : stripPrefix b.id b.siteId = some n)
    (h : a.numeral = b.numeral) : a.id = b.id := by
  obtain ⟨hidA, hparseA⟩ := of_stripPrefix ha
  obtain ⟨hidB, hparseB⟩ := of_stripPrefix hb
  have hneA : a.suffix ≠ [] := by
    intro hnil
    rw [hnil] at hparseA
    cases hparseA
  have hneB : b.suffix ≠ [] := by
    intro hnil
    rw [hnil] at hparseB
    cases hparseB
  have hsuffix : a.suffix = b.suffix := by
    rw [hplainA.numeral_eq, hplainB.numeral_eq] at h
    split at h
    · next hzeroA =>
      split at h
      · next hzeroB => rw [hzeroA, hzeroB]
      · exact absurd h.symm hneB
    · split at h
      · exact absurd h hneA
      · exact h
  rw [← String.toList_inj, hidA, hidB, hsite, hsuffix]

end MeliItem

namespace MeliMapper

variable {toLowercase : String → String}

/-- **A batch loses no item**: each one gives its document or its error, in order. -/
theorem mapBatch_eq (items : List MeliItem) :
    mapBatch toLowercase items =
      (items.filterMap (fun item => (map toLowercase item).toOption),
        items.filterMap (fun item =>
          match map toLowercase item with
          | .ok _ => none
          | .error e => some e)) := by
  have hfold : ∀ acc : List Document × List MappingError,
      items.foldl (fun acc item =>
        match map toLowercase item with
        | .ok doc => (acc.1 ++ [doc], acc.2)
        | .error e => (acc.1, acc.2 ++ [e])) acc =
      (acc.1 ++ items.filterMap (fun item => (map toLowercase item).toOption),
        acc.2 ++ items.filterMap (fun item =>
          match map toLowercase item with
          | .ok _ => none
          | .error e => some e)) := by
    induction items with
    | nil => simp
    | cons item items ih =>
      intro acc
      rw [List.foldl_cons, ih]
      cases hmap : map toLowercase item with
      | ok doc => simp [hmap, Except.toOption]
      | error e => simp [hmap, Except.toOption]
  exact hfold ([], [])

theorem id_eq_iff {a b : MeliItem} {c d : Document} (hc : map toLowercase a = .ok c)
    (hd : map toLowercase b = .ok d) : c.id = d.id ↔ a.numeral = b.numeral :=
  MeliItem.eq_iff_numeral_eq (of_map_eq_ok hc).1 (of_map_eq_ok hd).1

theorem id_ne_of_plain {a b : MeliItem} {c d : Document} (hc : map toLowercase a = .ok c)
    (hd : map toLowercase b = .ok d) (hsite : a.siteId = b.siteId) (hplainA : a.Plain)
    (hplainB : b.Plain) (hne : a.id ≠ b.id) : c.id ≠ d.id := by
  intro heq
  exact hne (hplainA.id_eq hplainB hsite (of_map_eq_ok hc).1 (of_map_eq_ok hd).1
    ((id_eq_iff hc hd).mp heq))

theorem toOption_map_eq_some_iff {item : MeliItem} {doc : Document} :
    (map toLowercase item).toOption = some doc ↔ map toLowercase item = .ok doc := by
  cases map toLowercase item <;> simp [Except.toOption]

theorem isOk_map_iff {item : MeliItem} :
    (map toLowercase item).isOk = true ↔ ∃ doc, map toLowercase item = .ok doc := by
  cases map toLowercase item <;> simp [Except.isOk, Except.toBool]

/-- **The documents of a batch** have different ids exactly if the items they are from have
different numerals. -/
theorem nodup_mapBatch_iff (items : List MeliItem) :
    ((mapBatch toLowercase items).1.map Document.id).Nodup ↔
      ((items.filter (fun item => (map toLowercase item).isOk)).map MeliItem.numeral).Nodup := by
  rw [mapBatch_eq]
  unfold List.Nodup
  rw [List.pairwise_map, List.pairwise_map, List.pairwise_filterMap, List.pairwise_filter]
  refine List.Pairwise.iff (fun a b => ?_)
  simp only [toOption_map_eq_some_iff, isOk_map_iff]
  constructor
  · rintro h ⟨c, hc⟩ ⟨d, hd⟩ heq
    exact h c hc d hd ((id_eq_iff hc hd).mpr heq)
  · intro h c hc d hd heq
    exact h ⟨c, hc⟩ ⟨d, hd⟩ ((id_eq_iff hc hd).mp heq)

/-- **Items share a document** exactly if they have the same numeral; items of one site whose
numbers are plainly written do not.  So the documents of a batch have different ids exactly if
the items that are accepted have different numerals, as those of one site do whose ids are
different and plainly written. -/
theorem map_id_eq_iff (toLowercase : String → String) :
    (∀ a b c d, map toLowercase a = .ok c → map toLowercase b = .ok d →
      (c.id = d.id ↔ a.numeral = b.numeral) ∧
      (a.siteId = b.siteId → a.Plain → b.Plain → a.id ≠ b.id → c.id ≠ d.id)) ∧
    ∀ items : List MeliItem,
      let accepted := items.filter (fun item => (map toLowercase item).isOk)
      let docs := (mapBatch toLowercase items).1
      ((docs.map Document.id).Nodup ↔ (accepted.map MeliItem.numeral).Nodup) ∧
      ((∀ a ∈ accepted, a.Plain ∧ ∀ b ∈ accepted, a.siteId = b.siteId) →
        (accepted.map MeliItem.id).Nodup → (docs.map Document.id).Nodup) := by
  refine ⟨fun a b c d hc hd => ⟨id_eq_iff hc hd, id_ne_of_plain hc hd⟩,
    fun items => ⟨nodup_mapBatch_iff items, fun hplain hids => ?_⟩⟩
  rw [nodup_mapBatch_iff]
  refine (List.nodup_map_iff_inj_on (List.Nodup.of_map _ hids)).mpr (fun a ha b hb heq => ?_)
  obtain ⟨c, hc⟩ := isOk_map_iff.mp (List.mem_filter.mp ha).2
  obtain ⟨d, hd⟩ := isOk_map_iff.mp (List.mem_filter.mp hb).2
  have hid : a.id = b.id := (hplain a ha).1.id_eq (hplain b hb).1 ((hplain a ha).2 b hb)
    (of_map_eq_ok hc).1 (of_map_eq_ok hd).1 heq
  exact List.inj_on_of_nodup_map hids ha hb hid

/-- An item with this id of this site. -/
def itemOf (id siteId : String) : MeliItem :=
  ⟨id, siteId, "Lamp", ⟨0⟩, siteId ++ "9", "new", [], "", "active"⟩

/-- Different ids may share a document: of two sites with the same number, and of one site that
writes a number in two ways. -/
theorem not_map_injective :
    (¬ ∀ (toLowercase : String → String) (a b : MeliItem) (c d : Document),
      map toLowercase a = .ok c → map toLowercase b = .ok d → a.id ≠ b.id → c.id ≠ d.id) ∧
    ¬ ∀ (toLowercase : String → String) (a b : MeliItem) (c d : Document),
      a.siteId = b.siteId →
      map toLowercase a = .ok c → map toLowercase b = .ok d → a.id ≠ b.id → c.id ≠ d.id := by
  constructor
  · intro h
    exact h id (itemOf "MLA1" "MLA") (itemOf "MLB1" "MLB") _ _ rfl rfl (by decide) rfl
  · intro h
    exact h id (itemOf "MLA1" "MLA") (itemOf "MLA01" "MLA") _ _ rfl rfl rfl (by decide) rfl

/-- Two items of a site get documents of their own, with an item that is refused between them. -/
theorem map_id_eq_iff_site :
    (∃ c d, map id (itemOf "MLA1" "MLA") = .ok c ∧ map id (itemOf "MLA10" "MLA") = .ok d ∧
      c.id ≠ d.id) ∧
    ((mapBatch id [itemOf "MLA1" "MLA", itemOf "MLAX" "MLA", itemOf "MLA10" "MLA"]).1.map
      Document.id).Nodup := by
  obtain ⟨hone, hbatch⟩ := map_id_eq_iff id
  have hplain : (itemOf "MLA1" "MLA").Plain ∧ (itemOf "MLA10" "MLA").Plain := by
    constructor
    · intro c rest h
      have hsuffix : (itemOf "MLA1" "MLA").suffix = ['1'] := rfl
      rw [hsuffix] at h
      cases h
      decide
    · intro c rest h
      have hsuffix : (itemOf "MLA10" "MLA").suffix = ['1', '0'] := rfl
      rw [hsuffix] at h
      cases h
      decide
  refine ⟨⟨_, _, rfl, rfl, (hone (itemOf "MLA1" "MLA") (itemOf "MLA10" "MLA") _ _ rfl rfl).2 rfl
    hplain.1 hplain.2 (by decide)⟩, ?_⟩
  have haccepted : [itemOf "MLA1" "MLA", itemOf "MLAX" "MLA", itemOf "MLA10" "MLA"].filter
      (fun item => (map id item).isOk) = [itemOf "MLA1" "MLA", itemOf "MLA10" "MLA"] := rfl
  have hsite := (hbatch [itemOf "MLA1" "MLA", itemOf "MLAX" "MLA", itemOf "MLA10" "MLA"]).2
  rw [haccepted] at hsite
  refine hsite (fun a ha => ⟨?_, fun b hb => ?_⟩) (by decide)
  · rcases List.mem_pair.mp ha with rfl | rfl
    · exact hplain.1
    · exact hplain.2
  · rcases List.mem_pair.mp ha with rfl | rfl <;> rcases List.mem_pair.mp hb with rfl | rfl <;> rfl

end MeliMapper

end ZearchEngine
