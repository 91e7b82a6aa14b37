/-
# Filters on the wire

`FilterValue` (`crates/core/src/types.rs`) as `#[serde(untagged)]` writes it to JSON and reads
it from JSON.  Nothing in the JSON says which variant it is: the variants are tried in the order
of their declaration and the first that decodes wins.

Reading a struct variant takes an object, ignores the members it does not know, and takes a
missing `Option` for `None`.  Both fields of `Range` are optional, so `Range` decodes from any
object that has no bad `gte` or `lte`, and as it is declared before `MultiValue` it decodes
every `{"in": [...]}` into the range without bounds.  `ofJson_toJson_iff` says which filters
come back: the equalities, and the ranges whose bounds are numbers that JSON can hold.

The text of a number is `serde_json`'s and is a parameter, `NumberSyntax`.
-/
import ZearchEngine.Search

namespace ZearchEngine

/-! ## 1. JSON -/

/-- A JSON document.  A number is kept as its text, an object as its members in order. -/
inductive Json where
  | null
  | bool (b : Bool)
  | number (text : String)
  | string (s : String)
  | array (elements : List Json)
  | object (members : List (String × Json))

/-- How `serde_json` writes an `f64` and reads it.  Without its `float_roundtrip` feature it does
not promise to read what it wrote as the same float, so nothing is assumed of the two. -/
structure NumberSyntax where
  write : F64 → String
  read : String → Option F64

/-- Neither an infinity nor a NaN. -/
def F64.isFinite (x : F64) : Bool := x.bits &&& 0x7fffffffffffffff < 0x7ff0000000000000

namespace Json

/-- The member `name` as a derived `Deserialize` takes it: none if it stands there twice, which
is an error, `some none` if it is missing. -/
def field (members : List (String × Json)) (name : String) : Option (Option Json) :=
  match members.filter (fun m => m.1 = name) with
  | [] => some none
  | [m] => some (some m.2)
  | _ => none

/-- `String`. -/
def asString : Json → Option String
  | .string s => some s
  | _ => none

/-- `Vec<String>`. -/
def asStrings : Json → Option (List String)
  | .array elements => elements.mapM asString
  | _ => none

/-- `Option<f64>`, of a member that may be missing. -/
def asBound (num : NumberSyntax) : Option Json → Option (Option F64)
  | none => some none
  | some .null => some none
  | some (.number text) => (num.read text).map some
  | some _ => none

/-- A bound as it is written: `None`, and a float JSON has no number for, is `null`. -/
def ofBound (num : NumberSyntax) : Option F64 → Json
  | none => .null
  | some x => if x.isFinite then .number (num.write x) else .null

end Json

/-! ## 2. The three variants -/

namespace FilterValue

open Json

variable (num : NumberSyntax)

/-- `Serialize`: the fields of the variant, without its name. -/
def toJson : FilterValue → Json
  | .equality eq => .object [("eq", .string eq)]
  | .range gte lte => .object [("gte", ofBound num gte), ("lte", ofBound num lte)]
  | .multiValue values => .object [("in", .array (values.map .string))]

/-- `Equality { eq: String }`. -/
def decodeEquality : Json → Option FilterValue
  | .object members => do
    let eq ← (← field members "eq").bind asString
    some (.equality eq)
  | _ => none

/-- `Range { gte: Option<f64>, lte: Option<f64> }`. -/
def decodeRange : Json → Option FilterValue
  | .object members => do
    let gte ← asBound num (← field members "gte")
    let lte ← asBound num (← field members "lte")
    some (.range gte lte)
  | _ => none

/-- `MultiValue { r#in: Vec<String> }`. -/
def decodeMultiValue : Json → Option FilterValue
  | .object members => do
    let values ← (← field members "in").bind asStrings
    some (.multiValue values)
  | _ => none

/-- `Deserialize`: the first variant that decodes. -/
def ofJson (json : Json) : Option FilterValue :=
  decodeEquality json <|> decodeRange num json <|> decodeMultiValue json

/-! ## 3. What comes back -/

/-- The bound is written as a number and read as the same number. -/
def BoundReadBack (bound : Option F64) : Prop :=
  ∀ x ∈ bound, x.isFinite ∧ num.read (num.write x) = some x

/-- A bound that is written as `null` for being no number comes back as no bound. -/
theorem asBound_ofBound_iff (bound : Option F64) :
    asBound num (some (ofBound num bound)) = some bound ↔ BoundReadBack num bound := by
  cases bound with
  | none => simp [ofBound, asBound, BoundReadBack]
  | some x =>
    by_cases hfinite : x.isFinite
    · simp [ofBound, asBound, BoundReadBack, hfinite]
    · simp [ofBound, asBound, BoundReadBack, hfinite]

/-- An equality is read as one: its variant is tried first. -/
theorem ofJson_equality (eq : String) :
    ofJson num (toJson num (.equality eq)) = some (.equality eq) := rfl

/-- The object of a range has no `eq`, so it is not taken for an equality; nor has it an `in`. -/
theorem ofJson_range (gte lte : Option F64) :
    ofJson num (toJson num (.range gte lte))
      = (asBound num (some (ofBound num gte))).bind (fun gte' =>
          (asBound num (some (ofBound num lte))).bind (fun lte' => some (.range gte' lte'))) := by
  have heq : decodeEquality (toJson num (.range gte lte)) = none := rfl
  have hin : decodeMultiValue (toJson num (.range gte lte)) = none := rfl
  have hrange : decodeRange num (toJson num (.range gte lte))
      = (asBound num (some (ofBound num gte))).bind (fun gte' =>
          (asBound num (some (ofBound num lte))).bind (fun lte' => some (.range gte' lte'))) := rfl
  rw [ofJson, heq, hin, ← hrange]
  simp

theorem ofJson_range_iff (gte lte : Option F64) :
    ofJson num (toJson num (.range gte lte)) = some (.range gte lte) ↔
      BoundReadBack num gte ∧ BoundReadBack num lte := by
  rw [ofJson_range, ← asBound_ofBound_iff num gte, ← asBound_ofBound_iff num lte]
  cases asBound num (some (ofBound num gte)) with
  | none => simp
  | some gte' =>
    cases asBound num (some (ofBound num lte)) with
    | none => simp
    | some lte' => simp

/-- **Any object with neither bound is read as the range without bounds**, unless it has an
`eq`: nothing else in it is looked at. -/
theorem ofJson_object_without_bounds (members : List (String × Json))
    (heq : ∀ m ∈ members, m.1 ≠ "eq") (hgte : ∀ m ∈ members, m.1 ≠ "gte")
    (hlte : ∀ m ∈ members, m.1 ≠ "lte") :
    ofJson num (.object members) = some (.range none none) := by
  have hfield : ∀ name, (∀ m ∈ members, m.1 ≠ name) → field members name = some none := by
    intro name hname
    have hnil : members.filter (fun m => m.1 = name) = [] :=
      List.filter_eq_nil_iff.mpr (fun m hm => by simpa using hname m hm)
    rw [field, hnil]
  have hno : decodeEquality (.object members) = none := by
    simp only [decodeEquality, hfield "eq" heq]
    rfl
  have hrange : decodeRange num (.object members) = some (.range none none) := by
    simp only [decodeRange, hfield "gte" hgte, hfield "lte" hlte]
    rfl
  rw [ofJson, hno, hrange]
  rfl

/-- An `in` filter is such an object. -/
theorem ofJson_in (values : List String) :
    ofJson num (.object [("in", .array (values.map .string))]) = some (.range none none) :=
  ofJson_object_without_bounds num _ (by simp) (by simp) (by simp)

/-- The filter is an equality, or a range whose bounds JSON can hold. -/
def ReadBack : FilterValue → Prop
  | .equality _ => True
  | .range gte lte => BoundReadBack num gte ∧ BoundReadBack num lte
  | .multiValue _ => False

/-- **Which filters survive the wire.**  A filter comes back from its own JSON if and only if it
is an equality, or a range each of whose bounds is finite and is read from its text as the same
float.  No `in` filter does: every `{"in": [...]}` is read as the range without bounds. -/
theorem ofJson_toJson_iff :
    (∀ filter, ofJson num (toJson num filter) = some filter ↔ ReadBack num filter) ∧
    ∀ values : List String,
      ofJson num (.object [("in", .array (values.map .string))]) = some (.range none none) := by
  refine ⟨fun filter => ?_, ofJson_in num⟩
  cases filter with
  | equality eq => simp [ofJson_equality, ReadBack]
  | range gte lte => exact ofJson_range_iff num gte lte
  | multiValue values =>
    have hin : ofJson num (toJson num (.multiValue values)) = some (.range none none) :=
      ofJson_in num values
    simp [hin, ReadBack]

/-- The filter on `brand` of the README's example, which has no number in it. -/
theorem ofJson_brand_in :
    ofJson ⟨fun _ => "", fun _ => none⟩
        (.object [("in", .array [.string "Sony", .string "Bose", .string "Sennheiser"])])
      ≠ some (.multiValue ["Sony", "Bose", "Sennheiser"]) := by
  rw [ofJson_object_without_bounds _ _ (by simp) (by simp) (by simp)]
  simp

end FilterValue

end ZearchEngine
