/-
# Columns with their ordinals as `u32`

`Column.lean` keeps the ordinal of a document as a number or none.  The source keeps a `u32`, with
`u32::MAX` for a missing value, and a hash map from values to ordinals next to the dictionary;
what a search finds it casts `as u32`.  This module has the columns in that form.

The two forms run in step, whatever is added (`mirrors_run`), and as long as no ordinal reaches the
sentinel every search of the one answers as the other (`filterIn_eq`, `aggregateCounts_eq`).  So a
column answers by what was added (`columns_answer`).
-/
import ZearchEngine.Column
import ZearchEngine.Lib.Histogram
import Mathlib

namespace ZearchEngine

open Interner

/-! ## 1. The columns and their writer -/

/-- Dictionary-encoded keyword column, as it is kept: `u32::MAX` is a missing value. -/
structure RawKeywordColumn where
  dict : List String
  ordinals : List UInt32

/-- `KeywordColumnWriter` with its hash map beside the dictionary. -/
structure RawKeywordColumnWriter where
  valueToOrdinal : String → Option UInt32
  dict : List String
  ordinals : List UInt32

namespace RawKeywordColumnWriter

/-- `new`. -/
def new : RawKeywordColumnWriter := ⟨fun _ => none, [], []⟩

/-- `add`. -/
def add (w : RawKeywordColumnWriter) (value : String) : RawKeywordColumnWriter :=
  match w.valueToOrdinal value with
  | some ord => { w with ordinals := w.ordinals ++ [ord] }
  | none =>
    let ord := UInt32.ofNat w.dict.length
    { valueToOrdinal := Function.update w.valueToOrdinal value (some ord)
      dict := w.dict ++ [value]
      ordinals := w.ordinals ++ [ord] }

/-- `add_missing`: the sentinel. -/
def addMissing (w : RawKeywordColumnWriter) : RawKeywordColumnWriter :=
  { w with ordinals := w.ordinals ++ [UInt32.ofNat (2 ^ 32 - 1)] }

/-- `build`. -/
def build (w : RawKeywordColumnWriter) : RawKeywordColumn := ⟨w.dict, w.ordinals⟩

/-- A sequence of calls: `add` of each value, `add_missing` where there is none. -/
def run (calls : List (Option String)) : RawKeywordColumnWriter :=
  calls.foldl (fun w call => match call with
    | some value => w.add value
    | none => w.addMissing) new

end RawKeywordColumnWriter

/-- The places at which a list meets a condition, `doc_id as u32` each. -/
def positionsU32 {β : Type} (p : β → Bool) (l : List β) : Bitmap :=
  ((l.zipIdx.filter (fun e => p e.1)).map (fun e => (UInt32.ofNat e.2).toNat)).toFinset

/-- The columns of a segment under their names. -/
structure RawColumnStore where
  keywordColumns : String → Option RawKeywordColumn
  numericColumns : String → Option NumericColumn

namespace RawColumnStore

variable (store : RawColumnStore)

/-- `filter_eq`. -/
def filterEq (field value : String) : Bitmap :=
  match store.keywordColumns field with
  | none => ∅
  | some col =>
    match col.dict.idxOf? value with
    | none => ∅
    | some targetOrd => positionsU32 (fun ord => ord = UInt32.ofNat targetOrd) col.ordinals

/-- `filter_in`. -/
def filterIn (field : String) (values : List String) : Bitmap :=
  match store.keywordColumns field with
  | none => ∅
  | some col =>
    let targetOrds := values.filterMap (fun v => (col.dict.idxOf? v).map UInt32.ofNat)
    positionsU32 (fun ord => ord ∈ targetOrds) col.ordinals

/-- `filter_range`. -/
def filterRange (field : String) (gte lte : Option F64) : Bitmap :=
  match store.numericColumns field with
  | none => ∅
  | some col =>
    positionsU32 (fun (value, present) => present && ColumnStore.withinBounds gte lte value)
      col.entries

/-- `aggregate_counts`: one cell for each value of the dictionary; an ordinal beyond the cells,
such as the sentinel, counts for nothing. -/
def aggregateCounts (field : String) (matchingDocs : Bitmap) : Counts :=
  match store.keywordColumns field with
  | none => []
  | some col =>
    let counts := (matchingDocs.sort (· ≤ ·)).foldl
      (fun counts docId => Histogram.bump counts (col.ordinals[docId]?.map UInt32.toNat))
      (List.replicate col.dict.length 0)
    (col.dict.zipIdx.filter (fun e => 0 < counts.getD e.2 0)).map
      (fun e => (e.1, counts.getD e.2 0))

end RawColumnStore

/-! ## 2. The two forms in step -/

/-- An ordinal as it is kept. -/
def ordinalU32 : Option Nat → UInt32
  | some i => UInt32.ofNat i
  | none => UInt32.ofNat (2 ^ 32 - 1)

/-- The two writers hold the same. -/
structure Mirrors (w : RawKeywordColumnWriter) (v : KeywordColumnWriter) : Prop where
  map : ∀ value, w.valueToOrdinal value = (v.table.number value).map UInt32.ofNat
  dict : w.dict = v.table.values
  ordinals : w.ordinals = v.ordinals.map ordinalU32

theorem Mirrors.new : Mirrors RawKeywordColumnWriter.new KeywordColumnWriter.new :=
  ⟨fun _ => rfl, rfl, rfl⟩

theorem Mirrors.addMissing {w : RawKeywordColumnWriter} {v : KeywordColumnWriter}
    (h : Mirrors w v) : Mirrors w.addMissing v.addMissing where
  map := h.map
  dict := h.dict
  ordinals := by
    simp [RawKeywordColumnWriter.addMissing, KeywordColumnWriter.addMissing, h.ordinals,
      ordinalU32]

/-- One `add`: the hash map and the dictionary see the same new value. -/
theorem Mirrors.add {w : RawKeywordColumnWriter} {v : KeywordColumnWriter} (h : Mirrors w v)
    (value : String) : Mirrors (w.add value) (v.add value) := by
  cases hnum : v.table.number value with
  | some i =>
    have hmap : w.valueToOrdinal value = some (UInt32.ofNat i) := by
      rw [h.map, hnum, Option.map_some]
    simp only [RawKeywordColumnWriter.add, hmap, KeywordColumnWriter.add]
    constructor
    case map => simpa only [intern_of_some hnum] using h.map
    case dict => simpa only [intern_of_some hnum] using h.dict
    case ordinals => simp [intern_of_some hnum, h.ordinals, ordinalU32]
  | none =>
    have hmap : w.valueToOrdinal value = none := by
      rw [h.map, hnum, Option.map_none]
    obtain ⟨hsome, -⟩ | ⟨-, hi, hvalues⟩ := v.table.intern_cases value
    · rw [hnum] at hsome
      cases hsome
    simp only [RawKeywordColumnWriter.add, hmap, KeywordColumnWriter.add]
    constructor
    case map =>
      intro a
      simp only [number_intern_of_none hnum, h.dict]
      by_cases ha : a = value
      · subst ha
        simp
      · simp [Function.update_of_ne ha, h.map]
    case dict => simp only [hvalues, h.dict]
    case ordinals => simp [hi, h.ordinals, h.dict, ordinalU32]

/-- **The writers run in step.** -/
theorem mirrors_run (calls : List (Option String)) :
    Mirrors (RawKeywordColumnWriter.run calls) (KeywordColumnWriter.run calls) := by
  have hfold : ∀ (calls : List (Option String)) (w : RawKeywordColumnWriter)
      (v : KeywordColumnWriter), Mirrors w v →
      Mirrors (calls.foldl (fun w call => match call with
        | some value => w.add value
        | none => w.addMissing) w) (calls.foldl KeywordColumnWriter.addValue v) := by
    intro calls
    induction calls with
    | nil => exact fun w v h => h
    | cons call calls ih =>
      intro w v h
      cases call with
      | none => exact ih _ _ h.addMissing
      | some value => exact ih _ _ (h.add value)
  exact hfold calls _ _ Mirrors.new

/-! ## 3. Searches agree -/

theorem toNat_ofNat_u32 {k : Nat} (h : k < 2 ^ 32) : (UInt32.ofNat k).toNat = k :=
  UInt32.toNat_ofNat_of_lt' h

/-- Below the sentinel, what is kept tells the ordinals apart. -/
theorem ordinalU32_eq_iff {ord : Option Nat} {k n : Nat} (hn : n < 2 ^ 32) (hord : ∀ j ∈ ord, j < n)
    (hk : k < n) : ordinalU32 ord = UInt32.ofNat k ↔ ord = some k := by
  have hkeep : (UInt32.ofNat k).toNat = k := toNat_ofNat_u32 (by omega)
  rw [← UInt32.toNat_inj, hkeep]
  cases ord with
  | none =>
    have hmax : (UInt32.ofNat (2 ^ 32 - 1)).toNat = 2 ^ 32 - 1 := by decide
    simp only [ordinalU32, hmax, reduceCtorEq, iff_false]
    omega
  | some j =>
    have hj := hord j rfl
    rw [ordinalU32, toNat_ofNat_u32 (by omega), Option.some.injEq]

/-- A column of no more than `2 ^ 32` documents loses no place to the cast. -/
theorem mem_positionsU32 {β : Type} {p : β → Bool} {l : List β} (hl : l.length ≤ 2 ^ 32)
    {i : Nat} : i ∈ positionsU32 p l ↔ ∃ b, l[i]? = some b ∧ p b := by
  have hcast : ∀ e ∈ l.zipIdx.filter (fun e => p e.1), (UInt32.ofNat e.2).toNat = e.2 := by
    intro e he
    have hlt : e.2 < l.length := by
      simpa using List.snd_lt_of_mem_zipIdx (List.mem_filter.mp he).1
    exact toNat_ofNat_u32 (by omega)
  rw [positionsU32, List.map_congr_left hcast]
  exact mem_positions

section

variable {w : RawKeywordColumnWriter} {v : KeywordColumnWriter} {store : RawColumnStore}
  {mirror : ColumnStore} {field : String}

/-- An `in` finds the same places. -/
theorem filterIn_eq (h : Mirrors w v) (hcol : store.keywordColumns field = some w.build)
    (hmirror : mirror.keywordColumns field = some v.build) (hdict : v.table.values.length < 2 ^ 32)
    (hlen : v.ordinals.length ≤ 2 ^ 32) (values : List String) :
    store.filterIn field values = mirror.filterIn field values := by
  have htargets : values.filterMap (fun a => (w.dict.idxOf? a).map UInt32.ofNat)
      = (values.filterMap v.table.values.idxOf?).map UInt32.ofNat := by
    rw [List.map_filterMap, h.dict]
  have hbelow : ∀ k ∈ values.filterMap v.table.values.idxOf?, k < v.table.values.length := by
    intro k hk
    obtain ⟨a, -, ha⟩ := List.mem_filterMap.mp hk
    exact (List.idxOf?_eq_some_iff.mp ha).1
  ext i
  simp only [RawColumnStore.filterIn, hcol, RawKeywordColumnWriter.build, htargets,
    ColumnStore.filterIn, hmirror, KeywordColumnWriter.build, mem_positions]
  rw [mem_positionsU32 (by rw [h.ordinals, List.length_map]; exact hlen), h.ordinals]
  simp only [List.getElem?_map, Option.map_eq_some_iff, decide_eq_true_eq, List.mem_map]
  constructor
  · rintro ⟨_, ⟨ord, hord, rfl⟩, k, hk, heq⟩
    have hsome := (ordinalU32_eq_iff hdict (v.bounded ord (List.mem_of_getElem? hord))
      (hbelow k hk)).mp heq.symm
    exact ⟨ord, hord, k, hk, hsome.symm⟩
  · rintro ⟨ord, hord, k, hk, rfl⟩
    exact ⟨ordinalU32 (some k), ⟨some k, hord, rfl⟩, k, hk, rfl⟩

/-- The counting loop counts each value at the places that hold it. -/
theorem aggregateCounts_eq (h : Mirrors w v) (hcol : store.keywordColumns field = some w.build)
    (hmirror : mirror.keywordColumns field = some v.build) (hdict : v.table.values.length < 2 ^ 32)
    (matchingDocs : Bitmap) :
    store.aggregateCounts field matchingDocs = mirror.aggregateCounts field matchingDocs := by
  have hcell : ∀ k < v.table.values.length, ∀ i : Nat,
      (w.ordinals[i]?.map UInt32.toNat = some k) ↔ v.ordinals[i]? = some (some k) := by
    intro k hk i
    have hkeep : (UInt32.ofNat k).toNat = k := toNat_ofNat_u32 (by omega)
    rw [h.ordinals, List.getElem?_map]
    cases hord : v.ordinals[i]? with
    | none => simp
    | some ord =>
      have heq := ordinalU32_eq_iff hdict (v.bounded ord (List.mem_of_getElem? hord)) hk
      simp only [Option.map_some, Option.some.injEq]
      rw [← heq, ← UInt32.toNat_inj, hkeep]
  have hcount : ∀ e ∈ v.table.values.zipIdx,
      ((matchingDocs.sort (· ≤ ·)).foldl
        (fun counts docId => Histogram.bump counts (w.ordinals[docId]?.map UInt32.toNat))
        (List.replicate v.table.values.length 0)).getD e.2 0
        = (matchingDocs.filter (fun i => v.ordinals[i]? = some (some e.2))).card := by
    intro e he
    have hlt : e.2 < v.table.values.length := by simpa using List.snd_lt_of_mem_zipIdx he
    rw [List.getD_eq_getElem?_getD, Histogram.getElem?_bumps, List.getElem?_replicate,
      if_pos hlt, Option.map_some, Option.getD_some, zero_add, Histogram.countP_sort]
    simp only [hcell e.2 hlt, decide_eq_true_eq]
  simp only [RawColumnStore.aggregateCounts, hcol, RawKeywordColumnWriter.build, h.dict,
    ColumnStore.aggregateCounts, hmirror, KeywordColumnWriter.build, List.filter_map]
  have hpos : ∀ e ∈ v.table.values.zipIdx,
      decide (0 < ((matchingDocs.sort (· ≤ ·)).foldl
        (fun counts docId => Histogram.bump counts (w.ordinals[docId]?.map UInt32.toNat))
        (List.replicate v.table.values.length 0)).getD e.2 0)
        = decide (0 < (matchingDocs.filter (fun i => v.ordinals[i]? = some (some e.2))).card) :=
    fun e he => by rw [hcount e he]
  rw [List.filter_congr hpos]
  exact List.map_congr_left fun e he =>
    congrArg (fun n => (e.1, n)) (hcount e (List.mem_filter.mp he).1)

end

/-! ## 4. What a column answers -/

theorem length_ordinals_run (calls : List (Option String)) :
    (KeywordColumnWriter.run calls).ordinals.length = calls.length := by
  have hvalues := congrArg List.length (KeywordColumnWriter.values_run calls)
  simpa [KeywordColumnWriter.values, decode] using hvalues

/-- Each call brings one value into the dictionary at most. -/
theorem length_dict_run (calls : List (Option String)) :
    (KeywordColumnWriter.run calls).table.values.length ≤ calls.length := by
  have hfold : ∀ (calls : List (Option String)) (v : KeywordColumnWriter),
      (calls.foldl KeywordColumnWriter.addValue v).table.values.length
        ≤ v.table.values.length + calls.length := by
    intro calls
    induction calls with
    | nil => exact fun v => Nat.le_refl _
    | cons call calls ih =>
      intro v
      have hstep : (v.addValue call).table.values.length ≤ v.table.values.length + 1 := by
        cases call with
        | none => exact Nat.le_succ _
        | some value =>
          obtain ⟨-, ht⟩ | ⟨-, -, hvalues⟩ := v.table.intern_cases value
          · simp [KeywordColumnWriter.addValue, KeywordColumnWriter.add, ht]
          · simp [KeywordColumnWriter.addValue, KeywordColumnWriter.add, hvalues]
      have hrest := ih (v.addValue call)
      rw [List.foldl_cons, List.length_cons]
      omega
  have hnew : KeywordColumnWriter.new.table.values.length = 0 := rfl
  have hrun := hfold calls KeywordColumnWriter.new
  rwa [hnew, Nat.zero_add] at hrun

/-- An equality is an `in` with one value. -/
theorem RawColumnStore.filterEq_eq (store : RawColumnStore) (field value : String) :
    store.filterEq field value = store.filterIn field [value] := by
  unfold RawColumnStore.filterEq RawColumnStore.filterIn
  cases store.keywordColumns field with
  | none => rfl
  | some col =>
    cases hord : col.dict.idxOf? value with
    | none => simp [hord, positionsU32]
    | some ord => simp [hord]

/-- The store whose columns are built from the calls made under each name. -/
def RawColumnStore.built (keyword : String → Option (List (Option String)))
    (numeric : String → Option (List (Option F64))) : RawColumnStore where
  keywordColumns name := (keyword name).map (fun calls => (RawKeywordColumnWriter.run calls).build)
  numericColumns name := (numeric name).map NumericColumn.run

/-- The same columns with ordinals that are numbers. -/
def ColumnStore.built (keyword : String → Option (List (Option String)))
    (numeric : String → Option (List (Option F64))) : ColumnStore where
  keywordColumns name := (keyword name).map (fun calls => (KeywordColumnWriter.run calls).build)
  numericColumns name := (numeric name).map NumericColumn.run

section

variable {keyword : String → Option (List (Option String))}
  {numeric : String → Option (List (Option F64))}

/-- The counts of a column list each value that occurs, and it alone, with its positions. -/
theorem mem_aggregateCounts_run {mirror : ColumnStore} {field : String}
    {calls : List (Option String)}
    (hcol : mirror.keywordColumns field = some (KeywordColumnWriter.run calls).build)
    (matchingDocs : Bitmap) (value : String) (n : Nat) :
    (value, n) ∈ mirror.aggregateCounts field matchingDocs ↔
      0 < n ∧ n = (matchingDocs.filter (fun i => calls[i]? = some (some value))).card := by
  rw [aggregateCounts_build hcol, KeywordColumnWriter.values_run]
  simp only [List.mem_filter, List.mem_map, Prod.mk.injEq, decide_eq_true_eq]
  constructor
  · rintro ⟨⟨v, -, rfl, rfl⟩, hpos⟩
    exact ⟨hpos, rfl⟩
  · rintro ⟨hpos, rfl⟩
    refine ⟨⟨value, ?_, rfl, rfl⟩, hpos⟩
    -- a value that occurs has been interned
    obtain ⟨i, hi⟩ := Finset.card_pos.mp hpos
    have hread := (Finset.mem_filter.mp hi).2
    rw [← KeywordColumnWriter.values_run calls, KeywordColumnWriter.values] at hread
    exact mem_values_of_decode hread

/-- A range answers by what was added. -/
theorem mem_filterRange_built {field : String} {calls : List (Option F64)}
    (hfield : numeric field = some calls) (hlen : calls.length < 2 ^ 32 - 1)
    (gte lte : Option F64) (i : LocalDocId) :
    i ∈ (RawColumnStore.built keyword numeric).filterRange field gte lte ↔
      ∃ v, calls[i]? = some (some v) ∧ ColumnStore.withinBounds gte lte v := by
  have hcol : (RawColumnStore.built keyword numeric).numericColumns field
      = some (NumericColumn.run calls) := by simp [RawColumnStore.built, hfield]
  have hentries : (NumericColumn.run calls).entries.length ≤ 2 ^ 32 := by
    rw [NumericColumn.entries_run, List.length_map]
    omega
  simp only [RawColumnStore.filterRange, hcol]
  rw [mem_positionsU32 hentries, NumericColumn.entries_run]
  simp only [List.getElem?_map, Option.map_eq_some_iff]
  constructor
  · rintro ⟨_, ⟨value, hvalue, rfl⟩, hmatch⟩
    cases value with
    | none => simp at hmatch
    | some v => exact ⟨v, hvalue, by simpa using hmatch⟩
  · rintro ⟨v, hv, hmatch⟩
    exact ⟨_, ⟨some v, hv, rfl⟩, by simpa using hmatch⟩

end

/-- **Columns answer exactly what was added**: filters select the positions whose value matches,
counts list each value that occurs once, with its positions counted, and a missing value is
found by nothing. -/
theorem columns_answer (keyword : String → Option (List (Option String)))
    (numeric : String → Option (List (Option F64))) :
    let store := RawColumnStore.built keyword numeric
    (∀ field calls, keyword field = some calls → calls.length < 2 ^ 32 - 1 →
      (∀ values i, i ∈ store.filterIn field values ↔ ∃ v ∈ values, calls[i]? = some (some v)) ∧
      (∀ value, store.filterEq field value = store.filterIn field [value]) ∧
      (∀ matchingDocs, ((store.aggregateCounts field matchingDocs).map Prod.fst).Nodup ∧
        ∀ value n, (value, n) ∈ store.aggregateCounts field matchingDocs ↔
          0 < n ∧ n = (matchingDocs.filter (fun i => calls[i]? = some (some value))).card)) ∧
    (∀ field calls, numeric field = some calls → calls.length < 2 ^ 32 - 1 →
      ∀ gte lte i, i ∈ store.filterRange field gte lte ↔
        ∃ v, calls[i]? = some (some v) ∧ ColumnStore.withinBounds gte lte v) := by
  intro store
  refine ⟨fun field calls hfield hlen => ?_,
    fun field calls hfield hlen => mem_filterRange_built hfield hlen⟩
  have hmirrors := mirrors_run calls
  have hcol : store.keywordColumns field = some (RawKeywordColumnWriter.run calls).build := by
    simp [store, RawColumnStore.built, hfield]
  have hmirror : (ColumnStore.built keyword numeric).keywordColumns field
      = some (KeywordColumnWriter.run calls).build := by
    simp [ColumnStore.built, hfield]
  have hdict : (KeywordColumnWriter.run calls).table.values.length < 2 ^ 32 := by
    have := length_dict_run calls
    omega
  have hords : (KeywordColumnWriter.run calls).ordinals.length ≤ 2 ^ 32 := by
    rw [length_ordinals_run]
    omega
  refine ⟨fun values i => ?_, fun value => store.filterEq_eq field value, fun matchingDocs => ?_⟩
  · rw [filterIn_eq hmirrors hcol hmirror hdict hords, mem_filterIn_build hmirror,
      KeywordColumnWriter.values_run]
  · rw [aggregateCounts_eq hmirrors hcol hmirror hdict]
    exact ⟨nodup_aggregateCounts_build hmirror matchingDocs,
      mem_aggregateCounts_run hmirror matchingDocs⟩

/-- A keyword column with a missing value between two others. -/
theorem columns_answer_threeDocs :
    let calls := [some "samsung", none, some "apple"]
    let store := RawColumnStore.built (fun _ => some calls) (fun _ => none)
    2 ∈ store.filterIn "brand" ["apple"] ∧ 1 ∉ store.filterIn "brand" ["apple"] ∧
      0 ∉ store.filterIn "brand" ["apple"] := by
  intro calls store
  have hiff := ((columns_answer (fun _ => some calls) (fun _ => none)).1 "brand" calls rfl
    (by decide)).1 ["apple"]
  exact ⟨(hiff 2).mpr (by decide), (hiff 1).not.mpr (by decide), (hiff 0).not.mpr (by decide)⟩

end ZearchEngine
