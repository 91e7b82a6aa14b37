/-
# The column store

`ColumnStore` with its writers (`crates/index/src/column.rs`) and the part of
`SegmentWriter::write` that fills them (`segment.rs`).  A keyword column is dictionary encoded:
each document has the ordinal of its value, or none.  A numeric column has a value and a
presence bit for each document.  Which fields have a column is decided by the schema alone when
the segment is written; a filter on any other field finds no column and selects nothing.

`mem_filter_columnStore` says what a filter selects: the documents at which the field that was
written into the column matches.

An ordinal is a `u32` in the source, with `u32::MAX` for a missing value; here it is a number,
or none.  A segment has fewer than `2 ^ 32` documents, so no ordinal reaches that value
(`ColumnOrdinals.lean` has the columns with it).
-/
import ZearchEngine.Float
import ZearchEngine.Search
import ZearchEngine.Schema
import ZearchEngine.Lib.Interner
import Mathlib.Data.Finset.Card

namespace ZearchEngine

open Interner

/-! ## 1. Columns and their writers -/

/-- Dictionary-encoded keyword column. -/
structure KeywordColumn where
  /-- Maps ordinal to value. -/
  dict : List String
  /-- Per-document ordinal, none for a missing value. -/
  ordinals : List (Option Nat)
deriving DecidableEq

/-- Numeric column. -/
structure NumericColumn where
  values : List F64
  /-- Which documents have a value. -/
  present : List Bool
  length_present : present.length = values.length
deriving DecidableEq

/-- Builds a keyword column incrementally.  `dict` and `value_to_ordinal` are one table. -/
structure KeywordColumnWriter where
  table : Interner String
  ordinals : List (Option Nat)
  bounded : Bounded table.values ordinals

namespace KeywordColumnWriter

/-- `new`. -/
def new : KeywordColumnWriter := ⟨Interner.empty, [], by simp [Bounded]⟩

/-- `add`: a value seen before has its ordinal, a new one takes the next. -/
def add (w : KeywordColumnWriter) (value : String) : KeywordColumnWriter where
  table := (w.table.intern value).2
  ordinals := w.ordinals ++ [some (w.table.intern value).1]
  bounded := (w.bounded.mono (w.table.prefix_intern value)).append (fun i hi => by
    rw [← Option.some.inj hi]
    exact w.table.intern_lt value)

/-- `add_missing`. -/
def addMissing (w : KeywordColumnWriter) : KeywordColumnWriter where
  table := w.table
  ordinals := w.ordinals ++ [none]
  bounded := w.bounded.append (by simp)

/-- `build`. -/
def build (w : KeywordColumnWriter) : KeywordColumn where
  dict := w.table.values
  ordinals := w.ordinals

/-- The loop of `SegmentWriter::write` on one document: its value, or a missing one. -/
def addValue (w : KeywordColumnWriter) : Option String → KeywordColumnWriter
  | some value => w.add value
  | none => w.addMissing

/-- What has been written: the value of each document. -/
def values (w : KeywordColumnWriter) : List (Option String) := decode w.table.values w.ordinals

@[simp] theorem values_new : new.values = [] := rfl

/-- **Each document adds its own value** and leaves the others as they are. -/
@[simp] theorem values_addValue (w : KeywordColumnWriter) (value : Option String) :
    (w.addValue value).values = w.values ++ [value] := by
  cases value with
  | none => simp [addValue, addMissing, values, decode]
  | some value => exact w.table.decode_append_intern value w.bounded

/-- A sequence of calls: `add` of each value, `add_missing` where there is none. -/
def run (calls : List (Option String)) : KeywordColumnWriter := calls.foldl addValue new

/-- A column reads back what was put in. -/
theorem values_run (calls : List (Option String)) : (run calls).values = calls := by
  have hfold : ∀ (calls : List (Option String)) (w : KeywordColumnWriter),
      (calls.foldl addValue w).values = w.values ++ calls := by
    intro calls
    induction calls with
    | nil => simp
    | cons call calls ih =>
      intro w
      simp [ih, List.append_assoc]
  exact hfold calls new

end KeywordColumnWriter

namespace NumericColumn

/-- `NumericColumnWriter::new`, built. -/
def new : NumericColumn := ⟨[], [], rfl⟩

/-- `add`, and `add_missing` with its `0.0`. -/
def addValue (col : NumericColumn) (value : Option F64) : NumericColumn where
  values := col.values ++ [value.getD ⟨0⟩]
  present := col.present ++ [value.isSome]
  length_present := by simp [col.length_present]

/-- The value and the presence bit of each document. -/
def entries (col : NumericColumn) : List (F64 × Bool) := col.values.zip col.present

@[simp] theorem entries_new : new.entries = [] := rfl

@[simp] theorem entries_addValue (col : NumericColumn) (value : Option F64) :
    (col.addValue value).entries = col.entries ++ [(value.getD ⟨0⟩, value.isSome)] :=
  List.zip_append col.length_present.symm

/-- A sequence of calls on a numeric writer, built. -/
def run (calls : List (Option F64)) : NumericColumn := calls.foldl addValue new

/-- A column reads back what was put in, with `0.0` where there is no value. -/
theorem entries_run (calls : List (Option F64)) :
    (run calls).entries = calls.map (fun value => (value.getD ⟨0⟩, value.isSome)) := by
  have hfold : ∀ (calls : List (Option F64)) (col : NumericColumn),
      (calls.foldl addValue col).entries
        = col.entries ++ calls.map (fun value => (value.getD ⟨0⟩, value.isSome)) := by
    intro calls
    induction calls with
    | nil => simp
    | cons call calls ih =>
      intro col
      simp [ih, List.append_assoc]
  exact hfold calls new

end NumericColumn

/-! ## 2. The store -/

/-- Column store for a segment: named columns for filtering and aggregation. -/
structure ColumnStore where
  keywordColumns : String → Option KeywordColumn := fun _ => none
  numericColumns : String → Option NumericColumn := fun _ => none

namespace ColumnStore

variable (store : ColumnStore)

/-- `filter_eq`. -/
def filterEq (field value : String) : Bitmap :=
  match store.keywordColumns field with
  | none => ∅
  | some col =>
    match col.dict.idxOf? value with
    | none => ∅
    | some targetOrd => positions (fun ord => ord = some targetOrd) col.ordinals

/-- `filter_in`. -/
def filterIn (field : String) (values : List String) : Bitmap :=
  match store.keywordColumns field with
  | none => ∅
  | some col =>
    let targetOrds := values.filterMap col.dict.idxOf?
    positions (fun ord => ord ∈ targetOrds.map some) col.ordinals

/-- The value is not below `gte` and not above `lte`, as far as these are given. -/
def withinBounds (gte lte : Option F64) (value : F64) : Bool :=
  gte.all (fun min => min.le value) && lte.all (fun max => value.le max)

/-- `filter_range`. -/
def filterRange (field : String) (gte lte : Option F64) : Bitmap :=
  match store.numericColumns field with
  | none => ∅
  | some col =>
    positions (fun (value, present) => present && withinBounds gte lte value) col.entries

/-- The filter a request names, as `build_filter_bitmap` chooses it. -/
def filter (field : String) : FilterValue → Bitmap
  | .equality eq => store.filterEq field eq
  | .range gte lte => store.filterRange field gte lte
  | .multiValue values => store.filterIn field values

/-- `aggregate_counts`. -/
def aggregateCounts (field : String) (matchingDocs : Bitmap) : Counts :=
  match store.keywordColumns field with
  | none => []
  | some col =>
    (col.dict.zipIdx.map (fun (value, ord) =>
      (value, (matchingDocs.filter (fun i => col.ordinals[i]? = some (some ord))).card))).filter
        (fun count => 0 < count.2)

end ColumnStore

/-! ## 3. Writing the columns of a segment -/

variable {R : Type}

/-- The field has a keyword column. -/
def FieldConfig.isKeywordColumn (f : FieldConfig R) : Bool :=
  f.fieldType = .keyword && (f.filterable || f.aggregatable)

/-- The field has a numeric column. -/
def FieldConfig.isNumericColumn (f : FieldConfig R) : Bool :=
  f.fieldType = .numeric && f.filterable

namespace SegmentWriter

/-- What a document puts into the keyword column `name`. -/
def keywordValue (name : String) (doc : Document) : Option String :=
  if name = "category" then some doc.category
  else
    match doc.attributes.get name with
    | some (.string v) => some v
    | _ => none

/-- What a document puts into the numeric column `name`. -/
def numericValue (name : String) (doc : Document) : Option F64 :=
  if name = "price" then some doc.price
  else
    match doc.attributes.get name with
    | some (.number v) => some v
    | _ => none

/-- The writers of the keyword columns, after the documents have gone through them. -/
def keywordWriters (schema : IndexSchema R) (docs : List Document) :
    List (String × KeywordColumnWriter) :=
  docs.foldl (fun writers doc =>
      writers.map (fun (name, w) => (name, w.addValue (keywordValue name doc))))
    ((schema.fields.filter FieldConfig.isKeywordColumn).map (fun f => (f.name, .new)))

/-- The writers of the numeric columns, after the documents have gone through them. -/
def numericWriters (schema : IndexSchema R) (docs : List Document) :
    List (String × NumericColumn) :=
  docs.foldl (fun writers doc =>
      writers.map (fun (name, col) => (name, col.addValue (numericValue name doc))))
    ((schema.fields.filter FieldConfig.isNumericColumn).map (fun f => (f.name, .new)))

/-- `insert` of each column under its name, into an empty map. -/
def insertAll {β : Type} (columns : List (String × β)) : String → Option β :=
  columns.foldl (fun m (name, column) => Function.update m name (some column)) (fun _ => none)

/-- The column store `write` makes of the documents. -/
def columnStore (schema : IndexSchema R) (docs : List Document) : ColumnStore where
  keywordColumns := insertAll ((keywordWriters schema docs).map (fun (name, w) => (name, w.build)))
  numericColumns := insertAll (numericWriters schema docs)

/-! ## 4. What the columns hold -/

/-- The writer of one keyword column, after the documents. -/
def keywordWriter (name : String) (docs : List Document) : KeywordColumnWriter :=
  docs.foldl (fun w doc => w.addValue (keywordValue name doc)) .new

/-- The writer of one numeric column, after the documents. -/
def numericWriter (name : String) (docs : List Document) : NumericColumn :=
  docs.foldl (fun col doc => col.addValue (numericValue name doc)) .new

/-- Writers that take each document in turn do not see one another. -/
theorem foldl_map_writers {ω : Type} (add : String → ω → Document → ω) :
    ∀ (docs : List Document) (writers : List (String × ω)),
      docs.foldl (fun ws doc => ws.map (fun (name, w) => (name, add name w doc))) writers
        = writers.map (fun (name, w) => (name, docs.foldl (add name) w))
  | [], writers => by simp
  | doc :: docs, writers => by
    rw [List.foldl_cons, foldl_map_writers add docs, List.map_map]
    rfl

/-- A map filled with one value for each of some names, in whatever order and however often. -/
theorem insertAll_map {β : Type} (f : String → β) (names : List String) (name : String) :
    insertAll (names.map (fun n => (n, f n))) name
      = if name ∈ names then some (f name) else none := by
  have hfold : ∀ (names : List String) (m : String → Option β),
      (names.map (fun n => (n, f n))).foldl (fun m (n, b) => Function.update m n (some b)) m name
        = if name ∈ names then some (f name) else m name := by
    intro names
    induction names with
    | nil => simp
    | cons n names ih =>
      intro m
      simp only [List.map_cons, List.foldl_cons, ih, List.mem_cons]
      by_cases hmem : name ∈ names
      · simp [hmem]
      · by_cases heq : name = n
        · subst heq
          simp [hmem]
        · simp [hmem, heq]
  exact hfold names _

theorem keywordWriters_eq (schema : IndexSchema R) (docs : List Document) :
    keywordWriters schema docs
      = ((schema.fields.filter FieldConfig.isKeywordColumn).map FieldConfig.name).map
          (fun name => (name, keywordWriter name docs)) := by
  rw [keywordWriters, foldl_map_writers (fun name (w : KeywordColumnWriter) doc =>
    w.addValue (keywordValue name doc))]
  simp only [List.map_map]
  rfl

theorem numericWriters_eq (schema : IndexSchema R) (docs : List Document) :
    numericWriters schema docs
      = ((schema.fields.filter FieldConfig.isNumericColumn).map FieldConfig.name).map
          (fun name => (name, numericWriter name docs)) := by
  rw [numericWriters, foldl_map_writers (fun name (col : NumericColumn) doc =>
    col.addValue (numericValue name doc))]
  simp only [List.map_map]
  rfl

end SegmentWriter

open SegmentWriter

/-- The schema gives the field a keyword column. -/
def IndexSchema.hasKeywordColumn (schema : IndexSchema R) (name : String) : Bool :=
  name ∈ (schema.fields.filter FieldConfig.isKeywordColumn).map FieldConfig.name

/-- The schema gives the field a numeric column. -/
def IndexSchema.hasNumericColumn (schema : IndexSchema R) (name : String) : Bool :=
  name ∈ (schema.fields.filter FieldConfig.isNumericColumn).map FieldConfig.name

/-- **Which fields have a keyword column** is up to the schema, whatever the documents. -/
theorem keywordColumns_columnStore (schema : IndexSchema R) (docs : List Document)
    (name : String) :
    (columnStore schema docs).keywordColumns name
      = if schema.hasKeywordColumn name then some (keywordWriter name docs).build else none := by
  have hbuild : (keywordWriters schema docs).map (fun (name, w) => (name, w.build))
      = ((schema.fields.filter FieldConfig.isKeywordColumn).map FieldConfig.name).map
          (fun name => (name, (keywordWriter name docs).build)) := by
    rw [keywordWriters_eq, List.map_map]
    rfl
  simp only [columnStore, hbuild, insertAll_map, IndexSchema.hasKeywordColumn, decide_eq_true_eq]

/-- And so is which have a numeric column. -/
theorem numericColumns_columnStore (schema : IndexSchema R) (docs : List Document)
    (name : String) :
    (columnStore schema docs).numericColumns name
      = if schema.hasNumericColumn name then some (numericWriter name docs) else none := by
  simp only [columnStore, numericWriters_eq, insertAll_map, IndexSchema.hasNumericColumn,
    decide_eq_true_eq]

/-- A keyword column reads back what its documents put in. -/
theorem values_keywordWriter (name : String) (docs : List Document) :
    (keywordWriter name docs).values = docs.map (keywordValue name) := by
  have hrun : keywordWriter name docs = .run (docs.map (keywordValue name)) := by
    rw [keywordWriter, KeywordColumnWriter.run, List.foldl_map]
  rw [hrun, KeywordColumnWriter.values_run]

/-- So does a numeric column, with `0.0` where there is no value. -/
theorem entries_numericWriter (name : String) (docs : List Document) :
    (numericWriter name docs).entries
      = docs.map (fun doc =>
          ((numericValue name doc).getD ⟨0⟩, (numericValue name doc).isSome)) := by
  have hrun : numericWriter name docs = .run (docs.map (numericValue name)) := by
    rw [numericWriter, NumericColumn.run, List.foldl_map]
  rw [hrun, NumericColumn.entries_run, List.map_map]
  rfl

/-! ## 5. What a filter selects -/

/-- What a filter asks of a document: that the field of its column, if the schema gives it one,
holds a value that matches. -/
def IndexSchema.selects (schema : IndexSchema R) (field : String) (filter : FilterValue)
    (doc : Document) : Bool :=
  match filter with
  | .equality eq => schema.hasKeywordColumn field && keywordValue field doc = some eq
  | .range gte lte => schema.hasNumericColumn field &&
      (numericValue field doc).any (ColumnStore.withinBounds gte lte)
  | .multiValue values => schema.hasKeywordColumn field &&
      (keywordValue field doc).any (fun v => v ∈ values)

/-- An equality is an `in` with one value. -/
theorem filterEq_eq (store : ColumnStore) (field value : String) :
    store.filterEq field value = store.filterIn field [value] := by
  unfold ColumnStore.filterEq ColumnStore.filterIn
  cases store.keywordColumns field with
  | none => rfl
  | some col =>
    cases hord : col.dict.idxOf? value with
    | none => simp [hord, positions]
    | some ord => simp [hord]

/-- A keyword column is searched by value: an `in` selects the places at which one of the values
was put in. -/
theorem mem_filterIn_build {store : ColumnStore} {field : String} {w : KeywordColumnWriter}
    (hcol : store.keywordColumns field = some w.build) (values : List String) (i : LocalDocId) :
    i ∈ store.filterIn field values ↔ ∃ v ∈ values, w.values[i]? = some (some v) := by
  simp only [ColumnStore.filterIn, hcol, KeywordColumnWriter.build, Interner.idxOf?_values,
    mem_positions, decide_eq_true_eq]
  exact Interner.mem_numbers_iff _ _ w.bounded

/-- A range selects the places that have a value, and one within the bounds. -/
theorem mem_filterRange_entries {store : ColumnStore} {field : String} {col : NumericColumn}
    (hcol : store.numericColumns field = some col) (gte lte : Option F64) (i : LocalDocId) :
    i ∈ store.filterRange field gte lte ↔
      ∃ v, col.entries[i]? = some (v, true) ∧ ColumnStore.withinBounds gte lte v := by
  simp only [ColumnStore.filterRange, hcol, mem_positions, Prod.exists, Bool.and_eq_true]
  constructor
  · rintro ⟨v, _, hv, rfl, hbounds⟩
    exact ⟨v, hv, hbounds⟩
  · rintro ⟨v, hv, hbounds⟩
    exact ⟨v, true, hv, rfl, hbounds⟩

/-- A column is counted by value: the counts are those of the values of the dictionary. -/
theorem aggregateCounts_build {store : ColumnStore} {field : String} {w : KeywordColumnWriter}
    (hcol : store.keywordColumns field = some w.build) (matchingDocs : Bitmap) :
    store.aggregateCounts field matchingDocs
      = (w.table.values.map (fun value =>
          (value, (matchingDocs.filter (fun i => w.values[i]? = some (some value))).card))).filter
            (fun count => 0 < count.2) := by
  have hplaces : ∀ e ∈ w.table.values.zipIdx,
      matchingDocs.filter (fun i => w.ordinals[i]? = some (some e.2))
        = matchingDocs.filter (fun i => w.values[i]? = some (some e.1)) := by
    intro e he
    have hnumber : w.table.number e.1 = some e.2 :=
      (w.table.number_eq_some_iff _ _).mpr (List.mem_zipIdx_iff_getElem?.mp he)
    refine Finset.filter_congr fun i _ => ?_
    rw [w.table.number_eq_iff hnumber w.bounded, KeywordColumnWriter.values]
  simp only [ColumnStore.aggregateCounts, hcol, KeywordColumnWriter.build]
  congr 1
  conv_rhs => rw [← List.zipIdx_map_fst 0 w.table.values, List.map_map]
  exact List.map_congr_left fun e he =>
    congrArg (fun places : Bitmap => (e.1, places.card)) (hplaces e he)

/-- No value is counted twice. -/
theorem nodup_aggregateCounts_build {store : ColumnStore} {field : String}
    {w : KeywordColumnWriter} (hcol : store.keywordColumns field = some w.build)
    (matchingDocs : Bitmap) :
    ((store.aggregateCounts field matchingDocs).map Prod.fst).Nodup := by
  rw [aggregateCounts_build hcol]
  refine List.Nodup.sublist (List.filter_sublist.map Prod.fst) ?_
  rw [List.map_map]
  exact (List.map_id _).symm ▸ w.table.nodup_values

theorem mem_filterIn (schema : IndexSchema R) (docs : List Document) (field : String)
    (values : List String) (i : LocalDocId) :
    i ∈ (columnStore schema docs).filterIn field values ↔
      ∃ doc, docs[i]? = some doc ∧ schema.selects field (.multiValue values) doc := by
  by_cases hcol : schema.hasKeywordColumn field
  · have hstore := keywordColumns_columnStore schema docs field
    rw [if_pos hcol] at hstore
    rw [mem_filterIn_build hstore, values_keywordWriter]
    simp only [IndexSchema.selects, hcol, Bool.true_and, List.getElem?_map,
      Option.map_eq_some_iff, Option.any_eq_true, decide_eq_true_eq]
    constructor
    · rintro ⟨v, hv, doc, hdoc, hval⟩
      exact ⟨doc, hdoc, v, hval, hv⟩
    · rintro ⟨doc, hdoc, v, hval, hv⟩
      exact ⟨v, hv, doc, hdoc, hval⟩
  · simp [ColumnStore.filterIn, keywordColumns_columnStore, IndexSchema.selects, hcol]

theorem mem_filterRange (schema : IndexSchema R) (docs : List Document) (field : String)
    (gte lte : Option F64) (i : LocalDocId) :
    i ∈ (columnStore schema docs).filterRange field gte lte ↔
      ∃ doc, docs[i]? = some doc ∧ schema.selects field (.range gte lte) doc := by
  by_cases hcol : schema.hasNumericColumn field
  · have hstore := numericColumns_columnStore schema docs field
    rw [if_pos hcol] at hstore
    rw [mem_filterRange_entries hstore]
    simp only [entries_numericWriter, List.getElem?_map, Option.map_eq_some_iff, Prod.mk.injEq,
      IndexSchema.selects, hcol, Bool.true_and]
    constructor
    · rintro ⟨_, ⟨doc, hdoc, rfl, hsome⟩, hmatch⟩
      obtain ⟨v, hval⟩ := Option.isSome_iff_exists.mp hsome
      refine ⟨doc, hdoc, ?_⟩
      simpa [hval] using hmatch
    · rintro ⟨doc, hdoc, hmatch⟩
      obtain ⟨v, hval, hbounds⟩ := Option.any_eq_true _ _ |>.mp hmatch
      exact ⟨v, ⟨doc, hdoc, by simp [hval], by simp [hval]⟩, hbounds⟩
  · simp [ColumnStore.filterRange, numericColumns_columnStore, IndexSchema.selects, hcol]

/-- **What a filter selects**: the documents whose column matches, and none if the schema gives
the field no column. -/
theorem mem_filter_columnStore (schema : IndexSchema R) (docs : List Document) (field : String)
    (filter : FilterValue) (i : LocalDocId) :
    i ∈ (columnStore schema docs).filter field filter ↔
      ∃ doc, docs[i]? = some doc ∧ schema.selects field filter doc := by
  cases filter with
  | equality eq =>
    have hsel : ∀ doc, schema.selects field (.equality eq) doc
        = schema.selects field (.multiValue [eq]) doc := by
      intro doc
      cases hval : keywordValue field doc <;> simp [IndexSchema.selects, hval]
    simp only [ColumnStore.filter, filterEq_eq, mem_filterIn, hsel]
  | range gte lte => exact mem_filterRange schema docs field gte lte i
  | multiValue values => exact mem_filterIn schema docs field values i

end ZearchEngine
