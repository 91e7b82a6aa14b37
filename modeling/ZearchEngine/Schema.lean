/-
# The schema of an index

`IndexSchema` and `FieldConfig` (`crates/core/src/schema.rs`), and what text analysis reads of a
document: the tokens of its title and description under the analyzers of the schema's fields.

Tokenizers and stemmers are a parameter, as is the Levenshtein automaton of the term
dictionary.  A boost is an element of an ordered field, not an `f32`.
-/
import ZearchEngine.Document
import Mathlib.Algebra.Field.Defs

namespace ZearchEngine

/-! ## 1. Fields -/

inductive FieldType where
  /-- Analyzed, tokenized text field. -/
  | text
  /-- Exact match only, not tokenized. -/
  | keyword
  /-- f64 numeric field for range filters and sorting. -/
  | numeric
  | boolean
deriving DecidableEq

inductive Language where
  | english | spanish | portuguese
deriving DecidableEq

inductive AnalyzerType where
  | standard (language : Language)
  | keyword
deriving DecidableEq

/-- Configuration for a single field in the index. -/
structure FieldConfig (R : Type) where
  name : String
  fieldType : FieldType
  indexed : Bool
  stored : Bool
  filterable : Bool
  aggregatable : Bool
  boost : R
  analyzer : AnalyzerType

/-- The field is part of the inverted index. -/
def FieldConfig.isText {R : Type} (f : FieldConfig R) : Bool :=
  f.indexed && f.fieldType = .text

/-- Schema definition for an index. -/
structure IndexSchema (R : Type) where
  fields : List (FieldConfig R)

/-- `default_product_schema`. -/
def IndexSchema.defaultProductSchema {R : Type} [Field R] : IndexSchema R where
  fields :=
    [ { name := "title", fieldType := .text, indexed := true, stored := true
        filterable := false, aggregatable := false, boost := 2, analyzer := .standard .spanish }
    , { name := "description", fieldType := .text, indexed := true, stored := true
        filterable := false, aggregatable := false, boost := 1, analyzer := .standard .spanish }
    , { name := "price", fieldType := .numeric, indexed := false, stored := true
        filterable := true, aggregatable := false, boost := 0, analyzer := .keyword }
    , { name := "category", fieldType := .keyword, indexed := false, stored := true
        filterable := true, aggregatable := true, boost := 0, analyzer := .keyword } ]

/-! ## 2. Text -/

/-- `AnalyzerFactory::build` with `Analyzer::analyze`, as far as the texts of the tokens go, and
`Levenshtein::new`: the automaton that accepts the terms within a distance, if it can be
built. -/
structure TextAnalysis where
  analyze : AnalyzerType → String → List String
  levenshtein : String → Nat → Option (String → Bool)

/-- The text of a document that is analyzed for a field. -/
def Document.fieldText (doc : Document) (name : String) : Option String :=
  if name = "title" then some doc.title
  else if name = "description" then some doc.description
  else none

/-- `starts_with`. -/
def startsWith (text pre : String) : Bool := pre.toList.isPrefixOf text.toList

variable {R : Type}

/-- The tokens of one field of a document. -/
def FieldConfig.tokens (analysis : TextAnalysis) (doc : Document) (f : FieldConfig R) :
    List String :=
  match doc.fieldText f.name with
  | some text => analysis.analyze f.analyzer text
  | none => []

/-- The tokens of a document that are indexed, in order. -/
def IndexSchema.docTokens (schema : IndexSchema R) (analysis : TextAnalysis) (doc : Document) :
    List String :=
  (schema.fields.filter FieldConfig.isText).flatMap (FieldConfig.tokens analysis doc)

/-- The analyzer of queries: that of the first indexed text field. -/
def IndexSchema.queryAnalyzer (schema : IndexSchema R) : AnalyzerType :=
  ((schema.fields.find? FieldConfig.isText).map FieldConfig.analyzer).getD .keyword

/-- The tokens of a query.  `TokenizerAnalyzer` of the query pipeline yields the same. -/
def IndexSchema.queryTokens (schema : IndexSchema R) (analysis : TextAnalysis) (query : String) :
    List String :=
  analysis.analyze schema.queryAnalyzer query

end ZearchEngine
