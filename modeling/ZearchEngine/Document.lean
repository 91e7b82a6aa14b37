/-
# Documents

The product document of `crates/core/src/types.rs` with its dynamic attributes.  Numbers are
kept as the bit patterns of their `f64`: the storage layers copy them and never compute with
them.  A `HashMap` of attributes is its entries in iteration order, one for each key.
-/
import Mathlib.Data.List.Nodup

namespace ZearchEngine

/-- An `f64`, by its bit pattern. -/
structure F64 where
  bits : UInt64
deriving DecidableEq

/-- Dynamic attribute value. -/
inductive Value where
  | string (s : String)
  | number (n : F64)
  | bool (b : Bool)
  | stringArray (ss : List String)
deriving DecidableEq

/-- `HashMap<String, Value>`: the entries in iteration order, no key twice. -/
structure Attributes where
  entries : List (String × Value)
  nodup : (entries.map Prod.fst).Nodup
deriving DecidableEq

/-- `#[serde(default)]`: no attributes. -/
def Attributes.empty : Attributes := ⟨[], List.nodup_nil⟩

/-- `attributes.get(key)`. -/
def Attributes.get (a : Attributes) (key : String) : Option Value :=
  (a.entries.find? (fun e => e.1 = key)).map Prod.snd

/-- A global document id. -/
abbrev DocId := UInt64

/-- A product document to be indexed and searched. -/
structure Document where
  id : DocId
  title : String
  description : String
  price : F64
  category : String
  attributes : Attributes
deriving DecidableEq

end ZearchEngine
