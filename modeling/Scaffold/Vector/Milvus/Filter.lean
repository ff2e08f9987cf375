import Scaffold.Python.JsonScalar
import Scaffold.Vector.Dynamic

namespace Scaffold.Vector.Milvus

open Python

-- A value of a filter.
inductive FilterScalar where
  | str (value : Text)
  | int (value : Int)
  | float (value : PyFloat)
  | bool (value : Bool)

def FilterScalar.json : FilterScalar → JsonValue
  | .str value => .str value
  | .int value => .int value
  | .float value => .float value
  | .bool value => .bool value

def FilterScalar.value : FilterScalar → Dynamic.PyValue
  | .str value => .str value
  | .int value => .int value
  | .float value => .float value
  | .bool value => .bool value

-- A key: its characters, which the checks read, and the text that `format` returns for it. A `str` has
-- itself as this text; a class derived from `str` may have another one, such as `K.A` for the member of
-- an enumeration whose characters are `a`.
structure FilterKey where
  text : Text
  format : Text

-- A mapping of filters by its items in their order, and as the value that the checks are given.
abbrev Filters := List (FilterKey × FilterScalar)

def Filters.mapping (filters : Filters) : Dynamic.PyValue :=
  .dict (filters.map fun item => (.str item.1.text, item.2.value))

def Filters.pairs (filters : Filters) : List (Text × JsonValue) :=
  filters.map fun item => (item.1.text, item.2.json)

def validateFilters : Option Dynamic.PyValue → Except Dynamic.ValidationError Unit
  | none => .ok ()
  | some filters => Dynamic.validateMetadata filters

-- `f"{key} == {json.dumps(value, ensure_ascii=False)}"`
def predicateText (item : FilterKey × FilterScalar) : Text :=
  item.1.format ++ textOf " == " ++ dumps (textOf ", ") (textOf ": ") item.2.json

def milvusFilter : Option Filters → Text
  | none | some [] => []
  | some filters => (textOf " and ").intercalate (filters.map predicateText)

-- The grammar of the expressions.

-- identifier ' == ' JSON-scalar
def Predicate (text : Text) (pair : Text × JsonValue) : Prop :=
  Dynamic.matchesKey pair.1 = true ∧ ∃ scalar, readScalar scalar = some pair.2 ∧
    text = pair.1 ++ textOf " == " ++ scalar

-- predicate (' and ' predicate)*
inductive Expression : Text → List (Text × JsonValue) → Prop where
  | single {text : Text} {pair : Text × JsonValue} (h : Predicate text pair) : Expression text [pair]
  | and {text rest : Text} {pair : Text × JsonValue} {pairs : List (Text × JsonValue)}
    (h : Predicate text pair)
      (hrest : Expression rest pairs) : Expression (text ++ textOf " and " ++ rest) (pair :: pairs)

end Scaffold.Vector.Milvus
