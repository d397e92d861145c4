import Templating.Value.Basic
import Templating.Json.Writer
import Templating.Json.Reader

/-!
# Values and JSON

Every value has a JSON document: what JSON cannot say (undefined, callables) is null. Every document
is a value: integers beyond 64 bits become floats, and of members with one name the first gives the
place and the last the value.
-/

namespace Templating.Value

mutual

/-- The document of a value. -/
def toJson : Value → Json
  | undefined => .null
  | null => .null
  | bool b => .bool b
  | int n => .int n.toInt
  | float x => .float x
  | text s _ => .text s
  | seq items => .array (toJsonItems items)
  | map entries => .object (toJsonEntries entries)
  | callable .. => .null

/-- The documents of items. -/
def toJsonItems : List Value → List Json
  | [] => []
  | v :: rest => toJson v :: toJsonItems rest

/-- The documents of entries. -/
def toJsonEntries : List (String × Value) → List (String × Json)
  | [] => []
  | (k, v) :: rest => (k, toJson v) :: toJsonEntries rest

end

mutual

/-- The value of a document. -/
def ofJson : Json → Value
  | .null => null
  | .bool b => bool b
  | .int n => ofInt n
  | .float x => float x
  | .text s => ofString s
  | .array items => seq (ofJsonItems items)
  | .object members => map (Entries.ofPairs (ofJsonMembers members))

/-- The values of items. -/
def ofJsonItems : List Json → List Value
  | [] => []
  | j :: rest => ofJson j :: ofJsonItems rest

/-- The values of members. -/
def ofJsonMembers : List (String × Json) → List (String × Value)
  | [] => []
  | (k, j) :: rest => (k, ofJson j) :: ofJsonMembers rest

end

/-- The compact JSON text of a value. -/
def jsonText (v : Value) : String := v.toJson.compact

end Templating.Value
