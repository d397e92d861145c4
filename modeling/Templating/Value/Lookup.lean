import Templating.Value.Basic

/-!
# Lookups

Attribute and item access, and the pairs a loop visits. No lookup fails: whatever is missing or
does not apply gives the undefined value.
-/

namespace Templating.Value

/-- Pick an item by a whole number, negative ones counting from the end. -/
def itemAt (items : List Value) (index : Int) : Value :=
  let i := if index < 0 then (items.length : Int) + index else index
  if i < 0 then undefined else items[i.toNat]?.getD undefined

/-- A length as an attribute. -/
def lengthValue (v : Value) : Value :=
  match v.length? with
  | some n => ofNat n
  | none => undefined

/-- Index of a sequence written as an attribute name. -/
def index? (name : String) : Option Nat :=
  match Number.unsigned? name.toList with
  | some n => if n < UInt64.size then some n else none
  | none => none

/-- Look up an attribute by name. Maps look among their keys; sequences and strings know `length`;
sequences also take an index. -/
def attr (v : Value) (name : String) : Value :=
  match v with
  | map entries => (Entries.get? entries name).getD undefined
  | seq items =>
    if name = "length" then lengthValue v
    else match index? name with
      | some i => items[i]?.getD undefined
      | none => undefined
  | text .. => if name = "length" then lengthValue v else undefined
  | _ => undefined

/-- Look up an item by key or index. -/
def item (v key : Value) : Value :=
  match v with
  | seq items =>
    match key.asInt? with
    | some i => itemAt items i.toInt
    | none => match key.asText? with
      | some name => attr v name
      | none => undefined
  | text s _ =>
    match key.asInt? with
    | some i =>
      if 0 ≤ i.toInt then
        match s.toList[i.toInt.toNat]? with
        | some c => ofChar c
        | none => undefined
      else undefined
    | none => match key.asText? with
      | some name => attr v name
      | none => undefined
  | map _ =>
    match key with
    | text name _ => attr v name
    | undefined => undefined
    | null => undefined
    | other => attr v other.display
  | _ => undefined

/-- The pairs a loop visits: index and item of a sequence, key and value of a map, nothing for any
other value. -/
def pairs : Value → List (Value × Value)
  | seq items => items.zipIdx.map fun (v, i) => (ofNat i, v)
  | map entries => entries.map fun (k, v) => (ofString k, v)
  | _ => []

end Templating.Value
