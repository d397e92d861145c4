import Templating.Json.Basic

/-!
# Decoding JSON

Readers of typed data from documents. A record is an object, whose unknown members are ignored and
whose known members must not repeat, or an array of the fields in their order, of which the last
ones may be left out.
-/

namespace Templating.Json

/-- A text. -/
def asText? : Json → Option String
  | text s => some s
  | _ => none

/-- A truth value. -/
def asBool? : Json → Option Bool
  | bool b => some b
  | _ => none

/-- A whole number below a bound. -/
def asNat? (bound : Nat) : Json → Option Nat
  | int n => if 0 ≤ n ∧ n.toNat < bound then some n.toNat else none
  | _ => none

/-- The items of an array, each read in the same way. -/
def asList? {α : Type} (read : Json → Option α) : Json → Option (List α)
  | array items => items.mapM read
  | _ => none

/-- A pair, written as an array of two items. -/
def asPair? {α β : Type} (first : Json → Option α) (second : Json → Option β) :
    Json → Option (α × β)
  | array [a, b] =>
    match first a, second b with
    | some x, some y => some (x, y)
    | _, _ => none
  | _ => none

/-- The member of a name: nothing if there is none, a failure if there are several. -/
def uniqueMember? (members : List (String × Json)) (name : String) : Option (Option Json) :=
  match members.filter fun m => m.1 == name with
  | [] => some none
  | [m] => some (some m.2)
  | _ => none

/-- The fields of a record, by their names in order; fields that are left out give nothing. -/
def fields? (names : List String) : Json → Option (List (Option Json))
  | object members => names.mapM (uniqueMember? members)
  | array items =>
    if items.length ≤ names.length then
      some (items.map some ++ List.replicate (names.length - items.length) none)
    else none
  | _ => none

/-- A field that must be there. -/
def required? {α : Type} (read : Json → Option α) : Option Json → Option α
  | some j => read j
  | none => none

/-- A field that has a value when it is left out. -/
def optional? {α : Type} (read : Json → Option α) (default : α) : Option Json → Option α
  | some j => read j
  | none => some default

end Templating.Json
