import Templating.Value.Json
import Templating.Error

/-!
# Data of applications

The data model applications describe their render context in, and its conversion to values. Numbers
of every width are accepted; those beyond 64 bits become the nearest float. Variants of a sum type
become one-entry maps, a variant without fields its name. Maps fail to convert unless their keys are
strings, numbers or booleans; nothing else fails unless the application itself does.
-/

namespace Templating

/-- A piece of application data. -/
inductive Data where
  /-- A value handed over as it is. -/
  | value (v : Value)
  /-- Nothing: an absent option, a unit. -/
  | nothing
  | bool (b : Bool)
  | int (n : Int)
  | float (x : Float)
  | text (s : String)
  | bytes (bs : List Nat)
  | seq (items : List Data)
  | map (entries : List (Data × Data))
  /-- A record: its fields in order. -/
  | record (fields : List (String × Data))
  /-- A variant that carries data. -/
  | variant (name : String) (content : Data)
  /-- A map whose first value comes without a key. -/
  | keylessMap (content : Data)
  /-- Data that the application fails to describe, for a reason of its own. -/
  | refused (reason : String)
  deriving Inhabited

namespace Data

/-- The text of a map key. -/
def keyText (key : Value) : Result String :=
  match key with
  | .text s _ => .ok s
  | .bool _ => .ok key.display
  | .int _ => .ok key.display
  | .float _ => .ok key.display
  | _ => fail (.badMapKey key.kind.name)

mutual

/-- Convert data to a value. -/
def toValue : Data → Result Value
  | value v => .ok v
  | nothing => .ok .null
  | bool b => .ok (.bool b)
  | int n => .ok (.ofInt n)
  | float x => .ok (.float x)
  | text s => .ok (.ofString s)
  | bytes bs => .ok (.seq (bs.map Value.ofNat))
  | seq items => do return .seq (← itemValues items)
  | map entries => do return .map (← entryValues [] entries)
  | record fields => do return .map (← fieldValues [] fields)
  | variant name content => do return .map [(name, ← toValue content)]
  | keylessMap content => do
    let _ ← toValue content
    fail .valueBeforeKey
  | refused reason => fail (.custom .badSerialization (some reason))

/-- Convert items one after the other. -/
def itemValues : List Data → Result (List Value)
  | [] => .ok []
  | d :: rest => do
    let v ← toValue d
    return v :: (← itemValues rest)

/-- Convert entries one after the other, each key before its value. -/
def entryValues (done : Entries) : List (Data × Data) → Result Entries
  | [] => .ok done
  | (k, d) :: rest => do
    let key ← keyText (← toValue k)
    let v ← toValue d
    entryValues (Entries.insert done key v) rest

/-- Convert fields one after the other. -/
def fieldValues (done : Entries) : List (String × Data) → Result Entries
  | [] => .ok done
  | (name, d) :: rest => do
    let v ← toValue d
    fieldValues (Entries.insert done name v) rest

end

end Data

end Templating
