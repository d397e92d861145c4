import Templating.Number.Decimal

/-!
# Values

What a template computes with: the values of the render context and everything an expression
evaluates to. Maps keep their keys in order of first insertion and hold each key once; strings
carry a mark that exempts them from escaping.
-/

namespace Templating

/-- A template value. -/
inductive Value where
  /-- What a failed lookup gives. -/
  | undefined
  | null
  | bool (b : Bool)
  | int (n : Int64)
  | float (x : Float)
  /-- A string; a safe one is written to the output without escaping. -/
  | text (s : String) (safe : Bool)
  | seq (items : List Value)
  | map (entries : List (String × Value))
  /-- A callable compiled from a template, by its number in the program's table. -/
  | callable (id : Nat) (name : String)
  deriving Inhabited

namespace Value

/-- The kinds of values, in sorting order. -/
inductive Kind where
  | undefined
  | null
  | bool
  | number
  | text
  | seq
  | map
  | callable
  deriving Repr, DecidableEq, Inhabited

/-- The kind as messages name it. -/
def Kind.name : Kind → String
  | undefined => "undefined"
  | null => "none"
  | bool => "bool"
  | number => "number"
  | text => "string"
  | seq => "sequence"
  | map => "map"
  | callable => "macro"

/-- The place of the kind in sorting order. -/
def Kind.rank : Kind → Nat
  | undefined => 0
  | null => 1
  | bool => 2
  | number => 3
  | text => 4
  | seq => 5
  | map => 6
  | callable => 7

/-- The kind of a value. -/
def kind : Value → Kind
  | undefined => .undefined
  | null => .null
  | bool _ => .bool
  | int _ => .number
  | float _ => .number
  | text .. => .text
  | seq _ => .seq
  | map _ => .map
  | callable .. => .callable

/-- An ordinary string. -/
def ofString (s : String) : Value := text s false

/-- A string exempt from escaping. -/
def ofSafeString (s : String) : Value := text s true

/-- A one-character string. -/
def ofChar (c : Char) : Value := text c.toString false

/-- An integer where it fits 64 bits, the nearest float otherwise. -/
def ofInt (n : Int) : Value :=
  match Number.toWord? n with
  | some w => int w
  | none => float (Number.floatOfInt n)

/-- A length or an index. -/
def ofNat (n : Nat) : Value := ofInt n

/-- The value is undefined. -/
def isUndefined : Value → Bool
  | undefined => true
  | _ => false

/-- The value is undefined or none. -/
def isMissing : Value → Bool
  | undefined => true
  | null => true
  | _ => false

/-- The value is a string exempt from escaping. -/
def isSafe : Value → Bool
  | text _ safe => safe
  | _ => false

/-- Whether a condition on the value holds: undefined, none, false, zero, NaN and everything empty
count as false. -/
def isTrue : Value → Bool
  | undefined => false
  | null => false
  | bool b => b
  | int n => n != 0
  | float x => x != 0.0 && !x.isNaN
  | text s _ => s != ""
  | seq items => !items.isEmpty
  | map entries => !entries.isEmpty
  | callable .. => true

/-- The text of a string value. -/
def asText? : Value → Option String
  | text s _ => some s
  | _ => none

/-- The value as a 64 bit integer: integers, and floats without a fraction below `2 ^ 63`. -/
def asInt? : Value → Option Int64
  | int n => some n
  | float x =>
    match (Number.Binary.ofFloat x).toInt? with
    | some n => if n.natAbs < Nat.pow 2 63 then some (Int64.ofInt n) else none
    | none => none
  | _ => none

/-- The nearest float of a 64 bit integer. -/
def floatOfWord (n : Int64) : Float := Number.floatOfInt n.toInt

/-- The value as a float, if it is a number. -/
def asFloat? : Value → Option Float
  | int n => some (floatOfWord n)
  | float x => some x
  | _ => none

mutual

/-- The text of a value in template output, before escaping: the items of a sequence are joined by
commas, a map has one fixed text. -/
def display : Value → String
  | undefined => ""
  | null => ""
  | bool b => if b then "true" else "false"
  | int n => Number.intText n.toInt
  | float x => Number.floatText .output x
  | text s _ => s
  | seq items => displayItems items
  | map _ => "[object Object]"
  | callable .. => ""

/-- The texts of the items, joined by commas. -/
def displayItems : List Value → String
  | [] => ""
  | [v] => display v
  | v :: w :: rest => display v ++ "," ++ displayItems (w :: rest)

end

/-- The number of characters, items or entries. -/
def length? : Value → Option Nat
  | text s _ => some s.toList.length
  | seq items => some items.length
  | map entries => some entries.length
  | _ => none

end Value

/-- Ordered entries with unique keys. -/
abbrev Entries := List (String × Value)

namespace Entries

/-- The value stored under a key. -/
def get? : Entries → String → Option Value
  | [], _ => none
  | (k, v) :: rest, key => if k = key then some v else get? rest key

/-- The key is present. -/
def contains (entries : Entries) (key : String) : Bool := (get? entries key).isSome

/-- Store a value: an existing key keeps its place, a new key goes to the end. -/
def insert : Entries → String → Value → Entries
  | [], key, value => [(key, value)]
  | (k, v) :: rest, key, value =>
    if k = key then (k, value) :: rest else (k, v) :: insert rest key value

/-- Store pairs one after another. -/
def ofPairs (pairs : List (String × Value)) : Entries :=
  pairs.foldl (fun entries (key, value) => insert entries key value) []

/-- Looking up the key just stored gives the value just stored. -/
theorem get?_insert_self (entries : Entries) (key : String) (value : Value) :
    get? (insert entries key value) key = some value := by
  induction entries with
  | nil => simp [insert, get?]
  | cons e rest ih =>
    obtain ⟨k, v⟩ := e
    by_cases h : k = key <;> simp [insert, get?, h, ih]

/-- Storing under one key leaves every other key alone. -/
theorem get?_insert_of_ne (entries : Entries) {key other : String} (value : Value)
    (h : other ≠ key) : get? (insert entries key value) other = get? entries other := by
  induction entries with
  | nil => simp [insert, get?, Ne.symm h]
  | cons e rest ih =>
    obtain ⟨k, v⟩ := e
    by_cases hk : k = key
    · subst hk; simp [insert, get?, Ne.symm h]
    · simp only [insert, hk, if_false, get?, ih]

end Entries

end Templating
