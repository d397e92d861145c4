import Templating.Value.Basic
import Templating.Error
import Templating.Text.Blank

/-!
# Filters

A filter turns a value and some arguments into a value, or fails. Filters are functions on values;
most are made from a function on plain types by naming how each argument is read. Strings are read
leniently, numbers and sequences strictly, and arguments that are left out are missing.
-/

namespace Templating

/-- What a filter is told about the place it is applied at. -/
structure FilterPlace where
  /-- The template being rendered. -/
  template : String
  /-- Output is being escaped. -/
  autoescape : Bool

/-- A filter. -/
abbrev Filter := FilterPlace → Value → List Value → Result Value

/-- How an argument is read; an argument may be left out. -/
abbrev Arg (α : Type) := Option Value → Result α

namespace Arg

/-- Read an argument that must not be left out. -/
def required {α : Type} (read : Value → Result α) : Arg α
  | none => fail .missingArgument
  | some v => read v

/-- The fault of an argument of the wrong kind. -/
def wrong {α : Type} (expected : String) (v : Value) : Result α :=
  fail (.wrongArgument expected v.kind.name)

/-- Any value; undefined if left out. -/
def any : Arg Value := fun v? => .ok (v?.getD .undefined)

/-- The text of a value. -/
def text : Arg String := required fun v => .ok v.display

/-- Whether a condition on the value holds. -/
def flag : Arg Bool := required fun v => .ok v.isTrue

/-- An integer, or a string that reads as one. -/
def int : Arg Int64 := required fun v =>
  match v.asInt? with
  | some n => .ok n
  | none =>
    match (v.asText?.bind fun s => Number.signed? (Text.trim s.toList)).bind Number.toWord? with
    | some n => .ok n
    | none => wrong "integer" v

/-- An integer that is not negative. -/
def index : Arg Nat := required fun v =>
  match v.asInt? with
  | some n => if 0 ≤ n.toInt then .ok n.toInt.toNat else wrong "non-negative integer" v
  | none => wrong "non-negative integer" v

/-- A number as a float. -/
def float : Arg Float := required fun v =>
  match v.asFloat? with
  | some x => .ok x
  | none => wrong "number" v

/-- The items of a sequence; a missing value has none. -/
def items : Arg (List Value) := required fun v =>
  match v with
  | .seq items => .ok items
  | .undefined => .ok []
  | .null => .ok []
  | v => wrong "sequence" v

/-- An argument that may be left out, undefined or none. -/
def optional {α : Type} (read : Arg α) : Arg (Option α)
  | none => .ok none
  | some v => if v.isMissing then .ok none else (read (some v)).map some

end Arg

namespace Filter

/-- Refuse more arguments than a filter takes. -/
def atMost (count : Nat) (args : List Value) : Result Unit :=
  if count < args.length then fail (.tooManyArguments count args.length) else .ok ()

/-- A filter without arguments. -/
def of0 {α : Type} (a : Arg α) (f : FilterPlace → α → Result Value) : Filter :=
  fun place v args => do
    let x ← a (some v)
    atMost 0 args
    f place x

/-- A filter with one argument. -/
def of1 {α β : Type} (a : Arg α) (b : Arg β) (f : FilterPlace → α → β → Result Value) : Filter :=
  fun place v args => do
    let x ← a (some v)
    atMost 1 args
    f place x (← b args[0]?)

/-- A filter with two arguments. -/
def of2 {α β γ : Type} (a : Arg α) (b : Arg β) (c : Arg γ)
    (f : FilterPlace → α → β → γ → Result Value) : Filter :=
  fun place v args => do
    let x ← a (some v)
    atMost 2 args
    let y ← b args[0]?
    f place x y (← c args[1]?)

/-- A filter with four arguments. -/
def of4 {α β γ δ ε : Type} (a : Arg α) (b : Arg β) (c : Arg γ) (d : Arg δ) (e : Arg ε)
    (f : FilterPlace → α → β → γ → δ → ε → Result Value) : Filter :=
  fun place v args => do
    let x ← a (some v)
    atMost 4 args
    let y ← b args[0]?
    let z ← c args[1]?
    let w ← d args[2]?
    f place x y z w (← e args[3]?)

/-- A filter with any number of arguments. -/
def ofMany {α : Type} (a : Arg α) (f : FilterPlace → α → List Value → Result Value) : Filter :=
  fun place v args => do
    let x ← a (some v)
    f place x args

end Filter

end Templating
