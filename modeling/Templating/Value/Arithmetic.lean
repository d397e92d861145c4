import Templating.Value.Order
import Templating.Value.Lookup
import Templating.Error
import Templating.Text.Search

/-!
# Operators on values

Arithmetic on integers is exact or fails, arithmetic that involves a float is that of floats. An
undefined operand counts as zero, except that adding to undefined gives the other operand. Adding
also joins sequences, and joins texts as soon as one operand is a string.
-/

namespace Templating.Value

/-- An operand of arithmetic: undefined counts as zero. -/
def orZero (v : Value) : Value := if v.isUndefined then int 0 else v

/-- The fault of operands an operator has no meaning for. -/
def unsupported (op : String) (a b : Value) : Fault :=
  .unsupportedOperands op a.kind.name b.kind.name

/-- An exact integer result, or the fault that there is none. -/
def exactly (op : String) (a b : Int64) (result? : Option Int64) : Result Value :=
  match result? with
  | some n => .ok (int n)
  | none => fail (.inexactResult op (Number.intText a.toInt) (Number.intText b.toInt))

/-- Numeric operators, given by their integer and their float form. -/
def numeric (op : String) (onInts : Int64 → Int64 → Option Int64) (onFloats : Float → Float → Float)
    (a b : Value) : Result Value :=
  match common? a.orZero b.orZero with
  | some (.ints x y) => exactly op x y (onInts x y)
  | some (.floats x y) => .ok (float (onFloats x y))
  | _ => fail (unsupported op a.orZero b.orZero)

/-- Difference. -/
def sub : Value → Value → Result Value := numeric "-" Number.sub? (· - ·)

/-- Product. -/
def mul : Value → Value → Result Value := numeric "*" Number.mul? (· * ·)

/-- Remainder of the division that truncates toward zero. -/
def rem : Value → Value → Result Value := numeric "%" Number.rem? Number.floatRem

/-- Join the texts of two values. -/
def concat (a b : Value) : Value := ofString (a.display ++ b.display)

/-- Sum of what is neither undefined nor text nor two sequences. -/
def addNumbers (a b : Value) : Result Value :=
  match common? a b with
  | some (.ints x y) => exactly "+" x y (Number.add? x y)
  | some (.floats x y) => .ok (float (x + y))
  | _ => fail (unsupported "+" a b)

/-- Sum, joined texts or joined sequences. -/
def add (a b : Value) : Result Value :=
  match a, b with
  | undefined, b => .ok b
  | a, undefined => .ok a
  | text s safe, b => .ok (concat (text s safe) b)
  | a, text s safe => .ok (concat a (text s safe))
  | seq xs, seq ys => .ok (seq (xs ++ ys))
  | a, b => addNumbers a b

/-- Quotient, always a float. -/
def div (a b : Value) : Result Value :=
  match a.orZero.asFloat?, b.orZero.asFloat? with
  | some x, some y => .ok (float (x / y))
  | _, _ => fail (unsupported "/" a.orZero b.orZero)

/-- Negation. -/
def neg : Value → Result Value
  | int n =>
    match Number.neg? n with
    | some m => .ok (int m)
    | none => fail .negationOverflow
  | float x => .ok (float (-x))
  | undefined => .ok undefined
  | v => fail (.cannotNegate v.kind.name)

/-- The container holds the value: a string the text of it, a sequence an equal item, a map the
text of it as a key. -/
def contains (container v : Value) : Bool :=
  match container with
  | text s _ => Text.contains v.display.toList s.toList
  | seq items => items.any fun item => looseEq item v
  | map entries => Entries.contains entries v.display
  | _ => false

/-- A comparison holds if the values can be compared and their order is accepted. -/
def ordered (accept : Ordering → Bool) (a b : Value) : Bool :=
  match compare? a b with
  | some o => accept o
  | none => false

end Templating.Value
