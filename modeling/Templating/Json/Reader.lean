import Templating.Json.Basic
import Templating.Text.Literal

/-!
# Reading JSON

A strict reader: one document with white space around it and nothing else. Integers between the
least signed and the greatest unsigned 64 bit number stay integers; every other number is the
nearest float, an infinite one if it is too large for a finite float.
-/

namespace Templating.Json

/-- White space between tokens: space, tab, line feed, carriage return. -/
def isSpace (c : Char) : Bool := c == ' ' || c == '\t' || c == '\n' || c == '\r'

/-- Drop white space in front. -/
def skipSpace (cs : List Char) : List Char := cs.dropWhile isSpace

/-- A character that is not white space stays. -/
theorem skipSpace_cons {c : Char} {cs : List Char} (h : isSpace c = false) :
    skipSpace (c :: cs) = c :: cs := by
  rw [skipSpace, List.dropWhile_cons, if_neg (by simp [h])]

/-- White space is dropped once and for all. -/
theorem skipSpace_skipSpace (cs : List Char) : skipSpace (skipSpace cs) = skipSpace cs := by
  induction cs with
  | nil => rfl
  | cons c cs ih =>
    cases h : isSpace c with
    | true => simpa [skipSpace, List.dropWhile_cons, h] using ih
    | false => rw [skipSpace_cons h, skipSpace_cons h]

/-- The number of four hexadecimal digits. -/
def fourDigits? (a b c d : Char) : Option Nat := Text.hexDigits? [a, b, c, d]

/-- The character behind a one-letter escape. -/
def escape? (c : Char) : Option Char :=
  if c = '"' ∨ c = '\\' ∨ c = '/' then some c
  else if c = 'b' then some '\x08'
  else if c = 'f' then some '\x0c'
  else if c = 'n' then some '\n'
  else if c = 'r' then some '\r'
  else if c = 't' then some '\t'
  else none

/-- The rest of a string behind its opening quote: its characters and what follows the closing
quote. -/
def stringRest? : List Char → Option (List Char × List Char)
  | [] => none
  | '"' :: rest => some ([], rest)
  | '\\' :: 'u' :: a :: b :: c :: d :: rest =>
    match fourDigits? a b c d with
    | none => none
    | some u =>
      if Text.isSurrogate u then
        match rest with
        | '\\' :: 'u' :: e :: f :: g :: h :: more =>
          match (fourDigits? e f g h).bind (Text.joinSurrogates? u) with
          | none => none
          | some ch => (stringRest? more).map fun (s, tail) => (ch :: s, tail)
        | _ => none
      else (stringRest? rest).map fun (s, tail) => (Char.ofNat u :: s, tail)
  | '\\' :: c :: rest =>
    match escape? c with
    | none => none
    | some ch => (stringRest? rest).map fun (s, tail) => (ch :: s, tail)
  | c :: rest =>
    if c = '\\' ∨ c.toNat < 32 then none
    else (stringRest? rest).map fun (s, tail) => (c :: s, tail)

/-- Characters a number consists of. -/
def isNumberChar (c : Char) : Bool :=
  Number.isDigit c || c == '.' || c == 'e' || c == 'E' || c == '+' || c == '-'

/-- The number an unsigned number text stands for. A number of more than one digit does not begin
with zero, and digits stand on both sides of a point. -/
def number? (negative : Bool) (cs : List Char) : Option Json :=
  let whole := cs.takeWhile Number.isDigit
  let more := cs.dropWhile Number.isDigit
  if whole.isEmpty || (whole.head? == some '0' && 1 < whole.length) then none
  else
    match more with
    | [] =>
      match Number.natOfDigits? whole with
      | none => none
      | some n =>
        if negative then
          if n = 0 then some (.float (-0.0))
          else if n ≤ Nat.pow 2 63 then some (.int (-(n : Int)))
          else some (.float (-(Number.floatOfNat n)))
        else if n < UInt64.size then some (.int n)
        else nearest? (Number.decimal? cs)
    | '.' :: d :: _ => if Number.isDigit d then nearest? (Number.decimal? cs) else none
    | '.' :: _ => none
    | _ => nearest? (Number.decimal? cs)
where
  /-- The nearest float. -/
  nearest? (d? : Option Number.DecimalText) : Option Json :=
    d?.map fun d => .float ({ d with negative := negative } : Number.DecimalText).toFloat

mutual

/-- Read one document at the front. The bound is at least the number of characters. -/
def value? : Nat → List Char → Option (Json × List Char)
  | 0, _ => none
  | bound + 1, cs =>
    match skipSpace cs with
    | '"' :: rest => (stringRest? rest).map fun (s, tail) => (.text (String.ofList s), tail)
    | '[' :: rest =>
      match skipSpace rest with
      | ']' :: tail => some (.array [], tail)
      | rest => (items? bound rest).map fun (items, tail) => (.array items, tail)
    | '{' :: rest =>
      match skipSpace rest with
      | '}' :: tail => some (.object [], tail)
      | rest => (members? bound rest).map fun (members, tail) => (.object members, tail)
    | 'n' :: 'u' :: 'l' :: 'l' :: tail => some (.null, tail)
    | 't' :: 'r' :: 'u' :: 'e' :: tail => some (.bool true, tail)
    | 'f' :: 'a' :: 'l' :: 's' :: 'e' :: tail => some (.bool false, tail)
    | '-' :: rest =>
      (number? true (rest.takeWhile isNumberChar)).map fun j => (j, rest.dropWhile isNumberChar)
    | rest =>
      (number? false (rest.takeWhile isNumberChar)).map fun j => (j, rest.dropWhile isNumberChar)

/-- Read the items of an array and its closing bracket. -/
def items? : Nat → List Char → Option (List Json × List Char)
  | 0, _ => none
  | bound + 1, cs =>
    match value? bound cs with
    | none => none
    | some (j, rest) =>
      match skipSpace rest with
      | ',' :: more => (items? bound more).map fun (items, tail) => (j :: items, tail)
      | ']' :: tail => some ([j], tail)
      | _ => none

/-- Read the members of an object and its closing brace. -/
def members? : Nat → List Char → Option (List (String × Json) × List Char)
  | 0, _ => none
  | bound + 1, cs =>
    match skipSpace cs with
    | '"' :: rest =>
      match stringRest? rest with
      | none => none
      | some (name, rest) =>
        match skipSpace rest with
        | ':' :: rest =>
          match value? bound rest with
          | none => none
          | some (j, rest) =>
            match skipSpace rest with
            | ',' :: more =>
              (members? bound more).map fun (members, tail) =>
                ((String.ofList name, j) :: members, tail)
            | '}' :: tail => some ([(String.ofList name, j)], tail)
            | _ => none
        | _ => none
    | _ => none

end

/-- Reading a document begins with its first token. -/
theorem value?_skipSpace (bound : Nat) (cs : List Char) :
    value? bound (skipSpace cs) = value? bound cs := by
  cases bound with
  | zero => rfl
  | succ bound => rw [value?, value?, skipSpace_skipSpace]

/-- Reading items begins with the first token. -/
theorem items?_skipSpace (bound : Nat) (cs : List Char) :
    items? bound (skipSpace cs) = items? bound cs := by
  cases bound with
  | zero => rfl
  | succ bound => rw [items?, items?, value?_skipSpace]

/-- Reading members begins with the first token. -/
theorem members?_skipSpace (bound : Nat) (cs : List Char) :
    members? bound (skipSpace cs) = members? bound cs := by
  cases bound with
  | zero => rfl
  | succ bound => rw [members?, members?, skipSpace_skipSpace]

/-- Read a text that is one document. -/
def read? (cs : List Char) : Option Json :=
  match value? (2 * cs.length + 2) cs with
  | some (j, rest) => if (skipSpace rest).isEmpty then some j else none
  | none => none

end Templating.Json
