import Templating.Text.Blank

/-!
# String literals

The escapes of string literals: the body of a literal is read with `unescape`, and two writers
produce bodies. `addSlashes` puts a backslash before quotes and backslashes; `escapeScript` writes
every character that is special in markup or in a script as `\u` and four hexadecimal digits.
-/

namespace Templating.Text

/-- Value of a hexadecimal digit of either case. -/
def hexDigit? (c : Char) : Option Nat :=
  if '0' ≤ c ∧ c ≤ '9' then some (c.toNat - 48)
  else if 'a' ≤ c ∧ c ≤ 'f' then some (c.toNat - 87)
  else if 'A' ≤ c ∧ c ≤ 'F' then some (c.toNat - 55)
  else none

/-- Read a run of hexadecimal digits, most significant first. -/
def hexDigits? (cs : List Char) : Option Nat :=
  cs.foldl (fun acc c => do return (← acc) * 16 + (← hexDigit? c)) (some 0)

/-- The number a four-character unit after `\u` stands for. The first of the four may be a plus
sign. -/
def unit? : List Char → Option Nat
  | ['+', b, c, d] => hexDigits? [b, c, d]
  | [a, b, c, d] => hexDigits? [a, b, c, d]
  | _ => none

/-- The character behind a one-letter escape. -/
def simpleEscape? (c : Char) : Option Char :=
  if c = '"' ∨ c = '\\' ∨ c = '/' ∨ c = '\'' then some c
  else if c = 'b' then some '\x08'
  else if c = 'f' then some '\x0c'
  else if c = 'n' then some '\n'
  else if c = 'r' then some '\r'
  else if c = 't' then some '\t'
  else none

/-- A unit in the range of the surrogates. -/
def isSurrogate (u : Nat) : Bool := 0xD800 ≤ u && u ≤ 0xDFFF

/-- The character of a pair of surrogates, high before low. -/
def joinSurrogates? (high low : Nat) : Option Char :=
  if 0xD800 ≤ high ∧ high ≤ 0xDBFF ∧ 0xDC00 ≤ low ∧ low ≤ 0xDFFF then
    some (Char.ofNat (0x10000 + (high - 0xD800) * 0x400 + (low - 0xDC00)))
  else none

/-- Read the body of a literal. `pending` is a surrogate that waits for its partner, and only the
partner may follow it. -/
def unescapeFrom (pending : Option Nat) : List Char → Option (List Char)
  | [] => if pending.isNone then some [] else none
  | '\\' :: 'u' :: a :: b :: c :: d :: rest =>
    match unit? [a, b, c, d] with
    | none => none
    | some u =>
      match pending, isSurrogate u with
      | none, false => (unescapeFrom none rest).map (Char.ofNat u :: ·)
      | some _, false => none
      | none, true => unescapeFrom (some u) rest
      | some high, true =>
        match joinSurrogates? high u with
        | some ch => (unescapeFrom none rest).map (ch :: ·)
        | none => none
  | '\\' :: e :: rest =>
    match simpleEscape? e with
    | some ch => if pending.isNone then (unescapeFrom none rest).map (ch :: ·) else none
    | none => none
  | c :: rest =>
    if c = '\\' then none
    else if pending.isNone then (unescapeFrom none rest).map (c :: ·)
    else none

/-- Read the body of a literal; malformed escapes are refused. -/
def unescape (cs : List Char) : Option (List Char) := unescapeFrom none cs

/-- Put a backslash before each quote and each backslash. -/
def addSlashes (cs : List Char) : List Char :=
  cs.flatMap fun c => if c = '\\' ∨ c = '\'' ∨ c = '"' then ['\\', c] else [c]

/-- An upper-case hexadecimal digit. -/
def upperHex (n : Nat) : Char := if n < 10 then Char.ofNat (48 + n) else Char.ofNat (55 + n)

/-- Four upper-case hexadecimal digits. -/
def fourHex (n : Nat) : List Char :=
  [upperHex (n / 4096 % 16), upperHex (n / 256 % 16), upperHex (n / 16 % 16), upperHex (n % 16)]

/-- Characters that do not stand for themselves inside a script string. -/
def isScriptSpecial (c : Char) : Bool :=
  c == '\\' || c == '\'' || c == '"' || c == '<' || c == '>' || c == '&' || c == '=' || c == '-' ||
    c == ';' || c == '\u2028' || c == '\u2029' || isControl c

/-- Write special characters as `\u` and four hexadecimal digits. -/
def escapeScript (cs : List Char) : List Char :=
  cs.flatMap fun c => if isScriptSpecial c then '\\' :: 'u' :: fourHex c.toNat else [c]

end Templating.Text
