import Templating.Text.Literal

/-!
# Percent encoding

Text as it stands in a component of a link. The bytes of the UTF-8 form are written as themselves
where they are letters, digits or one of nine marks, and as `%` and two upper-case hexadecimal
digits otherwise. Reading leaves malformed percent signs alone and replaces every malformed stretch
of bytes by the replacement character.
-/

namespace Templating.Text

/-- Bytes that are written as themselves. -/
def isUnreserved (b : UInt8) : Bool :=
  let n := b.toNat
  (48 ≤ n && n ≤ 57) || (65 ≤ n && n ≤ 90) || (97 ≤ n && n ≤ 122) ||
    n == 45 || n == 95 || n == 46 || n == 33 || n == 126 || n == 42 || n == 39 || n == 40 || n == 41

/-- The text of one byte. -/
def percentByte (b : UInt8) : List Char :=
  if isUnreserved b then [Char.ofNat b.toNat]
  else ['%', upperHex (b.toNat / 16), upperHex (b.toNat % 16)]

/-- The bytes of the UTF-8 form of a text. -/
def utf8Bytes (cs : List Char) : List UInt8 := cs.flatMap String.utf8EncodeChar

/-- Encode a text. -/
def percentEncode (cs : List Char) : List Char := (utf8Bytes cs).flatMap percentByte

/-- The bytes a percent-encoded text stands for. -/
def percentBytes : List Char → List UInt8
  | [] => []
  | '%' :: a :: b :: rest =>
    match hexDigit? a, hexDigit? b with
    | some x, some y => UInt8.ofNat (x * 16 + y) :: percentBytes rest
    | _, _ => 37 :: percentBytes (a :: b :: rest)
  | c :: rest => String.utf8EncodeChar c ++ percentBytes rest

/-- The byte continues a character. -/
def isContinuation (b : UInt8) : Bool := 0x80 ≤ b && b ≤ 0xBF

/-- The second byte may follow the given first byte of a character of three or four bytes. -/
def isSecondByte (first second : UInt8) : Bool :=
  if first = 0xE0 then 0xA0 ≤ second && second ≤ 0xBF
  else if first = 0xED then 0x80 ≤ second && second ≤ 0x9F
  else if first = 0xF0 then 0x90 ≤ second && second ≤ 0xBF
  else if first = 0xF4 then 0x80 ≤ second && second ≤ 0x8F
  else isContinuation second

/-- The replacement character. -/
def replacement : Char := '\ufffd'

/-- The character of two bytes. -/
def join2 (a b : UInt8) : Char := Char.ofNat ((a.toNat % 32) * 64 + b.toNat % 64)

/-- The character of three bytes. -/
def join3 (a b c : UInt8) : Char :=
  Char.ofNat ((a.toNat % 16) * 4096 + (b.toNat % 64) * 64 + c.toNat % 64)

/-- The character of four bytes. -/
def join4 (a b c d : UInt8) : Char :=
  Char.ofNat ((a.toNat % 8) * 262144 + (b.toNat % 64) * 4096 + (c.toNat % 64) * 64 + d.toNat % 64)

/-- Read UTF-8. A stretch that begins a character but does not complete it gives one replacement
character, and so does every byte that begins none. -/
def decodeUtf8 : List UInt8 → List Char
  | [] => []
  | a :: rest =>
    if a < 0x80 then Char.ofNat a.toNat :: decodeUtf8 rest
    else if 0xC2 ≤ a && a ≤ 0xDF then
      match rest with
      | [] => [replacement]
      | b :: more =>
        if isContinuation b then join2 a b :: decodeUtf8 more
        else replacement :: decodeUtf8 (b :: more)
    else if 0xE0 ≤ a && a ≤ 0xEF then
      match rest with
      | [] => [replacement]
      | b :: more =>
        if isSecondByte a b then
          match more with
          | [] => [replacement]
          | c :: tail =>
            if isContinuation c then join3 a b c :: decodeUtf8 tail
            else replacement :: decodeUtf8 (c :: tail)
        else replacement :: decodeUtf8 (b :: more)
    else if 0xF0 ≤ a && a ≤ 0xF4 then
      match rest with
      | [] => [replacement]
      | b :: more =>
        if isSecondByte a b then
          match more with
          | [] => [replacement]
          | c :: tail =>
            if isContinuation c then
              match tail with
              | [] => [replacement]
              | d :: last =>
                if isContinuation d then join4 a b c d :: decodeUtf8 last
                else replacement :: decodeUtf8 (d :: last)
            else replacement :: decodeUtf8 (c :: tail)
        else replacement :: decodeUtf8 (b :: more)
    else replacement :: decodeUtf8 rest

/-- Decode a percent-encoded text. -/
def percentDecode (cs : List Char) : List Char := decodeUtf8 (percentBytes cs)

end Templating.Text
