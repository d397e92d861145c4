import Templating.Filter.Builtin
import Templating.Proofs.Text.Utf8

/-!
# Percent-encoding a text and decoding it again

The encoder writes each byte of a text as itself or as a percent sign with two digits. Whatever the
bytes are, the decoder gets back exactly these bytes, as no byte that is written as itself is a
percent sign; they are the UTF-8 form of the text, so that none of them is replaced.
-/

namespace Templating

namespace Text

/-- What stands for one byte: an ASCII letter or digit, one of nine marks, or a percent sign with
two upper-case hexadecimal digits. -/
def IsPercentUnit (unit : List Char) : Prop :=
  (∃ c : Char, (c.isAlphanum = true ∨ c ∈ "-_.!~*'()".toList) ∧ unit = [c]) ∨
    ∃ x ∈ "0123456789ABCDEF".toList, ∃ y ∈ "0123456789ABCDEF".toList, unit = ['%', x, y]

/-- A byte that is written as itself is an ASCII letter, a digit or one of the marks. -/
theorem isUnreserved_spec {b : UInt8} (h : isUnreserved b = true) :
    b.toNat < 128 ∧ Char.ofNat b.toNat ≠ '%' ∧
      ((Char.ofNat b.toNat).isAlphanum = true ∨ Char.ofNat b.toNat ∈ "-_.!~*'()".toList) := by
  have hall : ∀ n < 256, isUnreserved (UInt8.ofNat n) = true → n < 128 ∧ Char.ofNat n ≠ '%' ∧
      ((Char.ofNat n).isAlphanum = true ∨ Char.ofNat n ∈ "-_.!~*'()".toList) := by decide +kernel
  exact hall b.toNat b.toNat_lt (by rwa [UInt8.ofNat_toNat])

/-- Every byte is written as one unit. -/
theorem isPercentUnit_percentByte (b : UInt8) : IsPercentUnit (percentByte b) := by
  have hdigit : ∀ n < 16, upperHex n ∈ "0123456789ABCDEF".toList := by decide
  have hb := b.toNat_lt
  unfold percentByte
  split
  · rename_i hfree
    exact .inl ⟨_, (isUnreserved_spec hfree).2.2, rfl⟩
  · exact .inr ⟨_, hdigit _ (by omega), _, hdigit _ (by omega), rfl⟩

/-- A character that is no percent sign stands for its own bytes. -/
theorem percentBytes_cons {c : Char} (h : c ≠ '%') (rest : List Char) :
    percentBytes (c :: rest) = String.utf8EncodeChar c ++ percentBytes rest := by
  rw [percentBytes]
  exact fun _ _ _ heq _ => h heq

/-- A percent sign with two digits stands for a byte. -/
theorem percentBytes_digits {x y : Nat} (hx : x < 16) (hy : y < 16) (rest : List Char) :
    percentBytes ('%' :: upperHex x :: upperHex y :: rest) =
      UInt8.ofNat (x * 16 + y) :: percentBytes rest := by
  have hdigit : ∀ n < 16, hexDigit? (upperHex n) = some n := by decide
  rw [percentBytes, hdigit x hx, hdigit y hy]

/-- What a byte is written as stands for the byte. -/
theorem percentBytes_percentByte (b : UInt8) (rest : List Char) :
    percentBytes (percentByte b ++ rest) = b :: percentBytes rest := by
  have hb := b.toNat_lt
  unfold percentByte
  split
  · rename_i hfree
    obtain ⟨hascii, hpercent, -⟩ := isUnreserved_spec hfree
    have hchar := toNat_ofNat_byte b
    rw [List.singleton_append, percentBytes_cons hpercent, utf8EncodeChar_ascii (by omega), hchar,
      UInt8.ofNat_toNat, List.singleton_append]
  · rw [List.cons_append, List.cons_append, List.singleton_append,
      percentBytes_digits (by omega) (by omega),
      show b.toNat / 16 * 16 + b.toNat % 16 = b.toNat by omega, UInt8.ofNat_toNat]

/-- An encoded text stands for the bytes of the text. -/
theorem percentBytes_percentEncode (cs : List Char) :
    percentBytes (percentEncode cs) = utf8Bytes cs := by
  rw [percentEncode]
  induction utf8Bytes cs with
  | nil => rfl
  | cons b bs ih => rw [List.flatMap_cons, percentBytes_percentByte, ih]

/-- Decoding undoes encoding. -/
theorem percentDecode_percentEncode (cs : List Char) : percentDecode (percentEncode cs) = cs := by
  rw [percentDecode, percentBytes_percentEncode, decodeUtf8_utf8Bytes]

end Text

namespace Filter

/-- Every string can be percent-encoded, and decoding gives the string back. The encoded string
consists of units of letters, digits, marks and percent signs with two digits, one for each byte. -/
theorem urlDecode_urlEncode (place : FilterPlace) (s : String) :
    ∃ t : String, urlEncode place (.ofString s) [] = .ok (.ofString t) ∧
      urlDecode place (.ofString t) [] = .ok (.ofString s) ∧
      ∃ units : List (List Char), t.toList = units.flatten ∧
        (∀ unit ∈ units, Text.IsPercentUnit unit) ∧
        units.length = (Text.utf8Bytes s.toList).length := by
  refine ⟨String.ofList (Text.percentEncode s.toList), rfl, ?_,
    (Text.utf8Bytes s.toList).map Text.percentByte, ?_, ?_, List.length_map _⟩
  · have hdecode : urlDecode place (.ofString (String.ofList (Text.percentEncode s.toList))) [] =
        .ok (.ofString (String.ofList (Text.percentDecode
          (String.ofList (Text.percentEncode s.toList)).toList))) := rfl
    rw [hdecode, String.toList_ofList, Text.percentDecode_percentEncode, String.ofList_toList]
  · rw [String.toList_ofList, Text.percentEncode, List.flatMap_def]
  · intro unit hunit
    obtain ⟨b, -, rfl⟩ := List.mem_map.mp hunit
    exact Text.isPercentUnit_percentByte b

end Filter

end Templating
