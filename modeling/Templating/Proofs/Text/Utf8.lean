import Mathlib.Tactic.SplitIfs
import Templating.Text.Percent

/-!
# UTF-8

The bytes of a text, character by character: an ASCII character is one byte with its number, every
other character consists of bytes from 128 on. Decoding the bytes of a text gives the text.
-/

namespace Templating.Text

variable {c : Char} {a b d e : UInt8}

theorem utf8Bytes_append (cs ds : List Char) :
    utf8Bytes (cs ++ ds) = utf8Bytes cs ++ utf8Bytes ds := List.flatMap_append

/-- A text has the size of its bytes. -/
theorem utf8ByteSize_ofList (cs : List Char) :
    (String.ofList cs).utf8ByteSize = (utf8Bytes cs).length := by
  rw [← String.size_toByteArray, String.toByteArray_ofList, List.utf8Encode]
  exact List.size_toByteArray

/-- A text has no more characters than bytes. -/
theorem length_toList_le (s : String) : s.toList.length ≤ s.utf8ByteSize := by
  rw [← String.ofList_toList (s := s), utf8ByteSize_ofList, String.toList_ofList]
  induction s.toList with
  | nil => exact Nat.le_refl _
  | cons c cs ih =>
    have hc : 1 ≤ (String.utf8EncodeChar c).length :=
      String.length_utf8EncodeChar c ▸ c.utf8Size_pos
    rw [utf8Bytes, List.flatMap_cons, List.length_append, List.length_cons, Nat.add_comm]
    exact Nat.add_le_add hc ih

/-- The end of a front of a text is between characters. -/
theorem isValid_length_utf8Bytes (cs ds : List Char) :
    String.Pos.Raw.IsValid (String.ofList (cs ++ ds)) ⟨(utf8Bytes cs).length⟩ := by
  rw [String.Pos.Raw.isValid_iff_exists_append]
  exact ⟨_, _, String.ofList_append, by rw [String.rawEndPos, utf8ByteSize_ofList]⟩

/-- The character with the number of a byte. -/
theorem toNat_ofNat_byte (b : UInt8) : (Char.ofNat b.toNat).toNat = b.toNat := by
  have hvalid : b.toNat.isValidChar := .inl (Nat.lt_trans b.toNat_lt (by decide))
  rw [Char.ofNat, dif_pos hvalid]
  rfl

/-- The byte of a number. -/
theorem toNat_byte {n : Nat} (h : n < 256) : (UInt8.ofNat n).toNat = n := by
  rw [UInt8.toNat_ofNat', Nat.mod_eq_of_lt h]

/-! ## The bytes of a character -/

/-- An ASCII character is one byte. -/
theorem utf8EncodeChar_ascii (h : c.toNat < 128) :
    String.utf8EncodeChar c = [UInt8.ofNat c.toNat] := by
  have hle : c.val.toNat ≤ 127 := Nat.le_of_lt_succ h
  rw [String.utf8EncodeChar, if_pos hle]
  rfl

/-- The bytes of a character that is not ASCII, with what their numbers say about it. -/
theorem utf8EncodeChar_cases (h : 128 ≤ c.toNat) :
    (∃ a b : UInt8, String.utf8EncodeChar c = [a, b] ∧ c.toNat < 2048 ∧
      a.toNat = 192 + c.toNat / 64 ∧ b.toNat = 128 + c.toNat % 64) ∨
    (∃ a b d : UInt8, String.utf8EncodeChar c = [a, b, d] ∧ 2048 ≤ c.toNat ∧ c.toNat < 65536 ∧
      a.toNat = 224 + c.toNat / 4096 ∧ b.toNat = 128 + c.toNat / 64 % 64 ∧
      d.toNat = 128 + c.toNat % 64) ∨
    (∃ a b d e : UInt8, String.utf8EncodeChar c = [a, b, d, e] ∧ 65536 ≤ c.toNat ∧
      a.toNat = 240 + c.toNat / 262144 ∧ b.toNat = 128 + c.toNat / 4096 % 64 ∧
      d.toNat = 128 + c.toNat / 64 % 64 ∧ e.toNat = 128 + c.toNat % 64) := by
  have hvalid : c.toNat < 0xD800 ∨ 0xDFFF < c.toNat ∧ c.toNat < 0x110000 := c.valid
  have hval : c.val.toNat = c.toNat := rfl
  rw [String.utf8EncodeChar, hval, if_neg (by omega)]
  split
  · refine .inl ⟨_, _, rfl, by omega, ?_, ?_⟩ <;> rw [toNat_byte (by omega)] <;> omega
  · split
    · refine .inr (.inl ⟨_, _, _, rfl, by omega, by omega, ?_, ?_, ?_⟩) <;>
        rw [toNat_byte (by omega)] <;> omega
    · refine .inr (.inr ⟨_, _, _, _, rfl, by omega, ?_, ?_, ?_, ?_⟩) <;>
        rw [toNat_byte (by omega)] <;> omega

/-- The bytes of a character that is not ASCII are not ASCII. -/
theorem le_of_mem_utf8EncodeChar (h : 128 ≤ c.toNat) (hb : b ∈ String.utf8EncodeChar c) :
    128 ≤ b.toNat := by
  obtain ⟨_, _, hbytes, _, _, _⟩ | ⟨_, _, _, hbytes, _, _, _, _, _⟩ |
    ⟨_, _, _, _, hbytes, _, _, _, _, _⟩ := utf8EncodeChar_cases h <;>
    simp only [hbytes, List.mem_cons, List.not_mem_nil, or_false] at hb
  · rcases hb with rfl | rfl <;> omega
  · rcases hb with rfl | rfl | rfl <;> omega
  · rcases hb with rfl | rfl | rfl | rfl <;> omega

/-! ## Decoding -/

theorem isContinuation_eq_true_iff :
    isContinuation b = true ↔ 128 ≤ b.toNat ∧ b.toNat ≤ 191 := by
  simp [isContinuation, UInt8.le_iff_toNat_le]

/-- The second byte is narrowed down behind four first bytes, and continues a character anyway. -/
theorem isSecondByte_eq_true (hb : 128 ≤ b.toNat ∧ b.toNat ≤ 191)
    (hE0 : a.toNat = 224 → 160 ≤ b.toNat) (hED : a.toNat = 237 → b.toNat ≤ 159)
    (hF0 : a.toNat = 240 → 144 ≤ b.toNat) (hF4 : a.toNat = 244 → b.toNat ≤ 143) :
    isSecondByte a b = true := by
  unfold isSecondByte
  split_ifs with h h h h
  · subst h
    simpa [UInt8.le_iff_toNat_le] using ⟨hE0 rfl, hb.2⟩
  · subst h
    simpa [UInt8.le_iff_toNat_le] using ⟨hb.1, hED rfl⟩
  · subst h
    simpa [UInt8.le_iff_toNat_le] using ⟨hF0 rfl, hb.2⟩
  · subst h
    simpa [UInt8.le_iff_toNat_le] using ⟨hb.1, hF4 rfl⟩
  · exact isContinuation_eq_true_iff.mpr hb

/-- A byte below 128 is a character. -/
theorem decodeUtf8_one (ha : a.toNat < 128) (rest : List UInt8) :
    decodeUtf8 (a :: rest) = Char.ofNat a.toNat :: decodeUtf8 rest := by
  rw [decodeUtf8.eq_def]
  simp [UInt8.lt_iff_toNat_lt, ha]

/-- Two bytes that make up a character. -/
theorem decodeUtf8_two (ha : 194 ≤ a.toNat ∧ a.toNat ≤ 223) (hb : isContinuation b = true)
    (rest : List UInt8) : decodeUtf8 (a :: b :: rest) = join2 a b :: decodeUtf8 rest := by
  have hascii : ¬ a.toNat < 128 := by omega
  rw [decodeUtf8.eq_def]
  simp [UInt8.lt_iff_toNat_lt, UInt8.le_iff_toNat_le, hascii, ha, hb]

/-- Three bytes that make up a character. -/
theorem decodeUtf8_three (ha : 224 ≤ a.toNat ∧ a.toNat ≤ 239) (hb : isSecondByte a b = true)
    (hd : isContinuation d = true) (rest : List UInt8) :
    decodeUtf8 (a :: b :: d :: rest) = join3 a b d :: decodeUtf8 rest := by
  have hascii : ¬ a.toNat < 128 := by omega
  have htwo : ¬ a.toNat ≤ 223 := by omega
  rw [decodeUtf8.eq_def]
  simp [UInt8.lt_iff_toNat_lt, UInt8.le_iff_toNat_le, hascii, htwo, ha, hb, hd]

/-- Four bytes that make up a character. -/
theorem decodeUtf8_four (ha : 240 ≤ a.toNat ∧ a.toNat ≤ 244) (hb : isSecondByte a b = true)
    (hd : isContinuation d = true) (he : isContinuation e = true) (rest : List UInt8) :
    decodeUtf8 (a :: b :: d :: e :: rest) = join4 a b d e :: decodeUtf8 rest := by
  have hascii : ¬ a.toNat < 128 := by omega
  have htwo : ¬ a.toNat ≤ 223 := by omega
  have hthree : ¬ a.toNat ≤ 239 := by omega
  rw [decodeUtf8.eq_def]
  simp [UInt8.lt_iff_toNat_lt, UInt8.le_iff_toNat_le, hascii, htwo, hthree, ha, hb, hd, he]

/-- The bytes of a character are decoded to the character, whatever follows them. -/
theorem decodeUtf8_utf8EncodeChar (c : Char) (rest : List UInt8) :
    decodeUtf8 (String.utf8EncodeChar c ++ rest) = c :: decodeUtf8 rest := by
  have hvalid : c.toNat < 0xD800 ∨ 0xDFFF < c.toNat ∧ c.toNat < 0x110000 := c.valid
  have hcontinues {b : UInt8} {n : Nat} (hb : b.toNat = 128 + n % 64) :
      isContinuation b = true := isContinuation_eq_true_iff.mpr (by omega)
  rcases Nat.lt_or_ge c.toNat 128 with hascii | hhigh
  · have hbyte := toNat_byte (Nat.lt_trans hascii (by decide))
    rw [utf8EncodeChar_ascii hascii, List.singleton_append, decodeUtf8_one (by omega), hbyte,
      Char.ofNat_toNat]
  · obtain ⟨a, b, hbytes, _, ha, hb⟩ | ⟨a, b, d, hbytes, _, _, ha, hb, hd⟩ |
      ⟨a, b, d, e, hbytes, _, ha, hb, hd, he⟩ := utf8EncodeChar_cases hhigh
    · rw [hbytes, List.cons_append, List.singleton_append,
        decodeUtf8_two (by omega) (hcontinues hb), join2,
        show a.toNat % 32 * 64 + b.toNat % 64 = c.toNat by omega, Char.ofNat_toNat]
    · have hsecond : isSecondByte a b = true := isSecondByte_eq_true (by omega) (by omega)
        (by omega) (by omega) (by omega)
      rw [hbytes, List.cons_append, List.cons_append, List.singleton_append,
        decodeUtf8_three (by omega) hsecond (hcontinues hd), join3,
        show a.toNat % 16 * 4096 + b.toNat % 64 * 64 + d.toNat % 64 = c.toNat by omega,
        Char.ofNat_toNat]
    · have hsecond : isSecondByte a b = true := isSecondByte_eq_true (by omega) (by omega)
        (by omega) (by omega) (by omega)
      rw [hbytes, List.cons_append, List.cons_append, List.cons_append, List.singleton_append,
        decodeUtf8_four (by omega) hsecond (hcontinues hd) (hcontinues he), join4,
        show a.toNat % 8 * 262144 + b.toNat % 64 * 4096 + d.toNat % 64 * 64 + e.toNat % 64 =
          c.toNat by omega, Char.ofNat_toNat]

/-- Decoding the bytes of a text gives the text. -/
theorem decodeUtf8_utf8Bytes (cs : List Char) : decodeUtf8 (utf8Bytes cs) = cs := by
  induction cs with
  | nil => rfl
  | cons c cs ih =>
    have hbytes : utf8Bytes (c :: cs) = String.utf8EncodeChar c ++ utf8Bytes cs := rfl
    rw [hbytes, decodeUtf8_utf8EncodeChar, ih]

end Templating.Text
