/-!
# White space

The characters that count as white space in template text, and the trimming built on them.
Two sets are in use: the Unicode property `White_Space`, which governs trimming of literal text
and of filter input, and a five-character ASCII set, which separates tokens inside a tag.
-/

namespace Templating.Text

/-- The Unicode property `White_Space`. -/
def isBlank (c : Char) : Bool :=
  let n := c.toNat
  (9 ≤ n && n ≤ 13) || n == 0x20 || n == 0x85 || n == 0xA0 || n == 0x1680 ||
    (0x2000 ≤ n && n ≤ 0x200A) || n == 0x2028 || n == 0x2029 || n == 0x202F ||
    n == 0x205F || n == 0x3000

/-- The ASCII characters that separate tokens: space, tab, line feed, form feed, carriage return. -/
def isAsciiBlank (c : Char) : Bool :=
  c == ' ' || c == '\t' || c == '\n' || c == '\x0c' || c == '\r'

/-- An ASCII separator is white space. -/
theorem isBlank_of_isAsciiBlank {c : Char} (h : isAsciiBlank c = true) : isBlank c = true := by
  simp only [isAsciiBlank, Bool.or_eq_true, beq_iff_eq] at h
  rcases h with (((rfl | rfl) | rfl) | rfl) | rfl <;> decide

/-- Control characters: the Unicode category `Cc`. -/
def isControl (c : Char) : Bool :=
  let n := c.toNat
  n ≤ 0x1F || (0x7F ≤ n && n ≤ 0x9F)

/-- Drop leading white space. -/
def trimStart (cs : List Char) : List Char := cs.dropWhile isBlank

/-- Drop trailing white space. -/
def trimEnd (cs : List Char) : List Char := (cs.reverse.dropWhile isBlank).reverse

/-- Drop white space at both ends. -/
def trim (cs : List Char) : List Char := trimEnd (trimStart cs)

/-- The text holds nothing but white space. -/
def allBlank (cs : List Char) : Bool := cs.all isBlank

/-- The number of bytes of the UTF-8 form of a text. -/
def byteLength (cs : List Char) : Nat := cs.foldr (fun c n => c.utf8Size + n) 0

end Templating.Text
