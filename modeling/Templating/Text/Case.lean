import Templating.Text.Blank
import Templating.Text.CaseTable

/-!
# Letter case

Full case mapping of text. A capital sigma at the end of a word becomes a final sigma when a whole
text is lowered; when characters are lowered one by one it does not.
-/

namespace Templating.Text

/-- The character a run of offsets maps to. -/
def CaseRun.apply? (r : CaseRun) (n : Nat) : Option Nat :=
  if r.first ≤ n ∧ n ≤ r.last ∧ (n - r.first) % r.stride = 0 then some ((n : Int) + r.offset).toNat
  else none

/-- Map a character by a table of sequences, then by a table of runs. -/
def mapCase (sequences : List (Nat × List Nat)) (runs : List CaseRun) (c : Char) : List Char :=
  match sequences.find? (fun row => row.1 == c.toNat) with
  | some (_, image) => image.map Char.ofNat
  | none =>
    match runs.findSome? (fun r => r.apply? c.toNat) with
    | some n => [Char.ofNat n]
    | none => [c]

/-- Upper case of one character. -/
def upperChar (c : Char) : List Char :=
  if c.toNat < 128 then [c.toUpper] else mapCase upperSequences upperRuns c

/-- Lower case of one character, whatever stands around it. -/
def lowerChar (c : Char) : List Char :=
  if c.toNat < 128 then [c.toLower] else mapCase lowerSequences lowerRuns c

/-- A character lies in one of the ranges. -/
def inRanges (ranges : List (Nat × Nat)) (c : Char) : Bool :=
  ranges.any fun (first, last) => first ≤ c.toNat && c.toNat ≤ last

/-- The next character that is not ignored by case rules has a case. -/
def casedNext (cs : List Char) : Bool :=
  match cs.dropWhile (inRanges caseIgnorableRanges) with
  | [] => false
  | c :: _ => inRanges casedRanges c

/-- Upper case of a text. -/
def upper (cs : List Char) : List Char := cs.flatMap upperChar

/-- Lower case of a text whose earlier characters, nearest first, are given. -/
def lowerAfter (earlier : List Char) : List Char → List Char
  | [] => []
  | c :: rest =>
    (if c = 'Σ' then
      if casedNext earlier && !casedNext rest then ['ς'] else ['σ']
    else lowerChar c) ++ lowerAfter (c :: earlier) rest

/-- Lower case of a text. -/
def lower (cs : List Char) : List Char := lowerAfter [] cs

/-- The first character in upper case, the others in lower case. -/
def capitalize : List Char → List Char
  | [] => []
  | c :: rest => upperChar c ++ rest.flatMap lowerChar

/-- The first character of every word in upper case, the others in lower case; `atStart` says
whether a word begins here. -/
def titleFrom (atStart : Bool) : List Char → List Char
  | [] => []
  | c :: rest =>
    if isBlank c then c :: titleFrom true rest
    else if atStart then upperChar c ++ titleFrom false rest
    else lowerChar c ++ titleFrom false rest

/-- The first character of every word in upper case, the others in lower case. -/
def title (cs : List Char) : List Char := titleFrom true cs

end Templating.Text
