/-!
# Searching in text

Prefix tests, the leftmost occurrence of a pattern, and replacement of all occurrences from left
to right. All functions work on lists of characters and never look behind the current position.
-/

namespace Templating.Text

/-- What follows `p` in `cs`, if `cs` starts with `p`. -/
def stripStart? : List Char → List Char → Option (List Char)
  | [], cs => some cs
  | _ :: _, [] => none
  | p :: ps, c :: cs => if p = c then stripStart? ps cs else none

/-- The text starts with the given pattern. -/
def startsWith (p cs : List Char) : Bool := (stripStart? p cs).isSome

/-- What stands before `p` in `cs`, if `cs` ends with `p`. -/
def stripEnd? (p cs : List Char) : Option (List Char) :=
  (stripStart? p.reverse cs.reverse).map List.reverse

/-- Split at the leftmost occurrence of `p`: the text before it and the text after it. -/
def splitAt? (p : List Char) : List Char → Option (List Char × List Char)
  | [] => if p.isEmpty then some ([], []) else none
  | c :: cs =>
    match stripStart? p (c :: cs) with
    | some rest => some ([], rest)
    | none => (splitAt? p cs).map fun (before, rest) => (c :: before, rest)

/-- The pattern occurs somewhere in the text. -/
def contains (p cs : List Char) : Bool := (splitAt? p cs).isSome

/-- A stripped pattern stands in front of what is left. -/
theorem stripStart?_eq_some_iff {p cs rest : List Char} :
    stripStart? p cs = some rest ↔ cs = p ++ rest := by
  induction p generalizing cs with
  | nil => simp [stripStart?, eq_comm]
  | cons x ps ih =>
    cases cs with
    | nil => simp [stripStart?]
    | cons c cs =>
      by_cases h : x = c
      · simp [stripStart?, h, ih]
      · have : ¬ c = x := fun e => h e.symm
        simp [stripStart?, h, this]

/-- A pattern stripped from the end stands behind what is left. -/
theorem stripEnd?_eq_some_iff {p cs rest : List Char} :
    stripEnd? p cs = some rest ↔ cs = rest ++ p := by
  simp only [stripEnd?, Option.map_eq_some_iff, stripStart?_eq_some_iff]
  constructor
  · rintro ⟨a, ha, rfl⟩
    have := congrArg List.reverse ha
    simpa using this
  · rintro rfl
    exact ⟨rest.reverse, by simp, by simp⟩

/-- Splitting at a pattern takes the text apart without loss. -/
theorem eq_of_splitAt? {p cs before rest : List Char} (h : splitAt? p cs = some (before, rest)) :
    cs = before ++ p ++ rest := by
  induction cs generalizing before with
  | nil =>
    simp only [splitAt?] at h
    split at h
    · next hp =>
      simp only [Option.some.injEq, Prod.mk.injEq] at h
      simp [← h.1, ← h.2, List.isEmpty_iff.1 hp]
    · simp at h
  | cons c cs ih =>
    simp only [splitAt?] at h
    split at h
    · next r hr =>
      simp only [Option.some.injEq, Prod.mk.injEq] at h
      simpa [← h.1, ← h.2] using stripStart?_eq_some_iff.1 hr
    · obtain ⟨⟨b, r⟩, hb, he⟩ := Option.map_eq_some_iff.1 h
      simp only [Prod.mk.injEq] at he
      obtain ⟨rfl, rfl⟩ := he
      simp [ih hb]

/-- Replace every occurrence of a non-empty pattern, from left to right. `skip` counts the
characters still to pass of an occurrence that was replaced. -/
def replaceFrom (p by_ : List Char) (skip : Nat) : List Char → List Char
  | [] => []
  | c :: cs =>
    match skip with
    | n + 1 => replaceFrom p by_ n cs
    | 0 =>
      if startsWith p (c :: cs) then by_ ++ replaceFrom p by_ (p.length - 1) cs
      else c :: replaceFrom p by_ 0 cs

/-- Replace every occurrence of a pattern. The empty pattern occurs before each character and
at the end. -/
def replace (p by_ cs : List Char) : List Char :=
  if p.isEmpty then by_ ++ cs.flatMap (fun c => c :: by_) else replaceFrom p by_ 0 cs

end Templating.Text
