import Templating.Value.Basic

/-!
# Equality and order of values

Three relations. `looseEq` is the equality of templates: integers and floats compare by value,
undefined equals none, maps compare without regard to order, safe and ordinary strings are the
same. `compare?` orders what templates can compare with `<`. `totalCompare` orders any two values
for sorting: first by kind, then by content.
-/

namespace Templating

/-- Compare two texts by their code points. -/
def compareText (s t : String) : Ordering := compareOfLessAndEq s t

/-- Compare two floats that are not NaN; two equal or unordered ones give `none` only for NaN. -/
def compareFloat? (a b : Float) : Option Ordering :=
  if a < b then some .lt else if a == b then some .eq else if b < a then some .gt else none

/-- Compare floats with NaN after every number. -/
def compareFloatTotal (a b : Float) : Ordering :=
  match a.isNaN, b.isNaN with
  | true, true => .eq
  | true, false => .gt
  | false, true => .lt
  | false, false => (compareFloat? a b).getD .eq

namespace Value

/-- Two values brought to a common type on which operators work. -/
inductive Common where
  | ints (a b : Int64)
  | floats (a b : Float)
  | texts (a b : String)

/-- The common type of two operands: two integers, two strings, or numbers as floats. -/
def common? (a b : Value) : Option Common :=
  match a, b with
  | int x, int y => some (.ints x y)
  | text x _, text y _ => some (.texts x y)
  | float x, b => (asFloat? b).map (Common.floats x)
  | a, float y => (asFloat? a).map (Common.floats · y)
  | _, _ => none

/-- Equality through the common type. -/
def commonEq (a b : Value) : Bool :=
  match common? a b with
  | some (.ints x y) => x == y
  | some (.floats x y) => x == y
  | some (.texts x y) => x == y
  | none => false

mutual

/-- Equality as templates see it. -/
def looseEq (a b : Value) : Bool :=
  match a with
  | undefined => b.isMissing
  | null => b.isMissing
  | bool x => match b with
    | bool y => x == y
    | _ => false
  | seq xs => match b with
    | seq ys => looseEqItems xs ys
    | _ => false
  | map xs => match b with
    | map ys => xs.length == ys.length && looseEqEntries xs ys
    | _ => false
  | callable i n => match b with
    | callable j m => i == j && n == m
    | _ => false
  | int x => commonEq (int x) b
  | float x => commonEq (float x) b
  | text s safe => commonEq (text s safe) b

/-- Two sequences are equal item by item. -/
def looseEqItems : List Value → List Value → Bool
  | [], [] => true
  | x :: xs, y :: ys => looseEq x y && looseEqItems xs ys
  | _, _ => false

/-- Every entry of the first map has an equal partner in the second. -/
def looseEqEntries : List (String × Value) → Entries → Bool
  | [], _ => true
  | (k, v) :: rest, ys =>
    (match Entries.get? ys k with
    | some w => looseEq v w
    | none => false) && looseEqEntries rest ys

end

instance : BEq Value := ⟨looseEq⟩

/-- Order through the common type. -/
def commonCompare? (a b : Value) : Option Ordering :=
  match common? a b with
  | some (.ints x y) => some (compare x.toInt y.toInt)
  | some (.floats x y) => compareFloat? x y
  | some (.texts x y) => some (compareText x y)
  | none => none

mutual

/-- Order two values if templates can compare them. -/
def compare? (a b : Value) : Option Ordering :=
  match a with
  | bool x => match b with
    | bool y => some (compare x.toNat y.toNat)
    | _ => none
  | seq xs => match b with
    | seq ys => compareItems? xs ys
    | _ => none
  | int x => commonCompare? (int x) b
  | float x => commonCompare? (float x) b
  | text s safe => commonCompare? (text s safe) b
  | _ => none

/-- Order two sequences by their first differing items, then by length. -/
def compareItems? : List Value → List Value → Option Ordering
  | [], [] => some .eq
  | [], _ :: _ => some .lt
  | _ :: _, [] => some .gt
  | x :: xs, y :: ys =>
    match compare? x y with
    | some .eq => compareItems? xs ys
    | other => other

end

mutual

/-- Order any two values for sorting: by kind, numbers by value with NaN last, strings by code
point, containers entry by entry and then by length. -/
def totalCompare (a b : Value) : Ordering :=
  match a, b with
  | int x, int y => compare x.toInt y.toInt
  | int x, float y => compareFloatTotal (floatOfWord x) y
  | float x, int y => compareFloatTotal x (floatOfWord y)
  | float x, float y => compareFloatTotal x y
  | bool x, bool y => compare x.toNat y.toNat
  | text s _, text t _ => compareText s t
  | seq xs, seq ys => totalCompareItems xs ys
  | map xs, map ys => totalCompareEntries xs ys
  | callable i _, callable j _ => compare i j
  | a, b => compare a.kind.rank b.kind.rank

/-- Order two sequences by their first differing items, then by length. -/
def totalCompareItems : List Value → List Value → Ordering
  | [], [] => .eq
  | [], _ :: _ => .lt
  | _ :: _, [] => .gt
  | x :: xs, y :: ys => (totalCompare x y).then (totalCompareItems xs ys)

/-- Order two maps by their first differing entries, keys before values, then by length. -/
def totalCompareEntries : List (String × Value) → List (String × Value) → Ordering
  | [], [] => .eq
  | [], _ :: _ => .lt
  | _ :: _, [] => .gt
  | (k, x) :: xs, (l, y) :: ys =>
    ((compareText k l).then (totalCompare x y)).then (totalCompareEntries xs ys)

end

end Value

end Templating
