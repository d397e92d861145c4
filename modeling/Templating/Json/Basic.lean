import Templating.Number.Decimal

/-!
# JSON documents

Documents as they are written and read. Integers and other numbers are kept apart, and objects keep
their members in order, repeated names included, so that each reader of a document decides what a
repetition means.
-/

namespace Templating

/-- A JSON document. -/
inductive Json where
  | null
  | bool (b : Bool)
  | int (n : Int)
  | float (x : Float)
  | text (s : String)
  | array (items : List Json)
  | object (members : List (String × Json))
  deriving Inhabited

namespace Json

mutual

/-- Every number of the document is finite, and arrays and objects nest at most so many levels
deep. -/
def isWithin (levels : Nat) : Json → Bool
  | float x => x.isFinite
  | array items => 0 < levels && itemsWithin (levels - 1) items
  | object members => 0 < levels && membersWithin (levels - 1) members
  | _ => true

/-- The bounds hold for all items. -/
def itemsWithin (levels : Nat) : List Json → Bool
  | [] => true
  | j :: rest => isWithin levels j && itemsWithin levels rest

/-- The bounds hold for all members. -/
def membersWithin (levels : Nat) : List (String × Json) → Bool
  | [] => true
  | (_, j) :: rest => isWithin levels j && membersWithin levels rest

end

end Json

end Templating
