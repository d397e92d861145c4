import Templating.Tag.Basic
import Templating.Filter.Builtin

/-!
# Registry

The tags and filters an engine knows, by name. Every change gets a new generation number, so that
two registries of one engine with the same number are the same.
-/

namespace Templating

/-- The tags and filters of an engine. -/
structure Registry where
  filters : List (String × Filter)
  tags : List (String × Tag)
  /-- Names of tags that are still the built-in ones. -/
  builtinTags : List String
  generation : Nat := 0

namespace Registry

/-- Look up by name in a table. -/
def find? {α : Type} (table : List (String × α)) (name : String) : Option α :=
  (table.find? fun row => row.1 == name).map Prod.snd

/-- Put a row into a table, in place of the row of that name. -/
def put {α : Type} (table : List (String × α)) (name : String) (x : α) : List (String × α) :=
  (name, x) :: table.filter fun row => row.1 != name

/-- Take a row out of a table. -/
def drop {α : Type} (table : List (String × α)) (name : String) : List (String × α) :=
  table.filter fun row => row.1 != name

/-- The built-in tags and filters. -/
def initial : Registry :=
  { filters := Filter.builtin
    tags := BuiltinTag.all.map fun t => (t.name, .builtin t)
    builtinTags := BuiltinTag.all.map BuiltinTag.name }

instance : Inhabited Registry := ⟨initial⟩

/-- The filter of a name. -/
def filter? (r : Registry) (name : String) : Option Filter := find? r.filters name

/-- A filter of this name is known. -/
def hasFilter (r : Registry) (name : String) : Bool := (r.filter? name).isSome

/-- The tag of a name. -/
def tag? (r : Registry) (name : String) : Option Tag := find? r.tags name

/-- The tags of the initial registry are the built-in ones, under their names. -/
theorem tag?_initial {name : String} {tag : Tag} (h : initial.tag? name = some tag) :
    ∃ t : BuiltinTag, tag = .builtin t ∧ t.name = name := by
  obtain ⟨row, hrow, rfl⟩ := Option.map_eq_some_iff.mp h
  have hname := List.find?_some hrow
  obtain ⟨t, _, rfl⟩ := List.mem_map.mp (List.mem_of_find?_eq_some hrow)
  exact ⟨t, rfl, beq_iff_eq.mp hname⟩

/-- The name belongs to a tag that was added to the built-in ones. -/
def isCustomTag (r : Registry) (name : String) : Bool :=
  (r.tag? name).isSome && !r.builtinTags.contains name

/-- Add or replace a filter. -/
def addFilter (r : Registry) (name : String) (filter : Filter) : Registry :=
  { r with filters := put r.filters name filter, generation := r.generation + 1 }

/-- Remove a filter. -/
def removeFilter (r : Registry) (name : String) : Registry :=
  { r with filters := drop r.filters name, generation := r.generation + 1 }

/-- Add or replace a tag. -/
def addTag (r : Registry) (name : String) (tag : CustomTag) : Registry :=
  { r with
    tags := put r.tags name (.custom tag)
    builtinTags := r.builtinTags.erase name
    generation := r.generation + 1 }

/-- Remove a tag. -/
def removeTag (r : Registry) (name : String) : Registry :=
  { r with tags := drop r.tags name, generation := r.generation + 1 }

end Registry

end Templating
