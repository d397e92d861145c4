import Templating.Json.Decode
import Templating.Options
import Templating.Sorting
import Templating.Value.Json
import Templating.Value.Order

/-!
# Documents of options

Options as JSON. Every key may be left out and then has its default; unknown keys are ignored.
-/

namespace Templating

namespace Delimiters

/-- The document of a pair of delimiters. -/
def toJson (d : Delimiters) : Json := .array [.text d.opening, .text d.closing]

/-- Read a pair of delimiters. -/
def ofJson? (j : Json) : Option Delimiters :=
  (Json.asPair? Json.asText? Json.asText? j).map fun (opening, closing) => ⟨opening, closing⟩

end Delimiters

namespace Options

/-- The names of the options, in order. -/
def fieldNames : List String :=
  ["autoescape", "varControls", "tagControls", "cmtControls", "cache", "locals"]

/-- The document of options. -/
def toJson (o : Options) : Json :=
  .object
    [("autoescape", .bool o.autoescape),
      ("varControls", o.controls.output.toJson),
      ("tagControls", o.controls.tag.toJson),
      ("cmtControls", o.controls.comment.toJson),
      ("cache", .bool o.cache),
      ("locals", .object (Value.toJsonEntries o.locals))]

/-- Sort entries by their names. -/
def sortEntries (entries : Entries) : Entries :=
  sortBy (fun a b => compareText a.1 b.1) entries

/-- Read the values below the render context. -/
def locals? : Json → Option Entries
  | .object members => some (sortEntries (Entries.ofPairs (Value.ofJsonMembers members)))
  | _ => none

/-- Read options. -/
def ofJson? (j : Json) : Option Options := do
  match ← Json.fields? fieldNames j with
  | [autoescape, output, tag, comment, cache, locals] =>
    let defaults : Options := {}
    let autoescape ← Json.optional? Json.asBool? defaults.autoescape autoescape
    let output ← Json.optional? Delimiters.ofJson? defaults.controls.output output
    let tag ← Json.optional? Delimiters.ofJson? defaults.controls.tag tag
    let comment ← Json.optional? Delimiters.ofJson? defaults.controls.comment comment
    let cache ← Json.optional? Json.asBool? defaults.cache cache
    let locals ← Json.optional? locals? defaults.locals locals
    return { autoescape, controls := { output, tag, comment }, cache, locals }
  | _ => none

end Options

end Templating
