import Templating.Error
import Templating.Value.Basic
import Templating.Sorting
import Templating.Text.Blank
import Templating.Text.Search

/-!
# Options and delimiters

How templates are written and compiled: the pairs of delimiters around output points, tags and
comments, whether output is escaped, whether compiled templates are kept, and values that stand
under every render context. Where several opening delimiters begin at the same place the longest
one is meant.
-/

namespace Templating

/-- A pair of delimiters. -/
structure Delimiters where
  opening : String
  closing : String
  deriving Repr, DecidableEq, Inhabited

/-- The three kinds of marked regions in a template. -/
inductive Marker where
  | output
  | tag
  | comment
  deriving Repr, DecidableEq, Inhabited

/-- The delimiters of a template. -/
structure Controls where
  output : Delimiters := ⟨"\x7b\x7b", "\x7d\x7d"⟩
  tag : Delimiters := ⟨"\x7b%", "%\x7d"⟩
  comment : Delimiters := ⟨"\x7b#", "#\x7d"⟩
  deriving Repr, DecidableEq, Inhabited

/-- The options of a compilation and of a render. -/
structure Options where
  autoescape : Bool := true
  controls : Controls := {}
  /-- Keep compiled templates for later renders. -/
  cache : Bool := true
  /-- Values below every render context, sorted by name. -/
  locals : Entries := []
  deriving Inhabited

namespace Controls

/-- The delimiters of a kind of region. -/
def of (c : Controls) : Marker → Delimiters
  | .output => c.output
  | .tag => c.tag
  | .comment => c.comment

/-- The opening delimiter of a kind of region, as characters. -/
def opening (c : Controls) (m : Marker) : List Char := (c.of m).opening.toList

/-- The closing delimiter of a kind of region, as characters. -/
def closing (c : Controls) (m : Marker) : List Char := (c.of m).closing.toList

/-- The kinds of regions, those with longer opening delimiters first; comments before tags before
output points where the lengths agree. -/
def markersByLength (c : Controls) : List Marker :=
  let size (m : Marker) := Text.byteLength (c.opening m)
  sortBy (fun a b => compareOfLessAndEq (size b) (size a)) [.comment, .tag, .output]

/-- The region that opens at the front of the text, and what follows its opening delimiter. -/
def openAt? (c : Controls) (cs : List Char) : Option (Marker × List Char) :=
  c.markersByLength.findSome? fun m => (Text.stripStart? (c.opening m) cs).map fun rest => (m, rest)

/-- Both delimiters of a pair hold something and differ. -/
def checkPair (name : String) (d : Delimiters) : Result Unit :=
  if d.opening = "" ∨ d.closing = "" then fail (.emptyDelimiter name)
  else if d.opening = d.closing then fail (.sameDelimiters name)
  else .ok ()

/-- Check the delimiters: none is empty, the two of a pair differ, and the opening ones are
distinct. -/
def check (c : Controls) : Result Unit := do
  checkPair "varControls" c.output
  checkPair "tagControls" c.tag
  checkPair "cmtControls" c.comment
  if c.output.opening = c.tag.opening ∨ c.output.opening = c.comment.opening ∨
      c.tag.opening = c.comment.opening then
    fail .ambiguousDelimiters

end Controls

namespace Options

/-- Check the options. -/
def check (o : Options) : Result Unit := o.controls.check

/-- Put the options' values below a render context. A context that is not a map is replaced as soon
as there are such values. -/
def mergeContext (o : Options) (context : Value) : Value :=
  match o.locals, context with
  | [], _ => context
  | locals, .map entries => .map (entries.foldl (fun acc (k, v) => Entries.insert acc k v) locals)
  | locals, _ => .map locals

end Options

end Templating
