import Templating.Artifact.Document
import Templating.Json.Reader
import Templating.Text.Blank
import Templating.Text.Search

/-!
# Artifacts

An artifact is the text of a compiled program: its document, compact or indented, with some text
written before and after it. Reading skips everything before the first brace and behind the last
one, so that most wrappings do not have to be removed first.
-/

namespace Templating

/-- How a program is written as text. -/
structure EmitOptions where
  /-- The name the program is written under, if not its own. -/
  entryPoint? : Option String := none
  wrapStart : String := ""
  wrapEnd : String := ""
  /-- Write the compact form. -/
  minify : Bool := false
  deriving Repr, DecidableEq, Inhabited

namespace EmitOptions

/-- Remove what was written around an artifact, as far as it is there. -/
def unwrap (o : EmitOptions) (text : String) : String :=
  let cs := text.toList
  let cs := (Text.stripStart? o.wrapStart.toList cs).getD cs
  String.ofList ((Text.stripEnd? o.wrapEnd.toList cs).getD cs)

end EmitOptions

namespace Program

/-- The program under another name. -/
def rename (p : Program) : Option String → Program
  | some name => { p with name }
  | none => p

/-- One step of indentation. -/
def indentation : String := "  "

/-- The text of a program. -/
def toText (p : Program) (o : EmitOptions) : String :=
  let document := (p.rename o.entryPoint?).toJson
  let body := if o.minify then document.compact else document.pretty indentation
  o.wrapStart ++ body ++ o.wrapEnd

/-- Drop what stands behind the last occurrence of a character; nothing if it does not occur. -/
def upToLast? (c : Char) (cs : List Char) : Option (List Char) :=
  match cs.reverse.dropWhile (· != c) with
  | [] => none
  | rest => some rest.reverse

/-- From the first opening brace to the last closing brace. A text without such a stretch is kept
as it is. -/
def braced (cs : List Char) : List Char :=
  match cs.dropWhile (· != '{') with
  | [] => cs
  | rest => (upToLast? '}' rest).getD cs

/-- Read the text of a program. -/
def ofText (text : String) : Result Program :=
  match (Json.read? (braced (Text.trim text.toList))).bind Program.ofJson? with
  | none => fail .unreadableArtifact
  | some (format, p) =>
    if format = formatVersion then .ok p else fail (.unsupportedFormat format)

end Program

end Templating
