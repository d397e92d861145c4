import Templating.Value.Basic
import Templating.Text.Markup

/-!
# Output

What a running program has written. While output is captured, writes go to the innermost capture
instead of the text that is delivered at the end.
-/

namespace Templating

/-- Written text, and the captures that are open, innermost first. -/
structure Output where
  text : String := ""
  captures : List String := []
  deriving Repr, DecidableEq, Inhabited

namespace Output

/-- Write text as it is. -/
def write (o : Output) (s : String) : Output :=
  match o with
  | ⟨text, []⟩ => ⟨text ++ s, []⟩
  | ⟨text, capture :: rest⟩ => ⟨text, (capture ++ s) :: rest⟩

/-- The text a value is written as: escaped when escaping is on, unless the value is safe. -/
def valueText (v : Value) (autoescape : Bool) : String :=
  if autoescape && !v.isSafe then Text.escapeString v.display else v.display

/-- Capture what is written from here on. -/
def beginCapture (o : Output) : Output := { o with captures := "" :: o.captures }

/-- End the innermost capture. Captured text was escaped as it was written, so it is safe when
escaping is on. Without an open capture nothing was captured. -/
def endCapture (o : Output) (autoescape : Bool) : Value × Output :=
  match o.captures with
  | [] => (.undefined, o)
  | capture :: rest => (.text capture autoescape, { o with captures := rest })

end Output

end Templating
