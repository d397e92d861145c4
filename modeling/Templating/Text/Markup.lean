/-!
# Markup

Escaping of text for markup, and removal of what looks like a tag.
-/

namespace Templating.Text

/-- The entity of a character that is special in markup. -/
def entity? (c : Char) : Option (List Char) :=
  if c = '&' then some ['&', 'a', 'm', 'p', ';']
  else if c = '<' then some ['&', 'l', 't', ';']
  else if c = '>' then some ['&', 'g', 't', ';']
  else if c = '"' then some ['&', 'q', 'u', 'o', 't', ';']
  else if c = '\'' then some ['&', '#', '3', '9', ';']
  else none

/-- Copy the text run by run, with an entity between two runs. `run` holds the characters since the
last entity, the latest first. -/
def escapeFrom (run : List Char) : List Char → List Char
  | [] => run.reverse
  | c :: rest =>
    match entity? c with
    | none => escapeFrom (c :: run) rest
    | some entity => run.reverse ++ entity ++ escapeFrom [] rest

/-- Escape a text for markup. -/
def escapeMarkup (cs : List Char) : List Char := escapeFrom [] cs

/-- Escape a string for markup. -/
def escapeString (s : String) : String := String.ofList (escapeMarkup s.toList)

/-- Behind an opening angle bracket: a closing one follows, but not directly. -/
def closesLater : List Char → Bool
  | [] => false
  | c :: rest => c != '>' && rest.contains '>'

/-- Remove every stretch from an opening angle bracket to the first closing one after it. `inside`
says that the text stands within such a stretch. -/
def stripTagsFrom (inside : Bool) : List Char → List Char
  | [] => []
  | c :: rest =>
    if inside then stripTagsFrom (c != '>') rest
    else if c == '<' && closesLater rest then stripTagsFrom true rest
    else c :: stripTagsFrom false rest

/-- Remove every stretch from an opening angle bracket to the first closing one after it, unless the
two stand next to each other. -/
def stripTags (cs : List Char) : List Char := stripTagsFrom false cs

end Templating.Text
