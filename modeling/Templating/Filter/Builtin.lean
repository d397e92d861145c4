import Templating.Filter.Basic
import Templating.Sorting
import Templating.Value.Lookup
import Templating.Value.Order
import Templating.Value.Json
import Templating.Text.Case
import Templating.Text.Markup
import Templating.Text.Percent
import Templating.Text.Search

/-!
# Built-in filters

The filters every engine knows: defaults, escaping, letter case, text, sequences and encodings.
-/

namespace Templating.Filter

/-- Apply a function on characters to a string. -/
def onText (f : List Char → List Char) : Filter :=
  of0 Arg.text fun _ s => .ok (.ofString (String.ofList (f s.toList)))

/-- The value, or a fallback if it is undefined, none, false or empty. Numbers are always kept. -/
def default_ : Filter :=
  of1 Arg.any (Arg.optional Arg.any) fun _ v other? =>
    .ok (if v.isTrue || v.kind == .number then v else other?.getD (.ofString ""))

/-- Escape a value that is not safe yet, for markup or for a script string. -/
def escape : Filter :=
  of1 Arg.any (Arg.optional Arg.text) fun _ v mode? =>
    if v.isSafe then .ok v
    else
      let markup := Value.ofSafeString (Text.escapeString v.display)
      match mode? with
      | none => .ok markup
      | some mode =>
        if mode = "html" then .ok markup
        else if mode = "js" then
          .ok (.ofSafeString (String.ofList (Text.escapeScript v.display.toList)))
        else fail (.unknownEscape mode)

/-- Exempt the text of a value from escaping. -/
def safe : Filter := of0 Arg.any fun _ v => .ok (if v.isSafe then v else .ofSafeString v.display)

/-- Upper case. -/
def upper : Filter := onText Text.upper

/-- Lower case. -/
def lower : Filter := onText Text.lower

/-- First character in upper case, the others in lower case. -/
def capitalize : Filter := onText Text.capitalize

/-- First character of every word in upper case, the others in lower case. -/
def title : Filter := onText Text.title

/-- Drop white space at both ends. -/
def trim : Filter := onText Text.trim

/-- Replace every occurrence of one text by another. -/
def replace : Filter :=
  of2 Arg.text Arg.text Arg.text fun _ s old new =>
    .ok (.ofString (String.ofList (Text.replace old.toList new.toList s.toList)))

/-- Join the texts of items with a separator. -/
def joinTexts (separator : String) (items : List Value) : String :=
  String.intercalate separator (items.map Value.display)

/-- Join the items of a sequence or the values of a map; any other value is its own text. -/
def join : Filter :=
  of1 Arg.any (Arg.optional Arg.text) fun _ v separator? =>
    let separator := separator?.getD ""
    match v with
    | .seq items => .ok (.ofString (joinTexts separator items))
    | .map entries => .ok (.ofString (joinTexts separator (entries.map Prod.snd)))
    | v => .ok (.ofString v.display)

/-- A one-character string, or undefined. -/
def charValue : Option Char → Value
  | some c => .ofChar c
  | none => .undefined

/-- The first item or character. -/
def first : Filter :=
  of0 Arg.any fun _ v =>
    match v with
    | .seq items => .ok (items.head?.getD .undefined)
    | .text s _ => .ok (charValue s.toList.head?)
    | _ => .ok .undefined

/-- The last item or character. -/
def last : Filter :=
  of0 Arg.any fun _ v =>
    match v with
    | .seq items => .ok (items.getLast?.getD .undefined)
    | .text s _ => .ok (charValue s.toList.getLast?)
    | _ => .ok .undefined

/-- The length of a string, sequence or map; a missing value has length zero. -/
def length : Filter :=
  of0 Arg.any fun _ v => .ok (if v.isMissing then .ofNat 0 else v.lengthValue)

/-- The items or characters from last to first. -/
def reverse : Filter :=
  of0 Arg.any fun _ v =>
    match v with
    | .seq items => .ok (.seq items.reverse)
    | .text s _ => .ok (.ofString (String.ofList s.toList.reverse))
    | v => .ok v

/-- Sort a sequence, the keys of a map or the characters of a string. Only a sequence and a map can
be sorted from last to first. -/
def sort : Filter :=
  of1 Arg.any (Arg.optional Arg.flag) fun _ v reversed? =>
    let sorted (items : List Value) : Value :=
      let items := sortBy Value.totalCompare items
      .seq (if reversed?.getD false then items.reverse else items)
    match v with
    | .seq items => .ok (sorted items)
    | .map entries => .ok (sorted (entries.map fun e => .ofString e.1))
    | .text s _ =>
      .ok (.ofString (String.ofList (sortBy (fun a b => compareOfLessAndEq a b) s.toList)))
    | v => .ok v

/-- Keep the first of equal items, given the items kept so far from last to first. -/
def uniqueFrom (kept : List Value) : List Value → List Value
  | [] => kept.reverse
  | v :: rest =>
    if kept.any (fun w => Value.looseEq w v) then uniqueFrom kept rest
    else uniqueFrom (v :: kept) rest

/-- Keep the first of equal items. -/
def uniq : Filter := of0 Arg.items fun _ items => .ok (.seq (uniqueFrom [] items))

/-- Remove everything that looks like a markup tag. -/
def striptags : Filter := onText Text.stripTags

/-- Put a backslash before quotes and backslashes. -/
def addslashes : Filter := onText Text.addSlashes

/-- The JSON text of a value, compact or indented by so many spaces. -/
def json : Filter :=
  of1 Arg.any (Arg.optional Arg.index) fun _ v width? =>
    match width? with
    | none => .ok (.ofString v.jsonText)
    | some width =>
      .ok (.ofString (v.toJson.pretty (String.ofList (List.replicate width ' '))))

/-- Percent-encode a text. -/
def urlEncode : Filter := onText Text.percentEncode

/-- Decode a percent-encoded text. -/
def urlDecode : Filter := onText Text.percentDecode

/-- The built-in filters by name. -/
def builtin : List (String × Filter) :=
  [("default", default_), ("escape", escape), ("e", escape), ("safe", safe), ("raw", safe),
    ("upper", upper), ("lower", lower), ("capitalize", capitalize), ("title", title),
    ("trim", trim), ("replace", replace), ("join", join), ("first", first), ("last", last),
    ("length", length), ("reverse", reverse), ("sort", sort), ("uniq", uniq),
    ("striptags", striptags), ("addslashes", addslashes), ("json", json),
    ("url_encode", urlEncode), ("url_decode", urlDecode)]

end Templating.Filter
