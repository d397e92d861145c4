import Templating.Proofs.Emission.Lenient
import Templating.Proofs.Template.RoundTrip

/-!
# Paths

A path leads from a variable to a part of its value, by words and by the places of items. Its keys
are written behind points or in brackets, words in quotes then. Both ways are read as expressions
that look up the keys one after the other, as long as no place directly follows a place behind
points: digits with a point between digits are one number.
-/

namespace Templating

/-- A step of a path: a word, or the place of an item. -/
inductive Key where
  | word (name : String)
  | index (n : Int64)
  deriving Repr, DecidableEq

namespace Key

/-- The key can be written: a word is a single word, and a place is not negative. -/
def isPrintable : Key → Bool
  | word name => Lexer.isWord name
  | index n => 0 ≤ n.toInt

/-- The key as a value. -/
def value : Key → Value
  | word name => .ofString name
  | index n => .int n

/-- The tokens of the key behind a point. -/
def dotted : Key → List Token
  | word name => [.dot, .ident name]
  | index n => [.dot, .int n]

/-- The tokens of the key in brackets. -/
def bracketed (k : Key) : List Token := [.bracketOpen, k.value.token, .bracketClose]

/-- No place directly follows a place. -/
def apart : List Key → Bool
  | [] => true
  | [_] => true
  | index _ :: index _ :: _ => false
  | _ :: k :: rest => apart (k :: rest)

/-- Places that do not follow each other do not behind the first key. -/
theorem apart_of_cons {k : Key} {path : List Key} (h : apart (k :: path) = true) :
    apart path = true := by
  match k, path with
  | _, [] => rfl
  | index _, index _ :: _ => cases h
  | index _, word _ :: _ | word _, index _ :: _ | word _, word _ :: _ => exact h

end Key

/-- The word can be the name of a variable. -/
def Lexer.isVariable (name : String) : Bool :=
  isWord name && !(["true", "false", "null", "none", "not"].contains name)

/-- A template that consists of the output of a variable with keys behind points. -/
def dottedPath (name : String) (path : List Key) : String :=
  String.ofList ("\x7b\x7b ".toList ++
    (Token.ident name :: path.flatMap Key.dotted).flatMap Token.written ++ " \x7d\x7d".toList)

/-- A template that consists of the output of a variable with keys in brackets. -/
def bracketedPath (name : String) (path : List Key) : String :=
  String.ofList ("\x7b\x7b ".toList ++
    (Token.ident name :: path.flatMap Key.bracketed).flatMap Token.written ++ " \x7d\x7d".toList)

example : dottedPath "v" [.word "a", .index 10, .word "b"] = "\x7b\x7b v.a.10.b \x7d\x7d" := by
  decide +kernel

example : bracketedPath "v" [.word "a", .index 10] = "\x7b\x7b v[\"a\"][10] \x7d\x7d" := by
  decide +kernel

namespace Lexer

variable {k : Key} {path : List Key} {tail : List Char} {ts : List Token}

/-- The text of tokens without spaces between them, before the end of an output point. -/
def tight (ts : List Token) : List Char := ts.flatMap Token.written ++ " \x7d\x7d".toList

@[simp] theorem tight_cons (t : Token) (ts : List Token) :
    tight (t :: ts) = t.written ++ tight ts := by
  simp [tight]

@[simp] theorem written_dot : Token.written .dot = ['.'] := rfl

/-- Points and brackets are read whatever follows. -/
theorem readsBefore_point {t : Token} (h : t = .dot ∨ t = .bracketOpen ∨ t = .bracketClose)
    (tail : List Char) : ReadsBefore t tail := by
  rcases h with rfl | rfl | rfl <;>
  · intro s hmode hrest
    simp only [State.step, hmode, State.inside, hrest]
    rfl

/-- Behind a path of points, a point or a space follows. -/
theorem head?_tight_dotted (path : List Key) :
    (tight (path.flatMap Key.dotted)).head? = some '.' ∨
      (tight (path.flatMap Key.dotted)).head? = some ' ' := by
  match path with
  | [] => exact .inr rfl
  | .word _ :: _ | .index _ :: _ => exact .inl rfl

/-- Behind a path of brackets, a bracket or a space follows. -/
theorem head?_tight_bracketed (path : List Key) :
    (tight (path.flatMap Key.bracketed)).head? = some '[' ∨
      (tight (path.flatMap Key.bracketed)).head? = some ' ' := by
  match path with
  | [] => exact .inr rfl
  | _ :: _ => exact .inl rfl

/-- A word is read before a character that is no part of words. -/
theorem readsBefore_word {name : String} (h : isWord name = true) {c d : Char}
    (htail : tail.head? = some c ∨ tail.head? = some d) (hc : isWordPart c = false)
    (hd : isWordPart d = false) : ReadsBefore (.ident name) tail := by
  refine readsBefore_ident h fun x hx => ?_
  rcases htail with htail | htail <;>
  · rw [htail] at hx
    obtain rfl := Option.some.inj hx
    assumption

/-- A place before a key behind a point ends there, if the key is a word. -/
theorem endsWhole_tight_dotted {n : Int64} (hpath : ∀ k ∈ path, k.isPrintable = true)
    (happart : Key.apart (.index n :: path) = true) :
    EndsWhole (tight (path.flatMap Key.dotted)) := by
  match path with
  | [] =>
    rintro _ _ ⟨⟩
    rfl
  | .index _ :: _ => cases happart
  | .word name :: rest =>
    obtain ⟨c, cs, hname, hstart, -⟩ := exists_of_isWord (hpath (.word name) List.mem_cons_self)
    have hwritten : Token.written (.ident name) = c :: cs := hname
    have htail : tight ((Key.word name :: rest).flatMap Key.dotted) =
        '.' :: c :: (cs ++ tight (rest.flatMap Key.dotted)) := by
      simp [Key.dotted, hwritten]
    rw [htail]
    rintro _ _ ⟨⟩
    simp [NumberPart.next?, isDigit_of_isWordStart hstart]

/-- Keys behind points are split into the tokens of each. -/
theorem splits_dotted (hpath : ∀ k ∈ path, k.isPrintable = true) (hapart : Key.apart path = true) :
    Splits (tight (path.flatMap Key.dotted)) (path.flatMap Key.dotted ++ [.outputEnd]) := by
  induction path with
  | nil => exact splits_closing.space ⟨_, _, rfl, rfl⟩
  | cons k path ih =>
    obtain ⟨hk, hrest⟩ := List.forall_mem_cons.mp hpath
    have hnext := ih hrest (Key.apart_of_cons hapart)
    cases k with
    | word name =>
      obtain ⟨c, cs, hname, -⟩ := exists_of_isWord hk
      have hword := readsBefore_word hk (head?_tight_dotted path) (by decide) (by decide)
      have hkey := hnext.cons hword ⟨c, cs, hname⟩
      simpa [Key.dotted] using hkey.cons (readsBefore_point (.inl rfl) _) ⟨_, _, rfl⟩
    | index n =>
      have hn : 0 ≤ n.toInt := of_decide_eq_true hk
      obtain ⟨k, -, hwritten⟩ := exists_digits hn
      obtain ⟨c, cs, hcs, -⟩ := exists_toDigits k
      have hplace := readsBefore_int hn (endsWhole_tight_dotted hrest hapart)
      have hkey := hnext.cons hplace ⟨c, cs, hwritten.trans hcs⟩
      simpa [Key.dotted] using hkey.cons (readsBefore_point (.inl rfl) _) ⟨_, _, rfl⟩

/-- The value of a key is read before a bracket. -/
theorem readsBefore_value (hk : k.isPrintable = true) (tail : List Char) :
    ReadsBefore k.value.token (']' :: tail) := by
  cases k with
  | word name => exact readsBefore_text name _
  | index n =>
    refine readsBefore_int (of_decide_eq_true hk) ?_
    rintro _ _ ⟨⟩
    rfl

/-- The value of a key has a text. -/
theorem exists_written_value (hk : k.isPrintable = true) :
    ∃ c cs, k.value.token.written = c :: cs := by
  cases k with
  | word name => exact ⟨_, _, rfl⟩
  | index n =>
    obtain ⟨k, -, hwritten⟩ := exists_digits (of_decide_eq_true hk)
    obtain ⟨c, cs, hcs, -⟩ := exists_toDigits k
    exact ⟨c, cs, hwritten.trans hcs⟩

/-- Keys in brackets are split into the tokens of each. -/
theorem splits_bracketed (hpath : ∀ k ∈ path, k.isPrintable = true) :
    Splits (tight (path.flatMap Key.bracketed)) (path.flatMap Key.bracketed ++ [.outputEnd]) := by
  induction path with
  | nil => exact splits_closing.space ⟨_, _, rfl, rfl⟩
  | cons k path ih =>
    obtain ⟨hk, hrest⟩ := List.forall_mem_cons.mp hpath
    have hclose := (ih hrest).cons (readsBefore_point (.inr (.inr rfl)) _) ⟨_, _, rfl⟩
    have hvalue := hclose.cons (readsBefore_value hk _) (exists_written_value hk)
    have hopen := hvalue.cons (readsBefore_point (.inr (.inl rfl)) _) ⟨_, _, rfl⟩
    simpa [tight, Key.bracketed] using hopen

/-- A variable stands before its keys. -/
theorem lex_variable {name : String} (hname : isWord name = true)
    (h : Splits (tight ts) (ts ++ [.outputEnd])) {c : Char}
    (htail : (tight ts).head? = some c ∨ (tight ts).head? = some ' ')
    (hc : isWordPart c = false) :
    let source := String.ofList ("\x7b\x7b ".toList ++
      (Token.ident name :: ts).flatMap Token.written ++ " \x7d\x7d".toList)
    (lex {} source).tokens.map Prod.fst = .outputStart :: .ident name :: ts ++ [.outputEnd] ∧
      (lex {} source).error? = none := by
  obtain ⟨d, cs, hd, hstart, -⟩ := exists_of_isWord hname
  have hsolid := isAsciiBlank_of_isWordPart (isWordPart_of_isWordStart hstart)
  have hword := h.cons (readsBefore_word hname htail hc (by decide)) ⟨d, cs, hd⟩
  have hspace := hword.space ⟨d, cs ++ tight ts, by
    rw [show Token.written (.ident name) = d :: cs from hd]
    rfl, hsolid⟩
  have hlex := lex_output hspace (by simp)
  simpa [tight] using hlex

end Lexer

namespace Expr

/-- A key behind a point, looked up in a subject. -/
def under (subject : Expr) : Key → Expr
  | .word name => .attr subject name {}
  | .index n => .item subject (.const (.int n) {}) {}

/-- A key in brackets, looked up in a subject. -/
def within (subject : Expr) (k : Key) : Expr := .item subject (.const k.value {}) {}

/-- The expression looks up the keys one after the other, beginning with a variable: words as
attributes or as items, places as items. -/
inductive Looks (name : String) : List Key → Expr → Prop
  | var {span : Span} : Looks name [] (.var name span)
  | attr {path : List Key} {e : Expr} {word : String} {span : Span} :
    Looks name path e → Looks name (path ++ [.word word]) (.attr e word span)
  | item {path : List Key} {e : Expr} {k : Key} {at_ span : Span} :
    Looks name path e → Looks name (path ++ [k]) (.item e (.const k.value at_) span)

namespace Looks

variable {name : String} {path : List Key} {e e' : Expr}

/-- Keys behind points are looked up one after the other. -/
theorem dotted (h : Looks name path e) (more : List Key) :
    Looks name (path ++ more) (more.foldl under e) := by
  induction more generalizing path e with
  | nil => simpa using h
  | cons k more ih =>
    have hk : Looks name (path ++ [k]) (e.under k) := by
      cases k with
      | word word => exact h.attr
      | index n => exact h.item (k := .index n)
    simpa using ih hk

/-- Keys in brackets are looked up one after the other. -/
theorem bracketed (h : Looks name path e) (more : List Key) :
    Looks name (path ++ more) (more.foldl within e) := by
  induction more generalizing path e with
  | nil => simpa using h
  | cons k more ih =>
    have hk : Looks name (path ++ [k]) (e.within k) := h.item
    simpa using ih hk

/-- Where a lookup stands in the source plays no part. -/
theorem of_copies (h : Looks name path e) (hcopy : e.Copies e') : Looks name path e' := by
  induction h generalizing e' with
  | var =>
    cases e' <;> simp only [Copies, erased, reduceCtorEq, Expr.var.injEq, and_true] at hcopy
    subst hcopy
    exact .var
  | attr _ ih =>
    cases e' <;> simp only [Copies, erased, reduceCtorEq, Expr.attr.injEq, and_true] at hcopy
    obtain ⟨hsubject, rfl⟩ := hcopy
    exact (ih hsubject).attr
  | item _ ih =>
    cases e' <;> simp only [Copies, erased, reduceCtorEq, Expr.item.injEq, and_true] at hcopy
    obtain ⟨hsubject, hkey⟩ := hcopy
    rename_i key _
    cases key <;> simp only [erased, reduceCtorEq, Expr.const.injEq, and_true] at hkey
    subst hkey
    exact (ih hsubject).item

/-- Lookups have no filters around them. -/
theorem unchain_eq (h : Looks name path e) : Parser.unchain [] e = (e, []) := by
  cases h <;> rfl

end Looks

end Expr

namespace Parser

variable {isFilter : String → Bool} {k : Nat} {ts : List Token} {e : Expr}

/-- A point and a place behind a subject. -/
theorem Grows.place (h : Grows isFilter k 1 ts e) (n : Int64) :
    Grows isFilter k 1 (ts ++ [.dot, .int n]) (.item e (.const (.int n) {}) {}) := by
  refine Begun.grows ((h.begun (by decide) (by decide)).extend (by decide)
    fun span x mid hx hmid => ?_) (by decide) (by decide)
  refine Takes.currentSpan.bind fun here _ => Takes.peek.bind fun next hnext => ?_
  rw [hnext]
  refine Takes.advance.bind fun _ _ => Takes.require.bind fun (token, at_) htoken => ?_
  obtain rfl : token = .int n := htoken
  refine (Takes.upToHere span).bind fun stretch _ => .pure ⟨_, rfl, ?_⟩
  rw [Expr.Copies, Expr.erased, Expr.erased, hx]
  rfl

/-- Keys behind points carry on a subject. -/
theorem Grows.dotted (h : Grows isFilter k 1 ts e) (path : List Key) :
    Grows isFilter k 1 (ts ++ path.flatMap Key.dotted) (path.foldl Expr.under e) := by
  induction path generalizing ts e with
  | nil => simpa using h
  | cons key path ih =>
    have hkey : Grows isFilter k 1 (ts ++ key.dotted) (e.under key) := by
      cases key with
      | word name => exact h.attr name {}
      | index n => exact h.place n
    simpa using ih hkey

/-- Keys in brackets carry on a subject. -/
theorem Grows.bracketed (h : Grows isFilter (k + 2) 1 ts e) {path : List Key}
    (hpath : ∀ key ∈ path, key.isPrintable = true) :
    Grows isFilter (k + 2) 1 (ts ++ path.flatMap Key.bracketed) (path.foldl Expr.within e) := by
  induction path generalizing ts e with
  | nil => simpa using h
  | cons key path ih =>
    obtain ⟨hkey, hrest⟩ := List.forall_mem_cons.mp hpath
    have hvalue : key.value.isPrintable = true := by
      cases key with
      | word name => rfl
      | index n => exact hkey
    have hread : ReadsExpr isFilter (k + 2) [key.value.token] (.const key.value {}) :=
      (Expr.readsBack (.const key.value {}) hvalue).readsExpr (Nat.le_add_left 2 k)
    have hnext : Grows isFilter (k + 2) 1 (ts ++ key.bracketed) (e.within key) := by
      simpa [Key.bracketed, Expr.within] using h.item hread {}
    simpa using ih hnext hrest

end Parser

namespace Template

open Templating.Parser

variable {registry : Registry} {v : String} {path : List Key}

/-- The name of a variable is a word. -/
theorem isWord_of_isVariable (h : Lexer.isVariable v = true) : Lexer.isWord v = true := by
  rw [Lexer.isVariable, Bool.and_eq_true] at h
  exact h.1

/-- The name of a variable is read as the variable, which may be carried on. -/
theorem grows_variable {isFilter : String → Bool} (h : Lexer.isVariable v = true) (k : Nat) :
    Grows isFilter (k + 1) 1 [.ident v] (.var v {}) := by
  rw [Lexer.isVariable, Bool.and_eq_true] at h
  have hspells : Spells isFilter (k + 1) 0 [.ident v] (.var v {}) :=
    spells_var (by simpa using h.2) {}
  exact Grows.mono (n := 0) hspells (Nat.zero_le 1)

/-- A source that consists of tokens that are read as lookups is an output of lookups. -/
theorem parse_of_looks {source : String} {ts : List Token} {e : Expr} (name : String)
    (hlex : (lex {} source).tokens.map Prod.fst = .outputStart :: ts ++ [.outputEnd] ∧
      (lex {} source).error? = none)
    (hgrows : Grows registry.hasFilter 149 1 ts e) (hlooks : e.Looks v path) :
    ∃ e span, e.Looks v path ∧
      parse registry {} name source = .ok ⟨name, [.output e [] span]⟩ := by
  have hread : ReadsExpr registry.hasFilter maxDepth ts e :=
    (hgrows.mono (by decide : 1 ≤ 10)).spells.readsExpr
  obtain ⟨nodes, ⟨e', span, hcopy, rfl⟩, hparse⟩ := parse_of_takes hlex hread.template_takes name
  have hlooks' := hlooks.of_copies hcopy
  rw [hlooks'.unchain_eq] at hparse
  exact ⟨e', span, hlooks', hparse⟩

/-- An output of a variable with keys behind points is read as lookups, if no place directly
follows a place. -/
theorem parse_dottedPath (name : String) (hv : Lexer.isVariable v = true)
    (hpath : ∀ k ∈ path, k.isPrintable = true) (hapart : Key.apart path = true) :
    ∃ e span, e.Looks v path ∧
      parse registry {} name (dottedPath v path) = .ok ⟨name, [.output e [] span]⟩ :=
  parse_of_looks name
    (Lexer.lex_variable (isWord_of_isVariable hv) (Lexer.splits_dotted hpath hapart)
      (Lexer.head?_tight_dotted path) (by decide))
    ((grows_variable hv 148).dotted path) (Expr.Looks.var.dotted path)

/-- An output of a variable with keys in brackets is read as lookups. -/
theorem parse_bracketedPath (name : String) (hv : Lexer.isVariable v = true)
    (hpath : ∀ k ∈ path, k.isPrintable = true) :
    ∃ e span, e.Looks v path ∧
      parse registry {} name (bracketedPath v path) = .ok ⟨name, [.output e [] span]⟩ :=
  parse_of_looks name
    (Lexer.lex_variable (isWord_of_isVariable hv) (Lexer.splits_bracketed hpath)
      (Lexer.head?_tight_bracketed path) (by decide))
    ((grows_variable hv 148).bracketed hpath) (Expr.Looks.var.bracketed path)

end Template

end Templating
