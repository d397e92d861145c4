/-!
# Errors

What can go wrong when a template is compiled or run. A fault is the cause, one constructor per
rule that can be broken; its class and its message are read off it in one place each. An error adds
where the fault was noticed and, for a template that could not be fetched, what the loader said.
-/

namespace Templating

/-- The class of an error, as callers tell errors apart. -/
inductive ErrorKind where
  | badSyntax
  | unknownTag
  | unknownFilter
  | templateLoad
  | compileError
  | invalidOperation
  | invalidArguments
  | tooManyArguments
  | missingArgument
  | invalidOptions
  | badEscape
  | badSerialization
  deriving Repr, DecidableEq, Inhabited

/-- The general description of a class of errors. -/
def ErrorKind.description : ErrorKind → String
  | badSyntax => "syntax error"
  | unknownTag => "unknown tag"
  | unknownFilter => "unknown filter"
  | templateLoad => "template could not be loaded"
  | compileError => "compile error"
  | invalidOperation => "invalid operation"
  | invalidArguments => "invalid arguments"
  | tooManyArguments => "too many arguments"
  | missingArgument => "missing argument"
  | invalidOptions => "invalid options"
  | badEscape => "bad string escape"
  | badSerialization => "could not serialize to internal format"

/-- The cause of an error. -/
inductive Fault where
  /-- The source ends inside a variable, a tag or a comment. -/
  | unclosed (what delimiter : String) (line : Nat)
  | unclosedString (line : Nat)
  /-- A raw block without its end tag. -/
  | unclosedRaw (line : Nat)
  | unexpectedCharacter (c : Char) (line : Nat)
  | unexpectedNumber (text : String) (line : Nat)
  | badEscape
  /-- A token that does not belong where it stands. -/
  | unexpectedToken (kind text : String) (line : Nat)
  | unexpectedTagEnd (line : Nat)
  | unexpectedEnd (line : Nat)
  | tooDeep (line : Nat)
  | notConstant (line : Nat)
  | unknownTag (name : String) (line : Nat)
  /-- An end tag where no tag, or another tag, is open. -/
  | strayEndTag (name : String) (line : Nat) (opened : Option (String × Nat))
  | missingEndTag (endName name : String) (line : Nat)
  | unknownFilter (name : String) (line : Nat)
  | labelAfterElse (label : String) (line : Nat)
  | repeatedElse (line : Nat)
  | badTagArguments (tag : String) (line : Nat)
  /-- The names on a chain of base templates that comes back to its start. -/
  | circularExtends (chain : List String)
  | misplacedExtends (line : Nat)
  | unnamedExtends (line : Nat)
  | duplicateBlock (block : String) (line : Nat)
  | includesItself (template : String) (line : Nat)
  | parentOutsideBlock (line : Nat)
  | templateNotFound (name : String)
  | templateUnavailable (name : String)
  /-- References between templates are nested beyond the supported depth. -/
  | nestedTooDeep
  /-- A program needs a filter that is not registered. -/
  | filterNotRegistered (name : String)
  | noSuchFilterIndex (index : Nat)
  | noSuchMacroIndex (index : Nat)
  | noSuchMacro (name : String)
  | unsupportedOperands (op left right : String)
  | inexactResult (op left right : String)
  | negationOverflow
  | cannotNegate (kind : String)
  | notCallable (kind : String)
  | recursionLimit
  | iterateOutsideLoop
  /-- The run was given up after its budget of steps. -/
  | outOfSteps
  | tooManyMacroArguments (name : String) (expected given : Nat)
  | tooManyArguments (expected given : Nat)
  | missingArgument
  | wrongArgument (expected got : String)
  | unknownEscape (mode : String)
  | badMapKey (kind : String)
  | valueBeforeKey
  | emptyDelimiter (option : String)
  | sameDelimiters (option : String)
  | ambiguousDelimiters
  | unreadableArtifact
  | unsupportedFormat (version : Nat)
  /-- A fault raised by a loader, a filter or a tag that an application supplied. -/
  | custom (kind : ErrorKind) (detail : Option String)
  deriving Repr, DecidableEq, Inhabited

namespace Fault

/-- Put a text in double quotes. -/
def quote (s : String) : String := "\"" ++ s ++ "\""

/-- The end of most messages about sources. -/
def onLine (line : Nat) : String := " on line " ++ toString line ++ "."

/-- The class of a fault. -/
def kind : Fault → ErrorKind
  | unclosed .. => .badSyntax
  | unclosedString .. => .badSyntax
  | unclosedRaw .. => .badSyntax
  | unexpectedCharacter .. => .badSyntax
  | unexpectedNumber .. => .badSyntax
  | badEscape => .badEscape
  | unexpectedToken .. => .badSyntax
  | unexpectedTagEnd .. => .badSyntax
  | unexpectedEnd .. => .badSyntax
  | tooDeep .. => .badSyntax
  | notConstant .. => .badSyntax
  | unknownTag .. => .unknownTag
  | strayEndTag .. => .compileError
  | missingEndTag .. => .compileError
  | unknownFilter .. => .unknownFilter
  | labelAfterElse .. => .compileError
  | repeatedElse .. => .compileError
  | badTagArguments .. => .compileError
  | circularExtends .. => .compileError
  | misplacedExtends .. => .compileError
  | unnamedExtends .. => .compileError
  | duplicateBlock .. => .compileError
  | includesItself .. => .compileError
  | parentOutsideBlock .. => .compileError
  | templateNotFound .. => .templateLoad
  | templateUnavailable .. => .templateLoad
  | nestedTooDeep => .compileError
  | filterNotRegistered .. => .unknownFilter
  | noSuchFilterIndex .. => .unknownFilter
  | noSuchMacroIndex .. => .invalidOperation
  | noSuchMacro .. => .invalidOperation
  | unsupportedOperands .. => .invalidOperation
  | inexactResult .. => .invalidOperation
  | negationOverflow => .invalidOperation
  | cannotNegate .. => .invalidOperation
  | notCallable .. => .invalidOperation
  | recursionLimit => .invalidOperation
  | iterateOutsideLoop => .invalidOperation
  | outOfSteps => .invalidOperation
  | tooManyMacroArguments .. => .tooManyArguments
  | tooManyArguments .. => .tooManyArguments
  | missingArgument => .missingArgument
  | wrongArgument .. => .invalidArguments
  | unknownEscape .. => .invalidArguments
  | badMapKey .. => .badSerialization
  | valueBeforeKey => .badSerialization
  | emptyDelimiter .. => .invalidOptions
  | sameDelimiters .. => .invalidOptions
  | ambiguousDelimiters => .invalidOptions
  | unreadableArtifact => .badSerialization
  | unsupportedFormat .. => .badSerialization
  | custom kind _ => kind

/-- What is said about a fault beyond its class, if anything. -/
def detail? : Fault → Option String
  | unclosed what delimiter line =>
    some ("Unclosed " ++ what ++ " " ++ quote delimiter ++ " opened" ++ onLine line)
  | unclosedString line => some ("Unclosed string opened" ++ onLine line)
  | unclosedRaw line =>
    some ("Missing end tag \"endraw\" for \"raw\" opened" ++ onLine line)
  | unexpectedCharacter c line =>
    some ("Unexpected character " ++ quote c.toString ++ onLine line)
  | unexpectedNumber text line => some ("Unexpected number " ++ quote text ++ onLine line)
  | badEscape => none
  | unexpectedToken kind text line =>
    some ("Unexpected " ++ kind ++ " " ++ quote text ++ onLine line)
  | unexpectedTagEnd line => some ("Unexpected end of tag" ++ onLine line)
  | unexpectedEnd line => some ("Unexpected end of template" ++ onLine line)
  | tooDeep line => some ("Template exceeds maximum nesting depth" ++ onLine line)
  | notConstant line => some ("Tag \"autoescape\" requires a constant" ++ onLine line)
  | unknownTag name line => some ("Unexpected tag " ++ quote name ++ onLine line)
  | strayEndTag name line none => some ("Unexpected end tag " ++ quote name ++ onLine line)
  | strayEndTag name line (some (opened, openLine)) =>
    some ("Unexpected end tag " ++ quote name ++ " on line " ++ toString line ++ ", expected " ++
      quote ("end" ++ opened) ++ " for " ++ quote opened ++ " opened" ++ onLine openLine)
  | missingEndTag endName name line =>
    some ("Missing end tag " ++ quote endName ++ " for " ++ quote name ++ " opened" ++ onLine line)
  | unknownFilter name line => some ("Filter " ++ quote name ++ " not found" ++ onLine line)
  | labelAfterElse label line =>
    some ("Unexpected " ++ quote label ++ " after \"else\"" ++ onLine line)
  | repeatedElse line => some ("Unexpected \"else\"" ++ onLine line)
  | badTagArguments tag line => some ("Invalid arguments for tag " ++ quote tag ++ onLine line)
  | circularExtends chain => some ("Circular extends: " ++ String.intercalate " -> " chain ++ ".")
  | misplacedExtends line =>
    some ("Tag \"extends\" must be the first tag in the template" ++ onLine line)
  | unnamedExtends line => some ("Tag \"extends\" requires a template name" ++ onLine line)
  | duplicateBlock block line =>
    some ("Block " ++ quote block ++ " is defined more than once" ++ onLine line)
  | includesItself template line =>
    some ("Template " ++ quote template ++ " includes itself" ++ onLine line)
  | parentOutsideBlock line => some ("Tag \"parent\" used outside of a block" ++ onLine line)
  | templateNotFound name => some ("Template " ++ quote name ++ " not found.")
  | templateUnavailable name => some ("Template " ++ quote name ++ " could not be loaded.")
  | nestedTooDeep => some "references between templates are nested too deeply"
  | filterNotRegistered name => some ("Filter " ++ quote name ++ " not found.")
  | noSuchFilterIndex index => some ("Filter #" ++ toString index ++ " not found.")
  | noSuchMacroIndex index => some ("macro #" ++ toString index ++ " not found")
  | noSuchMacro name => some ("macro " ++ quote name ++ " not found")
  | unsupportedOperands op left right =>
    some ("tried to use " ++ op ++ " operator on unsupported types " ++ left ++ " and " ++ right)
  | inexactResult op left right =>
    some ("unable to calculate " ++ left ++ " " ++ op ++ " " ++ right)
  | negationOverflow => none
  | cannotNegate kind => some ("cannot negate " ++ kind)
  | notCallable kind => some (kind ++ " is not callable")
  | recursionLimit => some "recursion limit exceeded"
  | iterateOutsideLoop => some "iterate outside of a loop"
  | outOfSteps => some "the run was given up"
  | tooManyMacroArguments name expected given =>
    some ("macro " ++ quote name ++ " takes " ++ toString expected ++ " arguments, " ++
      toString given ++ " given")
  | tooManyArguments expected given =>
    some ("expected at most " ++ toString expected ++ " arguments, got " ++ toString given)
  | missingArgument => some "missing argument"
  | wrongArgument expected got => some ("expected " ++ expected ++ ", got " ++ got)
  | unknownEscape mode => some ("unknown escape type " ++ quote mode)
  | badMapKey kind => some ("map keys must be strings or numbers, got " ++ kind)
  | valueBeforeKey => some "map value serialized before its key"
  | emptyDelimiter option =>
    some ("Option " ++ quote option ++ " must not contain empty delimiters.")
  | sameDelimiters option =>
    some ("Option " ++ quote option ++ " open and close controls must not be the same.")
  | ambiguousDelimiters =>
    some "Opening controls of variables, tags and comments must be distinct."
  | unreadableArtifact => some "unable to read artifact"
  | unsupportedFormat version =>
    some ("artifact format " ++ toString version ++ " is not supported (expected 1)")
  | custom _ detail => detail

end Fault

/-- Where in which template an error was noticed. -/
structure Location where
  template : String
  line : Nat
  deriving Repr, DecidableEq, Inhabited

/-- An error: its fault, the line noted before the template was known, its place, and the error of
a loader behind it. -/
structure Error where
  fault : Fault
  line? : Option Nat := none
  location? : Option Location := none
  cause? : Option Error := none
  deriving Repr, Inhabited

namespace Error

/-- An error that is not placed yet. -/
def ofFault (fault : Fault) : Error := { fault }

/-- An error whose line is known before its template. -/
def onLine (fault : Fault) (line : Nat) : Error := { fault, line? := some line }

/-- The class of an error. -/
def kind (e : Error) : ErrorKind := e.fault.kind

/-- What is said about an error beyond its class. -/
def detail? (e : Error) : Option String := e.fault.detail?

/-- Place an error, unless it has a place already. A line noted earlier wins. -/
def locate (e : Error) (template : String) (line : Nat) : Error :=
  match e.location? with
  | some _ => e
  | none => { e with location? := some ⟨template, e.line?.getD line⟩ }

/-- The full text of an error: class, detail and place. -/
def message (e : Error) : String :=
  let text := match e.detail? with
    | some detail => e.kind.description ++ ": " ++ detail
    | none => e.kind.description
  match e.location? with
  | some place => text ++ " (in " ++ place.template ++ ":" ++ toString place.line ++ ")"
  | none => text

/-- A place, once given, stays. -/
theorem locate_locate (e : Error) (t u : String) (l k : Nat) :
    (e.locate t l).locate u k = e.locate t l := by
  cases h : e.location? <;> simp [locate, h]

/-- Placing an error does not change its fault. -/
theorem fault_locate (e : Error) (template : String) (line : Nat) :
    (e.locate template line).fault = e.fault := by
  cases h : e.location? <;> simp [locate, h]

end Error

/-- What may fail with an error. -/
abbrev Result := Except Error

/-- Fail with a fault. -/
def fail {α : Type} (fault : Fault) : Result α := .error (.ofFault fault)

/-- One computation after the other succeeds if both do. -/
theorem Result.bind_eq_ok {α β : Type} {x : Result α} {f : α → Result β} {b : β} :
    x >>= f = .ok b ↔ ∃ a, x = .ok a ∧ f a = .ok b := by
  cases x <;> simp [bind, Except.bind]

/-- A function of the value of a computation is there if the computation succeeds. -/
theorem Result.map_eq_ok {α β : Type} {x : Result α} {f : α → β} {b : β} :
    x.map f = .ok b ↔ ∃ a, x = .ok a ∧ f a = b := by
  cases x <;> simp [Except.map]

/-- A computation that succeeds gives a value, which can be taken out. -/
theorem Result.eq_ok_of_isOk {α : Type} [Inhabited α] {x : Result α} (h : x.isOk = true) :
    x = .ok (x.toOption.getD default) := by
  cases x with
  | error e => simp [Except.isOk, Except.toBool] at h
  | ok a => rfl

/-- A computation that gives a value succeeds with it. -/
theorem Result.eq_ok_of_toOption {α : Type} {x : Result α} {a : α} (h : x.toOption = some a) :
    x = .ok a := by
  cases x with
  | error e => simp [Except.toOption] at h
  | ok b => rw [Option.some.inj h]

/-- Computations over a list that all succeed give one result each, at the same places. -/
theorem Result.mapM_eq_ok {α β : Type} {f : α → Result β} {xs : List α} {ys : List β}
    (h : xs.mapM f = .ok ys) :
    ys.length = xs.length ∧
      ∀ {i : Nat} {x : α} {y : β}, xs[i]? = some x → ys[i]? = some y → f x = .ok y := by
  induction xs generalizing ys with
  | nil =>
    obtain rfl : [] = ys := Except.ok.inj h
    exact ⟨rfl, fun hx => by simp at hx⟩
  | cons x xs ih =>
    rw [List.mapM_cons, Result.bind_eq_ok] at h
    obtain ⟨y, hy, h⟩ := h
    obtain ⟨ys', hrest, h⟩ := Result.bind_eq_ok.mp h
    obtain rfl : y :: ys' = ys := Except.ok.inj h
    obtain ⟨hlength, hplaces⟩ := ih hrest
    refine ⟨congrArg Nat.succ hlength, fun {i x' y'} hx' hy' => ?_⟩
    cases i with
    | zero =>
      obtain rfl := Option.some.inj hx'
      obtain rfl := Option.some.inj hy'
      exact hy
    | succ i => exact hplaces hx' hy'

end Templating
