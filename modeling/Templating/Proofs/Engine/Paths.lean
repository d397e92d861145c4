import Templating.Proofs.Engine.Lenient
import Templating.Proofs.Template.Paths

/-!
# Values at the end of paths

Keys behind points and keys in brackets lead to the same part of a value, whatever the value and
whatever is missing on the way. Between points a place may not directly follow a place, since digits
with a point between digits are one number there; brackets have no such exception.
-/

namespace Templating

/-- An attribute is the item under its name. -/
theorem Value.item_ofString (v : Value) (name : String) :
    v.item (.ofString name) = v.attr name := by
  cases v <;> rfl

/-- The part of a value at the end of a path, each key looked up as an item. -/
def Value.follow (v : Value) (path : List Key) : Value :=
  path.foldl (fun v k => v.item k.value) v

/-- A longer path goes on from the end of a shorter one. -/
theorem Value.follow_concat (v : Value) (path : List Key) (k : Key) :
    v.follow (path ++ [k]) = (v.follow path).item k.value := by
  rw [follow, List.foldl_append]
  rfl

namespace Expr.Looks

variable {name : String} {path : List Key} {e : Expr}

/-- Lookups lead to the end of the path. -/
theorem eval_eq (h : e.Looks name path) (sit : Situation) :
    e.eval sit = .ok ((Frames.load sit.frames name).follow path) := by
  induction h with
  | var => rfl
  | attr _ ih =>
    rw [eval, ih, Value.follow_concat]
    exact congrArg Except.ok (Value.item_ofString _ _).symm
  | item _ ih =>
    rw [eval, ih, Value.follow_concat]
    rfl

/-- Lookups do not fail. -/
theorem isLenient (h : e.Looks name path) : e.isLenient = true := by
  induction h with
  | var => rfl
  | attr _ ih => exact ih
  | item _ ih => simp [Expr.isLenient, ih]

/-- Lookups count nothing. -/
theorem fits (h : e.Looks name path) : e.Fits := by
  induction h with
  | var => trivial
  | attr _ ih => exact ih
  | item _ ih => exact ⟨ih, trivial⟩

end Expr.Looks

namespace Engine

/-- The source is read as an output of an expression that has the value at the end of the path in
every situation, and a run of its program over a context writes this value. -/
def OutputsPath (e : Engine) (options : Options) (source v : String) (path : List Key) : Prop :=
  ∃ x span program linked,
    Template.parse e.registry options.controls anonymousName source =
      .ok ⟨anonymousName, [.output x [] span]⟩ ∧
    (∀ sit, x.eval sit = .ok ((Frames.load sit.frames v).follow path)) ∧
    e.compile source options = .ok program ∧ program.link e.registry = .ok linked ∧
    ∀ context budget, program.main.instructions.size < budget →
      linked.runWithin budget context =
        .ok (Output.valueText ((Frames.load [{ context }] v).follow path) options.autoescape)

variable {options : Options} {source v : String} {path : List Key}

/-- A source that is read as lookups outputs what they lead to. -/
theorem outputsPath_of_looks (e : Engine) (hcheck : options.check = .ok ()) {x : Expr} {span : Span}
    (hparse : Template.parse e.registry options.controls anonymousName source =
      .ok ⟨anonymousName, [.output x [] span]⟩)
    (hlooks : x.Looks v path) : e.OutputsPath options source v path := by
  obtain ⟨size, text, hall⟩ := e.compileAs_lenient hcheck hparse
    (List.forall_mem_singleton.mpr (by simp [Node.isLenient, hlooks.isLenient]))
  obtain ⟨program, hcompile, hlink, -, hshows⟩ := hall anonymousName
  refine ⟨x, span, program, _, hparse, hlooks.eval_eq, hcompile, hlink, fun context budget h => ?_⟩
  rw [(hshows context).runs budget h]
  obtain ⟨texts, hnodes, htext⟩ := (hshows context).shows
    (List.forall_mem_singleton.mpr ⟨hlooks.fits, by simp [Emission.ChainFits]⟩)
  obtain ⟨shown, _, hshown, hnil, rfl⟩ := List.forall₂_cons_left_iff.mp hnodes
  obtain rfl := List.forall₂_nil_left_iff.mp hnil
  cases hshown with
  | output hvalue =>
    obtain rfl := Except.ok.inj (hvalue.symm.trans (hlooks.eval_eq _))
    rw [htext]
    simp

/-- Keys behind points and keys in brackets are read, and have the same value in every situation and
the same output over every context, if no place directly follows a place. -/
theorem outputsPath_dotted_and_bracketed (e : Engine) (hcontrols : options.controls = {})
    (hv : Lexer.isVariable v = true) (hpath : ∀ k ∈ path, k.isPrintable = true)
    (hapart : Key.apart path = true) :
    e.OutputsPath options (dottedPath v path) v path ∧
      e.OutputsPath options (bracketedPath v path) v path := by
  have hcheck : options.check = .ok () := by
    rw [Options.check, hcontrols]
    rfl
  obtain ⟨x, span, hlooks, hparse⟩ := Template.parse_dottedPath anonymousName hv hpath hapart
  obtain ⟨y, stretch, hlooks', hparse'⟩ := Template.parse_bracketedPath anonymousName hv hpath
  exact ⟨e.outputsPath_of_looks hcheck (hcontrols ▸ hparse) hlooks,
    e.outputsPath_of_looks hcheck (hcontrols ▸ hparse') hlooks'⟩

set_option maxRecDepth 100000 in
/-- Words and places in turn, words that are operators elsewhere among them. -/
theorem outputsPath_dotted_and_bracketed_mixed :
    let path : List Key := [.index 0, .word "e5", .word "not", .index 12, .word "length"]
    let e : Engine := {}
    Lexer.isVariable "items" = true ∧ (∀ k ∈ path, k.isPrintable = true) ∧
      Key.apart path = true ∧
      dottedPath "items" path = "\x7b\x7b items.0.e5.not.12.length \x7d\x7d" ∧
      bracketedPath "items" path =
        "\x7b\x7b items[0][\"e5\"][\"not\"][12][\"length\"] \x7d\x7d" ∧
      e.OutputsPath {} (dottedPath "items" path) "items" path ∧
      e.OutputsPath {} (bracketedPath "items" path) "items" path := by
  intro path e
  have hv : Lexer.isVariable "items" = true := by decide +kernel
  have hpath : ∀ k ∈ path, k.isPrintable = true := by decide +kernel
  have hapart : Key.apart path = true := by decide
  exact ⟨hv, hpath, hapart, by decide +kernel, by decide +kernel,
    outputsPath_dotted_and_bracketed e rfl hv hpath hapart⟩

set_option maxRecDepth 100000 in
/-- Behind a point, a place that directly follows a place is not read. -/
theorem not_forall_outputsPath_dotted :
    ¬ ∀ v path, Lexer.isVariable v = true → (∀ k ∈ path, k.isPrintable = true) →
      Engine.OutputsPath {} {} (dottedPath v path) v path ∧
        Engine.OutputsPath {} {} (bracketedPath v path) v path := by
  intro h
  obtain ⟨⟨x, span, -, -, hparse, -⟩, -⟩ :=
    h "v" [.index 0, .index 1] (by decide +kernel) (by decide +kernel)
  have hrefused : (Template.parse Registry.initial {} anonymousName
      (dottedPath "v" [.index 0, .index 1])).isOk = false := by decide +kernel
  have hparse : Template.parse Registry.initial {} anonymousName
      (dottedPath "v" [.index 0, .index 1]) = _ := hparse
  rw [hparse] at hrefused
  cases hrefused

end Engine

end Templating
