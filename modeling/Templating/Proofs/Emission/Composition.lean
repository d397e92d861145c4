import Templating.Program.Compilation
import Templating.Proofs.Machine.Runs

/-!
# How emitted code is put together

Code is put together from single instructions in a few ways: one piece stands behind another, on a
line, behind a jump to its end, as one of two alternatives, or as what a loop comes back to. What
holds of instructions and is kept by these ways of putting code together holds of all the code that
expressions and the constructions of tags are compiled to. So a relation between two emissions, or a
property of one, has to be shown of a handful of pieces only; the way through the syntax is gone
here, once.
-/

namespace Templating

/-- A jump that is taken on some condition. -/
inductive Instruction.IsConditional : (Nat → Instruction) → Prop
  | ifFalse : IsConditional .jumpIfFalse
  | ifFalseOrPop : IsConditional .jumpIfFalseOrPop
  | ifTrueOrPop : IsConditional .jumpIfTrueOrPop

/-- Operators skip their right operand by a jump on a condition. -/
theorem BinaryOp.isConditional_of_shortcut? {o : BinaryOp} {jump : Nat → Instruction}
    (h : o.shortcut? = some jump) : Instruction.IsConditional jump := by
  cases o with
  | and =>
    obtain rfl := Option.some.inj h
    exact .ifFalseOrPop
  | or =>
    obtain rfl := Option.some.inj h
    exact .ifTrueOrPop
  | _ => cases h

/-- The instruction loads no constant but such with a property. -/
def Instruction.Loads (C : Value → Prop) : Instruction → Prop
  | loadConst v => C v
  | _ => True

namespace Expr

/-- The expressions right inside of an expression, in the order of their evaluation. -/
def parts : Expr → List Expr
  | .var .. | .const .. => []
  | .unary _ operand _ => [operand]
  | .binary _ left right _ => [left, right]
  | .attr subject _ _ => [subject]
  | .item subject key _ => [subject, key]
  | .filter _ subject args _ => subject :: args
  | .call callee args _ => callee :: args
  | .list items _ => items
  | .map entries _ => entries.flatMap fun entry => [entry.1, entry.2]

/-- The jump of an expression that may skip its right operand. -/
def shortcut? : Expr → Option (Nat → Instruction)
  | .binary o _ _ _ => o.shortcut?
  | _ => none

/-- What is inside is smaller. -/
theorem sizeOf_lt_of_mem_parts {d e : Expr} (h : d ∈ e.parts) : sizeOf d < sizeOf e := by
  cases e with
  | var | const => cases h
  | unary | binary | attr | item =>
    simp only [parts, List.mem_cons, List.not_mem_nil, or_false] at h
    rcases h with rfl | rfl <;> simp <;> omega
  | filter name subject args span | call subject args span =>
    rcases List.mem_cons.mp h with rfl | h
    · simp
      omega
    · have := List.sizeOf_lt_of_mem h
      simp
      omega
  | list items span =>
    have : sizeOf d < sizeOf items := List.sizeOf_lt_of_mem h
    simp
    omega
  | map entries span =>
    obtain ⟨entry, hentry, h⟩ := List.mem_flatMap.mp h
    have := List.sizeOf_lt_of_mem hentry
    obtain ⟨key, value⟩ := entry
    simp only [List.mem_cons, List.not_mem_nil, or_false] at h
    rcases h with rfl | rfl <;> simp at this ⊢ <;> omega

/-- What holds of an expression if it holds of all that is right inside of it holds of all
expressions. -/
theorem induction_parts {motive : Expr → Prop}
    (h : ∀ e : Expr, (∀ d ∈ e.parts, motive d) → motive e) (e : Expr) : motive e :=
  h e fun d _ => induction_parts h d
termination_by sizeOf e
decreasing_by exact sizeOf_lt_of_mem_parts ‹_›

mutual

/-- Every constant in the expression has a property. -/
def Loads (C : Value → Prop) : Expr → Prop
  | .var .. => True
  | .const value _ => C value
  | .unary _ operand _ => operand.Loads C
  | .binary _ left right _ => left.Loads C ∧ right.Loads C
  | .attr subject _ _ => subject.Loads C
  | .item subject key _ => subject.Loads C ∧ key.Loads C
  | .filter _ subject args _ => subject.Loads C ∧ AllLoad C args
  | .call callee args _ => callee.Loads C ∧ AllLoad C args
  | .list items _ => AllLoad C items
  | .map entries _ => EntriesLoad C entries

/-- Every constant in the expressions has a property. -/
def AllLoad (C : Value → Prop) : List Expr → Prop
  | [] => True
  | e :: rest => e.Loads C ∧ AllLoad C rest

/-- Every constant in the keys and values of a map literal has a property. -/
def EntriesLoad (C : Value → Prop) : List (Expr × Expr) → Prop
  | [] => True
  | (key, value) :: rest => key.Loads C ∧ value.Loads C ∧ EntriesLoad C rest

end

variable {C : Value → Prop}

/-- A property of the constants in expressions is one in each of them. -/
theorem allLoad_iff {es : List Expr} : AllLoad C es ↔ ∀ e ∈ es, e.Loads C := by
  induction es with
  | nil => simp [AllLoad]
  | cons e rest ih => rw [AllLoad, ih, List.forall_mem_cons]

/-- A property of the constants in a map literal is one in each of its keys and values. -/
theorem entriesLoad_iff {entries : List (Expr × Expr)} :
    EntriesLoad C entries ↔ ∀ entry ∈ entries, entry.1.Loads C ∧ entry.2.Loads C := by
  induction entries with
  | nil => simp [EntriesLoad]
  | cons entry rest ih => rw [EntriesLoad, ih, List.forall_mem_cons, and_assoc]

/-- The constants of an expression are itself, if it is one, and those of its parts. -/
theorem loads_iff {e : Expr} :
    e.Loads C ↔ (∀ v, e.asConst? = some v → C v) ∧ ∀ d ∈ e.parts, d.Loads C := by
  cases e with
  | map entries span =>
    have hentry : ∀ entry : Expr × Expr,
        (∀ d ∈ [entry.1, entry.2], d.Loads C) ↔ entry.1.Loads C ∧ entry.2.Loads C := by simp
    simp only [Loads, entriesLoad_iff, asConst?, parts, List.forall_mem_flatMap, hentry]
    exact (and_iff_right nofun).symm
  | _ => simp [Loads, allLoad_iff, asConst?, parts]

/-- A property of all values is one of the constants in an expression. -/
theorem loads_of_forall (hC : ∀ v, C v) (e : Expr) : e.Loads C := by
  induction e using induction_parts with
  | h e ih => exact loads_iff.mpr ⟨fun v _ => hC v, ih⟩

/-- A property of all values is one of the constants in expressions. -/
theorem allLoad_of_forall (hC : ∀ v, C v) (es : List Expr) : AllLoad C es :=
  allLoad_iff.mpr fun e _ => loads_of_forall hC e

/-- Nothing may be asked of the constants of an expression. -/
theorem loads_true (e : Expr) : e.Loads fun _ => True := loads_of_forall (fun _ => trivial) e

/-- Nothing may be asked of the constants of expressions. -/
theorem allLoad_true (es : List Expr) : AllLoad (fun _ => True) es :=
  allLoad_of_forall (fun _ => trivial) es

end Expr

/-- A filter of a chain as an expression of its own, whose subject stands on the same line. -/
def FilterCall.asExpr (f : FilterCall) : Expr := .filter f.name (.var "" f.span) f.args f.span

namespace Emission

variable {isFilter : String → Bool}

/-- One piece of code behind another. -/
def andThen (x y : Emission Fragment) : Emission Fragment := do
  return (← x) ++ (← y)

/-- Code that comes from a line. -/
def onLine (line : Nat) (x : Emission Fragment) : Emission Fragment := do
  setLine line
  x

/-- Code behind a jump to its end. -/
def skipping (jump : Nat → Instruction) (x : Emission Fragment) : Emission Fragment := do
  let place ← reserve
  let code ← x
  return place (jump (← here)) :: code

/-- The code that an expression has of its own, behind that of its parts. -/
def own (isFilter : String → Bool) : Expr → Emission Fragment
  | .var name _ => op (.lookup name)
  | .const value _ => op (.loadConst value)
  | .unary o _ _ => op o.instruction
  | .binary o _ _ _ => op o.instruction
  | .attr _ name _ => op (.getAttr name)
  | .item .. => op .getItem
  | .filter name _ args _ => applyFilter isFilter name args.length
  | .call _ args _ => op (.call args.length)
  | .list items _ => op (.buildList items.length)
  | .map entries _ => op (.buildMap entries.length)

/-- The right operand is skipped when the left one decides. -/
theorem expr_of_shortcut? {o : BinaryOp} {jump : Nat → Instruction} (h : o.shortcut? = some jump)
    (left right : Expr) (span : Span) : expr isFilter (.binary o left right span) =
      onLine span.start.line
        (andThen (expr isFilter left) (skipping jump (expr isFilter right))) := by
  simp only [expr, h, onLine, andThen, skipping, bind_assoc, pure_bind]

theorem exprEntries_eq (entries : List (Expr × Expr)) :
    exprEntries isFilter entries =
      exprs isFilter (entries.flatMap fun entry => [entry.1, entry.2]) := by
  induction entries with
  | nil => rw [exprEntries, List.flatMap_nil, exprs]
  | cons entry rest ih =>
    simp only [exprEntries, ih, List.flatMap_cons, List.cons_append, List.nil_append, exprs,
      bind_assoc, pure_bind, List.append_assoc]

/-- The code of all other expressions is that of their parts with their own behind it. -/
theorem expr_of_shortcut?_eq_none {e : Expr} (h : e.shortcut? = none) :
    expr isFilter e = onLine e.line (andThen (exprs isFilter e.parts) (own isFilter e)) := by
  cases e with
  | binary o left right span =>
    have ho : o.shortcut? = none := h
    simp only [expr, ho, Expr.parts, exprs, own, onLine, andThen, Expr.line,
      Expr.span, bind_assoc, pure_bind, List.append_assoc, List.append_nil]
  | map entries span =>
    simp only [expr, exprEntries_eq, Expr.parts, own, onLine, andThen, Expr.line, Expr.span]
  | _ =>
    simp only [expr, Expr.parts, exprs, own, onLine, andThen, Expr.line, Expr.span, bind_assoc,
      pure_bind, List.append_assoc, List.append_nil, List.nil_append, bind_pure]

/-- What is kept by the ways in which the code of expressions is put together, where expressions may
be asked for something. -/
structure Compositional (isFilter : String → Bool) (ok : Expr → Prop)
    (P : Emission Fragment → Prop) : Prop where
  nothing : P (pure [])
  andThen : ∀ {x y}, P x → P y → P (andThen x y)
  onLine : ∀ {e x}, ok e → P x → P (onLine e.line x)
  skipping : ∀ {jump x}, Instruction.IsConditional jump → P x → P (skipping jump x)
  own : ∀ {e}, ok e → e.shortcut? = none → P (own isFilter e)
  emit : P (op .emit)

namespace Compositional

variable {ok : Expr → Prop} {P : Emission Fragment → Prop}

/-- It holds of expressions one after the other if it holds of each. -/
theorem exprs_of_forall (h : Compositional isFilter ok P) {es : List Expr}
    (hes : ∀ e ∈ es, P (expr isFilter e)) : P (exprs isFilter es) := by
  induction es with
  | nil =>
    rw [Emission.exprs]
    exact h.nothing
  | cons e rest ih =>
    obtain ⟨he, hrest⟩ := List.forall_mem_cons.mp hes
    rw [Emission.exprs]
    exact h.andThen he (ih hrest)

/-- It holds of what an expression emits on its line if it holds of the code of its parts. -/
theorem exists_onLine_of_parts (h : Compositional isFilter ok P) {e : Expr} (he : ok e)
    (hparts : ∀ d ∈ e.parts, P (expr isFilter d)) :
    ∃ x, expr isFilter e = Emission.onLine e.line x ∧ P x := by
  cases hshortcut : e.shortcut? with
  | none =>
    exact ⟨_, expr_of_shortcut?_eq_none hshortcut,
      h.andThen (h.exprs_of_forall hparts) (h.own he hshortcut)⟩
  | some jump =>
    cases e with
    | binary o left right span =>
      have hright := hparts right (by simp [Expr.parts])
      exact ⟨_, expr_of_shortcut? hshortcut left right span,
        h.andThen (hparts left (by simp [Expr.parts]))
          (h.skipping (BinaryOp.isConditional_of_shortcut? hshortcut) hright)⟩
    | _ => cases hshortcut

variable (h : Compositional isFilter ok P)
  (hparts : ∀ e : Expr, ok e → ∀ d ∈ e.parts, ok d)

include h hparts

/-- It holds of the code of every expression. -/
theorem expr (e : Expr) (he : ok e) : P (Emission.expr isFilter e) := by
  induction e using Expr.induction_parts with
  | h e ih =>
    obtain ⟨x, hx, hholds⟩ := h.exists_onLine_of_parts he fun d hd => ih d hd (hparts e he d hd)
    rw [hx]
    exact h.onLine he hholds

/-- It holds of what an expression emits on its line. -/
theorem exists_onLine {e : Expr} (he : ok e) :
    ∃ x, Emission.expr isFilter e = Emission.onLine e.line x ∧ P x :=
  h.exists_onLine_of_parts he fun d hd => h.expr hparts d (hparts e he d hd)

/-- It holds of the code of expressions one after the other. -/
theorem exprs {es : List Expr} (hes : ∀ e ∈ es, ok e) : P (Emission.exprs isFilter es) :=
  h.exprs_of_forall fun e he => h.expr hparts e (hes e he)

/-- It holds of the code of a filter chain. -/
theorem filterChain {filters : List FilterCall} (hfilters : ∀ f ∈ filters, ok f.asExpr) :
    P (Emission.filterChain isFilter filters) := by
  induction filters with
  | nil => exact h.nothing
  | cons f rest ih =>
    obtain ⟨hf, hrest⟩ := List.forall_mem_cons.mp hfilters
    have hargs := h.exprs hparts fun e he => hparts _ hf e (List.mem_cons_of_mem _ he)
    have hchain := h.onLine hf (h.andThen hargs (h.andThen (h.own hf rfl) (ih hrest)))
    simpa only [Emission.filterChain, Emission.onLine, Emission.andThen, Emission.own,
      FilterCall.asExpr, Expr.line, Expr.span, bind_assoc, pure_bind, List.append_assoc]
      using hchain

/-- It holds of the code of an output point. -/
theorem output {subject : Expr} {filters : List FilterCall} (hsubject : ok subject)
    (hfilters : ∀ f ∈ filters, ok f.asExpr) : P (Emission.output isFilter subject filters) := by
  have houtput := h.andThen (h.expr hparts subject hsubject)
    (h.andThen (h.filterChain hparts hfilters) h.emit)
  simpa only [Emission.output, Emission.andThen, bind_assoc, pure_bind, List.append_assoc]
    using houtput

end Compositional

/-! ## Constructions -/

/-- Every constant in the arguments of a tag has a property. -/
def ArgsLoad (C : Value → Prop) (args : List TagArg) : Prop :=
  ∀ e, TagArg.expr e ∈ args → e.Loads C

/-- Nothing may be asked of the constants in arguments. -/
theorem argsLoad_true (args : List TagArg) : ArgsLoad (fun _ => True) args :=
  fun e _ => e.loads_true

/-- The constants of arguments that are all expressions. -/
theorem allLoad_of_args {es : List Expr} (hargs : ArgsLoad C (es.map TagArg.expr)) :
    Expr.AllLoad C es := by
  induction es with
  | nil => trivial
  | cons e rest ih =>
    exact ⟨hargs e List.mem_cons_self, ih fun e' he' => hargs e' (List.mem_cons_of_mem _ he')⟩

/-- Arguments that are all expressions are these expressions. -/
theorem eq_map_of_mapM_asExpr? {args : List TagArg} {es : List Expr}
    (h : args.mapM TagArg.asExpr? = some es) : args = es.map TagArg.expr := by
  induction args generalizing es with
  | nil =>
    obtain rfl : [] = es := by simpa using h
    rfl
  | cons arg rest ih =>
    rw [List.mapM_cons] at h
    obtain ⟨e, he, h⟩ := Option.bind_eq_some_iff.mp h
    obtain ⟨es', hrest, h⟩ := Option.bind_eq_some_iff.mp h
    obtain rfl : e :: es' = es := Option.some.inj h
    cases arg with
    | expr e' => rw [List.map_cons, ← ih hrest, Option.some.inj he]
    | _ => simp [TagArg.asExpr?] at he

/-- Code for a true and for a false value, behind the jumps that choose between them. -/
def choosing (x y : Emission Fragment) : Emission Fragment := do
  let test ← reserve
  let yes ← x
  let skip ← reserve
  let onFalse ← here
  let no ← y
  return test (.jumpIfFalse onFalse) :: yes ++ skip (.jump (← here)) :: no

/-- The rounds of a loop, between its iteration and the way back to it. -/
def rounds (x : Emission Fragment) : Emission Fragment := do
  let start ← here
  let iterate ← reserve
  let code ← x
  let back ← op (.jump start)
  let stop ← here
  return iterate (.iterate stop) :: code ++ back

/-- A fault has nothing behind it. -/
theorem badArguments_bind (name : String) (f : Fragment → Emission Fragment) :
    badArguments name >>= f = badArguments name := rfl

/-- The code of a loop. -/
theorem loop_eq {args : List TagArg} {body : Emission Fragment}
    {other? : Option (Emission Fragment)} {subject : Expr} {targets : Emission Fragment}
    (hsubject : args.getLast? = some (.expr subject))
    (htargets : loopTargets? args.dropLast = some targets) :
    loop isFilter args body other? =
      andThen (expr isFilter subject) (andThen (op .pushLoop)
        (andThen (rounds (andThen targets body))
          (match other? with
            | none => op .popFrame
            | some other => andThen (op .pushDidNotIterate) (andThen (op .popFrame)
                (skipping .jumpIfFalse other))))) := by
  cases other? <;>
    simp only [loop, hsubject, htargets, andThen, rounds, skipping, bind_assoc, pure_bind,
      List.append_assoc, List.cons_append]

/-- The code of a filter that is applied to collected output. -/
theorem filtered_eq {name : String} {params : List TagArg} {body : Emission Fragment} :
    filtered isFilter (.ident name :: params) body =
      andThen (op .beginCapture) (andThen body (andThen (op .endCapture)
        (match params.mapM TagArg.asExpr? with
          | none => badArguments "filter"
          | some es =>
            andThen (exprs isFilter es) (andThen (applyFilter isFilter name params.length)
              (andThen (op (.loadConst (.bool false))) (andThen (op .pushAutoEscape)
                (andThen (op .emit) (op .popAutoEscape)))))))) := by
  cases h : params.mapM TagArg.asExpr? <;>
    simp only [filtered, h, andThen, bind_assoc, pure_bind, List.append_assoc, badArguments_bind,
      List.length_cons, Nat.add_sub_cancel]

/-- A relation between emissions of code that is kept by all the ways in which code is put
together, as long as the constants that are loaded have a property. -/
structure Congruence (isFilter : String → Bool) (C : Value → Prop)
    (R : Emission Fragment → Emission Fragment → Prop) : Prop where
  nothing : R (pure []) (pure [])
  andThen : ∀ {x x' y y'}, R x x' → R y y' → R (andThen x y) (andThen x' y')
  onLine : ∀ {x x'} line, R x x' → R (onLine line x) (onLine line x')
  op : ∀ {i : Instruction}, (∀ pc, i.successors pc = [pc + 1]) → i.Loads C → R (op i) (op i)
  applyFilter : ∀ name args,
    R (applyFilter isFilter name args) (applyFilter isFilter name args)
  skipping : ∀ {jump x x'}, Instruction.IsConditional jump → R x x' →
    R (skipping jump x) (skipping jump x')
  choosing : ∀ {x x' y y'}, R x x' → R y y' → R (choosing x y) (choosing x' y')
  rounds : ∀ {x x'}, R x x' → R (rounds x) (rounds x')
  badArguments : ∀ name, R (badArguments name) (badArguments name)

namespace Congruence

variable {C : Value → Prop} {R : Emission Fragment → Emission Fragment → Prop}
  (h : Congruence isFilter C R) {args : List TagArg} {body body' : Emission Fragment}

include h

/-- Every expression, and what is put together of expressions, is related to itself. -/
theorem compositional : Compositional isFilter (Expr.Loads C) fun x => R x x where
  nothing := h.nothing
  andThen := h.andThen
  onLine _ hx := h.onLine _ hx
  skipping := h.skipping
  emit := h.op (fun _ => rfl) trivial
  own {e} he hshortcut := by
    cases e with
    | const value span => exact h.op (fun _ => rfl) he
    | filter name subject args span => exact h.applyFilter name args.length
    | unary o operand span => cases o <;> exact h.op (fun _ => rfl) trivial
    | binary o left right span =>
      cases o <;> first
        | exact h.op (fun _ => rfl) trivial
        | cases hshortcut
    | _ => exact h.op (fun _ => rfl) trivial

/-- Expressions. -/
theorem expr {e : Expr} (he : e.Loads C) : R (expr isFilter e) (expr isFilter e) :=
  h.compositional.expr (fun _ he => (Expr.loads_iff.mp he).2) e he

/-- Expressions one after the other. -/
theorem exprs {es : List Expr} (hes : Expr.AllLoad C es) :
    R (exprs isFilter es) (exprs isFilter es) :=
  h.compositional.exprs (fun _ he => (Expr.loads_iff.mp he).2) (Expr.allLoad_iff.mp hes)

/-- Output points. -/
theorem output {subject : Expr} {filters : List FilterCall} (hsubject : subject.Loads C)
    (hfilters : ∀ f ∈ filters, Expr.AllLoad C f.args) :
    R (output isFilter subject filters) (output isFilter subject filters) :=
  h.compositional.output (fun _ he => (Expr.loads_iff.mp he).2) hsubject fun f hf =>
    ⟨trivial, hfilters f hf⟩

/-- Plans of added tags, around bodies and branches that are related. -/
theorem plan (hC : ∀ v, C v) (hbody : R body body') {branch branch' : Nat → Emission Fragment}
    (hbranch : ∀ index, R (branch index) (branch' index)) : ∀ steps : List TagStep,
      R (plan isFilter body branch steps) (plan isFilter body' branch' steps)
  | [] => by
    rw [Emission.plan, Emission.plan]
    exact h.nothing
  | step :: rest => by
    have hrest := plan hC hbody hbranch rest
    cases step with
    | raw text =>
      rw [Emission.plan, Emission.plan]
      split
      · exact h.andThen h.nothing hrest
      · exact h.andThen (h.op (fun _ => rfl) trivial) hrest
    | expr e =>
      rw [Emission.plan, Emission.plan]
      exact h.andThen (h.expr (Expr.loads_of_forall hC e)) hrest
    | constant v =>
      rw [Emission.plan, Emission.plan]
      exact h.andThen (h.op (fun _ => rfl) (hC v)) hrest
    | filter name args =>
      rw [Emission.plan, Emission.plan]
      exact h.andThen (h.applyFilter name args) hrest
    | body =>
      rw [Emission.plan, Emission.plan]
      exact h.andThen hbody hrest
    | branch index =>
      rw [Emission.plan, Emission.plan]
      exact h.andThen (hbranch index) hrest
    | choose ifTrue ifFalse =>
      have hchoice := h.andThen
        (h.choosing (plan hC hbody hbranch ifTrue) (plan hC hbody hbranch ifFalse)) hrest
      simpa only [Emission.plan, Emission.andThen, Emission.choosing, bind_assoc, pure_bind]
        using hchoice
    | _ =>
      rw [Emission.plan, Emission.plan]
      exact h.andThen (h.op (fun _ => rfl) trivial) hrest

/-- The loop variables. -/
theorem loopTargets {targets : Emission Fragment} (htargets : loopTargets? args = some targets) :
    R targets targets := by
  have hstore (name : String) :
      R (Emission.op (.storeLocal name)) (Emission.op (.storeLocal name)) :=
    h.op (fun _ => rfl) trivial
  unfold loopTargets? at htargets
  split at htargets
  · obtain rfl := Option.some.inj htargets
    exact h.andThen (hstore _) (h.op (fun _ => rfl) trivial)
  · obtain rfl := Option.some.inj htargets
    exact h.andThen (hstore _) (hstore _)
  · cases htargets

/-- Loops, around bodies that are related, with or without code for nothing to visit. -/
theorem loop (hargs : ArgsLoad C args) (hbody : R body body')
    {other? other?' : Option (Emission Fragment)} (hother : Option.Rel R other? other?') :
    R (loop isFilter args body other?) (loop isFilter args body' other?') := by
  cases hlast : args.getLast? with
  | none => simpa [Emission.loop, hlast] using h.badArguments "for"
  | some arg =>
    cases arg with
    | expr subject =>
      cases htargets : loopTargets? args.dropLast with
      | none => simpa [Emission.loop, hlast, htargets] using h.badArguments "for"
      | some targets =>
        rw [loop_eq hlast htargets, loop_eq hlast htargets]
        have hsubject := h.expr (hargs subject (List.mem_of_getLast? hlast))
        refine h.andThen hsubject (h.andThen (h.op (fun _ => rfl) trivial)
          (h.andThen (h.rounds (h.andThen (h.loopTargets htargets) hbody)) ?_))
        cases hother with
        | none => exact h.op (fun _ => rfl) trivial
        | some hother =>
          exact h.andThen (h.op (fun _ => rfl) trivial) (h.andThen (h.op (fun _ => rfl) trivial)
            (h.skipping .ifFalse hother))
    | _ => simpa [Emission.loop, hlast] using h.badArguments "for"

/-- Assignments. -/
theorem assignment (hargs : ArgsLoad C args) :
    R (assignment isFilter args) (assignment isFilter args) := by
  unfold Emission.assignment
  split
  · exact h.andThen (h.expr (hargs _ (by simp))) (h.op (fun _ => rfl) trivial)
  · exact h.badArguments _

/-- Filters that are applied to collected output that is related. -/
theorem filtered (hargs : ArgsLoad C args) (hfalse : C (.bool false)) (hbody : R body body') :
    R (filtered isFilter args body) (filtered isFilter args body') := by
  cases args with
  | nil => exact h.badArguments _
  | cons arg params =>
    cases arg with
    | ident name =>
      rw [filtered_eq, filtered_eq]
      refine h.andThen (h.op (fun _ => rfl) trivial) (h.andThen hbody
        (h.andThen (h.op (fun _ => rfl) trivial) ?_))
      cases hparams : params.mapM TagArg.asExpr? with
      | none => exact h.badArguments _
      | some es =>
        obtain rfl := eq_map_of_mapM_asExpr? hparams
        have hes := allLoad_of_args fun e he => hargs e (List.mem_cons_of_mem _ he)
        refine h.andThen (h.exprs hes) (h.andThen (h.applyFilter _ _)
          (h.andThen (h.op (fun _ => rfl) hfalse) (h.andThen (h.op (fun _ => rfl) trivial) ?_)))
        exact h.andThen (h.op (fun _ => rfl) trivial) (h.op (fun _ => rfl) trivial)
    | _ => exact h.badArguments _

/-- Output that is related, with escaping turned on or off. -/
theorem escaping (hmode : ∀ mode : Bool, C (.bool mode)) (hbody : R body body') :
    R (escaping args body) (escaping args body') := by
  unfold Emission.escaping
  cases (args.head?.bind TagArg.asExpr?).bind Expr.asConst? with
  | none => exact h.badArguments _
  | some v =>
    have hcode := h.andThen (h.op (i := .loadConst (.bool (turnsOn v))) (fun _ => rfl) (hmode _))
      (h.andThen (h.op (i := .pushAutoEscape) (fun _ => rfl) trivial)
        (h.andThen hbody (h.op (i := .popAutoEscape) (fun _ => rfl) trivial)))
    simpa only [Emission.andThen, bind_assoc, pure_bind, List.append_assoc] using hcode

end Congruence

/-! A property of emissions is a relation that looks at one side only. -/

namespace Congruence

variable {C : Value → Prop} {P : Emission Fragment → Prop}
  (h : Congruence isFilter C fun x _ => P x) {args : List TagArg} {body : Emission Fragment}

include h

/-- It holds of plans of added tags if it holds of their bodies and branches. -/
theorem holds_plan (hC : ∀ v, C v) (hbody : P body) {branch : Nat → Emission Fragment}
    (hbranch : ∀ index, P (branch index)) (steps : List TagStep) :
    P (Emission.plan isFilter body branch steps) :=
  @plan isFilter C _ h body body hC hbody branch branch hbranch steps

/-- It holds of loops if it holds of what they enclose. -/
theorem holds_loop (hargs : ArgsLoad C args) (hbody : P body) {other? : Option (Emission Fragment)}
    (hother : ∀ other ∈ other?, P other) : P (Emission.loop isFilter args body other?) := by
  refine @loop isFilter C _ h args body body hargs hbody other? other? ?_
  cases other? with
  | none => exact .none
  | some other => exact .some (hother other rfl)

/-- It holds of filters that are applied to collected output if it holds of what they enclose. -/
theorem holds_filtered (hargs : ArgsLoad C args) (hfalse : C (.bool false)) (hbody : P body) :
    P (Emission.filtered isFilter args body) :=
  @filtered isFilter C _ h args body body hargs hfalse hbody

/-- It holds of output with escaping turned on or off if it holds of what is output. -/
theorem holds_escaping (hmode : ∀ mode : Bool, C (.bool mode)) (hbody : P body) :
    P (Emission.escaping args body) :=
  @escaping isFilter C _ h args body body hmode hbody

end Congruence

end Emission

end Templating
