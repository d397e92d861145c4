import Templating.Program.Expression
import Templating.Template.Reading

/-!
# Filter chains and filter expressions

An output point keeps the filters around its expression as a chain, whose code is emitted by going
along the chain. Inside of expressions the code of a filter is emitted by recursion, after the code
of what it is applied to. Both emit the same instructions, from other lines at most, and enter the
same filters into the table, or both fail with an error of the same kind.
-/

namespace Templating

/-- The instruction from the same file, without its line. -/
def Placed.unlined (p : Placed) : Placed := { p with line := 0 }

/-- The state without its line. -/
def EmissionState.unlined (s : EmissionState) : EmissionState := { s with line := 0 }

/-- States that differ in the line only are the same once one gets the line of the other. -/
theorem EmissionState.eq_of_unlined {s t : EmissionState} (h : s.unlined = t.unlined) :
    t = { s with line := t.line } :=
  (congrArg (fun u : EmissionState => { u with line := t.line }) h).symm

/-- Pieces of code that differ in lines only. -/
def Fragment.SameButLines (code code' : Fragment) : Prop :=
  code.map Placed.unlined = code'.map Placed.unlined

/-- Code behind the same code is the same. -/
theorem Fragment.SameButLines.append {first second first' second' : Fragment}
    (h : first.SameButLines first') (h' : second.SameButLines second') :
    SameButLines (first ++ second) (first' ++ second') := by
  rw [SameButLines, List.map_append, List.map_append, h, h']

namespace Emission

open Fragment (SameButLines)

variable {α β γ δ : Type} {R : α → β → Prop} {Q : γ → δ → Prop} {isFilter : String → Bool}

/-- Two successes with related results, in states that differ in the line only, or two errors of the
same kind. -/
inductive AgreeButLines (R : α → β → Prop) :
    Result (α × EmissionState) → Result (β × EmissionState) → Prop
  | ok {a : α} {b : β} {s t : EmissionState} : R a b → s.unlined = t.unlined →
    AgreeButLines R (.ok (a, s)) (.ok (b, t))
  | error {e e' : Error} : e.kind = e'.kind → AgreeButLines R (.error e) (.error e')

/-- From states that differ in the line only, the two actions end alike but for lines. -/
def Coincides (R : α → β → Prop) (x : Emission α) (y : Emission β) : Prop :=
  ∀ ⦃s t : EmissionState⦄, s.unlined = t.unlined → AgreeButLines R (x s) (y t)

/-- Once the line is set it does not matter what it was. -/
theorem setLine_bind_eq {line : Nat} {f : Unit → Emission α} {s t : EmissionState}
    (h : s.unlined = t.unlined) : (setLine line >>= f) s = (setLine line >>= f) t := by
  have hset : ({ s with line := line } : EmissionState) = { t with line := line } :=
    congrArg (fun u : EmissionState => { u with line := line }) h
  change f () { s with line := line } = f () { t with line := line }
  rw [hset]

namespace Coincides

/-- Returning. -/
theorem pure {a : α} {b : β} (h : R a b) : Coincides R (pure a) (pure b) :=
  fun _ _ hst => .ok h hst

/-- One action after the other. -/
theorem bind {x : Emission α} {y : Emission β} {f : α → Emission γ} {g : β → Emission δ}
    (hxy : Coincides R x y) (hfg : ∀ a b, R a b → Coincides Q (f a) (g b)) :
    Coincides Q (x >>= f) (y >>= g) := by
  intro s t hst
  change AgreeButLines Q (x s >>= fun p => f p.1 p.2) (y t >>= fun p => g p.1 p.2)
  have hagree := hxy hst
  generalize x s = r, y t = r' at hagree
  cases hagree with
  | ok hab hst' => exact hfg _ _ hab hst'
  | error hkind => exact .error hkind

/-- An action that ends in the same way whatever the line was. -/
theorem of_eq {x : Emission Fragment}
    (h : ∀ {s t : EmissionState}, s.unlined = t.unlined → x s = x t) :
    Coincides SameButLines x x := by
  intro s t hst
  rw [h hst]
  cases x t with
  | ok p => exact .ok rfl rfl
  | error e => exact .error rfl

/-- What coincides with something that coincides with a third action. -/
theorem trans {x y z : Emission Fragment} (hxy : Coincides SameButLines x y)
    (hyz : Coincides SameButLines y z) : Coincides SameButLines x z := by
  intro s t hst
  have hfirst := hxy (Eq.refl s.unlined)
  have hsecond := hyz hst
  generalize x s = r, y s = r', z t = r'' at hfirst hsecond
  cases hfirst with
  | ok hcode hstate => cases hsecond with
    | ok hcode' hstate' => exact .ok (hcode.trans hcode') (hstate.trans hstate')
  | error hkind => cases hsecond with
    | error hkind' => exact .error (hkind.trans hkind')

/-- Setting the line first makes no difference. -/
theorem setLine_left {line : Nat} {x : Emission α} {y : Emission β} (h : Coincides R x y) :
    Coincides R (setLine line >>= fun _ => x) y := fun _ _ hst => h hst

/-- Setting the line first makes no difference. -/
theorem setLine_right {line : Nat} {x : Emission α} {y : Emission β} (h : Coincides R x y) :
    Coincides R x (setLine line >>= fun _ => y) := fun _ _ hst => h hst

/-- Emitting an instruction. -/
theorem op (i : Instruction) : Coincides SameButLines (op i) (op i) := by
  intro s t hst
  rw [EmissionState.eq_of_unlined hst]
  exact .ok rfl rfl

/-- Applying a filter. -/
theorem applyFilter (name : String) (args : Nat) :
    Coincides SameButLines (applyFilter isFilter name args) (applyFilter isFilter name args) := by
  intro s t hst
  rw [EmissionState.eq_of_unlined hst]
  unfold Emission.applyFilter
  cases isFilter name with
  | true => exact .ok rfl rfl
  | false => exact .error rfl

/-- An expression. -/
theorem expr (e : Expr) : Coincides SameButLines (expr isFilter e) (expr isFilter e) := by
  refine of_eq fun h => ?_
  cases e <;> rw [Emission.expr] <;> exact setLine_bind_eq h

/-- Expressions one after the other. -/
theorem exprs (es : List Expr) :
    Coincides SameButLines (exprs isFilter es) (exprs isFilter es) := by
  induction es with
  | nil => rw [Emission.exprs]; exact .pure rfl
  | cons e rest ih =>
    rw [Emission.exprs]
    exact (expr e).bind fun _ _ hfirst => ih.bind fun _ _ hrest => .pure (hfirst.append hrest)

/-- A filter chain. -/
theorem filterChain (filters : List FilterCall) :
    Coincides SameButLines (filterChain isFilter filters) (filterChain isFilter filters) := by
  cases filters with
  | nil => exact .pure rfl
  | cons f rest => exact of_eq fun h => setLine_bind_eq h

end Coincides

/-- The code of an expression and of a filter chain behind it. -/
def chained (isFilter : String → Bool) (subject : Expr) (filters : List FilterCall) :
    Emission Fragment := do
  let first ← expr isFilter subject
  let second ← filterChain isFilter filters
  return first ++ second

/-- A filter may be taken out of the expression and put in front of the chain. -/
theorem chained_filter (name : String) (subject : Expr) (args : List Expr) (span : Span)
    (filters : List FilterCall) :
    Coincides SameButLines (chained isFilter (.filter name subject args span) filters)
      (chained isFilter subject (⟨name, args, span⟩ :: filters)) := by
  simp only [chained, expr, filterChain, bind_assoc, pure_bind]
  -- the line of the filter is set in front of the subject on the one side and behind it on the other
  refine .setLine_left ((Coincides.expr subject).bind fun _ _ hsubject => .setLine_right ?_)
  refine (Coincides.exprs args).bind fun _ _ hargs => ?_
  refine (Coincides.applyFilter name args.length).bind fun _ _ hcall => ?_
  refine (Coincides.filterChain filters).bind fun _ _ hchain => .pure ?_
  simpa only [List.append_assoc] using hsubject.append (hargs.append (hcall.append hchain))

/-- An expression with a chain behind it. -/
theorem Coincides.chained (e : Expr) (filters : List FilterCall) :
    Coincides SameButLines (chained isFilter e filters) (chained isFilter e filters) :=
  (Coincides.expr e).bind fun _ _ hfirst =>
    (Coincides.filterChain filters).bind fun _ _ hsecond => .pure (hfirst.append hsecond)

/-- All filters may be taken out of the expression. -/
theorem chained_unchain : ∀ (filters : List FilterCall) (e : Expr),
    Coincides SameButLines (chained isFilter e filters)
      (chained isFilter (Parser.unchain filters e).1 (Parser.unchain filters e).2)
  | filters, .filter name subject args span =>
    (chained_filter name subject args span filters).trans
      (chained_unchain (⟨name, args, span⟩ :: filters) subject)
  | filters, .var .. | filters, .const .. | filters, .unary .. | filters, .binary ..
  | filters, .attr .. | filters, .item .. | filters, .call .. | filters, .list ..
  | filters, .map .. => .chained _ filters

/-- Emitting an expression as it stands and an output instruction comes to the same, but for lines,
as taking the filters around it out into a chain and emitting the output point: the same
instructions and the same tables, or errors of the same kind. -/
theorem output_unchain (isFilter : String → Bool) (e : Expr) (s : EmissionState) :
    AgreeButLines SameButLines
      ((do return (← expr isFilter e) ++ (← op .emit) : Emission Fragment) s)
      (output isFilter (Parser.unchain [] e).1 (Parser.unchain [] e).2 s) := by
  have hwhole : (do return (← expr isFilter e) ++ (← op .emit) : Emission Fragment) =
      (do return (← chained isFilter e []) ++ (← op .emit)) := by
    simp only [chained, filterChain, bind_assoc, pure_bind, List.append_nil]
  have hsplit (subject : Expr) (filters : List FilterCall) : output isFilter subject filters =
      (do return (← chained isFilter subject filters) ++ (← op .emit)) := by
    simp only [chained, output, bind_assoc, pure_bind]
  rw [hwhole, hsplit]
  have hchains : Coincides SameButLines (chained isFilter e []) _ := chained_unchain [] e
  have hpoints := hchains.bind fun _ _ hcode => (Coincides.op .emit).bind fun _ _ hemit =>
    .pure (hcode.append hemit)
  exact hpoints rfl

end Emission

end Templating
