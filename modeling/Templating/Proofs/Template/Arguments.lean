import Templating.Proofs.Template.Limits

/-!
# Arguments of tags

The readers of arguments get the reader of expressions handed in. They hand on what it reads: if
one reader of expressions refuses to nest deeper or does what another one does, so do the readers
of arguments over them, and the expressions among the arguments are those that were read.
-/

namespace Templating

/-- The expressions among arguments have a property. -/
def TagArg.Each (Q : Expr → Prop) (args : List TagArg) : Prop := ∀ e, .expr e ∈ args → Q e

/-- Arguments are read by handing on what the reader of expressions does. -/
structure TagShape.HandsOn (shape : TagShape) (Q : Expr → Prop) : Prop where
  arguments : ∀ {expr expr' : Parser Expr}, expr.Within expr' Q →
    (shape.arguments expr).Within (shape.arguments expr') (TagArg.Each Q)
  labelArguments : ∀ {expr expr' : Parser Expr} (label : String), expr.Within expr' Q →
    (shape.labelArguments label expr).Within (shape.labelArguments label expr') (TagArg.Each Q)

namespace Parser

open TagArg (Each)

variable {α : Type} {Q : Expr → Prop} {expr expr' : Parser Expr}

/-- Reading tokens that are no expressions. -/
theorem each_within {p : Parser α} {args : α → List TagArg} (h : ∀ a, ∀ e, .expr e ∉ args a) :
    Within (do return args (← p)) (do return args (← p)) (Each Q) :=
  .behind fun a => .pure fun e he => absurd he (h a e)

/-- Items up to a closing parenthesis. -/
theorem strictList_within {R : α → Prop} {item item' : Parser α} (hitem : item.Within item' R) :
    (BuiltinTag.strictList item).Within (BuiltinTag.strictList item')
      fun items => ∀ a ∈ items, R a := by
  refine .collect fun items hitems => .behind fun closed => ?_
  cases closed with
  | true => exact .pure hitems
  | false =>
    simp only [Bool.false_eq_true, if_false]
    cases items with
    | nil => exact hitem.more hitems
    | cons a items => exact .behind fun _ => hitem.more hitems


/-- An expression alone. -/
theorem oneExpression_within (h : expr.Within expr' Q) :
    (BuiltinTag.oneExpression expr).Within (BuiltinTag.oneExpression expr') (Each Q) :=
  h.bind fun e he => .pure (by simpa [Each] using he)

/-- What is iterated by a loop. -/
theorem loopArguments_within (h : expr.Within expr' Q) :
    (BuiltinTag.loopArguments expr).Within (BuiltinTag.loopArguments expr') (Each Q) := by
  have hloop {targets : Parser (List TagArg)} (htargets : targets.Gives (Each Q)) : Within
      (do
        let targets ← targets
        expectWord "in"
        let subject ← expr
        return targets ++ [.expr subject])
      (do
        let targets ← targets
        expectWord "in"
        let subject ← expr'
        return targets ++ [.expr subject]) (Each Q) :=
    htargets.within.bind fun targets htargets => .behind fun _ => h.bind fun subject hsubject =>
      .pure fun e he => (List.mem_append.mp he).elim (htargets e) fun he => by
        obtain rfl := TagArg.expr.inj (List.mem_singleton.mp he)
        exact hsubject
  refine .behind fun first => .behind fun both => ?_
  cases both with
  | true =>
    exact .behind fun second => hloop (Within.gives (.pure (by simp [Each])))
  | false => exact hloop (Within.gives (.pure (by simp [Each])))

/-- The options of an inclusion. -/
theorem includeArguments_within (h : expr.Within expr' Q) :
    (BuiltinTag.includeArguments expr).Within (BuiltinTag.includeArguments expr') (Each Q) := by
  refine .behind fun name => Within.bind (R := Each Q) ?_ fun options hoptions =>
    .pure (by simpa [Each] using hoptions)
  refine Within.iterate (I := Each Q) (by simp [Each]) fun options hoptions =>
    .behind fun given => ?_
  have hflag (name : String) : Each Q (.flag name :: options) := by simpa [Each] using hoptions
  cases given with
  | true =>
    refine h.bind fun e he => .pure fun e' he' => ?_
    rcases List.mem_cons.mp he' with he' | he'
    · exact TagArg.expr.inj he' ▸ he
    · exact hoptions e' he'
  | false =>
    refine .behind fun only => ?_
    cases only with
    | true => exact .pure (hflag _)
    | false =>
      refine .behind fun ignore => ?_
      cases ignore with
      | true => exact .behind fun _ => .pure (hflag _)
      | false => exact .pure hoptions

/-- The arguments of a filter. -/
theorem filterArguments_within (h : expr.Within expr' Q) :
    (BuiltinTag.filterArguments expr).Within (BuiltinTag.filterArguments expr') (Each Q) := by
  refine .behind fun name => .behind fun hasArgs => ?_
  cases hasArgs with
  | true =>
    exact (strictList_within h).bind fun args hargs => .pure (by simpa [Each] using hargs)
  | false => exact .pure (by simp [Each])

/-- A constant. -/
theorem autoescapeArguments_within (h : expr.Within expr' Q) :
    (BuiltinTag.autoescapeArguments expr).Within (BuiltinTag.autoescapeArguments expr')
      (Each Q) := by
  refine .behind fun line => h.bind fun e he => ?_
  cases e.asConst? with
  | some v => exact .pure (by simpa [Each] using he)
  | none => exact .fail _

/-- Built-in tags hand on what the reader of expressions does. -/
theorem builtin_handsOn (Q : Expr → Prop) (tag : BuiltinTag) : tag.shape.HandsOn Q := by
  have hnone : Within (do expectTagEnd; return []) (do expectTagEnd; return []) (Each Q) :=
    .behind fun _ => .pure (by simp [Each])
  constructor
  · intro expr expr' h
    cases tag with
    | inherit => exact each_within (by simp)
    | block => exact each_within (by simp)
    | parent => exact .pure (by simp [Each])
    | cond => exact oneExpression_within h
    | loop => exact loopArguments_within h
    | assign =>
      exact .behind fun name => .behind fun _ => h.bind fun e he =>
        .pure (by simpa [Each] using he)
    | insert => exact includeArguments_within h
    | importMacros =>
      exact .behind fun name => .behind fun _ => .behind fun scope => .pure (by simp [Each])
    | defineMacro =>
      exact .behind fun name => .behind fun _ => .behind fun params => .pure (by simp [Each])
    | filter => exact filterArguments_within h
    | escaping => exact autoescapeArguments_within h
  · intro expr expr' label h
    cases tag with
    | cond =>
      simp only [BuiltinTag.shape]
      split
      · exact hnone
      · exact oneExpression_within h
    | _ => exact hnone

end Parser

end Templating
