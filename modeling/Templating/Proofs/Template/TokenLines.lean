import Templating.Proofs.Template.Arguments
import Templating.Proofs.Template.Contracts
import Templating.Proofs.Template.Parsing
import Templating.Proofs.Template.StartLines

/-!
# Lines of parsed templates

Whatever is read from the tokens of a source starts on a line of one of them. Along the grammar, the
contracts of the parsers say this of expressions, arguments and nodes, and that the tokens explain
the error if something is rejected.
-/

namespace Templating

open Lexer (Lexed)

namespace Parser

variable {lexed : Lexed} {α : Type} {Q : α → Prop} (hlexed : lexed.Regular)

/-- The expression and those inside of it start on lines of tokens. -/
def OnLines (lexed : Lexed) (e : Expr) : Prop := ∀ line ∈ e.lines, lexed.HasLine line

/-- All expressions of a list start on lines of tokens. -/
theorem forall_onLines {es : List Expr} :
    (∀ e ∈ es, OnLines lexed e) ↔ ∀ line ∈ Expr.linesOfAll es, lexed.HasLine line := by
  induction es with
  | nil => simp [Expr.linesOfAll]
  | cons e rest ih =>
    rw [List.forall_mem_cons, ih, Expr.linesOfAll, List.forall_mem_append]
    rfl

/-- All entries of a map literal start on lines of tokens. -/
theorem forall_entry_onLines {entries : List (Expr × Expr)} :
    (∀ entry ∈ entries, OnLines lexed entry.1 ∧ OnLines lexed entry.2) ↔
      ∀ line ∈ Expr.linesOfEntries entries, lexed.HasLine line := by
  induction entries with
  | nil => simp [Expr.linesOfEntries]
  | cons entry rest ih =>
    rw [List.forall_mem_cons, ih, Expr.linesOfEntries, List.forall_mem_append,
      List.forall_mem_append]
    rfl

section Lists

variable {item : Parser α}

/-- Collecting items by a step that keeps their property, the last one first. -/
theorem collect_tracks {step : List α → Parser (List α ⊕ List α)}
    (hstep : ∀ items, (∀ a ∈ items, Q a) → Tracks lexed (step items)
      (Sum.elim (fun items => ∀ a ∈ items, Q a) fun items => ∀ a ∈ items, Q a)) :
    Tracks lexed (do return (← Parser.iterate step []).reverse) fun items => ∀ a ∈ items, Q a :=
  (Tracks.iterate (by simp) hstep).bind fun _ hitems =>
    .pure fun a ha => hitems a (List.mem_reverse.mp ha)

/-- One more item in front of those that were read. -/
theorem more_tracks (hitem : Tracks lexed item Q) {items : List α} (hitems : ∀ a ∈ items, Q a) :
    Tracks lexed (do return .inl ((← item) :: items) : Parser (List α ⊕ List α))
      (Sum.elim (fun items => ∀ a ∈ items, Q a) fun items => ∀ a ∈ items, Q a) :=
  hitem.bind fun _ ha => .pure (List.forall_mem_cons.mpr ⟨ha, hitems⟩)

include hlexed

/-- Items separated by commas. -/
theorem commaList_tracks {closes : Token → Bool} (htag : closes .tagEnd = false)
    (houtput : closes .outputEnd = false) (hitem : Tracks lexed item Q) :
    Tracks lexed (commaList closes item) fun items => ∀ a ∈ items, Q a := by
  refine collect_tracks fun items hitems =>
    (skipIf_tracks hlexed htag houtput).bind fun closed _ => ?_
  cases closed with
  | true => exact .pure hitems
  | false =>
    simp only [Bool.false_eq_true, if_false]
    cases items with
    | nil => exact hitem.bind fun a ha => .pure (by simpa using ha)
    | cons a items =>
      refine (expect_tracks hlexed rfl rfl).bind fun _ _ => ?_
      refine (skipIf_tracks hlexed htag houtput).bind fun closed _ => ?_
      cases closed with
      | true => exact .pure hitems
      | false => exact more_tracks hitem hitems

end Lists
section Expressions

open TokenStream (Behind Inside Facing)

variable {operand primary expr below : Parser Expr}

/-- An expression starts on a line of a token, and so do its parts. -/
theorem onLines_binary {op : BinaryOp} {left right : Expr} {span : Span}
    (hleft : OnLines lexed left) (hright : OnLines lexed right)
    (hspan : lexed.HasLine span.start.line) : OnLines lexed (.binary op left right span) :=
  List.forall_mem_cons.mpr ⟨hspan, List.forall_mem_append.mpr ⟨hleft, hright⟩⟩

/-- Spans that began on lines of tokens still do. -/
theorem mapM_upToHere_tracks {spans : List Span}
    (h : ∀ span ∈ spans, lexed.HasLine span.start.line) :
    Tracks lexed (spans.mapM upToHere) fun spans =>
      ∀ span ∈ spans, lexed.HasLine span.start.line := by
  induction spans with
  | nil =>
    rw [List.mapM_nil]
    exact .pure (by simp)
  | cons span rest ih =>
    obtain ⟨hspan, hrest⟩ := List.forall_mem_cons.mp h
    rw [List.mapM_cons]
    exact (upToHere_tracks hspan).bind fun span hspan => (ih hrest).bind fun spans hspans =>
      .pure (List.forall_mem_cons.mpr ⟨hspan, hspans⟩)

include hlexed

/-- Operands joined by binary operators. -/
theorem leftChain_tracks {op? : Token → Option BinaryOp}
    (hop : ∀ {t op}, op? t = some op → t.isInside = true)
    (h : Tracks lexed operand (OnLines lexed)) :
    Tracks lexed (leftChain op? operand) (OnLines lexed) := by
  refine currentSpan_tracks.bind fun span hspan => h.bind fun first hfirst => ?_
  refine .iterate (I := OnLines lexed) hfirst fun left hleft => ?_
  refine peek?_bind hlexed fun t _ _ => ?_
  simp only [Option.bind_some]
  cases hfound : op? t.1 with
  | none =>
    refine Ensures.facing (Tracks.pure ?_)
    exact hleft
  | some op =>
    refine advance_bind (hop hfound) ?_
    exact h.bind fun right hright => (upToHere_tracks hspan).bind fun span hspan =>
      .pure (onLines_binary hleft hright hspan)

/-- Negations of an operand. -/
theorem negation_tracks (h : Tracks lexed operand (OnLines lexed)) :
    Tracks lexed (negation operand) (OnLines lexed) := by
  refine Tracks.bind
    (T := fun spans : List Span => ∀ span ∈ spans, lexed.HasLine span.start.line) ?_
    fun spans hspans => h.bind fun subject hsubject =>
      (mapM_upToHere_tracks hspans).bind fun spans hspans => .pure ?_
  · refine .iterate (I := fun spans : List Span => ∀ span ∈ spans, lexed.HasLine span.start.line)
      (by simp) fun spans hspans => currentSpan_tracks.bind fun span hspan => ?_
    refine (skipWord_tracks hlexed "not").bind fun passed _ => ?_
    cases passed with
    | true => exact .pure (List.forall_mem_cons.mpr ⟨hspan, hspans⟩)
    | false => exact .pure hspans
  · induction spans generalizing subject with
    | nil => exact hsubject
    | cons span spans ih =>
      obtain ⟨hspan, hspans⟩ := List.forall_mem_cons.mp hspans
      exact ih _ (List.forall_mem_cons.mpr ⟨hspan, hsubject⟩) hspans

/-- An operand of any of the operators. -/
theorem operators_tracks (h : Tracks lexed operand (OnLines lexed)) :
    Tracks lexed (operators operand) (OnLines lexed) := by
  refine leftChain_tracks hlexed ?_ <| leftChain_tracks hlexed ?_ <| negation_tracks hlexed <|
    leftChain_tracks hlexed ?_ <| leftChain_tracks hlexed ?_ <| leftChain_tracks hlexed ?_ <|
      leftChain_tracks hlexed ?_ h
  all_goals
    intro t op hop
    cases t with
    | data | outputEnd | tagEnd => cases hop
    | _ => rfl

/-- A prefix operator before an operand of the level below. -/
theorem prefixed_tracks (hbelow : Tracks lexed below (OnLines lexed))
    (h : Tracks lexed operand (OnLines lexed)) :
    Tracks lexed (prefixed below operand) (OnLines lexed) := by
  refine Tracks.bind (T := fun _ => True) (.iterate (I := fun _ => True) trivial fun _ _ => ?_)
    fun _ _ => currentSpan_tracks.bind fun span hspan => ?_
  · refine (skipIf_tracks hlexed rfl rfl).bind fun passed _ => ?_
    cases passed with
    | true => exact .pure trivial
    | false => exact .pure trivial
  · have hsigned (op : UnaryOp) : Tracks lexed
        (do let subject ← below; return .unary op subject (← upToHere span)) (OnLines lexed) :=
      hbelow.bind fun subject hsubject => (upToHere_tracks hspan).bind fun span hspan =>
        .pure (List.forall_mem_cons.mpr ⟨hspan, hsubject⟩)
    refine peek?_bind hlexed fun (token, at_) _ _ => ?_
    cases token with
    | minus => exact advance_bind rfl (hsigned .neg)
    | bang => exact advance_bind rfl (hsigned .not)
    | _ => exact h.facing

/-- Arguments in parentheses. -/
theorem arguments_tracks (h : Tracks lexed expr (OnLines lexed)) :
    Tracks lexed (arguments expr) fun args => ∀ a ∈ args, OnLines lexed a :=
  (expect_tracks hlexed rfl rfl).bind fun _ _ => commaList_tracks hlexed rfl rfl h

/-- Attributes, items and calls of an operand. -/
theorem postfixed_tracks (hprimary : Tracks lexed primary (OnLines lexed))
    (h : Tracks lexed expr (OnLines lexed)) :
    Tracks lexed (postfixed primary expr) (OnLines lexed) := by
  refine currentSpan_tracks.bind fun span hspan => hprimary.bind fun first hfirst => ?_
  refine .iterate (I := OnLines lexed) hfirst fun subject hsubject =>
    currentSpan_tracks.bind fun here hhere => peek?_bind hlexed fun (token, at_) _ _ => ?_
  cases token with
  | dot =>
    refine advance_bind rfl (require_bind hlexed fun (token, at_) _ hat => ?_)
    cases token with
    | ident name =>
      exact Ensures.behind ((upToHere_tracks hspan).bind fun span hspan =>
        .pure (List.forall_mem_cons.mpr ⟨hspan, hsubject⟩)) rfl
    | int index =>
      exact Ensures.behind ((upToHere_tracks hspan).bind fun span hspan =>
        .pure (List.forall_mem_cons.mpr ⟨hspan, List.forall_mem_append.mpr
          ⟨hsubject, List.forall_mem_singleton.mpr hat⟩⟩)) rfl
    | _ => exact reject_ensures hlexed
  | bracketOpen =>
    refine advance_bind rfl
      (h.bind fun key hkey => (expect_tracks hlexed rfl rfl).bind fun _ _ => ?_)
    exact (upToHere_tracks hspan).bind fun span hspan => .pure
      (List.forall_mem_cons.mpr ⟨hspan, List.forall_mem_append.mpr ⟨hsubject, hkey⟩⟩)
  | parenOpen =>
    refine Ensures.facing ((arguments_tracks hlexed h).bind fun args hargs => ?_)
    exact (upToHere_tracks hhere).bind fun span hspan => .pure
      (List.forall_mem_cons.mpr
        ⟨hspan, List.forall_mem_append.mpr ⟨hsubject, forall_onLines.mp hargs⟩⟩)
  | _ =>
    refine Ensures.facing (Tracks.pure ?_)
    exact hsubject

/-- Filters behind an operand. -/
theorem filtered_tracks {isFilter : String → Bool} (hoperand : Tracks lexed operand (OnLines lexed))
    (h : Tracks lexed expr (OnLines lexed)) :
    Tracks lexed (filtered isFilter operand expr) (OnLines lexed) := by
  refine currentSpan_tracks.bind fun span hspan => hoperand.bind fun first hfirst => ?_
  refine .iterate (I := OnLines lexed) hfirst fun subject hsubject =>
    (skipIf_tracks hlexed rfl rfl).bind fun piped _ => ?_
  have hfilter (name : String) {args : Parser (List Expr)}
      (hargs : Tracks lexed args fun args => ∀ a ∈ args, OnLines lexed a) : Tracks lexed
      (do return .inl (.filter name subject (← args) (← upToHere span)) : Parser (Expr ⊕ Expr))
      (Sum.elim (OnLines lexed) (OnLines lexed)) :=
    hargs.bind fun args hargs => (upToHere_tracks hspan).bind fun span hspan => .pure
      (List.forall_mem_cons.mpr
        ⟨hspan, List.forall_mem_append.mpr ⟨hsubject, forall_onLines.mp hargs⟩⟩)
  cases piped with
  | false => exact .pure hsubject
  | true =>
    simp only [if_true]
    refine require_bind hlexed fun (token, at_) _ _ => ?_
    cases token with
    | ident name =>
      refine Ensures.behind ?_ rfl
      refine Tracks.bind (T := fun _ => True) (.pure trivial) fun (name, at_) _ => ?_
      simp only
      cases isFilter name with
      | false => exact .fail rfl rfl
      | true =>
        simp only [if_true]
        refine peek?_bind hlexed fun (token, at_) _ _ => Ensures.facing ?_
        refine Tracks.bind (T := fun _ => True) (.pure trivial) fun hasArgs _ => ?_
        cases hasArgs with
        | false => exact hfilter name (.pure (by simp))
        | true => exact hfilter name (arguments_tracks hlexed h)
    | _ => exact .bind (S := fun _ _ => False) (reject_ensures hlexed) fun _ _ h => h.elim

/-- String literals that follow each other. -/
theorem moreText_tracks (first : String) : Tracks lexed (moreText first) fun _ => True := by
  refine .iterate (I := fun _ => True) trivial fun value _ => peek?_bind hlexed
    fun (token, at_) _ _ => ?_
  cases token with
  | text more => exact advance_bind rfl (Tracks.pure trivial)
  | _ => exact Ensures.facing (Tracks.pure trivial)

/-- An entry of a map literal. -/
theorem mapEntry_tracks (hprimary : Tracks lexed primary (OnLines lexed))
    (h : Tracks lexed expr (OnLines lexed)) :
    Tracks lexed (mapEntry primary expr) fun entry =>
      OnLines lexed entry.1 ∧ OnLines lexed entry.2 := by
  have hentry {key : Parser Expr} (hkey : Tracks lexed key (OnLines lexed)) :
      Tracks lexed (do let key ← key; expect isColon; return (key, ← expr)) fun entry =>
        OnLines lexed entry.1 ∧ OnLines lexed entry.2 :=
    hkey.bind fun key hkey => (expect_tracks hlexed rfl rfl).bind fun _ _ =>
      h.bind fun value hvalue => .pure ⟨hkey, hvalue⟩
  refine peek?_bind hlexed fun (token, at_) _ hat => ?_
  cases token with
  | ident name =>
    exact advance_bind rfl (hentry (.pure (List.forall_mem_singleton.mpr hat)))
  | _ => exact (hentry hprimary).facing

/-- A literal, a variable, a list, a map or an expression in parentheses. -/
theorem operand_tracks (hprimary : Tracks lexed primary (OnLines lexed))
    (h : Tracks lexed expr (OnLines lexed)) :
    Tracks lexed (Parser.operand primary expr) (OnLines lexed) := by
  refine require_bind hlexed fun (token, span) _ hspan => ?_
  simp only
  have hconst (value : Value) :
      Tracks lexed (do return .const value (← upToHere span)) (OnLines lexed) :=
    (upToHere_tracks hspan).bind fun span hspan => .pure (List.forall_mem_singleton.mpr hspan)
  split
  · exact (hconst _).behind rfl
  · exact (hconst _).behind rfl
  · exact (hconst _).behind rfl
  · exact (hconst _).behind rfl
  · exact Ensures.behind (Tracks.pure (List.forall_mem_singleton.mpr hspan)) rfl
  · exact Ensures.behind ((moreText_tracks hlexed _).bind fun value _ => hconst _) rfl
  · exact (hconst _).behind rfl
  · exact (hconst _).behind rfl
  · exact Ensures.behind (h.bind fun e he => (expect_tracks hlexed rfl rfl).bind fun _ _ =>
      .pure he) rfl
  · exact Ensures.behind ((commaList_tracks hlexed rfl rfl h).bind fun items hitems =>
      (upToHere_tracks hspan).bind fun span hspan => .pure
        (List.forall_mem_cons.mpr ⟨hspan, forall_onLines.mp hitems⟩)) rfl
  · exact Ensures.behind ((commaList_tracks hlexed rfl rfl
      (mapEntry_tracks hlexed hprimary h)).bind fun entries hentries =>
        (upToHere_tracks hspan).bind fun span hspan => .pure
          (List.forall_mem_cons.mpr ⟨hspan, forall_entry_onLines.mp hentries⟩)) rfl
  · exact reject_ensures hlexed

omit hlexed in
/-- Refusing to nest deeper. -/
theorem tooDeep_ensures {R : α → TokenStream → Prop} : Ensures lexed (Inside lexed) tooDeep R :=
  Tracks.andThen (T := fun _ => True) (currentSpan_tracks.bind fun _ _ => .pure trivial)
    fun _ _ => .fail rfl rfl

/-- The parsers of every level of nesting. -/
theorem level_tracks (isFilter : String → Bool) (depth : Nat) :
    Tracks lexed (level isFilter depth).expr (OnLines lexed) ∧
      Tracks lexed (level isFilter depth).prefixed (OnLines lexed) ∧
      Tracks lexed (level isFilter depth).primary (OnLines lexed) := by
  induction depth with
  | zero =>
    exact ⟨tooDeep_ensures, prefixed_tracks hlexed tooDeep_ensures (filtered_tracks hlexed
      (postfixed_tracks hlexed tooDeep_ensures tooDeep_ensures) tooDeep_ensures), tooDeep_ensures⟩
  | succ depth ih =>
    obtain ⟨hexpr, hprefixed, hprimary⟩ := ih
    have hexpr' := operators_tracks hlexed hprefixed
    have hprimary' := operand_tracks hlexed hprimary hexpr
    exact ⟨hexpr', prefixed_tracks hlexed hprefixed (filtered_tracks hlexed
      (postfixed_tracks hlexed hprimary' hexpr') hexpr'), hprimary'⟩

end Expressions

/-! ## Arguments -/

section Arguments

open TagArg (Each)

variable {expr : Parser Expr}

/-- Expressions among arguments that start on lines of tokens. -/
theorem hasLine_of_each {args : List TagArg} (h : Each (OnLines lexed) args) :
    ∀ line ∈ args.flatMap TagArg.lines, lexed.HasLine line := by
  intro line hline
  obtain ⟨arg, harg, hline⟩ := List.mem_flatMap.mp hline
  cases arg with
  | expr e => exact h e harg line hline
  | _ => cases hline

/-- An expression alone. -/
theorem oneExpression_tracks (h : Tracks lexed expr (OnLines lexed)) :
    Tracks lexed (BuiltinTag.oneExpression expr) (Each (OnLines lexed)) :=
  h.bind fun e he => .pure (by simpa [Each] using he)

include hlexed

/-- Items up to a closing parenthesis. -/
theorem strictList_tracks {item : Parser α} (hitem : Tracks lexed item Q) :
    Tracks lexed (BuiltinTag.strictList item) fun items => ∀ a ∈ items, Q a := by
  refine collect_tracks fun items hitems =>
    (skipIf_tracks hlexed (by decide) (by decide)).bind fun closed _ => ?_
  cases closed with
  | true => exact .pure hitems
  | false =>
    simp only [Bool.false_eq_true, if_false]
    cases items with
    | nil => exact more_tracks hitem hitems
    | cons a items =>
      exact (expectPunctuation_tracks hlexed (by decide) (by decide)).bind fun _ _ =>
        more_tracks hitem hitems

/-- What is iterated by a loop. -/
theorem loopArguments_tracks (h : Tracks lexed expr (OnLines lexed)) :
    Tracks lexed (BuiltinTag.loopArguments expr) (Each (OnLines lexed)) := by
  have hloop {targets : Parser (List TagArg)}
      (htargets : Tracks lexed targets (Each (OnLines lexed))) : Tracks lexed
      (do
        let targets ← targets
        expectWord "in"
        let subject ← expr
        return targets ++ [.expr subject]) (Each (OnLines lexed)) :=
    htargets.bind fun targets htargets => (expectWord_tracks hlexed "in").bind fun _ _ =>
      h.bind fun subject hsubject => .pure fun e he => (List.mem_append.mp he).elim (htargets e)
        fun he => by
          obtain rfl := TagArg.expr.inj (List.mem_singleton.mp he)
          exact hsubject
  refine (ident_tracks hlexed).bind fun first _ =>
    (skipIf_tracks hlexed (by decide) (by decide)).bind fun both _ => ?_
  cases both with
  | true =>
    exact (ident_tracks hlexed).bind fun second _ => hloop (.pure (by simp [Each]))
  | false => exact hloop (.pure (by simp [Each]))

/-- The options of an inclusion. -/
theorem includeArguments_tracks (h : Tracks lexed expr (OnLines lexed)) :
    Tracks lexed (BuiltinTag.includeArguments expr) (Each (OnLines lexed)) := by
  refine (text_tracks hlexed).bind fun name _ => Tracks.bind (T := Each (OnLines lexed)) ?_
    fun options hoptions => .pure (by simpa [Each] using hoptions)
  refine .iterate (I := Each (OnLines lexed)) (by simp [Each]) fun options hoptions =>
    (skipWord_tracks hlexed "with").bind fun given _ => ?_
  have hflag (name : String) : Each (OnLines lexed) (.flag name :: options) := by
    simpa [Each] using hoptions
  cases given with
  | true =>
    refine h.bind fun e he => .pure fun e' he' => ?_
    rcases List.mem_cons.mp he' with he' | he'
    · exact TagArg.expr.inj he' ▸ he
    · exact hoptions e' he'
  | false =>
    refine (skipWord_tracks hlexed "only").bind fun only _ => ?_
    cases only with
    | true => exact .pure (hflag _)
    | false =>
      refine (skipWord_tracks hlexed "ignore").bind fun ignore _ => ?_
      cases ignore with
      | true => exact (expectWord_tracks hlexed "missing").bind fun _ _ => .pure (hflag _)
      | false => exact .pure hoptions

/-- The arguments of a filter. -/
theorem filterArguments_tracks (h : Tracks lexed expr (OnLines lexed)) :
    Tracks lexed (BuiltinTag.filterArguments expr) (Each (OnLines lexed)) := by
  refine (ident_tracks hlexed).bind fun name _ =>
    (skipIf_tracks hlexed (by decide) (by decide)).bind fun hasArgs _ => ?_
  cases hasArgs with
  | true =>
    exact (strictList_tracks hlexed h).bind fun args hargs => .pure (by simpa [Each] using hargs)
  | false => exact .pure (by simp [Each])

omit hlexed in
/-- A constant. -/
theorem autoescapeArguments_tracks (h : Tracks lexed expr (OnLines lexed)) :
    Tracks lexed (BuiltinTag.autoescapeArguments expr) (Each (OnLines lexed)) := by
  refine Tracks.bind (T := fun _ => True) (currentSpan_tracks.bind fun _ _ => .pure trivial)
    fun line _ => h.bind fun e he => ?_
  cases e.asConst? with
  | some v => exact .pure (by simpa [Each] using he)
  | none => exact .fail rfl rfl

/-- The arguments of built-in tags and of their labels. -/
theorem builtin_tracks (tag : BuiltinTag) (h : Tracks lexed expr (OnLines lexed)) :
    Tracks lexed (tag.shape.arguments expr) (Each (OnLines lexed)) ∧
      ∀ label, Tracks lexed (tag.shape.labelArguments label expr) (Each (OnLines lexed)) := by
  have hident := ident_tracks hlexed
  have htext := text_tracks hlexed
  have hnone : Tracks lexed (do expectTagEnd; return []) (Each (OnLines lexed)) :=
    (expectTagEnd_tracks hlexed).bind fun _ _ => .pure (by simp [Each])
  constructor
  · cases tag with
    | inherit => exact htext.bind fun _ _ => .pure (by simp [Each])
    | block => exact hident.bind fun _ _ => .pure (by simp [Each])
    | parent => exact .pure (by simp [Each])
    | cond => exact oneExpression_tracks h
    | loop => exact loopArguments_tracks hlexed h
    | assign =>
      exact hident.bind fun name _ => (expectPunctuation_tracks hlexed (by decide)
        (by decide)).bind fun _ _ => h.bind fun e he => .pure (by simpa [Each] using he)
    | insert => exact includeArguments_tracks hlexed h
    | importMacros =>
      exact htext.bind fun name _ => (expectWord_tracks hlexed "as").bind fun _ _ =>
        hident.bind fun scope _ => .pure (by simp [Each])
    | defineMacro =>
      exact hident.bind fun name _ => (expectPunctuation_tracks hlexed (by decide)
        (by decide)).bind fun _ _ => (strictList_tracks hlexed hident).bind fun params _ =>
          .pure (by simp [Each])
    | filter => exact filterArguments_tracks hlexed h
    | escaping => exact autoescapeArguments_tracks h
  · intro label
    cases tag with
    | cond =>
      simp only [BuiltinTag.shape]
      split
      · exact hnone
      · exact oneExpression_tracks h
    | _ => exact hnone

end Arguments

end Parser

end Templating
