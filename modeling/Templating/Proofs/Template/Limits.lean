import Templating.Template.Reading

/-!
# Parsers with a limit

A parser that may nest so many levels deep does what one with more levels does, or it refuses to
nest deeper. The relation between the two goes along with sequencing and repetition, so it holds of
whole grammars as it holds of their lowest levels. What is read is described on the way: a relation
of a parser to itself says only that whatever it reads has a property.
-/

namespace Templating

/-- The error says that a template nests too deep. -/
def Error.IsTooDeep (e : Error) : Prop := ∃ line, e.fault = .tooDeep line

/-- The value is a literal of the template language: none, a truth value, a number or a plain
string. -/
def Value.IsLiteral : Value → Prop
  | null => True
  | bool _ => True
  | int _ => True
  | float _ => True
  | text _ safe => safe = false
  | _ => False

namespace Parser

variable {α β σ : Type} {Q Q' : α → Prop} {R : β → Prop}

/-- Whatever is read has a property. -/
def Gives (p : Parser α) (Q : α → Prop) : Prop := ∀ ⦃s a t⦄, p s = .ok (a, t) → Q a

/-- The first parser refuses to nest deeper or does what the second one does, and whatever it reads
has a property. -/
def Within (p p' : Parser α) (Q : α → Prop) : Prop :=
  ∀ s, (∃ e : Error, p s = .error e ∧ e.IsTooDeep) ∨
    p s = p' s ∧ ∀ a t, p s = .ok (a, t) → Q a

/-- What is read by a parser that is within another one has the property. -/
theorem Within.gives {p p' : Parser α} (h : p.Within p' Q) : p.Gives Q := by
  intro s a t hrun
  rcases h s with ⟨e, he, _⟩ | ⟨_, hQ⟩
  · rw [hrun] at he
    cases he
  · exact hQ a t hrun

/-- A parser is within itself. -/
theorem Gives.within {p : Parser α} (h : p.Gives Q) : p.Within p Q :=
  fun _ => .inr ⟨rfl, fun _ _ hrun => h hrun⟩

/-- Refusing to nest deeper is within anything. -/
theorem tooDeep_within (p : Parser α) : Within tooDeep p Q :=
  fun _ => .inl ⟨_, rfl, _, rfl⟩

namespace Within

/-- Less may be said of what is read. -/
theorem imp {p p' : Parser α} (h : p.Within p' Q) (hQ : ∀ a, Q a → Q' a) : p.Within p' Q' :=
  fun s => (h s).imp_right fun h => ⟨h.1, fun a t hrun => hQ a (h.2 a t hrun)⟩

/-- Nothing is known about what is read. -/
theorem same (p : Parser α) : p.Within p fun _ => True :=
  Gives.within fun _ _ _ _ => trivial

/-- Returning. -/
theorem pure {a : α} (h : Q a) : Within (pure a) (pure a) Q :=
  Gives.within fun _ _ _ hrun => (Prod.mk.inj (Except.ok.inj hrun)).1 ▸ h

/-- A fault. -/
theorem fail (fault : Fault) : Within (fail fault) (fail fault) Q :=
  Gives.within fun _ _ _ hrun => by cases hrun

/-- Reading one thing after the other. -/
theorem bind {p p' : Parser β} {f f' : β → Parser α} (hp : p.Within p' R)
    (hf : ∀ b, R b → (f b).Within (f' b) Q) : Within (p >>= f) (p' >>= f') Q := by
  intro s
  have hbind {p : Parser β} {f : β → Parser α} : (p >>= f) s = p s >>= fun r => f r.1 r.2 := rfl
  rw [hbind, hbind]
  rcases hp s with ⟨e, he, hdeep⟩ | ⟨hsame, hR⟩
  · exact .inl ⟨e, by rw [he]; rfl, hdeep⟩
  · rw [← hsame]
    cases hrun : p s with
    | error e => exact .inr ⟨rfl, fun _ _ h => nomatch h⟩
    | ok r => exact hf r.1 (hR r.1 r.2 hrun) r.2

/-- Reading something before. -/
theorem behind {p : Parser β} {f f' : β → Parser α} (hf : ∀ b, (f b).Within (f' b) Q) :
    Within (p >>= f) (p >>= f') Q :=
  (same p).bind fun b _ => hf b

/-- Repeating a step that keeps an invariant. -/
theorem iterate {step step' : σ → Parser (σ ⊕ α)} {I : σ → Prop} {init : σ} (hinit : I init)
    (hstep : ∀ x, I x → (step x).Within (step' x) (Sum.elim I Q)) :
    Within (iterate step init) (iterate step' init) Q := by
  have hgo : ∀ rounds x, I x →
      Within (iterate.go step rounds x) (iterate.go step' rounds x) Q := by
    intro rounds
    induction rounds with
    | nil =>
      intro x hx
      refine (hstep x hx).bind fun y hy => ?_
      cases y with
      | inl y => exact .fail _
      | inr a => exact .pure hy
    | cons _ rounds ih =>
      intro x hx
      refine (hstep x hx).bind fun y hy => ?_
      cases y with
      | inl y => exact ih y hy
      | inr a => exact .pure hy
  exact fun s => hgo s.rest init hinit s

end Within

/-- Properties of expressions, for each number of levels left, that go along with reading: what is
read from parts that have them has them as well. Signs, items, arguments, lists and maps take their
parts from one level further down. -/
structure Builds (E : Nat → Expr → Prop) : Prop where
  above : ∀ {k e}, E k e → E (k + 1) e
  var : ∀ {k} name span, E k (.var name span)
  const : ∀ {k v} span, v.IsLiteral → E k (.const v span)
  negated : ∀ {k e} span, E k e → E k (.unary .not e span)
  signed : ∀ {k e} op span, E k e → E (k + 1) (.unary op e span)
  binary : ∀ {k left right} op span, E k left → E k right → E k (.binary op left right span)
  attr : ∀ {k e} name span, E k e → E k (.attr e name span)
  item : ∀ {k e key} span, E (k + 1) e → E k key → E (k + 1) (.item e key span)
  filter : ∀ {k e args} name span, E (k + 1) e → (∀ a ∈ args, E k a) →
    E (k + 1) (.filter name e args span)
  call : ∀ {k e args} span, E (k + 1) e → (∀ a ∈ args, E k a) → E (k + 1) (.call e args span)
  list : ∀ {k items} span, (∀ e ∈ items, E k e) → E (k + 1) (.list items span)
  map : ∀ {k entries} span, (∀ entry ∈ entries, E k entry.1 ∧ E k entry.2) →
    E (k + 1) (.map entries span)

section Lists

variable {item item' : Parser α}

/-- One more item in front of those that were read. -/
theorem Within.more (hitem : item.Within item' Q) {items : List α} (hitems : ∀ a ∈ items, Q a) :
    Within (do return .inl ((← item) :: items) : Parser (List α ⊕ List α))
      (do return .inl ((← item') :: items))
      (Sum.elim (fun items => ∀ a ∈ items, Q a) fun items => ∀ a ∈ items, Q a) :=
  hitem.bind fun _ ha => .pure (List.forall_mem_cons.mpr ⟨ha, hitems⟩)

/-- Collecting items by a step that keeps their property, the last one first. -/
theorem Within.collect {step step' : List α → Parser (List α ⊕ List α)}
    (hstep : ∀ items, (∀ a ∈ items, Q a) → (step items).Within (step' items)
      (Sum.elim (fun items => ∀ a ∈ items, Q a) fun items => ∀ a ∈ items, Q a)) :
    Within (do return (← Parser.iterate step []).reverse)
      (do return (← Parser.iterate step' []).reverse) fun items => ∀ a ∈ items, Q a :=
  (Within.iterate (by simp) hstep).bind fun _ hitems =>
    .pure fun a ha => hitems a (List.mem_reverse.mp ha)

/-- Items separated by commas. -/
theorem commaList_within {closes : Token → Bool} (hitem : item.Within item' Q) :
    (commaList closes item).Within (commaList closes item') fun items => ∀ a ∈ items, Q a := by
  refine .collect fun items hitems => .behind fun closed => ?_
  cases closed with
  | true => exact .pure hitems
  | false =>
    simp only [Bool.false_eq_true, if_false]
    cases items with
    | nil => exact hitem.bind fun a ha => .pure (by simpa using ha)
    | cons a items =>
      refine .behind fun _ => .behind fun closed => ?_
      cases closed with
      | true => exact .pure hitems
      | false => exact hitem.more hitems

end Lists

section Expressions

variable {E : Nat → Expr → Prop} {k : Nat} {operand operand' primary primary' expr expr' below
  below' : Parser Expr}

/-- Operands joined by binary operators. -/
theorem leftChain_within (hE : Builds E) {op? : Token → Option BinaryOp}
    (h : operand.Within operand' (E k)) :
    (leftChain op? operand).Within (leftChain op? operand') (E k) := by
  refine .behind fun span => h.bind fun first hfirst => ?_
  refine .iterate (I := E k) hfirst fun left hleft => .behind fun next => ?_
  cases next.bind fun t => op? t.1 with
  | none => exact .pure hleft
  | some op =>
    exact .behind fun _ => h.bind fun right hright => .behind fun span =>
      .pure (hE.binary op span hleft hright)

/-- Negations of an operand. -/
theorem negation_within (hE : Builds E) (h : operand.Within operand' (E k)) :
    (negation operand).Within (negation operand') (E k) := by
  refine .behind fun spans => h.bind fun subject hsubject => .behind fun spans => .pure ?_
  induction spans generalizing subject with
  | nil => exact hsubject
  | cons span spans ih => exact ih _ (hE.negated span hsubject)

/-- An operand of any of the operators. -/
theorem operators_within (hE : Builds E) (h : operand.Within operand' (E k)) :
    (operators operand).Within (operators operand') (E k) :=
  leftChain_within hE <| leftChain_within hE <| negation_within hE <| leftChain_within hE <|
    leftChain_within hE <| leftChain_within hE <| leftChain_within hE h

/-- A prefix operator before an operand of the level below. -/
theorem prefixed_within (hE : Builds E) (hbelow : below.Within below' (E k))
    (h : operand.Within operand' (E (k + 1))) :
    (prefixed below operand).Within (prefixed below' operand') (E (k + 1)) := by
  refine .behind fun _ => .behind fun span => .behind fun next => ?_
  have hsigned (op : UnaryOp) : Within
      (do advance; let subject ← below; return .unary op subject (← upToHere span))
      (do advance; let subject ← below'; return .unary op subject (← upToHere span))
      (E (k + 1)) :=
    .behind fun _ => hbelow.bind fun subject hsubject => .behind fun span =>
      .pure (hE.signed op span hsubject)
  rcases next with _ | ⟨token, _⟩
  · exact h
  · cases token with
    | minus => exact hsigned .neg
    | bang => exact hsigned .not
    | _ => exact h

/-- Arguments in parentheses. -/
theorem arguments_within (h : expr.Within expr' (E k)) :
    (arguments expr).Within (arguments expr') fun args => ∀ a ∈ args, E k a :=
  .behind fun _ => commaList_within h

/-- Attributes, items and calls of an operand. -/
theorem postfixed_within (hE : Builds E) (hprimary : primary.Within primary' (E (k + 1)))
    (h : expr.Within expr' (E k)) :
    (postfixed primary expr).Within (postfixed primary' expr') (E (k + 1)) := by
  refine .behind fun span => hprimary.bind fun first hfirst => ?_
  refine .iterate (I := E (k + 1)) hfirst fun subject hsubject =>
    .behind fun here => .behind fun next => ?_
  rcases next with _ | ⟨token, _⟩
  · exact .pure hsubject
  · cases token with
    | dot =>
      refine .behind fun _ => .behind fun (token, at_) => ?_
      cases token with
      | ident name => exact .behind fun span => .pure (hE.attr name span hsubject)
      | int index =>
        exact .behind fun span => .pure (hE.item span hsubject (hE.const at_ trivial))
      | _ => exact .fail _
    | bracketOpen =>
      exact .behind fun _ => h.bind fun key hkey => .behind fun _ => .behind fun span =>
        .pure (hE.item span hsubject hkey)
    | parenOpen =>
      exact (arguments_within h).bind fun args hargs => .behind fun span =>
        .pure (hE.call span hsubject hargs)
    | _ => exact .pure hsubject

/-- Filters behind an operand. -/
theorem filtered_within (hE : Builds E) {isFilter : String → Bool}
    (hoperand : operand.Within operand' (E (k + 1))) (h : expr.Within expr' (E k)) :
    (filtered isFilter operand expr).Within (filtered isFilter operand' expr') (E (k + 1)) := by
  refine .behind fun span => hoperand.bind fun first hfirst => ?_
  refine .iterate (I := E (k + 1)) hfirst fun subject hsubject => .behind fun piped => ?_
  have hfilter (name : String) {args args' : Parser (List Expr)}
      (hargs : args.Within args' fun args => ∀ a ∈ args, E k a) : Within
      (do return .inl (.filter name subject (← args) (← upToHere span)) : Parser (Expr ⊕ Expr))
      (do return .inl (.filter name subject (← args') (← upToHere span)))
      (Sum.elim (E (k + 1)) (E (k + 1))) :=
    hargs.bind fun args hargs => .behind fun span => .pure (hE.filter name span hsubject hargs)
  cases piped with
  | false => exact .pure hsubject
  | true =>
    simp only [if_true]
    refine .behind fun (token, at_) => ?_
    cases token with
    | ident name =>
      refine .behind fun (name, at_) => ?_
      simp only
      cases isFilter name with
      | false => exact .fail _
      | true =>
        simp only [if_true]
        refine .behind fun next => ?_
        split <;> refine .behind fun hasArgs => ?_ <;> cases hasArgs
        · exact hfilter name (.pure (by simp))
        · exact hfilter name (arguments_within h)
        · exact hfilter name (.pure (by simp))
        · exact hfilter name (arguments_within h)
    | _ => exact .bind (R := fun _ => False) (.fail _) fun _ h => h.elim

/-- An entry of a map literal. -/
theorem mapEntry_within (hE : Builds E) (hprimary : primary.Within primary' (E k))
    (h : expr.Within expr' (E k)) :
    (mapEntry primary expr).Within (mapEntry primary' expr')
      fun entry => E k entry.1 ∧ E k entry.2 := by
  have hentry {key key' : Parser Expr} (hkey : key.Within key' (E k)) :
      Within (do let key ← key; expect isColon; return (key, ← expr))
        (do let key ← key'; expect isColon; return (key, ← expr'))
        fun entry => E k entry.1 ∧ E k entry.2 :=
    hkey.bind fun key hkey => .behind fun _ => h.bind fun value hvalue => .pure ⟨hkey, hvalue⟩
  refine .behind fun next => ?_
  rcases next with _ | ⟨token, span⟩
  · exact hentry hprimary
  · cases token with
    | ident name => exact .behind fun _ => hentry (.pure (hE.const span rfl))
    | _ => exact hentry hprimary

/-- A literal, a variable, a list, a map or an expression in parentheses. -/
theorem operand_within (hE : Builds E) (hprimary : primary.Within primary' (E k))
    (h : expr.Within expr' (E k)) :
    (Parser.operand primary expr).Within (Parser.operand primary' expr') (E (k + 1)) := by
  refine .behind fun (token, span) => ?_
  simp only
  split
  · exact .behind fun span => .pure (hE.const span trivial)
  · exact .behind fun span => .pure (hE.const span trivial)
  · exact .behind fun span => .pure (hE.const span trivial)
  · exact .behind fun span => .pure (hE.const span trivial)
  · exact .pure (hE.var _ span)
  · exact .behind fun value => .behind fun span => .pure (hE.const span rfl)
  · exact .behind fun span => .pure (hE.const span trivial)
  · exact .behind fun span => .pure (hE.const span trivial)
  · exact h.bind fun e he => .behind fun _ => .pure (hE.above he)
  · exact (commaList_within h).bind fun items hitems => .behind fun span =>
      .pure (hE.list span hitems)
  · exact (commaList_within (mapEntry_within hE hprimary h)).bind fun entries hentries =>
      .behind fun span => .pure (hE.map span hentries)
  · exact .fail _

/-- The operands of the operators of a level. -/
theorem level_prefixed (isFilter : String → Bool) (depth : Nat) :
    ∃ below, (level isFilter depth).prefixed = prefixed below
      (filtered isFilter (postfixed (level isFilter depth).primary (level isFilter depth).expr)
        (level isFilter depth).expr) := by
  cases depth with
  | zero => exact ⟨_, rfl⟩
  | succ depth => exact ⟨_, rfl⟩

/-- The parsers of every level of nesting, and those with more levels to spare. -/
theorem level_within (hE : Builds E) (isFilter : String → Bool) (spare depth : Nat) :
    (level isFilter depth).expr.Within (level isFilter (spare + depth)).expr (E depth) ∧
      (level isFilter depth).prefixed.Within (level isFilter (spare + depth)).prefixed
        (E (depth + 1)) ∧
      (level isFilter depth).primary.Within (level isFilter (spare + depth)).primary
        (E depth) := by
  induction depth with
  | zero =>
    obtain ⟨below, hbelow⟩ := level_prefixed isFilter spare
    refine ⟨tooDeep_within _, ?_, tooDeep_within _⟩
    rw [Nat.add_zero, hbelow]
    exact prefixed_within hE (tooDeep_within _) (filtered_within hE
      (postfixed_within hE (tooDeep_within _) (tooDeep_within _)) (tooDeep_within _))
  | succ depth ih =>
    obtain ⟨hexpr, hprefixed, hprimary⟩ := ih
    have hexpr' := operators_within hE hprefixed
    have hprimary' := operand_within hE hprimary hexpr
    refine ⟨hexpr', ?_, hprimary'⟩
    exact prefixed_within hE hprefixed (filtered_within hE
      (postfixed_within hE (hprimary'.imp fun _ => hE.above) hexpr') hexpr')

end Expressions
end Parser
end Templating
