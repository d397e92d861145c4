import Templating.Proofs.Template.Parsing

/-!
# What parsers refuse

Opening parentheses and brackets and the signs `-` and `!` take the reader of an expression one
level of nesting further down each. A row of them that is as long as the levels left is refused,
whatever follows.
-/

namespace Templating

namespace Parser

variable {α β : Type}

/-- On the given tokens the parser refuses to nest deeper. -/
def Refuses (p : Parser α) (s : TokenStream) : Prop := ∃ e : Error, p s = .error e ∧ e.IsTooDeep

namespace Refuses

variable {s u : TokenStream}

/-- Refusing to nest deeper, whatever the tokens. -/
theorem tooDeep : (tooDeep : Parser α).Refuses s := ⟨_, rfl, _, rfl⟩

/-- What is refused at first is refused. -/
theorem bind {p : Parser β} {f : β → Parser α} (h : p.Refuses s) : (p >>= f).Refuses s := by
  obtain ⟨e, he, hdeep⟩ := h
  refine ⟨e, ?_, hdeep⟩
  change (p s >>= fun r => f r.1 r.2) = _
  rw [he]
  rfl

/-- What is refused after something that is read is refused. -/
theorem after {p : Parser β} {f : β → Parser α} {b : β} (hp : p s = .ok (b, u))
    (h : (f b).Refuses u) : (p >>= f).Refuses s := by
  obtain ⟨e, he, hdeep⟩ := h
  refine ⟨e, ?_, hdeep⟩
  change (p s >>= fun r => f r.1 r.2) = _
  rw [hp]
  exact he

end Refuses

/-- The token takes the reader of an expression one level of nesting further down. -/
def isOpener : Token → Bool
  | .parenOpen => true
  | .bracketOpen => true
  | .minus => true
  | .bang => true
  | _ => false

section Rows

variable {σ : Type} {t : Token} {span last : Span} {rest : List (Token × Span)}
  {error? : Option Error} {s u : TokenStream} {operand primary expr below : Parser Expr}

/-- A token of another sort is not passed. -/
theorem skipIf_other {accept : Token → Bool} (h : accept t = false) :
    skipIf accept ⟨(t, span) :: rest, error?, last⟩ =
      .ok (false, ⟨(t, span) :: rest, error?, last⟩) := by
  change (if accept t = true then _ else _ : Parser Bool) _ = _
  rw [h]
  rfl

/-- A loop whose first round is refused is refused. -/
theorem iterate_refuses {step : σ → Parser (σ ⊕ α)} {x : σ} (h : (step x).Refuses s) :
    (iterate step x).Refuses s := by
  change (iterate.go step s.rest x).Refuses s
  cases s.rest <;> exact h.bind

/-- A loop may end in its first round. -/
theorem iterate_done {step : σ → Parser (σ ⊕ α)} {x : σ} {a : α}
    (h : step x s = .ok (.inr a, u)) : iterate step x s = .ok (a, u) := by
  change iterate.go step s.rest x s = _
  cases s.rest <;>
  · change (step x s >>= fun r => _) = _
    rw [h]
    rfl

/-- A chain of operators is refused where its first operand is. -/
theorem leftChain_refuses {op? : Token → Option BinaryOp} (h : operand.Refuses s) :
    (leftChain op? operand).Refuses s :=
  .after rfl h.bind

/-- Negations of an operand are refused where the operand is, if there are none. -/
theorem negation_refuses (ht : isWord "not" t = false)
    (h : operand.Refuses ⟨(t, span) :: rest, error?, last⟩) :
    (negation operand).Refuses ⟨(t, span) :: rest, error?, last⟩ := by
  refine .after (b := []) (iterate_done ?_) h.bind
  change (skipWord "not" _ >>= fun r => _) = _
  rw [skipWord, skipIf_other ht]
  rfl

/-- Operators are refused where their first operand is, if it is no negation. -/
theorem operators_refuses (ht : isWord "not" t = false)
    (h : operand.Refuses ⟨(t, span) :: rest, error?, last⟩) :
    (operators operand).Refuses ⟨(t, span) :: rest, error?, last⟩ :=
  leftChain_refuses <| leftChain_refuses <| negation_refuses ht <| leftChain_refuses <|
    leftChain_refuses <| leftChain_refuses <| leftChain_refuses h

/-- Behind an opening token that is no sign, an operand is refused as such; behind a sign it is
refused on the level below. -/
theorem prefixed_refuses (ht : isOpener t = true)
    (hsign : t = .minus ∨ t = .bang → below.Refuses ⟨rest, error?, span⟩)
    (hoperand : t = .parenOpen ∨ t = .bracketOpen →
      operand.Refuses ⟨(t, span) :: rest, error?, last⟩) :
    (prefixed below operand).Refuses ⟨(t, span) :: rest, error?, last⟩ := by
  have hplus : isPlus t = false := by cases t <;> first | rfl | cases ht
  refine .after (b := ()) (u := ⟨(t, span) :: rest, error?, last⟩) (iterate_done ?_) ?_
  · change (skipIf isPlus _ >>= fun r => _) = _
    rw [skipIf_other hplus]
    rfl
  · refine .after rfl (.after rfl ?_)
    cases t with
    | minus => exact .after rfl (hsign (.inl rfl)).bind
    | bang => exact .after rfl (hsign (.inr rfl)).bind
    | parenOpen => exact hoperand (.inl rfl)
    | bracketOpen => exact hoperand (.inr rfl)
    | _ => cases ht

/-- Attributes, items, calls and filters of an operand are refused where the operand is. -/
theorem filtered_refuses {isFilter : String → Bool} (h : primary.Refuses s) :
    (filtered isFilter (postfixed primary expr) expr).Refuses s :=
  .after rfl (.bind (.after rfl h.bind))

/-- An expression in parentheses is refused where the expression is. -/
theorem operand_refuses_paren (h : expr.Refuses ⟨rest, error?, span⟩) :
    (Parser.operand primary expr).Refuses ⟨(.parenOpen, span) :: rest, error?, last⟩ :=
  .after rfl h.bind

/-- A list is refused where its first item is. -/
theorem operand_refuses_bracket (ht : isBracketClose t = false) {start : Span}
    (h : expr.Refuses ⟨(t, span) :: rest, error?, start⟩) :
    (Parser.operand primary expr).Refuses
      ⟨(.bracketOpen, start) :: (t, span) :: rest, error?, last⟩ :=
  .after rfl (.bind (.bind (iterate_refuses (.after (skipIf_other ht) h.bind))))

/-- Rows of tokens that go further down than there are levels of nesting are refused. -/
theorem level_refuses (isFilter : String → Bool) (depth : Nat) {openers : List (Token × Span)}
    (hopeners : ∀ t ∈ openers, isOpener t.1 = true) :
    (depth ≤ openers.length →
      (level isFilter depth).expr.Refuses ⟨openers ++ rest, error?, last⟩) ∧
    (depth < openers.length →
      (level isFilter depth).prefixed.Refuses ⟨openers ++ rest, error?, last⟩) := by
  induction depth generalizing openers last with
  | zero =>
    refine ⟨fun _ => .tooDeep, fun hlength => ?_⟩
    rcases openers with _ | ⟨⟨t, span⟩, openers⟩
    · cases hlength
    · exact prefixed_refuses (hopeners _ List.mem_cons_self) (fun _ => .tooDeep)
        fun _ => filtered_refuses .tooDeep
  | succ depth ih =>
    rcases openers with _ | ⟨⟨t, span⟩, openers⟩
    · exact ⟨fun h => absurd h (Nat.not_succ_le_zero _), fun h => absurd h (Nat.not_lt_zero _)⟩
    obtain ⟨ht, hrest⟩ := List.forall_mem_cons.mp hopeners
    have hword : isWord "not" t = false := by cases t <;> first | rfl | cases ht
    refine ⟨fun h => operators_refuses hword ((ih hopeners).2 h), fun h => ?_⟩
    have hlength : depth < openers.length := Nat.lt_of_succ_lt_succ h
    refine prefixed_refuses ht (fun _ => (ih hrest).2 hlength) ?_
    rintro (rfl | rfl)
    · exact filtered_refuses (operand_refuses_paren ((ih hrest).1 (Nat.le_of_lt hlength)))
    · rcases openers with _ | ⟨⟨t', span'⟩, openers⟩
      · exact absurd hlength (Nat.not_lt_zero _)
      have ht' : isOpener t' = true := hrest _ List.mem_cons_self
      have hclose : isBracketClose t' = false := by cases t' <;> first | rfl | cases ht'
      exact filtered_refuses (operand_refuses_bracket hclose ((ih hrest).1 (Nat.le_of_lt hlength)))

/-- A template that begins with an output point which goes further down than there are levels of
nesting is refused. -/
theorem templateWithin_refuses (registry : Registry) {depth : Nat}
    {openers : List (Token × Span)} (hopeners : ∀ t ∈ openers, isOpener t.1 = true)
    (hlength : depth ≤ openers.length) :
    (templateWithin registry depth).Refuses
      ⟨(.outputStart, span) :: (openers ++ rest), error?, last⟩ := by
  have houtput : (output (exprAt registry.hasFilter depth) span).Refuses
      ⟨openers ++ rest, error?, span⟩ :=
    ((level_refuses registry.hasFilter depth hopeners).1 hlength).bind
  cases depth <;>
  · refine (iterate_refuses (.after (b := some (.outputStart, span)) rfl ?_)).bind
    exact houtput.bind

end Rows

end Parser

end Templating
