import Templating.Template.Reading

/-!
# What parsers accept

A parser takes a row of tokens if, with these tokens to read, it succeeds and leaves a shorter row.
The statement names the tokens before and behind, so that reading one thing after the other is the
composition of two such statements, and a loop is followed round by round. Where a token stands in
the source plays no part.
-/

namespace Templating

/-- The tokens to read are the given ones, and no error ends them. -/
structure TokenStream.Holds (s : TokenStream) (ts : List Token) : Prop where
  tokens : s.rest.map Prod.fst = ts
  complete : s.error? = none

namespace Parser

variable {α β σ : Type} {Q : α → Prop} {R : β → Prop} {xs ys zs : List Token} {t : Token}
  {accept : Token → Bool}

/-- With the first tokens to read the parser succeeds, what it gives has a property, and the second
tokens are left. -/
def Takes (p : Parser α) (before after : List Token) (Q : α → Prop) : Prop :=
  ∀ ⦃s : TokenStream⦄, s.Holds before → ∃ a s', p s = .ok (a, s') ∧ Q a ∧ s'.Holds after

namespace Takes

/-- Less may be said of what is read. -/
theorem imp {Q' : α → Prop} {p : Parser α} (h : p.Takes xs ys Q) (hQ : ∀ a, Q a → Q' a) :
    p.Takes xs ys Q' := by
  intro s hs
  obtain ⟨a, s', hrun, ha, hs'⟩ := h hs
  exact ⟨a, s', hrun, hQ a ha, hs'⟩

/-- Returning reads nothing. -/
theorem pure {a : α} (h : Q a) : Takes (Pure.pure a) xs xs Q :=
  fun s hs => ⟨a, s, rfl, h, hs⟩

/-- Reading one thing after the other. -/
theorem bind {p : Parser β} {f : β → Parser α} (hp : p.Takes xs ys R)
    (hf : ∀ b, R b → (f b).Takes ys zs Q) : Takes (p >>= f) xs zs Q := by
  intro s hs
  obtain ⟨b, u, hrun, hb, hu⟩ := hp hs
  obtain ⟨a, s', hrun', ha, hs'⟩ := hf b hb hu
  refine ⟨a, s', ?_, ha, hs'⟩
  change (p s >>= fun r => f r.1 r.2) = _
  rw [hrun]
  exact hrun'

/-- The span of the next token. -/
theorem currentSpan : Parser.currentSpan.Takes xs xs fun _ => True :=
  fun s hs => ⟨_, s, rfl, trivial, hs⟩

/-- A span up to the last token. -/
theorem upToHere (span : Span) : (Parser.upToHere span).Takes xs xs fun _ => True :=
  fun s hs => ⟨_, s, rfl, trivial, hs⟩

/-- Looking ahead shows the first token. -/
theorem peek : peek?.Takes xs xs fun next => next.map Prod.fst = xs.head? := by
  rintro ⟨rest, error?, last⟩ ⟨rfl, rfl⟩
  cases rest with
  | nil => exact ⟨none, _, rfl, rfl, rfl, rfl⟩
  | cons p rest => exact ⟨some p, _, rfl, rfl, rfl, rfl⟩

/-- The next token is the first one. -/
theorem next : next?.Takes (t :: xs) xs fun next => next.map Prod.fst = some t := by
  rintro ⟨rest, error?, last⟩ ⟨hrest, rfl⟩
  obtain ⟨p, rest, rfl, rfl, rfl⟩ := List.map_eq_cons_iff.mp hrest
  exact ⟨some p, _, rfl, rfl, rfl, rfl⟩

/-- At the end there is no next token. -/
theorem next_nil : next?.Takes [] [] fun next => next = none := by
  rintro ⟨rest, error?, last⟩ ⟨hrest, rfl⟩
  obtain rfl := List.map_eq_nil_iff.mp hrest
  exact ⟨none, _, rfl, rfl, rfl, rfl⟩

/-- Passing a token. -/
theorem advance : Parser.advance.Takes (t :: xs) xs fun _ => True :=
  next.bind fun _ _ => .pure trivial

/-- Reading a token that has to be there. -/
theorem require : Parser.require.Takes (t :: xs) xs fun next => next.1 = t := by
  refine next.bind fun next hnext => ?_
  obtain ⟨p, rfl, rfl⟩ := Option.map_eq_some_iff.mp hnext
  exact .pure rfl

/-- A token of the given sort. -/
theorem expect (h : accept t = true) :
    (Parser.expect accept).Takes (t :: xs) xs fun _ => True := by
  refine require.bind fun (token, span) htoken => ?_
  obtain rfl : token = t := htoken
  simp only [h, if_true]
  exact .pure trivial

/-- A token of the given sort is passed. -/
theorem skipIf (h : accept t = true) :
    (Parser.skipIf accept).Takes (t :: xs) xs fun passed => passed = true := by
  refine peek.bind fun next hnext => ?_
  obtain ⟨p, rfl, rfl⟩ := Option.map_eq_some_iff.mp hnext
  simp only [h, if_true]
  exact advance.bind fun _ _ => .pure rfl

/-- A token of another sort is not passed. -/
theorem skipIf_other (h : ∀ t ∈ xs.head?, accept t = false) :
    (Parser.skipIf accept).Takes xs xs fun passed => passed = false := by
  refine peek.bind fun next hnext => ?_
  cases next with
  | none => exact .pure rfl
  | some p =>
    simp only [h p.1 hnext.symm, if_neg Bool.false_ne_true]
    exact .pure rfl

end Takes

/-- From one state of a loop on, with at least one round left for each token, the loop succeeds. -/
def Loops (step : σ → Parser (σ ⊕ α)) (x : σ) (before after : List Token) (Q : α → Prop) : Prop :=
  ∀ rounds : List (Token × Span), before.length ≤ rounds.length →
    (iterate.go step rounds x).Takes before after Q

namespace Loops

variable {step : σ → Parser (σ ⊕ α)} {x : σ} {I : σ → Prop}

/-- Less may be said of the result of a loop. -/
theorem imp {Q' : α → Prop} (h : Loops step x xs ys Q) (hQ : ∀ a, Q a → Q' a) :
    Loops step x xs ys Q' :=
  fun rounds hrounds => (h rounds hrounds).imp hQ

/-- The loop ends in this round. -/
theorem done (h : (step x).Takes xs ys fun r => ∃ a, r = .inr a ∧ Q a) :
    Loops step x xs ys Q := by
  intro rounds _
  cases rounds <;>
  · refine h.bind fun r hr => ?_
    obtain ⟨a, rfl, ha⟩ := hr
    exact .pure ha

/-- The loop goes on after this round, which reads a token and leaves others. -/
theorem more (ys : List Token)
    (h : (step x).Takes xs ys fun r => ∃ y, r = .inl y ∧ I y) (hshorter : ys.length < xs.length)
    (hnext : ∀ y, I y → Loops step y ys zs Q) : Loops step x xs zs Q := by
  intro rounds hrounds
  cases rounds with
  | nil => exact absurd (Nat.lt_of_lt_of_le hshorter hrounds) (Nat.not_lt_zero _)
  | cons round rounds =>
    refine h.bind fun r hr => ?_
    obtain ⟨y, rfl, hy⟩ := hr
    refine hnext y hy rounds ?_
    rw [List.length_cons] at hrounds
    omega

/-- A loop that is entered. -/
theorem iterate (h : Loops step x xs ys Q) : (Parser.iterate step x).Takes xs ys Q := by
  intro s hs
  refine h s.rest (Nat.le_of_eq ?_) hs
  rw [← hs.tokens, List.length_map]

end Loops

end Parser

end Templating
