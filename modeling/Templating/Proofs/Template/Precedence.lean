import Templating.Proofs.Template.Acceptance
import Templating.Proofs.Template.Printing

/-!
# Precedence

The grammar is a ladder of readers, one for each rank: what a reader accepts the reader of the next
rank accepts as well, unless a token follows that carries on an operand of that rank. Most readers
begin with an operand of the rank below and add to it from the left in a loop. For these it is not
enough to know what they read as a whole, since the tokens of the left operand are read by the
first rounds of the very loop that reads the operator. So what is shown of tokens at such a rank is
that, whatever the loop does with the expression that they spell, the reader does behind them.
-/

namespace Templating

/-- One expression is the other up to the places they came from. -/
def Expr.Copies (e e' : Expr) : Prop := e'.erased = e.erased

namespace Parser

/-- The operators that join two operands of a rank. -/
def operatorAt? : Nat → Token → Option BinaryOp
  | 4 => productOp?
  | 5 => concatOp?
  | 6 => sumOp?
  | 7 => compareOp?
  | 9 => andOp?
  | 10 => orOp?
  | _ => fun _ => none

/-- The token carries on an operand of a rank: a string goes on with a string, the tight operators
begin with a point, a bracket or a parenthesis, filters with a bar. -/
def continuesAt (n : Nat) (t : Token) : Bool :=
  match n, t with
  | 0, .text _ => true
  | 1, .dot => true
  | 1, .bracketOpen => true
  | 1, .parenOpen => true
  | 2, .pipe => true
  | n, t => (operatorAt? n t).isSome

/-- The token that follows, if there is one, does not carry on an operand of any rank up to the
given one. -/
def Stops (n : Nat) (next : Option Token) : Prop :=
  ∀ t ∈ next, ∀ m ≤ n, continuesAt m t = false

/-- The token may begin an expression of a rank. -/
def beginsAt (n : Nat) : Token → Bool
  | .ident name => name != "not" || 8 ≤ n
  | .minus => 3 ≤ n
  | .text _ => true
  | .int _ => true
  | .parenOpen => true
  | .bracketOpen => true
  | .braceOpen => true
  | _ => false

/-- An operand, and what a loop adds to it. -/
def chain (operand : Parser Expr) (step : Span → Expr → Parser (Expr ⊕ Expr)) : Parser Expr := do
  let span ← currentSpan
  let first ← operand
  iterate (step span) first

/-- A binary operator and its right operand. -/
def binaryStep (op? : Token → Option BinaryOp) (operand : Parser Expr) (span : Span)
    (left : Expr) : Parser (Expr ⊕ Expr) := do
  match (← peek?).bind fun t => op? t.1 with
  | none => return .inr left
  | some op =>
    advance
    let right ← operand
    return .inl (.binary op left right (← upToHere span))

/-- An attribute, an item or a call. -/
def postfixStep (expr : Parser Expr) (span : Span) (subject : Expr) : Parser (Expr ⊕ Expr) := do
  let here ← currentSpan
  match (← peek?).map Prod.fst with
  | some .dot =>
    advance
    match ← require with
    | (.ident name, _) => return .inl (.attr subject name (← upToHere span))
    | (.int index, at_) =>
      return .inl (.item subject (.const (.int index) at_) (← upToHere span))
    | (token, at_) => fail (misplaced token at_)
  | some .bracketOpen =>
    advance
    let key ← expr
    expect isBracketClose
    return .inl (.item subject key (← upToHere span))
  | some .parenOpen =>
    let args ← arguments expr
    return .inl (.call subject args (← upToHere here))
  | _ => return .inr subject

/-- A filter. -/
def filterStep (isFilter : String → Bool) (expr : Parser Expr) (span : Span) (subject : Expr) :
    Parser (Expr ⊕ Expr) := do
  if ← skipIf isPipe then
    let (name, at_) ← do
      match ← require with
      | (.ident name, at_) => pure (name, at_)
      | (token, at_) => fail (misplaced token at_)
    if isFilter name then
      let hasArgs ← do
        match ← peek? with
        | some (token, _) => pure (isParenOpen token)
        | none => pure false
      let args ← if hasArgs then arguments expr else pure []
      return .inl (.filter name subject args (← upToHere span))
    else fail (.unknownFilter name at_.start.line)
  else return .inr subject

/-- Operands joined by operators are a chain. -/
theorem leftChain_eq (op? : Token → Option BinaryOp) (operand : Parser Expr) :
    leftChain op? operand = chain operand (binaryStep op? operand) := rfl

/-- An operand followed by attributes, items and calls is a chain. -/
theorem postfixed_eq (primary expr : Parser Expr) :
    postfixed primary expr = chain primary (postfixStep expr) := rfl

/-- An operand followed by filters is a chain. -/
theorem filtered_eq (isFilter : String → Bool) (operand expr : Parser Expr) :
    filtered isFilter operand expr = chain operand (filterStep isFilter expr) := rfl

section Ladder

variable (isFilter : String → Bool) (k : Nat)

/-- What the reader of a rank adds to an operand of the rank below. -/
def stepAt (n : Nat) (operand : Parser Expr) : Span → Expr → Parser (Expr ⊕ Expr) :=
  match n with
  | 1 => postfixStep (level isFilter k).expr
  | 2 => filterStep isFilter (level isFilter k).expr
  | n => binaryStep (operatorAt? n) operand

/-- The reader of expressions up to a rank, with so many levels of nesting left. -/
def reader : Nat → Parser Expr
  | 0 => (level isFilter k).primary
  | n + 1 =>
    if n + 1 = 3 then (level isFilter k).prefixed
    else if n + 1 = 8 then negation (reader n)
    else chain (reader n) (stepAt isFilter k (n + 1) (reader n))

/-- At most ranks the reader is a chain. -/
theorem reader_chain {n : Nat} (hsign : n + 1 ≠ 3) (hnot : n + 1 ≠ 8) :
    reader isFilter k (n + 1) =
      chain (reader isFilter k n) (stepAt isFilter k (n + 1) (reader isFilter k n)) := by
  rw [reader, if_neg hsign, if_neg hnot]

/-- The reader of signs reads filters, and behind a sign what one level less allows. -/
theorem reader_prefixed : reader isFilter (k + 1) 3 =
    prefixed (reader isFilter k 3) (reader isFilter (k + 1) 2) := rfl

/-- The reader of the loosest rank is that of expressions one level up. -/
theorem reader_expr : (level isFilter (k + 1)).expr = reader isFilter k 10 := rfl

end Ladder

section Following

variable {n : Nat} {t : Token} {rest : List Token}

/-- What stops an operand of a rank stops one of a tighter rank. -/
theorem Stops.mono {m : Nat} {next : Option Token} (h : Stops n next) (hm : m ≤ n) : Stops m next :=
  fun t ht i hi => h t ht i (Nat.le_trans hi hm)

/-- A token that carries on no operand stops all of them. -/
theorem stops_cons (h : ∀ m ≤ n, continuesAt m t = false) : Stops n (t :: rest).head? := by
  intro t' ht m hm
  obtain rfl := Option.some.inj ht
  exact h m hm

/-- A token that may begin an expression may begin a looser one. -/
theorem beginsAt_mono {m : Nat} (h : beginsAt n t = true) (hm : n ≤ m) : beginsAt m t = true := by
  cases t with
  | ident name =>
    simp only [beginsAt, Bool.or_eq_true, decide_eq_true_eq] at h ⊢
    exact h.imp_right fun h => Nat.le_trans h hm
  | minus =>
    simp only [beginsAt, decide_eq_true_eq] at h ⊢
    exact Nat.le_trans h hm
  | _ => exact h

end Following

section Steps

variable {xs ys : List Token} {t : Token} {e x : Expr} {op? : Token → Option BinaryOp}
  {operand expr : Parser Expr} {isFilter : String → Bool} {span : Span}

/-- Without an operator the loop ends. -/
theorem binaryStep_stops (h : ∀ t ∈ xs.head?, op? t = none) :
    (binaryStep op? operand span x).Takes xs xs fun r => r = .inr x := by
  refine Takes.peek.bind fun next hnext => ?_
  cases next with
  | none => exact .pure rfl
  | some p =>
    simp only [Option.bind_some, h p.1 hnext.symm]
    exact .pure rfl

/-- Without a point, a bracket or a parenthesis the loop ends. -/
theorem postfixStep_stops (h : ∀ t ∈ xs.head?, continuesAt 1 t = false) :
    (postfixStep expr span x).Takes xs xs fun r => r = .inr x := by
  refine Takes.currentSpan.bind fun here _ => Takes.peek.bind fun next hnext => ?_
  cases next with
  | none => exact .pure rfl
  | some p =>
    have hp := h p.1 hnext.symm
    simp only [Option.map_some]
    split
    · next hdot => simp [Option.some.inj hdot, continuesAt] at hp
    · next hopen => simp [Option.some.inj hopen, continuesAt] at hp
    · next hopen => simp [Option.some.inj hopen, continuesAt] at hp
    · exact .pure rfl

/-- Without a bar the loop ends. -/
theorem filterStep_stops (h : ∀ t ∈ xs.head?, continuesAt 2 t = false) :
    (filterStep isFilter expr span x).Takes xs xs fun r => r = .inr x := by
  refine Takes.bind (Takes.skipIf_other fun t ht => ?_) fun passed hpassed => ?_
  · have := h t ht
    cases t with
    | pipe => exact this
    | _ => rfl
  · rw [hpassed, if_neg Bool.false_ne_true]
    exact .pure rfl

/-- Where no plus sign stands, none is passed. -/
theorem plusSigns_none (h : ∀ t ∈ xs.head?, isPlus t = false) :
    (iterate (fun (_ : Unit) => do
      if ← skipIf isPlus then return .inl () else return .inr ()) ()).Takes xs xs
        fun _ => True := by
  refine Loops.iterate (.done ((Takes.skipIf_other h).bind fun passed hpassed => ?_))
  rw [hpassed, if_neg Bool.false_ne_true]
  exact .pure ⟨(), rfl, trivial⟩

/-- A loop of any rank ends where nothing carries on its operand. -/
theorem stepAt_stops {k n : Nat} (h : ∀ t ∈ xs.head?, continuesAt (n + 1) t = false) :
    (stepAt isFilter k (n + 1) operand span x).Takes xs xs fun r => r = .inr x := by
  match n with
  | 0 => exact postfixStep_stops h
  | 1 => exact filterStep_stops h
  | n + 2 =>
    refine binaryStep_stops fun t ht => ?_
    have hnone : (operatorAt? (n + 3) t).isSome = false := h t ht
    simpa using hnone

end Steps

section Ranks

variable (isFilter : String → Bool) (k n : Nat) (ts : List Token) (e : Expr)

/-- The tokens may begin an expression of a rank. -/
def BeginsAt : Prop := ∃ t rest, ts = t :: rest ∧ beginsAt n t = true

/-- With so many levels of nesting left, the reader of a rank reads the expression from the tokens,
provided that what follows does not carry it on. -/
structure Spells : Prop where
  begins : BeginsAt n ts
  takes : ∀ after, Stops n after.head? → (reader isFilter k n).Takes (ts ++ after) after e.Copies

/-- Behind the tokens, the loop of the rank above goes on with the expression. -/
structure Begun : Prop where
  begins : BeginsAt (n + 1) ts
  takes : ∀ span mid after (Q : Expr → Prop), Stops n mid.head? →
    (∀ x, e.Copies x →
      Loops (stepAt isFilter k (n + 1) (reader isFilter k n) span) x mid after Q) →
    (reader isFilter k n >>= iterate (stepAt isFilter k (n + 1) (reader isFilter k n) span)).Takes
      (ts ++ mid) after Q

/-- An expression under so many negations, without the places. -/
def negations : Nat → Expr → Expr
  | 0, e => e
  | m + 1, e => .unary .not (negations m e) {}

/-- The tokens are negations of a tighter expression. -/
def Negated : Prop :=
  ∃ m us subject, ts = List.replicate m (.ident "not") ++ us ∧ Spells isFilter k 7 us subject ∧
    e.erased = negations m subject.erased

/-- The tokens spell the expression at a rank, in such a way that more of the same rank may follow
or, at the rank of negations, come before. -/
def Grows : Prop :=
  match n with
  | 0 => Spells isFilter k 0 ts e
  | n + 1 =>
    if n + 1 = 3 then Spells isFilter k 3 ts e
    else if n + 1 = 8 then Negated isFilter k ts e
    else Begun isFilter k n ts e

end Ranks

variable {isFilter : String → Bool} {k n : Nat} {ts us : List Token} {e x : Expr}

/-- Tokens that begin an expression begin a looser one. -/
theorem BeginsAt.mono {m : Nat} (h : BeginsAt n ts) (hm : n ≤ m) : BeginsAt m ts := by
  obtain ⟨t, rest, hts, ht⟩ := h
  exact ⟨t, rest, hts, beginsAt_mono ht hm⟩

/-- Only the beginning of tokens matters. -/
theorem BeginsAt.append (h : BeginsAt n ts) : BeginsAt n (ts ++ us) := by
  obtain ⟨t, rest, rfl, ht⟩ := h
  exact ⟨t, rest ++ us, rfl, ht⟩

/-- What the tokens of an operand spell is where the loop behind it begins. -/
theorem Spells.begun (h : Spells isFilter k n ts e) : Begun isFilter k n ts e where
  begins := h.begins.mono (Nat.le_succ n)
  takes _ mid _ _ hmid hloop := (h.takes mid hmid).bind fun x hx => (hloop x hx).iterate

/-- A loop that ends behind the tokens has read what they spell. -/
theorem Begun.spells (h : Begun isFilter k n ts e) (hsign : n + 1 ≠ 3) (hnot : n + 1 ≠ 8) :
    Spells isFilter k (n + 1) ts e where
  begins := h.begins
  takes after hafter := by
    rw [reader_chain isFilter k hsign hnot]
    refine Takes.currentSpan.bind fun span _ =>
      h.takes span after after _ (hafter.mono (Nat.le_succ n)) fun x hx => .done ?_
    refine (stepAt_stops fun t ht => hafter t ht (n + 1) (Nat.le_refl _)).imp fun r hr => ?_
    exact ⟨x, hr, hx⟩

/-- Signs do not come before a tighter expression. -/
theorem Spells.prefixed (h : Spells isFilter (k + 1) 2 ts e) : Spells isFilter (k + 1) 3 ts e where
  begins := h.begins.mono (by decide)
  takes after hafter := by
    obtain ⟨t, rest, rfl, ht⟩ := h.begins
    rw [reader_prefixed]
    have hplus : isPlus t = false := by
      cases t with
      | plus => exact absurd ht (by decide)
      | _ => rfl
    refine (plusSigns_none fun t' ht' => ?_).bind fun _ _ => ?_
    · rwa [← Option.some.inj ht']
    refine Takes.currentSpan.bind fun span _ => Takes.peek.bind fun next hnext => ?_
    rw [hnext]
    simp only [List.cons_append, List.head?_cons]
    split
    · next hminus => rw [Option.some.inj hminus] at ht; exact absurd ht (by decide)
    · next hbang => rw [Option.some.inj hbang] at ht; exact absurd ht (by decide)
    · exact h.takes after (hafter.mono (by decide))

/-- Negation words are read one after the other, up to another token. -/
theorem notSigns_loops {us : List Token} (h : ∀ t ∈ us.head?, isWord "not" t = false) (m : Nat)
    (spans : List Span) :
    Loops (fun (spans : List Span) => do
        let span ← currentSpan
        if ← skipWord "not" then return .inl (span :: spans) else return .inr spans)
      spans (List.replicate m (.ident "not") ++ us) us
      fun all => all.length = m + spans.length := by
  induction m generalizing spans with
  | zero =>
    refine .done (Takes.currentSpan.bind fun span _ => (Takes.skipIf_other h).bind
      fun passed hpassed => ?_)
    rw [hpassed, if_neg Bool.false_ne_true]
    exact .pure ⟨spans, rfl, (Nat.zero_add _).symm⟩
  | succ m ih =>
    rw [List.replicate_succ, List.cons_append]
    refine .more _ (I := fun all => all.length = spans.length + 1)
      (Takes.currentSpan.bind fun span _ => (Takes.skipIf rfl).bind fun passed hpassed => ?_)
      (Nat.lt_succ_self _) fun all hall => (ih all).imp fun all' hall' => by omega
    rw [if_pos hpassed]
    exact .pure ⟨span :: spans, rfl, rfl⟩

/-- Spans that are extended are as many as before. -/
theorem mapM_upToHere_takes (xs : List Token) (spans : List Span) :
    (spans.mapM upToHere).Takes xs xs fun all => all.length = spans.length := by
  induction spans with
  | nil =>
    rw [List.mapM_nil]
    exact .pure rfl
  | cons span spans ih =>
    rw [List.mapM_cons]
    exact (Takes.upToHere span).bind fun _ _ => ih.bind fun all hall => .pure (by simp [hall])

/-- One more negation inside is one more outside. -/
theorem negations_not (m : Nat) (e : Expr) :
    negations m (.unary .not e {}) = .unary .not (negations m e) {} := by
  induction m with
  | zero => rfl
  | succ m ih => rw [negations, ih, negations]

/-- Negations around an expression. -/
theorem erased_foldl_not (spans : List Span) (e : Expr) :
    (spans.foldl (fun e span => .unary .not e span) e).erased =
      negations spans.length e.erased := by
  induction spans generalizing e with
  | nil => rfl
  | cons span spans ih => rw [List.foldl_cons, ih, Expr.erased, negations_not]; rfl

/-- Tokens of a tighter expression stand under no negation. -/
theorem Spells.negated (h : Spells isFilter k 7 ts e) : Negated isFilter k ts e :=
  ⟨0, ts, e, rfl, h, rfl⟩

/-- Negations are read as a whole. -/
theorem Negated.spells (h : Negated isFilter k ts e) : Spells isFilter k 8 ts e := by
  obtain ⟨m, us, subject, rfl, hsubject, he⟩ := h
  obtain ⟨t, rest, rfl, ht⟩ := hsubject.begins
  constructor
  · cases m with
    | zero => exact ⟨t, rest, rfl, beginsAt_mono ht (by decide)⟩
    | succ m => exact ⟨.ident "not", _, rfl, by decide⟩
  · intro after hafter
    have hword : isWord "not" t = false := by
      cases t with
      | ident name => simpa [beginsAt, isWord] using ht
      | _ => rfl
    rw [List.append_assoc]
    refine (Loops.iterate (notSigns_loops ?_ m [])).bind fun spans hspans => ?_
    · intro t' ht'
      rwa [← Option.some.inj ht']
    refine (hsubject.takes after (hafter.mono (by decide))).bind fun x hx => ?_
    refine (mapM_upToHere_takes after spans).bind fun all hall => .pure ?_
    have hlength : all.length = m := by simpa [hall] using hspans
    rw [Expr.Copies, erased_foldl_not, hlength, he, hx]

/-- What grows at a rank is read as a whole by the reader of the rank. -/
theorem Grows.spells (h : Grows isFilter k n ts e) : Spells isFilter k n ts e := by
  match n with
  | 0 => exact h
  | n + 1 =>
    simp only [Grows] at h
    split at h
    · next hsign => rwa [hsign]
    · next hsign =>
      split at h
      · next hnot => exact hnot ▸ h.spells
      · next hnot => exact h.spells hsign hnot

/-- What is read at a rank may grow at the next one. -/
theorem Spells.grows (h : Spells isFilter (k + 1) n ts e) :
    Grows isFilter (k + 1) (n + 1) ts e := by
  simp only [Grows]
  split
  · next hsign =>
    obtain rfl : n = 2 := by omega
    exact h.prefixed
  · split
    · next hnot =>
      obtain rfl : n = 7 := by omega
      exact h.negated
    · exact h.begun

/-- What grows at a rank grows at all looser ones. -/
theorem Grows.mono {m : Nat} (h : Grows isFilter (k + 1) n ts e) (hm : n ≤ m) :
    Grows isFilter (k + 1) m ts e := by
  induction hm with
  | refl => exact h
  | step _ ih => exact ih.spells.grows

end Parser

end Templating
