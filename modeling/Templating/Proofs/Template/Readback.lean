import Templating.Proofs.Template.Items
import Templating.Proofs.Template.Precedence

/-!
# Reading printed expressions back

Each way of building an expression from smaller ones is met by the reader of its rank: from tokens
of the parts, read back at the ranks that the printer asks for, it reads the expression. With
enough levels of nesting left every printable expression is therefore read back from its tokens,
up to the places where they stand.
-/

namespace Templating

namespace Parser

open Token (enclosedUnless separated)

variable {isFilter : String → Bool} {k n : Nat} {ts us : List Token} {e e' : Expr}

section Operators

/-- At the rank of a chain, more may follow. -/
theorem Grows.begun (h : Grows isFilter k (n + 1) ts e) (hsign : n + 1 ≠ 3) (hnot : n + 1 ≠ 8) :
    Begun isFilter k n ts e := by
  simpa only [Grows, if_neg hsign, if_neg hnot] using h

/-- Where more may follow, the expression grows. -/
theorem Begun.grows (h : Begun isFilter k n ts e) (hsign : n + 1 ≠ 3) (hnot : n + 1 ≠ 8) :
    Grows isFilter k (n + 1) ts e := by
  simpa only [Grows, if_neg hsign, if_neg hnot] using h

/-- One round of the loop adds to an expression, and more may follow. -/
theorem Begun.extend (h : Begun isFilter k n ts e) {t : Token} {more : List Token}
    (ht : ∀ m ≤ n, continuesAt m t = false)
    (hstep : ∀ span x mid, e.Copies x → Stops n mid.head? →
      (stepAt isFilter k (n + 1) (reader isFilter k n) span x).Takes (t :: more ++ mid) mid
        fun r => ∃ y, r = .inl y ∧ e'.Copies y) :
    Begun isFilter k n (ts ++ t :: more) e' where
  begins := h.begins.append
  takes span mid after Q hmid hloop := by
    rw [List.append_assoc]
    refine h.takes span _ after Q (stops_cons ht) fun x hx =>
      .more _ (hstep span x mid hx hmid) ?_ hloop
    simp only [List.cons_append, List.length_cons, List.length_append]
    omega

/-- The token of an operator is read as the operator. -/
theorem operatorAt?_token (op : BinaryOp) : operatorAt? op.rank op.token = some op := by
  cases op <;> rfl

/-- The token of an operator does not carry on a tighter operand. -/
theorem continuesAt_token (op : BinaryOp) : ∀ m < op.rank, continuesAt m op.token = false := by
  cases op <;> decide

/-- What is added at the rank of a binary operator is an operator and an operand. -/
theorem stepAt_operator {op : BinaryOp} (hn : op.rank = n + 1) (operand : Parser Expr) :
    stepAt isFilter k (n + 1) operand = binaryStep (operatorAt? op.rank) operand := by
  rw [hn]
  match n with
  | 0 => cases op <;> cases hn
  | 1 => cases op <;> cases hn
  | n + 2 => rfl

/-- An operator joins what may grow at its rank with a tighter operand. -/
theorem Grows.binary {op : BinaryOp} (hn : op.rank = n + 1) {left right : Expr}
    (hleft : Grows isFilter k (n + 1) ts left) (hright : Grows isFilter k n us right) (s : Span) :
    Grows isFilter k (n + 1) (ts ++ op.token :: us) (.binary op left right s) := by
  have hsign : n + 1 ≠ 3 := by rw [← hn]; cases op <;> decide
  have hnot : n + 1 ≠ 8 := by rw [← hn]; cases op <;> decide
  refine Begun.grows (Begun.extend (hleft.begun hsign hnot)
    (fun m hm => continuesAt_token op m (by omega)) fun span x mid hx hmid => ?_) hsign hnot
  rw [stepAt_operator hn]
  refine Takes.peek.bind fun next hnext => ?_
  obtain ⟨p, rfl, hp⟩ := Option.map_eq_some_iff.mp hnext
  simp only [Option.bind_some, hp, operatorAt?_token]
  refine Takes.advance.bind fun _ _ => (hright.spells.takes mid hmid).bind fun y hy =>
    (Takes.upToHere span).bind fun stretch _ => .pure ⟨_, rfl, ?_⟩
  rw [Expr.Copies, Expr.erased, Expr.erased, hx, hy]

/-- A sign stands before what is read with one level less. -/
theorem Spells.neg (h : Spells isFilter k 3 ts e) (s : Span) :
    Spells isFilter (k + 1) 3 (.minus :: ts) (.unary .neg e s) where
  begins := ⟨.minus, ts, rfl, rfl⟩
  takes after hafter := by
    rw [reader_prefixed]
    refine (plusSigns_none (by simp [isPlus])).bind fun _ _ =>
      Takes.currentSpan.bind fun span _ => Takes.peek.bind fun next hnext => ?_
    rw [hnext]
    refine Takes.advance.bind fun _ _ => (h.takes after hafter).bind fun x hx =>
      (Takes.upToHere span).bind fun stretch _ => .pure ?_
    rw [Expr.Copies, Expr.erased, Expr.erased, hx]

/-- A negation stands before negations. -/
theorem Negated.not (h : Negated isFilter k ts e) (s : Span) :
    Negated isFilter k (.ident "not" :: ts) (.unary .not e s) := by
  obtain ⟨m, us, subject, rfl, hsubject, he⟩ := h
  exact ⟨m + 1, us, subject, rfl, hsubject, by rw [Expr.erased, he, negations]⟩

end Operators

section Lists

/-- With so many levels of nesting left, a whole expression is read from the tokens. -/
structure ReadsExpr (isFilter : String → Bool) (k : Nat) (ts : List Token) (e : Expr) : Prop where
  begins : BeginsAt 10 ts
  takes : ∀ after, Stops 10 after.head? → (level isFilter k).expr.Takes (ts ++ after) after e.Copies

/-- What is read at the loosest rank is a whole expression one level up. -/
theorem Spells.readsExpr (h : Spells isFilter k 10 ts e) : ReadsExpr isFilter (k + 1) ts e :=
  ⟨h.begins, h.takes⟩

/-- A token closes a list: it does not carry on an expression, and none begins with a token that
would close the list. -/
structure Closes (closes : Token → Bool) (close : Token) : Prop where
  closed : closes close = true
  stops : ∀ m ≤ 10, continuesAt m close = false
  others : ∀ t, beginsAt 10 t = true → closes t = false

/-- A parenthesis closes arguments. -/
theorem closes_paren : Closes isParenClose .parenClose :=
  ⟨rfl, by decide, fun t ht => by cases t <;> first | rfl | exact ht.symm⟩

/-- A bracket closes a list. -/
theorem closes_bracket : Closes isBracketClose .bracketClose :=
  ⟨rfl, by decide, fun t ht => by cases t <;> first | rfl | exact ht.symm⟩

/-- A brace closes a map. -/
theorem closes_brace : Closes isBraceClose .braceClose :=
  ⟨rfl, by decide, fun t ht => by cases t <;> first | rfl | exact ht.symm⟩

/-- A comma does not carry on an expression. -/
theorem continuesAt_comma : ∀ m ≤ 10, continuesAt m .comma = false := by decide

/-- A whole expression ends where a list goes on or is closed. -/
theorem Closes.stops_cons {closes : Token → Bool} {close t : Token} (h : Closes closes close)
    (ht : t = .comma ∨ t = close) (rest : List Token) : Stops 10 (t :: rest).head? := by
  rcases ht with rfl | rfl
  · exact Parser.stops_cons continuesAt_comma
  · exact Parser.stops_cons h.stops

/-- An expression is an item of a list. -/
theorem ReadsExpr.readsItem {closes : Token → Bool} {close : Token}
    (h : ReadsExpr isFilter k ts e) (hclose : Closes closes close) :
    ReadsItem closes close (level isFilter k).expr e.Copies ts where
  opens := by
    obtain ⟨t, rest, hts, ht⟩ := h.begins
    exact ⟨t, rest, hts, hclose.others t ht⟩
  takes t rest ht := h.takes (t :: rest) (hclose.stops_cons ht rest)

/-- One entry is the other up to the places it came from. -/
def EntryCopies (entry entry' : Expr × Expr) : Prop :=
  entry.1.Copies entry'.1 ∧ entry.2.Copies entry'.2

/-- A key that is no bare word, and a value behind a colon, are an entry of a map. -/
theorem ReadsExpr.readsEntry {value : Expr} (hvalue : ReadsExpr isFilter k us value)
    (hkey : Spells isFilter k 0 ts e)
    (hopens : ∃ t rest, ts = t :: rest ∧ (t = .parenOpen ∨ ∃ s, t = .text s)) :
    ReadsItem isBraceClose .braceClose
      (mapEntry (level isFilter k).primary (level isFilter k).expr) (EntryCopies (e, value))
      (ts ++ .colon :: us) where
  opens := by
    obtain ⟨t, rest, rfl, rfl | ⟨s, rfl⟩⟩ := hopens
    · exact ⟨_, _, rfl, rfl⟩
    · exact ⟨_, _, rfl, rfl⟩
  takes t rest ht := by
    have hread : (level isFilter k).primary.Takes (ts ++ .colon :: (us ++ t :: rest))
        (.colon :: (us ++ t :: rest)) e.Copies := hkey.takes _ (stops_cons (by decide))
    rw [List.append_assoc, List.cons_append]
    have hbehind : ∀ key, e.Copies key → (do
        expect isColon
        let value ← (level isFilter k).expr
        return (key, value)).Takes (.colon :: (us ++ t :: rest)) (t :: rest)
          (EntryCopies (e, value)) := fun key hkey => (Takes.expect rfl).bind fun _ _ =>
      (hvalue.takes _ (closes_brace.stops_cons ht rest)).bind fun v hv => .pure ⟨hkey, hv⟩
    refine Takes.peek.bind fun next hnext => ?_
    obtain ⟨_, _, rfl, rfl | ⟨s, rfl⟩⟩ := hopens <;>
    · obtain ⟨⟨_, at_⟩, rfl, rfl⟩ := Option.map_eq_some_iff.mp hnext
      exact hread.bind hbehind

variable {tss : List (List Token)} {es : List Expr}

/-- Arguments are read from what spells each of them. -/
theorem arguments_takes (h : List.Forall₂ (ReadsExpr isFilter k) tss es) (after : List Token) :
    (arguments (level isFilter k).expr).Takes
      (.parenOpen :: separated tss ++ .parenClose :: after) after (List.Forall₂ Expr.Copies es) :=
  (Takes.expect rfl).bind fun _ _ => commaList_takes rfl rfl
    (h.imp fun _ _ hitem => hitem.readsItem closes_paren) after

/-- Copies of expressions agree without their places. -/
theorem allErased_of_copies {es es' : List Expr} (h : List.Forall₂ Expr.Copies es es') :
    Expr.allErased es' = Expr.allErased es := by
  induction h with
  | nil => rfl
  | cons he _ ih => rw [Expr.allErased, Expr.allErased, he, ih]

/-- Copies of entries agree without their places. -/
theorem entriesErased_of_copies {entries entries' : List (Expr × Expr)}
    (h : List.Forall₂ EntryCopies entries entries') :
    Expr.entriesErased entries' = Expr.entriesErased entries := by
  induction h with
  | nil => rfl
  | cons he _ ih => rw [Expr.entriesErased, Expr.entriesErased, he.1, he.2, ih]

end Lists

section Postfix

variable {name : String} {args : List Expr} {tss : List (List Token)} {key : Expr}

/-- A point and a word behind a subject. -/
theorem Grows.attr (h : Grows isFilter k 1 ts e) (name : String) (s : Span) :
    Grows isFilter k 1 (ts ++ [.dot, .ident name]) (.attr e name s) := by
  refine Begun.grows ((h.begun (by decide) (by decide)).extend (by decide)
    fun span x mid hx hmid => ?_) (by decide) (by decide)
  refine Takes.currentSpan.bind fun here _ => Takes.peek.bind fun next hnext => ?_
  rw [hnext]
  refine Takes.advance.bind fun _ _ => Takes.require.bind fun (token, at_) htoken => ?_
  obtain rfl : token = .ident name := htoken
  refine (Takes.upToHere span).bind fun stretch _ => .pure ⟨_, rfl, ?_⟩
  rw [Expr.Copies, Expr.erased, Expr.erased, hx]

/-- A key in brackets behind a subject. -/
theorem Grows.item (h : Grows isFilter k 1 ts e) (hkey : ReadsExpr isFilter k us key) (s : Span) :
    Grows isFilter k 1 (ts ++ .bracketOpen :: us ++ [.bracketClose]) (.item e key s) := by
  rw [List.append_assoc, List.cons_append]
  refine Begun.grows ((h.begun (by decide) (by decide)).extend (by decide)
    fun span x mid hx hmid => ?_) (by decide) (by decide)
  refine Takes.currentSpan.bind fun here _ => Takes.peek.bind fun next hnext => ?_
  rw [hnext, List.cons_append, List.append_assoc, List.singleton_append]
  have hread := hkey.takes (.bracketClose :: mid) (closes_bracket.stops_cons (.inr rfl) mid)
  refine Takes.advance.bind fun _ _ => hread.bind fun y hy => (Takes.expect rfl).bind fun _ _ =>
    (Takes.upToHere span).bind fun stretch _ => .pure ⟨_, rfl, ?_⟩
  rw [Expr.Copies, Expr.erased, Expr.erased, hx, hy]

/-- Arguments in parentheses behind a callee. -/
theorem Grows.call (h : Grows isFilter k 1 ts e)
    (hargs : List.Forall₂ (ReadsExpr isFilter k) tss args) (s : Span) :
    Grows isFilter k 1 (ts ++ .parenOpen :: separated tss ++ [.parenClose]) (.call e args s) := by
  rw [List.append_assoc, List.cons_append]
  refine Begun.grows ((h.begun (by decide) (by decide)).extend (by decide)
    fun span x mid hx hmid => ?_) (by decide) (by decide)
  refine Takes.currentSpan.bind fun here _ => Takes.peek.bind fun next hnext => ?_
  rw [hnext, List.cons_append, List.append_assoc, List.singleton_append]
  refine (arguments_takes hargs mid).bind fun args' hargs' =>
    (Takes.upToHere here).bind fun stretch _ => .pure ⟨_, rfl, ?_⟩
  rw [Expr.Copies, Expr.erased, Expr.erased, hx, allErased_of_copies hargs']

/-- A registered filter behind a subject, with no arguments. -/
theorem Grows.filter_nil (h : Grows isFilter k 2 ts e) (hname : isFilter name = true) (s : Span) :
    Grows isFilter k 2 (ts ++ [.pipe, .ident name]) (.filter name e [] s) := by
  refine Begun.grows ((h.begun (by decide) (by decide)).extend (by decide)
    fun span x mid hx hmid => ?_) (by decide) (by decide)
  refine (Takes.skipIf rfl).bind fun passed hpassed => ?_
  rw [if_pos hpassed]
  refine Takes.require.bind fun (token, at_) htoken => ?_
  obtain rfl : token = .ident name := htoken
  simp only [pure_bind, hname, if_true]
  refine Takes.peek.bind fun next hnext => ?_
  have hfiltered : ∀ stretch, Expr.Copies (.filter name e [] s) (.filter name x [] stretch) :=
    fun stretch => by rw [Expr.Copies, Expr.erased, Expr.erased, hx]
  -- what follows does not open arguments, since this would carry on the operand
  cases next with
  | none => exact (Takes.upToHere span).bind fun stretch _ => .pure ⟨_, rfl, hfiltered stretch⟩
  | some p =>
    have hopen : isParenOpen p.1 = false := by
      have hp := hmid p.1 hnext.symm 1 (Nat.le_refl 1)
      generalize p.1 = t at hp
      cases t with
      | parenOpen => exact absurd hp (by decide)
      | _ => rfl
    simp only [hopen, if_neg Bool.false_ne_true]
    exact (Takes.upToHere span).bind fun stretch _ => .pure ⟨_, rfl, hfiltered stretch⟩

/-- A registered filter behind a subject, with arguments. -/
theorem Grows.filter (h : Grows isFilter k 2 ts e) (hname : isFilter name = true)
    (hargs : List.Forall₂ (ReadsExpr isFilter k) tss args) (s : Span) :
    Grows isFilter k 2
      (ts ++ .pipe :: .ident name :: (.parenOpen :: separated tss ++ [.parenClose]))
      (.filter name e args s) := by
  refine Begun.grows ((h.begun (by decide) (by decide)).extend (by decide)
    fun span x mid hx hmid => ?_) (by decide) (by decide)
  simp only [List.append_assoc, List.cons_append, List.nil_append]
  refine (Takes.skipIf rfl).bind fun passed hpassed => ?_
  rw [if_pos hpassed]
  refine Takes.require.bind fun (token, at_) htoken => ?_
  obtain rfl : token = .ident name := htoken
  simp only [pure_bind, hname, if_true]
  refine Takes.peek.bind fun next hnext => ?_
  obtain ⟨⟨_, at_⟩, rfl, rfl⟩ := Option.map_eq_some_iff.mp hnext
  simp only [isParenOpen, if_true]
  refine (arguments_takes hargs mid).bind fun args' hargs' =>
    (Takes.upToHere span).bind fun stretch _ => .pure ⟨_, rfl, ?_⟩
  rw [Expr.Copies, Expr.erased, Expr.erased, hx, allErased_of_copies hargs']

end Postfix

section Operands

/-- The reader of the tightest rank reads operands. -/
theorem reader_operand (isFilter : String → Bool) (k : Nat) : reader isFilter (k + 1) 0 =
    operand (level isFilter k).primary (level isFilter k).expr := rfl

/-- A word that is no keyword is a variable. -/
theorem spells_var {name : String}
    (h : name ∉ ["true", "false", "null", "none", "not"]) (s : Span) :
    Spells isFilter (k + 1) 0 [.ident name] (.var name s) where
  begins := ⟨.ident name, [], rfl, by
    have : name ≠ "not" := fun hname => h (by simp [hname])
    simp [beginsAt, this]⟩
  takes after _ := by
    simp only [List.mem_cons, not_or] at h
    rw [reader_operand]
    refine Takes.require.bind fun found htoken => ?_
    obtain ⟨token, span⟩ := found
    obtain rfl : token = .ident name := htoken
    simp only
    split
    case h_5 hname => exact .pure (by rw [Token.ident.inj hname]; rfl)
    -- the word is none of the keywords, and no other token
    all_goals simp_all

/-- A string that no string follows is the whole string. -/
theorem moreText_takes {xs : List Token} (h : Stops 0 xs.head?) (value : String) :
    (moreText value).Takes xs xs fun all => all = value := by
  refine Loops.iterate (.done (Takes.peek.bind fun next hnext => ?_))
  cases next with
  | none => exact .pure ⟨value, rfl, rfl⟩
  | some p =>
    have hp := h p.1 hnext.symm 0 (Nat.le_refl 0)
    obtain ⟨token, at_⟩ := p
    cases token with
    | text more => exact absurd hp (by simp [continuesAt])
    | _ => exact .pure ⟨value, rfl, rfl⟩

/-- The token of a constant is read as the constant. -/
theorem spells_const {v : Value} (h : v.isPrintable = true) (s : Span) :
    Spells isFilter (k + 1) 0 [v.token] (.const v s) where
  begins := ⟨v.token, [], rfl, by
    cases v with
    | bool b => cases b <;> rfl
    | _ => rfl⟩
  takes after hafter := by
    rw [reader_operand]
    refine Takes.require.bind fun (token, span) htoken => ?_
    obtain rfl : token = v.token := htoken
    have hconst : (do return .const v (← upToHere span) : Parser Expr).Takes after after
        (Expr.const v s).Copies := (Takes.upToHere span).bind fun _ _ => .pure rfl
    cases v with
    | null => exact hconst
    | bool b => cases b <;> exact hconst
    | int n => exact hconst
    | text t safe =>
      obtain rfl : safe = false := by simpa [Value.isPrintable] using h
      refine (moreText_takes hafter t).bind fun value hvalue => ?_
      rw [hvalue]
      exact hconst
    | _ => simp [Value.isPrintable] at h

/-- In parentheses, an expression is read with two levels less. -/
theorem Spells.enclosed (h : Spells isFilter k 10 ts e) :
    Spells isFilter (k + 2) 0 (.parenOpen :: ts ++ [.parenClose]) e where
  begins := ⟨.parenOpen, _, rfl, rfl⟩
  takes after _ := by
    have hread := h.takes (.parenClose :: after) (stops_cons closes_paren.stops)
    rw [List.cons_append, List.cons_append, List.append_assoc, List.singleton_append,
      reader_operand]
    refine Takes.require.bind fun (token, span) htoken => ?_
    obtain rfl : token = .parenOpen := htoken
    exact hread.bind fun x hx => (Takes.expect rfl).bind fun _ _ => .pure hx

/-- Items in brackets are a list. -/
theorem spells_list {tss : List (List Token)} {items : List Expr}
    (h : List.Forall₂ (ReadsExpr isFilter k) tss items) (s : Span) :
    Spells isFilter (k + 1) 0 (.bracketOpen :: separated tss ++ [.bracketClose])
      (.list items s) where
  begins := ⟨.bracketOpen, _, rfl, rfl⟩
  takes after _ := by
    have hread := commaList_takes rfl rfl
      (h.imp fun _ _ hitem => hitem.readsItem closes_bracket) after
    rw [List.cons_append, List.cons_append, List.append_assoc, List.singleton_append,
      reader_operand]
    refine Takes.require.bind fun (token, span) htoken => ?_
    obtain rfl : token = .bracketOpen := htoken
    refine hread.bind fun items' hitems => (Takes.upToHere span).bind fun _ _ => .pure ?_
    rw [Expr.Copies, Expr.erased, Expr.erased, allErased_of_copies hitems]

/-- Entries in braces are a map. -/
theorem spells_map {tss : List (List Token)} {entries : List (Expr × Expr)}
    (h : ReadsItems isBraceClose .braceClose
      (mapEntry (level isFilter k).primary (level isFilter k).expr) EntryCopies tss entries)
    (s : Span) :
    Spells isFilter (k + 1) 0 (.braceOpen :: separated tss ++ [.braceClose])
      (.map entries s) where
  begins := ⟨.braceOpen, _, rfl, rfl⟩
  takes after _ := by
    have hread := commaList_takes rfl rfl h after
    rw [List.cons_append, List.cons_append, List.append_assoc, List.singleton_append,
      reader_operand]
    refine Takes.require.bind fun (token, span) htoken => ?_
    obtain rfl : token = .braceOpen := htoken
    refine hread.bind fun entries' hentries => (Takes.upToHere span).bind fun _ _ => .pure ?_
    rw [Expr.Copies, Expr.erased, Expr.erased, entriesErased_of_copies hentries]

end Operands

end Parser

open Templating.Parser
open Token (enclosedUnless)

namespace Expr

/-- A string literal is a constant. -/
theorem eq_const_of_isText {e : Expr} (h : e.isText = true) :
    ∃ value safe s, e = .const (.text value safe) s := by
  cases e with
  | const v s =>
    cases v with
    | text value safe => exact ⟨value, safe, s, rfl⟩
    | _ => simp [isText] at h
  | _ => simp [isText] at h

/-- The key of a map is written as a string or in parentheses. -/
theorem key_opens (key : Expr) : ∃ t rest, enclosedUnless key.isText key.tokens = t :: rest ∧
    (t = .parenOpen ∨ ∃ s, t = .text s) := by
  cases hkey : key.isText with
  | true =>
    obtain ⟨value, safe, s, rfl⟩ := eq_const_of_isText hkey
    exact ⟨.text value, [], rfl, .inr ⟨value, rfl⟩⟩
  | false => exact ⟨.parenOpen, _, rfl, .inl rfl⟩

/-- The operators of the loosest rank are alternatives. -/
theorem rank_le (e : Expr) : e.rank ≤ 10 := by
  cases e with
  | unary op => cases op <;> simp [rank, UnaryOp.rank]
  | binary op => cases op <;> simp [rank, BinaryOp.rank]
  | _ => simp [rank]

/-- Parentheses do not take levels away. -/
theorem enclosedDepth_pos (fits : Bool) {depth : Nat} (h : 0 < depth) :
    0 < enclosedDepth fits depth := by
  unfold enclosedDepth
  split <;> omega

/-- An expression takes at least one level of nesting. -/
theorem depth_pos : ∀ e : Expr, 0 < e.depth
  | .var .. => Nat.one_pos
  | .const .. => Nat.one_pos
  | .unary .neg _ _ => Nat.succ_pos _
  | .unary .not operand _ => enclosedDepth_pos _ (depth_pos operand)
  | .binary _ left _ _ =>
    Nat.lt_of_lt_of_le (enclosedDepth_pos _ (depth_pos left)) (Nat.le_max_left ..)
  | .attr subject _ _ => enclosedDepth_pos _ (depth_pos subject)
  | .item subject _ _ =>
    Nat.lt_of_lt_of_le (enclosedDepth_pos _ (depth_pos subject)) (Nat.le_max_left ..)
  | .filter _ subject _ _ =>
    Nat.lt_of_lt_of_le (enclosedDepth_pos _ (depth_pos subject)) (Nat.le_max_left ..)
  | .call callee _ _ =>
    Nat.lt_of_lt_of_le (enclosedDepth_pos _ (depth_pos callee)) (Nat.le_max_left ..)
  | .list .. => Nat.succ_pos _
  | .map .. => Nat.succ_pos _

/-- With levels of nesting enough for its depth, the expression is read back from its tokens. -/
def ReadsBack (isFilter : String → Bool) (e : Expr) : Prop :=
  ∀ k, e.depth ≤ k + 1 → Grows isFilter (k + 1) e.rank e.tokens e

variable {isFilter : String → Bool} {e : Expr} {k n : Nat}

/-- Read back as an operand of a rank, in parentheses unless it fits. -/
theorem ReadsBack.enclosed (h : e.ReadsBack isFilter) {fits : Bool}
    (hfits : fits = true → e.rank ≤ n) (hdepth : enclosedDepth fits e.depth ≤ k + 1) :
    Grows isFilter (k + 1) n (enclosedUnless fits e.tokens) e := by
  cases fits with
  | true => exact (h k hdepth).mono (hfits rfl)
  | false =>
    obtain ⟨k, rfl⟩ : ∃ i, k = i + 2 := by
      have : e.depth + 2 ≤ k + 1 := hdepth
      exact ⟨k - 2, by have := e.depth_pos; omega⟩
    have hdepth : e.depth + 2 ≤ k + 3 := hdepth
    have hwhole : Grows isFilter (k + 1) 10 e.tokens e := (h k (by omega)).mono e.rank_le
    exact Grows.mono (n := 0) hwhole.spells.enclosed (Nat.zero_le n)

/-- Read back as a whole, one level down. -/
theorem ReadsBack.readsExpr (h : e.ReadsBack isFilter) (hdepth : e.depth + 1 ≤ k) :
    ReadsExpr isFilter k e.tokens e := by
  obtain ⟨k, rfl⟩ : ∃ i, k = i + 2 := ⟨k - 2, by have := e.depth_pos; omega⟩
  exact ((h k (by omega)).mono e.rank_le).spells.readsExpr

mutual

/-- Every printable expression is read back. -/
theorem readsBack : ∀ e : Expr, e.isPrintable isFilter = true → e.ReadsBack isFilter
  | .var name s, h, k, _ => by
    rw [isPrintable, Bool.and_eq_true] at h
    exact spells_var (by simpa using h.2) s
  | .const value s, h, k, _ => spells_const h s
  | .unary .neg operand s, h, k, hk => by
    have hk : enclosedDepth (operand.rank ≤ 3) operand.depth ≤ k := Nat.le_of_succ_le_succ hk
    obtain ⟨k, rfl⟩ : ∃ i, k = i + 1 :=
      ⟨k - 1, by have := enclosedDepth_pos (operand.rank ≤ 3) operand.depth_pos; omega⟩
    exact ((readsBack operand h).enclosed (by simp) hk).spells.neg s
  | .unary .not operand s, h, k, hk =>
    Negated.not ((readsBack operand h).enclosed (n := 8) (by simp) hk) s
  | .binary op left right s, h, k, hk => by
    rw [isPrintable, Bool.and_eq_true] at h
    rw [depth, Nat.max_le] at hk
    obtain ⟨n, hn⟩ : ∃ n, op.rank = n + 1 := by cases op <;> exact ⟨_, rfl⟩
    have hleft := (readsBack left h.1).enclosed (n := n + 1) (by simp [hn]) hk.1
    have hfits : decide (right.rank < op.rank) = true → right.rank ≤ n := fun hlt => by
      have := of_decide_eq_true hlt
      omega
    have hright := (readsBack right h.2).enclosed hfits hk.2
    have hgrows := hleft.binary hn hright s
    rwa [← hn] at hgrows
  | .attr subject name s, h, k, hk => by
    rw [isPrintable, Bool.and_eq_true] at h
    exact ((readsBack subject h.2).enclosed (by simp) hk).attr name s
  | .item subject key s, h, k, hk => by
    rw [isPrintable, Bool.and_eq_true] at h
    rw [depth, Nat.max_le] at hk
    exact ((readsBack subject h.1).enclosed (by simp) hk.1).item
      ((readsBack key h.2).readsExpr hk.2) s
  | .filter name subject args s, h, k, hk => by
    simp only [isPrintable, Bool.and_eq_true] at h
    rw [depth, Nat.max_le] at hk
    have hsubject := (readsBack subject h.2.1).enclosed (n := 2) (by simp) hk.1
    cases args with
    | nil => exact hsubject.filter_nil h.1.2 s
    | cons arg args => exact hsubject.filter h.1.2 (allReadBack _ h.2.2 (k + 1) hk.2) s
  | .call callee args s, h, k, hk => by
    rw [isPrintable, Bool.and_eq_true] at h
    rw [depth, Nat.max_le] at hk
    exact ((readsBack callee h.1).enclosed (by simp) hk.1).call
      (allReadBack args h.2 (k + 1) hk.2) s
  | .list items s, h, k, hk =>
    spells_list (allReadBack items h k (Nat.le_of_succ_le_succ hk)) s
  | .map entries s, h, k, hk =>
    spells_map (entriesReadBack entries h k (Nat.le_of_succ_le_succ hk)) s

/-- Every one of several printable expressions is read back. -/
theorem allReadBack : ∀ es : List Expr, allPrintable isFilter es = true → ∀ k,
    depthOfAll es ≤ k → List.Forall₂ (ReadsExpr isFilter k) (tokensOfAll es) es
  | [], _, _, _ => .nil
  | e :: rest, h, k, hk => by
    rw [allPrintable, Bool.and_eq_true] at h
    rw [depthOfAll, Nat.max_le] at hk
    exact .cons ((readsBack e h.1).readsExpr hk.1) (allReadBack rest h.2 k hk.2)

/-- Every entry of a map of printable expressions is read back. -/
theorem entriesReadBack : ∀ entries : List (Expr × Expr), entriesPrintable isFilter entries = true →
    ∀ k, depthOfEntries entries ≤ k → ReadsItems isBraceClose .braceClose
      (mapEntry (level isFilter k).primary (level isFilter k).expr) EntryCopies
      (tokensOfEntries entries) entries
  | [], _, _, _ => .nil
  | (key, value) :: rest, h, k, hk => by
    rw [entriesPrintable, Bool.and_eq_true, Bool.and_eq_true] at h
    rw [depthOfEntries, Nat.max_le, Nat.max_le] at hk
    obtain ⟨k, rfl⟩ : ∃ i, k = i + 1 := ⟨k - 1, by omega⟩
    have hfits : key.isText = true → key.rank ≤ 0 := fun htext => by
      obtain ⟨value, safe, s, rfl⟩ := eq_const_of_isText htext
      exact Nat.le_refl 0
    have hkey := (readsBack key h.1.1).enclosed hfits hk.1.1
    exact .cons (((readsBack value h.1.2).readsExpr hk.1.2).readsEntry hkey key.key_opens)
      (entriesReadBack rest h.2 (k + 1) hk.2)

end

end Expr

end Templating
