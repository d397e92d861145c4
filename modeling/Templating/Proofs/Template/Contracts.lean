import Templating.Template.Reading
import Templating.Proofs.Template.Regions
import Templating.Proofs.Template.Progress

/-!
# Contracts of parsers

What a parser does with the tokens of a source: if it starts at a place of some kind it ends at one
of another kind, and if it fails the error is explained by the tokens. A token is rejected when it
has been read, and then the line that is noted for the error is its own; or when it is the next one
within an output point or a tag, or the opening delimiter in front of the name of a tag, and then
the noted line is that of its neighbour.
-/

namespace Templating

open Lexer (Lexed InRegions)

/-- A token stands on the line. -/
def Lexer.Lexed.HasLine (lexed : Lexed) (line : Nat) : Prop :=
  ∃ t ∈ lexed.tokens, t.2.start.line = line

/-- The second token comes next behind the first one within an output point or a tag. -/
def Lexer.Lexed.Neighbours (lexed : Lexed) (t u : Token × Span) : Prop :=
  t.1.isInside = true ∧ ∃ before after, lexed.tokens = before ++ t :: u :: after

/-- What was rejected on a line may be noted on another one: the lines are the same, or those of two
neighbours. -/
def Lexer.Lexed.Notes (lexed : Lexed) (rejected noted : Nat) : Prop :=
  rejected = noted ∨ ∃ t u, lexed.Neighbours t u ∧
    (rejected = t.2.start.line ∧ noted = u.2.start.line ∨
      rejected = u.2.start.line ∧ noted = t.2.start.line)

/-- The error is one that reading the tokens may end with. -/
structure Lexer.Lexed.Explains (lexed : Lexed) (e : Error) : Prop where
  location : e.location? = none
  custom : e.fault.isCustom = false
  line : ∀ {n}, e.fault.rejectedLine? = some n → ∃ line, e.line? = some line ∧ lexed.Notes n line

/-- The tokens are those of a source: they stand in regions and on lines that are counted from one,
and an error that ends them is noted. -/
structure Lexer.Lexed.Regular (lexed : Lexed) : Prop where
  regions : InRegions lexed.error? false lexed.tokens
  noted : ∀ e ∈ lexed.error?, e.IsNoted
  lines : ∀ t ∈ lexed.tokens, 1 ≤ t.2.start.line

/-- A token stands on a line of the source. -/
theorem line_of_mem_lex {controls : Controls} (h : controls.check = .ok ()) {source : String}
    {t : Token × Span} (ht : t ∈ (lex controls source).tokens) :
    1 ≤ t.2.start.line ∧ t.2.start.line ≤ 1 + source.toList.count '\n' := by
  obtain ⟨start, stop, -, hspan, -⟩ := (Lexer.run_tokens_found (Controls.nonempty_of_check h)
    source.toList.length (.atStart source)).1 t.1 t.2 ht
  have hline : t.2.start.line = 1 + (source.toList.take start).count '\n' := by
    rw [hspan]
    exact Position.line_advance _ _
  rw [hline]
  exact ⟨Nat.le_add_right _ _,
    Nat.add_le_add_left ((List.take_sublist _ _).count_le _) 1⟩

/-- The tokens of a source. -/
theorem lex_regular {controls : Controls} (h : controls.check = .ok ()) (source : String) :
    (lex controls source).Regular :=
  ⟨(lex_inRegions controls source).1, (lex_inRegions controls source).2,
    fun _ ht => (line_of_mem_lex h ht).1⟩

namespace TokenStream

/-- The token was the last one to be read. -/
structure Behind (lexed : Lexed) (t : Token × Span) (s : TokenStream) : Prop where
  error : s.error? = lexed.error?
  tokens : ∃ before, lexed.tokens = before ++ t :: s.rest
  last : s.last = t.2

/-- Reading is inside of an output point or a tag. -/
def Inside (lexed : Lexed) (s : TokenStream) : Prop :=
  ∃ t : Token × Span, s.Behind lexed t ∧ t.1.isInside = true

/-- Reading is inside, and this token comes next. -/
def Facing (lexed : Lexed) (next? : Option (Token × Span)) (s : TokenStream) : Prop :=
  s.Inside lexed ∧ s.rest.head? = next?

/-- Reading is between regions. -/
structure Between (lexed : Lexed) (s : TokenStream) : Prop where
  error : s.error? = lexed.error?
  tokens : ∃ before, lexed.tokens = before ++ s.rest
  regions : InRegions s.error? false s.rest

variable {lexed : Lexed} {t : Token × Span} {s : TokenStream}

/-- The last token is one of the tokens. -/
theorem Behind.mem (h : s.Behind lexed t) : t ∈ lexed.tokens := by
  obtain ⟨before, htokens⟩ := h.tokens
  rw [htokens]
  exact List.mem_append_right _ List.mem_cons_self

/-- Its line is one on which a token stands. -/
theorem Behind.hasLine (h : s.Behind lexed t) : lexed.HasLine t.2.start.line := ⟨t, h.mem, rfl⟩

/-- Its line is the one that errors are noted on. -/
theorem Behind.failureLine (h : s.Behind lexed t) (hlexed : lexed.Regular) :
    Parser.failureLine s = t.2.start.line := by
  rw [Parser.failureLine, h.last]
  exact Nat.max_eq_right (hlexed.lines t h.mem)

/-- What is still to be read goes on with its region. -/
theorem Behind.regions (h : s.Behind lexed t) (hlexed : lexed.Regular) :
    InRegions s.error? t.1.isInside s.rest := by
  obtain ⟨before, htokens⟩ := h.tokens
  exact h.error ▸ (htokens ▸ hlexed.regions).of_append

/-- Behind a token with which a region goes on. -/
theorem Behind.inside (h : s.Behind lexed t) (ht : t.1.isInside = true) : s.Inside lexed :=
  ⟨t, h, ht⟩

/-- Behind a token with which no region goes on. -/
theorem Behind.between (h : s.Behind lexed t) (hlexed : lexed.Regular)
    (ht : t.1.isInside = false) : s.Between lexed := by
  obtain ⟨before, htokens⟩ := h.tokens
  exact ⟨h.error, ⟨before ++ [t], by simpa using htokens⟩, ht ▸ h.regions hlexed⟩

/-- The next token within a region. -/
theorem Behind.neighbours {u : Token × Span} {rest : List (Token × Span)} (h : s.Behind lexed t)
    (ht : t.1.isInside = true) (hrest : s.rest = u :: rest) : lexed.Neighbours t u := by
  obtain ⟨before, htokens⟩ := h.tokens
  exact ⟨ht, before, rest, hrest ▸ htokens⟩

/-- The token that comes next is read. -/
theorem Behind.next {u : Token × Span} {rest : List (Token × Span)} (h : s.Behind lexed t)
    (hrest : s.rest = u :: rest) : Behind lexed u { s with rest, last := u.2 } := by
  obtain ⟨before, htokens⟩ := h.tokens
  exact ⟨h.error, ⟨before ++ [t], by simpa [hrest] using htokens⟩, rfl⟩

/-- The token that comes next stands on a line. -/
theorem Facing.hasLine (h : s.Facing lexed (some t)) : lexed.HasLine t.2.start.line := by
  obtain ⟨⟨last, hlast, -⟩, hnext⟩ := h
  obtain ⟨rest, hrest⟩ := List.head?_eq_some_iff.mp hnext
  exact (hlast.next hrest).hasLine

end TokenStream

/-! ## Contracts -/

namespace Parser

open TokenStream (Behind Inside Facing Between)

variable {α β σ : Type} {lexed : Lexed} {I I' : TokenStream → Prop}
  {R R' : α → TokenStream → Prop} {S : β → TokenStream → Prop}

/-- Started at a place of a kind, the parser gives a result at a place that are related, or fails
with an error that the tokens explain. -/
def Ensures (lexed : Lexed) (I : TokenStream → Prop) (p : Parser α)
    (R : α → TokenStream → Prop) : Prop :=
  ∀ ⦃s⦄, I s → (∀ a t, p s = .ok (a, t) → R a t) ∧ ∀ e, p s = .error e → lexed.Explains e

namespace Ensures

/-- Returning. -/
theorem pure {a : α} (h : ∀ s, I s → R a s) : Ensures lexed I (pure a) R := by
  intro s hs
  refine ⟨fun b t hrun => ?_, fun e hrun => (by cases hrun)⟩
  obtain ⟨rfl, rfl⟩ := Prod.mk.inj (Except.ok.inj hrun)
  exact h _ hs

/-- Reading one thing after the other. -/
theorem bind {p : Parser β} {f : β → Parser α} (hp : Ensures lexed I p S)
    (hf : ∀ b, Ensures lexed (S b) (f b) R) : Ensures lexed I (p >>= f) R := by
  intro s hs
  have hbind : (p >>= f) s = p s >>= fun r => f r.1 r.2 := rfl
  obtain ⟨hok, herror⟩ := hp hs
  rw [hbind]
  cases hrun : p s with
  | ok r => exact hf r.1 (hok r.1 r.2 hrun)
  | error e =>
    refine ⟨fun a t h => (by cases h), fun e' h => ?_⟩
    obtain rfl := Except.error.inj h
    exact herror e hrun

/-- The parser may start at fewer places. -/
theorem before {p : Parser α} (h : Ensures lexed I p R) (himp : ∀ s, I' s → I s) :
    Ensures lexed I' p R := fun _ hs => h (himp _ hs)

/-- Less may be asked for. -/
theorem imp {p : Parser α} (h : Ensures lexed I p R) (himp : ∀ a t, R a t → R' a t) :
    Ensures lexed I p R' :=
  fun _ hs => ⟨fun a t hrun => himp a t ((h hs).1 a t hrun), (h hs).2⟩

/-- A fault that rejects nothing. -/
theorem fail {fault : Fault} (hcustom : fault.isCustom = false)
    (hline : fault.rejectedLine? = none) : Ensures lexed I (fail fault) R := by
  intro s _
  refine ⟨fun a t hrun => (by cases hrun), fun e hrun => ?_⟩
  obtain rfl := Except.error.inj hrun
  exact ⟨rfl, hcustom, fun h => by simp [Error.onLine, hline] at h⟩

/-- Repeating a step. -/
theorem iterate {step : σ → Parser (σ ⊕ α)} {J : σ → TokenStream → Prop}
    (hstep : ∀ x, Ensures lexed (J x) (step x) fun y s => Sum.elim (J · s) (R · s) y) {init : σ} :
    Ensures lexed (J init) (iterate step init) R := by
  have hgo : ∀ rounds x, Ensures lexed (J x) (iterate.go step rounds x) R := by
    intro rounds
    induction rounds with
    | nil =>
      refine fun x => (hstep x).bind fun y => ?_
      cases y with
      | inl y => exact .fail rfl rfl
      | inr a => exact .pure fun _ h => h
    | cons _ rounds ih =>
      refine fun x => (hstep x).bind fun y => ?_
      cases y with
      | inl y => exact ih y
      | inr a => exact .pure fun _ h => h
  exact fun s hs => hgo s.rest init hs

end Ensures

/-- Reading stays inside of an output point or a tag, and what is read has a property. -/
abbrev Tracks (lexed : Lexed) (p : Parser α) (Q : α → Prop) : Prop :=
  Ensures lexed (Inside lexed) p fun a s => s.Inside lexed ∧ Q a

namespace Tracks

variable {Q : α → Prop} {T : β → Prop}

/-- Returning. -/
theorem pure {a : α} (h : Q a) : Tracks lexed (pure a) Q := Ensures.pure fun _ hs => ⟨hs, h⟩

/-- Reading one thing, and what leads elsewhere behind it. -/
theorem andThen {p : Parser β} {f : β → Parser α} (hp : Tracks lexed p T)
    (hf : ∀ b, T b → Ensures lexed (Inside lexed) (f b) R) :
    Ensures lexed (Inside lexed) (p >>= f) R :=
  Ensures.bind hp fun b _ hs => hf b hs.2 hs.1

/-- Reading one thing after the other. -/
theorem bind {p : Parser β} {f : β → Parser α} (hp : Tracks lexed p T)
    (hf : ∀ b, T b → Tracks lexed (f b) Q) : Tracks lexed (p >>= f) Q := hp.andThen hf

/-- Repeating a step that keeps an invariant. -/
theorem iterate {step : σ → Parser (σ ⊕ α)} {I : σ → Prop} {init : σ} (hinit : I init)
    (hstep : ∀ x, I x → Tracks lexed (step x) (Sum.elim I Q)) :
    Tracks lexed (Parser.iterate step init) Q := by
  have hrounds (x : σ) : Ensures lexed (fun s => s.Inside lexed ∧ I x) (step x) fun y s =>
      Sum.elim (fun x => s.Inside lexed ∧ I x) (fun a => s.Inside lexed ∧ Q a) y := by
    intro s hs
    refine Ensures.imp (hstep x hs.2) (fun y t ht => ?_) hs.1
    cases y with
    | inl y => exact ht
    | inr a => exact ht
  exact Ensures.before (.iterate hrounds) fun s hs => ⟨hs, hinit⟩

end Tracks

/-! ## Single tokens -/

/-- What is accepted within a region and does not close it is a token that the region goes on
with. -/
theorem isInside_of_accept {accept : Token → Bool} (htag : accept .tagEnd = false)
    (houtput : accept .outputEnd = false) {t : Token} (houter : t.isOuter = false)
    (haccept : accept t = true) : t.isInside = true := by
  cases t with
  | data | outputStart | tagStart => simp [Token.isOuter] at houter
  | tagEnd => simp [htag] at haccept
  | outputEnd => simp [houtput] at haccept
  | _ => rfl

/-- A misplaced token is rejected on its line. -/
theorem misplaced_spec (t : Token) (span : Span) :
    (misplaced t span).rejectedLine? = some span.start.line ∧
      (misplaced t span).isCustom = false := by
  cases t <;> exact ⟨rfl, rfl⟩

section Tokens

variable (hlexed : lexed.Regular)

/-- A span that began earlier keeps its beginning. -/
theorem upToHere_ensures (span : Span) :
    Ensures lexed I (upToHere span) fun span' s => I s ∧ span'.start = span.start := by
  intro s hs
  refine ⟨fun span' t hrun => ?_, fun e hrun => (by cases hrun)⟩
  obtain ⟨rfl, rfl⟩ := Prod.mk.inj (Except.ok.inj hrun)
  exact ⟨hs, rfl⟩

/-- A span that began on a line of a token still does. -/
theorem upToHere_tracks {span : Span} (h : lexed.HasLine span.start.line) :
    Tracks lexed (upToHere span) fun span => lexed.HasLine span.start.line := by
  refine (upToHere_ensures span).imp fun span' s hs => ⟨hs.1, ?_⟩
  change lexed.HasLine span'.start.line
  rw [hs.2]
  exact h

/-- The span of the next token, or of the last one. -/
theorem currentSpan_tracks :
    Tracks lexed currentSpan fun span => lexed.HasLine span.start.line := by
  intro s hs
  refine ⟨fun span u hrun => ?_, fun e hrun => (by cases hrun)⟩
  obtain ⟨rfl, rfl⟩ := Prod.mk.inj (Except.ok.inj hrun)
  refine ⟨hs, ?_⟩
  obtain ⟨last, hlast, hinside⟩ := hs
  cases hrest : s.rest with
  | nil =>
    rw [List.head?_nil, Option.map_none, Option.getD_none, hlast.last]
    exact hlast.hasLine
  | cons t rest =>
    rw [List.head?_cons, Option.map_some, Option.getD_some]
    exact (hlast.next hrest).hasLine

include hlexed

/-- Within a region there is a next token, which does not begin a region, or an error. -/
theorem rest_of_inside {s : TokenStream} (h : s.Inside lexed) :
    (∃ t rest, s.rest = t :: rest ∧ t.1.isOuter = false) ∨
      s.rest = [] ∧ ∃ e ∈ lexed.error?, s.error? = some e := by
  obtain ⟨last, hlast, hinside⟩ := h
  have hregions := hlast.regions hlexed
  rw [hinside] at hregions
  cases hrest : s.rest with
  | cons t rest =>
    rw [hrest] at hregions
    exact .inl ⟨t, rest, rfl, hregions.1⟩
  | nil =>
    rw [hrest] at hregions
    obtain ⟨e, he⟩ := Option.isSome_iff_exists.mp (hregions rfl)
    exact .inr ⟨rfl, e, hlast.error ▸ he, he⟩

/-- An error of the lexer is explained wherever reading meets it. -/
theorem explains_noted {e : Error} (he : e ∈ lexed.error?) (line : Nat) :
    lexed.Explains { e with line? := some (e.line?.getD line) } where
  location := (hlexed.noted e he).location
  custom := (hlexed.noted e he).custom
  line {n} hn := ⟨n, by rw [(hlexed.noted e he).line hn, Option.getD_some], .inl rfl⟩

/-- Looking at the next token. -/
theorem peek?_ensures : Ensures lexed (Inside lexed) peek? fun next s =>
    ∃ t, next = some t ∧ t.1.isOuter = false ∧ s.Facing lexed (some t) := by
  intro s hs
  rcases rest_of_inside hlexed hs with ⟨t, rest, hrest, houter⟩ | ⟨hrest, e, he, herror⟩
  · refine ⟨fun next u hrun => ?_, fun e hrun => ?_⟩
    · rw [peek?, hrest] at hrun
      obtain ⟨rfl, rfl⟩ := Prod.mk.inj (Except.ok.inj hrun)
      exact ⟨t, rfl, houter, hs, by rw [hrest, List.head?_cons]⟩
    · rw [peek?, hrest] at hrun
      cases hrun
  · refine ⟨fun next u hrun => ?_, fun e' hrun => ?_⟩
    · rw [peek?, hrest, herror] at hrun
      cases hrun
    · rw [peek?, hrest, herror] at hrun
      obtain rfl := Except.error.inj hrun
      exact explains_noted hlexed he _

/-- What is done once the next token is known. -/
theorem peek?_bind {f : Option (Token × Span) → Parser α}
    (hf : ∀ t, t.1.isOuter = false → lexed.HasLine t.2.start.line →
      Ensures lexed (Facing lexed (some t)) (f (some t)) R) :
    Ensures lexed (Inside lexed) (peek? >>= f) R := by
  refine (peek?_ensures hlexed).bind fun next => ?_
  rintro s ⟨t, rfl, houter, hfacing⟩
  exact hf t houter hfacing.hasLine hfacing

/-- Reading the next token within a region. -/
theorem next?_ensures {t : Token × Span} (ht : t.1.isInside = true) :
    Ensures lexed (·.Behind lexed t) next? fun next s =>
      ∃ u, next = some u ∧ u.1.isOuter = false ∧ lexed.Neighbours t u ∧ s.Behind lexed u := by
  intro s hs
  rcases rest_of_inside hlexed (hs.inside ht) with
    ⟨u, rest, hrest, houter⟩ | ⟨hrest, e, he, herror⟩
  · refine ⟨fun next v hrun => ?_, fun e hrun => ?_⟩
    · rw [next?, hrest] at hrun
      obtain ⟨rfl, rfl⟩ := Prod.mk.inj (Except.ok.inj hrun)
      exact ⟨u, rfl, houter, hs.neighbours ht hrest, hs.next hrest⟩
    · rw [next?, hrest] at hrun
      cases hrun
  · refine ⟨fun next u hrun => ?_, fun e' hrun => ?_⟩
    · rw [next?, hrest, herror] at hrun
      cases hrun
    · rw [next?, hrest, herror] at hrun
      obtain rfl := Except.error.inj hrun
      exact explains_noted hlexed he _

omit hlexed in
/-- Passing the token that comes next. -/
theorem advance_ensures {t : Token × Span} :
    Ensures lexed (Facing lexed (some t)) advance fun _ s => s.Behind lexed t := by
  rintro s ⟨⟨last, hlast, -⟩, hnext⟩
  obtain ⟨rest, hrest⟩ := List.head?_eq_some_iff.mp hnext
  have hrun : advance s = .ok ((), { s with rest, last := t.2 }) := by
    simp only [advance, bind, StateT.bind, next?, hrest, Except.bind]
    rfl
  refine ⟨fun _ u h => ?_, fun e h => ?_⟩
  · rw [hrun] at h
    obtain rfl := (Prod.mk.inj (Except.ok.inj h)).2
    exact hlast.next hrest
  · rw [hrun] at h
    cases h

omit hlexed in
/-- What is done behind the token that comes next, with which the region goes on. -/
theorem advance_bind {t : Token × Span} {f : Unit → Parser α} (ht : t.1.isInside = true)
    (hf : Ensures lexed (Inside lexed) (f ()) R) :
    Ensures lexed (Facing lexed (some t)) (advance >>= f) R :=
  advance_ensures.bind fun _ => hf.before fun _ hs => hs.inside ht

omit hlexed in
/-- What is done whatever comes next. -/
theorem Ensures.facing {p : Parser α} {next? : Option (Token × Span)}
    (h : Ensures lexed (Inside lexed) p R) : Ensures lexed (Facing lexed next?) p R :=
  h.before fun _ => And.left

/-- Rejecting the token that was read. -/
theorem reject_ensures {t : Token × Span} :
    Ensures lexed (·.Behind lexed t) (fail (misplaced t.1 t.2)) R := by
  intro s hs
  refine ⟨fun a u hrun => (by cases hrun), fun e hrun => ?_⟩
  obtain rfl := Except.error.inj hrun
  obtain ⟨hline, hcustom⟩ := misplaced_spec t.1 t.2
  refine ⟨rfl, hcustom, fun hn => ⟨_, rfl, .inl ?_⟩⟩
  rw [hs.failureLine hlexed]
  exact Option.some.inj (hn.symm.trans hline)

/-- Rejecting the token that comes next. -/
theorem unexpected_ensures : Ensures lexed (Inside lexed) unexpected R := by
  refine peek?_bind hlexed fun t _ _ => ?_
  rintro s ⟨⟨last, hlast, hinside⟩, hnext⟩
  refine ⟨fun a u hrun => (by cases hrun), fun e hrun => ?_⟩
  obtain rfl := Except.error.inj hrun
  obtain ⟨rest, hrest⟩ := List.head?_eq_some_iff.mp hnext
  obtain ⟨hline, hcustom⟩ := misplaced_spec t.1 t.2
  refine ⟨rfl, hcustom, fun hn => ⟨_, rfl, .inr ⟨last, t, hlast.neighbours hinside hrest, .inr ?_⟩⟩⟩
  exact ⟨Option.some.inj (hn.symm.trans hline), hlast.failureLine hlexed⟩

/-- What is done once the next token within a region was read. -/
theorem require_bind_behind {t : Token × Span} (ht : t.1.isInside = true)
    {f : Token × Span → Parser α} (hf : ∀ u, u.1.isOuter = false → lexed.Neighbours t u →
      Ensures lexed (·.Behind lexed u) (f u) R) :
    Ensures lexed (·.Behind lexed t) (require >>= f) R := by
  have hrequire : Ensures lexed (·.Behind lexed t) require fun u s =>
      u.1.isOuter = false ∧ lexed.Neighbours t u ∧ s.Behind lexed u := by
    refine (next?_ensures hlexed ht).bind fun next => ?_
    rintro s ⟨u, rfl, hu⟩
    exact Ensures.pure (fun _ h => h) hu
  exact hrequire.bind fun u _ hs => hf u hs.1 hs.2.1 hs.2.2

/-- What is done once the next token was read. -/
theorem require_bind {f : Token × Span → Parser α}
    (hf : ∀ t, t.1.isOuter = false → lexed.HasLine t.2.start.line →
      Ensures lexed (·.Behind lexed t) (f t) R) :
    Ensures lexed (Inside lexed) (require >>= f) R := by
  rintro s ⟨last, hlast, hinside⟩
  exact require_bind_behind hlexed hinside
    (fun t houter _ s hs => hf t houter hs.hasLine hs) hlast

omit hlexed in
/-- What is done behind a token with which the region goes on. -/
theorem Ensures.behind {p : Parser α} {t : Token × Span} (h : Ensures lexed (Inside lexed) p R)
    (ht : t.1.isInside = true) : Ensures lexed (·.Behind lexed t) p R :=
  h.before fun _ hs => hs.inside ht

/-- Reading a given sort of token. -/
theorem expect_ensures (accept : Token → Bool) :
    Ensures lexed (Inside lexed) (expect accept) fun _ s =>
      ∃ t, accept t.1 = true ∧ t.1.isOuter = false ∧ s.Behind lexed t := by
  refine require_bind hlexed fun (token, span) houter _ => ?_
  simp only
  split
  · next haccept => exact .pure fun _ hs => ⟨(token, span), haccept, houter, hs⟩
  · exact reject_ensures hlexed

/-- Reading a given sort of token that does not close the region. -/
theorem expect_tracks {accept : Token → Bool} (htag : accept .tagEnd = false)
    (houtput : accept .outputEnd = false) : Tracks lexed (expect accept) fun _ => True :=
  (expect_ensures hlexed accept).imp fun _ _ ⟨_, haccept, houter, ht⟩ =>
    ⟨ht.inside (isInside_of_accept htag houtput houter haccept), trivial⟩

/-- Reading what closes the region. -/
theorem expect_between {accept : Token → Bool}
    (hcloses : ∀ {t : Token}, accept t = true → t.isInside = false) :
    Ensures lexed (Inside lexed) (expect accept) fun _ s => s.Between lexed :=
  (expect_ensures hlexed accept).imp fun _ _ ⟨_, haccept, _, ht⟩ =>
    ht.between hlexed (hcloses haccept)

/-- Passing the next token if it is of a given sort, which does not close the region. -/
theorem skipIf_tracks {accept : Token → Bool} (htag : accept .tagEnd = false)
    (houtput : accept .outputEnd = false) :
    Tracks lexed (skipIf accept) fun _ => True := by
  refine peek?_bind hlexed fun (token, span) houter _ => ?_
  simp only
  split
  · next haccept =>
    exact advance_bind (isInside_of_accept htag houtput houter haccept) (Tracks.pure trivial)
  · exact (Tracks.pure trivial).facing

/-- Reading a bare word. -/
theorem ident_tracks : Tracks lexed ident fun _ => True := by
  refine require_bind hlexed fun (token, span) _ _ => ?_
  cases token with
  | ident name => exact (Tracks.pure trivial).behind rfl
  | _ => exact reject_ensures hlexed

/-- Reading a string literal. -/
theorem text_tracks : Tracks lexed text fun _ => True := by
  refine require_bind hlexed fun (token, span) _ _ => ?_
  cases token with
  | text value => exact (Tracks.pure trivial).behind rfl
  | _ => exact reject_ensures hlexed

/-- Passing a keyword. -/
theorem skipWord_tracks (word : String) : Tracks lexed (skipWord word) fun _ => True :=
  skipIf_tracks hlexed rfl rfl

/-- Reading a keyword. -/
theorem expectWord_tracks (word : String) : Tracks lexed (expectWord word) fun _ => True := by
  refine (skipWord_tracks hlexed word).bind fun passed _ => ?_
  cases passed with
  | true => exact .pure trivial
  | false => exact unexpected_ensures hlexed

/-- Reading punctuation. -/
theorem expectPunctuation_tracks {spelling : String}
    (htag : isPunctuation spelling .tagEnd = false)
    (houtput : isPunctuation spelling .outputEnd = false) :
    Tracks lexed (expectPunctuation spelling) fun _ => True := by
  refine Tracks.bind (skipIf_tracks hlexed htag houtput) fun passed _ => ?_
  cases passed with
  | true => exact .pure trivial
  | false => exact unexpected_ensures hlexed

/-- Refusing anything but the end of the tag. -/
theorem expectTagEnd_tracks : Tracks lexed expectTagEnd fun _ => True := by
  have hat : Tracks lexed atTagEnd fun _ => True :=
    peek?_bind hlexed fun (token, span) _ _ => (Tracks.pure trivial).facing
  refine hat.bind fun closes _ => ?_
  cases closes with
  | true => exact .pure trivial
  | false => exact unexpected_ensures hlexed

/-- Reading the next token between regions, where the tokens may end. -/
theorem next?_ensures_between : Ensures lexed (Between lexed) next? fun next s =>
    ∀ t ∈ next, t.1.isOuter = true ∧ s.Behind lexed t := by
  intro s hs
  have hregions := hs.regions
  cases hrest : s.rest with
  | cons t rest =>
    rw [hrest] at hregions
    refine ⟨fun next u hrun => ?_, fun e hrun => ?_⟩
    · rw [next?, hrest] at hrun
      obtain ⟨rfl, rfl⟩ := Prod.mk.inj (Except.ok.inj hrun)
      rintro _ ⟨⟩
      obtain ⟨before, htokens⟩ := hs.tokens
      exact ⟨hregions.1, hs.error, ⟨before, hrest ▸ htokens⟩, rfl⟩
    · rw [next?, hrest] at hrun
      cases hrun
  | nil =>
    cases herror : s.error? with
    | none =>
      refine ⟨fun next u hrun => ?_, fun e hrun => ?_⟩
      · rw [next?, hrest, herror] at hrun
        obtain ⟨rfl, rfl⟩ := Prod.mk.inj (Except.ok.inj hrun)
        simp
      · rw [next?, hrest, herror] at hrun
        cases hrun
    | some e =>
      refine ⟨fun next u hrun => ?_, fun e' hrun => ?_⟩
      · rw [next?, hrest, herror] at hrun
        cases hrun
      · rw [next?, hrest, herror] at hrun
        obtain rfl := Except.error.inj hrun
        exact explains_noted hlexed (hs.error ▸ herror) _

end Tokens

end Parser

end Templating
