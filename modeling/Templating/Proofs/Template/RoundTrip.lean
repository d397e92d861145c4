import Templating.Proofs.Template.Lexing
import Templating.Proofs.Template.Readback

/-!
# Printing and parsing

The parser inverts the printer. A printable expression that is written out between the default
delimiters, with no more parentheses than needed, is parsed as a template that outputs just this
expression, provided that it does not nest deeper than templates may.
-/

namespace Templating

open Lexer (Legible legible_symbol legible_ident legible_int legible_text)
open Token (enclosedUnless separated)

variable {isFilter : String → Bool} {t : Token}

/-- The token of an operator is legible. -/
theorem BinaryOp.token_legible (op : BinaryOp) : Legible op.token := by
  cases op <;> first | exact legible_symbol rfl | exact legible_ident rfl

/-- The token of an operator is legible. -/
theorem UnaryOp.token_legible (op : UnaryOp) : Legible op.token := by
  cases op <;> first | exact legible_symbol rfl | exact legible_ident rfl

/-- The token of a printable constant is legible. -/
theorem Value.token_legible {v : Value} (h : v.isPrintable = true) : Legible v.token := by
  cases v with
  | bool b => cases b <;> exact legible_ident rfl
  | int n => exact legible_int (by simpa [isPrintable] using h)
  | text s safe => exact legible_text s
  | _ => exact legible_ident rfl

namespace Token

/-- Parentheses are legible. -/
theorem legible_enclosedUnless {fits : Bool} {ts : List Token} (h : ∀ t ∈ ts, Legible t) :
    ∀ t ∈ enclosedUnless fits ts, Legible t := by
  unfold enclosedUnless
  split
  · exact h
  · intro t ht
    simp only [List.cons_append, List.mem_cons, List.mem_append, List.not_mem_nil, or_false] at ht
    rcases ht with rfl | ht | rfl
    · exact legible_symbol rfl
    · exact h t ht
    · exact legible_symbol rfl

/-- Commas are legible. -/
theorem legible_separated {tss : List (List Token)} (h : ∀ ts ∈ tss, ∀ t ∈ ts, Legible t) :
    ∀ t ∈ separated tss, Legible t := by
  cases tss with
  | nil => exact fun t ht => absurd ht List.not_mem_nil
  | cons ts tss =>
    intro t ht
    rw [separated, List.mem_append, List.mem_flatMap] at ht
    rcases ht with ht | ⟨us, hus, ht⟩
    · exact h ts List.mem_cons_self t ht
    · rcases List.mem_cons.mp ht with rfl | ht
      · exact legible_symbol rfl
      · exact h us (List.mem_cons_of_mem ts hus) t ht

/-- Legible tokens between two symbols are legible. -/
theorem legible_between {opening closing : Token} {ts : List Token} (h : ∀ t ∈ ts, Legible t)
    (hopening : opening.isSymbol = true) (hclosing : closing.isSymbol = true) :
    ∀ t ∈ opening :: ts ++ [closing], Legible t :=
  List.forall_mem_append.mpr ⟨List.forall_mem_cons.mpr ⟨legible_symbol hopening, h⟩,
    List.forall_mem_singleton.mpr (legible_symbol hclosing)⟩

end Token

namespace Expr

open Token (legible_enclosedUnless legible_separated legible_between)

mutual

/-- The tokens of a printable expression are legible. -/
theorem tokens_legible : ∀ e : Expr, e.isPrintable isFilter = true → ∀ t ∈ e.tokens, Legible t
  | .var name _, h => by
    rw [isPrintable, Bool.and_eq_true] at h
    exact List.forall_mem_singleton.mpr (legible_ident h.1)
  | .const value _, h => List.forall_mem_singleton.mpr (Value.token_legible h)
  | .unary op operand _, h => List.forall_mem_cons.mpr
    ⟨op.token_legible, legible_enclosedUnless (tokens_legible operand h)⟩
  | .binary op left right _, h => by
    rw [isPrintable, Bool.and_eq_true] at h
    exact List.forall_mem_append.mpr ⟨legible_enclosedUnless (tokens_legible left h.1),
      List.forall_mem_cons.mpr
        ⟨op.token_legible, legible_enclosedUnless (tokens_legible right h.2)⟩⟩
  | .attr subject name _, h => by
    rw [isPrintable, Bool.and_eq_true] at h
    exact List.forall_mem_append.mpr ⟨legible_enclosedUnless (tokens_legible subject h.2),
      List.forall_mem_cons.mpr
        ⟨legible_symbol rfl, List.forall_mem_singleton.mpr (legible_ident h.1)⟩⟩
  | .item subject key _, h => by
    rw [isPrintable, Bool.and_eq_true] at h
    rw [tokens, List.append_assoc]
    exact List.forall_mem_append.mpr ⟨legible_enclosedUnless (tokens_legible subject h.1),
      legible_between (tokens_legible key h.2) rfl rfl⟩
  | .filter name subject args _, h => by
    simp only [isPrintable, Bool.and_eq_true] at h
    have hargs : ∀ t ∈ if args.isEmpty then [] else
        .parenOpen :: separated (tokensOfAll args) ++ [.parenClose], Legible t := by
      split
      · exact fun t ht => absurd ht List.not_mem_nil
      · exact legible_between (legible_separated (tokensOfAll_legible args h.2.2)) rfl rfl
    exact List.forall_mem_append.mpr ⟨legible_enclosedUnless (tokens_legible subject h.2.1),
      List.forall_mem_cons.mpr
        ⟨legible_symbol rfl, List.forall_mem_cons.mpr ⟨legible_ident h.1.1, hargs⟩⟩⟩
  | .call callee args _, h => by
    rw [isPrintable, Bool.and_eq_true] at h
    rw [tokens, List.append_assoc]
    exact List.forall_mem_append.mpr ⟨legible_enclosedUnless (tokens_legible callee h.1),
      legible_between (legible_separated (tokensOfAll_legible args h.2)) rfl rfl⟩
  | .list items _, h => legible_between (legible_separated (tokensOfAll_legible items h)) rfl rfl
  | .map entries _, h =>
    legible_between (legible_separated (tokensOfEntries_legible entries h)) rfl rfl

/-- The tokens of printable expressions are legible. -/
theorem tokensOfAll_legible : ∀ es : List Expr, allPrintable isFilter es = true →
    ∀ ts ∈ tokensOfAll es, ∀ t ∈ ts, Legible t
  | [], _ => fun _ h => absurd h List.not_mem_nil
  | e :: rest, h => by
    rw [allPrintable, Bool.and_eq_true] at h
    exact List.forall_mem_cons.mpr ⟨tokens_legible e h.1, tokensOfAll_legible rest h.2⟩

/-- The tokens of the entries of a printable map are legible. -/
theorem tokensOfEntries_legible : ∀ entries : List (Expr × Expr),
    entriesPrintable isFilter entries = true → ∀ ts ∈ tokensOfEntries entries, ∀ t ∈ ts, Legible t
  | [], _ => fun _ h => absurd h List.not_mem_nil
  | (key, value) :: rest, h => by
    rw [entriesPrintable, Bool.and_eq_true, Bool.and_eq_true] at h
    refine List.forall_mem_cons.mpr ⟨?_, tokensOfEntries_legible rest h.2⟩
    exact List.forall_mem_append.mpr ⟨legible_enclosedUnless (tokens_legible key h.1.1),
      List.forall_mem_cons.mpr ⟨legible_symbol rfl, tokens_legible value h.1.2⟩⟩

end

end Expr

open Templating.Parser

/-- An expression before a closing delimiter is an output point. -/
theorem Parser.output_takes {expr : Parser Expr} {ts : List Token} {e : Expr}
    (h : expr.Takes (ts ++ [.outputEnd]) [.outputEnd] e.Copies) (start : Span) :
    (output expr start).Takes (ts ++ [.outputEnd]) [] fun n => ∃ e' span, e.Copies e' ∧
      n = .output (unchain [] e').1 (unchain [] e').2 span :=
  h.bind fun e' he' => (Takes.expect rfl).bind fun _ _ =>
    (Takes.upToHere start).bind fun span _ => .pure ⟨e', span, he', rfl⟩

/-- An output point alone is a sequence of one node. -/
theorem Parser.sequence_takes {expr : Parser Expr} {tag : String → Span → Parser Node}
    {isEnd : String → Bool} {ts : List Token} {e : Expr}
    (h : expr.Takes (ts ++ [.outputEnd]) [.outputEnd] e.Copies) :
    (sequence expr tag isEnd).Takes (.outputStart :: ts ++ [.outputEnd]) [] fun (nodes, ending) =>
      ending = none ∧ ∃ e' span, e.Copies e' ∧
        nodes = [.output (unchain [] e').1 (unchain [] e').2 span] := by
  refine Loops.iterate (.more [] (I := fun nodes => ∃ e' span, e.Copies e' ∧
    nodes = [.output (unchain [] e').1 (unchain [] e').2 span]) ?_ (Nat.succ_pos _) ?_)
  · refine Takes.next.bind fun next hnext => ?_
    obtain ⟨⟨_, start⟩, rfl, rfl⟩ := Option.map_eq_some_iff.mp hnext
    refine (output_takes h start).bind fun n ⟨e', span, he', hn⟩ => ?_
    exact .pure ⟨_, rfl, e', span, he', by rw [hn]⟩
  · rintro _ ⟨e', span, he', rfl⟩
    refine .done (Takes.next_nil.bind fun next hnext => ?_)
    rw [hnext]
    exact .pure ⟨_, rfl, rfl, e', span, he', rfl⟩

/-- A template that consists of tokens of an expression between delimiters is an output point. -/
theorem Parser.ReadsExpr.template_takes {registry : Registry} {ts : List Token} {e : Expr}
    (h : ReadsExpr registry.hasFilter maxDepth ts e) :
    (Parser.template registry).Takes (.outputStart :: ts ++ [.outputEnd]) [] fun nodes =>
      ∃ e' span, e.Copies e' ∧
        nodes = [.output (unchain [] e').1 (unchain [] e').2 span] := by
  have hread := h.takes [.outputEnd] (stops_cons (by decide))
  refine (sequence_takes hread).bind fun (nodes, ending) ⟨hend, hnodes⟩ => ?_
  obtain rfl : ending = none := hend
  exact .pure hnodes

/-- A template that consists of the tokens of an output point is read as this output point. -/
theorem Parser.template_takes {registry : Registry} {e : Expr}
    (he : e.isPrintable registry.hasFilter = true) (hdepth : e.depth + 1 ≤ maxDepth) :
    (Parser.template registry).Takes (.outputStart :: e.tokens ++ [.outputEnd]) [] fun nodes =>
      ∃ e' span, e.Copies e' ∧
        nodes = [.output (unchain [] e').1 (unchain [] e').2 span] :=
  ((Expr.readsBack e he).readsExpr hdepth).template_takes

/-- A source whose tokens are taken is parsed. -/
theorem Template.parse_of_takes {registry : Registry} {controls : Controls} {source : String}
    {ts : List Token} {Q : List Node → Prop}
    (hlex : (lex controls source).tokens.map Prod.fst = ts ∧ (lex controls source).error? = none)
    (h : (Parser.template registry).Takes ts [] Q) (name : String) :
    ∃ nodes, Q nodes ∧ Template.parse registry controls name source = .ok ⟨name, nodes⟩ := by
  have hholds : TokenStream.Holds
      { rest := (lex controls source).tokens, error? := (lex controls source).error? } ts :=
    ⟨hlex.1, hlex.2⟩
  obtain ⟨nodes, s, hrun, hnodes, -⟩ := h hholds
  refine ⟨nodes, hnodes, ?_⟩
  rw [Template.parse, Parser.run, hrun]
  rfl

/-- An expression that is written out and parsed is the same expression. -/
theorem Template.parse_written {registry : Registry} {e : Expr} (name : String)
    (he : e.isPrintable registry.hasFilter = true) (hdepth : e.depth + 1 ≤ maxDepth) :
    ∃ e' span, e'.erased = e.erased ∧ Template.parse registry {} name e.written =
      .ok ⟨name, [.output (unchain [] e').1 (unchain [] e').2 span]⟩ := by
  obtain ⟨nodes, ⟨e', span, hcopy, rfl⟩, hparse⟩ := parse_of_takes
    (Lexer.lex_written (e.tokens_legible he)) (Parser.template_takes he hdepth) name
  exact ⟨e', span, hcopy, hparse⟩

set_option maxRecDepth 100000 in
/-- Operators of many ranks, read back from a source with two pairs of parentheses. -/
theorem Template.parse_written_mixed :
    let total : Expr := .binary .add (.call (.var "f" {}) [] {}) (.const (.int 1) {}) {}
    let known : Expr := .binary .within (.var "a" {})
      (.list [.const (.ofString "b\"c") {}, .const .null {}] {}) {}
    let price : Expr := .filter "default" (.attr (.var "d" {}) "e" {}) [.const (.int 0) {}] {}
    let table : Expr :=
      .map [(.const (.ofString "k") {}, .var "v" {}), (.var "k" {}, .var "w" {})] {}
    let e : Expr := .binary .or (.unary .not known {})
      (.binary .mul (.unary .neg price {}) (.item table total {}) {}) {}
    let e : Expr := .binary .and e (.binary .mul (.var "n" {}) total {}) {}
    e.isPrintable Registry.initial.hasFilter = true ∧ e.depth + 1 ≤ Parser.maxDepth ∧
      e.written = "\x7b\x7b ( not a in [ \"b\\\"c\" , none ] or - d . e | default ( 0 ) * " ++
        "\x7b \"k\" : v , ( k ) : w \x7d [ f ( ) + 1 ] ) and n * ( f ( ) + 1 ) \x7d\x7d" ∧
      ∃ e' span, e'.erased = e.erased ∧ Template.parse Registry.initial {} "t" e.written =
        .ok ⟨"t", [.output (unchain [] e').1 (unchain [] e').2 span]⟩ := by
  intro total known price table inner e
  have he : e.isPrintable Registry.initial.hasFilter = true := by decide +kernel
  have hdepth : e.depth + 1 ≤ Parser.maxDepth := by decide +kernel
  exact ⟨he, hdepth, by decide +kernel, parse_written "t" he hdepth⟩

end Templating
