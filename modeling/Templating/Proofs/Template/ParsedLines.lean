import Templating.Proofs.Failures
import Templating.Proofs.Template.TokenLines

/-!
# Parsed templates and errors of parsing

A template that is read has nodes, labels and expressions on lines of its tokens, which are lines of
its source. A template that is refused has an error that its tokens explain.
-/

namespace Templating

open Lexer (Lexed)
open TokenStream (Behind Inside Between)

namespace Parser

variable {lexed : Lexed} (hlexed : lexed.Regular)

/-- The node and those inside of it start on lines of tokens, with all that they consist of. -/
def NodeOnLines (lexed : Lexed) (n : Node) : Prop :=
  Node.Throughout (fun n => ∀ line ∈ n.lines, lexed.HasLine line) [n]

/-- A sequence ends with the tokens, or behind the name that ends it. -/
def EndsBehind (lexed : Lexed) (ending : Ending) (s : TokenStream) : Prop :=
  ∀ word ∈ ending, s.Behind lexed (.ident word.1, word.2)

/-- The opening delimiter and the name of a tag were read. -/
def Opened (lexed : Lexed) (name : String) (start : Span) (s : TokenStream) : Prop :=
  ∃ span, s.Behind lexed (.ident name, span) ∧
    lexed.Neighbours (.tagStart, start) (.ident name, span)

/-- The opening delimiter of a tag stands on a line. -/
theorem Opened.hasLine {name : String} {start : Span} {s : TokenStream}
    (h : Opened lexed name start s) : lexed.HasLine start.start.line := by
  obtain ⟨_, -, -, before, after, htokens⟩ := h
  exact ⟨(.tagStart, start), by rw [htokens]; simp, rfl⟩

/-- Expressions with filters around them start on lines of tokens, and so do the filters. -/
theorem unchain_onLines {e : Expr} (he : OnLines lexed e) :
    OnLines lexed (unchain [] e).1 ∧
      ∀ line ∈ (unchain [] e).2.flatMap FilterCall.lines, lexed.HasLine line := by
  have hparts (name : String) (subject : Expr) (args : List Expr) (span : Span)
      (h : OnLines lexed (.filter name subject args span)) : OnLines lexed subject ∧
        ∀ line ∈ (FilterCall.mk name args span).lines, lexed.HasLine line := by
    obtain ⟨hspan, h⟩ := List.forall_mem_cons.mp h
    obtain ⟨hsubject, hargs⟩ := List.forall_mem_append.mp h
    exact ⟨hsubject, List.forall_mem_cons.mpr ⟨hspan, hargs⟩⟩
  obtain ⟨hsubject, hfilters⟩ := unchain_forall
    (F := fun f => ∀ line ∈ f.lines, lexed.HasLine line) hparts he
    fun _ hf => absurd hf List.not_mem_nil
  refine ⟨hsubject, fun line hline => ?_⟩
  obtain ⟨f, hf, hline⟩ := List.mem_flatMap.mp hline
  exact hfilters f hf line hline

/-- The node stands on lines of tokens, with nothing inside. -/
theorem nodeOnLines_output {subject : Expr} {filters : List FilterCall} {span : Span}
    (hspan : lexed.HasLine span.start.line) (hsubject : OnLines lexed subject)
    (hfilters : ∀ line ∈ filters.flatMap FilterCall.lines, lexed.HasLine line) :
    NodeOnLines lexed (.output subject filters span) := by
  intro n hn
  obtain rfl : n = .output subject filters span := by simpa [Node.everywhere] using hn
  exact List.forall_mem_cons.mpr ⟨hspan, List.forall_mem_append.mpr ⟨hsubject, hfilters⟩⟩

section Nodes

variable {expr : Parser Expr} {tag : String → Span → Parser Node} {isEnd : String → Bool}

include hlexed

/-- An output point. -/
theorem output_ensures (hexpr : Tracks lexed expr (OnLines lexed)) {start : Span}
    (hstart : lexed.HasLine start.start.line) :
    Ensures lexed (Inside lexed) (output expr start) fun n s =>
      s.Between lexed ∧ NodeOnLines lexed n := by
  refine hexpr.andThen fun e he => (expect_between hlexed ?_).bind fun _ => ?_
  · intro t ht
    cases t with
    | outputEnd => rfl
    | _ => cases ht
  · refine (upToHere_ensures start).bind fun span => .pure fun s hs => ⟨hs.1, ?_⟩
    obtain ⟨hsubject, hfilters⟩ := unchain_onLines he
    have hspan : lexed.HasLine span.start.line := by
      rw [hs.2]
      exact hstart
    exact nodeOnLines_output hspan hsubject hfilters

/-- A sequence of nodes between regions. -/
theorem sequence_ensures (hexpr : Tracks lexed expr (OnLines lexed))
    (htag : ∀ name start, Ensures lexed (Opened lexed name start) (tag name start) fun n s =>
      s.Between lexed ∧ NodeOnLines lexed n) :
    Ensures lexed (Between lexed) (sequence expr tag isEnd) fun (nodes, ending) s =>
      (∀ n ∈ nodes, NodeOnLines lexed n) ∧ EndsBehind lexed ending s := by
  refine Ensures.before (Ensures.iterate (J := fun nodes s =>
    s.Between lexed ∧ ∀ n ∈ nodes, NodeOnLines lexed n) fun nodes => ?_) fun s hs => ⟨hs, by simp⟩
  rintro s ⟨hs, hnodes⟩
  have hreverse : ∀ n ∈ nodes.reverse, NodeOnLines lexed n := fun n hn =>
    hnodes n (List.mem_reverse.mp hn)
  refine (next?_ensures_between hlexed).bind (fun next => ?_) hs
  rcases next with _ | ⟨token, span⟩
  · exact .pure fun _ _ => ⟨hreverse, fun _ h => by simp at h⟩
  suffices h : lexed.HasLine span.start.line → Ensures lexed (·.Behind lexed (token, span)) _ _ from
    fun s hs => h (hs _ rfl).2.hasLine (hs _ rfl).2
  intro hspan
  -- one more node in front of those that were read
  have hmore {s : TokenStream} {n : Node} (hn : s.Between lexed ∧ NodeOnLines lexed n) :
      s.Between lexed ∧ ∀ m ∈ n :: nodes, NodeOnLines lexed m :=
    ⟨hn.1, List.forall_mem_cons.mpr ⟨hn.2, hnodes⟩⟩
  cases token with
  | data text =>
    refine .pure fun s hs => hmore ⟨hs.between hlexed rfl, fun n hn => ?_⟩
    obtain rfl : n = .literal text span := by simpa [Node.everywhere] using hn
    exact List.forall_mem_singleton.mpr hspan
  | outputStart =>
    exact Ensures.behind ((output_ensures hlexed hexpr hspan).bind fun n =>
      .pure fun s hs => hmore hs) rfl
  | tagStart =>
    refine require_bind_behind hlexed rfl fun (token, nameSpan) _ hneighbours => ?_
    cases token with
    | ident name =>
      simp only
      split
      · refine .pure fun s hs => ⟨hreverse, fun word hword => ?_⟩
        obtain rfl := Option.some.inj hword
        exact hs
      · refine Ensures.before ((htag name span).bind fun n => .pure fun s hs => hmore hs)
          fun s hs => ⟨nameSpan, hs, hneighbours⟩
    | _ => exact reject_ensures hlexed
  | _ => exact reject_ensures hlexed

/-- The closing delimiter of a tag. -/
theorem closeTag_ensures :
    Ensures lexed (Inside lexed) (expect isTagEnd) fun _ s => s.Between lexed :=
  expect_between hlexed fun {t} ht => by
    cases t with
    | tagEnd => rfl
    | _ => cases ht

/-- The body of a tag and its branches. -/
theorem tagBody_ensures {shape : TagShape} {name : String} {line : Nat}
    {sequence : (String → Bool) → Parser (List Node × Ending)}
    (hlabels : ∀ label, Tracks lexed (shape.labelArguments label expr)
      (TagArg.Each (OnLines lexed)))
    (hsequence : ∀ isEnd, Ensures lexed (Between lexed) (sequence isEnd) fun (nodes, ending) s =>
      (∀ n ∈ nodes, NodeOnLines lexed n) ∧ EndsBehind lexed ending s) :
    Ensures lexed (Between lexed) (tagBody sequence expr name shape line) fun (body, branches) s =>
      s.Between lexed ∧ (∀ n ∈ body, NodeOnLines lexed n) ∧
        ∀ b ∈ branches, (∀ line ∈ b.lines, lexed.HasLine line) ∧
          ∀ n ∈ b.body, NodeOnLines lexed n := by
  refine (hsequence _).bind fun (body, ending) => ?_
  rintro s ⟨hbody, hending⟩
  refine Ensures.bind (S := fun (branches : List Branch) s => s.Between lexed ∧
    ∀ b ∈ branches, (∀ line ∈ b.lines, lexed.HasLine line) ∧ ∀ n ∈ b.body, NodeOnLines lexed n)
    (Ensures.iterate (J := fun (state : List Branch × Ending) s =>
      (∀ b ∈ state.1, (∀ line ∈ b.lines, lexed.HasLine line) ∧
        ∀ n ∈ b.body, NodeOnLines lexed n) ∧ EndsBehind lexed state.2 s) ?_)
    (fun branches => .pure fun s hs => ⟨hs.1, hbody, fun b hb => hs.2 b (List.mem_reverse.mp hb)⟩)
    ⟨by simp, hending⟩
  rintro ⟨branches, ending⟩ s ⟨hbranches, hending⟩
  rcases ending with _ | ⟨label, span⟩
  · exact Ensures.fail (I := fun _ => True) rfl rfl trivial
  have hlabel : s.Behind lexed (.ident label, span) := hending _ rfl
  suffices h : Ensures lexed (Inside lexed) _ _ from h (hlabel.inside rfl)
  simp only
  split
  · exact (skipIf_tracks hlexed rfl rfl).andThen fun _ _ => (closeTag_ensures hlexed).bind fun _ =>
      .pure fun _ hs => ⟨hs, hbranches⟩
  · refine (hlabels label).andThen fun args hargs => (closeTag_ensures hlexed).bind fun _ =>
      (hsequence _).bind fun (nodes, next) => .pure fun s hs => ?_
    refine ⟨List.forall_mem_cons.mpr ⟨⟨?_, hs.1⟩, hbranches⟩, hs.2⟩
    exact List.forall_mem_cons.mpr ⟨hlabel.hasLine, hasLine_of_each hargs⟩

omit hlexed in
/-- The fault of a tag that is not known rejects the tag. -/
theorem unknownTag_spec (registry : Registry) (opened : List (String × Nat)) (name : String)
    (line : Nat) : (unknownTag registry opened name line).rejectedLine? = some line ∧
      (unknownTag registry opened name line).isCustom = false := by
  unfold unknownTag
  split
  · split <;> exact ⟨rfl, rfl⟩
  · exact ⟨rfl, rfl⟩

/-- Rejecting a tag that is not known, behind its name. -/
theorem unknownTag_ensures {α : Type} {R : α → TokenStream → Prop} {registry : Registry}
    {opened : List (String × Nat)} {name : String} {start : Span} :
    Ensures lexed (Opened lexed name start)
      (fail (unknownTag registry opened name start.start.line)) R := by
  rintro s ⟨span, hname, hneighbours⟩
  refine ⟨fun a t hrun => (by cases hrun), fun e hrun => ?_⟩
  obtain rfl := Except.error.inj hrun
  obtain ⟨hline, hcustom⟩ := unknownTag_spec registry opened name start.start.line
  refine ⟨rfl, hcustom, fun hn => ⟨_, rfl, .inr ⟨_, _, hneighbours, .inl ?_⟩⟩⟩
  exact ⟨Option.some.inj (hn.symm.trans hline), hname.failureLine hlexed⟩

/-- A tag behind its name. -/
theorem tag_ensures {registry : Registry} (hbuiltin : ∀ {name : String} {tag : Tag},
      registry.tag? name = some tag → ∃ b : BuiltinTag, tag = .builtin b)
    {opened : List (String × Nat)}
    {below? : Option (Parser Expr ×
      (List (String × Nat) → (String → Bool) → Parser (List Node × Ending)))}
    (hbelow : ∀ below ∈ below?, Tracks lexed below.1 (OnLines lexed) ∧
      ∀ opened isEnd, Ensures lexed (Between lexed) (below.2 opened isEnd)
        fun (nodes, ending) s => (∀ n ∈ nodes, NodeOnLines lexed n) ∧ EndsBehind lexed ending s)
    (name : String) (start : Span) :
    Ensures lexed (Opened lexed name start) (Parser.tag registry opened below? name start)
      fun n s => s.Between lexed ∧ NodeOnLines lexed n := by
  cases htag : registry.tag? name with
  | none =>
    simp only [Parser.tag, htag]
    exact unknownTag_ensures hlexed
  | some tag =>
    obtain ⟨b, rfl⟩ := hbuiltin htag
    refine fun s hs => ?_
    have hstart := hs.hasLine
    obtain ⟨nameSpan, hname, -⟩ := hs
    suffices h : Ensures lexed (Inside lexed) _ _ from h (hname.inside rfl)
    rcases below? with _ | ⟨expr, nodes⟩
    · simp only [Parser.tag, htag]
      exact tooDeep_ensures
    · obtain ⟨hexpr, hnodes⟩ := hbelow _ rfl
      obtain ⟨harguments, hlabels⟩ := builtin_tracks hlexed b hexpr
      simp only [Parser.tag, htag]
      refine harguments.andThen fun args hargs => (closeTag_ensures hlexed).bind fun _ => ?_
      have hnode {body : List Node} {branches : List Branch}
          (hbody : ∀ n ∈ body, NodeOnLines lexed n)
          (hbranches : ∀ b ∈ branches, (∀ line ∈ b.lines, lexed.HasLine line) ∧
            ∀ n ∈ b.body, NodeOnLines lexed n) : Ensures lexed (Between lexed)
          (do return .tag name args body branches (← upToHere start)) fun n s =>
            s.Between lexed ∧ NodeOnLines lexed n := by
        refine (upToHere_ensures start).bind fun span => .pure fun s hs => ⟨hs.1, ?_⟩
        refine Node.throughout_tag.mpr ⟨?_, Node.throughout_of_forall hbody,
          Node.throughoutBranches_of_forall fun b hb =>
            Node.throughout_of_forall (hbranches b hb).2⟩
        refine List.forall_mem_cons.mpr ⟨hs.2 ▸ hstart, List.forall_mem_append.mpr
          ⟨hasLine_of_each hargs, fun line hline => ?_⟩⟩
        obtain ⟨b, hb, hline⟩ := List.mem_flatMap.mp hline
        exact (hbranches b hb).1 line hline
      split
      · exact (tagBody_ensures hlexed hlabels (hnodes _)).bind fun _ _ hs =>
          hnode hs.2.1 hs.2.2 hs.1
      · exact hnode (by simp) (by simp)

/-- A sequence of nodes at any depth of nesting. -/
theorem nodes_ensures {registry : Registry} (hbuiltin : ∀ {name : String} {tag : Tag},
      registry.tag? name = some tag → ∃ b : BuiltinTag, tag = .builtin b) (depth : Nat)
    (opened : List (String × Nat)) (isEnd : String → Bool) :
    Ensures lexed (Between lexed) (nodes registry depth opened isEnd) fun (nodes, ending) s =>
      (∀ n ∈ nodes, NodeOnLines lexed n) ∧ EndsBehind lexed ending s := by
  have hexpr (depth : Nat) := (level_tracks hlexed registry.hasFilter depth).1
  induction depth generalizing opened isEnd with
  | zero => exact sequence_ensures hlexed (hexpr 0) (tag_ensures hlexed hbuiltin (by simp))
  | succ depth ih =>
    refine sequence_ensures hlexed (hexpr (depth + 1)) (tag_ensures hlexed hbuiltin ?_)
    rintro _ ⟨⟩
    exact ⟨hexpr depth, ih⟩

/-- A whole template. -/
theorem template_ensures {registry : Registry} (hbuiltin : ∀ {name : String} {tag : Tag},
      registry.tag? name = some tag → ∃ b : BuiltinTag, tag = .builtin b) :
    Ensures lexed (Between lexed) (template registry) fun nodes _ =>
      Node.Throughout (fun n => ∀ line ∈ n.lines, lexed.HasLine line) nodes := by
  refine (nodes_ensures hlexed hbuiltin maxDepth [] _).bind fun (nodes, ending) => ?_
  rcases ending with _ | ⟨name, span⟩
  · exact .pure fun _ hs => Node.throughout_of_forall hs.1
  · exact Ensures.before (reject_ensures hlexed) fun _ hs => hs.2 (name, span) rfl

end Nodes

end Parser

namespace Template

variable {registry : Registry} {controls : Controls} {name source : String}

/-- Reading a source comes to nodes on lines of its tokens, or to an error that they explain. -/
theorem run_template_spec (hcontrols : controls.check = .ok ())
    (hbuiltin : ∀ {name : String} {tag : Tag}, registry.tag? name = some tag →
      ∃ b : BuiltinTag, tag = .builtin b) :
    (∀ t, parse registry controls name source = .ok t → t.name = name ∧
      ∀ line ∈ t.startLines, (lex controls source).HasLine line) ∧
    ∀ e, parse registry controls name source = .error e →
      ∃ bare, (lex controls source).Explains bare ∧ e = bare.locate name 1 := by
  have hlexed := lex_regular hcontrols source
  obtain ⟨hok, herror⟩ := Parser.template_ensures hlexed hbuiltin
    (s := { rest := (lex controls source).tokens, error? := (lex controls source).error? })
    ⟨rfl, ⟨[], rfl⟩, hlexed.regions⟩
  constructor
  · intro t h
    obtain ⟨nodes, hrun, h⟩ := Result.bind_eq_ok.mp h
    obtain rfl := Except.ok.inj h
    unfold Parser.run at hrun
    split at hrun
    · next nodes' s hparse =>
      obtain rfl := Except.ok.inj hrun
      refine ⟨rfl, fun line hline => ?_⟩
      obtain ⟨n, hn, hline⟩ := List.mem_flatMap.mp hline
      exact hok _ s hparse n hn line hline
    · cases hrun
  · intro e h
    rcases Result.bind_eq_error.mp h with hrun | ⟨_, -, h⟩
    · unfold Parser.run at hrun
      split at hrun
      · cases hrun
      · next bare hparse => exact ⟨bare, herror bare hparse, (Except.error.inj hrun).symm⟩
    · cases h

end Template

end Templating
