import Templating.Proofs.Template.Arguments
import Templating.Proofs.Template.Refusal
import Templating.Proofs.Template.RoundTrip

/-!
# Nesting of parsed templates

Parts of a tree that lie further in are those that the reader takes from one level of nesting
further down: operands of a sign, keys of items, arguments, elements of lists and maps, and what is
inside of tags. Operands of `not` and of binary operators, and the subjects of attributes, items,
calls and filters lie further out: the reader takes them from its own level, however many there are
above each other.
-/

namespace Templating

/-- The largest of several numbers. -/
def tallest (heights : List Nat) : Nat := heights.foldr max 0

/-- The largest of several numbers is bounded as each of them is. -/
theorem tallest_le_iff {heights : List Nat} {n : Nat} :
    tallest heights ≤ n ↔ ∀ h ∈ heights, h ≤ n := by
  induction heights with
  | nil => simp [tallest]
  | cons h rest ih =>
    rw [tallest, List.foldr_cons, ← tallest, Nat.max_le, ih, List.forall_mem_cons]

/-- Among numbers that are bounded by sums, the largest is bounded by the sum of the largest. -/
theorem tallest_map_le_add {α : Type} {f g h : α → Nat} (xs : List α)
    (hle : ∀ x, f x ≤ g x + h x) :
    tallest (xs.map f) ≤ tallest (xs.map g) + tallest (xs.map h) := by
  induction xs with
  | nil => exact Nat.zero_le _
  | cons x rest ih =>
    have hx := hle x
    simp only [tallest, List.map_cons, List.foldr_cons] at ih ⊢
    omega

namespace Expr

mutual

/-- The longest way down into an expression, with one weight for each step further in and another
one for each step to a part on the same level of nesting. -/
def heightBy (inner outer : Nat) : Expr → Nat
  | .var .. => 0
  | .const .. => 0
  | .unary .neg operand _ => operand.heightBy inner outer + inner
  | .unary .not operand _ => operand.heightBy inner outer + outer
  | .binary _ left right _ => max (left.heightBy inner outer) (right.heightBy inner outer) + outer
  | .attr subject _ _ => subject.heightBy inner outer + outer
  | .item subject key _ =>
    max (subject.heightBy inner outer + outer) (key.heightBy inner outer + inner)
  | .filter _ subject args _ =>
    max (subject.heightBy inner outer + outer) (heightOfAllBy inner outer args)
  | .call callee args _ =>
    max (callee.heightBy inner outer + outer) (heightOfAllBy inner outer args)
  | .list items _ => heightOfAllBy inner outer items
  | .map entries _ => heightOfEntriesBy inner outer entries

/-- The longest way down into expressions one level further in. -/
def heightOfAllBy (inner outer : Nat) : List Expr → Nat
  | [] => 0
  | e :: rest => max (e.heightBy inner outer + inner) (heightOfAllBy inner outer rest)

/-- The longest way down into the entries of a map, one level further in. -/
def heightOfEntriesBy (inner outer : Nat) : List (Expr × Expr) → Nat
  | [] => 0
  | (key, value) :: rest =>
    max (max (key.heightBy inner outer) (value.heightBy inner outer) + inner)
      (heightOfEntriesBy inner outer rest)

end

/-- The height of an expression as a tree. -/
abbrev height (e : Expr) : Nat := e.heightBy 1 1

/-- The most steps further in on a way down into an expression. -/
abbrev nesting (e : Expr) : Nat := e.heightBy 1 0

/-- The most steps to parts of the same level on a way down into an expression. -/
abbrev chained (e : Expr) : Nat := e.heightBy 0 1

variable {inner outer n : Nat}

/-- The ways down into arguments are bounded as each of them is. -/
theorem heightOfAllBy_le_iff {es : List Expr} :
    heightOfAllBy inner outer es ≤ n ↔ ∀ e ∈ es, e.heightBy inner outer + inner ≤ n := by
  induction es with
  | nil => simp [heightOfAllBy]
  | cons e rest ih => rw [heightOfAllBy, Nat.max_le, ih, List.forall_mem_cons]

/-- The ways down into the entries of a map are bounded as each of them is. -/
theorem heightOfEntriesBy_le_iff {entries : List (Expr × Expr)} :
    heightOfEntriesBy inner outer entries ≤ n ↔ ∀ entry ∈ entries,
      max (entry.1.heightBy inner outer) (entry.2.heightBy inner outer) + inner ≤ n := by
  induction entries with
  | nil => simp [heightOfEntriesBy]
  | cons entry rest ih => rw [heightOfEntriesBy, Nat.max_le, ih, List.forall_mem_cons]

variable (a b c d : Nat)

mutual

/-- The longest way by two weights together is no longer than the longest ways by each of them. -/
theorem heightBy_add_le : ∀ e : Expr,
    e.heightBy (a + c) (b + d) ≤ e.heightBy a b + e.heightBy c d
  | .var .. => Nat.zero_le _
  | .const .. => Nat.zero_le _
  | .unary .neg operand _ => by
    have h := heightBy_add_le operand
    simp only [heightBy]
    omega
  | .unary .not operand _ => by
    have h := heightBy_add_le operand
    simp only [heightBy]
    omega
  | .binary _ left right _ => by
    have hl := heightBy_add_le left
    have hr := heightBy_add_le right
    simp only [heightBy]
    omega
  | .attr subject _ _ => by
    have h := heightBy_add_le subject
    simp only [heightBy]
    omega
  | .item subject key _ => by
    have h := heightBy_add_le subject
    have hkey := heightBy_add_le key
    simp only [heightBy]
    omega
  | .filter _ subject args _ => by
    have h := heightBy_add_le subject
    have hargs := heightOfAllBy_add_le args
    simp only [heightBy]
    omega
  | .call callee args _ => by
    have h := heightBy_add_le callee
    have hargs := heightOfAllBy_add_le args
    simp only [heightBy]
    omega
  | .list items _ => heightOfAllBy_add_le items
  | .map entries _ => heightOfEntriesBy_add_le entries

/-- The longest way by two weights together is no longer than the longest ways by each of them. -/
theorem heightOfAllBy_add_le : ∀ es : List Expr,
    heightOfAllBy (a + c) (b + d) es ≤ heightOfAllBy a b es + heightOfAllBy c d es
  | [] => Nat.zero_le _
  | e :: rest => by
    have h := heightBy_add_le e
    have hrest := heightOfAllBy_add_le rest
    simp only [heightOfAllBy]
    omega

/-- The longest way by two weights together is no longer than the longest ways by each of them. -/
theorem heightOfEntriesBy_add_le : ∀ entries : List (Expr × Expr),
    heightOfEntriesBy (a + c) (b + d) entries ≤
      heightOfEntriesBy a b entries + heightOfEntriesBy c d entries
  | [] => Nat.zero_le _
  | (key, value) :: rest => by
    have hkey := heightBy_add_le key
    have hvalue := heightBy_add_le value
    have hrest := heightOfEntriesBy_add_le rest
    simp only [heightOfEntriesBy]
    omega

end

/-- So many negations of a variable. -/
def negations : Nat → Expr
  | 0 => .var "x" {}
  | n + 1 => .unary .not (negations n) {}

/-- Negations are printable and nest no deeper than a variable. -/
theorem negations_fit (isFilter : String → Bool) (n : Nat) :
    (negations n).isPrintable isFilter = true ∧ (negations n).depth = 1 ∧
      (negations n).rank ≤ 8 := by
  induction n with
  | zero => exact ⟨by simp only [negations, isPrintable]; decide, rfl, by decide⟩
  | succ n ih =>
    obtain ⟨hprintable, hdepth, hrank⟩ := ih
    refine ⟨hprintable, ?_, Nat.le_refl 8⟩
    simp only [negations, depth, hrank, enclosedDepth, decide_true, if_true, hdepth]

/-- A copy of so many negations is as high, and not a filter. -/
theorem height_of_copies_negations {n : Nat} {e : Expr} (h : (negations n).Copies e) :
    e.height = n ∧ Parser.unchain [] e = (e, []) := by
  induction n generalizing e with
  | zero => cases e <;> first | exact ⟨rfl, rfl⟩ | cases h
  | succ n ih =>
    cases e with
    | unary op operand span =>
      obtain ⟨rfl, hoperand, -⟩ := Expr.unary.inj h
      exact ⟨congrArg Nat.succ (ih hoperand).1, rfl⟩
    | _ => cases h

end Expr

namespace TagArg

/-- The longest way down into the expression of an argument, if it is one. -/
def heightBy (inner outer : Nat) : TagArg → Nat
  | expr e => e.heightBy inner outer
  | _ => 0

/-- The longest way by two weights together is no longer than the longest ways by each of them. -/
theorem heightBy_add_le (a b c d : Nat) (arg : TagArg) :
    arg.heightBy (a + c) (b + d) ≤ arg.heightBy a b + arg.heightBy c d := by
  cases arg with
  | expr e => exact e.heightBy_add_le a b c d
  | _ => exact Nat.zero_le _

/-- The ways down into arguments are bounded as those into the expressions among them are. -/
theorem tallest_le_iff_each {inner outer n : Nat} {args : List TagArg} :
    tallest (args.map (heightBy inner outer)) ≤ n ↔
      Each (fun e => e.heightBy inner outer ≤ n) args := by
  rw [tallest_le_iff, List.forall_mem_map]
  constructor
  · exact fun h e he => h (.expr e) he
  · intro h arg harg
    cases arg with
    | expr e => exact h e harg
    | _ => exact Nat.zero_le _

end TagArg

namespace Node

mutual

/-- The longest way down into a node; what is inside of a tag lies further in. -/
def heightBy (inner outer : Nat) : Node → Nat
  | .literal .. => 0
  | .output subject filters _ =>
    max (subject.heightBy inner outer)
      (tallest (filters.map fun f => Expr.heightOfAllBy inner outer f.args))
  | .tag _ args body branches _ =>
    max (tallest (args.map (TagArg.heightBy inner outer)))
      (max (heightOfAllBy inner outer body) (heightOfBranchesBy inner outer branches)) + inner

/-- The longest way down into nodes. -/
def heightOfAllBy (inner outer : Nat) : List Node → Nat
  | [] => 0
  | n :: rest => max (n.heightBy inner outer) (heightOfAllBy inner outer rest)

/-- The longest way down into branches. -/
def heightOfBranchesBy (inner outer : Nat) : List Branch → Nat
  | [] => 0
  | .mk _ args body _ :: rest =>
    max (max (tallest (args.map (TagArg.heightBy inner outer))) (heightOfAllBy inner outer body))
      (heightOfBranchesBy inner outer rest)

end

/-- The height of a node as a tree of tags and expressions. -/
abbrev height (n : Node) : Nat := n.heightBy 1 1

/-- The most steps further in on a way down into a node. -/
abbrev nesting (n : Node) : Nat := n.heightBy 1 0

/-- The most steps to parts of the same level on a way down into a node. -/
abbrev chained (n : Node) : Nat := n.heightBy 0 1

variable {inner outer n : Nat}

/-- The ways down into nodes are bounded as each of them is. -/
theorem heightOfAllBy_le_iff {nodes : List Node} :
    heightOfAllBy inner outer nodes ≤ n ↔ ∀ m ∈ nodes, m.heightBy inner outer ≤ n := by
  induction nodes with
  | nil => simp [heightOfAllBy]
  | cons m rest ih => rw [heightOfAllBy, Nat.max_le, ih, List.forall_mem_cons]

/-- The ways down into branches are bounded as their arguments and nodes are. -/
theorem heightOfBranchesBy_le_iff {branches : List Branch} :
    heightOfBranchesBy inner outer branches ≤ n ↔ ∀ b ∈ branches,
      tallest (b.args.map (TagArg.heightBy inner outer)) ≤ n ∧
        ∀ m ∈ b.body, m.heightBy inner outer ≤ n := by
  induction branches with
  | nil => simp [heightOfBranchesBy]
  | cons b rest ih =>
    obtain ⟨label, args, body, span⟩ := b
    rw [heightOfBranchesBy, Nat.max_le, Nat.max_le, ih, heightOfAllBy_le_iff,
      List.forall_mem_cons]
    rfl

variable (a b c d : Nat)

mutual

/-- The longest way by two weights together is no longer than the longest ways by each of them. -/
theorem heightBy_add_le : ∀ n : Node,
    n.heightBy (a + c) (b + d) ≤ n.heightBy a b + n.heightBy c d
  | .literal .. => Nat.zero_le _
  | .output subject filters _ => by
    have hsubject := subject.heightBy_add_le a b c d
    have hfilters := tallest_map_le_add filters
      fun f : FilterCall => Expr.heightOfAllBy_add_le a b c d f.args
    simp only [heightBy]
    omega
  | .tag _ args body branches _ => by
    have hargs := tallest_map_le_add args (TagArg.heightBy_add_le a b c d)
    have hbody := heightOfAllBy_add_le body
    have hbranches := heightOfBranchesBy_add_le branches
    simp only [heightBy]
    omega

/-- The longest way by two weights together is no longer than the longest ways by each of them. -/
theorem heightOfAllBy_add_le : ∀ nodes : List Node,
    heightOfAllBy (a + c) (b + d) nodes ≤ heightOfAllBy a b nodes + heightOfAllBy c d nodes
  | [] => Nat.zero_le _
  | n :: rest => by
    have h := heightBy_add_le n
    have hrest := heightOfAllBy_add_le rest
    simp only [heightOfAllBy]
    omega

/-- The longest way by two weights together is no longer than the longest ways by each of them. -/
theorem heightOfBranchesBy_add_le : ∀ branches : List Branch,
    heightOfBranchesBy (a + c) (b + d) branches ≤
      heightOfBranchesBy a b branches + heightOfBranchesBy c d branches
  | [] => Nat.zero_le _
  | .mk _ args body _ :: rest => by
    have hargs := tallest_map_le_add args (TagArg.heightBy_add_le a b c d)
    have hbody := heightOfAllBy_add_le body
    have hrest := heightOfBranchesBy_add_le rest
    simp only [heightOfBranchesBy]
    omega

end

end Node

namespace Parser

open TagArg (Each)

/-- Whatever is read at a level of nesting nests no deeper than the levels left. -/
theorem builds_nesting : Builds fun k e => e.nesting ≤ k where
  above h := Nat.le_succ_of_le h
  var _ _ := Nat.zero_le _
  const _ _ := Nat.zero_le _
  negated _ h := h
  signed op _ h := by cases op <;> simp only [Expr.nesting, Expr.heightBy] at h ⊢ <;> omega
  binary _ _ hleft hright := Nat.max_le.mpr ⟨hleft, hright⟩
  attr _ _ h := h
  item _ h hkey := Nat.max_le.mpr ⟨h, Nat.succ_le_succ hkey⟩
  filter _ _ h hargs := Nat.max_le.mpr
    ⟨h, Expr.heightOfAllBy_le_iff.mpr fun a ha => Nat.succ_le_succ (hargs a ha)⟩
  call _ h hargs := Nat.max_le.mpr
    ⟨h, Expr.heightOfAllBy_le_iff.mpr fun a ha => Nat.succ_le_succ (hargs a ha)⟩
  list _ hitems := Expr.heightOfAllBy_le_iff.mpr fun e he => Nat.succ_le_succ (hitems e he)
  map _ hentries := Expr.heightOfEntriesBy_le_iff.mpr fun entry hentry =>
    Nat.succ_le_succ (Nat.max_le.mpr (hentries entry hentry))

/-- Nodes that are read nest no deeper than the levels left, if the tags that were added hand on
what the reader of expressions does. -/
theorem reads_nesting {registry : Registry}
    (hcustom : ∀ name tag, registry.tag? name = some (.custom tag) →
      ∀ k, tag.toTagShape.HandsOn fun e => e.nesting ≤ k) (spare : Nat) :
    Reads registry spare (fun k e => e.nesting ≤ k)
      (fun k _ args => Each (fun e => e.nesting ≤ k) args)
      (fun k _ args => Each (fun e => e.nesting ≤ k) args) fun k n => n.nesting ≤ k := by
  have hexpr k := (level_within builds_nesting registry.hasFilter spare k).1
  have hhandsOn {name tag} (htag : registry.tag? name = some tag) (k : Nat) :
      tag.shape.HandsOn fun e => e.nesting ≤ k := by
    cases tag with
    | builtin tag => exact builtin_handsOn _ tag
    | custom tag => exact hcustom name tag htag k
  exact {
    expr := hexpr
    arguments := fun k htag => (hhandsOn htag k).arguments (hexpr k)
    labelArguments := fun k label htag => (hhandsOn htag k).labelArguments label (hexpr k)
    literal := fun k text span => Nat.zero_le k
    output := fun span he => by
      obtain ⟨hsubject, hfilters⟩ := unchain_forall
        (F := fun f => Expr.heightOfAllBy 1 0 f.args ≤ _) (fun _ _ _ _ h => Nat.max_le.mp h) he
        fun _ h => absurd h List.not_mem_nil
      exact Nat.max_le.mpr ⟨hsubject, tallest_le_iff.mpr (List.forall_mem_map.mpr hfilters)⟩
    tag := fun span htag hargs hbody hempty hbranches => by
      refine Nat.succ_le_succ (Nat.max_le.mpr ⟨TagArg.tallest_le_iff_each.mpr hargs,
        Nat.max_le.mpr ⟨Node.heightOfAllBy_le_iff.mpr hbody, ?_⟩⟩)
      exact Node.heightOfBranchesBy_le_iff.mpr fun b hb =>
        ⟨TagArg.tallest_le_iff_each.mpr (hbranches b hb).2.1, (hbranches b hb).2.2⟩ }

end Parser

namespace Template

open Templating.Parser (maxDepth templateWithin isOpener)

variable {registry : Registry}

/-- Read a template that may nest so many levels deep. -/
def parseWithin (registry : Registry) (controls : Controls) (depth : Nat) (name source : String) :
    Result Template := do
  return ⟨name, ← (templateWithin registry depth).run name (lex controls source)⟩

/-- Templates are read with the levels of nesting that templates may have. -/
theorem parse_eq_parseWithin (controls : Controls) (name source : String) :
    parse registry controls name source = parseWithin registry controls maxDepth name source :=
  rfl

/-- The template is refused because it nests too deep. -/
def Refused (r : Result Template) : Prop :=
  ∃ e : Error, r = .error e ∧ e.IsTooDeep ∧ e.kind = .badSyntax

/-- A template whose tokens the parser refuses is refused. -/
theorem refused_of_refuses {controls : Controls} {depth : Nat} {name source : String}
    (h : (templateWithin registry depth).Refuses
      { rest := (lex controls source).tokens, error? := (lex controls source).error? }) :
    Refused (parseWithin registry controls depth name source) := by
  obtain ⟨e, he, line, hfault⟩ := h
  refine ⟨e.locate name 1, ?_, ⟨line, ?_⟩, ?_⟩
  · rw [parseWithin, Parser.run, he]
    rfl
  · rw [Error.fault_locate, hfault]
  · rw [Error.kind, Error.fault_locate, hfault]
    rfl

section HandedOn

variable (hcustom : ∀ name tag, registry.tag? name = some (.custom tag) →
  ∀ k, tag.toTagShape.HandsOn fun e => e.nesting ≤ k)

include hcustom

/-- With more levels of nesting a template is read alike, or it is refused. -/
theorem refused_or_parseWithin_eq {depth limit : Nat} (hle : depth ≤ limit) (controls : Controls)
    (name source : String) : Refused (parseWithin registry controls depth name source) ∨
      parseWithin registry controls depth name source =
        parseWithin registry controls limit name source := by
  obtain ⟨spare, rfl⟩ := Nat.exists_eq_add_of_le' hle
  refine ((Parser.reads_nesting hcustom spare).template_within depth _).imp refused_of_refuses ?_
  rintro ⟨hsame, -⟩
  rw [parseWithin, parseWithin, Parser.run, Parser.run, hsame]

/-- A template nests no deeper than the levels that it is read with. -/
theorem nesting_le_of_parseWithin {controls : Controls} {depth : Nat} {name source : String}
    {t : Template} (h : parseWithin registry controls depth name source = .ok t) :
    ∀ n ∈ t.nodes, n.nesting ≤ depth := by
  obtain ⟨nodes, hrun, ht⟩ := Result.bind_eq_ok.mp h
  obtain rfl := Except.ok.inj ht
  unfold Parser.run at hrun
  split at hrun
  · next hparse =>
    obtain rfl := Except.ok.inj hrun
    exact ((Parser.reads_nesting hcustom 0).template_within depth).gives hparse
  · cases hrun

end HandedOn

/-- Nesting is bounded, but for operators above each other on the same level: whatever is accepted
nests only so deep, and what nests deeper is refused. More levels of nesting make no difference
other than for what is refused. -/
theorem parse_nesting
    (hcustom : ∀ name tag, registry.tag? name = some (.custom tag) →
      ∀ k, tag.toTagShape.HandsOn fun e => e.nesting ≤ k)
    (controls : Controls) (name source : String) :
    (∀ t, parse registry controls name source = .ok t →
      ∀ n ∈ t.nodes, n.nesting ≤ maxDepth ∧ n.height ≤ maxDepth + n.chained) ∧
    (∀ depth, maxDepth ≤ depth →
      Refused (parse registry controls name source) ∨
        parse registry controls name source =
          parseWithin registry controls depth name source) ∧
    (∀ depth t, parseWithin registry controls depth name source = .ok t →
      (∃ n ∈ t.nodes, maxDepth < n.nesting) → Refused (parse registry controls name source)) ∧
    (∀ span openers rest, (lex controls source).tokens = (.outputStart, span) :: (openers ++ rest) →
      (∀ t ∈ openers, isOpener t.1 = true) → maxDepth ≤ openers.length →
        Refused (parse registry controls name source)) := by
  simp only [parse_eq_parseWithin]
  refine ⟨fun t ht n hn => ?_, fun depth hdepth => ?_, fun depth t ht ⟨n, hn, hdeep⟩ => ?_, ?_⟩
  · have hnesting := nesting_le_of_parseWithin hcustom ht n hn
    exact ⟨hnesting, (n.heightBy_add_le 1 0 0 1).trans (Nat.add_le_add_right hnesting _)⟩
  · exact refused_or_parseWithin_eq hcustom hdepth controls name source
  · have hnesting := nesting_le_of_parseWithin hcustom ht n hn
    have hdepth : maxDepth ≤ depth := (hdeep.trans_le hnesting).le
    rcases refused_or_parseWithin_eq hcustom hdepth controls name source with hrefused | hsame
    · exact hrefused
    · have hnesting := nesting_le_of_parseWithin hcustom (hsame.trans ht) n hn
      exact absurd hnesting (Nat.not_le.mpr hdeep)
  · intro span openers rest htokens hopeners hlength
    refine refused_of_refuses ?_
    rw [htokens]
    exact Parser.templateWithin_refuses registry hopeners hlength

set_option maxRecDepth 100000 in
/-- A template with a tag, a sign and lists, and a negation inside of them. -/
theorem parse_nesting_initial :
    let accepted := "\x7b% if a %\x7d\x7b\x7b -[not b.c, [d]] \x7d\x7d\x7b% endif %\x7d"
    (∀ name tag, Registry.initial.tag? name = some (.custom tag) →
      ∀ k, tag.toTagShape.HandsOn fun e => e.nesting ≤ k) ∧
    ∃ t, parse Registry.initial {} "t" accepted = .ok t ∧ t.nodes.map Node.nesting = [4] ∧
      t.nodes.map Node.height = [5] ∧
      ∀ n ∈ t.nodes, n.nesting ≤ maxDepth ∧ n.height ≤ maxDepth + n.chained := by
  intro accepted
  have hcustom : ∀ name tag, Registry.initial.tag? name = some (.custom tag) →
      ∀ k, tag.toTagShape.HandsOn fun e => e.nesting ≤ k := by
    intro name tag htag
    obtain ⟨_, hbuiltin, _⟩ := Registry.tag?_initial htag
    cases hbuiltin
  refine ⟨hcustom, ?_⟩
  have hheights : ((parse Registry.initial {} "t" accepted).map fun t =>
      (t.nodes.map Node.nesting, t.nodes.map Node.height)).toOption = some ([4], [5]) := by
    decide +kernel
  cases ht : parse Registry.initial {} "t" accepted with
  | error e => rw [ht] at hheights; cases hheights
  | ok t =>
    rw [ht] at hheights
    obtain ⟨hnesting, hheight⟩ := Prod.mk.inj (Option.some.inj hheights)
    exact ⟨t, rfl, hnesting, hheight, (parse_nesting hcustom {} "t" accepted).1 t ht⟩

/-- No bound on the height of what is accepted holds for all sources. -/
theorem not_forall_height_le :
    ¬ ∃ bound, ∀ name source t, parse Registry.initial {} name source = .ok t →
      ∀ n ∈ t.nodes, n.height ≤ bound := by
  rintro ⟨bound, h⟩
  obtain ⟨hprintable, hdepth, -⟩ :=
    Expr.negations_fit Registry.initial.hasFilter (bound + 1)
  obtain ⟨nodes, ⟨e, span, hcopy, rfl⟩, hparse⟩ := parse_of_takes
    (Lexer.lex_written (Expr.tokens_legible _ hprintable))
    (Parser.template_takes hprintable (by rw [hdepth]; decide)) "t"
  obtain ⟨hheight, hunchain⟩ := Expr.height_of_copies_negations hcopy
  have hle := h _ _ _ hparse _ (List.mem_singleton.mpr rfl)
  rw [hunchain] at hle
  have hle : e.height ≤ bound := (Nat.max_le.mp hle).1
  omega

end Template

end Templating
