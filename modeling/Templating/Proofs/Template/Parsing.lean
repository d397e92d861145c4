import Templating.Proofs.Template.Everywhere
import Templating.Proofs.Template.Limits

/-!
# Parsed templates

What is inside of a tag is what the shape of the tag allows. A tag without a body is read up to its
closing delimiter and nothing is inside; a branch begins where one of the labels of the tag is read.
A set that was loaded consists of templates that were read in this way.
-/

namespace Templating

/-- What is inside of a tag is what its shape allows: nothing if the tag has no body, and only
branches that begin with one of its labels. -/
def Node.FitsShape (registry : Registry) : Node → Prop
  | .tag name _ body branches _ =>
    ∀ tag, registry.tag? name = some tag →
      (tag.shape.hasBody = false → body = [] ∧ branches = []) ∧
        ∀ b ∈ branches, b.label ∈ tag.shape.labels
  | _ => True

open Node (Throughout ThroughoutBranches FitsShape)

namespace Parser

/-- A whole template with so many levels of nesting. -/
def templateWithin (registry : Registry) (depth : Nat) : Parser (List Node) := do
  let (nodes, ending) ← nodes registry depth [] fun _ => false
  match ending with
  | none => return nodes
  | some (name, span) => fail (misplaced (.ident name) span)

/-- Templates are read with the levels of nesting that templates may have. -/
theorem template_eq (registry : Registry) : template registry = templateWithin registry maxDepth :=
  rfl

/-- What holds of an expression with filters around it, hence of its parts, holds of the subject and
of the chain that the filters are moved into. -/
theorem unchain_forall {E : Expr → Prop} {F : FilterCall → Prop}
    (hparts : ∀ name subject args span, E (.filter name subject args span) →
      E subject ∧ F ⟨name, args, span⟩)
    {filters : List FilterCall} {e : Expr} (he : E e) (hfilters : ∀ f ∈ filters, F f) :
    E (unchain filters e).1 ∧ ∀ f ∈ (unchain filters e).2, F f := by
  fun_induction unchain filters e with
  | case1 filters name subject args span ih =>
    obtain ⟨hsubject, hfilter⟩ := hparts name subject args span he
    exact ih hsubject (List.forall_mem_cons.mpr ⟨hfilter, hfilters⟩)
  | case2 filters e => exact ⟨he, hfilters⟩

section Nodes

variable {Q : Node → Prop} {L : List TagArg → Prop} {expr expr' : Parser Expr}

/-- A sequence of nodes has the property if the nodes in it do, and ends where it should. -/
theorem sequence_within {tag tag' : String → Span → Parser Node} {isEnd : String → Bool}
    (hliteral : ∀ text span, Q (.literal text span))
    (houtput : ∀ span, (output expr span).Within (output expr' span) Q)
    (htag : ∀ name start, (tag name start).Within (tag' name start) Q) :
    (sequence expr tag isEnd).Within (sequence expr' tag' isEnd) fun (nodes, ending) =>
      (∀ n ∈ nodes, Q n) ∧ ∀ word ∈ ending, isEnd word.1 = true := by
  refine .iterate (I := fun nodes => ∀ n ∈ nodes, Q n)
    (fun _ hn => absurd hn List.not_mem_nil) fun nodes hnodes => .behind fun next => ?_
  have hreverse : ∀ n ∈ nodes.reverse, Q n := fun n hn => hnodes n (List.mem_reverse.mp hn)
  rcases next with _ | ⟨token, span⟩
  · exact .pure ⟨hreverse, fun _ h => absurd h (by simp)⟩
  cases token with
  | data text => exact .pure (List.forall_mem_cons.mpr ⟨hliteral text span, hnodes⟩)
  | outputStart =>
    exact (houtput span).bind fun n hn => .pure (List.forall_mem_cons.mpr ⟨hn, hnodes⟩)
  | tagStart =>
    refine .behind fun (token, nameSpan) => ?_
    cases token with
    | ident name =>
      simp only
      split
      · next hend =>
        exact .pure ⟨hreverse, fun word hword => by rwa [← Option.some.inj hword]⟩
      · exact (htag name span).bind fun n hn => .pure (List.forall_mem_cons.mpr ⟨hn, hnodes⟩)
    | _ => exact .fail _
  | _ => exact .fail _

/-- The body of a tag and its branches have the property if the sequences in it do, and each branch
begins with a label of the tag. -/
theorem tagBody_within {shape : TagShape}
    {sequence sequence' : (String → Bool) → Parser (List Node × Ending)}
    (hlabels : ∀ label, (shape.labelArguments label expr).Within
      (shape.labelArguments label expr') L)
    (hsequence : ∀ isEnd, (sequence isEnd).Within (sequence' isEnd) fun (nodes, ending) =>
      (∀ n ∈ nodes, Q n) ∧ ∀ word ∈ ending, isEnd word.1 = true) (name : String) (line : Nat) :
    (tagBody sequence expr name shape line).Within (tagBody sequence' expr' name shape line)
      fun (body, branches) => (∀ n ∈ body, Q n) ∧
        ∀ b ∈ branches, b.label ∈ shape.labels ∧ L b.args ∧ ∀ n ∈ b.body, Q n := by
  refine (hsequence _).bind fun (body, ending) ⟨hbody, hending⟩ => ?_
  refine Within.bind (R := fun branches : List Branch => ∀ b ∈ branches,
      b.label ∈ shape.labels ∧ L b.args ∧ ∀ n ∈ b.body, Q n) ?_ fun branches hbranches =>
    .pure ⟨hbody, fun b hb => hbranches b (List.mem_reverse.mp hb)⟩
  -- what was read last is the end tag or a label
  refine .iterate (I := fun state : List Branch × Ending =>
      (∀ b ∈ state.1, b.label ∈ shape.labels ∧ L b.args ∧ ∀ n ∈ b.body, Q n) ∧
        ∀ word ∈ state.2, (word.1 == "end" ++ name || shape.labels.contains word.1) = true)
    ⟨fun _ hb => absurd hb List.not_mem_nil, hending⟩ fun (branches, ending) ⟨hbranches, hend⟩ => ?_
  rcases ending with _ | ⟨label, span⟩
  · exact .fail _
  simp only
  split
  · exact .behind fun _ => .behind fun _ => .pure hbranches
  · next hlabel =>
    refine (hlabels label).bind fun args hargs => .behind fun _ => ?_
    refine (hsequence _).bind fun (nodes, next) hnodes => ?_
    have hlabel : label ∈ shape.labels := by simpa [hlabel] using hend _ rfl
    exact .pure ⟨List.forall_mem_cons.mpr ⟨⟨hlabel, hargs, hnodes.1⟩, hbranches⟩, hnodes.2⟩

end Nodes

/-- Properties of expressions, of the arguments of tags and of their labels and of nodes, for each
number of levels left, that go along with reading: what is read from parts that have them has them
as well. So many levels to spare make no difference to the arguments but for a refusal to nest
deeper. -/
structure Reads (registry : Registry) (spare : Nat) (E : Nat → Expr → Prop)
    (A L : Nat → Tag → List TagArg → Prop) (P : Nat → Node → Prop) : Prop where
  expr : ∀ k, (exprAt registry.hasFilter k).Within (exprAt registry.hasFilter (spare + k)) (E k)
  arguments : ∀ {name tag} k, registry.tag? name = some tag →
    (tag.shape.arguments (exprAt registry.hasFilter k)).Within
      (tag.shape.arguments (exprAt registry.hasFilter (spare + k))) (A k tag)
  labelArguments : ∀ {name tag} k label, registry.tag? name = some tag →
    (tag.shape.labelArguments label (exprAt registry.hasFilter k)).Within
      (tag.shape.labelArguments label (exprAt registry.hasFilter (spare + k))) (L k tag)
  literal : ∀ k text span, P k (.literal text span)
  output : ∀ {k e} (span : Span), E k e → P k (.output (unchain [] e).1 (unchain [] e).2 span)
  tag : ∀ {k name tag args} {body : List Node} {branches : List Branch} (span : Span),
    registry.tag? name = some tag → A k tag args → (∀ n ∈ body, P k n) →
      (tag.shape.hasBody = false → body = [] ∧ branches = []) →
      (∀ b ∈ branches, b.label ∈ tag.shape.labels ∧ L k tag b.args ∧ ∀ n ∈ b.body, P k n) →
        P (k + 1) (.tag name args body branches span)

namespace Reads

variable {registry : Registry} {spare : Nat} {E : Nat → Expr → Prop}
  {A L : Nat → Tag → List TagArg → Prop} {P : Nat → Node → Prop}

/-- An output point has the property. -/
theorem output_within (h : Reads registry spare E A L P) (k : Nat) (start : Span) :
    (Parser.output (exprAt registry.hasFilter k) start).Within
      (Parser.output (exprAt registry.hasFilter (spare + k)) start) (P k) :=
  (h.expr k).bind fun _ he => .behind fun _ => .behind fun span => .pure (h.output span he)

/-- A tag has the property if every sequence inside does; without a level left it is refused. -/
theorem tag_within (h : Reads registry spare E A L P) {k : Nat}
    {sequence sequence' : List (String × Nat) → (String → Bool) → Parser (List Node × Ending)}
    (hsequence : ∀ opened isEnd, (sequence opened isEnd).Within (sequence' opened isEnd)
      fun (nodes, ending) => (∀ n ∈ nodes, P k n) ∧ ∀ word ∈ ending, isEnd word.1 = true)
    (opened : List (String × Nat)) (name : String) (start : Span) :
    (Parser.tag registry opened (some (exprAt registry.hasFilter k, sequence)) name start).Within
      (Parser.tag registry opened (some (exprAt registry.hasFilter (spare + k), sequence')) name
        start) (P (k + 1)) := by
  cases htag : registry.tag? name with
  | none =>
    simp only [Parser.tag, htag]
    exact .fail _
  | some tag =>
    simp only [Parser.tag, htag]
    refine (h.arguments k htag).bind fun args hargs => .behind fun _ => ?_
    split
    · next hbody =>
      refine (tagBody_within (fun label => h.labelArguments k label htag) (hsequence _) _ _).bind
        fun (body, branches) ⟨hnodes, hbranches⟩ => .behind fun span => .pure ?_
      exact h.tag span htag hargs hnodes (fun hnone => absurd hnone (by simp [hbody])) hbranches
    · refine .bind (R := fun read => read = ([], [])) (.pure rfl) ?_
      rintro _ rfl
      exact .behind fun span =>
        .pure (h.tag span htag hargs (by simp) (fun _ => ⟨rfl, rfl⟩) (by simp))

/-- A tag without a level left is refused. -/
theorem tag_refused (registry : Registry) (opened : List (String × Nat))
    (below? : Option (Parser Expr ×
      (List (String × Nat) → (String → Bool) → Parser (List Node × Ending))))
    (name : String) (start : Span) (Q : Node → Prop) :
    (Parser.tag registry opened none name start).Within
      (Parser.tag registry opened below? name start) Q := by
  cases htag : registry.tag? name with
  | none =>
    simp only [Parser.tag, htag]
    exact .fail _
  | some tag =>
    simp only [Parser.tag, htag]
    exact tooDeep_within _

/-- A sequence of nodes at any depth of nesting has the property. -/
theorem nodes_within (h : Reads registry spare E A L P) (k : Nat) (opened : List (String × Nat))
    (isEnd : String → Bool) :
    (nodes registry k opened isEnd).Within (nodes registry (spare + k) opened isEnd)
      fun (nodes, ending) => (∀ n ∈ nodes, P k n) ∧ ∀ word ∈ ending, isEnd word.1 = true := by
  induction k generalizing opened isEnd with
  | zero =>
    cases spare with
    | zero =>
      exact sequence_within (h.literal 0) (h.output_within 0) fun name start =>
        tag_refused registry opened none name start _
    | succ spare =>
      exact sequence_within (h.literal 0) (h.output_within 0) fun name start =>
        tag_refused registry opened _ name start _
  | succ k ih =>
    exact sequence_within (h.literal (k + 1)) (h.output_within (k + 1)) (h.tag_within ih opened)

/-- A template has the property throughout, and with more levels of nesting it is read alike. -/
theorem template_within (h : Reads registry spare E A L P) (k : Nat) :
    (templateWithin registry k).Within (templateWithin registry (spare + k))
      fun nodes => ∀ n ∈ nodes, P k n := by
  refine (h.nodes_within k [] _).bind fun (nodes, ending) hnodes => ?_
  rcases ending with _ | ⟨name, span⟩
  · exact .pure hnodes.1
  · exact .fail _

/-- A property of single nodes, whatever the levels left, is one of all nodes throughout. -/
theorem throughout {E : Expr → Prop} {A L : Tag → List TagArg → Prop} {P : Node → Prop}
    (hexpr : ∀ k, (exprAt registry.hasFilter k).Gives E)
    (harguments : ∀ {expr : Parser Expr} (tag : Tag), expr.Gives E →
      (tag.shape.arguments expr).Gives (A tag))
    (hlabels : ∀ {expr : Parser Expr} (tag : Tag) (label : String), expr.Gives E →
      (tag.shape.labelArguments label expr).Gives (L tag))
    (hliteral : ∀ text span, P (.literal text span))
    (houtput : ∀ {e : Expr} (span : Span), E e →
      P (.output (unchain [] e).1 (unchain [] e).2 span))
    (htag : ∀ {name : String} {tag : Tag} {args : List TagArg} {body : List Node}
      {branches : List Branch} (span : Span), registry.tag? name = some tag → A tag args →
        (tag.shape.hasBody = false → body = [] ∧ branches = []) →
        (∀ b ∈ branches, b.label ∈ tag.shape.labels ∧ L tag b.args) →
          P (.tag name args body branches span)) :
    Reads registry 0 (fun _ => E) (fun _ => A) (fun _ => L) fun _ n => Throughout P [n] where
  expr k := by simpa using (hexpr k).within
  arguments k _ := by simpa using (harguments _ (hexpr k)).within
  labelArguments k label _ := by simpa using (hlabels _ label (hexpr k)).within
  literal _ text span := by simpa [Throughout, Node.everywhere] using hliteral text span
  output span he := by simpa [Throughout, Node.everywhere] using houtput span he
  tag span hknown hargs hbody hempty hbranches := Node.throughout_tag.mpr
    ⟨htag span hknown hargs hempty fun b hb => ⟨(hbranches b hb).1, (hbranches b hb).2.1⟩,
      Node.throughout_of_forall hbody,
      Node.throughoutBranches_of_forall fun b hb =>
        Node.throughout_of_forall (hbranches b hb).2.2⟩

/-- A template has such a property throughout. -/
theorem template_gives {P : Node → Prop}
    (h : Reads registry 0 E A L fun _ n => Throughout P [n]) :
    (template registry).Gives (Throughout P) := by
  have hwithin := h.template_within maxDepth
  rw [Nat.zero_add] at hwithin
  exact (hwithin.imp fun _ => Node.throughout_of_forall).gives

end Reads

/-- Whatever the expressions, the tags that are read fit their shapes. -/
theorem reads_fitsShape (registry : Registry) :
    Reads registry 0 (fun _ _ => True) (fun _ _ _ => True) (fun _ _ _ => True)
      fun _ n => Throughout (FitsShape registry) [n] :=
  .throughout (fun _ _ _ _ _ => trivial) (fun _ _ _ _ _ _ => trivial)
    (fun _ _ _ _ _ _ _ => trivial) (fun _ _ => trivial) (fun _ _ => trivial)
    fun _ htag _ hempty hlabels other hother => by
      obtain rfl := Option.some.inj (htag.symm.trans hother)
      exact ⟨hempty, fun b hb => (hlabels b hb).1⟩

end Parser

variable {registry : Registry} {controls : Controls} {P : Node → Prop}

/-- A parsed template has throughout what reading gives. -/
theorem Template.throughout_of_parse (hread : (Parser.template registry).Gives (Throughout P))
    {name source : String} {t : Template} (h : parse registry controls name source = .ok t) :
    Throughout P t.nodes := by
  obtain ⟨nodes, hrun, h⟩ := Result.bind_eq_ok.mp h
  obtain rfl := Except.ok.inj h
  unfold Parser.run at hrun
  split at hrun
  · next hparse =>
    obtain rfl := Except.ok.inj hrun
    exact hread hparse
  · simp at hrun

namespace TemplateSet

variable {provider : SourceProvider} {root t : Template}
  {budget : Nat} {queue : List Reference} {loaded : List Template} {missing : List String}
  {s : TemplateSet}

/-- A parsed template has the name that it was parsed under. -/
theorem name_of_parse {name source : String}
    (h : Template.parse registry controls name source = .ok t) : t.name = name := by
  obtain ⟨nodes, -, h⟩ := Result.bind_eq_ok.mp h
  obtain rfl := Except.ok.inj h
  rfl

/-- What is kept when a parsed template of a new name is added holds of all that is loaded. -/
theorem of_follow {P : List Template → Prop}
    (hadd : ∀ {loaded : List Template} {name source : String} {t : Template}, P loaded →
      name ≠ root.name → provider name = .ok (some source) →
        Template.parse registry controls name source = .ok t → P (t :: loaded))
    (h : follow registry controls provider root budget queue loaded missing = .ok s)
    (hloaded : P loaded) : s.root = root ∧ P s.loaded := by
  induction budget generalizing queue loaded missing with
  | zero =>
    cases queue with
    | nil =>
      obtain rfl := Except.ok.inj h
      exact ⟨rfl, hloaded⟩
    | cons r queue => simp [follow, fail] at h
  | succ budget ih =>
    cases queue with
    | nil =>
      obtain rfl := Except.ok.inj h
      exact ⟨rfl, hloaded⟩
    | cons r queue =>
      rw [follow] at h
      split at h
      · exact ih h hloaded
      · next hnew =>
        split at h
        · split at h
          · exact ih h hloaded
          · simp at h
        · split at h
          · simp at h
          · split at h
            · exact ih h hloaded
            · simp at h
          · next hsource =>
            split at h
            · simp at h
            · next hparse =>
              refine ih h (hadd hloaded (fun hname => hnew ?_) hsource hparse)
              simp [hname]

/-- The source of a template of a set that is loaded for a root template. -/
def sourceOf? (provider : SourceProvider) (root source name : String) : Option String :=
  if name = root then some source else (provider name).toOption.join

/-- A template was parsed from the source that its name has in the set. -/
def IsParsed (registry : Registry) (controls : Controls) (provider : SourceProvider)
    (root source : String) (t : Template) : Prop :=
  ∃ text, sourceOf? provider root source t.name = some text ∧
    Template.parse registry controls t.name text = .ok t

/-- The templates of a loaded set were parsed from their sources. -/
theorem isParsed_of_load {name source : String}
    (h : load registry controls provider name source = .ok s) :
    ∀ t ∈ s.templates, IsParsed registry controls provider name source t := by
  obtain ⟨root, hroot, h⟩ := Result.bind_eq_ok.mp h
  have hname := name_of_parse hroot
  have hadd {loaded : List Template} {other text : String} {t : Template}
      (hloaded : ∀ u ∈ loaded, IsParsed registry controls provider name source u)
      (hnew : other ≠ root.name) (hsource : provider other = .ok (some text))
      (hparse : Template.parse registry controls other text = .ok t) :
      ∀ u ∈ t :: loaded, IsParsed registry controls provider name source u := by
    have hsame := name_of_parse hparse
    refine List.forall_mem_cons.mpr ⟨⟨text, ?_, hsame ▸ hparse⟩, hloaded⟩
    rw [sourceOf?, hsame, if_neg (hname ▸ hnew), hsource]
    rfl
  obtain ⟨hsame, hloaded⟩ := of_follow (P := fun loaded => ∀ t ∈ loaded,
    IsParsed registry controls provider name source t) hadd h (by simp)
  refine List.forall_mem_cons.mpr ⟨⟨source, ?_, ?_⟩, hloaded⟩
  · rw [sourceOf?, hsame, if_pos hname]
  · rw [hsame, hname]
    exact hroot

/-- The templates of a loaded set have throughout what reading gives. -/
theorem throughout_of_load (hread : (Parser.template registry).Gives (Throughout P))
    {name source : String} (h : load registry controls provider name source = .ok s) :
    ∀ t ∈ s.templates, Throughout P t.nodes := fun t ht => by
  obtain ⟨text, -, hparse⟩ := isParsed_of_load h t ht
  exact Template.throughout_of_parse hread hparse

/-- The templates of a loaded set consist of tags that fit their shapes. -/
theorem fitsShape_of_load {name source : String}
    (h : load registry controls provider name source = .ok s) :
    ∀ t ∈ s.templates, Throughout (FitsShape registry) t.nodes :=
  throughout_of_load (Parser.reads_fitsShape registry).template_gives h

end TemplateSet

end Templating
