import Templating.Proofs.Emission.Growth
import Templating.Proofs.Program.LineTable
import Templating.Proofs.Template.StartLines

/-!
# Where instructions come from

Emission keeps a current file and a current line. Whatever emits code of another template comes back
to the file, but not to the line: behind an included or imported template, or a block that several
templates define, the line is one of the other template until the next node, label, expression or
filter sets it again. So an instruction that a tag emits right behind such code has the file of one
template and a line of another one, and all other instructions have a line on which something starts
in their own template. Which tags emit such instructions is read off the nodes.
-/

namespace Templating

/-- The tags of the registry are built-in ones, under their names. -/
def Registry.OnlyBuiltinTags (registry : Registry) : Prop :=
  ∀ ⦃name : String⦄ ⦃tag : Tag⦄, registry.tag? name = some tag →
    ∃ b : BuiltinTag, tag = .builtin b ∧ b.name = name

/-- A tag of such a registry is a built-in one. -/
theorem Registry.OnlyBuiltinTags.exists_builtin {registry : Registry} (h : registry.OnlyBuiltinTags)
    {name : String} {tag : Tag} (htag : registry.tag? name = some tag) :
    ∃ b : BuiltinTag, tag = .builtin b :=
  (h htag).imp fun _ => And.left

/-- There are no other tags to begin with. -/
theorem Registry.onlyBuiltinTags_initial : initial.OnlyBuiltinTags := fun _ _ => tag?_initial

/-- The definitions of blocks of a name in all templates, each with its template. -/
def TemplateSet.definitionsOf (s : TemplateSet) (block : String) : List BlockLayer :=
  s.templates.flatMap fun t =>
    ((blockDefs t.nodes).filter fun d => d.name == block).map fun d => ⟨t.name, d.body⟩

/-- The block is defined more than once among the templates. -/
def TemplateSet.isShared (s : TemplateSet) (block : String) : Bool :=
  decide (1 < (s.definitionsOf block).length)

namespace Node

/-- The code of the tag itself may end with code of another template. -/
def goesAbroad (shared : String → Bool) (name : String) (args : List TagArg) : Bool :=
  ["include", "import", "parent"].contains name ||
    name == "block" && (args.head?.bind TagArg.asIdent?).any shared

mutual

/-- The code of the nodes may end with code of another template. -/
def endAbroad (shared : String → Bool) : List Node → Bool
  | [] => false
  | .literal .. :: rest => endAbroad shared rest
  | .output .. :: rest => endAbroad shared rest
  | .tag name args body branches _ :: rest =>
    if rest.isEmpty then
      goesAbroad shared name args || endAbroad shared body || branchesEndAbroad shared branches
    else endAbroad shared rest

/-- The code of one of the branches may end with code of another template. -/
def branchesEndAbroad (shared : String → Bool) : List Branch → Bool
  | [] => false
  | .mk _ _ body _ :: rest => endAbroad shared body || branchesEndAbroad shared rest

end

/-- The tag has instructions of its own right behind code that may come from another template. -/
def resumes (shared : String → Bool) : Node → Bool
  | .tag name _ body .. =>
    ["include", "import"].contains name ||
      ["for", "filter", "autoescape", "macro"].contains name && endAbroad shared body
  | _ => false

end Node

/-- The instruction is one that a tag emits behind what it encloses or refers to, without a line of
its own. A filter with arguments is back on a line of its own when it has emitted these. -/
def Instruction.closes (name : String) (args : List TagArg) : Instruction → Bool
  | .popFrame => name == "include" || name == "for"
  | .buildMap _ => name == "import"
  | .storeLocal _ => name == "import" || name == "macro"
  | .buildMacro _ => name == "macro"
  | .jump _ => name == "for"
  | .pushDidNotIterate => name == "for"
  | .jumpIfFalse _ => name == "for"
  | .endCapture => name == "filter"
  | .applyFilter .. => name == "filter" && args.length == 1
  | .pushAutoEscape => name == "filter" && args.length == 1
  | .emit => name == "filter" && args.length == 1
  | .popAutoEscape => name == "autoescape" || name == "filter" && args.length == 1
  | .loadConst _ => name == "macro" || name == "filter" && args.length == 1
  | _ => false

/-- The instruction is one that the tag emits behind what it encloses or refers to. -/
def Node.closesWith (i : Instruction) : Node → Bool
  | .tag name args .. => i.closes name args
  | _ => false

/-- What tags emit right behind code of other templates is of a certain kind. -/
def TemplateSet.Confines (s : TemplateSet) (away : Instruction → Prop) : Prop :=
  ∀ t ∈ s.templates, Node.Throughout
    (fun n => n.resumes s.isShared = true → ∀ i, n.closesWith i = true → away i) t.nodes

/-- What is known of a node of a template of that name: the lines on which things start in it, where
the block is defined that it stands for, and what it emits behind code of other templates. -/
structure Node.Belongs (s : TemplateSet) (away : Instruction → Prop) (file : String) (n : Node) :
    Prop where
  lines : ∀ line ∈ n.lines, s.StartsOn file line
  definition : ∀ {args body branches span block}, n = .tag "block" args body branches span →
    args.head?.bind TagArg.asIdent? = some block → ⟨file, body⟩ ∈ s.definitionsOf block
  closes : n.resumes s.isShared = true → ∀ i, n.closesWith i = true → away i

mutual

/-- The definitions of blocks among the nodes are those that the nodes at any depth stand for. -/
theorem mem_blockDefs {args : List TagArg} {body : List Node} {branches : List Branch} {span : Span}
    {block : String} (hblock : args.head?.bind TagArg.asIdent? = some block) :
    ∀ {nodes : List Node}, .tag "block" args body branches span ∈ Node.everywhere nodes →
      ⟨block, span.start.line, body⟩ ∈ blockDefs nodes
  | [], h => by simp [Node.everywhere] at h
  | .literal .. :: rest, h => by
    rw [blockDefs]
    exact mem_blockDefs hblock (by simpa [Node.everywhere] using h)
  | .output .. :: rest, h => by
    rw [blockDefs]
    exact mem_blockDefs hblock (by simpa [Node.everywhere] using h)
  | .tag name args' body' branches' span' :: rest, h => by
    rw [Node.everywhere, List.mem_append, List.cons_append, List.mem_cons, List.mem_append] at h
    simp only [blockDefs, List.mem_append]
    rcases h with (heq | h | h) | h
    · cases heq
      simp [hblock]
    · exact .inl (.inl (.inr (mem_blockDefs hblock h)))
    · exact .inl (.inr (mem_branchBlockDefs hblock h))
    · exact .inr (mem_blockDefs hblock h)

/-- The definitions of blocks in branches are those that the nodes inside stand for. -/
theorem mem_branchBlockDefs {args : List TagArg} {body : List Node} {branches : List Branch}
    {span : Span} {block : String} (hblock : args.head?.bind TagArg.asIdent? = some block) :
    ∀ {around : List Branch},
      .tag "block" args body branches span ∈ Node.everywhereInBranches around →
        ⟨block, span.start.line, body⟩ ∈ branchBlockDefs around
  | [], h => by simp [Node.everywhereInBranches] at h
  | .mk _ _ body' _ :: rest, h => by
    rw [Node.everywhereInBranches, List.mem_append] at h
    rw [branchBlockDefs, List.mem_append]
    exact h.imp (mem_blockDefs hblock) (mem_branchBlockDefs hblock)

end

namespace TemplateSet

variable {s : TemplateSet} {away : Instruction → Prop} {t : Template} {r : Resolved}

/-- A definition of a block in a template of the set. -/
theorem mem_definitionsOf {d : BlockDef} (ht : t ∈ s.templates) (hd : d ∈ blockDefs t.nodes) :
    ⟨t.name, d.body⟩ ∈ s.definitionsOf d.name :=
  List.mem_flatMap.mpr
    ⟨t, ht, List.mem_map.mpr ⟨d, List.mem_filter.mpr ⟨hd, beq_self_eq_true _⟩, rfl⟩⟩

/-- The nodes of a template belong to it. -/
theorem Confines.belongs (h : s.Confines away) (ht : t ∈ s.templates) :
    Node.Throughout (Node.Belongs s away t.name) t.nodes := fun n hn =>
  { lines := fun _ hline => ⟨t, ht, rfl, List.mem_flatMap.mpr ⟨n, hn, hline⟩⟩
    definition := by
      rintro args body branches span block rfl hblock
      exact mem_definitionsOf ht (mem_blockDefs hblock hn)
    closes := h t ht n hn }

/-- A definition of a block is one in a template of the set. -/
theorem exists_of_mem_definitionsOf {block : String} {layer : BlockLayer}
    (h : layer ∈ s.definitionsOf block) : ∃ t ∈ s.templates, t.name = layer.template := by
  obtain ⟨t, ht, h⟩ := List.mem_flatMap.mp h
  obtain ⟨d, -, rfl⟩ := List.mem_map.mp h
  exact ⟨t, ht, rfl⟩

/-- What is compiled for a template comes from templates of the set. -/
theorem Confines.belongs_body (h : s.Confines away) (ht : t ∈ s.templates)
    (hr : s.resolve t = .ok r) :
    ∀ row ∈ r.body, (∃ t ∈ s.templates, t.name = row.1) ∧
      Node.Throughout (Node.Belongs s away row.1) [row.2] := by
  obtain ⟨chain, hchain, -, hbody, -⟩ := resolve_eq_ok hr ht
  intro row hrow
  obtain ⟨u, hu, hname, hn⟩ := exists_of_mem_chainBody (hbody ▸ hrow)
  rw [← hname]
  exact ⟨⟨u, hchain u hu, rfl⟩, (h.belongs (hchain u hu)).of_mem hn⟩

/-- The definitions of a block of a template are among those of the set. -/
theorem Confines.belongs_layers (h : s.Confines away) (ht : t ∈ s.templates)
    (hr : s.resolve t = .ok r) (block : String) : ∀ layer ∈ r.layers block,
      layer ∈ s.definitionsOf block ∧
        Node.Throughout (Node.Belongs s away layer.template) layer.body := by
  obtain ⟨chain, hchain, -, -, hlevels⟩ := resolve_eq_ok hr ht
  intro layer hlayer
  obtain ⟨row, hrow, hlayer⟩ := List.mem_filterMap.mp hlayer
  rw [hlevels] at hrow
  obtain ⟨u, hu, rfl⟩ := List.mem_map.mp hrow
  obtain ⟨d, hd, rfl⟩ := Option.map_eq_some_iff.mp hlayer
  have hmem := List.mem_of_find?_eq_some hd
  obtain rfl : d.name = block := by simpa using List.find?_some hd
  exact ⟨mem_definitionsOf (hchain u hu) hmem, (h.belongs (hchain u hu)).blockDefs d hmem⟩

/-- The definition of a block that is not shared is the only one. -/
theorem eq_of_isShared {block : String} (h : s.isShared block = false) {layer layer' : BlockLayer}
    (hlayer : layer ∈ s.definitionsOf block) (hlayer' : layer' ∈ s.definitionsOf block) :
    layer = layer' := by
  have hlength : (s.definitionsOf block).length ≤ 1 := by simpa [isShared] using h
  rcases hdefinitions : s.definitionsOf block with _ | ⟨first, rest⟩
  · rw [hdefinitions] at hlayer
    exact absurd hlayer List.not_mem_nil
  · rw [hdefinitions] at hlength hlayer hlayer'
    obtain rfl : rest = [] := List.eq_nil_of_length_eq_zero (by simpa using hlength)
    rw [List.mem_singleton.mp hlayer, List.mem_singleton.mp hlayer']

end TemplateSet

end Templating
