import Templating.Proofs.Emission.Templates
import Templating.Proofs.Template.Parsing

/-!
# A template in the set of another one

A template that is included brings those with it that it refers to. As long as none of them asks for
the including template, following references finds the same templates from either of the two, each
of them under the same name, and inheritance makes the same of them.
-/

namespace Templating

open Node (Throughout ThroughoutBranches)

variable {A : String → Prop} {registry : Registry}

/-- Every template that the node, if it is a tag, may ask for has a name with a property. -/
def Node.Names (A : String → Prop) : Node → Prop
  | .tag _ args .. => ∀ name, TagArg.text name ∈ args → A name
  | _ => True

/-- The text in front of arguments is one of them. -/
theorem text_mem_of_head {args : List TagArg} {name : String}
    (h : args.head?.bind TagArg.asText? = some name) : TagArg.text name ∈ args := by
  obtain ⟨arg, harg, h⟩ := Option.bind_eq_some_iff.mp h
  cases arg with
  | text name' =>
    obtain rfl := Option.some.inj h
    exact List.mem_of_mem_head? harg
  | _ => simp [TagArg.asText?] at h

/-- A built-in tag needs only templates that its arguments name. -/
theorem BuiltinTag.text_mem_of_mem_dependencies {tag : BuiltinTag} {args : List TagArg}
    {d : Dependency} (hd : d ∈ tag.dependencies args) : TagArg.text d.name ∈ args := by
  cases tag with
  | inherit =>
    obtain ⟨arg, harg, hd⟩ := List.mem_filterMap.mp hd
    cases arg with
    | text name =>
      obtain rfl := Option.some.inj hd
      exact harg
    | _ => simp [TagArg.asText?] at hd
  | insert | importMacros =>
    simp only [dependencies] at hd
    split at hd
    · next hname =>
      obtain rfl := List.mem_singleton.mp hd
      exact text_mem_of_head hname
    · exact absurd hd List.not_mem_nil
  | _ => exact absurd hd List.not_mem_nil

mutual

/-- References of nodes ask for templates that the nodes name. -/
theorem names_of_mem_nodeReferences {origin : String} : ∀ {ns : List Node},
    Throughout (Node.IsBuiltin registry) ns → Throughout (Node.Names A) ns →
      ∀ r ∈ nodeReferences registry origin ns, A r.dependency.name
  | [], _, _, r, hr => by simp [nodeReferences] at hr
  | .literal .. :: rest, hbuiltin, hnames, r, hr => by
    rw [nodeReferences] at hr
    exact names_of_mem_nodeReferences (Node.throughout_cons.mp hbuiltin).2
      (Node.throughout_cons.mp hnames).2 r hr
  | .output .. :: rest, hbuiltin, hnames, r, hr => by
    rw [nodeReferences] at hr
    exact names_of_mem_nodeReferences (Node.throughout_cons.mp hbuiltin).2
      (Node.throughout_cons.mp hnames).2 r hr
  | .tag name args body branches span :: rest, hbuiltin, hnames, r, hr => by
    obtain ⟨hbuiltin, hbuiltins⟩ := Node.throughout_cons.mp hbuiltin
    obtain ⟨hplain, hbody, hbranches⟩ := Node.throughout_tag.mp hbuiltin
    obtain ⟨hnames, hmore⟩ := Node.throughout_cons.mp hnames
    obtain ⟨hown, hinside, hinBranches⟩ := Node.throughout_tag.mp hnames
    rw [nodeReferences] at hr
    simp only [List.mem_append] at hr
    rcases hr with ((hr | hr) | hr) | hr
    · cases htag : registry.tag? name with
      | none => simp [htag] at hr
      | some tag =>
        cases tag with
        | custom tag => exact absurd htag (hplain tag)
        | builtin tag =>
          simp only [htag] at hr
          obtain ⟨d, hd, rfl⟩ := List.mem_map.mp hr
          exact hown d.name (BuiltinTag.text_mem_of_mem_dependencies hd)
    · exact names_of_mem_nodeReferences hbody hinside r hr
    · exact names_of_mem_branchReferences hbranches hinBranches r hr
    · exact names_of_mem_nodeReferences hbuiltins hmore r hr

/-- References in branches ask for templates that the nodes in there name. -/
theorem names_of_mem_branchReferences {origin : String} : ∀ {branches : List Branch},
    ThroughoutBranches (Node.IsBuiltin registry) branches →
      ThroughoutBranches (Node.Names A) branches →
        ∀ r ∈ branchReferences registry origin branches, A r.dependency.name
  | [], _, _, r, hr => by simp [branchReferences] at hr
  | .mk _ _ body _ :: rest, hbuiltin, hnames, r, hr => by
    obtain ⟨hbody, hrest⟩ := Node.throughoutBranches_cons.mp hbuiltin
    obtain ⟨hinside, hmore⟩ := Node.throughoutBranches_cons.mp hnames
    rw [branchReferences] at hr
    rcases List.mem_append.mp hr with hr | hr
    · exact names_of_mem_nodeReferences hbody hinside r hr
    · exact names_of_mem_branchReferences hrest hmore r hr

end

/-- The template that is extended is one that a node names. -/
theorem Template.names_of_extendsTag? {t : Template} {ns : List Node}
    {found : Option (String × Nat)} {content : Bool} {base : String} {line : Nat}
    (h : t.extendsTag? found content ns = .ok (some (base, line)))
    (hnames : Throughout (Node.Names A) ns) (hfound : ∀ p ∈ found, A p.1) : A base := by
  induction ns generalizing found content with
  | nil => exact hfound _ (Except.ok.inj h)
  | cons n rest ih =>
    obtain ⟨hn, hrest⟩ := Node.throughout_cons.mp hnames
    cases n with
    | literal text span =>
      rw [extendsTag?] at h
      exact ih h hrest hfound
    | output subject filters span =>
      rw [extendsTag?] at h
      exact ih h hrest hfound
    | tag name args body branches span =>
      rw [extendsTag?] at h
      simp only [failAt] at h
      split at h
      · split at h
        · simp at h
        · split at h
          · next hname =>
            have hown : A _ := (Node.throughout_tag.mp hn).1 _ (text_mem_of_head hname)
            exact ih h hrest fun p hp => by simpa [← Option.some.inj hp] using hown
          · simp at h
      · split at h
        · simp at h
        · exact ih h hrest hfound

namespace TemplateSet

variable {controls : Controls} {provider : SourceProvider} {root t including : Template}
  {budget : Nat} {queue : List Reference} {loaded : List Template} {missing : List String}
  {s : TemplateSet}

/-- Templates are loaded under other names than that of the root. -/
theorem name_ne_of_follow
    (h : follow registry controls provider root budget queue [] missing = .ok s) :
    s.root = root ∧ ∀ u ∈ s.loaded, u.name ≠ root.name := by
  refine of_follow (P := fun loaded => ∀ u ∈ loaded, u.name ≠ root.name) ?_ h (by simp)
  intro loaded name source t hloaded hname _ hparse
  exact List.forall_mem_cons.mpr ⟨name_of_parse hparse ▸ hname, hloaded⟩

/-- Templates that are loaded stay. -/
theorem suffix_of_follow
    (h : follow registry controls provider root budget queue loaded missing = .ok s) :
    loaded <:+ s.loaded :=
  (of_follow (P := fun more => loaded <:+ more)
    (fun hmore _ _ _ => hmore.trans (List.suffix_cons _ _)) h (List.suffix_refl _)).2

/-- Following references from another root, over templates that are there already, finds the same
ones if the names that are asked for are known from the start to the same extent. A larger budget
makes no difference. -/
theorem follow_from (root' : Template) (extra : List Template) {budget' : Nat}
    (hroot : ∀ name, A name →
      (name == root.name) = (name == root'.name || extra.any fun u => u.name == name))
    (h : follow registry controls provider root budget queue loaded missing = .ok s)
    (hqueue : ∀ r ∈ queue, A r.dependency.name)
    (hloaded : ∀ u ∈ s.loaded, ∀ r ∈ u.references registry, A r.dependency.name)
    (hbudget : budget ≤ budget') :
    follow registry controls provider root' budget' queue (loaded ++ extra) missing =
      .ok ⟨root', s.loaded ++ extra⟩ := by
  induction budget generalizing queue loaded missing budget' with
  | zero =>
    cases queue with
    | nil =>
      obtain rfl := Except.ok.inj h
      cases budget' <;> rfl
    | cons r queue => simp [follow, fail] at h
  | succ budget ih =>
    obtain ⟨budget', rfl⟩ := Nat.exists_eq_add_of_le' (Nat.le_of_add_left_le hbudget)
    have hbudget := Nat.le_of_succ_le_succ hbudget
    cases queue with
    | nil =>
      obtain rfl := Except.ok.inj h
      rfl
    | cons r queue =>
      obtain ⟨hr, hqueue⟩ := List.forall_mem_cons.mp hqueue
      have hknown : (r.dependency.name == root'.name ||
          (loaded ++ extra).any fun u => u.name == r.dependency.name) =
          (r.dependency.name == root.name || loaded.any fun u => u.name == r.dependency.name) := by
        rw [hroot _ hr, List.any_append, Bool.or_assoc, Bool.or_comm (loaded.any _)]
      rw [follow] at h ⊢
      simp only [hknown]
      split at h
      · rw [if_pos ‹_›]
        exact ih h hqueue hbudget
      · rw [if_neg ‹_›]
        split at h
        · rw [if_pos ‹_›]
          split at h
          · rw [if_pos ‹_›]
            exact ih h hqueue hbudget
          · simp at h
        · rw [if_neg ‹_›]
          cases hsource : provider r.dependency.name with
          | error e => simp [hsource] at h
          | ok source? =>
            cases source? with
            | none =>
              simp only [hsource] at h ⊢
              split at h
              · rw [if_pos ‹_›]
                exact ih h hqueue hbudget
              · simp at h
            | some source =>
              simp only [hsource] at h ⊢
              cases hparse : Template.parse registry controls r.dependency.name source with
              | error e => simp [hparse] at h
              | ok u =>
                simp only [hparse] at h ⊢
                have hu := hloaded u ((suffix_of_follow h).subset List.mem_cons_self)
                exact ih h (List.forall_mem_append.mpr ⟨hqueue, hu⟩) hbudget

/-- A set within a larger one: the templates of certain names are the same, and all templates of the
smaller set name such ones only. -/
structure Within (A : String → Prop) (s s' : TemplateSet) : Prop where
  size : s.size ≤ s'.size
  get? : ∀ name, A name → s'.get? name = s.get? name
  names : ∀ u ∈ s.templates, Throughout (Node.Names A) u.nodes

variable {s' : TemplateSet} {current : Template} {earlier chain : List Template} {r : Resolved}
  {bound bound' : Nat}

/-- Extended templates are the same in a larger set. -/
theorem Within.chainFrom (hwithin : s.Within A s')
    (h : s.chainFrom bound current earlier = .ok chain) (hcurrent : current ∈ s.templates)
    (hbound : bound ≤ bound') : s'.chainFrom bound' current earlier = .ok chain := by
  induction bound generalizing current earlier bound' with
  | zero => simp [TemplateSet.chainFrom, fail] at h
  | succ bound ih =>
    obtain ⟨bound', rfl⟩ := Nat.exists_eq_add_of_le' (Nat.le_of_add_left_le hbound)
    rw [TemplateSet.chainFrom] at h ⊢
    cases hbase : current.base? with
    | error e => simp [hbase] at h
    | ok base? =>
      rcases base? with _ | ⟨base, line⟩
      · simpa [hbase] using h
      · have hname : A base :=
          Template.names_of_extendsTag? hbase (hwithin.names _ hcurrent) (by simp)
        simp only [hbase, hwithin.get? base hname, Template.failAt] at h ⊢
        split at h
        · simp at h
        · rw [if_neg ‹_›]
          cases hnext : s.get? base with
          | none => simp [hnext] at h
          | some next =>
            simp only [hnext] at h ⊢
            exact ih h (mem_of_get? hnext).1 (Nat.le_of_succ_le_succ hbound)

/-- Inheritance makes the same of a template in a larger set. -/
theorem Within.resolve (hwithin : s.Within A s') (hcurrent : current ∈ s.templates)
    (h : s.resolve current = .ok r) : s'.resolve current = .ok r := by
  obtain ⟨chain, hchain, hlevels⟩ := Result.bind_eq_ok.mp h
  exact Result.bind_eq_ok.mpr ⟨chain,
    hwithin.chainFrom hchain hcurrent (Nat.succ_le_succ hwithin.size), hlevels⟩

/-- The set of a template together with one more that becomes the root. -/
def under (s : TemplateSet) (including : Template) : TemplateSet :=
  ⟨including, s.loaded ++ [s.root]⟩

/-- A set is within the one under another root, if none of its templates names that root. -/
theorem within_under (including : Template) (hloaded : ∀ u ∈ s.loaded, u.name ≠ s.root.name)
    (hnames : ∀ u ∈ s.templates, Throughout (Node.Names (· ≠ including.name)) u.nodes) :
    s.Within (· ≠ including.name) (s.under including) where
  size := by simp [size, under]
  get? name hname := by
    simp only [get?, under, if_neg hname, List.find?_append]
    split
    · next heq =>
      subst heq
      have hnone : (s.loaded.find? fun u => u.name == s.root.name) = none :=
        List.find?_eq_none.mpr fun u hu => by simpa using hloaded u hu
      simp [hnone]
    · next hne => simp [Ne.symm hne]
  names := hnames

end TemplateSet

/-- A tag that includes the template of a name. -/
def Node.include (included : String) (span : Span) : Node :=
  .tag "include" [.text included] [] [] span

/-- A template that does nothing but include another one. -/
def Template.including (name included : String) (span : Span) : Template :=
  ⟨name, [.include included span]⟩

namespace TemplateSet

variable {registry : Registry} {controls : Controls} {provider : SourceProvider}
  {name source : String} {s : TemplateSet} {budget : Nat}

/-- A template that does nothing but include another one extends none and has no blocks. -/
theorem resolve_including (s : TemplateSet) (own included : String) (span : Span) :
    s.resolve (.including own included span) =
      .ok ⟨[(own, .include included span)], [(own, [])]⟩ := by
  have hbase : (Template.including own included span).base? = .ok none := by
    simp [Template.including, Node.include, Template.base?, Template.extendsTag?, firstExtends?,
      firstExtendsInBranches?]
  have hblocks : (Template.including own included span).blocks = .ok [] := by
    simp [Template.including, Node.include, Template.blocks, blockDefs, branchBlockDefs,
      firstDuplicate?]
  have hchain : s.chain (.including own included span) = .ok [.including own included span] := by
    simp [chain, chainFrom, hbase]
  refine Result.bind_eq_ok.mpr ⟨_, hchain, Result.bind_eq_ok.mpr ⟨[(own, [])], ?_, rfl⟩⟩
  simp only [List.mapM_cons, List.mapM_nil, hblocks]
  rfl

/-- The set of a template is loaded when so many references are followed. -/
def LoadsWithin (s : TemplateSet) (registry : Registry) (controls : Controls)
    (provider : SourceProvider) (name source : String) (budget : Nat) : Prop :=
  ∃ root, Template.parse registry controls name source = .ok root ∧
    follow registry controls provider root budget (root.references registry) [] [] = .ok s

/-- The root of a loaded set has the name of the template, which no other template there has. -/
theorem LoadsWithin.names (h : s.LoadsWithin registry controls provider name source budget) :
    s.root.name = name ∧ ∀ t ∈ s.loaded, t.name ≠ s.root.name := by
  obtain ⟨root, hparse, hfollow⟩ := h
  obtain ⟨rfl, hloaded⟩ := name_ne_of_follow hfollow
  exact ⟨name_of_parse hparse, hloaded⟩

/-- The references of templates over built-in tags ask for names that the templates have. -/
theorem names_of_mem_references {A : String → Prop} {t : Template}
    (hbuiltin : Node.Throughout (Node.IsBuiltin registry) t.nodes)
    (hnames : Node.Throughout (Node.Names A) t.nodes) :
    ∀ r ∈ t.references registry, A r.dependency.name :=
  names_of_mem_nodeReferences hbuiltin hnames

/-- A set that is loaded within fewer references is loaded. -/
theorem LoadsWithin.load_eq (h : s.LoadsWithin registry controls provider name source budget)
    (hbudget : budget ≤ loadBudget) :
    load registry controls provider name source = .ok s := by
  obtain ⟨root, hparse, hfollow⟩ := h
  have hsame := (name_ne_of_follow hfollow).1
  refine Result.bind_eq_ok.mpr ⟨root, hparse, ?_⟩
  have hload := follow_from (A := fun _ => True) root [] (fun _ _ => by simp) hfollow
    (fun _ _ => trivial) (fun _ _ _ _ => trivial) hbudget
  simp only [List.append_nil, ← hsame] at hload ⊢
  exact hload

/-- What a template loads that does nothing but include another one, which does not name it, is that
one with all that it loads itself. -/
theorem LoadsWithin.load_including {own including : String} {span : Span}
    (h : s.LoadsWithin registry controls provider name source budget)
    (hbudget : budget < loadBudget) (hown : name ≠ own)
    (hprovider : provider name = .ok (some source))
    (htag : registry.tag? "include" = some (.builtin .insert))
    (hincluding : Template.parse registry controls own including =
      .ok (.including own name span))
    (hbuiltin : ∀ t ∈ s.templates, Node.Throughout (Node.IsBuiltin registry) t.nodes)
    (hnames : ∀ t ∈ s.templates, Node.Throughout (Node.Names (· ≠ own)) t.nodes) :
    load registry controls provider own including = .ok (s.under (.including own name span)) := by
  obtain ⟨root, hparse, hfollow⟩ := h
  have hsame := (name_ne_of_follow hfollow).1
  obtain ⟨more, hmore⟩ := Nat.exists_eq_add_of_lt hbudget
  have hreferences : (Template.including own name span).references registry =
      [⟨{ name }, own, span.start.line⟩] := by
    simp [Template.including, Node.include, Template.references, nodeReferences, htag,
      Tag.dependencies, BuiltinTag.dependencies, branchReferences, TagArg.asText?, TagArg.isFlag]
  have hrest := follow_from (A := (· ≠ own)) (.including own name span) [root]
    (fun other hother => by
      simp [Template.including, beq_eq_false_iff_ne.mpr hother, Bool.beq_comm])
    hfollow
    (names_of_mem_references (hbuiltin _ (hsame ▸ List.mem_cons_self))
      (hnames _ (hsame ▸ List.mem_cons_self)))
    (fun t ht => names_of_mem_references (hbuiltin t (List.mem_cons_of_mem _ ht))
      (hnames t (List.mem_cons_of_mem _ ht)))
    (Nat.le_add_right budget more)
  refine Result.bind_eq_ok.mpr ⟨_, hincluding, ?_⟩
  rw [hmore, hreferences, follow]
  simp only [Template.including, beq_eq_false_iff_ne.mpr hown, List.any_nil, Bool.or_false,
    Bool.false_eq_true, if_false, List.contains_nil, hprovider, hparse]
  rw [under, hsame]
  exact hrest

end TemplateSet

end Templating
