import Mathlib.Data.List.Nodup
import Templating.Inheritance

/-!
# Nodes at any depth

A property of a whole template is a property of its nodes at every depth, those inside of bodies and
branches included. What inheritance takes out of templates, nodes to compile and bodies of blocks,
has every such property that the templates have.
-/

namespace Templating

namespace Node

mutual

/-- The nodes and the nodes inside of them, at any depth. -/
def everywhere : List Node → List Node
  | [] => []
  | .literal text span :: rest => .literal text span :: everywhere rest
  | .output subject filters span :: rest => .output subject filters span :: everywhere rest
  | .tag name args body branches span :: rest =>
    .tag name args body branches span :: everywhere body ++ everywhereInBranches branches ++
      everywhere rest

/-- The nodes inside of branches, at any depth. -/
def everywhereInBranches : List Branch → List Node
  | [] => []
  | .mk _ _ body _ :: rest => everywhere body ++ everywhereInBranches rest

end

variable {P : Node → Prop} {n : Node} {rest nodes : List Node}

/-- Every node at any depth has a property. -/
def Throughout (P : Node → Prop) (nodes : List Node) : Prop := ∀ n ∈ everywhere nodes, P n

/-- Every node in the branches, at any depth, has a property. -/
def ThroughoutBranches (P : Node → Prop) (branches : List Branch) : Prop :=
  ∀ n ∈ everywhereInBranches branches, P n

/-- The nodes inside of a list are those inside of its first node and those inside of the others. -/
theorem everywhere_cons (n : Node) (rest : List Node) :
    everywhere (n :: rest) = everywhere [n] ++ everywhere rest := by
  cases n <;> simp [everywhere]

/-- A property throughout a list is one throughout its first node and throughout the others. -/
theorem throughout_cons :
    Throughout P (n :: rest) ↔ Throughout P [n] ∧ Throughout P rest := by
  rw [Throughout, everywhere_cons]
  exact List.forall_mem_append

/-- A property throughout a tag is one of the tag and of everything inside. -/
theorem throughout_tag {name : String} {args : List TagArg} {body : List Node}
    {branches : List Branch} {span : Span} :
    Throughout P [.tag name args body branches span] ↔
      P (.tag name args body branches span) ∧ Throughout P body ∧
        ThroughoutBranches P branches := by
  simp [Throughout, ThroughoutBranches, everywhere, or_imp, forall_and]

/-- A property throughout branches is one throughout the first and throughout the others. -/
theorem throughoutBranches_cons {label : String} {args : List TagArg} {body : List Node}
    {span : Span} {branches : List Branch} :
    ThroughoutBranches P (.mk label args body span :: branches) ↔
      Throughout P body ∧ ThroughoutBranches P branches := by
  rw [ThroughoutBranches, everywhereInBranches]
  exact List.forall_mem_append

/-- A property throughout nodes is one throughout each of them. -/
theorem Throughout.of_mem (h : Throughout P nodes) (hn : n ∈ nodes) : Throughout P [n] := by
  induction nodes with
  | nil => exact absurd hn List.not_mem_nil
  | cons first rest ih =>
    obtain ⟨hfirst, hrest⟩ := throughout_cons.mp h
    rcases List.mem_cons.mp hn with rfl | hn
    · exact hfirst
    · exact ih hrest hn

/-- A property throughout nodes is one of each of them. -/
theorem Throughout.apply (h : Throughout P nodes) (hn : n ∈ nodes) : P n :=
  h.of_mem hn n (by cases n <;> simp [everywhere])

/-- A property throughout two lists is one throughout each. -/
theorem throughout_append {first second : List Node} :
    Throughout P (first ++ second) ↔ Throughout P first ∧ Throughout P second := by
  induction first with
  | nil => simp [Throughout, everywhere]
  | cons n rest ih => rw [List.cons_append, throughout_cons, ih, ← and_assoc, ← throughout_cons]

/-- A property throughout each node of a list is one throughout the list. -/
theorem throughout_of_forall (h : ∀ n ∈ nodes, Throughout P [n]) : Throughout P nodes := by
  induction nodes with
  | nil => simp [Throughout, everywhere]
  | cons n rest ih =>
    obtain ⟨hn, hrest⟩ := List.forall_mem_cons.mp h
    exact throughout_cons.mpr ⟨hn, ih hrest⟩

/-- A property throughout the body of each branch is one throughout the branches. -/
theorem throughoutBranches_of_forall {branches : List Branch}
    (h : ∀ b ∈ branches, Throughout P b.body) : ThroughoutBranches P branches := by
  induction branches with
  | nil => simp [ThroughoutBranches, everywhereInBranches]
  | cons b rest ih =>
    obtain ⟨label, args, body, span⟩ := b
    exact throughoutBranches_cons.mpr
      ⟨h _ List.mem_cons_self, ih fun b hb => h b (List.mem_cons_of_mem _ hb)⟩

/-- A property that follows from another one does so throughout. -/
theorem Throughout.mono {Q : Node → Prop} (hPQ : ∀ n, P n → Q n) (h : Throughout P nodes) :
    Throughout Q nodes := fun n hn => hPQ n (h n hn)

section

variable {P Q : String → List TagArg → Prop}

/-- A tag has the property. -/
def OnTag (P : String → List TagArg → Prop) : Node → Prop
  | .tag name args .. => P name args
  | _ => True

instance [∀ name args, Decidable (P name args)] : DecidablePred (OnTag P) := fun n =>
  match n with
  | .tag name args .. => inferInstanceAs (Decidable (P name args))
  | .literal .. => .isTrue trivial
  | .output .. => .isTrue trivial

instance [∀ name args, Decidable (P name args)] (ns : List Node) :
    Decidable (Throughout (OnTag P) ns) :=
  inferInstanceAs (Decidable (∀ n ∈ everywhere ns, OnTag P n))

/-- A property of tags that follows from another one does so throughout. -/
theorem Throughout.onTag_mono (h : Throughout (OnTag P) nodes)
    (hPQ : ∀ name args, P name args → Q name args) : Throughout (OnTag Q) nodes := by
  refine h.mono fun n hn => ?_
  cases n with
  | literal text span => trivial
  | output subject filters span => trivial
  | tag name args body branches span => exact hPQ name args hn

end

mutual

/-- A property throughout nodes is one throughout the bodies of their blocks. -/
theorem Throughout.blockDefs : ∀ {nodes : List Node}, Throughout P nodes →
    ∀ d ∈ blockDefs nodes, Throughout P d.body
  | [], _, d, hd => by simp [Templating.blockDefs] at hd
  | .literal .. :: rest, h, d, hd => by
    rw [Templating.blockDefs] at hd
    exact Throughout.blockDefs (throughout_cons.mp h).2 d hd
  | .output .. :: rest, h, d, hd => by
    rw [Templating.blockDefs] at hd
    exact Throughout.blockDefs (throughout_cons.mp h).2 d hd
  | .tag name args body branches span :: rest, h, d, hd => by
    obtain ⟨htag, hrest⟩ := throughout_cons.mp h
    obtain ⟨_, hbody, hbranches⟩ := throughout_tag.mp htag
    rw [Templating.blockDefs] at hd
    simp only [List.mem_append] at hd
    rcases hd with ((hd | hd) | hd) | hd
    · split at hd
      · split at hd
        · rw [List.mem_singleton.mp hd]
          exact hbody
        · exact absurd hd List.not_mem_nil
      · exact absurd hd List.not_mem_nil
    · exact Throughout.blockDefs hbody d hd
    · exact ThroughoutBranches.blockDefs hbranches d hd
    · exact Throughout.blockDefs hrest d hd

/-- A property throughout branches is one throughout the bodies of their blocks. -/
theorem ThroughoutBranches.blockDefs : ∀ {branches : List Branch}, ThroughoutBranches P branches →
    ∀ d ∈ branchBlockDefs branches, Throughout P d.body
  | [], _, d, hd => by simp [branchBlockDefs] at hd
  | .mk _ _ body _ :: rest, h, d, hd => by
    obtain ⟨hbody, hrest⟩ := throughoutBranches_cons.mp h
    rw [branchBlockDefs] at hd
    rcases List.mem_append.mp hd with hd | hd
    · exact Throughout.blockDefs hbody d hd
    · exact ThroughoutBranches.blockDefs hrest d hd

end

end Node

/-- The blocks of a template that are accepted are all its blocks, with different names. -/
theorem Template.blocks_eq_ok {t : Template} {defs : List BlockDef} (h : t.blocks = .ok defs) :
    defs = blockDefs t.nodes ∧ firstDuplicate? [] defs = none := by
  simp only [Template.blocks] at h
  split at h
  · simp [Template.failAt] at h
  · rename_i hnone
    obtain rfl := Except.ok.inj h
    exact ⟨rfl, hnone⟩

namespace TemplateSet

variable {s : TemplateSet} {t : Template} {r : Resolved} {P : Node → Prop}

/-- All templates of a set. -/
def templates (s : TemplateSet) : List Template := s.root :: s.loaded

/-- A template that is found by name is one of the set, under that name. -/
theorem mem_of_get? {name : String} (h : s.get? name = some t) :
    t ∈ s.templates ∧ t.name = name := by
  unfold get? at h
  split at h
  · rename_i heq
    obtain rfl := Option.some.inj h
    exact ⟨List.mem_cons_self, heq.symm⟩
  · exact ⟨List.mem_cons_of_mem _ (List.mem_of_find?_eq_some h), by simpa using List.find?_some h⟩

/-- Every template on the way to the base is one of the set. -/
theorem mem_of_mem_chainFrom {bound : Nat} {current : Template} {earlier chain : List Template}
    (h : s.chainFrom bound current earlier = .ok chain)
    (hways : ∀ t ∈ current :: earlier, t ∈ s.templates) : ∀ t ∈ chain, t ∈ s.templates := by
  induction bound generalizing current earlier with
  | zero => simp [chainFrom, fail] at h
  | succ bound ih =>
    rw [chainFrom] at h
    split at h
    · simp at h
    · rw [← Except.ok.inj h]
      exact fun t ht => hways t (List.mem_reverse.mp ht)
    · simp only [Template.failAt] at h
      split at h
      · simp at h
      · split at h
        · rename_i next hnext
          refine ih h fun t ht => ?_
          rcases List.mem_cons.mp ht with rfl | ht
          · exact (mem_of_get? hnext).1
          · exact hways t ht
        · simp at h

/-- No two templates on the way to the base have the same name. -/
theorem nodup_of_chainFrom {bound : Nat} {current : Template} {earlier chain : List Template}
    (h : s.chainFrom bound current earlier = .ok chain)
    (hways : ((current :: earlier).map Template.name).Nodup) : (chain.map Template.name).Nodup := by
  induction bound generalizing current earlier with
  | zero => simp [chainFrom, fail] at h
  | succ bound ih =>
    rw [chainFrom] at h
    split at h
    · simp at h
    · rwa [← Except.ok.inj h, List.map_reverse, List.nodup_reverse]
    · rename_i base line _
      simp only [Template.failAt] at h
      split at h
      · simp at h
      · rename_i hfresh
        split at h
        · rename_i next hnext
          refine ih h (List.nodup_cons.mpr ⟨fun hmem => hfresh ?_, hways⟩)
          obtain ⟨u, hu, hname⟩ := List.mem_map.mp hmem
          refine List.any_eq_true.mpr ⟨u, List.mem_reverse.mpr hu, beq_iff_eq.mpr ?_⟩
          exact hname.trans (mem_of_get? hnext).2
        · simp at h

/-- The levels of a chain of templates are their names and blocks. -/
theorem levels_eq_ok {chain : List Template} {levels : List (String × List BlockDef)}
    (h : (chain.mapM fun t => do return (t.name, ← t.blocks) : Result _) = .ok levels) :
    levels = chain.map fun u => (u.name, blockDefs u.nodes) := by
  obtain ⟨hlength, hplaces⟩ := Result.mapM_eq_ok h
  refine List.ext_getElem (hlength.trans (List.length_map _).symm) fun i hi hi' => ?_
  have hchainAt := List.getElem?_eq_getElem (hlength ▸ hi : i < chain.length)
  have hat := hplaces hchainAt (List.getElem?_eq_getElem hi)
  obtain ⟨defs, hdefs, hat⟩ := Result.bind_eq_ok.mp hat
  rw [List.getElem_map, ← Except.ok.inj hat, (Template.blocks_eq_ok hdefs).1]

/-- What a template with inheritance applied is made of: a chain of templates of the set, of
different names, and the blocks of each. -/
theorem resolve_eq_ok (h : s.resolve t = .ok r) (ht : t ∈ s.templates) :
    ∃ chain : List Template, (∀ u ∈ chain, u ∈ s.templates) ∧ (chain.map Template.name).Nodup ∧
      r.body = chainBody chain ∧ r.levels = chain.map fun u => (u.name, blockDefs u.nodes) := by
  obtain ⟨chain, hchain, h⟩ := Result.bind_eq_ok.mp h
  obtain ⟨levels, hlevels, h⟩ := Result.bind_eq_ok.mp h
  obtain rfl := Except.ok.inj h
  exact ⟨chain, mem_of_mem_chainFrom hchain (by simpa using ht),
    nodup_of_chainFrom hchain (List.nodup_singleton _), rfl, levels_eq_ok hlevels⟩

/-- What is compiled for a chain of templates are nodes of these templates. -/
theorem exists_of_mem_chainBody {chain : List Template} {row : String × Node}
    (h : row ∈ chainBody chain) : ∃ u ∈ chain, u.name = row.1 ∧ row.2 ∈ u.nodes := by
  unfold chainBody at h
  split at h
  · exact absurd h List.not_mem_nil
  · rename_i base derived hreverse
    have hmem : ∀ u ∈ base :: derived, u ∈ chain := fun u hu =>
      List.mem_reverse.mp (hreverse ▸ hu)
    rcases List.mem_append.mp h with h | h
    · obtain ⟨u, hu, h⟩ := List.mem_flatMap.mp h
      obtain ⟨n, hn, rfl⟩ := List.mem_map.mp h
      exact ⟨u, hmem u (List.mem_cons_of_mem _ hu), rfl, (List.mem_filter.mp hn).1⟩
    · obtain ⟨n, hn, rfl⟩ := List.mem_map.mp h
      exact ⟨base, hmem base List.mem_cons_self, rfl, hn⟩

/-- What is compiled has every property that all templates of the set have throughout. -/
theorem throughout_body (hall : ∀ u ∈ s.templates, Node.Throughout P u.nodes)
    (h : s.resolve t = .ok r) (ht : t ∈ s.templates) :
    ∀ row ∈ r.body, Node.Throughout P [row.2] := by
  obtain ⟨chain, hchain, _, hbody, _⟩ := resolve_eq_ok h ht
  intro row hrow
  obtain ⟨u, hu, -, hn⟩ := exists_of_mem_chainBody (hbody ▸ hrow)
  exact (hall u (hchain u hu)).of_mem hn

/-- The definitions of blocks have every property that all templates of the set have throughout. -/
theorem throughout_layers (hall : ∀ u ∈ s.templates, Node.Throughout P u.nodes)
    (h : s.resolve t = .ok r) (ht : t ∈ s.templates) (block : String) :
    ∀ layer ∈ r.layers block, Node.Throughout P layer.body := by
  obtain ⟨chain, hchain, _, _, hlevels⟩ := resolve_eq_ok h ht
  intro layer hlayer
  obtain ⟨row, hrow, hlayer⟩ := List.mem_filterMap.mp hlayer
  rw [hlevels] at hrow
  obtain ⟨u, hu, rfl⟩ := List.mem_map.mp hrow
  obtain ⟨d, hd, rfl⟩ := Option.map_eq_some_iff.mp hlayer
  exact (hall u (hchain u hu)).blockDefs d (List.mem_of_find?_eq_some hd)

end TemplateSet

end Templating
