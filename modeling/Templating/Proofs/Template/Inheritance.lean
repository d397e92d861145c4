import Templating.Proofs.Template.Flattening

/-!
# Inheritance of a chain and of its flattened template

What inheritance makes of a chain of templates are the nodes and the definitions that flattening
starts from. A flattened template neither extends another one nor defines blocks, so that
inheritance leaves it as it is.
-/

namespace Templating

open Node (Throughout ThroughoutBranches OnTag)

section

variable {P Q : String → List TagArg → Prop} {splice : String × Nat → Option (List Node)}
  {inner? : Option (String × Nat)}

mutual

/-- A property of tags that are not replaced is one of what a node is replaced with. -/
theorem throughout_substituteNode
    (hsplice : ∀ point flat, splice point = some flat → Throughout (OnTag P) flat)
    (hPQ : ∀ name args, Q name args → splicePoint? inner? name args = none → P name args) :
    ∀ {n : Node} {flat : List Node}, Throughout (OnTag Q) [n] →
      substituteNode splice inner? n = some flat → Throughout (OnTag P) flat
  | .literal text span, flat, _, hflat => by
    obtain rfl := Option.some.inj hflat
    simp [Throughout, Node.everywhere, OnTag]
  | .output subject filters span, flat, _, hflat => by
    obtain rfl := Option.some.inj hflat
    simp [Throughout, Node.everywhere, OnTag]
  | .tag name args body branches span, flat, hn, hflat => by
    obtain ⟨htag, hbody, hbranches⟩ := Node.throughout_tag.mp hn
    cases hpoint : splicePoint? inner? name args with
    | some point =>
      rw [substituteNode, hpoint] at hflat
      exact hsplice point flat hflat
    | none =>
      obtain ⟨body', branches', hbody', hbranches', rfl⟩ :=
        (substituteNode_tag_eq_some hpoint).mp hflat
      exact Node.throughout_tag.mpr ⟨hPQ name args htag hpoint,
        throughout_substituteNodes hsplice hPQ hbody hbody',
        throughout_substituteBranches hsplice hPQ hbranches hbranches'⟩

/-- A property of tags that are not replaced is one of what nodes are replaced with. -/
theorem throughout_substituteNodes
    (hsplice : ∀ point flat, splice point = some flat → Throughout (OnTag P) flat)
    (hPQ : ∀ name args, Q name args → splicePoint? inner? name args = none → P name args) :
    ∀ {ns flat : List Node}, Throughout (OnTag Q) ns →
      substituteNodes splice inner? ns = some flat → Throughout (OnTag P) flat
  | [], flat, _, hflat => by
    obtain rfl := Option.some.inj hflat
    simp [Throughout, Node.everywhere]
  | n :: rest, flat, hns, hflat => by
    obtain ⟨hn, hrest⟩ := Node.throughout_cons.mp hns
    obtain ⟨first, more, hfirst, hmore, rfl⟩ := substituteNodes_cons_eq_some.mp hflat
    exact Node.throughout_append.mpr ⟨throughout_substituteNode hsplice hPQ hn hfirst,
      throughout_substituteNodes hsplice hPQ hrest hmore⟩

/-- A property of tags that are not replaced is one of what branches are replaced with. -/
theorem throughout_substituteBranches
    (hsplice : ∀ point flat, splice point = some flat → Throughout (OnTag P) flat)
    (hPQ : ∀ name args, Q name args → splicePoint? inner? name args = none → P name args) :
    ∀ {branches flat : List Branch}, ThroughoutBranches (OnTag Q) branches →
      substituteBranches splice inner? branches = some flat → ThroughoutBranches (OnTag P) flat
  | [], flat, _, hflat => by
    obtain rfl := Option.some.inj hflat
    simp [ThroughoutBranches, Node.everywhereInBranches]
  | .mk label args body span :: rest, flat, hbranches, hflat => by
    obtain ⟨hbody, hrest⟩ := Node.throughoutBranches_cons.mp hbranches
    obtain ⟨body', more, hbody', hmore, rfl⟩ := substituteBranches_cons_eq_some.mp hflat
    exact Node.throughoutBranches_cons.mpr ⟨throughout_substituteNodes hsplice hPQ hbody hbody',
      throughout_substituteBranches hsplice hPQ hrest hmore⟩

end

mutual

/-- Without blocks nothing is replaced outside of them in a node. -/
theorem substituteNode_eq_self : ∀ {n : Node},
    Throughout (OnTag fun name args => splicePoint? none name args = none) [n] →
      substituteNode splice none n = some [n]
  | .literal .., _ => rfl
  | .output .., _ => rfl
  | .tag name args body branches span, hn => by
    obtain ⟨hpoint, hbody, hbranches⟩ := Node.throughout_tag.mp hn
    exact (substituteNode_tag_eq_some hpoint).mpr
      ⟨body, branches, substituteNodes_eq_self hbody, substituteBranches_eq_self hbranches, rfl⟩

/-- Without blocks nothing is replaced outside of them. -/
theorem substituteNodes_eq_self : ∀ {ns : List Node},
    Throughout (OnTag fun name args => splicePoint? none name args = none) ns →
      substituteNodes splice none ns = some ns
  | [], _ => rfl
  | n :: rest, hns => by
    obtain ⟨hn, hrest⟩ := Node.throughout_cons.mp hns
    exact substituteNodes_cons_eq_some.mpr
      ⟨[n], rest, substituteNode_eq_self hn, substituteNodes_eq_self hrest, rfl⟩

/-- Without blocks nothing is replaced outside of them in branches. -/
theorem substituteBranches_eq_self : ∀ {branches : List Branch},
    ThroughoutBranches (OnTag fun name args => splicePoint? none name args = none) branches →
      substituteBranches splice none branches = some branches
  | [], _ => rfl
  | .mk label args body span :: rest, hbranches => by
    obtain ⟨hbody, hrest⟩ := Node.throughoutBranches_cons.mp hbranches
    exact substituteBranches_cons_eq_some.mpr
      ⟨body, rest, substituteNodes_eq_self hbody, substituteBranches_eq_self hrest, rfl⟩

end

end

/-- The node is a tag that extends a template. -/
def Node.isExtends : Node → Bool
  | .tag name .. => name == "extends"
  | _ => false

/-- The nodes of the template without the tag that extends another one. -/
def Template.ownNodes (t : Template) : List Node := t.nodes.filter fun n => !n.isExtends

/-- A tag that extends a template has nothing inside. -/
def Node.HasPlainExtends : Node → Prop
  | .tag name _ body branches _ => name = "extends" → body = [] ∧ branches = []
  | _ => True

mutual

/-- A tag that extends a template is found exactly where there is one. -/
theorem firstExtends?_eq_none_iff : ∀ {ns : List Node}, firstExtends? ns = none ↔
    Throughout (OnTag fun name _ => name ≠ "extends") ns
  | [] => by simp [firstExtends?, Throughout, Node.everywhere]
  | .literal .. :: rest => by
    rw [firstExtends?, firstExtends?_eq_none_iff, Node.throughout_cons]
    simp [Throughout, Node.everywhere, OnTag]
  | .output .. :: rest => by
    rw [firstExtends?, firstExtends?_eq_none_iff, Node.throughout_cons]
    simp [Throughout, Node.everywhere, OnTag]
  | .tag name args body branches span :: rest => by
    rw [Node.throughout_cons, Node.throughout_tag, ← firstExtends?_eq_none_iff,
      ← firstExtendsInBranches?_eq_none_iff, ← firstExtends?_eq_none_iff, firstExtends?, OnTag]
    by_cases hname : name = "extends"
    · simp [hname]
    · cases firstExtends? body <;> cases firstExtendsInBranches? branches <;> simp [hname]

/-- A tag that extends a template is found in branches exactly where there is one. -/
theorem firstExtendsInBranches?_eq_none_iff : ∀ {branches : List Branch},
    firstExtendsInBranches? branches = none ↔
      ThroughoutBranches (OnTag fun name _ => name ≠ "extends") branches
  | [] => by simp [firstExtendsInBranches?, ThroughoutBranches, Node.everywhereInBranches]
  | .mk label args body span :: rest => by
    rw [Node.throughoutBranches_cons, ← firstExtends?_eq_none_iff,
      ← firstExtendsInBranches?_eq_none_iff, firstExtendsInBranches?]
    cases firstExtends? body <;> simp

end

/-- A template that is accepted extends others at its top level only, and if it extends none, not
even there. -/
theorem extendsTag?_eq_ok {t : Template} {ns : List Node} {found result : Option (String × Nat)}
    {content : Bool} (h : t.extendsTag? found content ns = .ok result) :
    (∀ n ∈ ns, n.isExtends = false → Throughout (OnTag fun name _ => name ≠ "extends") [n]) ∧
      (result = none → found = none ∧ ∀ n ∈ ns, n.isExtends = false) := by
  induction ns generalizing found content with
  | nil =>
    obtain rfl := Except.ok.inj h
    exact ⟨fun _ hn => absurd hn List.not_mem_nil, fun hnone => ⟨hnone, by simp⟩⟩
  | cons n rest ih =>
    cases n with
    | literal text span =>
      rw [Template.extendsTag?] at h
      obtain ⟨hall, hnone⟩ := ih h
      refine ⟨List.forall_mem_cons.mpr ⟨fun _ => ?_, hall⟩, fun hresult => ?_⟩
      · simp [Throughout, Node.everywhere, OnTag]
      · exact ⟨(hnone hresult).1, List.forall_mem_cons.mpr ⟨rfl, (hnone hresult).2⟩⟩
    | output subject filters span =>
      rw [Template.extendsTag?] at h
      obtain ⟨hall, hnone⟩ := ih h
      refine ⟨List.forall_mem_cons.mpr ⟨fun _ => ?_, hall⟩, fun hresult => ?_⟩
      · simp [Throughout, Node.everywhere, OnTag]
      · exact ⟨(hnone hresult).1, List.forall_mem_cons.mpr ⟨rfl, (hnone hresult).2⟩⟩
    | tag name args body branches span =>
      rw [Template.extendsTag?] at h
      by_cases hname : name = "extends"
      · simp only [hname, if_true, Template.failAt] at h
        split at h
        · simp at h
        · split at h
          · obtain ⟨hall, hnone⟩ := ih h
            refine ⟨List.forall_mem_cons.mpr ⟨fun hextends => ?_, hall⟩, fun hresult => ?_⟩
            · simp [Node.isExtends, hname] at hextends
            · simp at hnone
              exact absurd hresult hnone
          · simp at h
      · simp only [hname, if_false, Template.failAt] at h
        split at h
        · simp at h
        · next hnested =>
          obtain ⟨hbody, hbranches⟩ := Option.or_eq_none_iff.mp hnested
          obtain ⟨hall, hnone⟩ := ih h
          refine ⟨List.forall_mem_cons.mpr ⟨fun _ => ?_, hall⟩, fun hresult => ?_⟩
          · exact Node.throughout_tag.mpr ⟨hname, firstExtends?_eq_none_iff.mp hbody,
              firstExtendsInBranches?_eq_none_iff.mp hbranches⟩
          · refine ⟨(hnone hresult).1, List.forall_mem_cons.mpr ⟨?_, (hnone hresult).2⟩⟩
            simp [Node.isExtends, hname]

/-- Without tags that extend others a template extends none. -/
theorem extendsTag?_eq_none {t : Template} {ns : List Node} {content : Bool}
    (h : Throughout (OnTag fun name _ => name ≠ "extends") ns) :
    t.extendsTag? none content ns = .ok none := by
  induction ns generalizing content with
  | nil => rfl
  | cons n rest ih =>
    obtain ⟨hn, hrest⟩ := Node.throughout_cons.mp h
    cases n with
    | literal text span => rw [Template.extendsTag?, ih hrest]
    | output subject filters span => rw [Template.extendsTag?, ih hrest]
    | tag name args body branches span =>
      obtain ⟨hname, hbody, hbranches⟩ := Node.throughout_tag.mp hn
      rw [Template.extendsTag?, if_neg hname, firstExtends?_eq_none_iff.mpr hbody,
        firstExtendsInBranches?_eq_none_iff.mpr hbranches]
      exact ih hrest

mutual

/-- Without blocks there are no definitions of blocks. -/
theorem blockDefs_eq_nil : ∀ {ns : List Node},
    Throughout (OnTag fun name args => splicePoint? none name args = none) ns → blockDefs ns = []
  | [], _ => by rw [blockDefs]
  | .literal .. :: rest, h => by
    rw [blockDefs]
    exact blockDefs_eq_nil (Node.throughout_cons.mp h).2
  | .output .. :: rest, h => by
    rw [blockDefs]
    exact blockDefs_eq_nil (Node.throughout_cons.mp h).2
  | .tag name args body branches span :: rest, h => by
    obtain ⟨hn, hrest⟩ := Node.throughout_cons.mp h
    obtain ⟨hpoint, hbody, hbranches⟩ := Node.throughout_tag.mp hn
    rw [blockDefs, blockDefs_eq_nil hbody, branchBlockDefs_eq_nil hbranches, blockDefs_eq_nil hrest]
    by_cases hname : name = "block"
    · have hnone : args.head?.bind TagArg.asIdent? = none := by
        simpa [OnTag, splicePoint?, hname] using hpoint
      simp [hnone]
    · simp [hname]

/-- Without blocks there are no definitions of blocks in branches. -/
theorem branchBlockDefs_eq_nil : ∀ {branches : List Branch},
    ThroughoutBranches (OnTag fun name args => splicePoint? none name args = none) branches →
      branchBlockDefs branches = []
  | [], _ => by rw [branchBlockDefs]
  | .mk label args body span :: rest, h => by
    obtain ⟨hbody, hrest⟩ := Node.throughoutBranches_cons.mp h
    rw [branchBlockDefs, blockDefs_eq_nil hbody, branchBlockDefs_eq_nil hrest]
    rfl

end

/-- A tag that extends a template defines no blocks. -/
theorem Template.blockDefs_ownNodes {t : Template} (h : ∀ n ∈ t.nodes, n.HasPlainExtends) :
    blockDefs t.ownNodes = blockDefs t.nodes := by
  have hall : ∀ ns : List Node, (∀ n ∈ ns, n.HasPlainExtends) →
      blockDefs (ns.filter fun n => !n.isExtends) = blockDefs ns := by
    intro ns
    induction ns with
    | nil => exact fun _ => rfl
    | cons n rest ih =>
      intro hns
      obtain ⟨hn, hrest⟩ := List.forall_mem_cons.mp hns
      cases n with
      | literal text span => simpa [Node.isExtends, blockDefs] using ih hrest
      | output subject filters span => simpa [Node.isExtends, blockDefs] using ih hrest
      | tag name args body branches span =>
        by_cases hname : name = "extends"
        · obtain ⟨rfl, rfl⟩ := hn hname
          simpa [Node.isExtends, hname, blockDefs, branchBlockDefs] using ih hrest
        · rw [List.filter_cons_of_pos (by simp [Node.isExtends, hname]), blockDefs, blockDefs,
            ih hrest]
  exact hall t.nodes h

namespace TemplateSet

variable {s : TemplateSet} {chain : List Template}

/-- The derived templates of a chain extend others, and the base does not. -/
theorem chainFrom_eq_ok {bound : Nat} {current : Template} {earlier : List Template}
    (h : s.chainFrom bound current earlier = .ok chain)
    (hearlier : ∀ t ∈ earlier, ∃ base, t.base? = .ok (some base)) :
    ∃ derived base, chain = derived ++ [base] ∧
      (∀ t ∈ derived, ∃ base, t.base? = .ok (some base)) ∧ base.base? = .ok none := by
  induction bound generalizing current earlier with
  | zero => simp [chainFrom, fail] at h
  | succ bound ih =>
    rw [chainFrom] at h
    split at h
    · simp at h
    · next hbase =>
      refine ⟨earlier.reverse, current, ?_, ?_, hbase⟩
      · rw [← Except.ok.inj h, List.reverse_cons]
      · exact fun t ht => hearlier t (List.mem_reverse.mp ht)
    · next base line hbase =>
      simp only [Template.failAt] at h
      split at h
      · simp at h
      · split at h
        · exact ih h (List.forall_mem_cons.mpr ⟨⟨_, hbase⟩, hearlier⟩)
        · simp at h

/-- No template of a chain extends another one below its top level, and the base extends none. -/
theorem throughout_ownNodes (h : s.chain s.root = .ok chain) :
    ∀ t ∈ chain, Throughout (OnTag fun name _ => name ≠ "extends") t.ownNodes := by
  obtain ⟨derived, base, rfl, hderived, hbase⟩ :=
    chainFrom_eq_ok h (fun _ ht => absurd ht (by simp))
  have hown : ∀ {t : Template} {r : Option (String × Nat)}, t.base? = .ok r →
      Throughout (OnTag fun name _ => name ≠ "extends") t.ownNodes := by
    intro t r hr
    refine Node.throughout_of_forall fun n hn => ?_
    obtain ⟨hn, hextends⟩ := List.mem_filter.mp hn
    exact (extendsTag?_eq_ok hr).1 n hn (by simpa using hextends)
  intro t ht
  rcases List.mem_append.mp ht with ht | ht
  · obtain ⟨_, hr⟩ := hderived t ht
    exact hown hr
  · rw [List.mem_singleton.mp ht]
    exact hown hbase

/-- The nodes that flattening starts from are nodes of the templates, apart from the tags that
extend others. -/
theorem mem_unfoldedNodes (h : s.chain s.root = .ok chain) {n : Node}
    (hn : n ∈ unfoldedNodes chain) : ∃ t ∈ chain, n ∈ t.ownNodes := by
  obtain ⟨derived, base, rfl, -, hbase⟩ := chainFrom_eq_ok h (fun _ ht => absurd ht (by simp))
  rw [unfoldedNodes, List.dropLast_concat, List.getLast?_concat] at hn
  rcases List.mem_append.mp hn with hn | hn
  · obtain ⟨t, ht, hn⟩ := List.mem_flatMap.mp hn
    obtain ⟨hn, hshared⟩ := List.mem_filter.mp hn
    refine ⟨t, List.mem_append_left _ (List.mem_reverse.mp ht), List.mem_filter.mpr ⟨hn, ?_⟩⟩
    cases n with
    | literal text span => rfl
    | output subject filters span => rfl
    | tag name args body branches span =>
      simp only [Node.isShared, Bool.or_eq_true, beq_iff_eq] at hshared
      rcases hshared with rfl | rfl <;> simp [Node.isExtends]
  · have hnone := ((extendsTag?_eq_ok hbase).2 rfl).2 n hn
    exact ⟨base, by simp, List.mem_filter.mpr ⟨hn, by simp [hnone]⟩⟩

section

variable {Q : String → List TagArg → Prop} (h : s.chain s.root = .ok chain)
  (hplain : ∀ t ∈ chain, ∀ n ∈ t.nodes, n.HasPlainExtends)
  (hQ : ∀ t ∈ chain, Throughout (OnTag Q) t.nodes)

include h hQ

/-- Every tag of a template, apart from the one that extends another template, extends none. -/
theorem throughout_ownNodes_and :
    ∀ t ∈ chain, Throughout (OnTag fun name args => Q name args ∧ name ≠ "extends") t.ownNodes := by
  intro t ht
  refine Node.throughout_of_forall fun n hn m hm => ?_
  have hmQ := (hQ t ht).of_mem (List.mem_filter.mp hn).1 m hm
  have hmExtends := (throughout_ownNodes h t ht).of_mem hn m hm
  cases m with
  | literal text span => trivial
  | output subject filters span => trivial
  | tag name args body branches span => exact ⟨hmQ, hmExtends⟩

include hplain

/-- Every tag of a definition of a block extends no template. -/
theorem throughout_definitions {block : String} {body : List Node}
    (hbody : body ∈ definitions chain block) :
    Throughout (OnTag fun name args => Q name args ∧ name ≠ "extends") body := by
  obtain ⟨t, ht, hd⟩ := List.mem_filterMap.mp hbody
  obtain ⟨d, hfind, rfl⟩ := Option.map_eq_some_iff.mp hd
  rw [← Template.blockDefs_ownNodes (hplain t ht)] at hfind
  exact (throughout_ownNodes_and h hQ t ht).blockDefs d (List.mem_of_find?_eq_some hfind)

/-- Every tag of the flattened template is a tag of the chain that is no block and extends no
template. -/
theorem throughout_flatten {flat : List Node} (hflat : Flattens chain flat) :
    Throughout (OnTag fun name args =>
      (Q name args ∧ name ≠ "extends") ∧ splicePoint? none name args = none) flat := by
  -- a tag that is not replaced inside of a block is none that would be outside of all blocks
  have hpoint : ∀ {inner? : Option (String × Nat)} (name : String) (args : List TagArg),
      Q name args ∧ name ≠ "extends" → splicePoint? inner? name args = none →
        (Q name args ∧ name ≠ "extends") ∧ splicePoint? none name args = none := by
    intro inner? name args htag hnone
    refine ⟨htag, ?_⟩
    simp only [splicePoint?] at hnone ⊢
    split
    · next hname => rwa [if_pos hname] at hnone
    · split <;> rfl
  have hexpand : ∀ levels point body, expand chain levels point = some body →
      Throughout (OnTag fun name args =>
        (Q name args ∧ name ≠ "extends") ∧ splicePoint? none name args = none) body := by
    intro levels
    induction levels with
    | zero => exact fun _ _ hbody => absurd hbody (by simp [expand])
    | succ levels ih =>
      intro point body hbody
      rw [expand] at hbody
      cases hdefinition : (definitions chain point.1)[point.2]? with
      | none =>
        simp only [hdefinition, Option.some.injEq] at hbody
        simp [← hbody, Throughout, Node.everywhere]
      | some definition =>
        simp only [hdefinition] at hbody
        exact throughout_substituteNodes ih hpoint
          (throughout_definitions h hplain hQ (List.mem_of_getElem? hdefinition)) hbody
  obtain ⟨levels, hlevels⟩ := hflat
  refine throughout_substituteNodes (hexpand levels) hpoint ?_ hlevels
  refine Node.throughout_of_forall fun n hn => ?_
  obtain ⟨t, ht, hn⟩ := mem_unfoldedNodes h hn
  exact (throughout_ownNodes_and h hQ t ht).of_mem hn

end

/-- Inheritance makes of a chain the nodes that flattening starts from, as far as no macros are
imported at the top level, and the definitions that are spliced. -/
theorem resolve_of_chain (h : s.chain s.root = .ok chain) {r : Resolved}
    (hr : s.resolve s.root = .ok r)
    (himport : ∀ t ∈ chain, Throughout (OnTag fun name _ => name ≠ "import") t.nodes) :
    r.body.map Prod.snd = unfoldedNodes chain ∧
      ∀ block, (r.layers block).map BlockLayer.body = definitions chain block := by
  obtain ⟨chain', hchain, hr⟩ := Result.bind_eq_ok.mp hr
  obtain rfl := Except.ok.inj (hchain.symm.trans h)
  obtain ⟨levels, hlevels, hr⟩ := Result.bind_eq_ok.mp hr
  obtain rfl := Except.ok.inj hr
  constructor
  · obtain ⟨derived, base, rfl, -, -⟩ := chainFrom_eq_ok h (fun _ ht => absurd ht (by simp))
    have hhoisted : ∀ t ∈ derived.reverse, t.hoistedNodes = t.nodes.filter Node.isShared := by
      intro t ht
      refine List.filter_congr fun n hn => ?_
      have hn := (himport t (List.mem_append_left _ (List.mem_reverse.mp ht))).of_mem hn
      cases n with
      | literal text span => rfl
      | output subject filters span => rfl
      | tag name args body branches span =>
        have hname : name ≠ "import" := (Node.throughout_tag.mp hn).1
        simp [Template.hoisted, Node.isShared, hname, Bool.beq_eq_decide_eq]
    rw [chainBody, List.reverse_append, List.reverse_singleton, List.singleton_append,
      unfoldedNodes, List.dropLast_concat, List.getLast?_concat]
    simp only [List.map_append, List.map_flatMap, List.map_map, Option.map_some, Option.getD_some]
    congr 1
    · refine List.flatMap_congr fun t ht => ?_
      rw [← hhoisted t ht]
      exact List.map_id _
    · exact List.map_id _
  · intro block
    rw [Resolved.layers, levels_eq_ok hlevels, definitions, List.filterMap_map, List.map_filterMap]
    refine List.filterMap_congr fun t _ => ?_
    simp [Function.comp_def]

/-- A template by itself. -/
def single (t : Template) : TemplateSet := ⟨t, []⟩

/-- Inheritance leaves a flattened template as it is. -/
theorem resolve_single {t : Template}
    (h : Throughout (OnTag fun name args =>
      name ≠ "extends" ∧ splicePoint? none name args = none) t.nodes) :
    (single t).resolve t = .ok ⟨t.nodes.map fun n => (t.name, n), [(t.name, [])]⟩ := by
  have hextends : Throughout (OnTag fun name _ => name ≠ "extends") t.nodes :=
    h.onTag_mono fun _ _ => And.left
  have hblocks : Throughout (OnTag fun name args => splicePoint? none name args = none) t.nodes :=
    h.onTag_mono fun _ _ => And.right
  have hbase : t.base? = .ok none := extendsTag?_eq_none hextends
  have hdefs : t.blocks = .ok [] := by
    simp only [Template.blocks, blockDefs_eq_nil hblocks]
    rfl
  have hchain : (single t).chain t = .ok [t] := by
    rw [chain, chainFrom, hbase]
    rfl
  rw [resolve, hchain]
  simp [bind, Except.bind, pure, Except.pure, List.mapM_cons, hdefs, chainBody]

end TemplateSet

end Templating
