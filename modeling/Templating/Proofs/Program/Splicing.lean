import Mathlib
import Templating.Proofs.Emission.Reentry

/-!
# Compilation of spliced blocks

When compilation of a chain of templates ends that continues in no other templates than its own. It
does so exactly if no definition of a block is entered while it is being compiled; then as many
levels as there are definitions of blocks are enough. Nothing in the definitions themselves excludes
that two blocks lead to each other: two templates of a chain may nest them in opposite orders.
-/

namespace Templating

open Emission (Follows Elsewhere Surroundings atDepth guardedAt)

namespace TemplateSet

variable {s : TemplateSet} {registry : Registry} {resolved : Resolved} {refusal : Fault}
  {E E' : Elsewhere}

/-- No template of the set includes or imports another one. -/
def StaysInChain (s : TemplateSet) (registry : Registry) : Prop :=
  ∀ t ∈ s.templates, Emission.StayInChain registry t.nodes

/-- The number of definitions of blocks in the templates of the set. -/
def definitionCount (s : TemplateSet) : Nat :=
  (s.templates.flatMap fun t => blockDefs t.nodes).length

/-- Compile the root template, but refuse to enter a definition of a block that is being
compiled. -/
def compileGuarded (s : TemplateSet) (registry : Registry) (autoescape : Bool) (name : String)
    (refusal : Fault) : Result Program :=
  s.compileThrough registry autoescape name (guardedAt refusal (s.definitionCount + 1))

/-- A definition of a block is entered while it is being compiled: whatever fault the guard refuses
that with, compilation fails with it. -/
def Reenters (s : TemplateSet) (registry : Registry) (autoescape : Bool) (name : String) : Prop :=
  ∀ refusal, Result.IsFault (s.compileGuarded registry autoescape name refusal) refusal

/-- What the root template is emitted in. -/
def rootSurroundings (s : TemplateSet) (registry : Registry) (resolved : Resolved) : Surroundings :=
  { registry, set := s, resolved, including := [s.root.name] }

/-- The definitions of blocks of a resolved template are among those of the set. -/
theorem length_placements_le (h : s.resolve s.root = .ok resolved) :
    resolved.placements.length ≤ s.definitionCount := by
  obtain ⟨chain, hchain, hnodup, _, hlevels⟩ := resolve_eq_ok h List.mem_cons_self
  obtain ⟨among, hperm, hsublist⟩ := List.subperm_of_subset hnodup.of_map hchain
  rw [Resolved.placements, Resolved.length_placementsIn, hlevels, List.flatMap_map]
  calc (chain.flatMap fun u => blockDefs u.nodes).length
      = (among.flatMap fun u => blockDefs u.nodes).length :=
        ((hperm.flatMap_right fun u => blockDefs u.nodes).length_eq).symm
    _ ≤ s.definitionCount := (hsublist.flatMap fun u => blockDefs u.nodes).length_le

/-- What is emitted for a set that stays in its chain stays there. -/
theorem StaysInChain.root (hstay : s.StaysInChain registry) (h : s.resolve s.root = .ok resolved) :
    (s.rootSurroundings registry resolved).StaysInChain ∧
      ∀ row ∈ resolved.body, Emission.StayInChain registry [row.2] :=
  ⟨fun block => throughout_layers hstay h List.mem_cons_self block,
    throughout_body hstay h List.mem_cons_self⟩

/-- The root template is emitted alike if its nodes are. -/
theorem emitRoot_follows (hstay : s.StaysInChain registry)
    (hnodes : ∀ {resolved ns}, s.resolve s.root = .ok resolved → Emission.StayInChain registry ns →
      Follows refusal True (E (s.rootSurroundings registry resolved) ns)
        (E' (s.rootSurroundings registry resolved) ns)) :
    Follows refusal True (s.emitRoot registry E) (s.emitRoot registry E') := by
  refine .inFile (.lift_bind fun resolved hresolved => ?_)
  exact Emission.nodesOf_follows fun row hrow =>
    hnodes hresolved ((hstay.root hresolved).2 row hrow)

/-- Compilation fails as emission does. -/
theorem isFault_compileThrough {autoescape : Bool} {name : String} :
    Result.IsFault (s.compileThrough registry autoescape name E) refusal ↔
      Result.IsFault (s.emitRoot registry E {}) refusal := by
  unfold compileThrough
  cases s.emitRoot registry E {} with
  | ok p => simp [Result.IsFault, bind, Except.bind, pure, Except.pure]
  | error e => simp [Result.IsFault, bind, Except.bind]

/-- What is not refused is compiled in the same way. -/
theorem compileThrough_eq (hfollows : Follows refusal True (s.emitRoot registry E)
    (s.emitRoot registry E')) {autoescape : Bool} {name : String}
    (hdone : ¬ Result.IsFault (s.compileThrough registry autoescape name E) refusal) :
    s.compileThrough registry autoescape name E = s.compileThrough registry autoescape name E' := by
  rw [isFault_compileThrough] at hdone
  rw [compileThrough, compileThrough, hfollows.eq hdone]

/-- Where the guard is silent, every number of levels above that of the definitions is enough. -/
theorem guardedAt_follows_atDepth (hstay : s.StaysInChain registry) {bound depth : Nat}
    (hdepth : bound ≤ depth) :
    Follows refusal True (s.emitRoot registry (guardedAt refusal bound))
      (s.emitRoot registry (atDepth depth)) := by
  refine emitRoot_follows hstay fun hresolved hns => ?_
  rw [Emission.atDepth_eq_admitting]
  exact Emission.admitting_follows (hstay.root hresolved).1 (fun _ _ => rfl) hdepth hns

/-- Where the guard is silent, it does not matter how it would refuse. -/
theorem guardedAt_follows_guardedAt (hstay : s.StaysInChain registry) (refusal' : Fault)
    {bound : Nat} :
    Follows refusal True (s.emitRoot registry (guardedAt refusal bound))
      (s.emitRoot registry (guardedAt refusal' bound)) := by
  refine emitRoot_follows hstay fun hresolved hns => ?_
  exact Emission.admitting_follows (hstay.root hresolved).1 (fun _ => id) (Nat.le_refl bound) hns

/-- If the guard refuses, no number of levels is enough. -/
theorem atDepth_follows_guarded (hstay : s.StaysInChain registry) (depth : Nat) :
    Follows .nestedTooDeep True (s.emitRoot registry (atDepth depth))
        (s.emitRoot registry (guardedAt .nestedTooDeep (s.definitionCount + 1 + depth))) ∧
      Follows .nestedTooDeep True
        (s.emitRoot registry (guardedAt .nestedTooDeep (s.definitionCount + 1 + depth)))
        (s.emitRoot registry (guardedAt .nestedTooDeep (s.definitionCount + 1))) := by
  constructor
  · refine emitRoot_follows hstay fun hresolved hns => ?_
    exact Emission.atDepth_follows_guardedAt_outside (hstay.root hresolved).1
      (Nat.le_add_left _ _) hns
  · refine emitRoot_follows hstay fun {resolved} _ hresolved hns => ?_
    have hdepth : resolved.placements.length < ([] : List (String × Nat)).length +
        (s.definitionCount + 1) := by
      rw [List.length_nil, Nat.zero_add]
      exact Nat.lt_succ_of_le (length_placements_le hresolved)
    exact Emission.guardedAt_follows_of_bound (hstay.root hresolved).1 (List.forall_mem_nil _)
      hdepth hns

/-- If no definition is entered again, one level more than there are definitions is enough, and the
guard changes nothing. -/
theorem compileAt_eq_compileGuarded (hstay : s.StaysInChain registry) {autoescape : Bool}
    {name : String} (hsilent : ¬ s.Reenters registry autoescape name) {depth : Nat}
    (hdepth : s.definitionCount < depth) (refusal : Fault) :
    s.compileAt registry autoescape name depth =
      s.compileGuarded registry autoescape name refusal := by
  obtain ⟨silent, hdone⟩ := Classical.not_forall.mp hsilent
  rw [compileGuarded, ← compileThrough_eq (guardedAt_follows_guardedAt hstay refusal) hdone]
  exact (compileThrough_eq (guardedAt_follows_atDepth hstay hdepth) hdone).symm

/-- If a definition is entered again, no number of levels is enough. -/
theorem isFault_compileAt (hstay : s.StaysInChain registry) {autoescape : Bool} {name : String}
    (hreenters : s.Reenters registry autoescape name) (depth : Nat) :
    Result.IsFault (s.compileAt registry autoescape name depth) .nestedTooDeep := by
  obtain ⟨hlevels, hbound⟩ := atDepth_follows_guarded hstay depth
  have hguard := isFault_compileThrough.mp (hreenters .nestedTooDeep)
  have hmore := hbound.isFault (fun _ => rfl) hguard
  exact isFault_compileThrough.mpr (hlevels.isFault (fun _ => rfl) hmore)

/-- A set of templates whose tags are all from the initial registry, and none of which includes or
imports. -/
theorem staysInChain_initial
    (h : ∀ t ∈ s.templates, Node.Throughout (fun n =>
      match n with
      | .tag tagName .. => tagName ≠ "include" ∧ tagName ≠ "import"
      | _ => True) t.nodes) : s.StaysInChain .initial := by
  intro t ht n hn
  have hnames := h t ht n hn
  cases n with
  | tag tagName =>
    constructor
    · intro htag
      obtain ⟨_, hinsert, hname⟩ := Registry.tag?_initial htag
      exact hnames.1 (hname.symm.trans (Tag.builtin.inj hinsert ▸ rfl))
    · intro htag
      obtain ⟨_, himport, hname⟩ := Registry.tag?_initial htag
      exact hnames.2 (hname.symm.trans (Tag.builtin.inj himport ▸ rfl))
  | _ => trivial

/-- Compilation of a chain of templates that includes and imports nothing ends exactly if no
definition of a block is entered while it is being compiled. If none is, one level more than there
are definitions is enough, and a guard would change nothing; if one is, no number of levels is
enough. -/
theorem compileAt_of_staysInChain (hstay : s.StaysInChain registry) (autoescape : Bool)
    (name : String) :
    (¬ s.Reenters registry autoescape name → ∀ depth > s.definitionCount, ∀ refusal,
      s.compileAt registry autoescape name depth =
        s.compileGuarded registry autoescape name refusal) ∧
    (s.Reenters registry autoescape name → ∀ depth,
      Result.IsFault (s.compileAt registry autoescape name depth) .nestedTooDeep) :=
  ⟨fun hsilent _ hdepth refusal => compileAt_eq_compileGuarded hstay hsilent hdepth refusal,
    fun hreenters depth => isFault_compileAt hstay hreenters depth⟩

set_option maxRecDepth 100000 in
/-- A derived template that goes on with the parent of its only block compiles with any number of
levels above two. -/
theorem compileAt_of_staysInChain_of_parent :
    let block (body : List Node) : Node := .tag "block" [.ident "a"] body [] {}
    let s : TemplateSet :=
      ⟨⟨"t", [.tag "extends" [.text "base"] [] [] {}, block [.tag "parent" [] [] [] {}]]⟩,
        [⟨"base", [block [.literal "text" {}]]⟩]⟩
    s.StaysInChain .initial ∧ ¬ s.Reenters .initial true "t" ∧
      ∀ depth > 2, ∃ p, s.compileAt .initial true "t" depth = .ok p := by
  intro block s
  have hstay : s.StaysInChain .initial := by
    refine staysInChain_initial fun t ht => ?_
    simp only [s, block, templates, List.mem_cons, List.not_mem_nil, or_false] at ht
    rcases ht with rfl | rfl <;>
      simp [Node.Throughout, Node.everywhere, Node.everywhereInBranches]
  have hok : (s.compileGuarded .initial true "t" .nestedTooDeep).isOk = true := by decide +kernel
  cases h : s.compileGuarded .initial true "t" .nestedTooDeep with
  | error e =>
    rw [h] at hok
    exact absurd hok (by simp [Except.isOk, Except.toBool])
  | ok p =>
    have hsilent : ¬ s.Reenters .initial true "t" := fun hreenters => by
      obtain ⟨e, he, _⟩ := hreenters .nestedTooDeep
      rw [h] at he
      exact absurd he (by simp)
    have hcount : s.definitionCount = 2 := by decide +kernel
    refine ⟨hstay, hsilent, fun depth hdepth => ⟨p, ?_⟩⟩
    rw [← hcount] at hdepth
    rw [(compileAt_of_staysInChain hstay true "t").1 hsilent depth hdepth .nestedTooDeep, h]

/-- Two templates that nest two blocks in opposite orders: the derived one has `b` inside of `a` and
goes on with the parent of `b`, in which the base has `a`. -/
def crossed : TemplateSet :=
  let block (name : String) (body : List Node) : Node := .tag "block" [.ident name] body [] {}
  ⟨⟨"t", [.tag "extends" [.text "base"] [] [] {},
      block "a" [block "b" [.tag "parent" [] [] [] {}]]]⟩,
    [⟨"base", [block "b" [block "a" []]]⟩]⟩

/-- The two templates include and import nothing. -/
theorem crossed_staysInChain : crossed.StaysInChain .initial := by
  refine staysInChain_initial fun t ht => ?_
  simp only [crossed, templates, List.mem_cons, List.not_mem_nil, or_false] at ht
  rcases ht with rfl | rfl <;> simp [Node.Throughout, Node.everywhere, Node.everywhereInBranches]

set_option maxRecDepth 100000 in
/-- Each of the two blocks leads back to itself. -/
theorem crossed_reenters : crossed.Reenters .initial true "t" := by
  intro refusal
  have hguard : crossed.compileGuarded .initial true "t" refusal =
      .error ⟨refusal, none, some ⟨"t", 0⟩, none⟩ := by cbv
  exact ⟨_, hguard, rfl⟩

/-- That inheritance accepts a chain of templates does not mean that its compilation ends. -/
theorem not_forall_exists_compileAt :
    ¬ ∀ (s : TemplateSet) (resolved : Resolved),
      s.resolve s.root = .ok resolved → s.StaysInChain .initial →
        ∃ depth, ¬ Result.IsFault (s.compileAt .initial true s.root.name depth) .nestedTooDeep := by
  intro h
  have hresolve : ∃ resolved, crossed.resolve crossed.root = .ok resolved := ⟨_, by cbv⟩
  obtain ⟨resolved, hresolved⟩ := hresolve
  obtain ⟨depth, hends⟩ := h crossed resolved hresolved crossed_staysInChain
  exact hends (isFault_compileAt crossed_staysInChain crossed_reenters depth)

end TemplateSet

end Templating
