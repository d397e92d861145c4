import Templating.Proofs.Template.Everywhere

/-!
# Flattened templates

What a chain of templates means can be written down as one template without inheritance: the base,
behind the assignments and macros of the derived templates, in which every block is replaced by the
body of its most derived definition and every parent by the body of the next less derived definition
of the block around it, again and again, until no block is left.

Blocks may lead to each other in a circle, and then there is no such template. The replacement is
therefore done within a number of levels, and fails if they are not enough. A template that is found
in this way does not depend on the number of levels.
-/

namespace Templating

/-- The definitions of a block in a chain of templates, most derived first. -/
def definitions (chain : List Template) (block : String) : List (List Node) :=
  chain.filterMap fun t =>
    ((blockDefs t.nodes).find? fun d => d.name == block).map BlockDef.body

/-- The definition that a tag stands for, by the name of the block and its number: the first one of
a block, and for a parent the next one of the block around it. -/
def splicePoint? (inner? : Option (String × Nat)) (name : String) (args : List TagArg) :
    Option (String × Nat) :=
  if name = "block" then (args.head?.bind TagArg.asIdent?).map fun block => (block, 0)
  else if name = "parent" then inner?.map fun (block, index) => (block, index + 1)
  else none

section

variable (splice : String × Nat → Option (List Node)) (inner? : Option (String × Nat))

mutual

/-- Replace the blocks and parents of a node, at any depth. -/
def substituteNode : Node → Option (List Node)
  | .literal text span => some [.literal text span]
  | .output subject filters span => some [.output subject filters span]
  | .tag name args body branches span =>
    match splicePoint? inner? name args with
    | some point => splice point
    | none => do
      let body ← substituteNodes body
      let branches ← substituteBranches branches
      return [.tag name args body branches span]

/-- Replace the blocks and parents of nodes, at any depth. -/
def substituteNodes : List Node → Option (List Node)
  | [] => some []
  | n :: rest => do
    let first ← substituteNode n
    let more ← substituteNodes rest
    return first ++ more

/-- Replace the blocks and parents in branches, at any depth. -/
def substituteBranches : List Branch → Option (List Branch)
  | [] => some []
  | .mk label args body span :: rest => do
    let body ← substituteNodes body
    let more ← substituteBranches rest
    return .mk label args body span :: more

end

end

/-- What a definition of a block stands for, with all blocks and parents in it replaced; nothing if
there is no definition of that number. -/
def expand (chain : List Template) : Nat → String × Nat → Option (List Node)
  | 0, _ => none
  | levels + 1, point =>
    match (definitions chain point.1)[point.2]? with
    | none => some []
    | some body => substituteNodes (expand chain levels) (some point) body

/-- The node counts in derived templates although it stands outside of all blocks. -/
def Node.isShared : Node → Bool
  | .tag name .. => name == "set" || name == "macro"
  | _ => false

/-- The nodes of a chain before anything is replaced: the assignments and macros of the derived
templates, those next to the base first, and the nodes of the base. -/
def unfoldedNodes (chain : List Template) : List Node :=
  (chain.dropLast.reverse.flatMap fun t => t.nodes.filter Node.isShared) ++
    (chain.getLast?.map Template.nodes).getD []

/-- The flattened template of a chain, found within so many levels. -/
def flatten? (chain : List Template) (levels : Nat) : Option (List Node) :=
  substituteNodes (expand chain levels) none (unfoldedNodes chain)

/-- The nodes are those of the flattened template of a chain. -/
def Flattens (chain : List Template) (flat : List Node) : Prop :=
  ∃ levels, flatten? chain levels = some flat

section

variable {splice splice' : String × Nat → Option (List Node)} {inner? : Option (String × Nat)}

/-- What a tag that is not replaced itself is replaced with. -/
theorem substituteNode_tag_eq_some {name : String} {args : List TagArg} {body : List Node}
    {branches : List Branch} {span : Span} {flat : List Node}
    (hpoint : splicePoint? inner? name args = none) :
    substituteNode splice inner? (.tag name args body branches span) = some flat ↔
      ∃ body' branches', substituteNodes splice inner? body = some body' ∧
        substituteBranches splice inner? branches = some branches' ∧
          [.tag name args body' branches' span] = flat := by
  simp [substituteNode, hpoint, Option.bind_eq_some_iff]

/-- What nodes are replaced with is what each of them is replaced with. -/
theorem substituteNodes_cons_eq_some {n : Node} {rest flat : List Node} :
    substituteNodes splice inner? (n :: rest) = some flat ↔
      ∃ first more, substituteNode splice inner? n = some first ∧
        substituteNodes splice inner? rest = some more ∧ first ++ more = flat := by
  simp [substituteNodes, Option.bind_eq_some_iff]

/-- What branches are replaced with keeps labels and arguments. -/
theorem substituteBranches_cons_eq_some {label : String} {args : List TagArg} {body : List Node}
    {span : Span} {rest flat : List Branch} :
    substituteBranches splice inner? (.mk label args body span :: rest) = some flat ↔
      ∃ body' more, substituteNodes splice inner? body = some body' ∧
        substituteBranches splice inner? rest = some more ∧
          .mk label args body' span :: more = flat := by
  simp [substituteBranches, Option.bind_eq_some_iff]

mutual

/-- Where more definitions can be replaced, nothing changes for a node that could be before. -/
theorem substituteNode_mono
    (h : ∀ point flat, splice point = some flat → splice' point = some flat) :
    ∀ {n : Node} {flat : List Node}, substituteNode splice inner? n = some flat →
      substituteNode splice' inner? n = some flat
  | .literal .., _, hflat => hflat
  | .output .., _, hflat => hflat
  | .tag name args body branches span, flat, hflat => by
    cases hpoint : splicePoint? inner? name args with
    | some point =>
      rw [substituteNode, hpoint] at hflat ⊢
      exact h point flat hflat
    | none =>
      obtain ⟨body', branches', hbody, hbranches, rfl⟩ :=
        (substituteNode_tag_eq_some hpoint).mp hflat
      exact (substituteNode_tag_eq_some hpoint).mpr
        ⟨body', branches', substituteNodes_mono h hbody, substituteBranches_mono h hbranches, rfl⟩

/-- Where more definitions can be replaced, nothing changes for nodes that could be before. -/
theorem substituteNodes_mono
    (h : ∀ point flat, splice point = some flat → splice' point = some flat) :
    ∀ {ns flat : List Node}, substituteNodes splice inner? ns = some flat →
      substituteNodes splice' inner? ns = some flat
  | [], _, hflat => hflat
  | n :: rest, flat, hflat => by
    obtain ⟨first, more, hfirst, hmore, rfl⟩ := substituteNodes_cons_eq_some.mp hflat
    exact substituteNodes_cons_eq_some.mpr
      ⟨first, more, substituteNode_mono h hfirst, substituteNodes_mono h hmore, rfl⟩

/-- Where more definitions can be replaced, nothing changes for branches that could be before. -/
theorem substituteBranches_mono
    (h : ∀ point flat, splice point = some flat → splice' point = some flat) :
    ∀ {branches flat : List Branch}, substituteBranches splice inner? branches = some flat →
      substituteBranches splice' inner? branches = some flat
  | [], _, hflat => hflat
  | .mk label args body span :: rest, flat, hflat => by
    obtain ⟨body', more, hbody, hmore, rfl⟩ := substituteBranches_cons_eq_some.mp hflat
    exact substituteBranches_cons_eq_some.mpr
      ⟨body', more, substituteNodes_mono h hbody, substituteBranches_mono h hmore, rfl⟩

end

/-- One level more changes nothing for a definition that could be replaced before. -/
theorem expand_succ {chain : List Template} {levels : Nat} {point : String × Nat}
    {flat : List Node} (h : expand chain levels point = some flat) :
    expand chain (levels + 1) point = some flat := by
  induction levels generalizing point flat with
  | zero => simp [expand] at h
  | succ levels ih =>
    rw [expand] at h ⊢
    cases hbody : (definitions chain point.1)[point.2]? with
    | none => simpa only [hbody] using h
    | some body =>
      simp only [hbody] at h ⊢
      exact substituteNodes_mono (fun _ _ => ih) h

/-- More levels change nothing for a chain that could be flattened before. -/
theorem flatten?_mono {chain : List Template} {levels levels' : Nat} (hle : levels ≤ levels')
    {flat : List Node} (h : flatten? chain levels = some flat) :
    flatten? chain levels' = some flat := by
  induction hle with
  | refl => exact h
  | step _ ih => exact substituteNodes_mono (fun _ _ => expand_succ) ih

/-- A chain has one flattened template at most. -/
theorem Flattens.unique {chain : List Template} {flat flat' : List Node} (h : Flattens chain flat)
    (h' : Flattens chain flat') : flat = flat' := by
  obtain ⟨levels, hlevels⟩ := h
  obtain ⟨levels', hlevels'⟩ := h'
  have hmax := flatten?_mono (Nat.le_max_left levels levels') hlevels
  have hmax' := flatten?_mono (Nat.le_max_right levels levels') hlevels'
  exact Option.some.inj (hmax.symm.trans hmax')

end

end Templating
