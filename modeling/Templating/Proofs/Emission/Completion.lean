import Templating.Proofs.Emission.Substitution
import Templating.Proofs.Emission.Templates
import Templating.Proofs.Template.Parsing

/-!
# Emission that succeeds

Where the code of a template is emitted, everything inside of it was emitted on the way. In
particular every block was followed to its definition, and the blocks there to theirs, so that none
of them leads back to itself and the blocks can be replaced by what they stand for.
-/

namespace Templating

/-- The tag, if the node is one, is no added one and fits its shape. -/
def Node.FitsBuiltin (registry : Registry) (n : Node) : Prop :=
  n.IsBuiltin registry ∧ n.FitsShape registry

namespace Emission

open Node (Throughout ThroughoutBranches)

variable {α β : Type}

/-- The action succeeds from some state. -/
def Succeeds (x : Emission α) : Prop := ∃ s p, x s = .ok p

/-- One action after the other succeeds only if both do. -/
theorem Succeeds.of_bind {x : Emission α} {f : α → Emission β} (h : Succeeds (x >>= f)) :
    Succeeds x ∧ ∃ a, Succeeds (f a) := by
  obtain ⟨s, ⟨b, t⟩, h⟩ := h
  obtain ⟨a, u, hx, hf⟩ := bind_eq_ok.mp h
  exact ⟨⟨s, _, hx⟩, a, u, _, hf⟩

/-- A fault is no success. -/
theorem not_succeeds_fail {fault : Fault} : ¬ Succeeds (fail fault : Emission α) :=
  fun ⟨_, _, h⟩ => fail_eq_ok.mp h

/-- Bad arguments are no success. -/
theorem not_succeeds_badArguments {name : String} : ¬ Succeeds (badArguments name) := by
  intro h
  obtain ⟨_, _, hfail⟩ := h.of_bind
  exact not_succeeds_fail hfail

/-- What succeeds with another current file succeeds. -/
theorem Succeeds.of_inFile {name : String} {x : Emission α} (h : Succeeds (inFile name x)) :
    Succeeds x := by
  obtain ⟨s, ⟨a, t⟩, h⟩ := h
  obtain ⟨u, hx, -⟩ := inFile_eq_ok.mp h
  exact ⟨_, _, hx⟩

/-- The code of a macro is emitted. -/
theorem Succeeds.of_macroCode {name : String} {params : List String} {x : Emission Fragment}
    (h : Succeeds (macroCode name params x)) : Succeeds x := by
  obtain ⟨s, ⟨id, t⟩, h⟩ := h
  obtain ⟨code, u, hx, -⟩ := macroCode_eq_ok.mp h
  exact ⟨_, _, hx⟩

section

variable {isFilter : String → Bool} {args : List TagArg} {body : Emission Fragment}

/-- The code in a loop is emitted, and that of its other branch. -/
theorem Succeeds.of_loop {other? : Option (Emission Fragment)}
    (h : Succeeds (loop isFilter args body other?)) :
    Succeeds body ∧ ∀ other ∈ other?, Succeeds other := by
  unfold loop at h
  split at h
  · obtain ⟨-, _, h⟩ := h.of_bind
    obtain ⟨-, _, h⟩ := h.of_bind
    obtain ⟨-, _, h⟩ := h.of_bind
    obtain ⟨-, _, h⟩ := h.of_bind
    obtain ⟨-, _, h⟩ := h.of_bind
    obtain ⟨hbody, _, h⟩ := h.of_bind
    obtain ⟨-, _, h⟩ := h.of_bind
    obtain ⟨-, _, h⟩ := h.of_bind
    refine ⟨hbody, fun other hother => ?_⟩
    obtain rfl := hother
    obtain ⟨-, _, h⟩ := h.of_bind
    obtain ⟨-, _, h⟩ := h.of_bind
    obtain ⟨-, _, h⟩ := h.of_bind
    exact h.of_bind.1
  · exact absurd h not_succeeds_badArguments

/-- The output that a filter is applied to is emitted. -/
theorem Succeeds.of_filtered (h : Succeeds (filtered isFilter args body)) : Succeeds body := by
  unfold filtered at h
  split at h
  · obtain ⟨-, _, h⟩ := h.of_bind
    exact h.of_bind.1
  · exact absurd h not_succeeds_badArguments

/-- The output that escaping is turned on or off for is emitted. -/
theorem Succeeds.of_escaping (h : Succeeds (escaping args body)) : Succeeds body := by
  unfold escaping at h
  split at h
  · obtain ⟨-, _, h⟩ := h.of_bind
    obtain ⟨-, _, h⟩ := h.of_bind
    exact h.of_bind.1
  · exact absurd h not_succeeds_badArguments

end

section

variable {E : Elsewhere} {env : Surroundings} {blocks : List (String × Nat)}
  {splice : String × Nat → Option (List Node)}

/-- The definitions of blocks that are emitted can be replaced. -/
def Elsewhere.Reaches (E : Elsewhere) (env : Surroundings)
    (splice : String × Nat → Option (List Node)) : Prop :=
  ∀ point blocks, Succeeds (blockLayer E { env with blocks } point.1 point.2) →
    ∃ flat, splice point = some flat

mutual

/-- The blocks of a node that is emitted can be replaced. -/
theorem substituteNode_of_succeeds (hkeeps : env.registry.KeepsInheritance)
    (hreach : E.Reaches env splice) : ∀ {n : Node}, Throughout (Node.FitsBuiltin env.registry) [n] →
      Succeeds (node E { env with blocks } n) →
        ∃ flat, substituteNode splice blocks.head? n = some flat
  | .literal text span, _, _ => ⟨_, rfl⟩
  | .output subject filters span, _, _ => ⟨_, rfl⟩
  | .tag name args body branches span, hn, h => by
    obtain ⟨⟨hbuiltin, hshape⟩, hbody, hbranches⟩ := Node.throughout_tag.mp hn
    obtain ⟨_, ⟨_, _⟩, h⟩ := h
    obtain ⟨tag, tags, htag, hcode⟩ := exists_tagCode h hbuiltin
    obtain ⟨hempty, hlabels⟩ := hshape _ htag
    cases hpoint : splicePoint? blocks.head? name args with
    | some point =>
      rw [substituteNode, hpoint]
      rcases splicePoint?_eq_some hpoint with ⟨rfl, hargs, hindex⟩ | ⟨rfl, index, hhead, hindex⟩
      · obtain rfl := Tag.builtin.inj (Option.some.inj (htag.symm.trans hkeeps.block))
        cases hcode with
        | block hblock hcode =>
          obtain rfl := Option.some.inj (hargs.symm.trans hblock)
          exact hreach point blocks ⟨_, _, hindex ▸ hcode⟩
      · obtain rfl := Tag.builtin.inj (Option.some.inj (htag.symm.trans hkeeps.parent))
        obtain ⟨rest, rfl⟩ := List.head?_eq_some_iff.mp hhead
        cases hcode with
        | parent hcode =>
          have hlayer : ∃ u p,
              blockLayer E { env with blocks := (point.1, index) :: rest } point.1 point.2 u =
                .ok p := ⟨_, _, by rwa [hindex]⟩
          exact hreach point _ hlayer
    | none =>
      -- a tag that is not replaced itself can be replaced if what is inside can
      have hinside : ∀ {body' branches'}, substituteNodes splice blocks.head? body = some body' →
          substituteBranches splice blocks.head? branches = some branches' →
            ∃ flat, substituteNode splice blocks.head? (.tag name args body branches span) =
              some flat := fun hbody' hbranches' =>
        ⟨_, (substituteNode_tag_eq_some hpoint).mpr ⟨_, _, hbody', hbranches', rfl⟩⟩
      have hnothing (hnone : tag.shape.hasBody = false) :
          ∃ flat, substituteNode splice blocks.head? (.tag name args body branches span) =
            some flat := by
        obtain ⟨rfl, rfl⟩ := hempty hnone
        exact hinside rfl rfl
      have hwhole (hnone : tag.shape.labels = [])
          (hbody' : Succeeds (nodes E { env with blocks } body)) :
          ∃ flat, substituteNode splice blocks.head? (.tag name args body branches span) =
            some flat := by
        obtain ⟨body', hbody'⟩ := substituteNodes_of_succeeds hkeeps hreach hbody hbody'
        obtain rfl : branches = [] := List.eq_nil_iff_forall_not_mem.mpr fun b hb =>
          absurd (hlabels b hb) (by simp [Tag.shape, hnone])
        exact hinside hbody' rfl
      cases hcode with
      | inherit => exact hnothing rfl
      | parent _ => exact hnothing rfl
      | assign _ => exact hnothing rfl
      | insert _ _ => exact hnothing rfl
      | importMacros _ _ _ => exact hnothing rfl
      | block hblock _ =>
        -- a block that is not replaced names no block
        obtain rfl : "block" = name := hkeeps.name htag
        simp [splicePoint?, hblock] at hpoint
      | cond _ _ _ hyes hrest =>
        obtain ⟨_, hbody'⟩ := substituteNodes_of_succeeds hkeeps hreach hbody ⟨_, _, hyes⟩
        obtain ⟨_, hbranches'⟩ :=
          substituteBranches_of_succeeds hkeeps hreach hbranches ⟨_, _, hrest⟩
        exact hinside hbody' hbranches'
      | loop hnone hcode =>
        subst hnone
        obtain ⟨hcode, -⟩ := Succeeds.of_loop ⟨_, _, hcode⟩
        obtain ⟨_, hbody'⟩ := substituteNodes_of_succeeds hkeeps hreach hbody hcode
        exact hinside hbody' rfl
      | @loopOrElse _ _ _ other hone hcode =>
        obtain ⟨hcode, hother⟩ := Succeeds.of_loop ⟨_, _, hcode⟩
        obtain ⟨_, hbody'⟩ := substituteNodes_of_succeeds hkeeps hreach hbody hcode
        obtain ⟨_, hother'⟩ := substituteBranch_of_succeeds hkeeps hreach hbranches
          (b := other) (by simp [hone]) (hother _ rfl)
        obtain ⟨label, args, other, place⟩ := other
        subst hone
        exact hinside hbody' (substituteBranches_cons_eq_some.mpr ⟨_, _, hother', rfl, rfl⟩)
      | defineMacro _ hid _ _ => exact hwhole rfl (Succeeds.of_macroCode ⟨_, _, hid⟩)
      | filter hcode => exact hwhole rfl (Succeeds.of_filtered ⟨_, _, hcode⟩)
      | escaping hcode => exact hwhole rfl (Succeeds.of_escaping ⟨_, _, hcode⟩)

/-- The blocks of nodes that are emitted can be replaced. -/
theorem substituteNodes_of_succeeds (hkeeps : env.registry.KeepsInheritance)
    (hreach : E.Reaches env splice) : ∀ {ns : List Node},
      Throughout (Node.FitsBuiltin env.registry) ns → Succeeds (nodes E { env with blocks } ns) →
        ∃ flat, substituteNodes splice blocks.head? ns = some flat
  | [], _, _ => ⟨[], rfl⟩
  | n :: rest, hns, h => by
    obtain ⟨hn, hrest⟩ := Node.throughout_cons.mp hns
    rw [nodes] at h
    obtain ⟨hfirst, _, h⟩ := h.of_bind
    obtain ⟨first, hfirst⟩ := substituteNode_of_succeeds hkeeps hreach hn hfirst
    obtain ⟨more, hmore⟩ := substituteNodes_of_succeeds hkeeps hreach hrest h.of_bind.1
    exact ⟨_, substituteNodes_cons_eq_some.mpr ⟨first, more, hfirst, hmore, rfl⟩⟩

/-- The blocks of branches that are emitted can be replaced. -/
theorem substituteBranches_of_succeeds (hkeeps : env.registry.KeepsInheritance)
    (hreach : E.Reaches env splice) : ∀ {branches : List Branch},
      ThroughoutBranches (Node.FitsBuiltin env.registry) branches →
        Succeeds (alternatives E { env with blocks } branches) →
          ∃ flat, substituteBranches splice blocks.head? branches = some flat
  | [], _, _ => ⟨[], rfl⟩
  | .mk label args body span :: rest, hbranches, h => by
    obtain ⟨hbody, hrest⟩ := Node.throughoutBranches_cons.mp hbranches
    rw [alternatives] at h
    obtain ⟨-, _, h⟩ := h.of_bind
    obtain ⟨-, _, h⟩ := h.of_bind
    obtain ⟨-, _, h⟩ := h.of_bind
    have hcode : Succeeds (nodes E { env with blocks } body) ∧
        Succeeds (alternatives E { env with blocks } rest) := by
      split at h
      · obtain ⟨-, _, h⟩ := h.of_bind
        obtain ⟨-, _, h⟩ := h.of_bind
        obtain ⟨hcode, _, h⟩ := h.of_bind
        exact ⟨hcode, h.of_bind.1⟩
      · obtain ⟨hcode, _, h⟩ := h.of_bind
        exact ⟨hcode, h.of_bind.1⟩
    obtain ⟨body', hbody'⟩ := substituteNodes_of_succeeds hkeeps hreach hbody hcode.1
    obtain ⟨more, hmore⟩ := substituteBranches_of_succeeds hkeeps hreach hrest hcode.2
    exact ⟨_, substituteBranches_cons_eq_some.mpr ⟨body', more, hbody', hmore, rfl⟩⟩

/-- The blocks of one branch that is emitted can be replaced. -/
theorem substituteBranch_of_succeeds (hkeeps : env.registry.KeepsInheritance)
    (hreach : E.Reaches env splice) : ∀ {branches : List Branch} {index : Nat} {b : Branch},
      ThroughoutBranches (Node.FitsBuiltin env.registry) branches → branches[index]? = some b →
        Succeeds (branchAt E { env with blocks } branches index) →
          ∃ flat, substituteNodes splice blocks.head? b.body = some flat
  | [], index, b, _, hb, _ => by simp at hb
  | .mk label args body span :: rest, 0, b, hbranches, hb, h => by
    obtain rfl : .mk label args body span = b := Option.some.inj hb
    rw [branchAt] at h
    exact substituteNodes_of_succeeds hkeeps hreach (Node.throughoutBranches_cons.mp hbranches).1 h
  | .mk label args body span :: rest, index + 1, b, hbranches, hb, h => by
    rw [branchAt] at h
    exact substituteBranch_of_succeeds hkeeps hreach
      (Node.throughoutBranches_cons.mp hbranches).2 hb h

end

/-- Whatever the depth, definitions of blocks that are emitted within it can be replaced within
it. -/
theorem atDepth_reaches (hkeeps : env.registry.KeepsInheritance) {chain : List Template}
    (hlayers : ∀ block, (env.resolved.layers block).map BlockLayer.body = definitions chain block)
    (hfits : ∀ block, ∀ body ∈ definitions chain block,
      Throughout (Node.FitsBuiltin env.registry) body) (depth : Nat) :
    (atDepth depth).Reaches env (expand chain (depth + 1)) := by
  induction depth with
  | zero =>
    intro point blocks h
    rw [expand, ← hlayers, List.getElem?_map]
    unfold blockLayer at h
    cases hlayer : (env.resolved.layers point.1)[point.2]? with
    | none => exact ⟨[], rfl⟩
    | some layer =>
      simp only [hlayer] at h
      exact absurd h.of_inFile not_succeeds_fail
  | succ depth ih =>
    intro point blocks h
    unfold blockLayer at h
    have hbody : (definitions chain point.1)[point.2]? =
        ((env.resolved.layers point.1)[point.2]?).map BlockLayer.body := by
      rw [← hlayers, List.getElem?_map]
    rw [expand, hbody]
    cases hlayer : (env.resolved.layers point.1)[point.2]? with
    | none => exact ⟨[], rfl⟩
    | some layer =>
      rw [hlayer, Option.map_some] at hbody
      simp only [hlayer] at h
      have h : Succeeds (nodes (atDepth depth) { env with blocks := point :: blocks } layer.body) :=
        h.of_inFile
      exact substituteNodes_of_succeeds hkeeps ih (hfits _ _ (List.mem_of_getElem? hbody)) h

/-- The blocks of nodes from several templates that are emitted can be replaced. -/
theorem substituteNodes_of_nodesOf (hkeeps : env.registry.KeepsInheritance)
    (hblocks : env.blocks = []) {splice : Nat → String × Nat → Option (List Node)}
    (hreach : ∀ depth, (atDepth depth).Reaches env (splice (depth + 1))) {depth : Nat}
    {rows : List (String × Node)}
    (hrows : ∀ row ∈ rows, Throughout (Node.FitsBuiltin env.registry) [row.2])
    (h : Succeeds (nodesOf (atDepth depth) env rows)) :
    ∃ flat, substituteNodes (splice depth) none (rows.map Prod.snd) = some flat := by
  have hsame : { env with blocks := [] } = env := by rw [← hblocks]
  induction rows with
  | nil => exact ⟨[], rfl⟩
  | cons row rest ih =>
    obtain ⟨hrow, hrest⟩ := List.forall_mem_cons.mp hrows
    rw [nodesOf] at h
    obtain ⟨hfirst, _, h⟩ := h.of_bind
    obtain ⟨more, hmore⟩ := ih hrest h.of_bind.1
    cases depth with
    | zero => exact absurd hfirst.of_inFile not_succeeds_fail
    | succ depth =>
      have hone : Succeeds (nodes (atDepth depth) { env with blocks := [] } [row.2]) := by
        rw [hsame]
        exact hfirst.of_inFile
      obtain ⟨_, hone⟩ := substituteNodes_of_succeeds hkeeps (hreach depth) hrow hone
      obtain ⟨first, _, hfirst, -, -⟩ := substituteNodes_cons_eq_some.mp hone
      exact ⟨_, substituteNodes_cons_eq_some.mpr ⟨first, more, hfirst, hmore, rfl⟩⟩

end

end Emission

end Templating
