import Templating.Proofs.Emission.Completion
import Templating.Proofs.Program.Splicing

/-!
# Compilation of a chain and of its flattened template

A chain of templates that neither includes nor imports others compiles to the same instructions, the
same macros and the same filters as the one template in which all blocks and parents are replaced.
Files and lines differ: the code of the flattened template all comes from one file.

Blocks that are never compiled need not have an end. A chain of built-in tags has none of those, so
that it has a flattened template whenever it compiles.
-/

namespace Templating

open Node (Throughout OnTag)
open Emission (Yields Succeeds StayInChain atDepth)
open Fragment (SameCode)

/-- The programs have the same instructions, macros and filters, apart from where the code comes
from. -/
structure Program.SameCode (p q : Program) : Prop where
  main : p.main.instructions = q.main.instructions
  macros : p.macros.map MacroDecl.unplaced = q.macros.map MacroDecl.unplaced
  filters : p.filters = q.filters

namespace TemplateSet

variable {registry : Registry} {s : TemplateSet} {chain : List Template}

/-- No template of the chain includes another one or imports macros. -/
def StandsAlone (chain : List Template) : Prop :=
  ∀ t ∈ chain, Throughout (OnTag fun name _ => name ≠ "include" ∧ name ≠ "import") t.nodes

instance : Decidable (StandsAlone chain) :=
  inferInstanceAs (Decidable (∀ t ∈ chain, Throughout (OnTag _) t.nodes))

/-- Tags of other names neither include nor import. -/
theorem stayInChain_of_names (hkeeps : registry.KeepsInheritance) {ns : List Node}
    (h : Throughout (OnTag fun name _ => name ≠ "include" ∧ name ≠ "import") ns) :
    StayInChain registry ns := by
  refine h.mono fun n hn => ?_
  cases n with
  | literal text span => trivial
  | output subject filters span => trivial
  | tag name args body branches span =>
    exact ⟨fun htag => hn.1 (hkeeps.name htag).symm, fun htag => hn.2 (hkeeps.name htag).symm⟩

/-- Tags that extend templates and fit their shapes have nothing inside. -/
theorem hasPlainExtends_of_fitsShape (hkeeps : registry.KeepsInheritance) {n : Node}
    (h : n.FitsShape registry) : n.HasPlainExtends := by
  cases n with
  | literal text span => trivial
  | output subject filters span => trivial
  | tag name args body branches span =>
    exact fun hname => (h _ (hname ▸ hkeeps.inherit)).1 rfl

section

variable (hkeeps : registry.KeepsInheritance) (h : s.chain s.root = .ok chain)
  (hshape : ∀ t ∈ chain, Throughout (Node.FitsShape registry) t.nodes)
  (halone : StandsAlone chain)

include hkeeps h hshape halone

/-- What is emitted for a chain is emitted for its flattened template. -/
theorem emitRoot_yields_flattened {flat : List Node} (hflat : Flattens chain flat)
    (depth depth' : Nat) (file : String) :
    Yields SameCode (s.emitRoot registry (atDepth depth))
      ((single ⟨file, flat⟩).emitRoot registry (atDepth (depth' + 1))) := by
  have hplain : ∀ t ∈ chain, ∀ n ∈ t.nodes, n.HasPlainExtends := fun t ht n hn =>
    hasPlainExtends_of_fitsShape hkeeps ((hshape t ht).apply hn)
  have hwhole := throughout_flatten h hplain halone hflat
  have hresolve := resolve_single (t := ⟨file, flat⟩)
    (hwhole.onTag_mono fun _ _ htag => ⟨htag.1.2, htag.2⟩)
  refine .inFile_left (.lift_left fun resolved hr => .inFile_right (.lift_right hresolve ?_))
  obtain ⟨hbody, hlayers⟩ := resolve_of_chain h hr fun t ht =>
    (halone t ht).onTag_mono fun _ _ => And.right
  obtain ⟨levels, hlevels⟩ := hflat
  rw [flatten?, ← hbody] at hlevels
  have hlocal : (s.rootSurroundings registry resolved).StaysInChain := by
    intro block layer hlayer
    have hbody : layer.body ∈ definitions chain block :=
      hlayers block ▸ List.mem_map_of_mem hlayer
    exact stayInChain_of_names hkeeps
      ((throughout_definitions h hplain halone hbody).onTag_mono fun _ _ => And.left)
  have hrows : ∀ row ∈ resolved.body, StayInChain registry [row.2] := by
    intro row hrow
    obtain ⟨t, ht, hn⟩ := mem_unfoldedNodes h (hbody ▸ List.mem_map_of_mem hrow)
    exact (stayInChain_of_names hkeeps (halone t ht)).of_mem (List.mem_filter.mp hn).1
  have hstay : StayInChain registry flat :=
    stayInChain_of_names hkeeps (hwhole.onTag_mono fun _ _ htag => htag.1.1)
  have hsingle (r : Resolved) : Yields SameCode
      (Emission.nodes (atDepth depth') ((single ⟨file, flat⟩).rootSurroundings registry r) flat)
      (Emission.nodesOf (atDepth (depth' + 1)) ((single ⟨file, flat⟩).rootSurroundings registry r)
        (flat.map fun n => (file, n))) :=
    Emission.nodes_yields_nodesOf hkeeps rfl hstay (hwhole.onTag_mono fun _ _ => And.right)
  have hchained (r : Resolved) : Yields SameCode
      (Emission.nodesOf (atDepth depth) (s.rootSurroundings registry resolved) resolved.body)
      (Emission.nodes (atDepth depth') ((single ⟨file, flat⟩).rootSurroundings registry r) flat) :=
    Emission.nodesOf_yields hkeeps (by rfl)
      (Emission.expand_yieldsTo hkeeps (by rfl) hlocal hlayers levels) rfl hrows hlevels
  exact (hchained _).trans (hsingle _)

/-- A chain of built-in tags that compiles has a flattened template. -/
theorem exists_flattens (hbuiltin : ∀ t ∈ chain, Throughout (Node.IsBuiltin registry) t.nodes)
    {depth : Nat} (hroot : Succeeds (s.emitRoot registry (atDepth depth))) :
    ∃ flat, Flattens chain flat := by
  have hfits : ∀ t ∈ chain, Throughout (Node.FitsBuiltin registry) t.nodes := fun t ht n hn =>
    ⟨hbuiltin t ht n hn, hshape t ht n hn⟩
  obtain ⟨u, ⟨code, v⟩, hcode⟩ := hroot.of_inFile
  obtain ⟨resolved, w, hlift, hcode⟩ := Emission.bind_eq_ok.mp hcode
  obtain ⟨hr, rfl⟩ := Emission.lift_eq_ok.mp hlift
  obtain ⟨hbody, hlayers⟩ := resolve_of_chain h hr fun t ht =>
    (halone t ht).onTag_mono fun _ _ => And.right
  have hdefinitions : ∀ block, ∀ body ∈ definitions chain block,
      Throughout (Node.FitsBuiltin registry) body := by
    intro block body hbody
    obtain ⟨t, ht, hd⟩ := List.mem_filterMap.mp hbody
    obtain ⟨d, hfind, rfl⟩ := Option.map_eq_some_iff.mp hd
    exact (hfits t ht).blockDefs d (List.mem_of_find?_eq_some hfind)
  have hrows : ∀ row ∈ resolved.body, Throughout (Node.FitsBuiltin registry) [row.2] := by
    intro row hrow
    obtain ⟨t, ht, hn⟩ := mem_unfoldedNodes h (hbody ▸ List.mem_map_of_mem hrow)
    exact (hfits t ht).of_mem (List.mem_filter.mp hn).1
  have hreach (depth : Nat) :
      (atDepth depth).Reaches (s.rootSurroundings registry resolved) (expand chain (depth + 1)) :=
    Emission.atDepth_reaches hkeeps hlayers hdefinitions depth
  obtain ⟨flat, hflat⟩ := Emission.substituteNodes_of_nodesOf hkeeps rfl hreach hrows ⟨_, _, hcode⟩
  rw [hbody] at hflat
  exact ⟨flat, depth, hflat⟩

end

/-- A chain of templates that were loaded, of which none includes or imports another one, compiles
to the same instructions, macros and filters as its flattened template, within any number of levels.
If all its tags are built-in ones there is a flattened template; there is one at most in any
case. -/
theorem compileAt_flattened {controls : Controls} {provider : SourceProvider}
    {file source name : String} {autoescape : Bool} {depth : Nat} {p : Program}
    (hkeeps : registry.KeepsInheritance)
    (hload : load registry controls provider file source = .ok s)
    (hchain : s.chain s.root = .ok chain) (halone : StandsAlone chain)
    (hp : s.compileAt registry autoescape name depth = .ok p) :
    ((∀ t ∈ chain, Throughout (Node.IsBuiltin registry) t.nodes) → ∃ flat, Flattens chain flat) ∧
      ∀ flat, Flattens chain flat → ∀ root : String, ∀ depth' > 0, ∃ q,
        (single ⟨root, flat⟩).compileAt registry autoescape name depth' = .ok q ∧ p.SameCode q := by
  have hshape : ∀ t ∈ chain, Throughout (Node.FitsShape registry) t.nodes := fun t ht =>
    fitsShape_of_load hload t (mem_of_mem_chainFrom hchain (by simp [templates]) t ht)
  obtain ⟨⟨code, state⟩, hcode, hp⟩ := Result.bind_eq_ok.mp hp
  obtain rfl := Except.ok.inj hp
  refine ⟨fun hbuiltin => exists_flattens hkeeps hchain hshape halone hbuiltin ⟨_, _, hcode⟩,
    fun flat hflat root depth' hdepth => ?_⟩
  obtain ⟨depth', rfl⟩ := Nat.exists_eq_succ_of_ne_zero (Nat.ne_of_gt hdepth)
  obtain ⟨code', state', hcode', hsame, halike⟩ :=
    emitRoot_yields_flattened hkeeps hchain hshape halone hflat depth depth' root
      ⟨rfl, rfl, rfl⟩ hcode
  exact ⟨_, Result.bind_eq_ok.mpr ⟨_, hcode', rfl⟩, hsame.ofFragment, halike.macros, halike.filters⟩

/-- The sources of three templates in a chain: both derived ones go on with the parent of a block,
and the last one assigns a variable. -/
def layeredSource : String → Option String
  | "leaf" => some ("\x7b% extends \"mid\" %\x7d\x7b% set x = 1 %\x7d" ++
      "\x7b% block b %\x7dL\x7b\x7b x \x7d\x7d\x7b% parent %\x7d\x7b% endblock %\x7d")
  | "mid" => some ("\x7b% extends \"base\" %\x7d" ++
      "\x7b% block b %\x7dM\x7b% parent %\x7d\x7b% endblock %\x7d")
  | "base" => some "[\x7b% block b %\x7dB\x7b% endblock %\x7d]"
  | _ => none

/-- The set of the three templates. -/
def layered : Result TemplateSet :=
  load .initial {} (fun name => .ok (layeredSource name)) "leaf" ((layeredSource "leaf").getD "")

/-- The three templates from the last one to the base. -/
def layeredChain : List Template :=
  ((do let s ← layered; s.chain s.root) : Result _).toOption.getD []

set_option maxRecDepth 100000 in
/-- A chain of three templates compiles to the code of its flattened template. -/
theorem compileAt_flattened_layered :
    ∃ s p flat q, layered = .ok s ∧ s.chain s.root = .ok layeredChain ∧ layeredChain.length = 3 ∧
      s.compile .initial true "leaf" = .ok p ∧ Flattens layeredChain flat ∧
        (single ⟨"flat", flat⟩).compile .initial true "leaf" = .ok q ∧ p.SameCode q := by
  -- all that has to be computed is computed at once
  let steps : Result (TemplateSet × List Template × Program) := do
    let s ← layered
    let chain ← s.chain s.root
    let p ← s.compile .initial true "leaf"
    if StandsAlone chain ∧ chain.length = 3 then return (s, chain, p) else fail .nestedTooDeep
  have hsteps : steps = .ok _ := Result.eq_ok_of_isOk (by decide +kernel)
  obtain ⟨s, hload, hsteps⟩ := Result.bind_eq_ok.mp hsteps
  obtain ⟨chain, hchain, hsteps⟩ := Result.bind_eq_ok.mp hsteps
  obtain ⟨p, hp, hsteps⟩ := Result.bind_eq_ok.mp hsteps
  obtain rfl : layeredChain = chain := by
    simp [layeredChain, hload, bind, Except.bind, hchain, Except.toOption]
  obtain ⟨halone, hlength⟩ : StandsAlone layeredChain ∧ layeredChain.length = 3 := by
    by_contra hnot
    rw [if_neg hnot] at hsteps
    cases hsteps
  have hbuiltin : ∀ t ∈ layeredChain, Throughout (Node.IsBuiltin .initial) t.nodes :=
    fun _ _ n _ => n.isBuiltin_initial
  obtain ⟨hexists, hsame⟩ :=
    compileAt_flattened Registry.keepsInheritance_initial hload hchain halone hp
  obtain ⟨flat, hflat⟩ := hexists hbuiltin
  obtain ⟨q, hq, hpq⟩ := hsame flat hflat "flat" referenceBudget (by decide)
  exact ⟨s, p, flat, q, hload, hchain, hlength, hp, hflat, hq, hpq⟩

end TemplateSet

end Templating
