import Templating.Proofs.Emission.Construction
import Templating.Proofs.Template.Inheritance

/-!
# Templates without tags

Literal text and output points refer to no other template, so loading a template of these needs
nothing else, and its program is the code of its nodes one after the other.
-/

namespace Templating

/-- The node is literal text or an output point. -/
def Node.IsTagless : Node → Prop
  | .tag .. => False
  | _ => True

variable {ns : List Node}

/-- Without tags there are no references. -/
theorem nodeReferences_of_tagless (registry : Registry) (name : String)
    (h : ∀ n ∈ ns, n.IsTagless) : nodeReferences registry name ns = [] := by
  induction ns with
  | nil => rw [nodeReferences]
  | cons n rest ih =>
    obtain ⟨hn, hrest⟩ := List.forall_mem_cons.mp h
    cases n with
    | tag name args body branches span => exact hn.elim
    | literal text span => rw [nodeReferences, ih hrest]
    | output subject filters span => rw [nodeReferences, ih hrest]

/-- Without tags everything holds of all tags. -/
theorem onTag_of_tagless (P : String → List TagArg → Prop) (h : ∀ n ∈ ns, n.IsTagless) :
    Node.Throughout (Node.OnTag P) ns := by
  apply Node.throughout_of_forall
  intro n hn
  cases n with
  | tag name args body branches span => exact (h _ hn).elim
  | literal text span => simp [Node.Throughout, Node.everywhere, Node.OnTag]
  | output subject filters span => simp [Node.Throughout, Node.everywhere, Node.OnTag]

namespace TemplateSet

variable {registry : Registry} {t : Template}

/-- Nothing else is loaded. -/
theorem load_of_tagless {controls : Controls} {provider : SourceProvider} {source : String}
    (hparse : Template.parse registry controls t.name source = .ok t)
    (h : ∀ n ∈ t.nodes, n.IsTagless) :
    load registry controls provider t.name source = .ok (single t) := by
  have hreferences : t.references registry = [] := nodeReferences_of_tagless registry t.name h
  rw [load, hparse]
  change follow registry controls provider _ loadBudget (t.references registry) [] [] = _
  rw [hreferences, follow]
  rfl

/-- What a template without tags is emitted in. -/
def taglessEnv (registry : Registry) (t : Template) : Emission.Surroundings where
  registry
  set := single t
  resolved := ⟨t.nodes.map fun n => (t.name, n), [(t.name, [])]⟩
  including := [t.name]

/-- The program is the code of the nodes. -/
theorem compile_of_tagless (autoescape : Bool) (entry : String) (h : ∀ n ∈ t.nodes, n.IsTagless)
    {code : Fragment} {u : EmissionState}
    (hcode : Emission.nodesOf (Emission.atDepth referenceBudget) (taglessEnv registry t)
      (t.nodes.map fun n => (t.name, n)) (Emission.entered {} t.name) = .ok (code, u)) :
    (single t).compile registry autoescape entry = .ok
      { name := entry, autoescape, files := u.files, filters := u.filters, tags := u.tags
        main := Code.ofFragment code, macros := u.macros } := by
  have hresolve := resolve_single (onTag_of_tagless _ h)
  have hroot : (single t).emitRoot registry (Emission.atDepth referenceBudget) {} =
      .ok (code, { u with file := 0 }) :=
    Emission.inFile_eq_ok.mpr ⟨u, Emission.bind_eq_ok.mpr
      ⟨_, _, Emission.lift_eq_ok.mpr ⟨hresolve, rfl⟩, hcode⟩, rfl⟩
  rw [compile, compileAt, compileThrough, hroot]
  rfl

end TemplateSet

end Templating
