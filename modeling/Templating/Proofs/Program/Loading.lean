import Templating.Proofs.Emission.Supplied

/-!
# Loaded sets are complete

Loading follows all references of a template and of those it loads on the way. What it ends with is
complete: inheritance and emission, which look templates up later, find what they look for. And if
a template is missing, loading finds out, unless nothing but optional references ask for it.
-/

namespace Templating

namespace TemplateSet

/-- What loading a template guarantees. The record of loading tells which references were followed
and which names the provider was asked for. -/
structure LoadsClosed (registry : Registry) (controls : Controls) (provider : SourceProvider)
    (name source : String) : Prop where
  outcome : (loadCourse registry controls provider name source).outcome =
    load registry controls provider name source
  /-- Nothing but the answers of the provider to the names it was asked for matters. -/
  asked : ∀ provider' : SourceProvider,
    (∀ asked ∈ (loadCourse registry controls provider name source).asked,
      provider' asked = provider asked) →
    loadCourse registry controls provider' name source =
      loadCourse registry controls provider name source
  once : (loadCourse registry controls provider name source).asked.Nodup
  notRoot : name ∉ (loadCourse registry controls provider name source).asked
  closed : ∀ s, load registry controls provider name source = .ok s → s.Closed registry
  resolve : ∀ s, load registry controls provider name source = .ok s →
    ∀ t ∈ s.templates, (s.resolve t).FailsOnly (· ≠ .templateLoad)
  compile : ∀ s, load registry controls provider name source = .ok s →
    ∀ autoescape program, (s.compile registry autoescape program).FailsOnly (· ≠ .templateLoad)
  missing : ∀ missing, missing ≠ name → provider missing = .ok none →
    ((loadCourse registry controls provider name source).ReportsMissing missing ↔
      ∃ r ∈ (loadCourse registry controls provider name source).followed,
        r.dependency.name = missing ∧ r.dependency.isOptional = false)

variable {registry : Registry} (controls : Controls) (provider : SourceProvider)
  (name source : String)

/-- Loading closes the set, whatever the template and the provider are, as long as the tag that
extends templates is the built-in one and added tags do not report missing templates themselves. -/
theorem load_closes (hinherit : registry.tag? "extends" = some (.builtin .inherit))
    (hplans : ∀ ⦃name : String⦄ ⦃tag : CustomTag⦄, registry.tag? name = some (.custom tag) →
      ∀ use, (tag.plan use).FailsOnly (· ≠ .templateLoad)) :
    LoadsClosed registry controls provider name source where
  outcome := outcome_loadCourse name source
  asked := by
    intro provider' hsame
    unfold loadCourse at hsame ⊢
    cases hparse : Template.parse registry controls name source with
    | error e => rfl
    | ok root =>
      rw [hparse] at hsame
      exact course_congr hsame
  once := by
    unfold loadCourse
    cases Template.parse registry controls name source with
    | error e => exact List.nodup_nil
    | ok root => exact asked_course.1
  notRoot := by
    unfold loadCourse
    cases hparse : Template.parse registry controls name source with
    | error e => exact List.not_mem_nil
    | ok root =>
      intro hasked
      have hnew := asked_course.2 name hasked
      simp [Holdings.asks, name_of_parse hparse] at hnew
  closed s hload := closed_of_load hload
  resolve s hload t ht := (closed_of_load hload).failsOnly_resolve hinherit (fun _ => id) ht
  compile s hload := (closed_of_load hload).failsOnly_compile hinherit hplans
  missing := by
    intro missing hname hunknown
    unfold loadCourse
    cases hparse : Template.parse registry controls name source with
    | error e => simp [Course.ReportsMissing]
    | ok root =>
      have hroot : missing ≠ root.name := by rwa [name_of_parse hparse]
      exact reportsMissing_course hunknown hroot fun t ht => absurd ht List.not_mem_nil

/-- The templates of the example below. -/
def shelf : SourceProvider := fun name =>
  .ok <|
    if name = "base" then
      some "\x7b% block b %\x7d\x7b% include \"gone\" ignore missing %\x7d\x7b% endblock %\x7d"
    else if name = "macros" then some "\x7b% macro m() %\x7d\x7b% endmacro %\x7d"
    else none

set_option maxRecDepth 100000 in
/-- A page that extends one template and imports another, with an optional third one that is
missing. -/
theorem load_closes_shelf :
    Registry.initial.tag? "extends" = some (.builtin .inherit) ∧
      (load .initial {} shelf "page"
        "\x7b% extends \"base\" %\x7d\x7b% import \"macros\" as m %\x7d").isOk = true ∧
      LoadsClosed .initial {} shelf "page"
        "\x7b% extends \"base\" %\x7d\x7b% import \"macros\" as m %\x7d" :=
  ⟨rfl, by decide +kernel, load_closes _ _ _ _ rfl fun _ _ htag => by
    obtain ⟨_, hbuiltin, -⟩ := Registry.tag?_initial htag
    cases hbuiltin⟩

end TemplateSet

end Templating
