import Templating.Engine.Basic

/-!
# Histories of an engine

An engine is changed by calls, one after the other. A history lists the calls made on a fresh
engine. Besides the engine it leaves behind, a history tells which compilations were kept in the
cache and the template name each of them was made under; the cache itself does not record names of
sources that are rendered without one.
-/

namespace Templating

/-- A call that may change an engine. -/
inductive EngineCall where
  | addTemplate (name source : String)
  | setLoader (loader : SourceProvider)
  | addFilter (name : String) (filter : Filter)
  | removeFilter (name : String)
  | addTag (name : String) (tag : CustomTag)
  | removeTag (name : String)
  | setDefaults (options : Options)
  | invalidateCache
  | render (source : String) (context : Data) (options : Options)
  | renderTemplate (name : String) (context : Data)

namespace Engine

/-- The engine after a call. Default options that are refused change nothing. -/
def after (e : Engine) : EngineCall → Engine
  | .addTemplate name source => e.addTemplate name source
  | .setLoader loader => e.setLoader loader
  | .addFilter name filter => e.addFilter name filter
  | .removeFilter name => e.removeFilter name
  | .addTag name tag => e.addTag name tag
  | .removeTag name => e.removeTag name
  | .setDefaults options =>
    match e.setDefaults options with
    | .ok changed => changed
    | .error _ => e
  | .invalidateCache => e.invalidateCache
  | .render source context options => (e.render source context options).2
  | .renderTemplate name context => (e.renderTemplate name context).2

/-- The engine after calls made one after the other. -/
def afterAll (e : Engine) (calls : List EngineCall) : Engine := calls.foldl after e

/-- The compilation that rendering a source under a name adds to the cache, if it adds one. -/
def newlyKept (e : Engine) (name source : String) (options : Options) :
    List (TemplateIdentity × String) :=
  if options.cache then
    match e.cache.get? (e.identity source options), e.compileAs name source options with
    | none, .ok _ => [(e.identity source options, name)]
    | _, _ => []
  else []

/-- The compilation that a call adds to the cache, if it adds one. -/
def keptBy (e : Engine) : EngineCall → List (TemplateIdentity × String)
  | .render source _ options => e.newlyKept anonymousName source options
  | .renderTemplate name _ =>
    match e.source name with
    | .ok source => e.newlyKept name source e.defaults
    | .error _ => []
  | _ => []

/-- The compilations that calls add to the cache, the latest first, each with the name it was made
under. -/
def keptByAll (e : Engine) : List EngineCall → List (TemplateIdentity × String)
  | [] => []
  | call :: rest => (e.after call).keptByAll rest ++ e.keptBy call

/-- Compile under a name what an identity describes, with the present registry and templates. -/
def compileIdentity (e : Engine) (name : String) (identity : TemplateIdentity) : Result Program :=
  e.compileAs name identity.source
    { autoescape := identity.autoescape, controls := identity.controls }

/-- A compilation depends on the options only through what its identity keeps of them. -/
theorem compileAs_eq_compileIdentity (e : Engine) (name source : String) (options : Options) :
    e.compileAs name source options = e.compileIdentity name (e.identity source options) := rfl

/-- A compilation depends on the engine only through its registry and its templates. -/
theorem compileIdentity_congr {e e' : Engine} (hregistry : e'.registry = e.registry)
    (htemplates : e'.templates = e.templates) (name : String) (identity : TemplateIdentity) :
    e'.compileIdentity name identity = e.compileIdentity name identity := by
  unfold compileIdentity compileAs
  rw [hregistry, htemplates]

/-- A run depends on the engine only through its registry. -/
theorem run_congr {e e' : Engine} (hregistry : e'.registry = e.registry) (program : Program)
    (context : Data) (options : Options) :
    e'.run program context options = e.run program context options := by
  unfold run prepare
  rw [hregistry]

/-- Compiling for rendering either is served from the cache, or compiles and leaves the cache as it
is, or compiles a program and keeps it. -/
theorem compileCached_cases (e : Engine) (name source : String) (options : Options)
    (isNamed : Bool) :
    (∃ program, options.cache = true ∧ e.cache.get? (e.identity source options) = some program ∧
      e.compileCached name source options isNamed = (.ok program, e) ∧
      e.newlyKept name source options = []) ∨
    ((options.cache = true → e.cache.get? (e.identity source options) = none) ∧
      e.compileCached name source options isNamed = (e.compileAs name source options, e) ∧
      e.newlyKept name source options = []) ∨
    (∃ program name?, options.cache = true ∧
      e.cache.get? (e.identity source options) = none ∧
      e.compileAs name source options = .ok program ∧
      e.compileCached name source options isNamed =
        (.ok program,
          { e with cache := e.cache.insert (e.identity source options) name? program }) ∧
      e.newlyKept name source options = [(e.identity source options, name)]) := by
  unfold compileCached newlyKept
  cases hcache : options.cache with
  | false => exact .inr (.inl ⟨by simp, by simp, by simp⟩)
  | true =>
    cases hget : e.cache.get? (e.identity source options) with
    | some program => exact .inl ⟨program, rfl, rfl, by simp [hget], by simp⟩
    | none =>
      cases hcompile : e.compileAs name source options with
      | error err => exact .inr (.inl ⟨by simp, by simp [hget], by simp⟩)
      | ok program =>
        refine .inr (.inr ⟨program, if isNamed then some name else none, ?_⟩)
        refine ⟨rfl, rfl, rfl, ?_, by simp⟩
        simp [hget]

end Engine

end Templating
