import Templating.Proofs.Engine.History

/-!
# Renders served from the cache

The cache knows a compilation by its source, by the options that matter to the compiler and by the
numbers of changes to the registry and the templates. Along every history each program that can
still be served is what its source compiles to at present, but under the template name of the call
that kept it. That name decides where the errors of a run are placed, which references close a
circle and what filters are told, so a render served under another name may differ from one that
compiles anew. It agrees with it whenever the names agree.
-/

namespace Templating

namespace ProgramCache

/-- Dropping one identity hides it and no other. -/
theorem find?_erase (entries : List (TemplateIdentity × Program))
    (dropped other : TemplateIdentity) :
    (erase entries dropped).find? (fun entry => entry.1 == other) =
      if other = dropped then none else entries.find? fun entry => entry.1 == other := by
  rw [erase, List.find?_filter]
  split
  · rename_i heq
    subst heq
    simp
  · rename_i hne
    congr 1
    funext entry
    by_cases h : entry.1 = other
    · simp [h, hne]
    · simp [h]

/-- A program found after another one was kept is that one, or was found under its identity
before. -/
theorem get?_insert_cases (c : ProgramCache) (identity other : TemplateIdentity)
    (name? : Option String) (program found : Program)
    (h : (c.insert identity name? program).get? other = some found) :
    (other = identity ∧ found = program) ∨ (other ≠ identity ∧ c.get? other = some found) := by
  by_cases heq : other = identity
  · subst heq
    cases name? <;> simp_all [insert, get?]
  · have hne : identity ≠ other := fun h => heq h.symm
    refine .inr ⟨heq, ?_⟩
    cases name? with
    | none => simpa [insert, get?, hne, find?_erase, heq] using h
    | some name =>
      cases hold : c.identityOf? name with
      | none => simpa [insert, get?, hne, find?_erase, heq, hold] using h
      | some old =>
        by_cases hdropped : other = old
        · subst hdropped
          simp [insert, get?, hne, find?_erase, hold] at h
        · simpa [insert, get?, hne, find?_erase, heq, hdropped, hold] using h

end ProgramCache

namespace Engine

/-- A program is what its identity compiles to under the name noted for it, unless the registry or
the templates have changed since it was kept. -/
structure Vouched (e : Engine) (kept : List (TemplateIdentity × String))
    (identity : TemplateIdentity) (program : Program) : Prop where
  registry_le : identity.registryGeneration ≤ e.registry.generation
  templates_le : identity.storeGeneration ≤ e.templates.generation
  compiled : identity.registryGeneration = e.registry.generation →
    identity.storeGeneration = e.templates.generation →
    ∃ name, kept.lookup identity = some name ∧ e.compileIdentity name identity = .ok program

/-- Every program of the cache is vouched for. -/
def CacheVouched (e : Engine) (kept : List (TemplateIdentity × String)) : Prop :=
  ∀ identity program, e.cache.get? identity = some program → e.Vouched kept identity program

/-- Changes of the registry and the templates leave the cache vouched for, since they are
counted. -/
theorem CacheVouched.of_changed {e e' : Engine} {kept : List (TemplateIdentity × String)}
    (h : e.CacheVouched kept) (hcache : e'.cache = e.cache)
    (hregistry : e'.registry = e.registry ∨ e.registry.generation < e'.registry.generation)
    (htemplates : e'.templates = e.templates ∨ e.templates.generation < e'.templates.generation) :
    e'.CacheVouched kept := by
  intro identity program hget
  rw [hcache] at hget
  obtain ⟨hregistry_le, htemplates_le, hcompiled⟩ := h identity program hget
  rcases hregistry with hregistry | hregistry
  · rcases htemplates with htemplates | htemplates
    · refine ⟨hregistry ▸ hregistry_le, htemplates ▸ htemplates_le, ?_⟩
      intro hr ht
      rw [hregistry] at hr
      rw [htemplates] at ht
      obtain ⟨name, hname, hprogram⟩ := hcompiled hr ht
      exact ⟨name, hname, by rw [compileIdentity_congr hregistry htemplates, hprogram]⟩
    · exact ⟨hregistry ▸ hregistry_le, by omega, fun _ ht => by omega⟩
  · refine ⟨by omega, ?_, fun hr _ => by omega⟩
    rcases htemplates with htemplates | htemplates
    · exact htemplates ▸ htemplates_le
    · omega

/-- Compiling for rendering changes nothing but the cache. -/
theorem compileCached_unchanged (e : Engine) (name source : String) (options : Options)
    (isNamed : Bool) :
    (e.compileCached name source options isNamed).2.registry = e.registry ∧
      (e.compileCached name source options isNamed).2.templates = e.templates ∧
      (e.compileCached name source options isNamed).2.defaults = e.defaults := by
  rcases e.compileCached_cases name source options isNamed with
    ⟨_, _, _, h, _⟩ | ⟨_, h, _⟩ | ⟨_, _, _, _, _, h, _⟩ <;> rw [h] <;> exact ⟨rfl, rfl, rfl⟩

/-- Compiling for rendering keeps the cache vouched for. -/
theorem CacheVouched.compileCached {e : Engine} {kept : List (TemplateIdentity × String)}
    (h : e.CacheVouched kept) (name source : String) (options : Options) (isNamed : Bool) :
    (e.compileCached name source options isNamed).2.CacheVouched
      (e.newlyKept name source options ++ kept) := by
  rcases e.compileCached_cases name source options isNamed with
    ⟨_, _, _, hcompile, hkept⟩ | ⟨_, hcompile, hkept⟩ | ⟨program, name?, _, _, hok, hcompile, hkept⟩
  · rw [hcompile, hkept]
    exact h
  · rw [hcompile, hkept]
    exact h
  · rw [hcompile, hkept]
    intro identity found hget
    rcases ProgramCache.get?_insert_cases _ _ _ _ _ _ hget with ⟨rfl, rfl⟩ | ⟨hne, hold⟩
    · refine ⟨Nat.le_refl _, Nat.le_refl _, fun _ _ => ⟨name, by simp, ?_⟩⟩
      exact (compileIdentity_congr (e := e) rfl rfl name _).trans hok
    · obtain ⟨hregistry_le, htemplates_le, hcompiled⟩ := h identity found hold
      refine ⟨hregistry_le, htemplates_le, fun hr ht => ?_⟩
      obtain ⟨other, hother, hprogram⟩ := hcompiled hr ht
      refine ⟨other, ?_, (compileIdentity_congr (e := e) rfl rfl other _).trans hprogram⟩
      have hbeq : (identity == e.identity source options) = false := by simpa using hne
      simpa [List.lookup_cons, hbeq] using hother

/-- Every call keeps the cache vouched for. -/
theorem CacheVouched.after {e : Engine} {kept : List (TemplateIdentity × String)}
    (h : e.CacheVouched kept) (call : EngineCall) :
    (e.after call).CacheVouched (e.keptBy call ++ kept) := by
  cases call with
  | addTemplate name source => exact h.of_changed rfl (.inl rfl) (.inr (Nat.lt_succ_self _))
  | setLoader loader => exact h.of_changed rfl (.inl rfl) (.inr (Nat.lt_succ_self _))
  | addFilter name filter => exact h.of_changed rfl (.inr (Nat.lt_succ_self _)) (.inl rfl)
  | removeFilter name => exact h.of_changed rfl (.inr (Nat.lt_succ_self _)) (.inl rfl)
  | addTag name tag => exact h.of_changed rfl (.inr (Nat.lt_succ_self _)) (.inl rfl)
  | removeTag name => exact h.of_changed rfl (.inr (Nat.lt_succ_self _)) (.inl rfl)
  | setDefaults options =>
    cases hset : e.setDefaults options with
    | error err => simpa [Engine.after, hset, keptBy] using h
    | ok changed =>
      have hchanged : changed = { e with defaults := options } := by
        unfold setDefaults at hset
        cases hcheck : options.check <;> simp_all
      have hnew : ({ e with defaults := options } : Engine).CacheVouched kept :=
        h.of_changed rfl (.inl rfl) (.inl rfl)
      simpa [Engine.after, hset, keptBy, hchanged] using hnew
  | invalidateCache =>
    intro identity program hget
    simp [Engine.after, invalidateCache, ProgramCache.get?] at hget
  | render source context options =>
    have hrender : (e.render source context options).2 =
        (e.compileCached anonymousName source options false).2 := by
      unfold Engine.render
      rcases e.compileCached anonymousName source options false with ⟨_ | _, _⟩ <;> rfl
    simpa [Engine.after, keptBy, hrender] using h.compileCached anonymousName source options false
  | renderTemplate name context =>
    cases hsource : e.source name with
    | error err => simpa [Engine.after, keptBy, renderTemplate, hsource] using h
    | ok source =>
      have hrender : (e.renderTemplate name context).2 =
          (e.compileCached name source e.defaults true).2 := by
        simp only [renderTemplate, hsource]
        rcases e.compileCached name source e.defaults true with ⟨_ | _, _⟩ <;> rfl
      have hkept := h.compileCached name source e.defaults true
      simpa [Engine.after, keptBy, hrender, hsource] using hkept

/-- Every history keeps the cache vouched for. -/
theorem CacheVouched.afterAll {e : Engine} {kept : List (TemplateIdentity × String)}
    (h : e.CacheVouched kept) (calls : List EngineCall) :
    (e.afterAll calls).CacheVouched (e.keptByAll calls ++ kept) := by
  induction calls generalizing e kept with
  | nil => exact h
  | cons call rest ih => simpa [Engine.afterAll, keptByAll] using ih (h.after call)

/-- The name a render compiles under: its own, unless it is served a program that was compiled under
the name noted for it. -/
def servedName (e : Engine) (kept : List (TemplateIdentity × String)) (name source : String)
    (options : Options) : String :=
  if options.cache ∧ (e.cache.get? (e.identity source options)).isSome then
    (kept.lookup (e.identity source options)).getD name
  else name

/-- Compile a source under a name, without the cache, and run it. -/
def renderAs (e : Engine) (name source : String) (context : Data) (options : Options) :
    Result String := do
  let program ← e.compileAs name source options
  e.run program context options

/-- What is compiled for rendering is what compiling under the served name gives. -/
theorem CacheVouched.compileCached_eq {e : Engine} {kept : List (TemplateIdentity × String)}
    (h : e.CacheVouched kept) (name source : String) (options : Options) (isNamed : Bool) :
    (e.compileCached name source options isNamed).1 =
      e.compileAs (e.servedName kept name source options) source options := by
  rcases e.compileCached_cases name source options isNamed with
    ⟨program, hcache, hget, hcompile, _⟩ | ⟨hmiss, hcompile, _⟩ |
    ⟨program, _, hcache, hget, hok, hcompile, _⟩
  · obtain ⟨other, hother, hprogram⟩ := (h _ program hget).compiled rfl rfl
    have hname : e.servedName kept name source options = other := by
      simp [servedName, hcache, hget, hother]
    rw [hcompile, hname, compileAs_eq_compileIdentity, hprogram]
  · have hname : e.servedName kept name source options = name := by
      by_cases hcache : options.cache = true <;> simp_all [servedName]
    rw [hcompile, hname]
  · have hname : e.servedName kept name source options = name := by simp [servedName, hget]
    rw [hcompile, hname, hok]

/-- Running what was compiled for rendering is rendering under the served name. -/
theorem CacheVouched.run_compileCached {e : Engine} {kept : List (TemplateIdentity × String)}
    (h : e.CacheVouched kept) (name source : String) (options : Options) (isNamed : Bool)
    (context : Data) :
    (do
      let program ← (e.compileCached name source options isNamed).1
      (e.compileCached name source options isNamed).2.run program context options) =
      e.renderAs (e.servedName kept name source options) source context options := by
  rw [h.compileCached_eq, renderAs]
  congr 1
  funext program
  exact run_congr (e.compileCached_unchanged name source options isNamed).1 program context options

/-- A render is served under the served name. -/
theorem CacheVouched.render_eq {e : Engine} {kept : List (TemplateIdentity × String)}
    (h : e.CacheVouched kept) (source : String) (context : Data) (options : Options) :
    (e.render source context options).1 =
      e.renderAs (e.servedName kept anonymousName source options) source context options := by
  rw [← h.run_compileCached anonymousName source options false context, render]
  rcases e.compileCached anonymousName source options false with ⟨_ | _, _⟩ <;> rfl

/-- A render of a named template is served under the served name. -/
theorem CacheVouched.renderTemplate_eq {e : Engine} {kept : List (TemplateIdentity × String)}
    (h : e.CacheVouched kept) (name : String) (context : Data) :
    (e.renderTemplate name context).1 = (do
      let source ← e.source name
      e.renderAs (e.servedName kept name source e.defaults) source context e.defaults) := by
  unfold renderTemplate
  cases e.source name with
  | error err => rfl
  | ok source =>
    change _ = e.renderAs (e.servedName kept name source e.defaults) source context e.defaults
    rw [← h.run_compileCached name source e.defaults true context]
    have hdefaults := (e.compileCached_unchanged name source e.defaults true).2.2
    dsimp only
    rcases hcached : e.compileCached name source e.defaults true with ⟨err | program, e'⟩
    · rfl
    · rw [hcached] at hdefaults
      change e'.run program context e'.defaults = e'.run program context e.defaults
      rw [hdefaults]

/-- A render that bypasses the cache compiles under its own name. -/
theorem render_uncached (e : Engine) (source : String) (context : Data) (options : Options) :
    (e.render source context { options with cache := false }).1 =
      e.renderAs anonymousName source context options := by
  have hcompile : e.compileCached anonymousName source { options with cache := false } false =
      (e.compileAs anonymousName source options, e) := rfl
  rw [render, hcompile, renderAs]
  cases e.compileAs anonymousName source options <;> rfl

/-- The engine with its cache turned off. -/
def uncached (e : Engine) : Engine := { e with defaults := { e.defaults with cache := false } }

/-- With the cache turned off a named template compiles under its own name. -/
theorem renderTemplate_uncached (e : Engine) (name : String) (context : Data) :
    (e.uncached.renderTemplate name context).1 = (do
      let source ← e.source name
      e.renderAs name source context e.defaults) := by
  have hsource : e.uncached.source name = e.source name := rfl
  rw [renderTemplate, hsource]
  cases e.source name with
  | error err => rfl
  | ok source =>
    have hcompile : e.uncached.compileCached name source e.uncached.defaults true =
        (e.compileAs name source e.defaults, e.uncached) := rfl
    change _ = e.renderAs name source context e.defaults
    simp only [hcompile, renderAs]
    cases e.compileAs name source e.defaults <;> rfl

/-- A fresh engine has nothing in its cache. -/
theorem cacheVouched_fresh : ({} : Engine).CacheVouched [] := by
  intro identity program hget
  simp [ProgramCache.get?] at hget

/-- After every history a render gives what compiling under the served name and running gives, and
the same render without the cache compiles under its own name. So the two agree exactly if the
served name and the own name lead to the same result, as they do when they are the same. -/
theorem render_eq_renderAs_servedName (calls : List EngineCall) :
    let e := Engine.afterAll {} calls
    let kept := Engine.keptByAll {} calls
    (∀ source context options,
      (e.render source context options).1 =
          e.renderAs (e.servedName kept anonymousName source options) source context options ∧
        (e.render source context { options with cache := false }).1 =
          e.renderAs anonymousName source context options ∧
        ((e.render source context options).1 =
            (e.render source context { options with cache := false }).1 ↔
          e.renderAs (e.servedName kept anonymousName source options) source context options =
            e.renderAs anonymousName source context options)) ∧
      ∀ name context,
        (e.renderTemplate name context).1 = (do
            let source ← e.source name
            e.renderAs (e.servedName kept name source e.defaults) source context e.defaults) ∧
          (e.uncached.renderTemplate name context).1 = (do
            let source ← e.source name
            e.renderAs name source context e.defaults) ∧
          ((e.renderTemplate name context).1 = (e.uncached.renderTemplate name context).1 ↔
            ∀ source, e.source name = .ok source →
              e.renderAs (e.servedName kept name source e.defaults) source context e.defaults =
                e.renderAs name source context e.defaults) := by
  intro e kept
  have hvouched : e.CacheVouched kept := by
    simpa using cacheVouched_fresh.afterAll calls
  constructor
  · intro source context options
    have hcached := hvouched.render_eq source context options
    have huncached := e.render_uncached source context options
    exact ⟨hcached, huncached, by rw [hcached, huncached]⟩
  · intro name context
    have hcached := hvouched.renderTemplate_eq name context
    have huncached := e.renderTemplate_uncached name context
    refine ⟨hcached, huncached, ?_⟩
    rw [hcached, huncached]
    cases hsource : e.source name with
    | error err => simp [bind, Except.bind]
    | ok source => simp [bind, Except.bind]

/-- Where a result failed, if it did. -/
def failedAt? {α : Type} : Result α → Option Location
  | .ok _ => none
  | .error err => err.location?

set_option maxRecDepth 100000 in
/-- Two templates of one source: once the first was rendered, the error of the second is placed in
the first. -/
theorem renderTemplate_ne_uncached :
    ¬ ∀ (calls : List EngineCall) (name : String) (context : Data),
      ((Engine.afterAll {} calls).renderTemplate name context).1 =
        ((Engine.afterAll {} calls).uncached.renderTemplate name context).1 := by
  intro h
  have hplaces := congrArg failedAt? (h
    [.addTemplate "a" "\x7b\x7b -'' \x7d\x7d", .addTemplate "b" "\x7b\x7b -'' \x7d\x7d",
      .renderTemplate "a" (.map [])] "b" (.map []))
  revert hplaces
  decide +kernel

end Engine

end Templating
