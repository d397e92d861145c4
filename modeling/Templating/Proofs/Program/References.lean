import Mathlib
import Templating.Proofs.Emission.References
import Templating.Proofs.Template.Chains

/-!
# Compilation of templates that refer to each other

An included template is refused if it is being included already, and a template that is extended if
it is on the way already, so that circles of both kinds end with an error. Nothing of that kind
holds for imports: the bodies of the macros of a template are emitted wherever it is imported.
Circles of imports are harmless as long as they do not pass through bodies of macros, since of an
imported template nothing else is emitted.

If no template comes back to itself through imports in bodies of macros, compilation ends: each
level of following adds a template to those being included, or goes from an imported template to
another one that was not on the way since then.
-/

namespace Templating

open Node (Throughout)

namespace Emission

/-- Follow references within so many levels, and in a given way below them. -/
def levels (E : Elsewhere) : Nat → Elsewhere
  | 0 => E
  | depth + 1 => fun env ns => nodes (levels E depth) env ns

/-- Giving up below a number of levels. -/
theorem atDepth_eq_levels (depth : Nat) :
    atDepth depth = levels (fun _ _ => fail .nestedTooDeep) depth := by
  induction depth with
  | zero => rfl
  | succ depth ih =>
    funext env ns
    rw [atDepth, ih, levels]

/-- More levels are levels below levels. -/
theorem levels_add (E : Elsewhere) (depth more : Nat) :
    levels E (depth + more) = levels (levels E more) depth := by
  induction depth with
  | zero => rw [Nat.zero_add, levels]
  | succ depth ih =>
    funext env ns
    rw [Nat.succ_add, levels, levels, ih]

/-- Emission of the nodes ends within so many levels: how references are followed below them does
not matter. -/
def EndsWithin (env : Surroundings) (ns : List Node) (depth : Nat) : Prop :=
  ∀ E E', levels E depth env ns = levels E' depth env ns

/-- What ends within some levels ends within more. -/
theorem EndsWithin.mono {env : Surroundings} {ns : List Node} {depth depth' : Nat}
    (h : EndsWithin env ns depth) (hle : depth ≤ depth') : EndsWithin env ns depth' := by
  obtain ⟨more, rfl⟩ := Nat.exists_eq_add_of_le hle
  intro E E'
  rw [levels_add, levels_add]
  exact h _ _

/-- The action fails with the fault, from any state. -/
def FailsWith {α : Type} (x : Emission α) (fault : Fault) : Prop :=
  ∀ st, Result.IsFault (x st) fault

namespace FailsWith

variable {α β : Type} {x : Emission α} {fault : Fault}

/-- Whatever would come after it. -/
theorem bind (h : FailsWith x fault) (f : α → Emission β) : FailsWith (x >>= f) fault := by
  intro st
  obtain ⟨e, he, hfault⟩ := h st
  refine ⟨e, ?_, hfault⟩
  change (x st >>= fun p => f p.1 p.2) = _
  rw [he]
  rfl

/-- After the line was set. -/
theorem after_setLine (h : FailsWith x fault) (line : Nat) :
    FailsWith (setLine line >>= fun _ => x) fault := fun _ => h _

/-- With the error placed. -/
theorem placed (h : FailsWith x fault) (line : Nat) : FailsWith (placed line x) fault := by
  intro st
  obtain ⟨e, he, hfault⟩ := h st
  refine ⟨e.locate (fileName st) line, ?_, (Error.fault_locate _ _ _).trans hfault⟩
  rw [Emission.placed, he]

/-- In another file. -/
theorem inFile (h : FailsWith x fault) (name : String) : FailsWith (inFile name x) fault := by
  intro st
  obtain ⟨e, he, hfault⟩ := h { st with
    file := (intern st.files name).1, files := (intern st.files name).2 }
  refine ⟨e, ?_, hfault⟩
  simp only [Emission.inFile, he]

/-- In a macro. -/
theorem macroCode {body : Emission Fragment} (h : FailsWith body fault) (name : String)
    (params : List String) : FailsWith (macroCode name params body) fault := by
  intro st
  obtain ⟨e, he, hfault⟩ := h { st with next := 0 }
  refine ⟨e, ?_, hfault⟩
  simp only [Emission.macroCode, he]

end FailsWith

end Emission

open Emission (Elsewhere Surroundings levels EndsWithin)

namespace TemplateSet

variable {s : TemplateSet} {registry : Registry}

/-- Some tag in the nodes imports the template. -/
def Imports (s : TemplateSet) (registry : Registry) (ns : List Node) (t : Template) : Prop :=
  ∃ n ∈ Node.everywhere ns, ∃ name ∈ n.importedName? registry, s.get? name = some t

/-- An imported template is one of the set. -/
theorem Imports.mem {ns : List Node} {t : Template} (h : s.Imports registry ns t) :
    t ∈ s.templates := by
  obtain ⟨_, _, name, _, hname⟩ := h
  exact (mem_of_get? hname).1

/-- Some macro of the first template imports the second one. -/
def ImportsInMacro (s : TemplateSet) (registry : Registry) (t u : Template) : Prop :=
  ∃ body ∈ macroBodies t.nodes, s.Imports registry body u

/-- How far emission has come: the templates being included and, since the last of them, the
templates being imported. -/
structure Underway (s : TemplateSet) (registry : Registry) (env : Surroundings)
    (importing : List Template) (ns : List Node) : Prop where
  same_set : env.set = s
  same_registry : env.registry = registry
  including_nodup : env.including.Nodup
  including_mem : env.including ⊆ s.templates.map Template.name
  importing_nodup : importing.Nodup
  importing_mem : importing ⊆ s.templates
  whole : Throughout (Node.IsWhole registry) ns
  leads : ∀ u, s.Imports registry ns u →
    ∀ t ∈ importing, Relation.TransGen (s.ImportsInMacro registry) t u

/-- Top-level macros of a template have every property that the template has throughout. -/
theorem throughout_macroBodies {P : Node → Prop} {ns body : List Node} (h : Throughout P ns)
    (hbody : body ∈ macroBodies ns) : Throughout P body := by
  induction ns with
  | nil => exact absurd hbody (by simp [macroBodies])
  | cons n rest ih =>
    obtain ⟨hn, hrest⟩ := Node.throughout_cons.mp h
    cases n with
    | literal text span => exact ih hrest hbody
    | output subject filters span => exact ih hrest hbody
    | tag name args inner branches span =>
      rw [macroBodies] at hbody
      split at hbody
      · rcases List.mem_cons.mp hbody with rfl | hbody
        · exact (Node.throughout_tag.mp hn).2.1
        · exact ih hrest hbody
      · exact ih hrest hbody

section

variable (hwhole : ∀ t ∈ s.templates, Throughout (Node.IsWhole registry) t.nodes)
  {env : Surroundings} {importing : List Template} {ns : List Node}

include hwhole

/-- An included template is one more that is being included. -/
theorem Underway.included (h : Underway s registry env importing ns) {name : String} {t : Template}
    {resolved : Resolved} (ht : s.get? name = some t) (hfresh : t.name ∉ env.including)
    (hresolved : s.resolve t = .ok resolved) {row : String × Node} (hrow : row ∈ resolved.body) :
    Underway s registry (env.inside t resolved) [] [row.2] where
  same_set := h.same_set
  same_registry := h.same_registry
  including_nodup := List.nodup_cons.mpr ⟨hfresh, h.including_nodup⟩
  including_mem := List.cons_subset.mpr
    ⟨List.mem_map_of_mem (mem_of_get? ht).1, h.including_mem⟩
  importing_nodup := List.nodup_nil
  importing_mem := List.nil_subset _
  whole := throughout_body hwhole hresolved (mem_of_get? ht).1 row hrow
  leads := fun _ _ _ ht => absurd ht List.not_mem_nil

/-- An imported template is one more that is being imported, unless it leads back to itself. -/
theorem Underway.imported
    (hacyclic : ∀ t ∈ s.templates, ¬ Relation.TransGen (s.ImportsInMacro registry) t t)
    (h : Underway s registry env importing ns) {t : Template} (ht : s.Imports registry ns t)
    {body : List Node} (hbody : body ∈ macroBodies t.nodes) :
    Underway s registry env (t :: importing) body where
  same_set := h.same_set
  same_registry := h.same_registry
  including_nodup := h.including_nodup
  including_mem := h.including_mem
  importing_nodup := List.nodup_cons.mpr
    ⟨fun hmem => hacyclic t ht.mem (h.leads t ht t hmem), h.importing_nodup⟩
  importing_mem := List.cons_subset.mpr ⟨ht.mem, h.importing_mem⟩
  whole := throughout_macroBodies (hwhole t ht.mem) hbody
  leads := by
    intro u hu v hv
    have hstep : s.ImportsInMacro registry t u := ⟨body, hbody, hu⟩
    rcases List.mem_cons.mp hv with rfl | hv
    · exact .single hstep
    · exact (h.leads t ht v hv).tail hstep

omit hwhole in
/-- At most all templates are being included. -/
theorem Underway.including_length_le (h : Underway s registry env importing ns) :
    env.including.length ≤ s.size := by
  simpa [templates, size] using (List.subperm_of_subset h.including_nodup h.including_mem).length_le

omit hwhole in
/-- At most all templates are being imported. -/
theorem Underway.importing_length_le (h : Underway s registry env importing ns) :
    importing.length ≤ s.size := by
  simpa [templates, size] using (List.subperm_of_subset h.importing_nodup h.importing_mem).length_le

/-- Emission ends within the levels that there are for including and importing further
templates. -/
theorem Underway.endsWithin
    (hacyclic : ∀ t ∈ s.templates, ¬ Relation.TransGen (s.ImportsInMacro registry) t t)
    (h : Underway s registry env importing ns) {room steps : Nat}
    (hroom : s.size ≤ env.including.length + room) (hsteps : s.size ≤ importing.length + steps) :
    EndsWithin env ns (room * (s.size + 1) + steps + 1) := by
  induction hlevels : room * (s.size + 1) + steps using Nat.strongRecOn
    generalizing env importing ns room steps with
  | ind depth ih =>
    intro E E'
    have hincluded : Emission.AgreeOnIncluded (levels E depth) (levels E' depth) env := by
      intro name t resolved ht hfresh hresolved row hrow
      have ht : s.get? name = some t := h.same_set ▸ ht
      have hresolved : s.resolve t = .ok resolved := h.same_set ▸ hresolved
      have hnext := h.included hwhole ht hfresh hresolved hrow
      have hlength := hnext.including_length_le
      simp only [Surroundings.inside, List.length_cons] at hlength
      obtain ⟨room, rfl⟩ : ∃ more, room = more + 1 := ⟨room - 1, by omega⟩
      rw [Nat.succ_mul] at hlevels
      have hroom : s.size ≤ (env.inside t resolved).including.length + room := by
        simp only [Surroundings.inside, List.length_cons]
        omega
      have hends := ih (room * (s.size + 1) + s.size) (by omega) hnext hroom (by simp) rfl
      exact hends.mono (by omega) _ _
    have himported : ∀ n ∈ Node.everywhere ns, ∀ name ∈ n.importedName? env.registry,
        Emission.AgreeOnImported (levels E depth) (levels E' depth) env name := by
      intro n hn name hname t ht body hbody
      rw [h.same_registry] at hname
      have ht : s.Imports registry ns t := ⟨n, hn, name, hname, h.same_set ▸ ht⟩
      have hnext := h.imported hwhole hacyclic ht hbody
      have hlength := hnext.importing_length_le
      rw [List.length_cons] at hlength
      obtain ⟨steps, rfl⟩ : ∃ more, steps = more + 1 := ⟨steps - 1, by omega⟩
      have hsteps : s.size ≤ (t :: importing).length + steps := by
        rw [List.length_cons]
        omega
      exact (ih (room * (s.size + 1) + steps) (by omega) hnext hroom hsteps rfl).mono (by omega) _ _
    have hagree : Throughout (Emission.AgreeOn (levels E depth) (levels E' depth) env) ns :=
      fun n hn => ⟨h.same_registry ▸ h.whole n hn, himported n hn⟩
    exact Emission.nodes_congr hincluded hagree

/-- The root template is emitted within as many levels as there are pairs of a template being
included and of one being imported or none. -/
theorem emitRoot_levels_eq
    (hacyclic : ∀ t ∈ s.templates, ¬ Relation.TransGen (s.ImportsInMacro registry) t t)
    {depth : Nat} (hdepth : s.size * (s.size + 1) ≤ depth) (E E' : Elsewhere) :
    s.emitRoot registry (levels E depth) = s.emitRoot registry (levels E' depth) := by
  have hrows : ∀ resolved, s.resolve s.root = .ok resolved → ∀ row ∈ resolved.body,
      EndsWithin { registry, set := s, resolved, including := [s.root.name] } [row.2] depth := by
    intro resolved hresolved row hrow
    have hstart : Underway s registry
        { registry, set := s, resolved, including := [s.root.name] } [] [row.2] :=
      { same_set := rfl
        same_registry := rfl
        including_nodup := List.nodup_singleton _
        including_mem := List.cons_subset.mpr
          ⟨List.mem_map_of_mem List.mem_cons_self, List.nil_subset _⟩
        importing_nodup := List.nodup_nil
        importing_mem := List.nil_subset _
        whole := throughout_body hwhole hresolved List.mem_cons_self row hrow
        leads := fun _ _ _ ht => absurd ht List.not_mem_nil }
    have hends : EndsWithin _ [row.2] (s.loaded.length * (s.size + 1) + s.size + 1) :=
      hstart.endsWithin hwhole hacyclic (by simp [size, Nat.add_comm]) (by simp)
    have hsize : s.loaded.length * (s.size + 1) + s.size + 1 = s.size * (s.size + 1) :=
      (Nat.succ_mul s.loaded.length (s.size + 1)).symm
    exact hends.mono (hsize ▸ hdepth)
  rw [emitRoot, emitRoot]
  congr 1
  refine Emission.lift_bind_congr fun resolved hresolved => ?_
  exact Emission.nodesOf_congr fun row hrow => hrows resolved hresolved row hrow _ _

end

/-- Compilation ends within so many levels: with that many or more, and however references are
followed below them, the result is the same. -/
def CompilesWithin (s : TemplateSet) (registry : Registry) (autoescape : Bool) (name : String)
    (bound : Nat) : Prop :=
  ∃ result, ∀ depth ≥ bound, ∀ E,
    s.compileThrough registry autoescape name (levels E depth) = result

/-- Compilation of templates without blocks ends, whatever the templates include, extend and import,
if none of them leads back to itself through imports in bodies of macros. The number of templates
tells how many levels are enough; applying inheritance on the way always ends. -/
theorem compilesWithin_of_acyclic
    (hwhole : ∀ t ∈ s.templates, Throughout (Node.IsWhole registry) t.nodes)
    (hacyclic : ∀ t ∈ s.templates, ¬ Relation.TransGen (s.ImportsInMacro registry) t t)
    (autoescape : Bool) (name : String) :
    s.CompilesWithin registry autoescape name (s.size * (s.size + 1)) ∧
      ∀ t ∈ s.templates, ¬ Result.IsFault (s.resolve t) .nestedTooDeep := by
  have hlevels : ∀ {depth}, s.size * (s.size + 1) ≤ depth → ∀ E,
      s.compileThrough registry autoescape name (levels E depth) =
        s.compileThrough registry autoescape name
          (levels (fun _ _ => Emission.fail .nestedTooDeep) (s.size * (s.size + 1))) := by
    intro depth hdepth E
    obtain ⟨more, rfl⟩ := Nat.exists_eq_add_of_le hdepth
    rw [Emission.levels_add, compileThrough, compileThrough,
      emitRoot_levels_eq hwhole hacyclic (Nat.le_refl _) _
        (fun _ _ => Emission.fail .nestedTooDeep)]
  exact ⟨⟨_, fun _ hdepth E => hlevels hdepth E⟩, fun _ ht => not_isFault_resolve ht⟩

/-- Tags of other names than those of blocks and parents do not stand for definitions of blocks. -/
theorem isWhole_initial {ns : List Node}
    (h : Throughout (Node.OnTag fun name _ => name ≠ "block" ∧ name ≠ "parent") ns) :
    Throughout (Node.IsWhole .initial) ns := by
  refine h.mono fun n hn => ?_
  cases n with
  | literal text span => trivial
  | output subject filters span => trivial
  | tag name args body branches span =>
    constructor
    · intro htag
      obtain ⟨_, htag, hname⟩ := Registry.tag?_initial htag
      exact hn.1 (hname.symm.trans (Tag.builtin.inj htag ▸ rfl))
    · intro htag
      obtain ⟨_, htag, hname⟩ := Registry.tag?_initial htag
      exact hn.2 (hname.symm.trans (Tag.builtin.inj htag ▸ rfl))

/-- A template that only imports other templates further down than itself leads back to itself
nowhere. -/
theorem acyclic_of_rank {r : Template → Nat}
    (h : ∀ t ∈ s.templates, ∀ u, s.ImportsInMacro registry t u → r u < r t) :
    ∀ t ∈ s.templates, ¬ Relation.TransGen (s.ImportsInMacro registry) t t := by
  have hrank : ∀ {t u}, Relation.TransGen (s.ImportsInMacro registry) t u → t ∈ s.templates →
      r u < r t := by
    intro t u hpath ht
    induction hpath with
    | single hstep => exact h t ht _ hstep
    | @tail u v hpath hstep ih =>
      have hu : u ∈ s.templates := by
        cases hpath with
        | single hlast =>
          obtain ⟨_, _, himports⟩ := hlast
          exact himports.mem
        | tail _ hlast =>
          obtain ⟨_, _, himports⟩ := hlast
          exact himports.mem
      exact Nat.lt_trans (h u hu v hstep) ih
  exact fun t ht hcycle => Nat.lt_irrefl _ (hrank hcycle ht)

/-- Two templates that include each other, one of them also in a macro of a template that imports a
fourth one. -/
def entangled : TemplateSet :=
  let include_ (name : String) : Node := .tag "include" [.text name] [] [] {}
  let import_ (name : String) : Node := .tag "import" [.text name, .ident "m"] [] [] {}
  let macro_ (body : List Node) : Node := .tag "macro" [.ident "f"] body [] {}
  ⟨⟨"a", [import_ "lib", include_ "b"]⟩,
    [⟨"b", [include_ "a"]⟩, ⟨"lib", [macro_ [import_ "base", include_ "b"]]⟩,
      ⟨"base", [macro_ []]⟩]⟩

/-- No template comes back to itself through imports in bodies of macros. -/
theorem entangled_acyclic :
    ∀ t ∈ entangled.templates, ¬ Relation.TransGen (entangled.ImportsInMacro .initial) t t := by
  refine acyclic_of_rank (r := fun t => if t.name = "lib" then 1 else 0) fun t ht u hstep => ?_
  obtain ⟨body, hbody, n, hn, name, hname, hu⟩ := hstep
  have himport : Registry.initial.tag? "import" = some (.builtin .importMacros) := rfl
  have hinclude : Registry.initial.tag? "include" = some (.builtin .insert) := rfl
  simp only [entangled, templates, List.mem_cons, List.not_mem_nil, or_false] at ht
  rcases ht with rfl | rfl | rfl | rfl
  · simp [macroBodies] at hbody
  · simp [macroBodies] at hbody
  · obtain rfl : body = _ := by simpa [macroBodies] using hbody
    simp only [Node.everywhere, Node.everywhereInBranches, List.append_nil, List.cons_append,
      List.nil_append, List.mem_cons, List.not_mem_nil, or_false] at hn
    rcases hn with rfl | rfl
    · obtain rfl : "base" = name := by simpa [Node.importedName?, himport] using hname
      obtain rfl := Option.some.inj hu
      decide
    · simp [Node.importedName?] at hname
  · obtain rfl : body = [] := by simpa [macroBodies] using hbody
    simp [Node.everywhere] at hn

set_option maxRecDepth 100000 in
/-- The circle of inclusions is reported, also if more levels are followed. -/
theorem entangled_includesItself :
    (∀ t ∈ entangled.templates, Throughout (Node.IsWhole .initial) t.nodes) ∧
      entangled.CompilesWithin .initial true "a" 20 ∧
        Result.IsFault (entangled.compileAt .initial true "a" 20) (.includesItself "a" 0) := by
  have hnames : ∀ t ∈ entangled.templates,
      Throughout (Node.OnTag fun name _ => name ≠ "block" ∧ name ≠ "parent") t.nodes := by
    decide +kernel
  have hwhole : ∀ t ∈ entangled.templates, Throughout (Node.IsWhole .initial) t.nodes :=
    fun t ht => isWhole_initial (hnames t ht)
  refine ⟨hwhole, (compilesWithin_of_acyclic hwhole entangled_acyclic true "a").1, ?_⟩
  exact ⟨_, by cbv, rfl⟩

/-- The tag that imports the template `m`. -/
def importM : Node := .tag "import" [.text "m", .ident "m"] [] [] {}

/-- A template that imports `m`, which has a macro that imports `m`. -/
def selfImporting : TemplateSet :=
  ⟨⟨"t", [importM]⟩, [⟨"m", [.tag "macro" [.ident "f"] [importM] [] {}]⟩]⟩

/-- Wherever `m` is imported its macro is emitted, which fails as importing `m` does at the next
level. -/
theorem importM_failsWith {E : Elsewhere} {env : Surroundings} {fault : Fault}
    (hset : env.set = selfImporting) (hregistry : env.registry = .initial)
    (h : Emission.FailsWith (E env [importM]) fault) :
    Emission.FailsWith (Emission.nodes E env [importM]) fault := by
  have htag : env.registry.tag? "import" = some (.builtin .importMacros) := hregistry ▸ rfl
  have hcustom : env.registry.isCustomTag "import" = false := hregistry ▸ rfl
  have hget : env.set.get? "m" = some ⟨"m", [.tag "macro" [.ident "f"] [importM] [] {}]⟩ :=
    hset ▸ rfl
  have hmacros : Emission.FailsWith
      (Emission.macrosOf E env [.tag "macro" [.ident "f"] [importM] [] {}]) fault := by
    simp only [Emission.macrosOf, if_true]
    exact (((h.macroCode _ _).placed _).bind _).after_setLine _
  simp only [Emission.nodes, importM, Emission.node, htag, hcustom, Emission.importTemplate, hget]
  exact ((((((hmacros.bind _).inFile _).bind _).bind _).placed _).after_setLine _).bind _

/-- No number of levels is enough for a template that imports itself in a macro. -/
theorem selfImporting_failsWith (fault : Fault) (depth : Nat) :
    Emission.FailsWith (selfImporting.emitRoot .initial
      (levels (fun _ _ => Emission.fail fault) depth)) fault := by
  have hlevels : ∀ resolved, Emission.FailsWith
      (levels (fun _ _ => Emission.fail fault) depth
        { registry := .initial, set := selfImporting, resolved, including := ["t"] } [importM])
      fault := by
    intro resolved
    induction depth with
    | zero => exact fun st => ⟨_, rfl, rfl⟩
    | succ depth ih => exact importM_failsWith rfl rfl ih
  have hresolve :
      selfImporting.resolve selfImporting.root = .ok ⟨[("t", importM)], [("t", [])]⟩ := by
    cbv
  have hbody (resolved : Resolved) := ((hlevels resolved).inFile "t").bind fun first => do
    return first ++ (← Emission.nodesOf (levels (fun _ _ => Emission.fail fault) depth)
      { registry := .initial, set := selfImporting, resolved, including := ["t"] } [])
  rw [emitRoot, hresolve]
  exact Emission.FailsWith.inFile (fun st => hbody _ st) _

/-- Compilation of a set of templates need not end. -/
theorem not_forall_compilesWithin :
    ¬ ∀ s : TemplateSet, (∀ t ∈ s.templates, Throughout (Node.IsWhole .initial) t.nodes) →
      ∃ bound, s.CompilesWithin .initial true s.root.name bound := by
  intro h
  have hnames : ∀ t ∈ selfImporting.templates,
      Throughout (Node.OnTag fun name _ => name ≠ "block" ∧ name ≠ "parent") t.nodes := by
    decide +kernel
  obtain ⟨bound, result, hresult⟩ := h selfImporting fun t ht => isWhole_initial (hnames t ht)
  have hfault : ∀ fault, Result.IsFault result fault := by
    intro fault
    obtain ⟨e, he, hfault⟩ := selfImporting_failsWith fault bound {}
    refine ⟨e, ?_, hfault⟩
    rw [← hresult bound (Nat.le_refl bound) fun _ _ => Emission.fail fault, compileThrough, he]
    rfl
  obtain ⟨e, he, hdeep⟩ := hfault .nestedTooDeep
  obtain ⟨e', he', hsteps⟩ := hfault .outOfSteps
  obtain rfl := Except.error.inj (he.symm.trans he')
  exact absurd (hdeep.symm.trans hsteps) (by simp)

end TemplateSet

end Templating
