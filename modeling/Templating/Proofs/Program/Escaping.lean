import Templating.Engine.Basic
import Templating.Proofs.Emission.Tame
import Templating.Proofs.Machine.ExpressionCode

/-!
# Autoescape lets no markup through

A set of templates that has no markup of its own, exempts nothing from escaping and applies filters
to collected output only where no markup can come of it writes no markup over harmless values. The
code of such a set stays clean, so that by induction on how deep calls nest no call of a macro gives
markup; the run of the main code ends with what was shown of clean machines.

The condition on filters of collected output cannot be left out: the result of such a filter is
written as it is, and it may be an argument of the filter, which nothing has escaped.
-/

namespace Templating

/-! ## Programs whose code stays clean -/

/-- The code of the program and of its macros stays clean. -/
structure Program.Tame (p : Program) : Prop where
  main : p.main.StaysClean p.filters
  macros : ∀ decl ∈ p.macros, decl.code.StaysClean p.filters

/-- Code that stays clean ends clean when it is run from its first instruction. -/
theorem Code.StaysClean.clean_of_run {code : Code} {table : Array String}
    (h : code.StaysClean table) {linked : LinkedProgram} (hlinked : linked.Knows table)
    {invoke : Invocation} (hinvoke : invoke.Harmless) {m m' : Machine} {budget : Nat}
    (hm : m.Clean) (hpc : m.pc = 0) (hrun : m.runCode linked invoke code budget = .ok m') :
    m'.Clean := by
  refine h ⟨linked, invoke, code⟩ ⟨hlinked, hinvoke⟩ rfl hm hpc (fun b _ last hlast hend => ?_) m'
    hrun
  refine Machine.Setting.endsClean_of_end ?_ hlast
  rw [hend]
  exact Array.getElem?_eq_none (Nat.le_refl _)

/-! ## Calls -/

/-- Harmless arguments are bound to harmless values; missing ones are undefined. -/
theorem harmless_bindParams {done : Entries} {params : List String} {args : List Value}
    (hdone : ∀ e ∈ done, e.2.Harmless) (hargs : ∀ a ∈ args, a.Harmless) :
    ∀ e ∈ bindParams done params args, e.2.Harmless := by
  induction params generalizing done args with
  | nil => exact hdone
  | cons name rest ih =>
    cases args with
    | nil =>
      refine ih (fun e he => ?_) hargs
      exact (Entries.mem_insert he).elim (hdone e) fun heq => heq ▸ Value.inert_undefined
    | cons a more =>
      obtain ⟨ha, hmore⟩ := List.forall_mem_cons.mp hargs
      refine ih (fun e he => ?_) hmore
      exact (Entries.mem_insert he).elim (hdone e) fun heq => heq ▸ ha

/-- Callables are harmless. -/
theorem harmless_siblingEntries (siblings : List (String × Nat)) :
    ∀ e ∈ siblingEntries siblings, e.2.Harmless := by
  intro e he
  have hentries : siblingEntries siblings =
      (siblings.map fun s => (s.1, Value.callable s.2 s.1)).foldl
        (fun done e => Entries.insert done e.1 e.2) [] := by
    rw [List.foldl_map]
    rfl
  rw [hentries] at he
  rcases Entries.mem_foldl_insert he with he | he
  · exact absurd he List.not_mem_nil
  · obtain ⟨_, _, rfl⟩ := List.mem_map.mp he
    exact Value.inert_callable

/-- The frames a macro is entered with are harmless if its arguments and its caller's are. -/
theorem MacroDecl.harmless_frames (decl : MacroDecl) {args : List Value} {caller : Frames}
    (hargs : ∀ a ∈ args, a.Harmless) (hcaller : caller.Harmless) :
    (decl.frames args caller).Harmless := by
  have hroot : Frames.Harmless [caller.root.snapshot] :=
    .cons hcaller.root (by simp [Frames.Harmless])
  have hparams : Frame.Harmless { locals := bindParams [] decl.params args } :=
    ⟨harmless_bindParams (by simp) hargs, Value.inert_undefined, by simp⟩
  refine .cons hparams ?_
  split
  · exact hroot
  · exact .cons ⟨harmless_siblingEntries _, Value.inert_undefined, by simp⟩ hroot

namespace LinkedProgram

variable {linked : LinkedProgram} {budget : Nat}

/-- Calling a value is harmless if entering macros is. -/
theorem harmless_callValue {enter : Entry}
    (henter : ∀ decl ∈ linked.program.macros, ∀ frames : Frames, frames.Harmless →
      ∀ v, enter decl frames true = .ok v → v.Harmless) : (linked.callValue enter).Harmless := by
  intro callee args frames v hargs hframes h
  cases callee with
  | undefined => exact Except.ok.inj h ▸ Value.inert_undefined
  | null => exact Except.ok.inj h ▸ Value.inert_undefined
  | callable id name =>
    cases hdecl : linked.program.macros[id]? with
    | none => simp [callValue, hdecl, fail] at h
    | some decl =>
      simp only [callValue, hdecl] at h
      split at h
      · simp [fail] at h
      · exact henter decl (Array.mem_of_getElem? hdecl) _ (decl.harmless_frames hargs hframes) v h
  | _ => simp [callValue, fail] at h

/-- Entering a macro of a tame program is harmless. The induction is on how deep calls may nest: the
body makes calls one level less deep. -/
theorem harmless_enter (htame : linked.program.Tame) (hknows : linked.Knows linked.program.filters)
    (depth : Nat) : ∀ decl ∈ linked.program.macros, ∀ frames : Frames, frames.Harmless →
      ∀ v, linked.enter budget depth decl frames true = .ok v → v.Harmless := by
  induction depth with
  | zero =>
    intro decl _ frames _ v h
    simp [enter, fail] at h
  | succ depth ih =>
    intro decl hdecl frames hframes v h
    simp only [enter] at h
    split at h
    · rename_i m hrun
      obtain rfl := Except.ok.inj h
      have hstart : Machine.Clean { frames, autoescape := true } :=
        ⟨rfl, by simp, hframes, Text.inert_nil, by simp⟩
      have hend := (htame.macros decl hdecl).clean_of_run hknows (harmless_callValue ih) hstart rfl
        hrun
      exact Value.inert_text.mpr fun _ => hend.text
    · simp at h

/-- The calls of the main code of a tame program are harmless. -/
theorem harmless_invocation (htame : linked.program.Tame)
    (hknows : linked.Knows linked.program.filters) : (linked.invocation budget).Harmless :=
  harmless_callValue (harmless_enter htame hknows maxCallDepth)

/-- A tame program that escapes writes no markup over harmless values. -/
theorem inert_runWithin (htame : linked.program.Tame)
    (hknows : linked.Knows linked.program.filters) (hescapes : linked.program.autoescape = true)
    {context : Value} (hcontext : context.Harmless) {output : String}
    (h : linked.runWithin budget context = .ok output) : Text.Inert output.toList := by
  rw [runWithin] at h
  split at h
  · rename_i m hrun
    obtain rfl := Except.ok.inj h
    have hstart : (linked.start context).Clean :=
      ⟨hescapes, by simp [start], .cons ⟨by simp, hcontext, by simp⟩ (by simp [Frames.Harmless]),
        Text.inert_nil, by simp [start]⟩
    exact (htame.main.clean_of_run hknows (harmless_invocation htame hknows) hstart rfl hrun).text
  · simp at h

end LinkedProgram

/-- Harmless values below a harmless context. -/
theorem Options.harmless_mergeContext {o : Options} {context : Value}
    (hlocals : ∀ e ∈ o.locals, e.2.Harmless) (hcontext : context.Harmless) :
    (o.mergeContext context).Harmless := by
  unfold Options.mergeContext
  split
  · exact hcontext
  · refine Value.inert_map.mpr fun e he => ⟨by simp, ?_⟩
    rcases Entries.mem_foldl_insert he with he | he
    · exact hlocals e he
    · exact (Value.inert_map.mp hcontext e he).2
  · exact Value.inert_map.mpr fun e he => ⟨by simp, hlocals e he⟩

/-! ## Sets of templates -/

namespace TemplateSet

/-- The templates have no markup, and exempt nothing from escaping. -/
def Unmarked (s : TemplateSet) : Prop :=
  ∀ t ∈ s.templates, Node.Throughout (fun n => n.isUnmarked = true) t.nodes

/-- Where the templates apply filters to collected output, no markup can come of it. -/
def FiltersSafely (s : TemplateSet) : Prop :=
  ∀ t ∈ s.templates, Node.Throughout (fun n => n.filtersSafely = true) t.nodes

instance (s : TemplateSet) : Decidable s.Unmarked :=
  inferInstanceAs (Decidable (∀ t ∈ s.templates, ∀ n ∈ Node.everywhere t.nodes, _ = _))

instance (s : TemplateSet) : Decidable s.FiltersSafely :=
  inferInstanceAs (Decidable (∀ t ∈ s.templates, ∀ n ∈ Node.everywhere t.nodes, _ = _))

variable {s : TemplateSet} {name : String} {depth : Nat} {p : Program}

/-- A set of tame templates compiles to a tame program. -/
theorem tame_of_compileAt {autoescape : Bool} (hs : s.Unmarked) (hfilters : s.FiltersSafely)
    (h : s.compileAt .initial autoescape name depth = .ok p) :
    p.Tame ∧ p.autoescape = autoescape := by
  obtain ⟨⟨main, t⟩, hemit, h⟩ := Result.bind_eq_ok.mp h
  obtain rfl := Except.ok.inj h
  simp only [emitRoot, Emission.inFile_eq_ok, Emission.bind_eq_ok] at hemit
  obtain ⟨u, ⟨resolved, v, hresolve, hmain⟩, rfl⟩ := hemit
  obtain ⟨hresolved, rfl⟩ := Emission.lift_eq_ok.mp hresolve
  have htame : ∀ t ∈ s.templates, Emission.Tame t.nodes := fun t ht n hn =>
    Bool.and_eq_true_iff.mpr ⟨hs t ht n hn, hfilters t ht n hn⟩
  have hroot : s.root ∈ s.templates := List.mem_cons_self
  have henv : Emission.Surroundings.Tame
      { registry := .initial, set := s, resolved, including := [s.root.name] } :=
    ⟨rfl, htame, fun block => throughout_layers htame hresolved hroot block⟩
  have hsealed := Emission.nodesOf_sealed (Emission.atDepth_seals depth) henv
    (throughout_body htame hresolved hroot) hmain
  refine ⟨⟨fun setting hsetting hcode => ?_, hsealed.grows.tame ?_⟩, rfl⟩
  · have hend : u.next = (Code.ofFragment main).size := by
      rw [Code.size_ofFragment, hsealed.next]
      exact Nat.zero_add _
    rw [← hend]
    refine hsealed.enters hsetting fun k i hi => ?_
    rw [hcode, Code.getElem?_ofFragment]
    simpa [Fragment.instructions, Emission.entered] using hi
  · intro decl hdecl
    simp at hdecl

/-- Autoescape lets no markup through: templates with built-in tags and filters that have no markup,
exempt nothing from escaping, and apply filters to collected output only where no markup can come of
it write none, over every context and other values that have no markup in their safe texts. -/
theorem inert_of_filtersSafely (hs : s.Unmarked) (hfilters : s.FiltersSafely)
    (hcompile : s.compileAt .initial true name depth = .ok p) {e : Engine}
    (hregistry : e.registry = .initial) {context : Data} {options : Options}
    (hcontext : ∀ v, context.toValue = .ok v → v.Harmless)
    (hlocals : ∀ entry ∈ options.locals, entry.2.Harmless) {output : String}
    (hrun : e.run p context options = .ok output) : Text.Inert output.toList := by
  obtain ⟨htame, hescapes⟩ := tame_of_compileAt hs hfilters hcompile
  obtain ⟨⟨linked, value⟩, hprepare, houtput⟩ := Result.bind_eq_ok.mp hrun
  obtain ⟨linked', hlink, hprepare⟩ := Result.bind_eq_ok.mp hprepare
  obtain ⟨v, hv, hprepare⟩ := Result.bind_eq_ok.mp hprepare
  obtain ⟨rfl, rfl⟩ := Prod.mk.inj (Except.ok.inj hprepare)
  rw [hregistry] at hlink
  obtain ⟨rfl, hknows⟩ := Program.link_eq_ok hlink
  exact linked'.inert_runWithin htame (fun _ _ hname => hknows hname) hescapes
    (Options.harmless_mergeContext hlocals (hcontext v hv)) houtput

/-- A template that writes a list through an imported macro, replacing letters of what it
collected. -/
def starred : TemplateSet where
  root := ⟨"list", [
    .tag "import" [.text "macros", .ident "m"] [] [] {},
    .tag "for" [.ident "x", .expr (.var "xs" {})]
      [.tag "filter" [.ident "replace", .expr (.const (.ofString "a") {}),
          .expr (.const (.ofString "b") {})]
        [.output (.call (.attr (.var "m" {}) "star" {}) [.var "x" {}] {}) [] {}] [] {}] [] {}]⟩
  loaded := [⟨"macros", [
    .tag "macro" [.ident "star", .ident "x"]
      [.literal "*" {}, .output (.var "x" {}) [] {}, .literal "*" {}] [] {}]⟩]

set_option maxRecDepth 100000 in
/-- Markup in the items of the list is escaped on its way through the macro and the filter. -/
theorem inert_of_filtersSafely_starred :
    let context : Data := .record [("xs", .seq [.text "<a>", .text "c"])]
    ∃ p, starred.Unmarked ∧ starred.FiltersSafely ∧
      starred.compileAt .initial true "list" 2 = .ok p ∧
      Engine.run {} p context {} = .ok "*&lt;b&gt;**c*" ∧ Text.Inert "*&lt;b&gt;**c*".toList := by
  intro context
  have hboth : (do Engine.run {} (← starred.compileAt .initial true "list" 2) context {}) =
      .ok "*&lt;b&gt;**c*" :=
    Result.eq_ok_of_toOption (by decide +kernel)
  obtain ⟨p, hcompile, hrun⟩ := Result.bind_eq_ok.mp hboth
  have hunmarked : starred.Unmarked := by decide +kernel
  have hfilters : starred.FiltersSafely := by decide +kernel
  have hcontext : ∀ v, context.toValue = .ok v → v.Harmless := by
    rintro v hv
    obtain rfl := Except.ok.inj hv
    decide
  exact ⟨p, hunmarked, hfilters, hcompile, hrun,
    inert_of_filtersSafely hunmarked hfilters hcompile rfl hcontext (by simp) hrun⟩

/-- A template that writes a default for empty output that it collected. -/
def defaulted : TemplateSet where
  root := ⟨"default", [
    .tag "filter" [.ident "default", .expr (.var "x" {})] [] [] {}]⟩
  loaded := []

set_option maxRecDepth 100000 in
/-- The condition on filters cannot be left out: where collected output is replaced by a value of
the context, the value is not escaped. -/
theorem not_forall_inert :
    ¬ ∀ (s : TemplateSet) (p : Program) (context : Data) (output : String), s.Unmarked →
      s.compile .initial true Engine.entryPoint = .ok p →
      (∀ v, context.toValue = .ok v → ∀ text ∈ v.texts, text.2 = false) →
      Engine.run {} p context {} = .ok output → Text.Inert output.toList := by
  intro h
  have hboth : (do
      Engine.run {} (← defaulted.compile .initial true Engine.entryPoint)
        (.record [("x", .text "<b>")]) {}) = .ok "<b>" :=
    Result.eq_ok_of_toOption (by decide +kernel)
  obtain ⟨p, hcompile, hrun⟩ := Result.bind_eq_ok.mp hboth
  have hinert := h defaulted p _ _ (by decide +kernel) hcompile (fun v hv => ?_) hrun
  · exact absurd hinert (by decide)
  · obtain rfl := Except.ok.inj hv
    decide

end TemplateSet

end Templating
