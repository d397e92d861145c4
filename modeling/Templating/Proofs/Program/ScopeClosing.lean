import Templating.Proofs.Emission.ScopedTemplates
import Templating.Proofs.Machine.Scopes

/-!
# Scopes of compiled programs do not leak

The code of loops, of included templates and of added tags, between the instruction that opens their
scope and the one that closes it, leaves the frames alone that are there before it, and so does a
call. Code as a whole, be it the main code or that of a macro, stores variables in the frame it is
entered with and changes nothing else about the frames it finds.
-/

namespace Templating

open Machine (Setting)

namespace Registry.ClosesScopes

variable {registry : Registry}

/-- A tag is added whose plans close the scopes they open. -/
theorem addTag (h : registry.ClosesScopes) (name : String) {tag : CustomTag}
    (htag : ∀ ⦃use : TagUse⦄ ⦃steps : List TagStep⦄, tag.plan use = .ok steps →
      TagStep.openAfter 0 steps = some 0) : (registry.addTag name tag).ClosesScopes := by
  intro name' tag' hfind use steps hplan
  by_cases hname : name = name'
  · subst hname
    obtain rfl : tag = tag' := by simpa [Registry.tag?, Registry.addTag, find?, put] using hfind
    exact htag hplan
  · refine h (?_ : registry.tag? name' = some (.custom tag')) hplan
    have hother :
        (registry.tags.filter fun row => row.1 != name).find? (fun row => row.1 == name') =
        registry.tags.find? fun row => row.1 == name' := by
      rw [List.find?_filter]
      congr 1
      funext row
      by_cases hrow : row.1 = name' <;> simp [hrow, Ne.symm hname]
    simpa [Registry.tag?, Registry.addTag, find?, put, hname, hother] using hfind

end Registry.ClosesScopes

namespace Code

variable {code : Code}

/-- Nothing is open behind the end of well-scoped code. -/
theorem WellScoped.scopes_of_fetch?_eq_none (h : code.WellScoped) {m : Machine}
    (hfetch : m.fetch? code = none) : code.scopes m.pc = [] := by
  have hbehind : ∀ pc, code.size ≤ pc → code.scopes pc = [] := fun pc hle => by
    induction pc, hle using Nat.le_induction with
    | base => exact h.ended
    | succ pc hle ih => rw [scopes, Array.getElem?_eq_none hle, ih]
  exact hbehind m.pc (Array.getElem?_eq_none_iff.mp hfetch)

end Code

/-- A call leaves the frames of its caller as they are. -/
theorem Machine.frames_of_call {linked : LinkedProgram} {invoke : Invocation} {code : Code}
    {m m' : Machine} {args : Nat} (hfetch : m.fetch? code = some (.call args))
    (h : m.step? linked invoke code = some (.ok m')) : m'.frames = m.frames := by
  have hsteps : Setting.Steps ⟨linked, invoke, code⟩ m.pc (m.pc + 1) m m' :=
    ⟨Nat.le_refl _, Nat.lt_succ_self _, h⟩
  obtain ⟨i, hi, hexecute⟩ := hsteps.exists_execute
  obtain rfl := Option.some.inj (hfetch.symm.trans hi)
  have heffect := frameEffect_execute hexecute
  generalize m'.frames = fs at heffect ⊢
  cases heffect with
  | opens hopens => simp [Instruction.opensScope] at hopens
  | keeps => rfl

/-- A run of well-scoped code from its beginning that ends well has done nothing to the frames it
was given but store variables in the innermost one. -/
theorem Machine.stores_of_runCode {setting : Setting} (hwell : setting.code.WellScoped)
    {m final : Machine} {budget : Nat} (hpc : m.pc = 0) (hframes : m.frames ≠ [])
    (hrun : m.runCode setting.linked setting.invoke setting.code budget = .ok final) :
    m.frames.Stores final.frames := by
  obtain ⟨hreaches, hfetch⟩ : setting.Reaches 0 setting.code.size m final ∧
      final.fetch? setting.code = none := by
    clear hpc hframes
    induction budget generalizing m with
    | zero => simp [runCode, fail] at hrun
    | succ budget ih =>
      rw [runCode] at hrun
      cases hfetch : m.fetch? setting.code with
      | none =>
        simp only [hfetch] at hrun
        obtain rfl := Except.ok.inj hrun
        exact ⟨.refl, hfetch⟩
      | some i =>
        simp only [hfetch] at hrun
        split at hrun
        · rename_i m₁ hadvance
          have hstep : setting.Steps 0 setting.code.size m m₁ :=
            ⟨Nat.zero_le _, (Array.getElem?_eq_some_iff.mp hfetch).1,
              by simp [step?, hfetch, hadvance]⟩
          obtain ⟨hreaches, hend⟩ := ih hrun
          exact ⟨.head hstep hreaches, hend⟩
        · simp at hrun
  obtain ⟨own, fs, hown, howns, hstores⟩ := hreaches.whole hwell hpc hframes
  rw [hwell.scopes_of_fetch?_eq_none hfetch] at howns
  cases howns
  rwa [hown]

/-- Whatever tags were added that close the scopes they open: in the main code and in the macros of
a compiled program, every instruction that opens a scope has one that closes it, and the code
between them, with all that it does, leaves the frames alone that were there before; a call leaves
the frames of its caller as they are; and code that is run from its beginning, as that of a macro is
when it is called, has its own frames over those it is given, and changes nothing about these but
variables of the innermost one. Of the machine and of the way it calls values nothing is asked. -/
theorem TemplateSet.compileAt_leaves_frames {s : TemplateSet} {registry : Registry}
    {autoescape : Bool} {name : String} {depth : Nat} {p : Program} (htags : registry.ClosesScopes)
    (h : s.compileAt registry autoescape name depth = .ok p) {code : Code}
    (hcode : code = p.main ∨ ∃ decl ∈ p.macros, code = decl.code) (linked : LinkedProgram)
    (invoke : Invocation) :
    (∀ first i, code.instructions[first]? = some i → i.opensScope = true →
      ∃ last, code.Closes first last ∧ Setting.LeavesFrames ⟨linked, invoke, code⟩ first last) ∧
    (∀ (m m' : Machine) (args : Nat), m.fetch? code = some (.call args) →
      m.step? linked invoke code = some (.ok m') → m'.frames = m.frames) ∧
    ∀ m : Machine, m.pc = 0 → m.frames ≠ [] →
      (∀ m', Setting.Reaches ⟨linked, invoke, code⟩ 0 code.size m m' →
        ∃ own fs, m'.frames = own ++ fs ∧ own.length = (code.scopes m'.pc).length ∧
          m.frames.Stores fs) ∧
      ∀ budget final, m.runCode linked invoke code budget = .ok final →
        m.frames.Stores final.frames := by
  obtain ⟨hmain, hmacros⟩ := wellScoped_of_compileAt htags h
  have hwell : code.WellScoped := by
    rcases hcode with rfl | ⟨decl, hdecl, rfl⟩
    · exact hmain
    · exact hmacros decl hdecl
  refine ⟨fun first i hi hopens => ?_, fun m m' args hfetch hstep => ?_, fun m hpc hframes => ?_⟩
  · obtain ⟨last, hcloses⟩ := hwell.exists_closes hi hopens
    have hleaves : Setting.LeavesFrames ⟨linked, invoke, code⟩ first last :=
      Setting.leavesFrames hwell hcloses
    exact ⟨last, hcloses, hleaves⟩
  · exact Machine.frames_of_call hfetch hstep
  · refine ⟨fun m' hreaches => ?_, fun budget final hrun => ?_⟩
    · obtain ⟨own, fs, hown, howns, hstores⟩ := hreaches.whole hwell hpc hframes
      exact ⟨own, fs, hown, (List.Forall₂.length_eq howns).symm, hstores⟩
    · have hstores : ∀ setting : Setting, setting.code.WellScoped →
          m.runCode setting.linked setting.invoke setting.code budget = .ok final →
            m.frames.Stores final.frames := fun setting hwell hrun =>
        Machine.stores_of_runCode hwell hpc hframes hrun
      exact hstores ⟨linked, invoke, code⟩ hwell hrun

set_option maxRecDepth 100000 in
/-- A loop with an assignment, a loop, a macro and an included template in it, where a tag was added
that runs its body in a scope: each of the three scopes leaves the frames below alone. -/
theorem TemplateSet.compileAt_leaves_frames_nested :
    let scope : CustomTag :=
      { hasBody := true
        arguments := fun _ => return []
        plan := fun _ => .ok [.pushScope, .body, .popScope] }
    let registry := Registry.initial.addTag "scope" scope
    let inner : List Node :=
      [.tag "set" [.ident "y", .expr (.var "x" {})] [] [] {},
        .tag "for" [.ident "z", .expr (.var "ys" {})]
          [.output (.attr (.var "loop" {}) "index" {}) [] {}] [] {},
        .tag "macro" [.ident "f"] [.output (.var "x" {}) [] {}] [] {},
        .output (.call (.var "f" {}) [] {}) [] {},
        .tag "include" [.text "t"] [] [] {}]
    let s : TemplateSet :=
      ⟨⟨"r", [.tag "for" [.ident "x", .expr (.var "xs" {})] inner [] {}]⟩,
        [⟨"t", [.literal "b" {}]⟩]⟩
    ∃ p, s.compile registry true "r" = .ok p ∧
      p.main.instructions.countP Instruction.opensScope = 3 ∧ p.macros.size = 1 ∧
      ∀ (linked : LinkedProgram) (invoke : Invocation),
        ∀ first i, p.main.instructions[first]? = some i → i.opensScope = true →
          ∃ last, p.main.Closes first last ∧
            Setting.LeavesFrames ⟨linked, invoke, p.main⟩ first last := by
  intro scope registry inner s
  have htags : registry.ClosesScopes := by
    refine Registry.closesScopes_initial.addTag "scope" fun use steps hplan => ?_
    obtain rfl := Except.ok.inj hplan
    simp [TagStep.openAfter]
  have hfacts : ((s.compile registry true "r").toOption.map fun p =>
      (p.main.instructions.countP Instruction.opensScope, p.macros.size)) = some (3, 1) := by
    decide +kernel
  cases h : s.compile registry true "r" with
  | error e => simp [h, Except.toOption] at hfacts
  | ok p =>
    rw [h] at hfacts
    obtain ⟨hopeners, hmacros⟩ := Prod.mk.inj (Option.some.inj hfacts)
    refine ⟨p, rfl, hopeners, hmacros, fun linked invoke => ?_⟩
    exact (compileAt_leaves_frames htags h (.inl rfl) linked invoke).1

end Templating
