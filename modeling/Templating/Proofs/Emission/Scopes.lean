import Templating.Proofs.Emission.Composition
import Templating.Proofs.Emission.Construction
import Templating.Proofs.Emission.TagCode
import Templating.Proofs.Program.LineTable
import Templating.Proofs.Program.Scopes

/-!
# Code of templates is scoped

Loops, included templates and added tags are all that opens scopes. The code of the built-in tags
closes what it opens, around whatever code it has for its bodies, and so does that of added tags
whose plans do. Nothing is asked of the templates, so the induction goes through all nodes at once;
the scopes that are open around a piece of code are any.
-/

namespace Templating

/-- Code that has a piece has the instructions of the piece. -/
theorem Code.Carries.holds {c : Code} {first : Nat} {f : Fragment} (h : c.Carries first f) :
    c.Holds first f.instructions := by
  intro k i hi
  rw [Fragment.instructions, List.getElem?_map] at hi
  obtain ⟨p, hp, rfl⟩ := Option.map_eq_some_iff.mp hi
  exact (h hp).1

/-- How many scopes are open behind a plan that began with so many. There is no answer if the plan
closes one that it has not opened, or has alternatives that do not close what they open. -/
def TagStep.openAfter : Nat → List TagStep → Option Nat
  | count, [] => some count
  | count, step :: rest =>
    match step with
    | .pushScope => openAfter (count + 1) rest
    | .popScope =>
      match count with
      | 0 => none
      | count + 1 => openAfter count rest
    | .choose ifTrue ifFalse =>
      if openAfter 0 ifTrue = some 0 ∧ openAfter 0 ifFalse = some 0 then openAfter count rest
      else none
    | _ => openAfter count rest

/-- Every plan of an added tag closes the scopes it opens, and no others. -/
def Registry.ClosesScopes (registry : Registry) : Prop :=
  ∀ ⦃name : String⦄ ⦃tag : CustomTag⦄, registry.tag? name = some (.custom tag) →
    ∀ ⦃use : TagUse⦄ ⦃steps : List TagStep⦄, tag.plan use = .ok steps →
      TagStep.openAfter 0 steps = some 0

/-- There are no added tags to begin with. -/
theorem Registry.closesScopes_initial : Registry.ClosesScopes .initial := by
  intro name tag htag
  obtain ⟨_, hbuiltin, _⟩ := Registry.tag?_initial htag
  cases hbuiltin

/-- The code of every macro so far is well scoped. -/
def EmissionState.WellScoped (s : EmissionState) : Prop := ∀ decl ∈ s.macros, decl.code.WellScoped

/-- Scoped code that leaves nothing open is well scoped when it is put together. -/
theorem Code.wellScoped_ofFragment {f : Fragment} (h : Scoped 0 f.instructions [] []) :
    (Code.ofFragment f).WellScoped := by
  refine Scoped.wellScoped ?_
  rwa [(Code.ofFragment_describes f).1]

namespace Emission

/-- The code that was emitted between two states finds some scopes open and leaves others open, and
the code of the macros that were added is well scoped. -/
structure Nested (s t : EmissionState) (code : Fragment) (a b : List Nat) : Prop where
  next : t.next = s.next + code.length
  macros : s.WellScoped → t.WellScoped
  scopes : Scoped s.next code.instructions a b

variable {isFilter : String → Bool} {s t u v : EmissionState}
  {first second code body yes : Fragment} {a b c : List Nat} {i : Instruction}

namespace Nested

/-- No code was emitted. -/
theorem nil (s : EmissionState) : Nested s s [] a a := ⟨rfl, id, .nil⟩

/-- One piece of code was emitted after the other. -/
theorem append (h : Nested s t first a b) (h' : Nested t u second b c) :
    Nested s u (first ++ second) a c where
  next := by rw [h'.next, h.next, List.length_append, Nat.add_assoc]
  macros := h'.macros ∘ h.macros
  scopes := by
    rw [Fragment.instructions_append]
    refine .append h.scopes ?_
    rw [Fragment.length_instructions, ← h.next]
    exact h'.scopes

/-- The code was emitted after tables had changed. -/
theorem behind (h : Nested t u code a b) (hnext : t.next = s.next)
    (hmacros : s.WellScoped → t.WellScoped) : Nested s u code a b :=
  ⟨hnext ▸ h.next, h.macros ∘ hmacros, hnext ▸ h.scopes⟩

/-- Only the line was changed before the code was emitted. -/
theorem afterLine {line : Nat} (h : Nested { s with line := line } t code a b) :
    Nested s t code a b :=
  h.behind rfl id

/-- Code behind a jump that skips it, on any line. -/
theorem skipped {line : Nat} (hjumps : i.jumpsTo? = some t.next)
    (h : Nested { s with next := s.next + 1 } t code a a) :
    Nested s t (⟨i, s.file, line⟩ :: code) a a where
  next := by rw [h.next, List.length_cons, Nat.add_right_comm, Nat.add_assoc]
  macros := h.macros
  scopes := by
    rw [h.next, ← Fragment.length_instructions] at hjumps
    exact .skipped hjumps h.scopes

/-- A loop up to where it comes back to its iteration; its scope is still open. -/
theorem loop {f g k l n : Nat}
    (h : Nested { s with next := s.next + 2 } t code (s.next :: a) (s.next :: a)) :
    Nested s { t with next := t.next + 1 }
      (⟨.pushLoop, f, g⟩ :: ⟨.iterate (t.next + 1), s.file, k⟩ :: code ++
        [⟨.jump (s.next + 1), l, n⟩]) a (s.next :: a) where
  next := by
    simp only [h.next, List.length_append, List.length_cons, List.length_nil]
    omega
  macros := h.macros
  scopes := by
    have hlength : t.next = s.next + 2 + code.instructions.length := by
      rw [h.next, Fragment.length_instructions]
    simpa [hlength] using Scoped.loop h.scopes

end Nested

/-- One instruction that goes on to the next position. -/
theorem op_nested (h : op i s = .ok (code, t)) (hsuccessors : i.successors s.next = [s.next + 1])
    (hcloses : i = .popFrame → a ≠ []) :
    Nested s t code a (Machine.pushersAfter i s.next a) := by
  obtain ⟨rfl, rfl⟩ := op_eq_ok.mp h
  exact ⟨rfl, id, .single hsuccessors hcloses⟩

/-- One instruction that only touches values. -/
theorem value_nested {count : Nat} (h : op i s = .ok (code, t)) (hgives : i.gives? = some count) :
    Nested s t code a a := by
  have hnested : Nested s t code a (Machine.pushersAfter i s.next a) := by
    refine op_nested h ?_ (by rintro rfl; simp [Instruction.gives?] at hgives)
    cases i <;> first
      | rfl
      | simp [Instruction.gives?] at hgives
  rwa [Machine.Traced.pushersAfter_of_gives hgives] at hnested

/-- A filter is applied. -/
theorem applyFilter_nested {name : String} {args : Nat}
    (h : applyFilter isFilter name args s = .ok (code, t)) : Nested s t code a a := by
  obtain ⟨_, rfl, rfl⟩ := applyFilter_eq_ok.mp h
  exact ⟨rfl, id, .single rfl nofun⟩

/-- An action whose code closes what it opens, whatever scopes are open around it. -/
def ClosesScopes (e : Emission Fragment) : Prop :=
  ∀ ⦃s t : EmissionState⦄ ⦃code : Fragment⦄, e s = .ok (code, t) → ∀ a, Nested s t code a a

/-- Whatever code is put together for expressions, it opens nothing and closes nothing. -/
theorem closesScopes_compositional (isFilter : String → Bool) :
    Compositional isFilter (fun _ => True) ClosesScopes where
  nothing := by
    intro s t code h a
    obtain ⟨rfl, rfl⟩ := pure_eq_ok.mp h
    exact .nil s
  andThen hx hy := by
    intro s t code h a
    simp only [andThen, bind_eq_ok, pure_eq_ok] at h
    obtain ⟨first, u, hfirst, second, v, hsecond, rfl, rfl⟩ := h
    exact (hx hfirst a).append (hy hsecond a)
  onLine _ hx := by
    intro s t code h a
    simp only [onLine, bind_eq_ok, setLine_eq_ok] at h
    obtain ⟨_, _, rfl, h⟩ := h
    exact (hx h a).afterLine
  skipping {jump x} hjump hx := by
    intro s t code h a
    simp only [skipping, bind_eq_ok, reserve_eq_ok, here_eq_ok, pure_eq_ok] at h
    obtain ⟨_, _, ⟨rfl, rfl⟩, second, u, hsecond, _, _, ⟨rfl, rfl⟩, rfl, rfl⟩ := h
    exact .skipped (by cases hjump <;> rfl) (hx hsecond a)
  own {e} _ hshortcut := by
    intro s t code h a
    cases e with
    | filter name subject args span => exact applyFilter_nested h
    | unary o operand span => cases o <;> exact value_nested h rfl
    | binary o left right span =>
      cases o <;> first
        | exact value_nested h rfl
        | cases hshortcut
    | _ => exact value_nested h rfl
  emit := fun _ _ _ h _ => value_nested h rfl

/-- The code of an expression opens nothing and closes nothing. -/
theorem expr_nested {e : Expr} (h : expr isFilter e s = .ok (code, t)) : Nested s t code a a :=
  (closesScopes_compositional isFilter).expr (fun _ _ _ _ => trivial) e trivial h a

/-- The code of expressions one after the other. -/
theorem exprs_nested {es : List Expr} (h : exprs isFilter es s = .ok (code, t)) :
    Nested s t code a a :=
  (closesScopes_compositional isFilter).exprs (fun _ _ _ _ => trivial) (fun _ _ => trivial) h a

/-- The code of an output point. -/
theorem output_nested {subject : Expr} {filters : List FilterCall}
    (h : output isFilter subject filters s = .ok (code, t)) : Nested s t code a a :=
  (closesScopes_compositional isFilter).output (fun _ _ _ _ => trivial) trivial
    (fun _ _ => trivial) h a

/-! ## Constructions -/

/-- How the code of further branches follows what comes before it: there are none, and a condition
that is false leads right to the end; or they begin with a jump to the end over the rest, where such
a condition leads. -/
inductive Otherwise (s t : EmissionState) (a : List Nat) : Fragment → Nat → Prop
  | none : t = s → Otherwise s t a [] s.next
  | some {line : Nat} {no : Fragment} : Nested { s with next := s.next + 1 } t no a a →
    Otherwise s t a (⟨.jump t.next, s.file, line⟩ :: no) (s.next + 1)

/-- Further branches that are never entered. -/
theorem Otherwise.skipped {onFalse : Nat} (h : Otherwise s t a code onFalse) :
    Nested s t code a a := by
  cases h with
  | none heq => exact heq ▸ .nil s
  | some hno => exact hno.skipped rfl

/-- Code behind a condition, and further branches. -/
theorem choice_nested {onFalse : Nat} (line : Nat)
    (hyes : Nested { s with next := s.next + 1 } u yes a a) (h : Otherwise u t a code onFalse) :
    Nested s t (⟨.jumpIfFalse onFalse, s.file, line⟩ :: yes ++ code) a a := by
  cases h with
  | none heq =>
    subst heq
    simpa using hyes.skipped (i := .jumpIfFalse _) rfl
  | @some line' no hno =>
    have hnext : u.next = s.next + 1 + yes.instructions.length := by
      rw [hyes.next, Fragment.length_instructions]
    have hend : t.next = u.next + 1 + no.instructions.length := by
      rw [hno.next, Fragment.length_instructions]
    refine ⟨?_, hno.macros ∘ hyes.macros, ?_⟩
    · simp only [hend, hnext, Fragment.length_instructions, List.length_append, List.length_cons]
      omega
    · have hscopes := hno.scopes
      rw [hnext] at hscopes
      rw [Fragment.instructions_append, Fragment.instructions_cons, Fragment.instructions_cons,
        hend, hnext]
      exact .choice hyes.scopes hscopes

/-- Code that was emitted with another current file. -/
theorem inFile_nested {name : String} {e : Emission Fragment} (he : ClosesScopes e) :
    ClosesScopes (inFile name e) := by
  intro s t code h a
  obtain ⟨u, hu, rfl⟩ := inFile_eq_ok.mp h
  have hbody := he hu a
  exact ⟨hbody.next, hbody.macros, hbody.scopes⟩

/-- The code of a macro is emitted apart, and is well scoped. -/
theorem macroCode_wellScoped {name : String} {params : List String} {e : Emission Fragment}
    {id : Nat} (he : ClosesScopes e) (h : macroCode name params e s = .ok (id, t)) :
    t.next = s.next ∧ (s.WellScoped → t.WellScoped) := by
  obtain ⟨code, u, hu, rfl, rfl⟩ := macroCode_eq_ok.mp h
  have hbody := he hu []
  refine ⟨rfl, fun hs decl hdecl => ?_⟩
  rcases Array.mem_push.mp hdecl with hdecl | rfl
  · exact hbody.macros hs decl hdecl
  · exact Code.wellScoped_ofFragment hbody.scopes

/-- The loop variables are stored. -/
theorem loopTargets_nested {args : List TagArg} {targets : Emission Fragment}
    (htargets : loopTargets? args = some targets) : ClosesScopes targets := by
  intro s t code h a
  unfold loopTargets? at htargets
  split at htargets
  · obtain rfl := Option.some.inj htargets
    simp only [bind_eq_ok, pure_eq_ok] at h
    obtain ⟨store, u, hstore, last, v, hlast, rfl, rfl⟩ := h
    exact (value_nested hstore rfl).append (value_nested hlast rfl)
  · obtain rfl := Option.some.inj htargets
    simp only [bind_eq_ok, pure_eq_ok] at h
    obtain ⟨store, u, hstore, last, v, hlast, rfl, rfl⟩ := h
    exact (value_nested hstore rfl).append (value_nested hlast rfl)
  · simp at htargets

/-- A loop closes its scope. -/
theorem loop_nested {args : List TagArg} {e : Emission Fragment}
    {other? : Option (Emission Fragment)} (he : ClosesScopes e)
    (hother : ∀ other ∈ other?, ClosesScopes other) :
    ClosesScopes (loop isFilter args e other?) := by
  intro s t code h a
  cases hlast : args.getLast? with
  | none => simp [loop, hlast, badArguments_eq_ok] at h
  | some arg =>
    cases htargets : loopTargets? args.dropLast with
    | none => cases arg <;> simp [loop, hlast, htargets, badArguments_eq_ok] at h
    | some targets =>
      cases arg with
      | expr subject =>
        simp only [loop, hlast, htargets, bind_eq_ok, here_eq_ok, reserve_eq_ok] at h
        obtain ⟨first, u, hfirst, push, v, hpush, _, _, ⟨rfl, rfl⟩, _, _, ⟨rfl, rfl⟩, stores, w,
          hstores, body, x, hbody, back, y, hback, _, _, ⟨rfl, rfl⟩, h⟩ := h
        obtain ⟨rfl, rfl⟩ := op_eq_ok.mp hpush
        obtain ⟨rfl, rfl⟩ := op_eq_ok.mp hback
        have hinner := (loopTargets_nested htargets hstores (u.next :: a)).append (he hbody _)
        have hloop : Nested u _ _ a (u.next :: a) :=
          Nested.loop (f := u.file) (g := u.line) (k := u.line) (l := x.file) (n := x.line) hinner
        have hwhole := (expr_nested (a := a) hfirst).append hloop
        cases other? with
        | none =>
          simp only [bind_eq_ok, pure_eq_ok] at h
          obtain ⟨pop, z, hpop, rfl, rfl⟩ := h
          have hpop : Nested _ z pop (u.next :: a) a :=
            op_nested hpop rfl fun _ => List.cons_ne_nil _ _
          simpa [List.append_assoc] using hwhole.append hpop
        | some other =>
          simp only [bind_eq_ok, reserve_eq_ok, here_eq_ok, pure_eq_ok] at h
          obtain ⟨missed, z, hmissed, pop, s₁, hpop, _, _, ⟨rfl, rfl⟩, no, s₂, hno, _, _,
            ⟨rfl, rfl⟩, rfl, rfl⟩ := h
          have hmissed := op_nested (a := u.next :: a) hmissed rfl (by simp)
          have hpop : Nested _ s₁ pop (u.next :: a) a :=
            op_nested hpop rfl fun _ => List.cons_ne_nil _ _
          have hno : Nested s₁ s₂ (⟨.jumpIfFalse s₂.next, s₁.file, s₁.line⟩ :: no) a a :=
            (hother other rfl hno a).skipped rfl
          simpa [List.append_assoc] using ((hwhole.append hmissed).append hpop).append hno
      | _ => simp [loop, hlast, badArguments_eq_ok] at h

/-- An assignment. -/
theorem assignment_nested {args : List TagArg} : ClosesScopes (assignment isFilter args) := by
  intro s t code h a
  unfold assignment at h
  split at h
  · simp only [bind_eq_ok, pure_eq_ok] at h
    obtain ⟨first, u, hfirst, last, v, hlast, rfl, rfl⟩ := h
    exact (expr_nested hfirst).append (value_nested hlast rfl)
  · exact (badArguments_eq_ok.mp h).elim

/-- A filter applied to collected output. -/
theorem filtered_nested {args : List TagArg} {e : Emission Fragment} (he : ClosesScopes e) :
    ClosesScopes (filtered isFilter args e) := by
  intro s t code h a
  cases args with
  | nil => exact (badArguments_eq_ok.mp h).elim
  | cons arg params =>
    cases arg with
    | ident name =>
      simp only [filtered, bind_eq_ok] at h
      obtain ⟨start, u, hstart, body, v, hbody, stop, w, hstop, h⟩ := h
      cases hparams : params.mapM TagArg.asExpr? with
      | none => simp [hparams, badArguments_eq_ok] at h
      | some es =>
        simp only [hparams, bind_eq_ok, pure_eq_ok] at h
        obtain ⟨inner, x, hes, call, y, hcall, off, z, hoff, push, s₁, hpush, write, s₂, hwrite,
          pop, s₃, hpop, rfl, rfl⟩ := h
        have hcollected := ((op_nested (a := a) hstart rfl (by simp)).append (he hbody a)).append
          (op_nested (a := a) hstop rfl (by simp))
        have happlied := (hcollected.append (exprs_nested hes)).append (applyFilter_nested hcall)
        exact (((happlied.append (value_nested hoff rfl)).append
          (op_nested (a := a) hpush rfl (by simp))).append (value_nested hwrite rfl)).append
            (op_nested (a := a) hpop rfl (by simp))
    | _ => exact (badArguments_eq_ok.mp h).elim

/-- Output with escaping turned on or off. -/
theorem escaping_nested {args : List TagArg} {e : Emission Fragment} (he : ClosesScopes e) :
    ClosesScopes (escaping args e) := by
  intro s t code h a
  cases hconst : (args.head?.bind TagArg.asExpr?).bind Expr.asConst? with
  | some value =>
    simp only [escaping, hconst, bind_eq_ok, pure_eq_ok] at h
    obtain ⟨mode, u, hmode, push, v, hpush, body, w, hbody, pop, x, hpop, rfl, rfl⟩ := h
    exact (((value_nested hmode rfl).append (op_nested (a := a) hpush rfl (by simp))).append
      (he hbody a)).append (op_nested (a := a) hpop rfl (by simp))
  | none => simp [escaping, hconst, badArguments_eq_ok] at h

end Emission

end Templating
