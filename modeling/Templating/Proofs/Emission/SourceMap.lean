import Templating.Proofs.Emission.Composition
import Templating.Proofs.Emission.Origins
import Templating.Proofs.Emission.TagCode
import Templating.Proofs.Emission.Tame

/-!
# The places of emitted code

Emission writes each instruction with the file and the line that it is at. Expressions, filters of
output points and labels set the line to their own, and the file changes for the code of another
template only and is restored behind it. So what holds of the places of code can be read off where
emission stands: in which file, and whether the line is one of that file or one that the code of
another template left behind.
-/

namespace Templating

variable {s : TemplateSet} {away : Instruction → Prop} {file : String} {st t u v : EmissionState}

/-- The tables grow that instructions and their places refer to. -/
structure EmissionState.GrowsTo (st t : EmissionState) : Prop where
  files : st.files.toList <+: t.files.toList
  filters : st.filters.size ≤ t.filters.size
  macros : st.macros.size ≤ t.macros.size

/-- Nothing is added. -/
theorem EmissionState.GrowsTo.refl (st : EmissionState) : st.GrowsTo st :=
  ⟨List.prefix_rfl, Nat.le_refl _, Nat.le_refl _⟩

/-- One thing is added after the other. -/
theorem EmissionState.GrowsTo.trans (h : st.GrowsTo t) (h' : t.GrowsTo u) : st.GrowsTo u :=
  ⟨h.files.trans h'.files, Nat.le_trans h.filters h'.filters, Nat.le_trans h.macros h'.macros⟩

/-- The instruction comes from a file of the table that is named like a template, and from a line on
which something starts in it; or it is of the kind that may be away, and something starts on the
line in some template. A filter or macro that it refers to is in the table. -/
structure Placed.Located (s : TemplateSet) (away : Instruction → Prop) (st : EmissionState)
    (p : Placed) : Prop where
  place : ∃ t ∈ s.templates, st.files[p.file]? = some t.name ∧
    (s.StartsOn t.name p.line ∨ away p.instruction ∧ ∃ other, s.StartsOn other p.line)
  refers : p.instruction.RefersWithin st.filters.size st.macros.size

/-- The code consists of such instructions. -/
def Code.Located (s : TemplateSet) (away : Instruction → Prop) (st : EmissionState) (c : Code) :
    Prop :=
  ∃ f : Fragment, c = Code.ofFragment f ∧ ∀ p ∈ f, p.Located s away st

/-- Prefix operators refer to nothing. -/
theorem UnaryOp.instruction_refersWithin (o : UnaryOp) (filters macros : Nat) :
    o.instruction.RefersWithin filters macros := by
  cases o <;> trivial

/-- Infix operators refer to nothing. -/
theorem BinaryOp.instruction_refersWithin (o : BinaryOp) (filters macros : Nat) :
    o.instruction.RefersWithin filters macros := by
  cases o <;> trivial

namespace Expr

/-- The lines of expressions are those of each of them. -/
theorem linesOfAll_eq_flatMap (es : List Expr) : linesOfAll es = es.flatMap lines := by
  induction es with
  | nil => rfl
  | cons e rest ih => rw [linesOfAll, ih, List.flatMap_cons]

/-- The lines of the entries of a map literal are those of their keys and values. -/
theorem linesOfEntries_eq_flatMap (entries : List (Expr × Expr)) :
    linesOfEntries entries = (entries.flatMap fun entry => [entry.1, entry.2]).flatMap lines := by
  induction entries with
  | nil => rfl
  | cons entry rest ih => simp [linesOfEntries, ih]

/-- The lines of an expression are its own and those of its parts. -/
theorem lines_eq (e : Expr) : e.lines = e.line :: e.parts.flatMap lines := by
  cases e <;> simp [lines, line, span, parts, linesOfAll_eq_flatMap, linesOfEntries_eq_flatMap]

end Expr

/-- Files and macros keep their numbers when the tables grow. -/
theorem Placed.Located.mono {p : Placed} (h : p.Located s away st) (hgrows : st.GrowsTo t) :
    p.Located s away t := by
  obtain ⟨⟨template, htemplate, hname, hline⟩, hrefers⟩ := h
  exact ⟨⟨template, htemplate, getElem?_of_prefix_toList hgrows.files hname, hline⟩,
    hrefers.mono hgrows.filters hgrows.macros⟩

/-- Files and macros keep their numbers when the tables grow. -/
theorem Code.Located.mono {c : Code} (h : c.Located s away st) (hgrows : st.GrowsTo t) :
    c.Located s away t := by
  obtain ⟨f, rfl, hf⟩ := h
  exact ⟨f, rfl, fun p hp => (hf p hp).mono hgrows⟩

namespace EmissionState

/-- The current file is the one of that name, which is the name of a template. -/
def In (s : TemplateSet) (file : String) (st : EmissionState) : Prop :=
  st.files[st.file]? = some file ∧ ∃ t ∈ s.templates, t.name = file

/-- The file does not change with the line. -/
theorem In.onLine {st : EmissionState} {line : Nat} (h : st.In s file) :
    In s file { st with line } := h

/-- The current file is the one of that name, and the current line is one of some template on which
something starts there; if emission is at home it is one of the template of that name. -/
structure Stands (s : TemplateSet) (file : String) (home : Prop) (st : EmissionState) : Prop where
  isIn : st.In s file
  known : ∃ other, s.StartsOn other st.line
  home : home → s.StartsOn file st.line

/-- On a line of the current file emission is at home. -/
theorem Stands.of_startsOn {st : EmissionState} {home : Prop} (hin : st.In s file)
    (hline : s.StartsOn file st.line) : st.Stands s file home :=
  ⟨hin, ⟨file, hline⟩, fun _ => hline⟩

/-- Less may be asked for. -/
theorem Stands.imp {st : EmissionState} {home home' : Prop} (h : st.Stands s file home)
    (himp : home' → home) : st.Stands s file home' :=
  ⟨h.isIn, h.known, h.home ∘ himp⟩

/-- Leaving room for an instruction changes nothing about places. -/
theorem Stands.reserved {st : EmissionState} {home : Prop} (h : st.Stands s file home) :
    Stands s file home { st with next := st.next + 1 } :=
  ⟨h.isIn, h.known, h.home⟩

end EmissionState

namespace Emission

/-- What emission between two states does with places: the file stays, the tables grow, and the code
that is emitted, here and for macros, is located. -/
structure Maps (s : TemplateSet) (away : Instruction → Prop) (st t : EmissionState)
    (code : Fragment) : Prop where
  sameFile : t.file = st.file
  grows : st.GrowsTo t
  macros : (∀ decl ∈ st.macros, decl.code.Located s away st) →
    ∀ decl ∈ t.macros, decl.code.Located s away t
  code : ∀ p ∈ code, p.Located s away t

/-- Emission ends in the file it began in. -/
structure Mapped (s : TemplateSet) (away : Instruction → Prop) (file : String) (home : Prop)
    (st : EmissionState) (code : Fragment) (t : EmissionState) : Prop
    extends Maps s away st t code where
  stands : t.Stands s file home

variable {first second code : Fragment} {home home' : Prop} {isFilter : String → Bool}

namespace Maps

/-- No code was emitted. -/
theorem nil (st : EmissionState) : Maps s away st st [] :=
  ⟨rfl, .refl st, id, fun _ hp => absurd hp List.not_mem_nil⟩

/-- One piece of code was emitted after the other. -/
theorem append (h : Maps s away st t first) (h' : Maps s away t u second) :
    Maps s away st u (first ++ second) where
  sameFile := h'.sameFile.trans h.sameFile
  grows := h.grows.trans h'.grows
  macros := h'.macros ∘ h.macros
  code p hp := by
    rcases List.mem_append.mp hp with hp | hp
    · exact (h.code p hp).mono h'.grows
    · exact h'.code p hp

/-- The state was changed in other respects before. -/
theorem behind (h : Maps s away t u code) (hfile : t.file = st.file) (hfiles : t.files = st.files)
    (hfilters : st.filters.size ≤ t.filters.size) (hmacros : t.macros = st.macros) :
    Maps s away st u code :=
  have hgrows : st.GrowsTo t := ⟨hfiles ▸ List.prefix_rfl, hfilters, hmacros ▸ Nat.le_refl _⟩
  { sameFile := h.sameFile.trans hfile
    grows := hgrows.trans h.grows
    macros := fun hst => h.macros fun decl hdecl => (hst decl (hmacros ▸ hdecl)).mono hgrows
    code := h.code }

/-- One instruction was emitted. -/
theorem single {i : Instruction} (hst : st.Stands s file home) (hi : home ∨ away i)
    (hrefers : i.RefersWithin st.filters.size st.macros.size := by trivial) :
    Maps s away st { st with next := st.next + 1 } [⟨i, st.file, st.line⟩] where
  sameFile := rfl
  grows := ⟨List.prefix_rfl, Nat.le_refl _, Nat.le_refl _⟩
  macros hst decl hdecl := (hst decl hdecl).mono ⟨List.prefix_rfl, Nat.le_refl _, Nat.le_refl _⟩
  code p hp := by
    obtain rfl := List.mem_singleton.mp hp
    obtain ⟨hfile, t, ht, rfl⟩ := hst.isIn
    exact ⟨⟨t, ht, hfile, hi.imp hst.home fun haway => ⟨haway, hst.known⟩⟩, hrefers⟩

/-- The current file has the same name afterwards. -/
theorem isIn (h : Maps s away st t code) (hst : st.In s file) : t.In s file := by
  rw [EmissionState.In, h.sameFile]
  exact ⟨getElem?_of_prefix_toList h.grows.files hst.1, hst.2⟩

end Maps

namespace Mapped

/-- One piece of code was emitted after the other. -/
theorem append (h : Mapped s away file home st first t)
    (h' : Mapped s away file home' t second u) : Mapped s away file home' st (first ++ second) u :=
  ⟨h.toMaps.append h'.toMaps, h'.stands⟩

/-- No code was emitted. -/
theorem nil (hst : st.Stands s file home) : Mapped s away file home st [] st := ⟨.nil st, hst⟩

/-- Only the line was changed before. -/
theorem afterLine {line : Nat} (h : Mapped s away file home { st with line } code t) :
    Mapped s away file home st code t :=
  ⟨h.toMaps.behind rfl rfl (Nat.le_refl _) rfl, h.stands⟩

/-- Less may be asked for. -/
theorem imp (h : Mapped s away file home st code t) (himp : home' → home) :
    Mapped s away file home' st code t :=
  ⟨h.toMaps, h.stands.imp himp⟩

/-- Room was left for an instruction, which is written in front of the code behind it. -/
theorem cons {i : Instruction} (hst : st.Stands s file home) (hi : home ∨ away i)
    (h : Mapped s away file home' { st with next := st.next + 1 } code t)
    (hrefers : i.RefersWithin st.filters.size st.macros.size := by trivial) :
    Mapped s away file home' st (⟨i, st.file, st.line⟩ :: code) t :=
  ⟨(Maps.single hst hi hrefers).append h.toMaps, h.stands⟩

end Mapped

/-- One instruction. -/
theorem op_mapped {i : Instruction} (hst : st.Stands s file home) (hi : home ∨ away i)
    (h : op i st = .ok (code, t))
    (hrefers : i.RefersWithin st.filters.size st.macros.size := by trivial) :
    Mapped s away file home st code t := by
  obtain ⟨rfl, rfl⟩ := op_eq_ok.mp h
  exact ⟨.single hst hi hrefers, hst.reserved⟩

/-- A filter is applied. -/
theorem applyFilter_mapped {name : String} {args : Nat} (hst : st.Stands s file home)
    (hi : home ∨ ∀ filter args, away (.applyFilter filter args))
    (h : applyFilter isFilter name args st = .ok (code, t)) :
    Mapped s away file home st code t := by
  obtain ⟨-, rfl, rfl⟩ := applyFilter_eq_ok.mp h
  let u : EmissionState := { st with filters := (intern st.filters name).2 }
  have hu : u.Stands s file home := ⟨hst.isIn, hst.known, hst.home⟩
  have hmaps : Maps s away u { u with next := u.next + 1 }
      [⟨.applyFilter (intern st.filters name).1 args, u.file, u.line⟩] :=
    .single hu (hi.imp_right fun haway => haway _ _)
      (Array.getElem?_eq_some_iff.mp (getElem?_intern st.filters name)).1
  have hsize : st.filters.size ≤ u.filters.size := by
    simpa using (prefix_intern st.filters name).length_le
  exact ⟨hmaps.behind rfl rfl hsize rfl, hu.reserved⟩

section Expressions

/-- The current line was set to one on which something starts. -/
theorem stands_line (hst : st.In s file) {line : Nat} (hline : s.StartsOn file line) :
    EmissionState.Stands s file True { st with line } :=
  .of_startsOn hst hline

/-- Something starts in the current file on every line of an expression. -/
def StartsThroughout (s : TemplateSet) (file : String) (e : Expr) : Prop :=
  ∀ line ∈ e.lines, s.StartsOn file line

/-- What starts throughout an expression starts throughout its parts. -/
theorem StartsThroughout.parts {e : Expr} (he : StartsThroughout s file e) :
    ∀ d ∈ e.parts, StartsThroughout s file d := by
  intro d hd line hline
  refine he line ?_
  rw [Expr.lines_eq]
  exact List.mem_cons_of_mem _ (List.mem_flatMap.mpr ⟨d, hd, hline⟩)

/-- On a line of the current file, the action emits code that is located and stays in that file. -/
def LocatesHere (s : TemplateSet) (away : Instruction → Prop) (file : String)
    (x : Emission Fragment) : Prop :=
  ∀ ⦃st t : EmissionState⦄ ⦃code : Fragment⦄, st.Stands s file True →
    x st = .ok (code, t) → Mapped s away file True st code t

/-- Where the line is set first, it does not matter on which line emission stands. -/
theorem LocatesHere.afterLine {e : Expr} {x : Emission Fragment} (hx : LocatesHere s away file x)
    (he : StartsThroughout s file e) (hst : st.In s file)
    (h : onLine e.line x st = .ok (code, t)) : Mapped s away file True st code t := by
  simp only [onLine, bind_eq_ok, setLine_eq_ok] at h
  obtain ⟨_, _, rfl, h⟩ := h
  have hline : s.StartsOn file e.line := he _ (by rw [Expr.lines_eq]; exact List.mem_cons_self)
  exact (hx (stands_line hst hline) h).afterLine

/-- Whatever code is put together for expressions, it is located. -/
theorem locatesHere_compositional (isFilter : String → Bool) :
    Compositional isFilter (StartsThroughout s file) (LocatesHere s away file) where
  nothing := by
    intro st t code hst h
    obtain ⟨rfl, rfl⟩ := pure_eq_ok.mp h
    exact .nil hst
  andThen hx hy := by
    intro st t code hst h
    simp only [andThen, bind_eq_ok, pure_eq_ok] at h
    obtain ⟨first, u, hfirst, second, v, hsecond, rfl, rfl⟩ := h
    have hfirst := hx hst hfirst
    exact hfirst.append (hy hfirst.stands hsecond)
  onLine he hx := fun _ _ _ hst h => hx.afterLine he hst.isIn h
  skipping hjump hx := by
    intro st t code hst h
    simp only [skipping, bind_eq_ok, reserve_eq_ok, here_eq_ok, pure_eq_ok] at h
    obtain ⟨_, _, ⟨rfl, rfl⟩, second, u, hsecond, _, _, ⟨rfl, rfl⟩, rfl, rfl⟩ := h
    exact .cons hst (.inl trivial) (hx hst.reserved hsecond) (by cases hjump <;> trivial)
  own {e} _ hshortcut := by
    intro st t code hst h
    cases e with
    | filter name subject args span => exact applyFilter_mapped hst (.inl trivial) h
    | unary o operand span =>
      exact op_mapped hst (.inl trivial) h (o.instruction_refersWithin _ _)
    | binary o left right span =>
      exact op_mapped hst (.inl trivial) h (o.instruction_refersWithin _ _)
    | _ => exact op_mapped hst (.inl trivial) h
  emit := fun _ _ _ hst h => op_mapped hst (.inl trivial) h

/-- The code of an expression, which sets the line. -/
theorem expr_mapped {e : Expr} (hlines : ∀ line ∈ e.lines, s.StartsOn file line)
    (hst : st.In s file) (h : expr isFilter e st = .ok (code, t)) :
    Mapped s away file True st code t := by
  obtain ⟨x, hx, hlocates⟩ :=
    (locatesHere_compositional isFilter).exists_onLine (fun _ he => he.parts) hlines
  exact LocatesHere.afterLine hlocates hlines hst (hx ▸ h)

/-- The code of expressions one after the other; where there are none nothing changes. -/
theorem exprs_mapped {es : List Expr} (hlines : ∀ line ∈ Expr.linesOfAll es, s.StartsOn file line)
    (hst : st.Stands s file True) (h : exprs isFilter es st = .ok (code, t)) :
    Mapped s away file True st code t := by
  rw [Expr.linesOfAll_eq_flatMap] at hlines
  exact (locatesHere_compositional isFilter).exprs (fun _ he => he.parts)
    (fun e he line hline => hlines line (List.mem_flatMap.mpr ⟨e, he, hline⟩)) hst h

/-- The code of an output point, which sets the line. -/
theorem output_mapped {subject : Expr} {filters : List FilterCall}
    (hsubject : ∀ line ∈ subject.lines, s.StartsOn file line)
    (hfilters : ∀ line ∈ filters.flatMap FilterCall.lines, s.StartsOn file line)
    (hst : st.In s file) (h : output isFilter subject filters st = .ok (code, t)) :
    Mapped s away file True st code t := by
  simp only [output, bind_eq_ok, pure_eq_ok] at h
  obtain ⟨first, u, hfirst, second, v, hsecond, last, w, hop, rfl, rfl⟩ := h
  have hfirst : Mapped s away file True _ _ _ := expr_mapped hsubject hst hfirst
  have hchain : ∀ f ∈ filters, StartsThroughout s file f.asExpr := fun f hf line hline => by
    refine hfilters line (List.mem_flatMap.mpr ⟨f, hf, ?_⟩)
    simpa [FilterCall.asExpr, Expr.lines, FilterCall.lines] using hline
  have hsecond : Mapped s away file True u second v :=
    (locatesHere_compositional isFilter).filterChain (fun _ he => he.parts) hchain hfirst.stands
      hsecond
  exact (hfirst.append hsecond).append (op_mapped hsecond.stands (.inl trivial) hop)

end Expressions

/-! ## Tags -/

/-- What emits code from a state in a file ends in the file again, and at home if it was at home and
stays there. -/
def Locates (s : TemplateSet) (away : Instruction → Prop) (file : String) (stays : Prop)
    (x : Emission Fragment) : Prop :=
  ∀ ⦃home : Prop⦄ ⦃st t : EmissionState⦄ ⦃code : Fragment⦄, st.Stands s file home →
    x st = .ok (code, t) → Mapped s away file (home ∧ stays) st code t

section Tags

variable {args : List TagArg} {body : Emission Fragment} {stays : Prop}

/-- The instructions that a tag emits behind what it encloses stand at home, or may be away. -/
def Resumes (away : Instruction → Prop) (stays : Prop) (name : String) (args : List TagArg) :
    Prop :=
  stays ∨ ∀ i : Instruction, i.closes name args = true → away i

/-- One such instruction. -/
theorem Resumes.closing {name : String} (h : Resumes away stays name args) {i : Instruction}
    (hi : i.closes name args = true) : stays ∨ away i :=
  h.imp_right fun haway => haway i hi

/-- The lines of an argument are among those of the arguments. -/
theorem startsOn_of_mem (hlines : ∀ line ∈ args.flatMap TagArg.lines, s.StartsOn file line)
    {e : Expr} (he : TagArg.expr e ∈ args) : ∀ line ∈ e.lines, s.StartsOn file line :=
  fun line hline => hlines line (List.mem_flatMap.mpr ⟨_, he, hline⟩)

/-- The code that stores the loop variables. -/
theorem loopTargets_mapped {targets : Emission Fragment}
    (htargets : loopTargets? args = some targets) (hst : st.Stands s file True)
    (h : targets st = .ok (code, t)) :
    Mapped s away file True st code t := by
  have htwo {i j : Instruction} (hi : ∀ filters macros, i.RefersWithin filters macros)
      (hj : ∀ filters macros, j.RefersWithin filters macros)
      (h : (do let store ← op i; return store ++ (← op j) : Emission Fragment) st = .ok (code, t)) :
      Mapped s away file True st code t := by
    simp only [bind_eq_ok, pure_eq_ok] at h
    obtain ⟨store, u, hstore, last, v, hlast, rfl, rfl⟩ := h
    have hstore : Mapped s away file True _ _ _ := op_mapped hst (.inl trivial) hstore (hi _ _)
    exact hstore.append (op_mapped hstore.stands (.inl trivial) hlast (hj _ _))
  unfold loopTargets? at htargets
  split at htargets
  · obtain rfl := Option.some.inj htargets
    exact htwo (by simp [Instruction.RefersWithin]) (by simp [Instruction.RefersWithin]) h
  · obtain rfl := Option.some.inj htargets
    exact htwo (by simp [Instruction.RefersWithin]) (by simp [Instruction.RefersWithin]) h
  · simp at htargets

/-- The code of a loop. -/
theorem loop_mapped {other? : Option (Emission Fragment)} {stays' : Prop}
    (hlines : ∀ line ∈ args.flatMap TagArg.lines, s.StartsOn file line)
    (hbody : Locates s away file stays body)
    (hother : ∀ other ∈ other?, Locates s away file stays' other)
    (hresumes : Resumes away stays "for" args) (hst : st.In s file)
    (h : loop isFilter args body other? st = .ok (code, t)) :
    Mapped s away file (stays ∧ stays') st code t := by
  cases hlast : args.getLast? with
  | none => simp [loop, hlast, badArguments_eq_ok] at h
  | some arg =>
    cases htargets : loopTargets? args.dropLast with
    | none => cases arg <;> simp [loop, hlast, htargets, badArguments_eq_ok] at h
    | some targets =>
      cases arg with
      | expr e =>
        simp only [loop, hlast, htargets, bind_eq_ok, here_eq_ok, reserve_eq_ok] at h
        obtain ⟨subject, u, hsubject, push, v, hpush, _, _, ⟨rfl, rfl⟩, _, _, ⟨rfl, rfl⟩, stores, w,
          hstores, inner, x, hinner, back, y, hback, _, _, ⟨rfl, rfl⟩, h⟩ := h
        have hsubject : Mapped s away file True _ _ _ :=
          expr_mapped (startsOn_of_mem hlines (List.mem_of_getLast? hlast)) hst hsubject
        have hpush : Mapped s away file True _ _ _ :=
          op_mapped hsubject.stands (.inl trivial) hpush
        have hstores : Mapped s away file True _ _ _ :=
          loopTargets_mapped htargets hpush.stands.reserved hstores
        have hinner := (hbody hstores.stands hinner).imp fun h : stays => ⟨trivial, h⟩
        have hback := op_mapped hinner.stands (hresumes.closing rfl) hback
        have hwhole := (hsubject.append hpush).append
          (.cons (i := .iterate y.next) hpush.stands (.inl trivial)
            ((hstores.append hinner).append hback))
        cases other? with
        | none =>
          simp only [bind_eq_ok, pure_eq_ok] at h
          obtain ⟨pop, z, hpop, rfl, rfl⟩ := h
          have hpop := op_mapped hback.stands (hresumes.closing rfl) hpop
          simpa [List.append_assoc] using (hwhole.append hpop).imp And.left
        | some other =>
          simp only [bind_eq_ok, reserve_eq_ok, here_eq_ok, pure_eq_ok] at h
          obtain ⟨missed, z, hmissed, pop, x₁, hpop, _, _, ⟨rfl, rfl⟩, otherwise, x₂, hotherwise, _,
            _, ⟨rfl, rfl⟩, rfl, rfl⟩ := h
          have hmissed := op_mapped hback.stands (hresumes.closing rfl) hmissed
          have hpop := op_mapped hmissed.stands (hresumes.closing rfl) hpop
          have hotherwise := hother other rfl hpop.stands.reserved hotherwise
          have htest := Mapped.cons (i := .jumpIfFalse x₂.next) hpop.stands (hresumes.closing rfl)
            hotherwise
          simpa [List.append_assoc] using ((hwhole.append hmissed).append hpop).append htest
      | _ => simp [loop, hlast, htargets, badArguments_eq_ok] at h

/-- The code of an assignment. -/
theorem assignment_mapped (hlines : ∀ line ∈ args.flatMap TagArg.lines, s.StartsOn file line)
    (hst : st.In s file) (h : assignment isFilter args st = .ok (code, t)) :
    Mapped s away file True st code t := by
  unfold assignment at h
  split at h
  · next name e =>
    simp only [bind_eq_ok, pure_eq_ok] at h
    obtain ⟨first, u, hfirst, last, v, hlast, rfl, rfl⟩ := h
    have hfirst : Mapped s away file True _ _ _ :=
      expr_mapped (startsOn_of_mem hlines (by simp)) hst hfirst
    exact hfirst.append (op_mapped hfirst.stands (.inl trivial) hlast)
  · exact (badArguments_eq_ok.mp h).elim

/-- Arguments of a filter; where there are any, emission comes home. -/
theorem params_mapped {es : List Expr}
    (hlines : ∀ line ∈ Expr.linesOfAll es, s.StartsOn file line) (hst : st.Stands s file home)
    (h : exprs isFilter es st = .ok (code, t)) :
    Mapped s away file (home ∨ es ≠ []) st code t := by
  cases es with
  | nil =>
    simp only [exprs, pure_eq_ok] at h
    obtain ⟨rfl, rfl⟩ := h
    exact (Mapped.nil hst).imp fun h => h.resolve_right (absurd rfl)
  | cons e rest =>
    simp only [Expr.linesOfAll, List.forall_mem_append] at hlines
    simp only [exprs, bind_eq_ok, pure_eq_ok] at h
    obtain ⟨first, u, hfirst, second, v, hrest, rfl, rfl⟩ := h
    have hfirst : Mapped s away file True _ _ _ := expr_mapped hlines.1 hst.isIn hfirst
    exact (hfirst.append (exprs_mapped hlines.2 hfirst.stands hrest)).imp fun _ => trivial

/-- The code of a filter applied to collected output. -/
theorem filtered_mapped (hlines : ∀ line ∈ args.flatMap TagArg.lines, s.StartsOn file line)
    (hbody : Locates s away file stays body) (hresumes : Resumes away stays "filter" args)
    (hst : st.Stands s file True) (h : filtered isFilter args body st = .ok (code, t)) :
    Mapped s away file stays st code t := by
  unfold filtered at h
  split at h
  · next name params =>
    simp only [bind_eq_ok] at h
    obtain ⟨start, u, hstart, inner, v, hinner, stop, w, hstop, h⟩ := h
    have hstart : Mapped s away file True _ _ _ := op_mapped hst (.inl trivial) hstart
    have hinner := (hbody hstart.stands hinner).imp fun h : stays => ⟨trivial, h⟩
    have hstop := op_mapped hinner.stands (hresumes.closing rfl) hstop
    cases hparams : params.mapM TagArg.asExpr? with
    | none => simp [hparams, badArguments_eq_ok] at h
    | some es =>
      simp only [hparams, bind_eq_ok, pure_eq_ok] at h
      obtain ⟨fragment, x, hes, call, y, hcall, off, z, hoff, push, x₁, hpush, write, x₂, hwrite,
        pop, x₃, hpop, rfl, rfl⟩ := h
      obtain rfl := eq_map_of_mapM_asExpr? hparams
      have hparams : ∀ line ∈ Expr.linesOfAll es, s.StartsOn file line := fun line hline =>
        hlines line (by
          simpa [Expr.linesOfAll_eq_flatMap, TagArg.lines, List.flatMap_map] using hline)
      -- without arguments what follows is emitted on the line where the body ended
      have hback {i : Instruction}
          (hi : es = [] → i.closes "filter" (.ident name :: es.map TagArg.expr) = true) :
          (stays ∨ es ≠ []) ∨ away i := by
        by_cases hnil : es = []
        · exact (hresumes.closing (hi hnil)).imp_left .inl
        · exact .inl (.inr hnil)
      have hes : Mapped s away file _ _ _ _ := params_mapped hparams hstop.stands hes
      have hcall := applyFilter_mapped hes.stands
        (by
          by_cases hnil : es = []
          · exact (hresumes.imp .inl fun haway _ _ => haway _ (by simp [Instruction.closes, hnil]))
          · exact .inl (.inr hnil)) hcall
      have hoff := op_mapped hcall.stands (hback fun hnil => by simp [Instruction.closes, hnil])
        hoff
      have hpush := op_mapped hoff.stands (hback fun hnil => by simp [Instruction.closes, hnil])
        hpush
      have hwrite := op_mapped hpush.stands
        (hback fun hnil => by simp [Instruction.closes, hnil]) hwrite
      have hpop := op_mapped hwrite.stands (hback fun hnil => by simp [Instruction.closes, hnil])
        hpop
      exact ((((((((hstart.append hinner).append hstop).append hes).append hcall).append
        hoff).append hpush).append hwrite).append hpop).imp .inl
  · exact (badArguments_eq_ok.mp h).elim

/-- The code of output with escaping turned on or off. -/
theorem escaping_mapped (hbody : Locates s away file stays body)
    (hresumes : Resumes away stays "autoescape" args) (hst : st.Stands s file True)
    (h : escaping args body st = .ok (code, t)) : Mapped s away file stays st code t := by
  cases hconst : (args.head?.bind TagArg.asExpr?).bind Expr.asConst? with
  | none => simp [escaping, hconst, badArguments_eq_ok] at h
  | some value =>
    simp only [escaping, hconst, bind_eq_ok, pure_eq_ok] at h
    obtain ⟨mode, u, hmode, push, v, hpush, inner, w, hinner, pop, x, hpop, rfl, rfl⟩ := h
    have hmode : Mapped s away file True _ _ _ := op_mapped hst (.inl trivial) hmode
    have hpush : Mapped s away file True _ _ _ := op_mapped hmode.stands (.inl trivial) hpush
    have hinner := (hbody hpush.stands hinner).imp fun h : stays => ⟨trivial, h⟩
    have hpop := op_mapped hinner.stands (hresumes.closing rfl) hpop
    exact ((hmode.append hpush).append hinner).append hpop

/-- The code of a macro is entered into the table, under the number that is returned. -/
theorem macroCode_mapped {name : String} {params : List String} {id : Nat}
    (hbody : Locates s away file stays body) (hst : st.Stands s file True)
    (h : macroCode name params body st = .ok (id, t)) :
    Mapped s away file stays st [] t ∧ id < t.macros.size := by
  obtain ⟨code, u, hinner, rfl, rfl⟩ := macroCode_eq_ok.mp h
  have hstart : EmissionState.Stands s file True { st with next := 0 } :=
    ⟨hst.isIn, hst.known, hst.home⟩
  have hinner := (hbody hstart hinner).imp fun h : stays => ⟨trivial, h⟩
  let decl : MacroDecl := { name, params, code := Code.ofFragment code }
  let entered : EmissionState := { u with next := st.next, macros := u.macros.push decl }
  have hgrows : u.GrowsTo entered := ⟨List.prefix_rfl, Nat.le_refl _, by simp [entered]⟩
  have hmaps : Maps s away st entered [] :=
    { sameFile := hinner.sameFile
      grows := .trans ⟨hinner.grows.files, hinner.grows.filters, hinner.grows.macros⟩ hgrows
      macros := fun hmacros other hother => by
        rcases Array.mem_push.mp hother with hother | rfl
        · exact (hinner.macros (fun d hd => (hmacros d hd).mono
            ⟨List.prefix_rfl, Nat.le_refl _, Nat.le_refl _⟩) other hother).mono hgrows
        · exact ⟨code, rfl, fun p hp => (hinner.code p hp).mono hgrows⟩
      code := by simp }
  exact ⟨⟨hmaps, hinner.stands.isIn, hinner.stands.known, hinner.stands.home⟩, by simp⟩

end Tags

end Emission

end Templating
