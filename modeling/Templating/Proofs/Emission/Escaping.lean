import Templating.Proofs.Emission.Composition
import Templating.Proofs.Emission.Construction
import Templating.Proofs.Emission.Sealed
import Templating.Proofs.Program.LineTable

/-!
# Code that lets no markup through

The code of expressions and of the single constructions is sealed if nothing in them makes markup:
texts and constants have none, nothing is exempted from escaping, and the filters that are applied
to collected output have constants for arguments and decode no percent signs. The last is what the
tag of filters relies on when it writes their results as they are: it asks for no more than that the
output was escaped while it was collected, which says nothing about the arguments. The induction
follows the order of emission.
-/

namespace Templating

namespace Expr

mutual

/-- Constants have no markup, and no filter exempts text from escaping. -/
def isTame : Expr → Bool
  | .var .. => true
  | .const v _ => decide (v.Inert true)
  | .unary _ operand _ => operand.isTame
  | .binary _ left right _ => left.isTame && right.isTame
  | .attr subject _ _ => subject.isTame
  | .item subject key _ => subject.isTame && key.isTame
  | .filter name subject args _ =>
    !Filter.trusting.contains name && subject.isTame && allTame args
  | .call callee args _ => callee.isTame && allTame args
  | .list items _ => allTame items
  | .map entries _ => entriesTame entries

/-- Every expression of a list is tame. -/
def allTame : List Expr → Bool
  | [] => true
  | e :: rest => e.isTame && allTame rest

/-- Every key and every value of a map literal is tame. -/
def entriesTame : List (Expr × Expr) → Bool
  | [] => true
  | (key, value) :: rest => key.isTame && value.isTame && entriesTame rest

end

/-- Expressions are tame if each of them is. -/
theorem allTame_iff {es : List Expr} : allTame es = true ↔ ∀ e ∈ es, e.isTame = true := by
  induction es with
  | nil => simp [allTame]
  | cons e rest ih => rw [allTame, Bool.and_eq_true, ih, List.forall_mem_cons]

/-- The entries of a map literal are tame if their keys and values are. -/
theorem entriesTame_iff {entries : List (Expr × Expr)} : entriesTame entries = true ↔
    ∀ entry ∈ entries, entry.1.isTame = true ∧ entry.2.isTame = true := by
  induction entries with
  | nil => simp [entriesTame]
  | cons entry rest ih =>
    rw [entriesTame, Bool.and_eq_true, Bool.and_eq_true, ih, List.forall_mem_cons]

end Expr

/-- The filters of a chain exempt nothing from escaping, and their arguments are tame. -/
def chainTame (filters : List FilterCall) : Bool :=
  filters.all fun f => !Filter.trusting.contains f.name && Expr.allTame f.args

namespace TagArg

/-- An expression is tame; other arguments are no part of the output. -/
def isTame : TagArg → Bool
  | .expr e => e.isTame
  | _ => true

/-- The argument is a constant. -/
def isConstant (arg : TagArg) : Bool := (arg.asExpr?.bind Expr.asConst?).isSome

/-- The filter that a tag applies to collected output decodes no percent signs, and has constants
for arguments. -/
def filtersOutput : List TagArg → Bool
  | .ident name :: params => name != "url_decode" && params.all isConstant
  | _ => true

end TagArg

namespace Node

/-- The node has no markup, and exempts nothing from escaping. -/
def isUnmarked : Node → Bool
  | .literal text _ => decide (Text.Inert text.toList)
  | .output subject filters _ => subject.isTame && chainTame filters
  | .tag name args _ branches _ =>
    name != "autoescape" && args.all TagArg.isTame &&
      branches.all (fun b => b.args.all TagArg.isTame) &&
      (name != "filter" || !(args.head?.bind TagArg.asIdent?).any Filter.trusting.contains)

/-- If the node applies a filter to collected output, no markup can come of it. -/
def filtersSafely : Node → Bool
  | .tag name args .. => name != "filter" || TagArg.filtersOutput args
  | _ => true

/-- The node makes no markup. -/
def isTame (n : Node) : Bool := n.isUnmarked && n.filtersSafely

end Node

namespace Emission

variable {isFilter : String → Bool} {s t u v w : EmissionState} {code body : Fragment}

/-- One instruction that goes on to the next position. -/
theorem op_sealed {i : Instruction} (h : op i s = .ok (code, t))
    (hi : ∀ linked : LinkedProgram, i.Harmless linked)
    (hsuccessors : i.successors s.next = [s.next + 1]) : Sealed s t code := by
  obtain ⟨rfl, rfl⟩ := op_eq_ok.mp h
  exact .single (fun linked _ => hi linked) hsuccessors

/-- Filters that do not exempt text from escaping are applied. -/
theorem applyFilter_sealed {name : String} {args : Nat} (hname : name ∉ Filter.trusting)
    (h : applyFilter isFilter name args s = .ok (code, t)) : Sealed s t code := by
  obtain ⟨_, rfl, rfl⟩ := applyFilter_eq_ok.mp h
  have hgrows : s.Grows { s with filters := (intern s.filters name).2 } :=
    ⟨prefix_intern s.filters name, fun hs decl hdecl setting hsetting =>
      hs decl hdecl setting (hsetting.of_begins (prefix_intern s.filters name))⟩
  refine Sealed.afterGrows (t := { s with filters := (intern s.filters name).2 })
    (.single (fun linked hknows => ?_) rfl) rfl hgrows
  intro f hf
  exact (hknows.keeps (getElem?_intern s.filters name) hf).1 hname

/-- The parts of tame expressions are tame. -/
theorem isTame_of_mem_parts {d e : Expr} (he : e.isTame = true) (hd : d ∈ e.parts) :
    d.isTame = true := by
  cases e with
  | var | const => cases hd
  | unary | attr =>
    obtain rfl := List.mem_singleton.mp hd
    exact he
  | binary | item =>
    simp only [Expr.isTame, Bool.and_eq_true] at he
    rcases List.mem_cons.mp hd with rfl | hd
    · exact he.1
    · exact List.mem_singleton.mp hd ▸ he.2
  | filter name subject args span =>
    simp only [Expr.isTame, Bool.and_eq_true] at he
    rcases List.mem_cons.mp hd with rfl | hd
    · exact he.1.2
    · exact Expr.allTame_iff.mp he.2 d hd
  | call subject args span =>
    simp only [Expr.isTame, Bool.and_eq_true] at he
    rcases List.mem_cons.mp hd with rfl | hd
    · exact he.1
    · exact Expr.allTame_iff.mp he.2 d hd
  | list items span => exact Expr.allTame_iff.mp he d hd
  | map entries span =>
    obtain ⟨entry, hentry, hd⟩ := List.mem_flatMap.mp hd
    obtain ⟨hkey, hvalue⟩ := Expr.entriesTame_iff.mp he entry hentry
    rcases List.mem_cons.mp hd with rfl | hd
    · exact hkey
    · exact List.mem_singleton.mp hd ▸ hvalue

/-- An action whose code is sealed. -/
def Seals (x : Emission Fragment) : Prop :=
  ∀ ⦃s t : EmissionState⦄ ⦃code : Fragment⦄, x s = .ok (code, t) → Sealed s t code

/-- Whatever code is put together for tame expressions, it is sealed. -/
theorem seals_compositional (isFilter : String → Bool) :
    Compositional isFilter (fun e => e.isTame = true) Seals where
  nothing := by
    intro s t code h
    obtain ⟨rfl, rfl⟩ := pure_eq_ok.mp h
    exact .nil s
  andThen hx hy := by
    intro s t code h
    simp only [andThen, bind_eq_ok, pure_eq_ok] at h
    obtain ⟨first, u, hfirst, second, v, hsecond, rfl, rfl⟩ := h
    exact (hx hfirst).append (hy hsecond)
  onLine _ hx := by
    intro s t code h
    simp only [onLine, bind_eq_ok, setLine_eq_ok] at h
    obtain ⟨_, _, rfl, h⟩ := h
    exact (hx h).afterLine
  skipping hjump hx := by
    intro s t code h
    simp only [skipping, bind_eq_ok, reserve_eq_ok, here_eq_ok, pure_eq_ok] at h
    obtain ⟨_, _, ⟨rfl, rfl⟩, second, u, hsecond, _, _, ⟨rfl, rfl⟩, rfl, rfl⟩ := h
    cases hjump <;> exact .guarded (fun _ => trivial) rfl (hx hsecond)
  own {e} he hshortcut := by
    intro s t code h
    cases e with
    | const value span =>
      have hvalue : value.Inert true := of_decide_eq_true he
      exact op_sealed h (fun _ => hvalue.harmless) rfl
    | filter name subject args span =>
      simp only [Expr.isTame, Bool.and_eq_true, Bool.not_eq_true', List.contains_eq_mem,
        decide_eq_false_iff_not] at he
      exact applyFilter_sealed he.1.1 h
    | unary o operand span => cases o <;> exact op_sealed h (fun _ => trivial) rfl
    | binary o left right span =>
      cases o <;> first
        | exact op_sealed h (fun _ => trivial) rfl
        | cases hshortcut
    | _ => exact op_sealed h (fun _ => trivial) rfl
  emit := fun _ _ _ h => op_sealed h (fun _ => trivial) rfl

/-- The code of a tame expression. -/
theorem expr_sealed {e : Expr} (htame : e.isTame = true) (h : expr isFilter e s = .ok (code, t)) :
    Sealed s t code :=
  (seals_compositional isFilter).expr (fun _ he _ hd => isTame_of_mem_parts he hd) e htame h

/-- The code of a tame output point. -/
theorem output_sealed {subject : Expr} {filters : List FilterCall}
    (hsubject : subject.isTame = true) (hfilters : chainTame filters = true)
    (h : output isFilter subject filters s = .ok (code, t)) : Sealed s t code := by
  refine (seals_compositional isFilter).output (fun _ he _ hd => isTame_of_mem_parts he hd)
    hsubject (fun f hf => ?_) h
  have hf := List.all_eq_true.mp hfilters f hf
  simpa [FilterCall.asExpr, Expr.isTame] using hf

/-! ## Constructions -/

/-- Code that was emitted with another current file, before coming back to the one before. -/
theorem inFile_sealed {name : String} (h : Sealed (entered s name) t code) :
    Sealed s { t with file := s.file } code :=
  ⟨h.next, EmissionState.Grows.trans (t := entered s name) (.of_tables_eq rfl rfl)
    (h.grows.trans (.of_tables_eq rfl rfl)), h.enters⟩

/-- The code of a macro is emitted apart, and stays clean as a whole. -/
theorem macroCode_grows {name : String} {params : List String} {e : Emission Fragment} {id : Nat}
    (h : macroCode name params e s = .ok (id, t))
    (he : ∀ {s t : EmissionState} {code : Fragment}, e s = .ok (code, t) → Sealed s t code) :
    s.Grows t ∧ t.next = s.next := by
  obtain ⟨code, u, hu, rfl, rfl⟩ := macroCode_eq_ok.mp h
  have hbody := he hu
  refine ⟨⟨hbody.grows.filters, fun hs decl hdecl setting hsetting hcode => ?_⟩, rfl⟩
  rcases Array.mem_push.mp hdecl with hdecl | rfl
  · exact hbody.grows.tame hs decl hdecl setting hsetting hcode
  · have hnext : u.next = (Code.ofFragment code).size := by
      rw [Code.size_ofFragment, hbody.next, Nat.zero_add]
    rw [← hnext]
    refine hbody.enters hsetting fun k i hi => ?_
    rw [hcode, Nat.zero_add, Code.getElem?_ofFragment]
    simpa [Fragment.instructions] using hi

/-- An expression among tame arguments. -/
theorem isTame_of_mem {args : List TagArg} (h : args.all TagArg.isTame = true) {e : Expr}
    (he : .expr e ∈ args) : e.isTame = true :=
  List.all_eq_true.mp h _ he

/-- The expression in front of tame arguments. -/
theorem isTame_of_head {args : List TagArg} (h : args.all TagArg.isTame = true) {e : Expr}
    (he : args.head?.bind TagArg.asExpr? = some e) : e.isTame = true :=
  isTame_of_mem h (expr_mem_of_head he)

/-- The loop variables are stored. -/
theorem loopTargets_sealed {args : List TagArg} {targets : Emission Fragment}
    (htargets : loopTargets? args = some targets) (h : targets s = .ok (code, t)) :
    Sealed s t code := by
  unfold loopTargets? at htargets
  split at htargets
  · obtain rfl := Option.some.inj htargets
    simp only [bind_eq_ok, pure_eq_ok] at h
    obtain ⟨store, u, hstore, last, v, hlast, rfl, rfl⟩ := h
    exact (op_sealed hstore (fun _ => trivial) rfl).append (op_sealed hlast (fun _ => trivial) rfl)
  · obtain rfl := Option.some.inj htargets
    simp only [bind_eq_ok, pure_eq_ok] at h
    obtain ⟨store, u, hstore, last, v, hlast, rfl, rfl⟩ := h
    exact (op_sealed hstore (fun _ => trivial) rfl).append (op_sealed hlast (fun _ => trivial) rfl)
  · simp at htargets

/-- An assignment. -/
theorem assignment_sealed {args : List TagArg} (htame : args.all TagArg.isTame = true)
    (h : assignment isFilter args s = .ok (code, t)) : Sealed s t code := by
  unfold assignment at h
  split at h
  · simp only [bind_eq_ok, pure_eq_ok] at h
    obtain ⟨first, u, hfirst, last, v, hlast, rfl, rfl⟩ := h
    exact (expr_sealed (isTame_of_mem htame (by simp)) hfirst).append
      (op_sealed hlast (fun _ => trivial) rfl)
  · simp [badArguments, bind_eq_ok, fail_eq_ok] at h

/-- A loop. -/
theorem loop_sealed {args : List TagArg} {e : Emission Fragment}
    {other? : Option (Emission Fragment)} (htame : args.all TagArg.isTame = true)
    (he : ∀ {s t : EmissionState} {code : Fragment}, e s = .ok (code, t) → Sealed s t code)
    (hother : ∀ {other : Emission Fragment}, other? = some other →
      ∀ {s t : EmissionState} {code : Fragment}, other s = .ok (code, t) → Sealed s t code)
    (h : loop isFilter args e other? s = .ok (code, t)) : Sealed s t code := by
  cases hlast : args.getLast? with
  | none => simp [loop, hlast, badArguments, bind_eq_ok, fail_eq_ok] at h
  | some arg =>
    cases htargets : loopTargets? args.dropLast with
    | none => cases arg <;> simp [loop, hlast, htargets, badArguments, bind_eq_ok, fail_eq_ok] at h
    | some targets =>
      cases arg with
      | expr subject =>
        simp only [loop, hlast, htargets, bind_eq_ok, here_eq_ok, reserve_eq_ok] at h
        obtain ⟨first, u, hfirst, push, v, hpush, _, _, ⟨rfl, rfl⟩, _, _, ⟨rfl, rfl⟩, stores, w,
          hstores, body, x, hbody, back, y, hback, _, _, ⟨rfl, rfl⟩, h⟩ := h
        have hsubject := expr_sealed (isTame_of_mem htame (List.mem_of_getLast? hlast)) hfirst
        have hpush := op_sealed hpush (fun _ => trivial) rfl
        obtain ⟨rfl, rfl⟩ := op_eq_ok.mp hback
        have hloop := ((loopTargets_sealed htargets hstores).append (he hbody)).loop
          (l := v.line) (f := x.line)
        have hwhole := (hsubject.append hpush).append hloop
        cases other? with
        | none =>
          simp only [bind_eq_ok, pure_eq_ok] at h
          obtain ⟨pop, z, hpop, rfl, rfl⟩ := h
          simpa [List.append_assoc] using
            hwhole.append (op_sealed hpop (fun _ => trivial) rfl)
        | some other =>
          simp only [bind_eq_ok, reserve_eq_ok, here_eq_ok, pure_eq_ok] at h
          obtain ⟨missed, z, hmissed, pop, s₁, hpop, _, _, ⟨rfl, rfl⟩, no, s₂, hno, _, _,
            ⟨rfl, rfl⟩, rfl, rfl⟩ := h
          have hmissed := op_sealed hmissed (fun _ => trivial) rfl
          have hpop := op_sealed hpop (fun _ => trivial) rfl
          have hno := (hother rfl hno).guarded (i := .jumpIfFalse s₂.next) (l := s₁.line)
            (fun _ => trivial) rfl
          simpa [List.append_assoc] using ((hwhole.append hmissed).append hpop).append hno
      | _ => simp [loop, hlast, badArguments, bind_eq_ok, fail_eq_ok] at h

/-- Arguments that are tame constants are put on the stack one after the other. -/
theorem exprs_constants {params : List TagArg} {es : List Expr}
    (hes : params.mapM TagArg.asExpr? = some es) (hconstants : params.all TagArg.isConstant = true)
    (htame : params.all TagArg.isTame = true) (h : exprs isFilter es s = .ok (code, t)) :
    ∃ constants : List Value, constants.length = params.length ∧
      (∀ v ∈ constants, v.Inert true) ∧ code.instructions = constants.map .loadConst ∧
      t.filters = s.filters ∧ t.macros = s.macros ∧ t.next = s.next + code.length := by
  induction params generalizing es s code with
  | nil =>
    obtain rfl : [] = es := by simpa using hes
    obtain ⟨rfl, rfl⟩ := pure_eq_ok.mp h
    exact ⟨[], rfl, by simp, rfl, rfl, rfl, rfl⟩
  | cons arg rest ih =>
    rw [List.all_cons, Bool.and_eq_true] at hconstants htame
    rw [List.mapM_cons] at hes
    obtain ⟨e, he, hes⟩ := Option.bind_eq_some_iff.mp hes
    obtain ⟨es', hrest, hes⟩ := Option.bind_eq_some_iff.mp hes
    obtain rfl : e :: es' = es := Option.some.inj hes
    obtain ⟨value, hvalue⟩ := Option.isSome_iff_exists.mp hconstants.1
    rw [he, Option.bind_some] at hvalue
    cases e with
    | const v span =>
      obtain rfl := Option.some.inj hvalue
      have hv : arg.isTame = true → v.Inert true := by
        cases arg <;> simp_all [TagArg.asExpr?, TagArg.isTame, Expr.isTame]
      simp only [exprs, expr, bind_eq_ok, setLine_eq_ok, pure_eq_ok] at h
      obtain ⟨first, u, ⟨_, _, rfl, hfirst⟩, second, w, hsecond, rfl, rfl⟩ := h
      obtain ⟨rfl, rfl⟩ := op_eq_ok.mp hfirst
      obtain ⟨constants, hlength, hinert, hcode, hfilters, hmacros, hnext⟩ :=
        ih hrest hconstants.2 htame.2 hsecond
      refine ⟨v :: constants, congrArg Nat.succ hlength,
        List.forall_mem_cons.mpr ⟨hv htame.1, hinert⟩, congrArg (List.cons _) hcode, hfilters,
        hmacros, ?_⟩
      rw [hnext, List.length_append, List.length_singleton, Nat.add_assoc]
    | _ => simp [Expr.asConst?] at hvalue

/-- The end of a capture, constants, and a filter of the table whose result is written as it is. -/
theorem applied_sealed {constants : List Value} {inner : Fragment} {index f l g k : Nat}
    {name : String} (hinner : inner.instructions = constants.map .loadConst)
    (hinert : ∀ v ∈ constants, v.Inert true) (hname : t.filters[index]? = some name)
    (hdecodes : name ≠ "url_decode") (hgrows : s.Grows t)
    (hnext : t.next = s.next + constants.length + 6) :
    Sealed s t (⟨.endCapture, f, l⟩ :: inner ++
      [⟨.applyFilter index constants.length, g, k⟩, ⟨.loadConst (.bool false), g, k⟩,
        ⟨.pushAutoEscape, g, k⟩, ⟨.emit, g, k⟩, ⟨.popAutoEscape, g, k⟩]) where
  next := by
    have hlength := congrArg List.length hinner
    rw [Fragment.length_instructions, List.length_map] at hlength
    rw [hnext, List.length_append, List.length_cons, hlength]
    simp only [List.length_cons, List.length_nil]
    omega
  grows := hgrows
  enters := fun _ hsetting hcode => by
    rw [List.cons_append, Fragment.instructions_cons, Fragment.instructions_append, hinner] at hcode
    rw [hnext]
    exact .filtered hcode hinert fun f hf => (hsetting.knows.keeps hname hf).2 hdecodes

/-- A filter applied to collected output. What was collected has no markup, and neither have the
constants, so that the filter makes none of it. -/
theorem filtered_sealed {args : List TagArg} {e : Emission Fragment}
    (htame : args.all TagArg.isTame = true) (hfilter : TagArg.filtersOutput args = true)
    (he : ∀ {s t : EmissionState} {code : Fragment}, e s = .ok (code, t) → Sealed s t code)
    (h : filtered isFilter args e s = .ok (code, t)) : Sealed s t code := by
  unfold filtered at h
  split at h
  · rename_i name params
    rw [List.all_cons, Bool.and_eq_true] at htame
    rw [TagArg.filtersOutput, Bool.and_eq_true, bne_iff_ne] at hfilter
    simp only [bind_eq_ok] at h
    obtain ⟨start, u, hstart, body, v, hbody, stop, w, hstop, h⟩ := h
    have hcollected := (op_sealed hstart (fun _ => trivial) rfl).append (he hbody)
    cases hparams : params.mapM TagArg.asExpr? with
    | none => simp [hparams, badArguments, bind_eq_ok, fail_eq_ok] at h
    | some es =>
      simp only [hparams, bind_eq_ok, pure_eq_ok] at h
      obtain ⟨inner, x, hes, call, y, hcall, off, z, hoff, push, s₁, hpush, write, s₂, hwrite, pop,
        s₃, hpop, rfl, rfl⟩ := h
      obtain ⟨rfl, rfl⟩ := op_eq_ok.mp hstop
      obtain ⟨constants, hlength, hinert, hcode, hfilters, hmacros, hnext⟩ :=
        exprs_constants hparams hfilter.2 htame.2 hes
      obtain ⟨_, rfl, rfl⟩ := applyFilter_eq_ok.mp hcall
      obtain ⟨rfl, rfl⟩ := op_eq_ok.mp hoff
      obtain ⟨rfl, rfl⟩ := op_eq_ok.mp hpush
      obtain ⟨rfl, rfl⟩ := op_eq_ok.mp hwrite
      obtain ⟨rfl, rfl⟩ := op_eq_ok.mp hpop
      have hbegins := prefix_intern x.filters name
      have hgrows :
          v.Grows { x with filters := (intern x.filters name).2, next := x.next + 5 } := by
        refine ⟨hfilters ▸ hbegins, fun hv decl hdecl setting hsetting => ?_⟩
        exact hv decl (hmacros ▸ hdecl) setting (hsetting.of_begins (hfilters ▸ hbegins))
      have hsize : inner.length = constants.length := by
        rw [← Fragment.length_instructions, hcode, List.length_map]
      have happlied := applied_sealed (f := v.file) (l := v.line) (g := x.file) (k := x.line) hcode
        hinert (getElem?_intern x.filters name) hfilter.1 hgrows
        (by simp only [hnext, hsize]; omega)
      simpa [List.append_assoc, hlength] using hcollected.append happlied
  · simp [badArguments, bind_eq_ok, fail_eq_ok] at h

end Emission

end Templating
