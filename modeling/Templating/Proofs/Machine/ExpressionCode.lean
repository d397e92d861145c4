import Templating.Proofs.Emission.Expression
import Templating.Proofs.Machine.Evaluation
import Templating.Proofs.Machine.Runs
import Templating.Proofs.Program.LineTable

/-!
# The code of an expression computes its value

Wherever the code of an expression was emitted, a run through it puts the value of the expression on
the stack and changes nothing else, or stops with the error of the direct evaluation. The induction
follows the recursion of the emitter; the machine keeps its frames, its output and its escaping mode
throughout, so that only the position and the stack have to be followed.
-/

namespace Templating

open Machine (Setting)

/-- The first of two pieces of code stands where its emission began, the second one where it
ended. -/
theorem Emitted.carries {s u : EmissionState} {first second : Fragment} {a b : Nat} {c : Code}
    (h : Emitted s u first a b) (hcarries : c.Carries s.next (first ++ second)) :
    c.Carries s.next first ∧ c.Carries u.next second := by
  rw [h.next_eq]
  exact hcarries.of_append

namespace Emission

/-- A machine in a setting agrees with what an expression is evaluated in: the program has the
filters and files that emission knew in the end, and the machine the same frames, escaping mode and
way of calling. -/
structure Serves (setting : Setting) (m : Machine) (env : Expr.Situation) (t : EmissionState) :
    Prop where
  filters : ∀ {i : Nat} {name : String}, t.filters[i]? = some name →
    ∃ f, env.filter? name = some f ∧ setting.linked.filters[i]? = some f
  file : setting.linked.program.files[t.file]? = some env.place.template
  mode : m.autoescape = env.place.autoescape
  frames : m.frames = env.frames
  invoke : setting.invoke = env.invoke

variable {isFilter : String → Bool} {setting : Setting} {m : Machine} {env : Expr.Situation}
  {s t u : EmissionState} {code : Fragment} {stack : List Value}

/-- What agrees in the end agreed earlier. -/
theorem Serves.before (h : Serves setting m env t) {count : Nat} (hadvances : s.Advances t count) :
    Serves setting m env s where
  filters := fun hname => h.filters (hadvances.getElem?_filters hname)
  file := hadvances.file ▸ h.file
  mode := h.mode
  frames := h.frames
  invoke := h.invoke

/-- The operand of a prefix operator is on the stack, and the operator is applied. -/
theorem unaryOp_delivers {o : UnaryOp} (h : op o.instruction s = .ok (code, t))
    (hcarries : setting.code.Carries s.next code) (v : Value) :
    setting.Delivers s.next t.next (m.moved s.next (v :: stack))
      ((o.apply v).map fun w => m.moved t.next (w :: stack)) := by
  obtain ⟨rfl, rfl⟩ := op_eq_ok.mp h
  exact .single (m := m.moved s.next (v :: stack)) hcarries.head.1 (Machine.execute_unaryOp o v)

/-- One instruction that cannot fail. -/
theorem op_delivers {i : Instruction} (h : op i s = .ok (code, t))
    (hcarries : setting.code.Carries s.next code) {before after : List Value}
    (hexecute : (m.moved s.next before).execute setting.linked setting.invoke setting.code i =
      .ok (m.moved (s.next + 1) after)) :
    setting.Delivers s.next t.next (m.moved s.next before) (.ok (m.moved t.next after)) := by
  obtain ⟨rfl, rfl⟩ := op_eq_ok.mp h
  exact .single (m := m.moved s.next before) hcarries.head.1 hexecute

/-- Both operands are on the stack, and the operator is applied. -/
theorem binaryOp_delivers {o : BinaryOp} (ho : o.shortcut? = none)
    (h : op o.instruction s = .ok (code, t)) (hcarries : setting.code.Carries s.next code)
    (a b : Value) :
    setting.Delivers s.next t.next (m.moved s.next (b :: a :: stack))
      ((o.apply a b).map fun v => m.moved t.next (v :: stack)) := by
  obtain ⟨rfl, rfl⟩ := op_eq_ok.mp h
  exact .single (m := m.moved s.next (b :: a :: stack)) hcarries.head.1
    (Machine.execute_binaryOp ho a b)

/-- The callee and the arguments are on the stack, and the callee is called. -/
theorem call_delivers {callee : Value} {vs : List Value} (hserves : Serves setting m env s)
    (h : op (.call vs.length) s = .ok (code, t)) (hcarries : setting.code.Carries s.next code) :
    setting.Delivers s.next t.next (m.moved s.next (vs.reverse ++ callee :: stack))
      ((env.called callee vs).map fun v => m.moved t.next (v :: stack)) := by
  obtain ⟨rfl, rfl⟩ := op_eq_ok.mp h
  rw [Expr.Situation.called, ← hserves.invoke, ← hserves.frames, ← hserves.mode]
  exact .single (m := m.moved s.next (vs.reverse ++ callee :: stack)) hcarries.head.1
    (Machine.execute_call callee vs)

/-- The subject and the arguments are on the stack, and the filter is applied. -/
theorem applyFilter_delivers {name : String} {subject : Value} {vs : List Value}
    (hserves : Serves setting m env t) (h : applyFilter isFilter name vs.length s = .ok (code, t))
    (hcarries : setting.code.Carries s.next code) :
    setting.Delivers s.next t.next (m.moved s.next (vs.reverse ++ subject :: stack))
      ((env.filtered name subject vs).map fun v => m.moved t.next (v :: stack)) := by
  obtain ⟨_, rfl, rfl⟩ := applyFilter_eq_ok.mp h
  obtain ⟨f, hname, hindex⟩ := hserves.filters (getElem?_intern s.filters name)
  have hplace : Machine.filterPlace setting.linked setting.code (m.moved s.next stack) =
      env.place := by
    have hlocation : setting.linked.program.location? setting.code s.next =
        some ⟨env.place.template, s.line⟩ := by
      simp [Program.location?, hcarries.head.2, hserves.file]
    simp [Machine.filterPlace, Machine.moved, hlocation, hserves.mode]
  rw [Expr.Situation.filtered, hname, ← hplace]
  exact .single (m := m.moved s.next (vs.reverse ++ subject :: stack)) hcarries.head.1
    (Machine.execute_applyFilter hindex subject vs)

/-- Where the code of an operator that may skip its right operand was emitted, the left operand is
run first and by itself. If it decides, one jump leads behind all the code, with its value as the
result; otherwise one step drops its value, and the right operand is run. -/
def RunsLeftFirst (setting : Setting) (env : Expr.Situation) (m : Machine) (stack : List Value)
    (o : BinaryOp) (left right : Expr) (first last : Nat) : Prop :=
  ∃ middle, first ≤ middle ∧ middle < last ∧
    setting.Delivers first middle (m.moved first stack)
      ((left.eval env).map fun a => m.moved middle (a :: stack)) ∧
    ∀ a, left.eval env = .ok a →
      if o.decides a then
        setting.Steps middle (middle + 1) (m.moved middle (a :: stack)) (m.moved last (a :: stack))
      else
        setting.Steps middle (middle + 1) (m.moved middle (a :: stack))
            (m.moved (middle + 1) stack) ∧
          setting.Delivers (middle + 1) last (m.moved (middle + 1) stack)
            ((right.eval env).map fun b => m.moved last (b :: stack))

/-- Runs of both operands around the jump make a run of the operator. -/
theorem runsLeftFirst_of_delivers {o : BinaryOp} {jump : Nat → Instruction} {left right : Expr}
    {first middle last : Nat} (ho : o.shortcut? = some jump) (hfirst : first ≤ middle)
    (hlast : middle < last) (hjump : setting.code.instructions[middle]? = some (jump last))
    (hleft : setting.Delivers first middle (m.moved first stack)
      ((left.eval env).map fun a => m.moved middle (a :: stack)))
    (hright : setting.Delivers (middle + 1) last (m.moved (middle + 1) stack)
      ((right.eval env).map fun b => m.moved last (b :: stack))) :
    RunsLeftFirst setting env m stack o left right first last := by
  refine ⟨middle, hfirst, hlast, hleft, fun a _ => ?_⟩
  have hstep : setting.Steps middle (middle + 1) (m.moved middle (a :: stack))
      (if o.decides a then m.moved last (a :: stack) else m.moved (middle + 1) stack) :=
    .single (m := m.moved middle (a :: stack)) hjump (Machine.execute_shortcut ho last a)
  cases hdecides : o.decides a with
  | true =>
    rw [hdecides] at hstep
    exact hstep
  | false =>
    rw [hdecides] at hstep
    exact ⟨hstep, hright⟩

/-- A run of an operator that may skip its right operand delivers its value. -/
theorem RunsLeftFirst.delivers {o : BinaryOp} {jump : Nat → Instruction} {left right : Expr}
    {span : Span} {first last : Nat} (ho : o.shortcut? = some jump)
    (h : RunsLeftFirst setting env m stack o left right first last) :
    setting.Delivers first last (m.moved first stack)
      ((Expr.eval env (.binary o left right span)).map fun v => m.moved last (v :: stack)) := by
  obtain ⟨middle, hfirst, hlast, hleft, hdecide⟩ := h
  rw [Expr.eval]
  refine .bind hleft hfirst (Nat.le_of_lt hlast) fun a ha => ?_
  have hdecide := hdecide a ha
  cases hdecides : o.decides a with
  | true =>
    rw [hdecides] at hdecide
    exact Setting.Reaches.mono (.single hdecide) (Nat.le_refl _) hlast
  | false =>
    rw [hdecides] at hdecide
    have hright : (right.eval env >>= fun b => o.apply a b) = right.eval env := by
      cases right.eval env with
      | ok b => exact BinaryOp.apply_of_shortcut ho a b
      | error e => rfl
    simp only [Bool.false_eq_true, if_false, hright]
    exact (hdecide.2.mono (Nat.le_succ _) (Nat.le_refl _)).after
      (Setting.Reaches.mono (.single hdecide.1) (Nat.le_refl _) hlast)

mutual

/-- The code of an expression puts its value on the stack. -/
theorem expr_delivers : ∀ {e : Expr} {s t : EmissionState} {code : Fragment} {stack : List Value},
    e.Fits → expr isFilter e s = .ok (code, t) → Serves setting m env t →
      setting.code.Carries s.next code → setting.Delivers s.next t.next (m.moved s.next stack)
        ((e.eval env).map fun v => m.moved t.next (v :: stack))
  | .var name span, s, t, code, stack, _, h, hserves, hcarries => by
    simp only [expr, bind_eq_ok, setLine_eq_ok] at h
    obtain ⟨_, _, rfl, h⟩ := h
    refine op_delivers h hcarries ?_
    rw [← hserves.frames]
    rfl
  | .const value span, s, t, code, stack, _, h, hserves, hcarries => by
    simp only [expr, bind_eq_ok, setLine_eq_ok] at h
    obtain ⟨_, _, rfl, h⟩ := h
    exact op_delivers h hcarries rfl
  | .unary o operand span, s, t, code, stack, hfits, h, hserves, hcarries => by
    simp only [expr, bind_eq_ok, setLine_eq_ok, pure_eq_ok] at h
    obtain ⟨_, _, rfl, first, u, hoperand, last, v, hop, rfl, rfl⟩ := h
    have hfirst := expr_emitted (e := operand) hfits hoperand
    have hlast := unaryOp_emitted hop
    obtain ⟨hcarries₁, hcarries₂⟩ := hfirst.carries hcarries
    exact .bind (expr_delivers (e := operand) hfits hoperand (hserves.before hlast.advances)
      hcarries₁ :) hfirst.next_le hlast.next_le fun a _ => unaryOp_delivers hop hcarries₂ a
  | .binary o left right span, s, t, code, stack, hfits, h, hserves, hcarries => by
    simp only [expr, bind_eq_ok, setLine_eq_ok] at h
    obtain ⟨_, _, rfl, first, u, hleft, h⟩ := h
    have hfirst := expr_emitted hfits.1 hleft
    cases hshortcut : o.shortcut? with
    | some jump =>
      simp only [hshortcut, bind_eq_ok, reserve_eq_ok, here_eq_ok, pure_eq_ok] at h
      obtain ⟨_, _, ⟨rfl, rfl⟩, second, v, hright, _, _, ⟨rfl, rfl⟩, rfl, rfl⟩ := h
      have hsecond := expr_emitted hfits.2 hright
      have hlast := shortcut_emitted hshortcut hsecond
      obtain ⟨hcarries₁, hcarries₂⟩ := hfirst.carries hcarries
      exact (runsLeftFirst_of_delivers hshortcut hfirst.next_le hsecond.next_le hcarries₂.head.1
        (expr_delivers hfits.1 hleft (hserves.before hlast.advances) hcarries₁ :)
        (expr_delivers hfits.2 hright hserves hcarries₂.tail :)).delivers hshortcut
    | none =>
      simp only [hshortcut, bind_eq_ok, pure_eq_ok] at h
      obtain ⟨second, v, hright, last, w, hop, rfl, rfl⟩ := h
      have hsecond := expr_emitted hfits.2 hright
      have hlast := binaryOp_emitted hshortcut hop
      rw [List.append_assoc] at hcarries
      obtain ⟨hcarries₁, hcarries₂⟩ := hfirst.carries hcarries
      obtain ⟨hcarries₂, hcarries₃⟩ := hsecond.carries hcarries₂
      have hserves₂ := hserves.before hlast.advances
      refine .bind (expr_delivers hfits.1 hleft (hserves₂.before hsecond.advances) hcarries₁ :)
        hfirst.next_le (Nat.le_trans hsecond.next_le hlast.next_le) fun a _ => ?_
      rw [BinaryOp.decides_of_no_shortcut hshortcut]
      exact .bind (expr_delivers hfits.2 hright hserves₂ hcarries₂) hsecond.next_le hlast.next_le
        fun b _ => binaryOp_delivers hshortcut hop hcarries₃ a b
  | .attr subject name span, s, t, code, stack, hfits, h, hserves, hcarries => by
    simp only [expr, bind_eq_ok, setLine_eq_ok, pure_eq_ok] at h
    obtain ⟨_, _, rfl, first, u, hsubject, last, v, hop, rfl, rfl⟩ := h
    have hfirst := expr_emitted (e := subject) hfits hsubject
    have hlast := op_emitted hop rfl rfl trivial
    obtain ⟨hcarries₁, hcarries₂⟩ := hfirst.carries hcarries
    exact .bind (expr_delivers (e := subject) hfits hsubject (hserves.before hlast.advances)
      hcarries₁ :) hfirst.next_le hlast.next_le fun a _ => op_delivers hop hcarries₂ rfl
  | .item subject key span, s, t, code, stack, hfits, h, hserves, hcarries => by
    simp only [expr, bind_eq_ok, setLine_eq_ok, pure_eq_ok] at h
    obtain ⟨_, _, rfl, first, u, hsubject, second, v, hkey, last, w, hop, rfl, rfl⟩ := h
    have hfirst := expr_emitted hfits.1 hsubject
    have hsecond := expr_emitted hfits.2 hkey
    have hlast := op_emitted hop rfl rfl trivial
    rw [List.append_assoc] at hcarries
    obtain ⟨hcarries₁, hcarries₂⟩ := hfirst.carries hcarries
    obtain ⟨hcarries₂, hcarries₃⟩ := hsecond.carries hcarries₂
    have hserves₂ := hserves.before hlast.advances
    refine .bind (expr_delivers hfits.1 hsubject (hserves₂.before hsecond.advances) hcarries₁ :)
      hfirst.next_le (Nat.le_trans hsecond.next_le hlast.next_le) fun a _ => ?_
    exact .bind (expr_delivers hfits.2 hkey hserves₂ hcarries₂) hsecond.next_le hlast.next_le
      fun b _ => op_delivers hop hcarries₃ rfl
  | .filter name subject args span, s, t, code, stack, hfits, h, hserves, hcarries => by
    simp only [expr, bind_eq_ok, setLine_eq_ok, pure_eq_ok] at h
    obtain ⟨_, _, rfl, first, u, hsubject, second, v, hargs, last, w, hfilter, rfl, rfl⟩ := h
    have hfirst := expr_emitted hfits.1 hsubject
    have hsecond := exprs_emitted hfits.2 hargs
    have hlast := applyFilter_emitted hfilter
    rw [List.append_assoc] at hcarries
    obtain ⟨hcarries₁, hcarries₂⟩ := hfirst.carries hcarries
    obtain ⟨hcarries₂, hcarries₃⟩ := hsecond.carries hcarries₂
    have hserves₂ := hserves.before hlast.advances
    refine .bind (expr_delivers hfits.1 hsubject (hserves₂.before hsecond.advances) hcarries₁ :)
      hfirst.next_le (Nat.le_trans hsecond.next_le hlast.next_le) fun a _ => ?_
    refine .bind (exprs_delivers hfits.2 hargs hserves₂ hcarries₂) hsecond.next_le hlast.next_le
      fun vs hvs => ?_
    rw [← Expr.length_evalAll hvs] at hfilter
    exact applyFilter_delivers hserves hfilter hcarries₃
  | .call callee args span, s, t, code, stack, hfits, h, hserves, hcarries => by
    simp only [expr, bind_eq_ok, setLine_eq_ok, pure_eq_ok] at h
    obtain ⟨_, _, rfl, first, u, hcallee, second, v, hargs, last, w, hop, rfl, rfl⟩ := h
    have hfirst := expr_emitted hfits.1 hcallee
    have hsecond := exprs_emitted hfits.2 hargs
    have hlast := op_emitted hop rfl rfl trivial
    rw [List.append_assoc] at hcarries
    obtain ⟨hcarries₁, hcarries₂⟩ := hfirst.carries hcarries
    obtain ⟨hcarries₂, hcarries₃⟩ := hsecond.carries hcarries₂
    have hserves₂ := hserves.before hlast.advances
    refine .bind (expr_delivers hfits.1 hcallee (hserves₂.before hsecond.advances) hcarries₁ :)
      hfirst.next_le (Nat.le_trans hsecond.next_le hlast.next_le) fun a _ => ?_
    refine .bind (exprs_delivers hfits.2 hargs hserves₂ hcarries₂) hsecond.next_le hlast.next_le
      fun vs hvs => ?_
    rw [← Expr.length_evalAll hvs] at hop
    exact call_delivers hserves₂ hop hcarries₃
  | .list items span, s, t, code, stack, hfits, h, hserves, hcarries => by
    simp only [expr, bind_eq_ok, setLine_eq_ok, pure_eq_ok] at h
    obtain ⟨_, _, rfl, first, u, hitems, last, v, hop, rfl, rfl⟩ := h
    have hfits : Expr.AllFit items := hfits
    have hfirst := exprs_emitted hfits hitems
    have hlast := op_emitted hop rfl rfl trivial
    obtain ⟨hcarries₁, hcarries₂⟩ := hfirst.carries hcarries
    refine .bind (exprs_delivers hfits hitems (hserves.before hlast.advances)
      hcarries₁ :) hfirst.next_le hlast.next_le fun vs hvs => ?_
    rw [← Expr.length_evalAll hvs] at hop
    exact op_delivers hop hcarries₂ (Machine.execute_buildList vs)
  | .map entries span, s, t, code, stack, hfits, h, hserves, hcarries => by
    simp only [expr, bind_eq_ok, setLine_eq_ok, pure_eq_ok] at h
    obtain ⟨_, _, rfl, first, u, hentries, last, v, hop, rfl, rfl⟩ := h
    have hcount := Expr.pairedCount_of_fits hfits.1
    have hfirst := exprEntries_emitted hfits.2 hentries
    have hlast := op_emitted hop hcount rfl trivial
    obtain ⟨hcarries₁, hcarries₂⟩ := hfirst.carries hcarries
    refine .bind (exprEntries_delivers hfits.2 hentries (hserves.before hlast.advances)
      hcarries₁ :) hfirst.next_le hlast.next_le fun pairs hpairs => ?_
    refine op_delivers hop hcarries₂ (Machine.execute_buildMap ?_)
    rw [hcount, Expr.length_evalEntries hpairs]

/-- The code of expressions one after the other puts their values on the stack, the last one on
top. -/
theorem exprs_delivers : ∀ {es : List Expr} {s t : EmissionState} {code : Fragment}
    {stack : List Value}, Expr.AllFit es → exprs isFilter es s = .ok (code, t) →
      Serves setting m env t → setting.code.Carries s.next code →
        setting.Delivers s.next t.next (m.moved s.next stack)
          ((Expr.evalAll env es).map fun vs => m.moved t.next (vs.reverse ++ stack))
  | [], s, t, code, stack, _, h, _, _ => by
    simp only [exprs, pure_eq_ok] at h
    obtain ⟨rfl, rfl⟩ := h
    exact .refl
  | e :: rest, s, t, code, stack, hfits, h, hserves, hcarries => by
    simp only [exprs, bind_eq_ok, pure_eq_ok] at h
    obtain ⟨first, u, hfirst, second, v, hrest, rfl, rfl⟩ := h
    have hemitted := expr_emitted hfits.1 hfirst
    have hemitted' := exprs_emitted hfits.2 hrest
    obtain ⟨hcarries₁, hcarries₂⟩ := hemitted.carries hcarries
    refine .bind (expr_delivers hfits.1 hfirst (hserves.before hemitted'.advances) hcarries₁)
      hemitted.next_le hemitted'.next_le fun a _ => ?_
    refine .bind (exprs_delivers hfits.2 hrest hserves hcarries₂) hemitted'.next_le (Nat.le_refl _)
      fun vs _ => ?_
    simp only [Except.map, List.reverse_cons, List.append_assoc, List.singleton_append]
    exact .refl

/-- The code of the entries of a map literal puts their keys and values on the stack. -/
theorem exprEntries_delivers : ∀ {entries : List (Expr × Expr)} {s t : EmissionState}
    {code : Fragment} {stack : List Value}, Expr.EntriesFit entries →
      exprEntries isFilter entries s = .ok (code, t) → Serves setting m env t →
        setting.code.Carries s.next code → setting.Delivers s.next t.next (m.moved s.next stack)
          ((Expr.evalEntries env entries).map fun pairs =>
            m.moved t.next ((Machine.flatPairs pairs).reverse ++ stack))
  | [], s, t, code, stack, _, h, _, _ => by
    simp only [exprEntries, pure_eq_ok] at h
    obtain ⟨rfl, rfl⟩ := h
    exact .refl
  | (key, value) :: rest, s, t, code, stack, hfits, h, hserves, hcarries => by
    simp only [exprEntries, bind_eq_ok, pure_eq_ok] at h
    obtain ⟨first, u, hkey, second, v, hvalue, third, w, hrest, rfl, rfl⟩ := h
    have hemitted := expr_emitted hfits.1 hkey
    have hemitted' := expr_emitted hfits.2.1 hvalue
    have hemitted'' := exprEntries_emitted hfits.2.2 hrest
    rw [List.append_assoc] at hcarries
    obtain ⟨hcarries₁, hcarries₂⟩ := hemitted.carries hcarries
    obtain ⟨hcarries₂, hcarries₃⟩ := hemitted'.carries hcarries₂
    have hserves₂ := hserves.before hemitted''.advances
    refine .bind (expr_delivers hfits.1 hkey (hserves₂.before hemitted'.advances) hcarries₁)
      hemitted.next_le (Nat.le_trans hemitted'.next_le hemitted''.next_le) fun a _ => ?_
    refine .bind (expr_delivers hfits.2.1 hvalue hserves₂ hcarries₂) hemitted'.next_le
      hemitted''.next_le fun b _ => ?_
    refine .bind (exprEntries_delivers hfits.2.2 hrest hserves hcarries₃) hemitted''.next_le
      (Nat.le_refl _) fun pairs _ => ?_
    have hflat : (Machine.flatPairs ((a, b) :: pairs)).reverse ++ stack =
        (Machine.flatPairs pairs).reverse ++ b :: a :: stack := by
      simp [Machine.flatPairs]
    simp only [Except.map, hflat]
    exact .refl

end

end Emission

/-- A linked program has, under the number of a filter's name, the filter of that name. -/
theorem Program.link_eq_ok {p : Program} {registry : Registry} {linked : LinkedProgram}
    (h : p.link registry = .ok linked) :
    linked.program = p ∧ ∀ {i : Nat} {name : String}, p.filters[i]? = some name →
      ∃ f, registry.filter? name = some f ∧ linked.filters[i]? = some f := by
  obtain ⟨filters, hfilters, h⟩ := Result.bind_eq_ok.mp h
  obtain rfl : ⟨p, filters⟩ = linked := Except.ok.inj h
  refine ⟨rfl, fun {i name} hname => ?_⟩
  have hlist := Array.toList_mapM.symm.trans (congrArg (Array.toList <$> ·) hfilters)
  obtain ⟨hlength, hplaces⟩ := Result.mapM_eq_ok hlist
  rw [← Array.getElem?_toList] at hname
  have hi : i < filters.toList.length := by
    rw [hlength]
    exact (List.getElem?_eq_some_iff.mp hname).1
  have hindex := List.getElem?_eq_getElem hi
  have hf := hplaces hname hindex
  rw [Array.getElem?_toList] at hindex
  cases hfilter : registry.filter? name with
  | none => simp [hfilter, fail] at hf
  | some g =>
    rw [hfilter] at hf
    exact ⟨_, congrArg some (Except.ok.inj hf), hindex⟩

/-- The filter of a linked program under a number is the one of the name that has the number. -/
theorem Program.exists_filter_name {p : Program} {registry : Registry} {linked : LinkedProgram}
    (h : p.link registry = .ok linked) {i : Nat} {f : Filter} (hf : linked.filters[i]? = some f) :
    ∃ name, p.filters[i]? = some name ∧ registry.filter? name = some f := by
  obtain ⟨filters, hfilters, hlinked⟩ := Result.bind_eq_ok.mp h
  obtain rfl : ⟨p, filters⟩ = linked := Except.ok.inj hlinked
  have hlist := Array.toList_mapM.symm.trans (congrArg (Array.toList <$> ·) hfilters)
  have hsize : filters.size = p.filters.size := by simpa using (Result.mapM_eq_ok hlist).1
  have hi : i < p.filters.size := hsize ▸ (Array.getElem?_eq_some_iff.mp hf).1
  have hname := Array.getElem?_eq_getElem hi
  obtain ⟨f', hfilter, hf'⟩ := (link_eq_ok h).2 hname
  obtain rfl : f = f' := Option.some.inj (hf.symm.trans hf')
  exact ⟨p.filters[i], hname, hfilter⟩

namespace Emission

variable {s t : EmissionState} {code : Fragment}

/-- The code of an operator that may skip its right operand runs the left one first. -/
theorem shortcut_runsLeftFirst {isFilter : String → Bool} {setting : Setting}
    {env : Expr.Situation} {m : Machine} {stack : List Value} {o : BinaryOp} {left right : Expr}
    {span : Span} (ho : o.shortcut? ≠ none) (hfits : (Expr.binary o left right span).Fits)
    (h : expr isFilter (.binary o left right span) s = .ok (code, t))
    (hserves : Serves setting m env t) (hcarries : setting.code.Carries s.next code) :
    RunsLeftFirst setting env m stack o left right s.next t.next := by
  obtain ⟨jump, ho⟩ := Option.ne_none_iff_exists'.mp ho
  simp only [expr, bind_eq_ok, setLine_eq_ok, ho, reserve_eq_ok, here_eq_ok, pure_eq_ok] at h
  obtain ⟨_, _, rfl, first, u, hleft, _, _, ⟨rfl, rfl⟩, second, v, hright, _, _, ⟨rfl, rfl⟩, rfl,
    rfl⟩ := h
  have hfirst := expr_emitted hfits.1 hleft
  have hsecond := expr_emitted hfits.2 hright
  have hlast := shortcut_emitted ho hsecond
  obtain ⟨hcarries₁, hcarries₂⟩ := hfirst.carries hcarries
  exact runsLeftFirst_of_delivers ho hfirst.next_le hsecond.next_le hcarries₂.head.1
    (expr_delivers hfits.1 hleft (hserves.before hlast.advances) hcarries₁ :)
    (expr_delivers hfits.2 hright hserves hcarries₂.tail :)

/-- A machine agrees with what it runs in, up to emission states that are part of the program. -/
theorem serves_of_link {registry : Registry} {p : Program} {template : String}
    {setting : Setting} {m : Machine}
    (hlink : p.link registry = .ok setting.linked)
    (hfilters : s.filters.toList <+: p.filters.toList) (hfile : p.files[s.file]? = some template) :
    Serves setting m ⟨registry.filter?, ⟨template, m.autoescape⟩, setting.invoke, m.frames⟩ s := by
  obtain ⟨hprogram, hnames⟩ := Program.link_eq_ok hlink
  refine ⟨fun {i name} hname => hnames ?_, hprogram ▸ hfile, rfl, rfl, rfl⟩
  obtain ⟨more, hmore⟩ := hfilters
  rw [← Array.getElem?_toList] at hname ⊢
  rw [← hmore, List.getElem?_append_left (List.getElem?_eq_some_iff.mp hname).1, hname]

/-- Wherever the code of an expression was emitted, and whatever the machine holds when it gets
there, the run through it ends right behind it with the value of the direct evaluation on top of the
stack and all else as it was, or stops with the error of the direct evaluation. The right operand of
`and` and `or` is run only if the left one does not decide, and the one that decides is the
result. -/
theorem expr_run_eq_eval {registry : Registry} {p : Program} {linked : LinkedProgram}
    {template : String} {e : Expr} (hlinked : p.link registry = .ok linked) (hfits : e.Fits)
    (hcode : expr registry.hasFilter e s = .ok (code, t))
    (hfilters : t.filters.toList <+: p.filters.toList)
    (hfile : p.files[s.file]? = some template) (before after : Fragment)
    (hbefore : before.length = s.next) (invoke : Invocation) (m : Machine) (stack : List Value) :
    let setting : Setting := ⟨linked, invoke, Code.ofFragment (before ++ code ++ after)⟩
    let env : Expr.Situation := ⟨registry.filter?, ⟨template, m.autoescape⟩, invoke, m.frames⟩
    setting.Delivers s.next (s.next + code.length) (m.moved s.next stack)
        ((e.eval env).map fun v => m.moved (s.next + code.length) (v :: stack)) ∧
      ∀ o left right span, o = .and ∨ o = .or → e = .binary o left right span →
        RunsLeftFirst setting env m stack o left right s.next (s.next + code.length) := by
  intro setting env
  have hemitted := expr_emitted hfits hcode
  have hserves : Serves setting m env t :=
    serves_of_link hlinked hfilters (hemitted.advances.file ▸ hfile)
  have hcarries : setting.code.Carries s.next code :=
    hbefore ▸ Code.ofFragment_carries before code after
  rw [← hemitted.next_eq]
  refine ⟨expr_delivers hfits hcode hserves hcarries, ?_⟩
  rintro o left right span ho rfl
  refine shortcut_runsLeftFirst ?_ hfits hcode hserves hcarries
  rcases ho with rfl | rfl <;> simp [BinaryOp.shortcut?]

/-- The code of `a and b|length or {}` behind one other instruction, run with `a` true and `b` a
list of two items, puts the length on the stack without running the map literal. -/
theorem expr_run_eq_eval_of_choice :
    let registry : Registry :=
      { filters := [("length", Filter.length)], tags := [], builtinTags := [] }
    let e : Expr := .binary .or
      (.binary .and (.var "a" {}) (.filter "length" (.var "b" {}) [] {}) {}) (.map [] {}) {}
    let code : Fragment :=
      [⟨.lookup "a", 0, 0⟩, ⟨.jumpIfFalseOrPop 5, 0, 0⟩, ⟨.lookup "b", 0, 0⟩,
        ⟨.applyFilter 0 0, 0, 0⟩, ⟨.jumpIfTrueOrPop 7, 0, 0⟩, ⟨.buildMap 0, 0, 0⟩]
    let p : Program := { name := "t", autoescape := true, files := #["t"], filters := #["length"] }
    let m : Machine :=
      { frames := [{ locals := [("a", .bool true), ("b", .seq [.null, .null])] }]
        autoescape := true }
    expr registry.hasFilter e { next := 1, files := #["t"] } =
        .ok (code, { next := 7, line := 0, files := #["t"], filters := #["length"] }) ∧
      ∀ invoke, Setting.Delivers
        ⟨⟨p, #[Filter.length]⟩, invoke, Code.ofFragment ([⟨.discardTop, 0, 0⟩] ++ code ++ [])⟩
        1 7 (m.moved 1 []) (.ok (m.moved 7 [.ofNat 2])) := by
  intro registry e code p m
  have hcode : expr registry.hasFilter e { next := 1, files := #["t"] } =
      .ok (code, { next := 7, line := 0, files := #["t"], filters := #["length"] }) := by
    simp [-bind_pure_comp, expr, exprs, exprEntries, registry, e, code, bind_eq_ok, setLine_eq_ok,
      op_eq_ok, pure_eq_ok, here_eq_ok, reserve_eq_ok, applyFilter_eq_ok, BinaryOp.shortcut?,
      intern, Registry.hasFilter, Registry.filter?, Registry.find?]
  have hlink : p.link registry = .ok ⟨p, #[Filter.length]⟩ := by
    simp [Program.link, p, registry, Registry.filter?, Registry.find?]
  have hfits : e.Fits := by simp [e, Expr.Fits, Expr.AllFit, Expr.EntriesFit, UInt64.size]
  refine ⟨hcode, fun invoke => ?_⟩
  exact (expr_run_eq_eval hlink hfits hcode List.prefix_rfl rfl [⟨.discardTop, 0, 0⟩] [] rfl
    invoke m []).1

end Emission

end Templating
