import Templating.Proofs.Emission.Growth

/-!
# Code of expressions is structured

The code of an expression takes nothing from the stack and leaves one value. The induction follows
the order of emission, operand by operand; a filter is the only thing that touches the tables.
-/

namespace Templating

namespace Expr

mutual

/-- Every map literal in the expression is so short that a machine word can count its keys and
values. -/
def Fits : Expr → Prop
  | .var .. => True
  | .const .. => True
  | .unary _ operand _ => operand.Fits
  | .binary _ left right _ => left.Fits ∧ right.Fits
  | .attr subject _ _ => subject.Fits
  | .item subject key _ => subject.Fits ∧ key.Fits
  | .filter _ subject args _ => subject.Fits ∧ AllFit args
  | .call callee args _ => callee.Fits ∧ AllFit args
  | .list items _ => AllFit items
  | .map entries _ => entries.length * 2 < UInt64.size ∧ EntriesFit entries

/-- Every expression of a list fits. -/
def AllFit : List Expr → Prop
  | [] => True
  | e :: rest => e.Fits ∧ AllFit rest

/-- Every key and every value of a map literal fits. -/
def EntriesFit : List (Expr × Expr) → Prop
  | [] => True
  | (key, value) :: rest => key.Fits ∧ value.Fits ∧ EntriesFit rest

end

/-- The count of keys and values of a map literal that fits is exact. -/
theorem pairedCount_of_fits {entries : List (Expr × Expr)}
    (h : entries.length * 2 < UInt64.size) :
    Machine.pairedCount entries.length = 2 * entries.length := by
  rw [Machine.pairedCount, Nat.mod_eq_of_lt h, Nat.mul_comm]

end Expr

namespace Emission

variable {isFilter : String → Bool} {s t : EmissionState} {code : Fragment}

/-- Applying a filter takes the arguments and the value below them and leaves the result. -/
theorem applyFilter_emitted {name : String} {args : Nat}
    (h : applyFilter isFilter name args s = .ok (code, t)) : Emitted s t code (args + 1) 1 := by
  obtain ⟨_, rfl, rfl⟩ := applyFilter_eq_ok.mp h
  have hfilters := prefix_intern s.filters name
  have hle : s.filters.size ≤ (intern s.filters name).2.size := by simpa using hfilters.length_le
  have hlt : (intern s.filters name).1 < (intern s.filters name).2.size :=
    (Array.getElem?_eq_some_iff.mp (getElem?_intern s.filters name)).1
  refine ⟨⟨⟨rfl, rfl, hfilters, List.prefix_rfl, List.prefix_rfl, fun hs => ?_⟩,
    fun hs => .cons hs.file hlt .nil⟩, .single rfl⟩
  exact ⟨hs.file, nodup_intern hs.filters name, fun decl hdecl =>
    (hs.macros decl hdecl).mono hle (Nat.le_refl _) (Nat.le_refl _)⟩

/-- One instruction that goes on to the next position. -/
theorem op_emitted {i : Instruction} {a b : Nat} (h : op i s = .ok (code, t))
    (htakes : i.takes = a) (hgives : i.gives? = some b)
    (hrefers : i.RefersWithin s.filters.size s.macros.size) : Emitted s t code a b := by
  obtain ⟨rfl, rfl⟩ := op_eq_ok.mp h
  exact htakes ▸ .single hgives hrefers

/-- The right operand of an operator that may skip it, behind the jump that skips it. -/
theorem shortcut_emitted {o : BinaryOp} {jump : Nat → Instruction}
    (hjump : o.shortcut? = some jump)
    (h : Emitted { s with next := s.next + 1 } t code 0 1) :
    Emitted s t (⟨jump t.next, s.file, s.line⟩ :: code) 1 1 := by
  have hcases : jump = .jumpIfFalseOrPop ∨ jump = .jumpIfTrueOrPop := by
    cases o <;> simp [BinaryOp.shortcut?] at hjump <;> simp [← hjump]
  refine ⟨.cons ?_ h.toLaid, ?_⟩
  · rcases hcases with rfl | rfl <;> trivial
  · rw [Fragment.instructions_cons, h.next_eq, ← Fragment.length_instructions]
    exact .shortcut hcases h.structured

/-- The instruction of a prefix operator takes its operand. -/
theorem unaryOp_emitted {o : UnaryOp} (h : op o.instruction s = .ok (code, t)) :
    Emitted s t code 1 1 := by
  cases o <;> exact op_emitted h rfl rfl trivial

/-- The instruction of an operator that does not skip its right operand takes both operands. -/
theorem binaryOp_emitted {o : BinaryOp} (ho : o.shortcut? = none)
    (h : op o.instruction s = .ok (code, t)) : Emitted s t code 2 1 := by
  cases o <;> first
    | exact op_emitted h rfl rfl trivial
    | simp [BinaryOp.shortcut?] at ho

mutual

/-- The code of an expression leaves one value. -/
theorem expr_emitted : ∀ {e : Expr} {s t : EmissionState} {code : Fragment}, e.Fits →
    expr isFilter e s = .ok (code, t) → Emitted s t code 0 1
  | .var name span, s, t, code, _, h => by
    simp only [expr, bind_eq_ok, setLine_eq_ok] at h
    obtain ⟨_, _, rfl, h⟩ := h
    exact (op_emitted h rfl rfl trivial).afterLine
  | .const value span, s, t, code, _, h => by
    simp only [expr, bind_eq_ok, setLine_eq_ok] at h
    obtain ⟨_, _, rfl, h⟩ := h
    exact (op_emitted h rfl rfl trivial).afterLine
  | .unary o operand span, s, t, code, hfits, h => by
    simp only [expr, bind_eq_ok, setLine_eq_ok, pure_eq_ok] at h
    obtain ⟨_, _, rfl, first, u, hoperand, last, v, hop, rfl, rfl⟩ := h
    exact ((expr_emitted (e := operand) hfits hoperand).append (unaryOp_emitted hop)).afterLine
  | .binary o left right span, s, t, code, hfits, h => by
    simp only [expr, bind_eq_ok, setLine_eq_ok] at h
    obtain ⟨_, _, rfl, first, u, hleft, h⟩ := h
    have hleft := expr_emitted hfits.1 hleft
    cases hshortcut : o.shortcut? with
    | some jump =>
      simp only [hshortcut, bind_eq_ok, reserve_eq_ok, here_eq_ok, pure_eq_ok] at h
      obtain ⟨_, _, ⟨rfl, rfl⟩, second, v, hright, _, _, ⟨rfl, rfl⟩, rfl, rfl⟩ := h
      exact (hleft.append (shortcut_emitted hshortcut (expr_emitted hfits.2 hright))).afterLine
    | none =>
      simp only [hshortcut, bind_eq_ok, pure_eq_ok] at h
      obtain ⟨second, v, hright, last, w, hop, rfl, rfl⟩ := h
      have hright := (expr_emitted hfits.2 hright).above 1
      exact ((hleft.append hright).append (binaryOp_emitted hshortcut hop)).afterLine
  | .attr subject name span, s, t, code, hfits, h => by
    simp only [expr, bind_eq_ok, setLine_eq_ok, pure_eq_ok] at h
    obtain ⟨_, _, rfl, first, u, hsubject, last, v, hop, rfl, rfl⟩ := h
    have hcode := expr_emitted (e := subject) hfits hsubject
    exact (hcode.append (op_emitted hop rfl rfl trivial)).afterLine
  | .item subject key span, s, t, code, hfits, h => by
    simp only [expr, bind_eq_ok, setLine_eq_ok, pure_eq_ok] at h
    obtain ⟨_, _, rfl, first, u, hsubject, second, v, hkey, last, w, hop, rfl, rfl⟩ := h
    have hkey := (expr_emitted hfits.2 hkey).above 1
    exact (((expr_emitted hfits.1 hsubject).append hkey).append
      (op_emitted hop rfl rfl trivial)).afterLine
  | .filter name subject args span, s, t, code, hfits, h => by
    simp only [expr, bind_eq_ok, setLine_eq_ok, pure_eq_ok] at h
    obtain ⟨_, _, rfl, first, u, hsubject, second, v, hargs, last, w, hfilter, rfl, rfl⟩ := h
    have hargs := (exprs_emitted hfits.2 hargs).above 1
    rw [Nat.zero_add] at hargs
    exact (((expr_emitted hfits.1 hsubject).append hargs).append
      (applyFilter_emitted hfilter)).afterLine
  | .call callee args span, s, t, code, hfits, h => by
    simp only [expr, bind_eq_ok, setLine_eq_ok, pure_eq_ok] at h
    obtain ⟨_, _, rfl, first, u, hcallee, second, v, hargs, last, w, hop, rfl, rfl⟩ := h
    have hargs := (exprs_emitted hfits.2 hargs).above 1
    rw [Nat.zero_add] at hargs
    exact (((expr_emitted hfits.1 hcallee).append hargs).append
      (op_emitted hop rfl rfl trivial)).afterLine
  | .list items span, s, t, code, hfits, h => by
    simp only [expr, bind_eq_ok, setLine_eq_ok, pure_eq_ok] at h
    obtain ⟨_, _, rfl, first, u, hitems, last, v, hop, rfl, rfl⟩ := h
    exact ((exprs_emitted hfits hitems).append (op_emitted hop rfl rfl trivial)).afterLine
  | .map entries span, s, t, code, hfits, h => by
    simp only [expr, bind_eq_ok, setLine_eq_ok, pure_eq_ok] at h
    obtain ⟨_, _, rfl, first, u, hentries, last, v, hop, rfl, rfl⟩ := h
    exact ((exprEntries_emitted hfits.2 hentries).append
      (op_emitted hop (Expr.pairedCount_of_fits hfits.1) rfl trivial)).afterLine

/-- The code of expressions one after the other leaves as many values. -/
theorem exprs_emitted : ∀ {es : List Expr} {s t : EmissionState} {code : Fragment},
    Expr.AllFit es → exprs isFilter es s = .ok (code, t) → Emitted s t code 0 es.length
  | [], s, t, code, _, h => by
    simp only [exprs, pure_eq_ok] at h
    obtain ⟨rfl, rfl⟩ := h
    exact .nil s 0
  | e :: rest, s, t, code, hfits, h => by
    simp only [exprs, bind_eq_ok, pure_eq_ok] at h
    obtain ⟨first, u, hfirst, second, v, hrest, rfl, rfl⟩ := h
    have hrest := (exprs_emitted hfits.2 hrest).above 1
    exact (expr_emitted hfits.1 hfirst).append hrest

/-- The code of the entries of a map literal leaves a key and a value for each. -/
theorem exprEntries_emitted : ∀ {entries : List (Expr × Expr)} {s t : EmissionState}
    {code : Fragment}, Expr.EntriesFit entries → exprEntries isFilter entries s = .ok (code, t) →
      Emitted s t code 0 (2 * entries.length)
  | [], s, t, code, _, h => by
    simp only [exprEntries, pure_eq_ok] at h
    obtain ⟨rfl, rfl⟩ := h
    exact .nil s 0
  | (key, value) :: rest, s, t, code, hfits, h => by
    simp only [exprEntries, bind_eq_ok, pure_eq_ok] at h
    obtain ⟨first, u, hkey, second, v, hvalue, third, w, hrest, rfl, rfl⟩ := h
    have hvalue := (expr_emitted hfits.2.1 hvalue).above 1
    have hrest := (exprEntries_emitted hfits.2.2 hrest).above 2
    rw [Nat.zero_add] at hrest
    exact ((expr_emitted hfits.1 hkey).append hvalue).append hrest

end

/-- Every argument of every filter in a chain fits. -/
def ChainFits (filters : List FilterCall) : Prop := ∀ f ∈ filters, Expr.AllFit f.args

/-- The code of a filter chain puts the filtered value in place of the value. -/
theorem filterChain_emitted {filters : List FilterCall} (hfits : ChainFits filters)
    (h : filterChain isFilter filters s = .ok (code, t)) : Emitted s t code 1 1 := by
  induction filters generalizing s code with
  | nil =>
    obtain ⟨rfl, rfl⟩ := pure_eq_ok.mp h
    exact .nil s 1
  | cons f rest ih =>
    simp only [filterChain, bind_eq_ok, setLine_eq_ok, pure_eq_ok] at h
    obtain ⟨_, _, rfl, args, u, hargs, call, v, hcall, more, w, hrest, rfl, rfl⟩ := h
    have hargs := (exprs_emitted (hfits f List.mem_cons_self) hargs).above 1
    rw [Nat.zero_add] at hargs
    have hrest := ih (fun g hg => hfits g (List.mem_cons_of_mem _ hg)) hrest
    exact ((hargs.append (applyFilter_emitted hcall)).append hrest).afterLine

/-- The code of an output point leaves the stack as it was. -/
theorem output_emitted {subject : Expr} {filters : List FilterCall} (hsubject : subject.Fits)
    (hfilters : ChainFits filters) (h : output isFilter subject filters s = .ok (code, t)) :
    Emitted s t code 0 0 := by
  simp only [output, bind_eq_ok, pure_eq_ok] at h
  obtain ⟨first, u, hfirst, second, v, hsecond, last, w, hop, rfl, rfl⟩ := h
  exact ((expr_emitted hsubject hfirst).append (filterChain_emitted hfilters hsecond)).append
    (op_emitted hop rfl rfl trivial)

end Emission

end Templating
