import Templating.Proofs.Emission.Growth
import Templating.Proofs.Emission.Laws
import Templating.Proofs.Machine.Blame
import Templating.Proofs.Machine.Evaluation
import Templating.Proofs.Machine.Runs

/-!
# Expressions that cannot fail

Looking something up, comparing, joining texts, deciding and building lists and maps give a value on
all operands; only arithmetic, filters and calls can fail. So an expression without these has a value
whatever the data are. Its code is emitted from every state, and consists of instructions that
cannot fail either and only lead forward. They depend on nothing but the position the code is emitted
at.
-/

namespace Templating

/-- The operator has a value on every operand. -/
def UnaryOp.isLenient : UnaryOp → Bool
  | not => true
  | neg => false

/-- The operator has a value on all operands: it is not arithmetic. -/
def BinaryOp.isLenient : BinaryOp → Bool
  | add | sub | mul | div | rem => false
  | _ => true

namespace Expr

mutual

/-- There are no arithmetic operators, filters and calls in the expression. -/
def isLenient : Expr → Bool
  | .var .. => true
  | .const .. => true
  | .unary o operand _ => o.isLenient && operand.isLenient
  | .binary o left right _ => o.isLenient && left.isLenient && right.isLenient
  | .attr subject _ _ => subject.isLenient
  | .item subject key _ => subject.isLenient && key.isLenient
  | .filter .. => false
  | .call .. => false
  | .list items _ => areLenient items
  | .map entries _ => entriesLenient entries

/-- All expressions of a list are lenient. -/
def areLenient : List Expr → Bool
  | [] => true
  | e :: rest => e.isLenient && areLenient rest

/-- All keys and values of a map literal are lenient. -/
def entriesLenient : List (Expr × Expr) → Bool
  | [] => true
  | (key, value) :: rest => key.isLenient && value.isLenient && entriesLenient rest

end

variable {sit : Situation}

mutual

/-- A lenient expression has a value, whatever it is evaluated in. -/
theorem exists_eval : ∀ {e : Expr}, e.isLenient = true → ∃ v, e.eval sit = .ok v
  | .var name span, _ => ⟨_, rfl⟩
  | .const value span, _ => ⟨_, rfl⟩
  | .unary o operand span, h => by
    simp only [isLenient, Bool.and_eq_true] at h
    obtain ⟨v, hv⟩ := exists_eval h.2
    cases o with
    | not => exact ⟨_, by rw [eval, hv]; rfl⟩
    | neg => cases h.1
  | .binary o left right span, h => by
    simp only [isLenient, Bool.and_eq_true] at h
    obtain ⟨a, ha⟩ := exists_eval h.1.2
    obtain ⟨b, hb⟩ := exists_eval h.2
    obtain ⟨v, hv⟩ : ∃ v, o.apply a b = .ok v := by
      cases o with
      | add | sub | mul | div | rem => cases h.1.1
      | _ => exact ⟨_, rfl⟩
    cases hdecides : o.decides a with
    | true => exact ⟨a, by rw [eval, ha]; simp [bind, Except.bind, hdecides]⟩
    | false => exact ⟨v, by rw [eval, ha, hb]; simp [bind, Except.bind, hdecides, hv]⟩
  | .attr subject name span, h => by
    rw [isLenient] at h
    obtain ⟨v, hv⟩ := exists_eval h
    exact ⟨_, by rw [eval, hv]; rfl⟩
  | .item subject key span, h => by
    simp only [isLenient, Bool.and_eq_true] at h
    obtain ⟨v, hv⟩ := exists_eval h.1
    obtain ⟨k, hk⟩ := exists_eval h.2
    exact ⟨_, by rw [eval, hv, hk]; rfl⟩
  | .filter name subject args span, h => by cases h
  | .call callee args span, h => by cases h
  | .list items span, h => by
    rw [isLenient] at h
    obtain ⟨vs, hvs⟩ := exists_evalAll h
    exact ⟨_, by rw [eval, hvs]; rfl⟩
  | .map entries span, h => by
    rw [isLenient] at h
    obtain ⟨pairs, hpairs⟩ := exists_evalEntries h
    exact ⟨_, by rw [eval, hpairs]; rfl⟩

/-- Lenient expressions have values. -/
theorem exists_evalAll : ∀ {es : List Expr}, areLenient es = true → ∃ vs, evalAll sit es = .ok vs
  | [], _ => ⟨_, rfl⟩
  | e :: rest, h => by
    simp only [areLenient, Bool.and_eq_true] at h
    obtain ⟨v, hv⟩ := exists_eval h.1
    obtain ⟨vs, hvs⟩ := exists_evalAll h.2
    exact ⟨_, by rw [evalAll, hv, hvs]; rfl⟩

/-- Lenient keys and values have values. -/
theorem exists_evalEntries : ∀ {entries : List (Expr × Expr)}, entriesLenient entries = true →
    ∃ pairs, evalEntries sit entries = .ok pairs
  | [], _ => ⟨_, rfl⟩
  | (key, value) :: rest, h => by
    simp only [entriesLenient, Bool.and_eq_true] at h
    obtain ⟨k, hk⟩ := exists_eval h.1.1
    obtain ⟨v, hv⟩ := exists_eval h.1.2
    obtain ⟨pairs, hpairs⟩ := exists_evalEntries h.2
    exact ⟨_, by rw [evalEntries, hk, hv, hpairs]; rfl⟩

end

end Expr

/-- The instruction cannot fail, refers to no table, and goes on with the next one. -/
def Instruction.isPlain : Instruction → Bool
  | jump _ | jumpIfFalse _ | jumpIfFalseOrPop _ | jumpIfTrueOrPop _ => false
  | applyFilter .. | buildMacro _ => false
  | i => !i.mayFail

/-- The instruction cannot fail, refers to no table, and leads forward from a position. -/
structure Instruction.Proceeds (pc : Nat) (i : Instruction) : Prop where
  safe : i.mayFail = false
  alone : i.RefersWithin 0 0
  forward : ∀ target ∈ i.successors pc, pc < target

/-- A plain instruction leads forward from everywhere. -/
theorem Instruction.proceeds_of_isPlain {i : Instruction} (h : i.isPlain = true) (pc : Nat) :
    i.Proceeds pc := by
  cases i with
  | jump | jumpIfFalse | jumpIfFalseOrPop | jumpIfTrueOrPop | applyFilter | buildMacro => cases h
  | add | sub | mul | div | rem | neg | call | iterate => cases h
  | _ => exact ⟨rfl, trivial, by simp [successors]⟩

/-- Instructions from a position on cannot fail and lead forward. -/
def Steady (first : Nat) (is : List Instruction) : Prop :=
  ∀ ⦃j : Nat⦄ ⦃i : Instruction⦄, is[j]? = some i → i.Proceeds (first + j)

namespace Steady

variable {first : Nat} {i : Instruction} {is js : List Instruction}

theorem nil : Steady first [] := fun _ _ h => by simp at h

theorem cons (hi : i.Proceeds first) (h : Steady (first + 1) is) : Steady first (i :: is) := by
  intro j i' hi'
  cases j with
  | zero => exact Option.some.inj hi' ▸ hi
  | succ j =>
    rw [← Nat.add_assoc, Nat.add_right_comm]
    exact h hi'

theorem append (h : Steady first is) (h' : Steady (first + is.length) js) :
    Steady first (is ++ js) := by
  induction is generalizing first with
  | nil => exact h'
  | cons i is ih =>
    refine .cons (h (j := 0) rfl) (ih (fun j i' hi' => ?_) ?_)
    · rw [Nat.add_assoc, Nat.add_comm 1]
      exact h (j := j + 1) hi'
    · rwa [List.length_cons, ← Nat.add_assoc, Nat.add_right_comm] at h'

/-- One more instruction. -/
theorem snoc (h : Steady first is) (hi : i.isPlain = true) : Steady first (is ++ [i]) :=
  h.append (.cons (Instruction.proceeds_of_isPlain hi _) .nil)

end Steady

namespace Emission

/-- From every state at the position the action succeeds. It returns code of some instructions that
is there already, with further instructions behind it, takes up the room of the latter and leaves
the filter table alone. -/
def Writes (before : List Instruction) (x : Emission Fragment) (first : Nat)
    (is : List Instruction) : Prop :=
  ∀ s : EmissionState, s.next = first → ∃ code t, x s = .ok (code, t) ∧
    code.instructions = before ++ is ∧ t.next = first + is.length ∧ t.filters = s.filters

section Writes

variable {before is js : List Instruction} {x : Emission Fragment}
  {f : Fragment → Emission Fragment} {first : Nat} {code : Fragment} {i : Instruction}

/-- Nothing more is written. -/
theorem Writes.done (hcode : code.instructions = before) : Writes before (pure code) first [] :=
  fun s hs => ⟨code, s, rfl, by rw [hcode, List.append_nil], hs, rfl⟩

/-- One piece is written after the other. -/
theorem Writes.bind (hx : Writes [] x first is)
    (hf : ∀ code, code.instructions = is → Writes (before ++ is) (f code) (first + is.length) js) :
    Writes before (x >>= f) first (is ++ js) := by
  intro s hs
  obtain ⟨code, u, hcode, his, hu, hfilters⟩ := hx s hs
  obtain ⟨all, t, hall, hjs, ht, hfilters'⟩ := hf code his u hu
  refine ⟨all, t, bind_eq_ok.mpr ⟨code, u, hcode, hall⟩, ?_, ?_, hfilters'.trans hfilters⟩
  · rw [hjs, List.append_assoc]
  · rw [ht, List.length_append, Nat.add_assoc]

/-- The last piece. -/
theorem Writes.last (hx : Writes [] x first is) (hcode : code.instructions = before) :
    Writes before (do return code ++ (← x)) first is := by
  have h : Writes before (do return code ++ (← x)) first (is ++ []) :=
    hx.bind fun more hmore => .done (by simp [hcode, hmore])
  rwa [List.append_nil] at h

/-- The line is set first. -/
theorem Writes.atLine {line : Nat} (hx : Writes before x first is) :
    Writes before (do setLine line; x) first is := by
  intro s hs
  obtain ⟨code, t, hcode, hrest⟩ := hx { s with line := line } hs
  exact ⟨code, t, bind_eq_ok.mpr ⟨(), _, rfl, hcode⟩, hrest⟩

/-- Errors are placed. -/
theorem Writes.placed {line : Nat} (hx : Writes before x first is) :
    Writes before (placed line x) first is := by
  intro s hs
  obtain ⟨code, t, hcode, hrest⟩ := hx s hs
  exact ⟨code, t, placed_eq_ok.mpr hcode, hrest⟩

/-- The current file is another one meanwhile. -/
theorem Writes.inFile {name : String} (hx : Writes before x first is) :
    Writes before (inFile name x) first is := by
  intro s hs
  let there : EmissionState :=
    { s with file := (intern s.files name).1, files := (intern s.files name).2 }
  obtain ⟨code, t, hcode, his, hnext, hfilters⟩ := hx there hs
  exact ⟨code, _, inFile_eq_ok.mpr ⟨t, hcode, rfl⟩, his, hnext, hfilters⟩

/-- One instruction. -/
theorem writes_op (i : Instruction) : Writes [] (op i) first [i] := by
  rintro s rfl
  exact ⟨_, _, op_eq_ok.mpr ⟨rfl, rfl⟩, rfl, rfl, rfl⟩

/-- A jump over the code of an operand to the position behind it. -/
theorem Writes.jump {jump : Nat → Instruction} (hcode : code.instructions = before)
    (hx : Writes [] x (first + 1) is) :
    Writes before (do
      let place ← reserve
      let second ← x
      return code ++ place (jump (← here)) :: second) first
        (jump (first + 1 + is.length) :: is) := by
  rintro s rfl
  obtain ⟨second, t, hsecond, his, hnext, hfilters⟩ := hx { s with next := s.next + 1 } rfl
  refine ⟨code ++ ⟨jump t.next, s.file, s.line⟩ :: second, t, ?_, ?_, ?_, hfilters⟩
  · simp only [bind_eq_ok, reserve_eq_ok, here_eq_ok, pure_eq_ok]
    exact ⟨_, _, ⟨rfl, rfl⟩, second, t, hsecond, _, _, ⟨rfl, rfl⟩, rfl, rfl⟩
  · rw [List.nil_append] at his
    simp [Fragment.instructions, ← hcode, ← his, hnext]
  · rw [hnext, List.length_cons, Nat.add_assoc, Nat.add_comm 1]

end Writes

mutual

/-- The code of a lenient expression, whatever filters there are. -/
theorem expr_writes : ∀ {e : Expr}, e.isLenient = true → ∀ first,
    ∃ is, Steady first is ∧ ∀ isFilter, Writes [] (expr isFilter e) first is
  | .var name span, _, first =>
    ⟨_, Steady.nil.snoc rfl, fun _ => (writes_op _).atLine⟩
  | .const value span, _, first =>
    ⟨_, Steady.nil.snoc rfl, fun _ => (writes_op _).atLine⟩
  | .unary o operand span, h, first => by
    simp only [Expr.isLenient, Bool.and_eq_true] at h
    obtain ⟨is, hsteady, hwrites⟩ := expr_writes h.2 first
    refine ⟨is ++ [o.instruction], ?_, fun isFilter => ?_⟩
    · cases o with
      | not => exact hsteady.snoc rfl
      | neg => cases h.1
    · rw [expr]
      exact ((hwrites isFilter).bind fun code hcode => (writes_op _).last hcode).atLine
  | .binary o left right span, h, first => by
    simp only [Expr.isLenient, Bool.and_eq_true] at h
    obtain ⟨is, hsteady, hwrites⟩ := expr_writes h.1.2 first
    simp only [expr]
    cases hshortcut : o.shortcut? with
    | some jump =>
      obtain ⟨js, hsteady', hwrites'⟩ := expr_writes h.2 (first + is.length + 1)
      refine ⟨is ++ jump (first + is.length + 1 + js.length) :: js, ?_, fun isFilter =>
        ((hwrites isFilter).bind fun code hcode => ?_).atLine⟩
      · refine hsteady.append (.cons ?_ hsteady')
        have hcases : jump = .jumpIfFalseOrPop ∨ jump = .jumpIfTrueOrPop := by
          cases o <;> simp [BinaryOp.shortcut?] at hshortcut <;> simp [← hshortcut]
        rcases hcases with rfl | rfl <;>
          refine ⟨rfl, trivial, fun target htarget => ?_⟩ <;>
          simp only [Instruction.successors, List.mem_cons, List.not_mem_nil, or_false] at htarget <;>
          omega
      · exact (hwrites' isFilter).jump hcode
    | none =>
      obtain ⟨js, hsteady', hwrites'⟩ := expr_writes h.2 (first + is.length)
      refine ⟨is ++ (js ++ [o.instruction]), ?_, fun isFilter =>
        ((hwrites isFilter).bind fun code hcode =>
          (hwrites' isFilter).bind fun more hmore => (writes_op _).last ?_).atLine⟩
      · refine hsteady.append ?_
        cases o with
        | add | sub | mul | div | rem => cases h.1.1
        | and | or => cases hshortcut
        | _ => exact hsteady'.snoc rfl
      · simp [hcode, hmore]
  | .attr subject name span, h, first => by
    rw [Expr.isLenient] at h
    obtain ⟨is, hsteady, hwrites⟩ := expr_writes h first
    refine ⟨is ++ [.getAttr name], hsteady.snoc rfl, fun isFilter => ?_⟩
    rw [expr]
    exact ((hwrites isFilter).bind fun code hcode => (writes_op _).last hcode).atLine
  | .item subject key span, h, first => by
    simp only [Expr.isLenient, Bool.and_eq_true] at h
    obtain ⟨is, hsteady, hwrites⟩ := expr_writes h.1 first
    obtain ⟨js, hsteady', hwrites'⟩ := expr_writes h.2 (first + is.length)
    refine ⟨is ++ (js ++ [.getItem]), hsteady.append (hsteady'.snoc rfl), fun isFilter => ?_⟩
    rw [expr]
    exact ((hwrites isFilter).bind fun code hcode => (hwrites' isFilter).bind fun more hmore =>
      (writes_op _).last (by simp [hcode, hmore])).atLine
  | .filter name subject args span, h, first => by cases h
  | .call callee args span, h, first => by cases h
  | .list items span, h, first => by
    rw [Expr.isLenient] at h
    obtain ⟨is, hsteady, hwrites⟩ := exprs_writes h first
    refine ⟨is ++ [.buildList items.length], hsteady.snoc rfl, fun isFilter => ?_⟩
    rw [expr]
    exact ((hwrites isFilter).bind fun code hcode => (writes_op _).last hcode).atLine
  | .map entries span, h, first => by
    rw [Expr.isLenient] at h
    obtain ⟨is, hsteady, hwrites⟩ := exprEntries_writes h first
    refine ⟨is ++ [.buildMap entries.length], hsteady.snoc rfl, fun isFilter => ?_⟩
    rw [expr]
    exact ((hwrites isFilter).bind fun code hcode => (writes_op _).last hcode).atLine

/-- The code of lenient expressions. -/
theorem exprs_writes : ∀ {es : List Expr}, Expr.areLenient es = true → ∀ first,
    ∃ is, Steady first is ∧ ∀ isFilter, Writes [] (exprs isFilter es) first is
  | [], _, first => ⟨[], .nil, fun _ => .done rfl⟩
  | e :: rest, h, first => by
    simp only [Expr.areLenient, Bool.and_eq_true] at h
    obtain ⟨is, hsteady, hwrites⟩ := expr_writes h.1 first
    obtain ⟨js, hsteady', hwrites'⟩ := exprs_writes h.2 (first + is.length)
    refine ⟨is ++ js, hsteady.append hsteady', fun isFilter => ?_⟩
    rw [exprs]
    exact (hwrites isFilter).bind fun code hcode => (hwrites' isFilter).last hcode

/-- The code of lenient keys and values. -/
theorem exprEntries_writes : ∀ {entries : List (Expr × Expr)},
    Expr.entriesLenient entries = true → ∀ first,
      ∃ is, Steady first is ∧ ∀ isFilter, Writes [] (exprEntries isFilter entries) first is
  | [], _, first => ⟨[], .nil, fun _ => .done rfl⟩
  | (key, value) :: rest, h, first => by
    simp only [Expr.entriesLenient, Bool.and_eq_true] at h
    obtain ⟨is, hsteady, hwrites⟩ := expr_writes h.1.1 first
    obtain ⟨js, hsteady', hwrites'⟩ := expr_writes h.1.2 (first + is.length)
    obtain ⟨ks, hsteady'', hwrites''⟩ := exprEntries_writes h.2 (first + is.length + js.length)
    refine ⟨is ++ (js ++ ks), hsteady.append (hsteady'.append hsteady''), fun isFilter => ?_⟩
    rw [exprEntries]
    exact (hwrites isFilter).bind fun code hcode => (hwrites' isFilter).bind fun more hmore =>
      (hwrites'' isFilter).last (by simp [hcode, hmore])

end

end Emission

/-- The node is literal text, or the output of a lenient expression without filters. -/
def Node.isLenient : Node → Bool
  | .literal .. => true
  | .output e filters _ => e.isLenient && filters.isEmpty
  | .tag .. => false

namespace Emission

/-- The code of a lenient node, wherever it stands. -/
theorem node_writes {n : Node} (h : n.isLenient = true) (first : Nat) :
    ∃ is, Steady first is ∧ ∀ E env, Writes [] (node E env n) first is := by
  cases n with
  | literal text span =>
    by_cases hempty : text = ""
    · refine ⟨[], .nil, fun E env => ?_⟩
      rw [node, if_pos hempty]
      exact Writes.atLine (.done rfl)
    · refine ⟨[] ++ [.emitRaw text], Steady.nil.snoc rfl, fun E env => ?_⟩
      rw [node, if_neg hempty]
      exact (writes_op _).atLine
  | output e filters span =>
    simp only [Node.isLenient, Bool.and_eq_true, List.isEmpty_iff] at h
    obtain ⟨h, rfl⟩ := h
    obtain ⟨is, hsteady, hwrites⟩ := expr_writes h first
    refine ⟨is ++ ([] ++ [.emit]), hsteady.snoc rfl, fun E env => ?_⟩
    rw [node, output, filterChain]
    exact ((hwrites env.isFilter).bind fun code hcode => Writes.bind (.done rfl) fun more hmore =>
      (writes_op _).last (by simp [hcode, hmore])).placed.atLine
  | tag name args body branches span => cases h

/-- The code of lenient nodes of a file, whatever file it is. -/
theorem nodesOf_writes {ns : List Node} (h : ∀ n ∈ ns, n.isLenient = true) (first : Nat) :
    ∃ is, Steady first is ∧ ∀ depth env file,
      Writes [] (nodesOf (atDepth (depth + 1)) env (ns.map fun n => (file, n))) first is := by
  induction ns generalizing first with
  | nil => exact ⟨[], .nil, fun _ _ _ => .done rfl⟩
  | cons n rest ih =>
    obtain ⟨hn, hrest⟩ := List.forall_mem_cons.mp h
    obtain ⟨is, hsteady, hwrites⟩ := node_writes hn first
    obtain ⟨js, hsteady', hwrites'⟩ := ih hrest (first + is.length)
    refine ⟨is ++ js, hsteady.append hsteady', fun depth env file => ?_⟩
    have hone : Writes [] (atDepth (depth + 1) env [n]) first is := by
      intro s hs
      obtain ⟨code, t, hcode, hrest⟩ := hwrites (atDepth depth) env s hs
      exact ⟨code, t, nodes_singleton_eq_ok.mpr hcode, hrest⟩
    exact hone.inFile.bind fun code hcode => (hwrites' depth env file).last hcode

end Emission

end Templating
