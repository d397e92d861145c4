import Templating.Machine.Run
import Templating.Program.Expression

/-!
# Direct evaluation of expressions

The value of an expression, computed by recursion over the expression and without any code:
operands from left to right, the right operand of `and` and `or` only when the left one does not
decide. The second half says what the single instructions do to the stack in these terms.
-/

namespace Templating

/-- The value of a prefix operator on its operand. -/
def UnaryOp.apply : UnaryOp → Value → Result Value
  | not, v => .ok (.bool (!v.isTrue))
  | neg, v => v.neg

/-- The left operand decides, and the right one is not evaluated. -/
def BinaryOp.decides : BinaryOp → Value → Bool
  | and, v => !v.isTrue
  | or, v => v.isTrue
  | _, _ => false

/-- The value of an operator on its operands, if the left one does not decide. -/
def BinaryOp.apply : BinaryOp → Value → Value → Result Value
  | eq, a, b => .ok (.bool (Value.looseEq a b))
  | ne, a, b => .ok (.bool (!Value.looseEq a b))
  | lt, a, b => .ok (.bool (Value.ordered (· == .lt) a b))
  | le, a, b => .ok (.bool (Value.ordered (· != .gt) a b))
  | gt, a, b => .ok (.bool (Value.ordered (· == .gt) a b))
  | ge, a, b => .ok (.bool (Value.ordered (· != .lt) a b))
  | and, _, b => .ok b
  | or, _, b => .ok b
  | add, a, b => a.add b
  | sub, a, b => a.sub b
  | mul, a, b => a.mul b
  | div, a, b => a.div b
  | rem, a, b => a.rem b
  | concat, a, b => .ok (a.concat b)
  | within, a, b => .ok (.bool (b.contains a))

/-- An operator that may skip its right operand gives the right operand if it does not skip it. -/
theorem BinaryOp.apply_of_shortcut {o : BinaryOp} {jump : Nat → Instruction}
    (ho : o.shortcut? = some jump) (a b : Value) : o.apply a b = .ok b := by
  cases o <;> first
    | rfl
    | simp [BinaryOp.shortcut?] at ho

/-- An operator that does not skip its right operand is not decided by the left one. -/
theorem BinaryOp.decides_of_no_shortcut {o : BinaryOp} (ho : o.shortcut? = none) (a : Value) :
    o.decides a = false := by
  cases o <;> first
    | rfl
    | simp [BinaryOp.shortcut?] at ho

/-- Entries from keys and values, stored one after another. -/
def Entries.ofValues (pairs : List (Value × Value)) : Entries :=
  Entries.ofPairs (pairs.map fun (key, value) => (Machine.keyText key, value))

namespace Expr

/-- What an expression is evaluated in: the filters by name and what they are told about the place,
the way values are called, and the frames. -/
structure Situation where
  filter? : String → Option Filter
  place : FilterPlace
  invoke : Invocation
  frames : Frames

/-- The result of a filter on a value and arguments. -/
def Situation.filtered (env : Situation) (name : String) (v : Value) (args : List Value) :
    Result Value :=
  match env.filter? name with
  | some f => f env.place v args
  | none => fail (.filterNotRegistered name)

/-- The result of calling a value. -/
def Situation.called (env : Situation) (callee : Value) (args : List Value) : Result Value :=
  env.invoke callee args env.frames env.place.autoescape

mutual

/-- The value of an expression. -/
def eval (env : Situation) : Expr → Result Value
  | .var name _ => .ok (Frames.load env.frames name)
  | .const value _ => .ok value
  | .unary o operand _ => eval env operand >>= fun v => o.apply v
  | .binary o left right _ => eval env left >>= fun a =>
    if o.decides a then .ok a else eval env right >>= fun b => o.apply a b
  | .attr subject name _ => eval env subject >>= fun v => .ok (v.attr name)
  | .item subject key _ => eval env subject >>= fun v => eval env key >>= fun k => .ok (v.item k)
  | .filter name subject args _ => eval env subject >>= fun v =>
    evalAll env args >>= fun vs => env.filtered name v vs
  | .call callee args _ => eval env callee >>= fun f => evalAll env args >>= fun vs =>
    env.called f vs
  | .list items _ => evalAll env items >>= fun vs => .ok (.seq vs)
  | .map entries _ => evalEntries env entries >>= fun pairs => .ok (.map (Entries.ofValues pairs))

/-- The values of expressions, evaluated one after the other. -/
def evalAll (env : Situation) : List Expr → Result (List Value)
  | [] => .ok []
  | e :: rest => eval env e >>= fun v => evalAll env rest >>= fun vs => .ok (v :: vs)

/-- The keys and values of a map literal, evaluated one after the other. -/
def evalEntries (env : Situation) : List (Expr × Expr) → Result (List (Value × Value))
  | [] => .ok []
  | (key, value) :: rest => eval env key >>= fun k => eval env value >>= fun v =>
    evalEntries env rest >>= fun pairs => .ok ((k, v) :: pairs)

end

/-- There are as many values as expressions. -/
theorem length_evalAll {env : Situation} {es : List Expr} {vs : List Value}
    (h : evalAll env es = .ok vs) : vs.length = es.length := by
  induction es generalizing vs with
  | nil =>
    rw [evalAll] at h
    rw [← Except.ok.inj h]
    rfl
  | cons e rest ih =>
    rw [evalAll, Result.bind_eq_ok] at h
    obtain ⟨v, _, h⟩ := h
    obtain ⟨ws, hrest, h⟩ := Result.bind_eq_ok.mp h
    rw [← Except.ok.inj h, List.length_cons, List.length_cons, ih hrest]

/-- There are as many pairs as entries. -/
theorem length_evalEntries {env : Situation} {entries : List (Expr × Expr)}
    {pairs : List (Value × Value)} (h : evalEntries env entries = .ok pairs) :
    pairs.length = entries.length := by
  induction entries generalizing pairs with
  | nil =>
    rw [evalEntries] at h
    rw [← Except.ok.inj h]
    rfl
  | cons entry rest ih =>
    rw [evalEntries, Result.bind_eq_ok] at h
    obtain ⟨k, _, h⟩ := h
    obtain ⟨v, _, h⟩ := Result.bind_eq_ok.mp h
    obtain ⟨more, hrest, h⟩ := Result.bind_eq_ok.mp h
    rw [← Except.ok.inj h, List.length_cons, List.length_cons, ih hrest]

end Expr

namespace Machine

variable {linked : LinkedProgram} {invoke : Invocation} {code : Code} {m : Machine} {pc : Nat}
  {stack : List Value}

/-- The machine at another position and with another stack. -/
def moved (m : Machine) (pc : Nat) (stack : List Value) : Machine := { m with pc, stack }

/-- Keys and values one after another. -/
def flatPairs (pairs : List (Value × Value)) : List Value :=
  pairs.flatMap fun (key, value) => [key, value]

/-- Each pair has two values. -/
theorem length_flatPairs (pairs : List (Value × Value)) :
    (flatPairs pairs).length = 2 * pairs.length := by
  induction pairs with
  | nil => rfl
  | cons pair rest ih =>
    rw [flatPairs, List.flatMap_cons, List.length_append, List.length_cons, ← flatPairs, ih]
    simp only [List.length_cons, List.length_nil]
    omega

/-- Taking values off the stack gives them in the order they were put there. -/
theorem popMany_moved (vs : List Value) :
    (m.moved pc (vs.reverse ++ stack)).popMany vs.length = (vs, m.moved pc stack) := by
  simp [popMany, moved]

/-- Pairing up keys and values stores them one after another. -/
theorem pairUp_flatPairs (pairs : List (Value × Value)) :
    pairUp [] (flatPairs pairs) = Entries.ofValues pairs := by
  have hfold : ∀ done : Entries, pairUp done (flatPairs pairs) =
      pairs.foldl (fun done pair => Entries.insert done (keyText pair.1) pair.2) done := by
    induction pairs with
    | nil => exact fun _ => rfl
    | cons pair rest ih => exact fun done => ih _
  rw [hfold, Entries.ofValues, Entries.ofPairs, List.foldl_map]

/-- The instruction of a prefix operator applies it to the top value. -/
theorem execute_unaryOp (o : UnaryOp) (v : Value) :
    (m.moved pc (v :: stack)).execute linked invoke code o.instruction =
      (o.apply v).map fun w => m.moved (pc + 1) (w :: stack) := by
  cases o with
  | not => rfl
  | neg =>
    change execute linked invoke code (m.moved pc (v :: stack)) .neg = Except.map _ v.neg
    cases h : v.neg <;> simp only [execute, pop, moved, h] <;> rfl

/-- An arithmetic operator applies to the two topmost values. -/
theorem arithmetic_moved (f : Value → Value → Result Value) (a b : Value) :
    (m.moved pc (b :: a :: stack)).arithmetic f =
      (f a b).map fun v => m.moved (pc + 1) (v :: stack) := by
  cases h : f a b <;> simp only [arithmetic, popTwo, pop, moved, h] <;> rfl

/-- The instruction of an operator that does not skip its right operand applies it to the two
topmost values. -/
theorem execute_binaryOp {o : BinaryOp} (ho : o.shortcut? = none) (a b : Value) :
    (m.moved pc (b :: a :: stack)).execute linked invoke code o.instruction =
      (o.apply a b).map fun v => m.moved (pc + 1) (v :: stack) := by
  cases o <;> first
    | rfl
    | exact arithmetic_moved _ a b
    | simp [BinaryOp.shortcut?] at ho

/-- The jump of an operator that may skip its right operand is taken if the left one decides, which
stays on the stack then; otherwise it is dropped. -/
theorem execute_shortcut {o : BinaryOp} {jump : Nat → Instruction} (ho : o.shortcut? = some jump)
    (target : Nat) (a : Value) :
    (m.moved pc (a :: stack)).execute linked invoke code (jump target) =
      .ok (if o.decides a then m.moved target (a :: stack) else m.moved (pc + 1) stack) := by
  cases o <;> simp only [BinaryOp.shortcut?, reduceCtorEq, Option.some.injEq] at ho <;> subst ho
  · cases h : a.isTrue <;> simp [execute, topIsTrue, moved, BinaryOp.decides, h, pop, next, goto]
  · cases h : a.isTrue <;> simp [execute, topIsTrue, moved, BinaryOp.decides, h, pop, next, goto]

/-- A test takes the top value off the stack, and jumps if it is false. -/
theorem execute_jumpIfFalse (target : Nat) (v : Value) :
    (m.moved pc (v :: stack)).execute linked invoke code (.jumpIfFalse target) =
      .ok (m.moved (if v.isTrue then pc + 1 else target) stack) := by
  cases h : v.isTrue <;> simp [execute, moved, h, pop, next, goto]

/-- A list of the topmost values. -/
theorem execute_buildList (vs : List Value) :
    (m.moved pc (vs.reverse ++ stack)).execute linked invoke code (.buildList vs.length) =
      .ok (m.moved (pc + 1) (.seq vs :: stack)) := by
  simp only [execute, popMany_moved]
  rfl

/-- A map of the topmost keys and values. -/
theorem execute_buildMap {pairs : List (Value × Value)} {count : Nat}
    (hcount : pairedCount count = 2 * pairs.length) :
    (m.moved pc ((flatPairs pairs).reverse ++ stack)).execute linked invoke code (.buildMap count) =
      .ok (m.moved (pc + 1) (.map (Entries.ofValues pairs) :: stack)) := by
  simp only [execute, hcount, ← length_flatPairs, popMany_moved, pairUp_flatPairs]
  rfl

/-- A call of the value below the topmost ones. -/
theorem execute_call (callee : Value) (vs : List Value) :
    (m.moved pc (vs.reverse ++ callee :: stack)).execute linked invoke code (.call vs.length) =
      (invoke callee vs m.frames m.autoescape).map fun v => m.moved (pc + 1) (v :: stack) := by
  cases h : invoke callee vs m.frames m.autoescape <;>
    simp only [execute, call, popMany_moved, pop] <;> simp only [moved, h] <;> rfl

/-- A filter of the filter table on the value below the topmost ones. -/
theorem execute_applyFilter {f : Filter} {index : Nat} (hf : linked.filters[index]? = some f)
    (subject : Value) (vs : List Value) :
    (m.moved pc (vs.reverse ++ subject :: stack)).execute linked invoke code
        (.applyFilter index vs.length) =
      (f (filterPlace linked code (m.moved pc stack)) subject vs).map fun v =>
        m.moved (pc + 1) (v :: stack) := by
  have hplace : filterPlace linked code (m.moved pc (vs.reverse ++ subject :: stack)) =
      filterPlace linked code (m.moved pc stack) := rfl
  cases h : f (filterPlace linked code (m.moved pc stack)) subject vs <;>
    simp only [execute, applyFilter, popMany_moved, hf, hplace] <;>
      simp only [pop, moved] at h ⊢ <;> simp only [h] <;> rfl

end Machine

end Templating
