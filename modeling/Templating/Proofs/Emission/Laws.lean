import Templating.Program.Compilation

/-!
# Successful emission

What it takes for an action that emits to succeed, and what it leaves behind. Each law reads a
success of one action back into successes of its parts, so that a proof about emitted code follows
the order in which the code was emitted.
-/

namespace Templating.Emission

variable {α β : Type} {s t : EmissionState}

/-- One action after the other succeeds if both do. -/
theorem bind_eq_ok {x : Emission α} {f : α → Emission β} {b : β} :
    (x >>= f) s = .ok (b, t) ↔ ∃ a u, x s = .ok (a, u) ∧ f a u = .ok (b, t) := by
  change (x s >>= fun p => f p.1 p.2) = _ ↔ _
  cases x s with
  | error err => simp [bind, Except.bind]
  | ok p =>
    obtain ⟨a, u⟩ := p
    simp only [bind, Except.bind, Except.ok.injEq, Prod.mk.injEq]
    constructor
    · intro h
      exact ⟨a, u, ⟨rfl, rfl⟩, h⟩
    · rintro ⟨_, _, ⟨rfl, rfl⟩, h⟩
      exact h

/-- An action that only returns succeeds and changes nothing. -/
theorem pure_eq_ok {a b : α} : (pure a : Emission α) s = .ok (b, t) ↔ a = b ∧ s = t := by
  change (Except.ok (a, s) : Result (α × EmissionState)) = _ ↔ _
  simp

/-- A fault is no success. -/
theorem fail_eq_ok {fault : Fault} {a : α} : (fail fault : Emission α) s = .ok (a, t) ↔ False := by
  simp [fail]

/-- A result that needs no emission succeeds by itself. -/
theorem lift_eq_ok {r : Result α} {a : α} :
    (liftM r : Emission α) s = .ok (a, t) ↔ r = .ok a ∧ s = t := by
  change (r >>= fun a => (Except.ok (a, s) : Result (α × EmissionState))) = _ ↔ _
  cases r with
  | error err => simp [bind, Except.bind]
  | ok b => simp [bind, Except.bind]

/-- The position of the next instruction is there to be read. -/
theorem here_eq_ok {n : Nat} : here s = .ok (n, t) ↔ s.next = n ∧ s = t := by
  simp [here]

/-- Setting the line changes the line. -/
theorem setLine_eq_ok {line : Nat} {a : Unit} :
    setLine line s = .ok (a, t) ↔ { s with line := line } = t := by
  simp [setLine]

/-- Leaving room for an instruction moves the next one up. -/
theorem reserve_eq_ok {place : Instruction → Placed} :
    reserve s = .ok (place, t) ↔
      (fun i => ⟨i, s.file, s.line⟩) = place ∧ { s with next := s.next + 1 } = t := by
  simp [reserve]

/-- Emitting one instruction. -/
theorem op_eq_ok {i : Instruction} {code : Fragment} :
    op i s = .ok (code, t) ↔
      [⟨i, s.file, s.line⟩] = code ∧ { s with next := s.next + 1 } = t := by
  simp only [op, bind_eq_ok, reserve_eq_ok, pure_eq_ok]
  constructor
  · rintro ⟨_, _, ⟨rfl, rfl⟩, rfl, rfl⟩
    exact ⟨rfl, rfl⟩
  · rintro ⟨rfl, rfl⟩
    exact ⟨_, _, ⟨rfl, rfl⟩, rfl, rfl⟩

/-- Placing errors does not touch a success. -/
theorem placed_eq_ok {line : Nat} {e : Emission α} {a : α} :
    placed line e s = .ok (a, t) ↔ e s = .ok (a, t) := by
  unfold placed
  cases e s <;> simp

/-- Noting an added tag changes the list of added tags. -/
theorem useTag_eq_ok {name : String} {a : Unit} :
    useTag name s = .ok (a, t) ↔ { s with tags := insertSorted name s.tags } = t := by
  simp [useTag]

/-- Emitting with another current file comes back to the file before. -/
theorem inFile_eq_ok {name : String} {e : Emission α} {a : α} :
    inFile name e s = .ok (a, t) ↔
      ∃ u, e { s with file := (intern s.files name).1, files := (intern s.files name).2 } =
        .ok (a, u) ∧ { u with file := s.file } = t := by
  simp only [inFile]
  cases e { s with file := (intern s.files name).1, files := (intern s.files name).2 } with
  | error err => simp
  | ok p =>
    obtain ⟨b, u⟩ := p
    simp only [Except.ok.injEq, Prod.mk.injEq]
    constructor
    · rintro ⟨rfl, rfl⟩
      exact ⟨u, ⟨rfl, rfl⟩, rfl⟩
    · rintro ⟨_, ⟨rfl, rfl⟩, rfl⟩
      exact ⟨rfl, rfl⟩

/-- A filter that is applied is known, and has its number in the filter table. -/
theorem applyFilter_eq_ok {isFilter : String → Bool} {name : String} {args : Nat}
    {code : Fragment} :
    applyFilter isFilter name args s = .ok (code, t) ↔
      isFilter name = true ∧
        [⟨.applyFilter (intern s.filters name).1 args, s.file, s.line⟩] = code ∧
        { s with filters := (intern s.filters name).2, next := s.next + 1 } = t := by
  unfold applyFilter
  cases isFilter name with
  | false => simp [bind_eq_ok, fail_eq_ok]
  | true =>
    simp only [if_true, bind_eq_ok, op_eq_ok, true_and]
    constructor
    · rintro ⟨_, _, ⟨⟩, rfl, rfl⟩
      exact ⟨rfl, rfl⟩
    · rintro ⟨rfl, rfl⟩
      exact ⟨_, _, rfl, rfl, rfl⟩

/-- A macro's code is emitted from its own first position, and the macro gets the next number. -/
theorem macroCode_eq_ok {name : String} {params : List String} {body : Emission Fragment}
    {id : Nat} :
    macroCode name params body s = .ok (id, t) ↔
      ∃ code u, body { s with next := 0 } = .ok (code, u) ∧ u.macros.size = id ∧
        { u with
          next := s.next
          macros := u.macros.push { name, params, code := Code.ofFragment code } } = t := by
  unfold macroCode
  cases body { s with next := 0 } with
  | error err => simp
  | ok p =>
    obtain ⟨code, u⟩ := p
    simp only [Except.ok.injEq, Prod.mk.injEq]
    constructor
    · rintro ⟨rfl, rfl⟩
      exact ⟨code, u, ⟨rfl, rfl⟩, rfl, rfl⟩
    · rintro ⟨_, _, ⟨rfl, rfl⟩, rfl, rfl⟩
      exact ⟨rfl, rfl⟩

/-- The code of a single node. -/
theorem nodes_singleton_eq_ok {E : Elsewhere} {env : Surroundings} {n : Node} {code : Fragment} :
    nodes E env [n] s = .ok (code, t) ↔ node E env n s = .ok (code, t) := by
  simp only [nodes, bind_eq_ok, pure_eq_ok]
  constructor
  · rintro ⟨first, u, hfirst, _, _, ⟨rfl, rfl⟩, rfl, rfl⟩
    rwa [List.append_nil]
  · intro h
    exact ⟨code, t, h, _, _, ⟨rfl, rfl⟩, List.append_nil _, rfl⟩

end Templating.Emission
