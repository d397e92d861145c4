import Mathlib.Data.Nat.Init
import Templating.Proofs.Machine.Safety

/-!
# Scopes of code

An instruction that pushes a frame opens a scope, and the next `popFrame` that finds it innermost
closes it. Which scopes are open at a position is read off the code from its beginning on, without
running it. In well-scoped code this is also what a run finds open when it comes to the position, by
whatever jumps: they all lead to where the same scopes are open, so that a scope is entered in front
and left behind its end only.
-/

namespace Templating

open Machine (pushersAfter)

namespace Instruction

/-- The instruction pushes a frame. -/
def opensScope : Instruction → Bool
  | pushFrame | pushContext _ | pushLoop => true
  | _ => false

/-- Where an instruction that does nothing but jump, on some condition or on none, jumps to. -/
def jumpsTo? : Instruction → Option Nat
  | jump target | jumpIfFalse target => some target
  | jumpIfFalseOrPop target | jumpIfTrueOrPop target => some target
  | _ => none

/-- A jump goes on to the next position or to its target. -/
theorem successors_of_jumpsTo? {i : Instruction} {target pc next : Nat}
    (h : i.jumpsTo? = some target) (hnext : next ∈ i.successors pc) :
    next = pc + 1 ∨ next = target := by
  cases i with
  | jump _ =>
    obtain rfl := Option.some.inj h
    exact .inr (List.mem_singleton.mp hnext)
  | jumpIfFalse _ | jumpIfFalseOrPop _ | jumpIfTrueOrPop _ =>
    obtain rfl := Option.some.inj h
    simpa [successors] using hnext
  | _ => simp [jumpsTo?] at h

/-- A jump opens and closes nothing. -/
theorem pushersAfter_of_jumpsTo? {i : Instruction} {target : Nat} (h : i.jumpsTo? = some target)
    (pc : Nat) (pushers : List Nat) : pushersAfter i pc pushers = pushers := by
  cases i with
  | jump _ | jumpIfFalse _ | jumpIfFalseOrPop _ | jumpIfTrueOrPop _ => rfl
  | _ => simp [jumpsTo?] at h

/-- What an instruction leaves open: its own scope on top, one scope less, or what was open. -/
theorem pushersAfter_cases (i : Instruction) (pc : Nat) :
    i.opensScope = true ∧ (∀ pushers, pushersAfter i pc pushers = pc :: pushers) ∨
      i = .popFrame ∧ (∀ pushers, pushersAfter i pc pushers = pushers.tail) ∨
      i.opensScope = false ∧ i ≠ .popFrame ∧ ∀ pushers, pushersAfter i pc pushers = pushers := by
  cases i with
  | pushFrame | pushContext _ | pushLoop => exact .inl ⟨rfl, fun _ => rfl⟩
  | popFrame => exact .inr (.inl ⟨rfl, fun _ => rfl⟩)
  | _ => exact .inr (.inr ⟨rfl, nofun, fun _ => rfl⟩)

/-- An instruction that opens a scope puts it on top. -/
theorem pushersAfter_of_opensScope {i : Instruction} (h : i.opensScope = true) (pc : Nat)
    (pushers : List Nat) : pushersAfter i pc pushers = pc :: pushers := by
  rcases i.pushersAfter_cases pc with ⟨-, heq⟩ | ⟨rfl, -⟩ | ⟨hfalse, -⟩
  · exact heq pushers
  · simp [opensScope] at h
  · simp [hfalse] at h

/-- An instruction in a scope leaves it open, unless it closes it. -/
theorem pushersAfter_inner (i : Instruction) (pc : Nat) (inner : List Nat) (first : Nat) :
    (∃ inner', ∀ outer, pushersAfter i pc (inner ++ first :: outer) = inner' ++ first :: outer) ∨
      i = .popFrame ∧ inner = [] := by
  rcases i.pushersAfter_cases pc with ⟨-, heq⟩ | ⟨rfl, heq⟩ | ⟨-, -, heq⟩
  · exact .inl ⟨pc :: inner, fun _ => heq _⟩
  · cases inner with
    | nil => exact .inr ⟨rfl, rfl⟩
    | cons opener inner => exact .inl ⟨inner, fun _ => heq _⟩
  · exact .inl ⟨inner, fun _ => heq _⟩

end Instruction

namespace Code

variable {code : Code} {first last pc : Nat} {i : Instruction}

/-- The positions of the instructions that opened the scopes a position is in, innermost first. -/
def scopes (code : Code) : Nat → List Nat
  | 0 => []
  | pc + 1 =>
    match code.instructions[pc]? with
    | some i => pushersAfter i pc (code.scopes pc)
    | none => code.scopes pc

/-- The scopes behind an instruction. -/
theorem scopes_succ (h : code.instructions[pc]? = some i) :
    code.scopes (pc + 1) = pushersAfter i pc (code.scopes pc) := by
  rw [scopes, h]

/-- The instruction fits to the scopes around it: it leads to where those are open that it leaves
open, an iteration stands in the scope of a loop, and nothing is closed that is not open. -/
structure Respects (code : Code) (pc : Nat) (i : Instruction) : Prop where
  leads : ∀ next ∈ i.successors pc, code.scopes next = pushersAfter i pc (code.scopes pc)
  iterates : ∀ target, i = .iterate target →
    ∃ first rest, code.scopes pc = first :: rest ∧ code.instructions[first]? = some .pushLoop
  closes : i = .popFrame → code.scopes pc ≠ []

/-- Every instruction fits to the scopes around it, and in the end all are closed. -/
structure WellScoped (code : Code) : Prop where
  respects : ∀ ⦃pc : Nat⦄ ⦃i : Instruction⦄, code.instructions[pc]? = some i → code.Respects pc i
  ended : code.scopes code.size = []

/-- The instruction at one position closes the scope that the instruction at another one opened. -/
structure Closes (code : Code) (first last : Nat) : Prop where
  opens : ∃ i, code.instructions[first]? = some i ∧ i.opensScope = true
  closes : code.instructions[last]? = some .popFrame
  scopes_eq : code.scopes last = first :: code.scopes first

/-- Scopes are opened before the positions in them. -/
theorem lt_of_mem_scopes (h : first ∈ code.scopes pc) : first < pc := by
  induction pc with
  | zero => simp [scopes] at h
  | succ pc ih =>
    cases hi : code.instructions[pc]? with
    | none =>
      rw [scopes, hi] at h
      exact Nat.lt_succ_of_lt (ih h)
    | some i =>
      rw [scopes_succ hi] at h
      rcases i.pushersAfter_cases pc with ⟨-, heq⟩ | ⟨-, heq⟩ | ⟨-, -, heq⟩ <;>
        rw [heq] at h
      · rcases List.mem_cons.mp h with rfl | h
        · exact Nat.lt_succ_self _
        · exact Nat.lt_succ_of_lt (ih h)
      · exact Nat.lt_succ_of_lt (ih (List.mem_of_mem_tail h))
      · exact Nat.lt_succ_of_lt (ih h)

/-- Around an open scope those are open that were so where it was opened. -/
theorem exists_scopes_eq (h : first ∈ code.scopes pc) :
    ∃ inner, code.scopes pc = inner ++ first :: code.scopes first := by
  induction pc with
  | zero => simp [scopes] at h
  | succ pc ih =>
    cases hi : code.instructions[pc]? with
    | none =>
      rw [scopes, hi] at h ⊢
      exact ih h
    | some i =>
      rw [scopes_succ hi] at h ⊢
      rcases i.pushersAfter_cases pc with ⟨-, heq⟩ | ⟨-, heq⟩ | ⟨-, -, heq⟩ <;>
        rw [heq] at h ⊢
      · rcases List.mem_cons.mp h with rfl | h
        · exact ⟨[], rfl⟩
        · obtain ⟨inner, hinner⟩ := ih h
          exact ⟨pc :: inner, by rw [hinner, List.cons_append]⟩
      · obtain ⟨inner, hinner⟩ := ih (List.mem_of_mem_tail h)
        cases inner with
        | nil =>
          -- the scope itself would be closed here
          rw [hinner] at h
          exact absurd (lt_of_mem_scopes h) (Nat.lt_irrefl first)
        | cons opener inner => exact ⟨inner, by rw [hinner]; rfl⟩
      · exact ih h

/-- A scope that was closed is not opened again. -/
theorem Closes.notMem_scopes (h : code.Closes first last) (hlt : last < pc) :
    first ∉ code.scopes pc := by
  have hfirst : first < last := lt_of_mem_scopes (h.scopes_eq ▸ List.mem_cons_self)
  induction pc, hlt using Nat.le_induction with
  | base =>
    rw [scopes_succ h.closes, h.scopes_eq]
    exact fun hmem => Nat.lt_irrefl first (lt_of_mem_scopes hmem)
  | succ pc hle ih =>
    intro hmem
    cases hi : code.instructions[pc]? with
    | none =>
      rw [scopes, hi] at hmem
      exact ih hmem
    | some i =>
      rw [scopes_succ hi] at hmem
      rcases i.pushersAfter_cases pc with ⟨-, heq⟩ | ⟨-, heq⟩ | ⟨-, -, heq⟩ <;>
        rw [heq] at hmem
      · rcases List.mem_cons.mp hmem with rfl | hmem
        · exact Nat.lt_irrefl _ (Nat.lt_trans hfirst hle)
        · exact ih hmem
      · exact ih (List.mem_of_mem_tail hmem)
      · exact ih hmem

/-- A scope is closed in one place. -/
theorem Closes.unique {last' : Nat} (h : code.Closes first last) (h' : code.Closes first last') :
    last = last' := by
  rcases Nat.lt_trichotomy last last' with hlt | heq | hlt
  · exact absurd (h'.scopes_eq ▸ List.mem_cons_self) (h.notMem_scopes hlt)
  · exact heq
  · exact absurd (h.scopes_eq ▸ List.mem_cons_self) (h'.notMem_scopes hlt)

/-- The positions in a scope stand between its ends. -/
theorem Closes.between (h : code.Closes first last) (hmem : first ∈ code.scopes pc) :
    first < pc ∧ pc ≤ last :=
  ⟨lt_of_mem_scopes hmem, Nat.le_of_not_lt fun hlt => h.notMem_scopes hlt hmem⟩

/-- Every scope of well-scoped code is closed. -/
theorem WellScoped.exists_closes (h : code.WellScoped) (hi : code.instructions[first]? = some i)
    (hopens : i.opensScope = true) : ∃ last, code.Closes first last := by
  have hopened : first ∈ code.scopes (first + 1) := by
    rw [scopes_succ hi, Instruction.pushersAfter_of_opensScope hopens]
    exact List.mem_cons_self
  have hsize : first + 1 ≤ code.size := (Array.getElem?_eq_some_iff.mp hi).1
  obtain ⟨last, hmem, hleft⟩ :
      ∃ last, first ∈ code.scopes last ∧ first ∉ code.scopes (last + 1) := by
    by_contra hstays
    have hmem : first ∈ code.scopes code.size :=
      Nat.le_induction hopened
        (fun pc _ hmem => by_contra fun hleft => hstays ⟨pc, hmem, hleft⟩) _ hsize
    simp [h.ended] at hmem
  refine ⟨last, ?_⟩
  cases hj : code.instructions[last]? with
  | none =>
    rw [scopes, hj] at hleft
    exact absurd hmem hleft
  | some j =>
    rw [scopes_succ hj] at hleft
    rcases j.pushersAfter_cases last with ⟨-, heq⟩ | ⟨rfl, heq⟩ | ⟨-, -, heq⟩ <;>
      rw [heq] at hleft
    · exact absurd (List.mem_cons_of_mem _ hmem) hleft
    · obtain ⟨inner, hinner⟩ := exists_scopes_eq hmem
      cases inner with
      | nil => exact ⟨⟨i, hi, hopens⟩, hj, hinner⟩
      | cons opener inner => simp [hinner] at hleft
    · exact absurd hmem hleft

end Code

/-- `Scoped p code a b`: the code at position `p` finds the scopes `a` open and leaves `b` open. -/
inductive Scoped : Nat → List Instruction → List Nat → List Nat → Prop
  | nil {p : Nat} {a : List Nat} : Scoped p [] a a
  | append {p : Nat} {a b c : List Nat} {first second : List Instruction} :
    Scoped p first a b → Scoped (p + first.length) second b c → Scoped p (first ++ second) a c
  /-- An instruction that goes on to the next position. -/
  | single {p : Nat} {a : List Nat} {i : Instruction} : i.successors p = [p + 1] →
    (i = .popFrame → a ≠ []) → Scoped p [i] a (pushersAfter i p a)
  /-- Code behind a jump that skips it. -/
  | skipped {p : Nat} {a : List Nat} {i : Instruction} {code : List Instruction} :
    i.jumpsTo? = some (p + 1 + code.length) → Scoped (p + 1) code a a → Scoped p (i :: code) a a
  /-- One of two pieces of code. -/
  | choice {p : Nat} {a : List Nat} {yes no : List Instruction} : Scoped (p + 1) yes a a →
    Scoped (p + 1 + yes.length + 1) no a a →
      Scoped p (.jumpIfFalse (p + 1 + yes.length + 1) :: yes ++
        .jump (p + 1 + yes.length + 1 + no.length) :: no) a a
  /-- A loop whose scope is still open. -/
  | loop {p : Nat} {a : List Nat} {body : List Instruction} :
    Scoped (p + 2) body (p :: a) (p :: a) →
      Scoped p (.pushLoop :: .iterate (p + 2 + body.length + 1) :: body ++ [.jump (p + 1)]) a
        (p :: a)

/-- The instruction fits to the scopes around it, and has nothing to do with those that are open
below others: it stands in inner ones, leads to where these are open that it leaves open, an
iteration has an inner scope of a loop, and no other than an inner one is closed. -/
structure Code.RespectsOver (code : Code) (below inner : List Nat) (pc : Nat) (i : Instruction) :
    Prop where
  scopes_eq : code.scopes pc = inner ++ below
  leads : ∀ next ∈ i.successors pc, code.scopes next = pushersAfter i pc inner ++ below
  iterates : ∀ target, i = .iterate target →
    ∃ first rest, inner = first :: rest ∧ code.instructions[first]? = some .pushLoop
  closes : i = .popFrame → inner ≠ []

/-- With nothing below, all scopes are inner ones. -/
theorem Code.Respects.over {code : Code} {pc : Nat} {i : Instruction} (h : code.Respects pc i) :
    code.RespectsOver [] (code.scopes pc) pc i where
  scopes_eq := (List.append_nil _).symm
  leads := fun next hnext => (h.leads next hnext).trans (List.append_nil _).symm
  iterates := h.iterates
  closes := h.closes

/-- What is below is left open. -/
theorem Machine.pushersAfter_append {i : Instruction} {inner : List Nat}
    (h : i = .popFrame → inner ≠ []) (pc : Nat) (below : List Nat) :
    pushersAfter i pc (inner ++ below) = pushersAfter i pc inner ++ below := by
  rcases i.pushersAfter_cases pc with ⟨-, heq⟩ | ⟨hpop, heq⟩ | ⟨-, -, heq⟩
  · rw [heq, heq, List.cons_append]
  · rw [heq, heq, List.tail_append_of_ne_nil (h hpop)]
  · rw [heq, heq]

namespace Code.RespectsOver

variable {code : Code} {pc : Nat} {i : Instruction} {below inner : List Nat}

/-- With nothing below, the instruction fits to all scopes around it. -/
theorem respects (h : code.RespectsOver [] inner pc i) : code.Respects pc i := by
  have hscopes : code.scopes pc = inner := h.scopes_eq.trans (List.append_nil inner)
  refine ⟨fun next hnext => ?_, hscopes ▸ h.iterates, hscopes ▸ h.closes⟩
  rw [h.leads next hnext, hscopes, List.append_nil]

/-- An instruction that goes on to the next position. -/
theorem single (h : code.instructions[pc]? = some i) (hscopes : code.scopes pc = inner ++ below)
    (hsuccessors : i.successors pc = [pc + 1]) (hcloses : i = .popFrame → inner ≠ []) :
    code.RespectsOver below inner pc i where
  scopes_eq := hscopes
  leads := fun next hnext => by
    rw [hsuccessors, List.mem_singleton] at hnext
    rw [hnext, scopes_succ h, hscopes, Machine.pushersAfter_append hcloses]
  iterates := by
    rintro target rfl
    simp [Instruction.successors] at hsuccessors
  closes := hcloses

/-- A jump to where the same scopes are open. -/
theorem jump {target : Nat} (h : code.instructions[pc]? = some i)
    (hscopes : code.scopes pc = inner ++ below) (hjumps : i.jumpsTo? = some target)
    (htarget : code.scopes target = code.scopes pc) : code.RespectsOver below inner pc i where
  scopes_eq := hscopes
  leads := fun next hnext => by
    rcases Instruction.successors_of_jumpsTo? hjumps hnext with rfl | rfl
    · rw [scopes_succ h, hscopes, Instruction.pushersAfter_of_jumpsTo? hjumps,
        Instruction.pushersAfter_of_jumpsTo? hjumps]
    · rw [htarget, hscopes, Instruction.pushersAfter_of_jumpsTo? hjumps]
  iterates := by
    rintro _ rfl
    simp [Instruction.jumpsTo?] at hjumps
  closes := by
    rintro rfl
    simp [Instruction.jumpsTo?] at hjumps

end Code.RespectsOver

/-- The code at positions of a stretch fits to the scopes around it, and has nothing to do with
those that are open below. -/
def Code.RespectsAll (code : Code) (below : List Nat) (first last : Nat) : Prop :=
  ∀ ⦃pc : Nat⦄ ⦃i : Instruction⦄, first ≤ pc → pc < last → code.instructions[pc]? = some i →
    ∃ inner, code.RespectsOver below inner pc i

namespace Code.RespectsAll

variable {code : Code} {first middle last : Nat} {i : Instruction} {below inner : List Nat}

/-- Nothing stands between a position and itself. -/
theorem nil : code.RespectsAll below first first :=
  fun _ _ hle hlt => absurd hlt (Nat.not_lt.mpr hle)

/-- One stretch behind the other. -/
theorem append (h : code.RespectsAll below first middle) (h' : code.RespectsAll below middle last) :
    code.RespectsAll below first last := fun pc _ hle hlt hi => by
  rcases Nat.lt_or_ge pc middle with hmiddle | hmiddle
  · exact h hle hmiddle hi
  · exact h' hmiddle hlt hi

/-- A single instruction. -/
theorem single (h : code.instructions[first]? = some i)
    (hi : code.RespectsOver below inner first i) :
    code.RespectsAll below first (first + 1) := fun pc j hle hlt hj => by
  obtain rfl : first = pc := Nat.le_antisymm hle (Nat.le_of_lt_succ hlt)
  obtain rfl := Option.some.inj (h.symm.trans hj)
  exact ⟨inner, hi⟩

/-- An instruction in front. -/
theorem cons (h : code.instructions[first]? = some i)
    (hi : code.RespectsOver below inner first i)
    (h' : code.RespectsAll below (first + 1) last) : code.RespectsAll below first last :=
  (single h hi).append h'

end Code.RespectsAll

/-- Wherever scoped code stands with the scopes open that it expects, above any others, its
instructions fit to the scopes around them and leave the others alone, and those are open behind it
that it is said to leave. -/
theorem Scoped.respects {p : Nat} {piece : List Instruction} {a b : List Nat}
    (h : Scoped p piece a b) {code : Code} (hcode : code.Holds p piece) {below : List Nat}
    (hstart : code.scopes p = a ++ below) :
    code.scopes (p + piece.length) = b ++ below ∧
      code.RespectsAll below p (p + piece.length) := by
  induction h with
  | nil => exact ⟨hstart, .nil⟩
  | append _ _ ihfirst ihsecond =>
    obtain ⟨hfirst, hsecond⟩ := hcode.of_append
    obtain ⟨hmiddle, hrespects⟩ := ihfirst hfirst hstart
    obtain ⟨hend, hrespects'⟩ := ihsecond hsecond hmiddle
    rw [List.length_append, ← Nat.add_assoc]
    exact ⟨hend, hrespects.append hrespects'⟩
  | single hsuccessors hcloses =>
    obtain ⟨hi, -⟩ := hcode.of_cons
    refine ⟨?_, .single hi (.single hi hstart hsuccessors hcloses)⟩
    rw [← Machine.pushersAfter_append hcloses, ← hstart]
    exact Code.scopes_succ hi
  | @skipped p a i inner hjumps _ ih =>
    obtain ⟨hi, hinner⟩ := hcode.of_cons
    have hinside : code.scopes (p + 1) = a ++ below := by
      rw [Code.scopes_succ hi, Instruction.pushersAfter_of_jumpsTo? hjumps, hstart]
    obtain ⟨hend, hrespects⟩ := ih hinner hinside
    rw [List.length_cons, Nat.add_comm inner.length, ← Nat.add_assoc]
    exact ⟨hend, .cons hi (.jump hi hstart hjumps (hend.trans hstart.symm)) hrespects⟩
  | @choice p a yes no _ _ ihyes ihno =>
    obtain ⟨hfront, hback⟩ := hcode.of_append
    obtain ⟨htest, hyes⟩ := hfront.of_cons
    rw [List.length_cons, Nat.add_comm yes.length, ← Nat.add_assoc] at hback
    obtain ⟨hskip, hno⟩ := hback.of_cons
    obtain ⟨hmiddle, hrespects⟩ := ihyes hyes ((Code.scopes_succ htest).trans hstart)
    have hfalse := (Code.scopes_succ hskip).trans hmiddle
    obtain ⟨hend, hrespects'⟩ := ihno hno hfalse
    have hlength : p + (Instruction.jumpIfFalse (p + 1 + yes.length + 1) :: yes ++
        .jump (p + 1 + yes.length + 1 + no.length) :: no).length =
          p + 1 + yes.length + 1 + no.length := by
      simp only [List.length_append, List.length_cons]
      omega
    rw [hlength]
    refine ⟨hend, .cons htest (.jump htest hstart rfl (hfalse.trans hstart.symm)) ?_⟩
    exact hrespects.append
      (.cons hskip (.jump hskip hmiddle rfl (hend.trans hmiddle.symm)) hrespects')
  | @loop p a body _ ih =>
    obtain ⟨hfront, hback⟩ := hcode.of_append
    obtain ⟨hpush, hrest⟩ := hfront.of_cons
    obtain ⟨hiterate, hbody⟩ := hrest.of_cons
    have hlength : p + (Instruction.pushLoop :: .iterate (p + 2 + body.length + 1) :: body).length =
        p + 2 + body.length := by
      simp only [List.length_cons]
      omega
    rw [hlength] at hback
    rw [List.length_append, ← Nat.add_assoc, hlength, List.length_singleton]
    obtain ⟨hjump, -⟩ := hback.of_cons
    have hopened : code.scopes (p + 1) = p :: a ++ below := by
      rw [Code.scopes_succ hpush, hstart]
      rfl
    obtain ⟨hmiddle, hrespects⟩ := ih hbody ((Code.scopes_succ hiterate).trans hopened)
    have hend := (Code.scopes_succ hjump).trans hmiddle
    have hiterates : code.RespectsOver below (p :: a) (p + 1)
        (.iterate (p + 2 + body.length + 1)) := by
      refine ⟨hopened, fun next hnext => ?_, fun _ _ => ⟨p, a, rfl, hpush⟩, nofun⟩
      rcases List.mem_cons.mp hnext with rfl | hnext
      · exact (Code.scopes_succ hiterate).trans hopened
      · rw [List.mem_singleton.mp hnext]
        exact hend
    refine ⟨hend, .cons hpush (.single hpush hstart rfl nofun) (.cons hiterate hiterates ?_)⟩
    exact hrespects.append (.single hjump (.jump hjump hmiddle rfl (hopened.trans hmiddle.symm)))

/-- Scoped code that leaves nothing open is well scoped when it stands alone. -/
theorem Scoped.wellScoped {code : Code} (h : Scoped 0 code.instructions.toList [] []) :
    code.WellScoped := by
  have hcode : code.Holds 0 code.instructions.toList := fun k i hi => by
    rwa [Nat.zero_add, ← Array.getElem?_toList]
  obtain ⟨hend, hrespects⟩ := h.respects hcode (rfl : code.scopes 0 = [] ++ [])
  rw [Nat.zero_add, Array.length_toList] at hend hrespects
  refine ⟨fun pc i hi => ?_, hend⟩
  obtain ⟨inner, hover⟩ := hrespects (Nat.zero_le pc) (Array.getElem?_eq_some_iff.mp hi).1 hi
  exact hover.respects

end Templating
