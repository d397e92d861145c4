import Templating.Machine.Run
import Templating.Proofs.Failures

/-!
# Errors of instructions

A run that is given up has a fault of its own. No operator and no built-in filter has that fault or
says where it failed, and an instruction does so only if a filter or a call that it carries out
does. So a run that does not end with this fault was not given up anywhere, and what an instruction
fails with is placed by the run, or was placed by one that it called.
-/

namespace Templating

/-- The error has no place of its own. -/
structure Error.IsBare (e : Error) : Prop where
  line : e.line? = none
  location : e.location? = none

/-- The error has no place of its own, and says more than that a run was given up. -/
structure Error.IsPlain (e : Error) : Prop extends e.IsBare where
  fault : e.fault ≠ .outOfSteps

/-- A fault is plain. -/
theorem Error.IsPlain.ofFault {fault : Fault} (h : fault ≠ .outOfSteps) :
    (Error.ofFault fault).IsPlain := ⟨⟨rfl, rfl⟩, h⟩

namespace Result

variable {α β : Type}

/-- The result is a value, or an error that says more than that a run was given up. -/
def Conclusive (r : Result α) : Prop := ∀ e, r = .error e → e.fault ≠ .outOfSteps

/-- The result is a value or a plain error. -/
def Plain (r : Result α) : Prop := r.FailsWith Error.IsPlain

/-- A plain error says more than that a run was given up. -/
theorem Plain.conclusive {r : Result α} (h : r.Plain) : r.Conclusive := fun e he => (h e he).fault

/-- A value is conclusive. -/
theorem Conclusive.ok (a : α) : Conclusive (.ok a : Result α) := FailsWith.ok a

/-- A fault of another kind is conclusive. -/
theorem Conclusive.fail {fault : Fault} (h : fault ≠ .outOfSteps) :
    Conclusive (Templating.fail fault : Result α) := FailsWith.fail h

/-- An error of another kind is conclusive. -/
theorem Conclusive.error {e : Error} (h : e.fault ≠ .outOfSteps) :
    Conclusive (.error e : Result α) := FailsWith.error h

/-- A function of the value of a computation. -/
theorem Conclusive.map {x : Result α} (hx : x.Conclusive) (f : α → β) :
    Conclusive (x.map f : Result β) := FailsWith.map hx f

/-- A value. -/
theorem Plain.ok (a : α) : Plain (.ok a : Result α) := FailsWith.ok a

/-- A fault. -/
theorem Plain.fail {fault : Fault} (h : fault ≠ .outOfSteps) :
    Plain (Templating.fail fault : Result α) := FailsWith.fail (.ofFault h)

/-- One computation after the other. -/
theorem Plain.bind {x : Result α} {f : α → Result β} (hx : x.Plain) (hf : ∀ a, (f a).Plain) :
    (x >>= f).Plain := FailsWith.bind hx fun a _ => hf a

/-- A function of the value of a computation. -/
theorem Plain.map {x : Result α} (hx : x.Plain) (f : α → β) : Plain (x.map f : Result β) :=
  FailsWith.map hx f

end Result

open Result (Conclusive Plain)

namespace Value

theorem exactly_plain (op : String) (a b : Int64) (result? : Option Int64) :
    (exactly op a b result?).Plain := by
  cases result? with
  | some n => exact .ok _
  | none => exact .fail (by simp)

theorem numeric_plain (op : String) (onInts : Int64 → Int64 → Option Int64)
    (onFloats : Float → Float → Float) (a b : Value) :
    (numeric op onInts onFloats a b).Plain := by
  unfold numeric
  split
  · exact exactly_plain _ _ _ _
  · exact .ok _
  · exact .fail (by simp [unsupported])

theorem add_plain (a b : Value) : (add a b).Plain := by
  unfold add
  split
  · exact .ok _
  · exact .ok _
  · exact .ok _
  · exact .ok _
  · exact .ok _
  · unfold addNumbers
    split
    · exact exactly_plain _ _ _ _
    · exact .ok _
    · exact .fail (by simp [unsupported])

theorem div_plain (a b : Value) : (div a b).Plain := by
  unfold div
  split
  · exact .ok _
  · exact .fail (by simp [unsupported])

theorem neg_plain (v : Value) : (neg v).Plain := by
  unfold neg
  split
  · split
    · exact .ok _
    · exact .fail (by simp)
  · exact .ok _
  · exact .ok _
  · exact .fail (by simp)

end Value

/-! ## Filters -/

/-- Reading an argument fails, if at all, plainly. -/
def Arg.Plain {α : Type} (a : Arg α) : Prop := ∀ v?, (a v?).Plain

namespace Arg

variable {α : Type}

theorem any_plain : any.Plain := fun _ => .ok _

theorem required_plain {read : Value → Result α} (h : ∀ v, (read v).Plain) :
    (required read).Plain := by
  intro v?
  cases v? with
  | none => exact .fail (by simp)
  | some v => exact h v

theorem text_plain : text.Plain := required_plain fun _ => .ok _

theorem flag_plain : flag.Plain := required_plain fun _ => .ok _

theorem wrong_plain (expected : String) (v : Value) :
    (wrong expected v : Result α).Plain := .fail (by simp)

theorem index_plain : index.Plain := by
  refine required_plain fun v => ?_
  split
  · split
    · exact .ok _
    · exact wrong_plain _ _
  · exact wrong_plain _ _

theorem items_plain : items.Plain := by
  refine required_plain fun v => ?_
  split
  · exact .ok _
  · exact .ok _
  · exact .ok _
  · exact wrong_plain _ _

theorem optional_plain {a : Arg α} (h : a.Plain) : (optional a).Plain := by
  intro v?
  cases v? with
  | none => exact .ok _
  | some v =>
    simp only [optional]
    split
    · exact .ok _
    · exact (h _).map some

end Arg

namespace Filter

variable {α β γ : Type} {a : Arg α} {b : Arg β} {c : Arg γ}

/-- The filter fails, if at all, plainly. -/
def Plain (f : Filter) : Prop := ∀ place v args, (f place v args).Plain

theorem atMost_plain (count : Nat) (args : List Value) : (atMost count args).Plain := by
  unfold atMost
  split
  · exact .fail (by simp)
  · exact .ok _

theorem of0_plain {f : FilterPlace → α → Result Value} (ha : a.Plain)
    (hf : ∀ place x, (f place x).Plain) : (of0 a f).Plain := fun place _ args =>
  (ha _).bind fun x => (atMost_plain 0 args).bind fun _ => hf place x

theorem of1_plain {f : FilterPlace → α → β → Result Value} (ha : a.Plain)
    (hb : b.Plain) (hf : ∀ place x y, (f place x y).Plain) : (of1 a b f).Plain :=
  fun place _ args =>
    (ha _).bind fun x => (atMost_plain 1 args).bind fun _ => (hb _).bind fun y => hf place x y

theorem of2_plain {f : FilterPlace → α → β → γ → Result Value} (ha : a.Plain)
    (hb : b.Plain) (hc : c.Plain) (hf : ∀ place x y z, (f place x y z).Plain) :
    (of2 a b c f).Plain := fun place _ args =>
  (ha _).bind fun x => (atMost_plain 2 args).bind fun _ => (hb _).bind fun y =>
    (hc _).bind fun z => hf place x y z

/-- A filter that cannot fail once its arguments are read. -/
theorem onText_plain (f : List Char → List Char) : (onText f).Plain :=
  of0_plain Arg.text_plain fun _ _ => .ok _

theorem default_plain : default_.Plain :=
  of1_plain Arg.any_plain (Arg.optional_plain Arg.any_plain) fun _ _ _ => .ok _

theorem escape_plain : escape.Plain := by
  refine of1_plain Arg.any_plain (Arg.optional_plain Arg.text_plain)
    fun _ v mode? => ?_
  cases hsafe : v.isSafe with
  | true => exact .ok _
  | false =>
    cases mode? with
    | none => exact .ok _
    | some mode =>
      simp only [Bool.false_eq_true, if_false]
      split
      · exact .ok _
      · split
        · exact .ok _
        · exact .fail (by simp)

theorem safe_plain : safe.Plain :=
  of0_plain Arg.any_plain fun _ _ => .ok _

theorem replace_plain : replace.Plain :=
  of2_plain Arg.text_plain Arg.text_plain Arg.text_plain fun _ _ _ _ => .ok _

theorem join_plain : join.Plain := by
  refine of1_plain Arg.any_plain (Arg.optional_plain Arg.text_plain)
    fun _ v _ => ?_
  cases v <;> exact .ok _

theorem first_plain : first.Plain := by
  refine of0_plain Arg.any_plain fun _ v => ?_
  cases v <;> exact .ok _

theorem last_plain : last.Plain := by
  refine of0_plain Arg.any_plain fun _ v => ?_
  cases v <;> exact .ok _

theorem length_plain : length.Plain :=
  of0_plain Arg.any_plain fun _ _ => .ok _

theorem reverse_plain : reverse.Plain := by
  refine of0_plain Arg.any_plain fun _ v => ?_
  cases v <;> exact .ok _

theorem sort_plain : sort.Plain := by
  refine of1_plain Arg.any_plain (Arg.optional_plain Arg.flag_plain)
    fun _ v _ => ?_
  cases v <;> exact .ok _

theorem uniq_plain : uniq.Plain :=
  of0_plain Arg.items_plain fun _ _ => .ok _

theorem json_plain : json.Plain := by
  refine of1_plain Arg.any_plain (Arg.optional_plain Arg.index_plain)
    fun _ _ width? => ?_
  cases width? <;> exact .ok _

/-- The built-in filters fail plainly. -/
theorem builtin_plain : ∀ row ∈ builtin, row.2.Plain := by
  simp only [builtin, List.forall_mem_cons]
  exact ⟨default_plain, escape_plain, escape_plain, safe_plain,
    safe_plain, onText_plain _, onText_plain _, onText_plain _,
    onText_plain _, onText_plain _, replace_plain, join_plain,
    first_plain, last_plain, length_plain, reverse_plain, sort_plain,
    uniq_plain, onText_plain _, onText_plain _, json_plain,
    onText_plain _, onText_plain _, fun _ h => absurd h List.not_mem_nil⟩

end Filter

/-- The filter fails, if at all, with a fault of its own. -/
def Filter.Conclusive (f : Filter) : Prop := ∀ place v args, (f place v args).Conclusive

/-- The built-in filters fail with faults of their own. -/
theorem Filter.builtin_conclusive : ∀ row ∈ builtin, row.2.Conclusive :=
  fun row hrow place v args => (builtin_plain row hrow place v args).conclusive

/-! ## Instructions -/

/-- The filters of the program fail with faults of their own. -/
def LinkedProgram.FiltersConclusive (linked : LinkedProgram) : Prop :=
  ∀ f ∈ linked.filters, f.Conclusive

/-- Calls fail, if at all, with faults of their own. -/
def Invocation.Conclusive (invoke : Invocation) : Prop :=
  ∀ callee args frames mode, (invoke callee args frames mode).Conclusive

namespace Machine

open Result (FailsWith)

variable {linked : LinkedProgram} {invoke : Invocation} {code : Code} {m : Machine}
  {P : Error → Prop}

theorem arithmetic_failsWith {f : Value → Value → Result Value}
    (hf : ∀ a b, (f a b).FailsWith P) : (m.arithmetic f).FailsWith P := by
  unfold arithmetic
  dsimp only
  split
  · exact .ok _
  · rename_i e he
    exact .error (hf _ _ e he)

theorem applyFilter_failsWith (hplain : ∀ e : Error, e.IsPlain → P e)
    (hfilters : ∀ f ∈ linked.filters, ∀ place v args, (f place v args).FailsWith P)
    (filter args : Nat) : (m.applyFilter linked code filter args).FailsWith P := by
  unfold applyFilter
  dsimp only
  split
  · exact .fail (hplain _ (.ofFault (by simp)))
  · rename_i f hf
    split
    · exact .ok _
    · rename_i e he
      exact .error (hfilters f (Array.mem_of_getElem? hf) _ _ _ e he)

theorem call_failsWith (hinvoke : ∀ callee args frames mode,
    (invoke callee args frames mode).FailsWith P) (args : Nat) :
    (m.call invoke args).FailsWith P := by
  unfold call
  dsimp only
  split
  · exact .ok _
  · rename_i e he
    exact .error (hinvoke _ _ _ _ e he)

theorem iterate_plain (target : Nat) : (m.iterate target).Plain := by
  unfold iterate
  split
  · exact .fail (by simp)
  · split
    · exact .ok _
    · exact .ok _

/-- An instruction fails plainly, or with the error of a filter or a call. -/
theorem execute_failsWith (hplain : ∀ e : Error, e.IsPlain → P e)
    (hfilters : ∀ f ∈ linked.filters, ∀ place v args, (f place v args).FailsWith P)
    (hinvoke : ∀ callee args frames mode, (invoke callee args frames mode).FailsWith P)
    (i : Instruction) : (m.execute linked invoke code i).FailsWith P := by
  cases i with
  | add => exact (arithmetic_failsWith Value.add_plain).imp hplain
  | sub | mul | rem => exact (arithmetic_failsWith (Value.numeric_plain _ _ _)).imp hplain
  | div => exact (arithmetic_failsWith Value.div_plain).imp hplain
  | neg =>
    simp only [execute]
    split
    · exact .ok _
    · rename_i e he
      exact .error (hplain e (Value.neg_plain _ e he))
  | applyFilter filter args => exact applyFilter_failsWith hplain hfilters filter args
  | call args => exact call_failsWith hinvoke args
  | iterate target => exact (iterate_plain target).imp hplain
  | popAutoEscape =>
    simp only [execute]
    split
    · exact .ok _
    · exact .ok _
  | buildMacro id =>
    simp only [execute]
    split
    · exact .fail (hplain _ (.ofFault (by simp)))
    · exact .ok _
  | _ => exact .ok _

/-- An instruction fails with a fault of its own, or with one of a filter or a call. -/
theorem execute_conclusive (hfilters : linked.FiltersConclusive) (hinvoke : invoke.Conclusive)
    (i : Instruction) : (m.execute linked invoke code i).Conclusive :=
  execute_failsWith (fun _ h => h.fault) hfilters hinvoke i

end Machine

end Templating
