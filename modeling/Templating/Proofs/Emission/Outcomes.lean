import Templating.Proofs.Emission.Composition
import Templating.Proofs.Emission.Laws
import Templating.Proofs.Failures
import Templating.Proofs.Template.Rejections

/-!
# Outcomes of emission

What an action that emits may end with: the filter table holds known filters only, and errors are
such as are allowed. Every action of the emission of expressions and of built-in tags has such
outcomes if the code inside of it has, whatever is allowed, as long as only missing templates and
what rejects part of a source is not, and allowed errors may be placed anywhere.
-/

namespace Templating

/-- Placing an error does not change its class. -/
theorem Error.kind_locate (e : Error) (template : String) (line : Nat) :
    (e.locate template line).kind = e.kind :=
  congrArg Fault.kind (e.fault_locate template line)

/-- The errors of a result are of certain classes. -/
def Result.FailsOnly {α : Type} (allowed : ErrorKind → Prop) (r : Result α) : Prop :=
  ∀ e, r = .error e → allowed e.kind

namespace Emission

open Result (FailsWith)

variable {α β : Type} {isFilter : String → Bool} {allowed : Error → Prop}

/-- The first action fails, or the second one does behind it. -/
theorem bind_eq_error {x : Emission α} {f : α → Emission β} {s : EmissionState} {e : Error} :
    (x >>= f) s = .error e ↔ x s = .error e ∨ ∃ a t, x s = .ok (a, t) ∧ f a t = .error e := by
  change (x s >>= fun p => f p.1 p.2) = _ ↔ _
  cases x s with
  | error e' => simp [bind, Except.bind]
  | ok p => simp [bind, Except.bind, Prod.ext_iff, and_assoc]

/-- Errors are allowed that neither report a missing template nor reject part of a source, and what
is allowed is so wherever it is placed. -/
structure Admits (allowed : Error → Prop) : Prop where
  others : ∀ {fault : Fault}, fault.kind ≠ .templateLoad → fault.rejectedLine? = none →
    allowed (.ofFault fault)
  located : ∀ {e : Error} (template : String) (line : Nat), allowed e →
    allowed (e.locate template line)

/-- It may be reported that a template is missing. -/
def MissingAllowed (allowed : Error → Prop) : Prop :=
  ∀ name, allowed (.ofFault (.templateNotFound name))

/-- Every filter that is added to the table is known, and errors are allowed ones. -/
structure Keeps (isFilter : String → Bool) (allowed : Error → Prop) (x : Emission α) :
    Prop where
  filters : ∀ {s a t}, x s = .ok (a, t) → ∀ f ∈ t.filters, f ∈ s.filters ∨ isFilter f = true
  errors : ∀ {s e}, x s = .error e → allowed e

namespace Keeps

/-- An action that never fails and leaves the filter table as it is. -/
theorem of_ok {x : Emission α} (h : ∀ s, ∃ a t, x s = .ok (a, t) ∧ t.filters = s.filters) :
    Keeps isFilter allowed x := by
  constructor
  · intro s a t hx f hf
    obtain ⟨a', t', hx', hfilters⟩ := h s
    obtain ⟨-, rfl⟩ := Prod.mk.inj (Except.ok.inj (hx.symm.trans hx'))
    exact .inl (hfilters ▸ hf)
  · intro s e hx
    obtain ⟨a, t, hx', -⟩ := h s
    exact absurd (hx.symm.trans hx') nofun

/-- Returning. -/
theorem pure (a : α) : Keeps isFilter allowed (pure a) := of_ok fun s => ⟨a, s, rfl, rfl⟩

/-- One action after the other. -/
theorem bind {x : Emission α} {f : α → Emission β} (hx : Keeps isFilter allowed x)
    (hf : ∀ a, Keeps isFilter allowed (f a)) : Keeps isFilter allowed (x >>= f) := by
  constructor
  · intro s b t h name hname
    obtain ⟨a, u, hfirst, hsecond⟩ := bind_eq_ok.mp h
    rcases (hf a).filters hsecond name hname with hname | hknown
    · exact hx.filters hfirst name hname
    · exact .inr hknown
  · intro s e h
    rcases bind_eq_error.mp h with h | ⟨a, u, -, h⟩
    · exact hx.errors h
    · exact (hf a).errors h

/-- Code behind other code. -/
theorem behind {x : Emission Fragment} (code : Fragment) (hx : Keeps isFilter allowed x) :
    Keeps isFilter allowed (do return code ++ (← x)) := hx.bind fun _ => pure _

/-- Asking for the next position. -/
theorem here : Keeps isFilter allowed here := of_ok fun _ => ⟨_, _, rfl, rfl⟩

/-- Setting the line. -/
theorem setLine {line : Nat} : Keeps isFilter allowed (setLine line) :=
  of_ok fun _ => ⟨_, _, rfl, rfl⟩

/-- Leaving room for an instruction. -/
theorem reserve : Keeps isFilter allowed reserve := of_ok fun _ => ⟨_, _, rfl, rfl⟩

/-- Noting the use of an added tag. -/
theorem useTag {name : String} : Keeps isFilter allowed (useTag name) :=
  of_ok fun _ => ⟨_, _, rfl, rfl⟩

/-- Letting imported macros see each other. -/
theorem shareMacros {imported : List (String × Nat)} :
    Keeps isFilter allowed (shareMacros imported) :=
  of_ok fun _ => ⟨_, _, rfl, rfl⟩

/-- Emitting an instruction. -/
theorem op {i : Instruction} : Keeps isFilter allowed (op i) := reserve.bind fun _ => pure _

/-- Failing with an allowed fault. -/
theorem fail {fault : Fault} (h : allowed (.ofFault fault)) :
    Keeps isFilter allowed (fail fault : Emission α) :=
  ⟨fun hok => (fail_eq_ok.mp hok).elim, fun herror => by rwa [← Except.error.inj herror]⟩

/-- Failing with a fault that tells the line. -/
theorem failAt {faultAt : Nat → Fault} (h : ∀ line, allowed (.ofFault (faultAt line))) :
    Keeps isFilter allowed (do Emission.fail (faultAt (← currentLine)) : Emission α) :=
  (of_ok fun _ => ⟨_, _, rfl, rfl⟩ : Keeps isFilter allowed currentLine).bind
    fun line => fail (h line)

/-- A result that needs no emission, and what is done with it. -/
theorem lift_bind {r : Result α} {f : α → Emission β} (hr : r.FailsWith allowed)
    (hf : ∀ a, r = .ok a → Keeps isFilter allowed (f a)) :
    Keeps isFilter allowed (liftM r >>= f) := by
  cases r with
  | ok a => exact hf a rfl
  | error e =>
    refine ⟨fun hok => ?_, fun herror => ?_⟩
    · exact absurd (hok : (Except.error e : Result _) = _) nofun
    · exact Except.error.inj herror ▸ hr e rfl

/-- Placing errors at a line. -/
theorem placed (hadmits : Admits allowed) {line : Nat} {x : Emission α}
    (hx : Keeps isFilter allowed x) : Keeps isFilter allowed (placed line x) := by
  refine ⟨fun hok => hx.filters (placed_eq_ok.mp hok), fun {s e} herror => ?_⟩
  unfold Emission.placed at herror
  split at herror
  · exact absurd herror nofun
  · next e' hfails =>
    rw [← Except.error.inj herror]
    exact hadmits.located _ _ (hx.errors hfails)

/-- Failing with a fault that is allowed once it is placed. -/
theorem placed_of_fails {line : Nat} {x : Emission α} {fault : Fault}
    (hx : ∀ s, x s = .error (.ofFault fault))
    (h : ∀ template, allowed ((Error.ofFault fault).locate template line)) :
    Keeps isFilter allowed (Emission.placed line x) := by
  refine ⟨fun {s _ _} hok => ?_, fun {s e} herror => ?_⟩
  · exact absurd ((hx s).symm.trans (placed_eq_ok.mp hok)) nofun
  · simp only [Emission.placed, hx s] at herror
    rw [← Except.error.inj herror]
    exact h _

/-- Emitting with another current file. -/
theorem inFile {name : String} {x : Emission α} (hx : Keeps isFilter allowed x) :
    Keeps isFilter allowed (inFile name x) := by
  constructor
  · intro s a t h
    obtain ⟨u, hinner, rfl⟩ := inFile_eq_ok.mp h
    exact fun f hf => hx.filters hinner f hf
  · intro s e h
    simp only [Emission.inFile] at h
    split at h
    · simp at h
    · next e' hfails => exact Except.error.inj h ▸ hx.errors hfails

/-- Emitting the code of a macro. -/
theorem macroCode {name : String} {params : List String} {x : Emission Fragment}
    (hx : Keeps isFilter allowed x) : Keeps isFilter allowed (macroCode name params x) := by
  constructor
  · intro s id t h
    obtain ⟨code, u, hinner, -, rfl⟩ := macroCode_eq_ok.mp h
    exact fun f hf => hx.filters hinner f hf
  · intro s e h
    unfold Emission.macroCode at h
    split at h
    · exact absurd h nofun
    · next e' hfails => exact Except.error.inj h ▸ hx.errors hfails

end Keeps

/-- A name that is in a table after another one was looked up there is that one or was in there
before. -/
theorem mem_intern {table : Array String} {name other : String}
    (h : other ∈ (intern table name).2) : other ∈ table ∨ other = name := by
  unfold intern at h
  split at h
  · exact .inl h
  · exact Array.mem_push.mp h

/-- All classes but that of a missing template are allowed. -/
def OthersAllowed (allowed : ErrorKind → Prop) : Prop :=
  ∀ kind, kind ≠ .templateLoad → allowed kind

/-- Then errors of these classes are. -/
theorem OthersAllowed.admits {allowed : ErrorKind → Prop} (h : OthersAllowed allowed) :
    Admits fun e => allowed e.kind where
  others hkind _ := h _ hkind
  located _ _ he := by rwa [Error.kind_locate]

/-- A filter that is applied is known. -/
theorem Keeps.applyFilter (hadmits : Admits allowed) (name : String) (args : Nat) :
    Keeps isFilter allowed (applyFilter isFilter name args) := by
  constructor
  · intro s code t h f hf
    obtain ⟨hknown, -, rfl⟩ := applyFilter_eq_ok.mp h
    rcases mem_intern hf with hf | rfl
    · exact .inl hf
    · exact .inr hknown
  · intro s e h
    unfold Emission.applyFilter at h
    split at h
    · exact absurd h nofun
    · have hfails : Keeps isFilter allowed
          (do Emission.fail (.unknownFilter name (← currentLine)) : Emission Fragment) :=
        .failAt fun _ => hadmits.others nofun rfl
      exact hfails.errors h

/-- Bad arguments are no missing template. -/
theorem badArguments_keeps (hadmits : Admits allowed) (name : String) :
    Keeps isFilter allowed (badArguments name) :=
  .failAt fun _ => hadmits.others nofun rfl

/-- Whatever code is put together, it has such outcomes if what it is put together of has. -/
theorem keeps_congruence (hadmits : Admits allowed) (isFilter : String → Bool) :
    Congruence isFilter (fun _ => True) fun x _ => Keeps isFilter allowed x where
  nothing := .pure _
  andThen hx hy := hx.bind fun _ => .behind _ hy
  onLine _ hx := Keeps.setLine.bind fun _ => hx
  op _ _ := .op
  applyFilter name args := .applyFilter hadmits name args
  skipping _ hx := Keeps.reserve.bind fun _ => hx.bind fun _ => Keeps.here.bind fun _ => .pure _
  choosing hx hy := by
    refine Keeps.reserve.bind fun _ => hx.bind fun _ => Keeps.reserve.bind fun _ => ?_
    exact Keeps.here.bind fun _ => hy.bind fun _ => Keeps.here.bind fun _ => .pure _
  rounds hx := by
    refine Keeps.here.bind fun _ => Keeps.reserve.bind fun _ => hx.bind fun _ => ?_
    exact Keeps.op.bind fun _ => Keeps.here.bind fun _ => .pure _
  badArguments := badArguments_keeps hadmits

end Emission

end Templating
