import Templating.Proofs.Emission.Composition
import Templating.Proofs.Emission.Growth
import Templating.Proofs.Program.LineTable

/-!
# Emission does not depend on places

Files and lines are only carried along: which instructions are emitted and what is entered into the
tables depends neither on the place where emission starts nor on the places on the way. One action
yields to another if, from states that differ at most in places, the second one succeeds whenever
the first one does, with a related result and in a state that again differs at most in places.
-/

namespace Templating

/-- The macro without the places of its code. -/
def MacroDecl.unplaced (m : MacroDecl) : MacroDecl :=
  { m with code := { instructions := m.code.instructions } }

/-- The states differ at most in places, and in the added tags that were noted. -/
structure EmissionState.Alike (s t : EmissionState) : Prop where
  next : s.next = t.next
  filters : s.filters = t.filters
  macros : s.macros.map MacroDecl.unplaced = t.macros.map MacroDecl.unplaced

namespace Fragment

variable {first second first' second' : Fragment}

/-- Pieces of code with the same instructions. -/
def SameCode (first second : Fragment) : Prop := first.instructions = second.instructions

/-- Code behind the same code is the same. -/
theorem SameCode.append (h : first.SameCode first') (h' : second.SameCode second') :
    SameCode (first ++ second) (first' ++ second') := by
  rw [SameCode, instructions_append, instructions_append, h, h']

/-- Code behind the same instruction is the same. -/
theorem SameCode.cons {p q : Placed} (hp : p.instruction = q.instruction)
    (h : first.SameCode first') : SameCode (p :: first) (q :: first') := by
  rw [SameCode, instructions_cons, instructions_cons, hp, h]

/-- Pieces of code with the same instructions are put together to the same instructions. -/
theorem SameCode.ofFragment (h : first.SameCode second) :
    (Code.ofFragment first).instructions = (Code.ofFragment second).instructions := by
  apply Array.toList_inj.mp
  rw [(Code.ofFragment_describes first).1, (Code.ofFragment_describes second).1]
  exact h

end Fragment

namespace Emission

open Fragment (SameCode)

variable {α β γ δ : Type} {R : α → β → Prop} {Q : γ → δ → Prop}

/-- Room for one instruction at either place. -/
def SameRoom (place place' : Instruction → Placed) : Prop :=
  ∀ i, (place i).instruction = (place' i).instruction

/-- Whenever the first action succeeds the second one does, with a related result, whatever the
places. -/
def Yields (R : α → β → Prop) (x : Emission α) (y : Emission β) : Prop :=
  ∀ ⦃s t : EmissionState⦄, s.Alike t → ∀ ⦃a : α⦄ ⦃s' : EmissionState⦄, x s = .ok (a, s') →
    ∃ b t', y t = .ok (b, t') ∧ R a b ∧ s'.Alike t'

namespace Yields

/-- Returning. -/
theorem pure {a : α} {b : β} (h : R a b) : Yields R (pure a) (pure b) := by
  intro s t hst a' s' hx
  obtain ⟨rfl, rfl⟩ := pure_eq_ok.mp hx
  exact ⟨b, t, rfl, h, hst⟩

/-- One action after the other. -/
theorem bind {x : Emission α} {y : Emission β} {f : α → Emission γ} {g : β → Emission δ}
    (hxy : Yields R x y) (hfg : ∀ a b, R a b → Yields Q (f a) (g b)) :
    Yields Q (x >>= f) (y >>= g) := by
  intro s t hst c s' hx
  obtain ⟨a, u, hxs, hf⟩ := bind_eq_ok.mp hx
  obtain ⟨b, v, hyt, hab, huv⟩ := hxy hst hxs
  obtain ⟨d, t', hg, hcd, hst'⟩ := hfg a b hab huv hf
  exact ⟨d, t', bind_eq_ok.mpr ⟨b, v, hyt, hg⟩, hcd, hst'⟩

/-- What fails yields to everything. -/
theorem of_fails {x : Emission α} (h : ∀ s p, x s ≠ .ok p) (y : Emission β) : Yields R x y :=
  fun s _ _ _ _ hx => absurd hx (h s _)

/-- A fault yields to everything. -/
theorem fail (fault : Fault) (y : Emission β) : Yields R (fail fault : Emission α) y :=
  of_fails (fun _ _ h => fail_eq_ok.mp h) y

/-- A fault that tells the line yields to everything. -/
theorem failAt (faultAt : Nat → Fault) (y : Emission β) :
    Yields R (do Emission.fail (faultAt (← currentLine)) : Emission α) y :=
  of_fails (fun _ _ h => absurd (bind_eq_ok.mp h) fun ⟨_, _, _, hfail⟩ => fail_eq_ok.mp hfail) y

/-- Code behind other code. -/
theorem behind {x y : Emission Fragment} {first second : Fragment}
    (hcode : first.SameCode second) (h : Yields SameCode x y) :
    Yields SameCode (do return first ++ (← x)) (do return second ++ (← y)) :=
  h.bind fun _ _ hmore => pure (hcode.append hmore)

/-- Asking for the next position. -/
theorem here : Yields Eq here here := by
  intro s t hst n s' hx
  obtain ⟨rfl, rfl⟩ := here_eq_ok.mp hx
  exact ⟨t.next, t, rfl, hst.next, hst⟩

/-- The line does not matter, to either side. -/
theorem setLine (line line' : Nat) :
    Yields (fun _ _ => True) (setLine line) (setLine line') := by
  intro s t hst a s' hx
  obtain rfl := setLine_eq_ok.mp hx
  exact ⟨(), _, rfl, trivial, hst.next, hst.filters, hst.macros⟩

/-- The line does not matter. -/
theorem after_setLine {line : Nat} {x : Emission α} {y : Emission β} (h : Yields R x y) :
    Yields R (do Emission.setLine line; x) y := by
  intro s t hst a s' hx
  obtain ⟨_, u, hline, hx⟩ := bind_eq_ok.mp hx
  rw [← setLine_eq_ok.mp hline] at hx
  have hst' : EmissionState.Alike { s with line } t := ⟨hst.next, hst.filters, hst.macros⟩
  exact h hst' hx

/-- Whether the use of an added tag is noted does not matter. -/
theorem after_useTag {note : Bool} {name : String} {x : Emission α} {y : Emission β}
    (h : Yields R x y) : Yields R (if note = true then useTag name >>= fun _ => x else x) y := by
  split
  · intro s t hst a s' hx
    obtain ⟨_, u, hnote, hx⟩ := bind_eq_ok.mp hx
    rw [← useTag_eq_ok.mp hnote] at hx
    have hst' : EmissionState.Alike { s with tags := insertSorted name s.tags } t :=
      ⟨hst.next, hst.filters, hst.macros⟩
    exact h hst' hx
  · exact h

/-- Noting the use of an added tag on both sides. -/
theorem noted {note : Bool} {name : String} {x : Emission α} {y : Emission β} (h : Yields R x y) :
    Yields R (if note = true then useTag name >>= fun _ => x else x)
      (if note = true then useTag name >>= fun _ => y else y) := by
  split
  · intro s t hst a s' hx
    obtain ⟨_, u, hnote, hx⟩ := bind_eq_ok.mp hx
    rw [← useTag_eq_ok.mp hnote] at hx
    have hnoted : EmissionState.Alike { s with tags := insertSorted name s.tags }
        { t with tags := insertSorted name t.tags } := ⟨hst.next, hst.filters, hst.macros⟩
    obtain ⟨b, t', hy, hab, hst'⟩ := h hnoted hx
    exact ⟨b, t', bind_eq_ok.mpr ⟨(), _, rfl, hy⟩, hab, hst'⟩
  · exact h

/-- Leaving room for an instruction. -/
theorem reserve : Yields SameRoom reserve reserve := by
  intro s t hst place s' hx
  obtain ⟨rfl, rfl⟩ := reserve_eq_ok.mp hx
  exact ⟨_, _, rfl, fun _ => rfl, congrArg (· + 1) hst.next, hst.filters, hst.macros⟩

/-- Emitting an instruction. -/
theorem op (i : Instruction) : Yields SameCode (op i) (op i) :=
  reserve.bind fun _ _ hroom => pure (.cons (hroom i) rfl)

/-- A result that needs no emission, and what is done with it. -/
theorem lift_bind {r : Result α} {f : α → Emission γ} {g : α → Emission δ}
    (h : ∀ a, Yields Q (f a) (g a)) : Yields Q (liftM r >>= f) (liftM r >>= g) := by
  intro s t hst c s' hx
  obtain ⟨a, u, hr, hf⟩ := bind_eq_ok.mp hx
  obtain ⟨rfl, rfl⟩ := lift_eq_ok.mp hr
  obtain ⟨d, t', hg, hcd, hst'⟩ := h a hst hf
  exact ⟨d, t', bind_eq_ok.mpr ⟨a, t, lift_eq_ok.mpr ⟨rfl, rfl⟩, hg⟩, hcd, hst'⟩

/-- What is done with a result that needs no emission and yields. -/
theorem lift_left {r : Result γ} {f : γ → Emission α} {y : Emission β}
    (h : ∀ c, r = .ok c → Yields R (f c) y) : Yields R (liftM r >>= f) y := by
  intro s t hst a s' hx
  obtain ⟨c, u, hr, hf⟩ := bind_eq_ok.mp hx
  obtain ⟨hc, rfl⟩ := lift_eq_ok.mp hr
  exact h c hc hst hf

/-- What is done with a result that needs no emission and is yielded to. -/
theorem lift_right {r : Result γ} {c : γ} (hr : r = .ok c) {x : Emission α} {g : γ → Emission β}
    (h : Yields R x (g c)) : Yields R x (liftM r >>= g) := by
  intro s t hst a s' hx
  obtain ⟨b, t', hg, hab, hst'⟩ := h hst hx
  exact ⟨b, t', bind_eq_ok.mpr ⟨c, t, lift_eq_ok.mpr ⟨hr, rfl⟩, hg⟩, hab, hst'⟩

/-- Where errors are placed does not matter to what succeeds. -/
theorem placed {line line' : Nat} {x : Emission α} {y : Emission β} (h : Yields R x y) :
    Yields R (placed line x) (placed line' y) := by
  intro s t hst a s' hx
  obtain ⟨b, t', hy, hab, hst'⟩ := h hst (placed_eq_ok.mp hx)
  exact ⟨b, t', placed_eq_ok.mpr hy, hab, hst'⟩

/-- Where errors are placed does not matter to what succeeds. -/
theorem of_placed {line : Nat} {x : Emission α} {y : Emission β} (h : Yields R x y) :
    Yields R (Emission.placed line x) y := fun _ _ hst _ _ hx => h hst (placed_eq_ok.mp hx)

/-- The current file does not matter to what yields. -/
theorem inFile_left {name : String} {x : Emission α} {y : Emission β} (h : Yields R x y) :
    Yields R (inFile name x) y := by
  intro s t hst a s' hx
  obtain ⟨u, hinner, rfl⟩ := inFile_eq_ok.mp hx
  have hmoved : EmissionState.Alike
      { s with file := (intern s.files name).1, files := (intern s.files name).2 } t :=
    ⟨hst.next, hst.filters, hst.macros⟩
  obtain ⟨b, t', hy, hab, hst'⟩ := h hmoved hinner
  exact ⟨b, t', hy, hab, hst'.next, hst'.filters, hst'.macros⟩

/-- The current file does not matter to what is yielded to. -/
theorem inFile_right {name : String} {x : Emission α} {y : Emission β} (h : Yields R x y) :
    Yields R x (inFile name y) := by
  intro s t hst a s' hx
  have hmoved : EmissionState.Alike s
      { t with file := (intern t.files name).1, files := (intern t.files name).2 } :=
    ⟨hst.next, hst.filters, hst.macros⟩
  obtain ⟨b, u, hy, hab, hst'⟩ := h hmoved hx
  exact ⟨b, _, inFile_eq_ok.mpr ⟨u, hy, rfl⟩, hab, hst'.next, hst'.filters, hst'.macros⟩

/-- Emitting the code of a macro. -/
theorem macroCode {name : String} {params : List String} {x y : Emission Fragment}
    (h : Yields SameCode x y) : Yields Eq (macroCode name params x) (macroCode name params y) := by
  intro s t hst id s' hx
  obtain ⟨code, u, hbody, rfl, rfl⟩ := macroCode_eq_ok.mp hx
  have hstart : EmissionState.Alike { s with next := 0 } { t with next := 0 } :=
    ⟨rfl, hst.filters, hst.macros⟩
  obtain ⟨code', v, hy, hcode, huv⟩ := h hstart hbody
  have hsize : u.macros.size = v.macros.size := by
    simpa using congrArg Array.size huv.macros
  refine ⟨_, _, macroCode_eq_ok.mpr ⟨code', v, hy, rfl, rfl⟩, hsize, hst.next, huv.filters, ?_⟩
  simp only [Array.map_push, huv.macros, MacroDecl.unplaced, hcode.ofFragment]

/-- Applying a filter. -/
theorem applyFilter (isFilter : String → Bool) (name : String) (args : Nat) :
    Yields SameCode (applyFilter isFilter name args) (applyFilter isFilter name args) := by
  intro s t hst code s' hx
  obtain ⟨hfilter, rfl, rfl⟩ := applyFilter_eq_ok.mp hx
  refine ⟨_, _, applyFilter_eq_ok.mpr ⟨hfilter, rfl, rfl⟩, .cons ?_ rfl, ?_, ?_, hst.macros⟩
  · rw [hst.filters]
  · exact congrArg (· + 1) hst.next
  · rw [hst.filters]

/-- What yields to something that yields. -/
theorem trans {x y z : Emission Fragment} (hxy : Yields SameCode x y) (hyz : Yields SameCode y z) :
    Yields SameCode x z := by
  intro s t hst a s' hx
  obtain ⟨b, u, hy, hab, hsu⟩ := hxy ⟨rfl, rfl, rfl⟩ hx
  obtain ⟨c, t', hz, hbc, hut⟩ := hyz hst hy
  exact ⟨c, t', hz, hab.trans hbc, hsu.next.trans hut.next, hsu.filters.trans hut.filters,
    hsu.macros.trans hut.macros⟩

end Yields

/-- Whatever code is put together, it does not depend on places if what it is put together of does
not. -/
theorem yields_congruence (isFilter : String → Bool) :
    Congruence isFilter (fun _ => True) (Yields SameCode) where
  nothing := .pure rfl
  andThen hx hy := hx.bind fun _ _ hcode => .behind hcode hy
  onLine _ hx := (Yields.setLine _ _).bind fun _ _ _ => hx
  op _ _ := .op _
  applyFilter name args := .applyFilter isFilter name args
  skipping _ hx := by
    refine Yields.reserve.bind fun _ _ hroom => hx.bind fun _ _ hcode => ?_
    refine Yields.here.bind fun stop _ hstop => .pure ?_
    subst hstop
    exact .cons (hroom _) hcode
  choosing hx hy := by
    refine Yields.reserve.bind fun _ _ htest => hx.bind fun _ _ hyes => ?_
    refine Yields.reserve.bind fun _ _ hskip => Yields.here.bind fun onFalse _ honFalse => ?_
    refine hy.bind fun _ _ hno => Yields.here.bind fun stop _ hstop => .pure ?_
    subst honFalse hstop
    exact .cons (htest (.jumpIfFalse onFalse)) (hyes.append (.cons (hskip (.jump stop)) hno))
  rounds hx := by
    refine Yields.here.bind fun start _ hstart => Yields.reserve.bind fun _ _ hiterate => ?_
    subst hstart
    refine hx.bind fun _ _ hcode => (Yields.op _).bind fun _ _ hback => ?_
    refine Yields.here.bind fun stop _ hstop => .pure ?_
    subst hstop
    exact SameCode.append (.cons (hiterate (.iterate stop)) hcode) hback
  badArguments _ := .failAt _ _

end Emission

end Templating
