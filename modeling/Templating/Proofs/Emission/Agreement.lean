import Templating.Proofs.Emission.Composition

/-!
# Emissions that agree

One action that emits follows another up to a refusal if it either fails with a certain fault, the
refusal, or ends as the other one does. There are two degrees of that. From one state the two may be
asked to end in the same way exactly; from any two states they may only be asked to succeed both or
to fail both. The second degree says that emission goes the same way in whatever state it starts.
-/

namespace Templating

/-- The result is a failure with the fault. -/
def Result.IsFault {α : Type} (r : Result α) (fault : Fault) : Prop :=
  ∃ e, r = .error e ∧ e.fault = fault

namespace Emission

variable {α β : Type} {refusal : Fault} {same : Prop}

/-- Two successes, or two failures of which the second is not a refusal, equal if that is asked
for. -/
inductive Matches (refusal : Fault) (same : Prop) :
    Result (α × EmissionState) → Result (α × EmissionState) → Prop
  | ok {a b : α} {s t : EmissionState} : (same → a = b ∧ s = t) →
    Matches refusal same (.ok (a, s)) (.ok (b, t))
  | error {e e' : Error} : (same → e = e') → e'.fault ≠ refusal →
    Matches refusal same (.error e) (.error e')

/-- The first action is refused, or ends as the second one does. -/
def Follows (refusal : Fault) (same : Prop) (x y : Emission α) : Prop :=
  ∀ ⦃s t : EmissionState⦄, (same → s = t) →
    Result.IsFault (x s) refusal ∨ Matches refusal same (x s) (y t)

namespace Follows

/-- What follows a refusal is refused. -/
theorem isFault {x y : Emission α} (h : Follows refusal same x y) {s t : EmissionState}
    (hst : same → s = t) (hy : Result.IsFault (y t) refusal) : Result.IsFault (x s) refusal := by
  rcases h hst with hfault | hmatches
  · exact hfault
  · obtain ⟨e, he, hfault⟩ := hy
    rw [he] at hmatches
    generalize x s = r at hmatches
    cases hmatches with
    | error _ hne => exact absurd hfault hne

/-- What is not refused is the same as what it follows. -/
theorem eq {x y : Emission α} (h : Follows refusal True x y) {s : EmissionState}
    (hx : ¬ Result.IsFault (x s) refusal) : x s = y s := by
  rcases h (fun _ => rfl) with hfault | hmatches
  · exact absurd hfault hx
  · generalize x s = r, y s = r' at hmatches
    cases hmatches with
    | ok hsame =>
      obtain ⟨rfl, rfl⟩ := hsame trivial
      rfl
    | error hsame _ => rw [hsame trivial]

/-- A refusal follows everything. -/
theorem refused (y : Emission α) : Follows refusal same (fail refusal) y :=
  fun _ _ _ => .inl ⟨_, rfl, rfl⟩

/-- Returning. -/
theorem pure {a b : α} (h : same → a = b) : Follows refusal same (pure a) (pure b) :=
  fun _ _ hst => .inr (.ok fun hsame => ⟨h hsame, hst hsame⟩)

/-- One action after the other. -/
theorem bind {x y : Emission α} {g h : α → Emission β} (hxy : Follows refusal same x y)
    (hgh : ∀ a b, (same → a = b) → Follows refusal same (g a) (h b)) :
    Follows refusal same (x >>= g) (y >>= h) := by
  intro s t hst
  change Result.IsFault (x s >>= fun p => g p.1 p.2) refusal ∨
    Matches refusal same (x s >>= fun p => g p.1 p.2) (y t >>= fun p => h p.1 p.2)
  rcases hxy hst with ⟨e, he, hfault⟩ | hmatches
  · rw [he]
    exact .inl ⟨e, rfl, hfault⟩
  · generalize x s = r, y t = r' at hmatches
    cases hmatches with
    | @ok a b _ _ hsame => exact hgh a b (fun h => (hsame h).1) fun h => (hsame h).2
    | error hsame hne => exact .inr (.error hsame hne)

/-- Code behind other code. -/
theorem behind {x y : Emission Fragment} {p q : Fragment} (hpq : same → p = q)
    (h : Follows refusal same x y) :
    Follows refusal same (do return p ++ (← x)) (do return q ++ (← y)) :=
  h.bind fun _ _ hab => pure fun hsame => by rw [hpq hsame, hab hsame]

/-- An action that never fails. -/
theorem of_ok {x : Emission α} (h : ∀ s, ∃ a t, x s = .ok (a, t)) : Follows refusal same x x := by
  intro s t hst
  obtain ⟨a, s', hs⟩ := h s
  obtain ⟨b, t', ht⟩ := h t
  rw [hs, ht]
  refine .inr (.ok fun hsame => ?_)
  rw [hst hsame, ht] at hs
  exact ⟨(Prod.mk.inj (Except.ok.inj hs)).1.symm, (Prod.mk.inj (Except.ok.inj hs)).2.symm⟩

/-- Asking for the next position. -/
theorem here : Follows refusal same here here := of_ok fun _ => ⟨_, _, rfl⟩

/-- Asking for the line. -/
theorem currentLine : Follows refusal same currentLine currentLine := of_ok fun _ => ⟨_, _, rfl⟩

/-- Setting the line. -/
theorem setLine {line : Nat} : Follows refusal same (setLine line) (setLine line) :=
  of_ok fun _ => ⟨_, _, rfl⟩

/-- Leaving room for an instruction. -/
theorem reserve : Follows refusal same reserve reserve := of_ok fun _ => ⟨_, _, rfl⟩

/-- Noting the use of an added tag. -/
theorem useTag {name : String} : Follows refusal same (useTag name) (useTag name) :=
  of_ok fun _ => ⟨_, _, rfl⟩

/-- Emitting an instruction. -/
theorem op {i j : Instruction} (h : same → i = j) : Follows refusal same (op i) (op j) :=
  reserve.bind fun _ _ hplace => pure fun hsame => by rw [hplace hsame, h hsame]

/-- Failing with a fault that does not depend on the state. -/
theorem fail {fault : Fault} : Follows refusal same (fail fault : Emission α) (fail fault) := by
  intro s t _
  by_cases hfault : fault = refusal
  · exact .inl ⟨_, rfl, hfault⟩
  · exact .inr (.error (fun _ => rfl) hfault)

/-- Failing with a fault that tells the line. If states may differ the refusal has to be one that
tells no line. -/
theorem failAt {faultAt : Nat → Fault} (hrefusal : ¬ same → refusal = .nestedTooDeep)
    (hfault : ∀ line, faultAt line ≠ .nestedTooDeep) :
    Follows refusal same (do Emission.fail (faultAt (← Emission.currentLine)) : Emission α)
      (do Emission.fail (faultAt (← Emission.currentLine))) := by
  refine currentLine.bind fun a b hab => ?_
  by_cases hsame : same
  · rw [hab hsame]
    exact fail
  · refine fun _ _ _ => .inr (.error (fun h => absurd h hsame) ?_)
    rw [hrefusal hsame]
    exact hfault b

/-- A result that needs no emission, and what is done with it. -/
theorem lift_bind {r : Result α} {g h : α → Emission β}
    (hgh : ∀ a, r = .ok a → Follows refusal same (g a) (h a)) :
    Follows refusal same (liftM r >>= g) (liftM r >>= h) := by
  cases r with
  | ok a => exact hgh a rfl
  | error e =>
    intro s t _
    by_cases hfault : e.fault = refusal
    · exact .inl ⟨e, rfl, hfault⟩
    · exact .inr (.error (fun _ => rfl) hfault)

/-- Placing errors at a line. -/
theorem placed {line : Nat} {x y : Emission α} (h : Follows refusal same x y) :
    Follows refusal same (placed line x) (placed line y) := by
  intro s t hst
  unfold Emission.placed
  rcases h hst with ⟨e, he, hfault⟩ | hmatches
  · rw [he]
    exact .inl ⟨_, rfl, (Error.fault_locate _ _ _).trans hfault⟩
  · generalize x s = r, y t = r' at hmatches
    cases hmatches with
    | ok hsame => exact .inr (.ok hsame)
    | error hsame hne =>
      refine .inr (.error (fun h => by rw [hsame h, hst h]) ?_)
      rwa [Error.fault_locate]

/-- Emitting with another current file. -/
theorem inFile {name : String} {x y : Emission α} (h : Follows refusal same x y) :
    Follows refusal same (inFile name x) (inFile name y) := by
  intro s t hst
  unfold Emission.inFile
  have hinner := @h { s with file := (intern s.files name).1, files := (intern s.files name).2 }
    { t with file := (intern t.files name).1, files := (intern t.files name).2 }
    fun hsame => by rw [hst hsame]
  dsimp only
  rcases hinner with ⟨e, he, hfault⟩ | hmatches
  · rw [he]
    exact .inl ⟨e, rfl, hfault⟩
  · generalize x _ = r, y _ = r' at hmatches
    cases hmatches with
    | ok hsame =>
      refine .inr (.ok fun h => ?_)
      rw [(hsame h).1, (hsame h).2, hst h]
      exact ⟨rfl, rfl⟩
    | error hsame hne => exact .inr (.error hsame hne)

/-- Emitting the code of a macro. -/
theorem macroCode {name : String} {params : List String} {x y : Emission Fragment}
    (h : Follows refusal same x y) :
    Follows refusal same (macroCode name params x) (macroCode name params y) := by
  intro s t hst
  unfold Emission.macroCode
  have hinner := @h { s with next := 0 } { t with next := 0 } fun hsame => by rw [hst hsame]
  rcases hinner with ⟨e, he, hfault⟩ | hmatches
  · rw [he]
    exact .inl ⟨e, rfl, hfault⟩
  · generalize x _ = r, y _ = r' at hmatches
    cases hmatches with
    | ok hsame =>
      refine .inr (.ok fun h => ?_)
      rw [(hsame h).1, (hsame h).2, hst h]
      exact ⟨rfl, rfl⟩
    | error hsame hne => exact .inr (.error hsame hne)

/-- Applying a filter. -/
theorem applyFilter (hrefusal : ¬ same → refusal = .nestedTooDeep) (isFilter : String → Bool)
    (name : String) (args : Nat) :
    Follows refusal same (applyFilter isFilter name args) (applyFilter isFilter name args) := by
  unfold Emission.applyFilter
  cases isFilter name with
  | true =>
    refine (of_ok fun s => ⟨_, _, rfl⟩).bind fun a b hab => op fun hsame => ?_
    rw [hab hsame]
  | false => exact failAt hrefusal fun _ => nofun

end Follows

/-- Bad arguments are reported alike. -/
theorem badArguments_follows (hrefusal : ¬ same → refusal = .nestedTooDeep) (name : String) :
    Follows refusal same (badArguments name) (badArguments name) :=
  .failAt hrefusal fun _ => nofun

/-- Whatever code is put together, it is emitted in the same way from every state if what it is put
together of is. -/
theorem follows_congruence (hrefusal : ¬ same → refusal = .nestedTooDeep)
    (isFilter : String → Bool) :
    Congruence isFilter (fun _ => True) (Follows refusal same) where
  nothing := .pure fun _ => rfl
  andThen hx hy := hx.bind fun _ _ hcode => .behind hcode hy
  onLine _ hx := Follows.setLine.bind fun _ _ _ => hx
  op _ _ := .op fun _ => rfl
  applyFilter name args := .applyFilter hrefusal isFilter name args
  skipping _ hx := by
    refine Follows.reserve.bind fun _ _ hplace => hx.bind fun _ _ hcode => ?_
    refine Follows.here.bind fun _ _ hstop => .pure fun hsame => ?_
    rw [hplace hsame, hcode hsame, hstop hsame]
  choosing hx hy := by
    refine Follows.reserve.bind fun _ _ htest => hx.bind fun _ _ hyes => ?_
    refine Follows.reserve.bind fun _ _ hskip => Follows.here.bind fun _ _ honFalse => ?_
    refine hy.bind fun _ _ hno => Follows.here.bind fun _ _ hstop => .pure fun hsame => ?_
    rw [htest hsame, hyes hsame, hskip hsame, honFalse hsame, hno hsame, hstop hsame]
  rounds hx := by
    refine Follows.here.bind fun _ _ hstart => Follows.reserve.bind fun _ _ hiterate => ?_
    refine hx.bind fun _ _ hcode => (Follows.op fun hsame => by rw [hstart hsame]).bind ?_
    refine fun _ _ hback => Follows.here.bind fun _ _ hstop => .pure fun hsame => ?_
    rw [hiterate hsame, hcode hsame, hback hsame, hstop hsame]
  badArguments := badArguments_follows hrefusal

end Emission

end Templating
