import Templating.Error

/-!
# Errors that computations may end with

What is known of the error of a computation, should it fail. Such knowledge goes along with the
usual ways of putting computations together.
-/

namespace Templating.Result

/-- One computation after the other fails if the first one does, or the second one behind it. -/
theorem bind_eq_error {α β : Type} {x : Result α} {f : α → Result β} {e : Error} :
    x >>= f = .error e ↔ x = .error e ∨ ∃ a, x = .ok a ∧ f a = .error e := by
  cases x <;> simp [bind, Except.bind]

/-- If the computation fails its error has a property. -/
def FailsWith {α : Type} (P : Error → Prop) (r : Result α) : Prop := ∀ e, r = .error e → P e

namespace FailsWith

variable {α β : Type} {P Q : Error → Prop}

/-- A value. -/
theorem ok (a : α) : FailsWith P (.ok a : Result α) := fun _ h => by simp at h

/-- An error. -/
theorem error {e : Error} (h : P e) : FailsWith P (.error e : Result α) := by
  intro e' he
  obtain rfl := Except.error.inj he
  exact h

/-- A fault. -/
theorem fail {fault : Fault} (h : P (.ofFault fault)) :
    FailsWith P (Templating.fail fault : Result α) := error h

/-- Less may be known of the error. -/
theorem imp {r : Result α} (h : r.FailsWith P) (himp : ∀ e, P e → Q e) : r.FailsWith Q :=
  fun e he => himp e (h e he)

/-- One computation after the other. -/
theorem bind {r : Result α} {f : α → Result β} (hr : r.FailsWith P)
    (hf : ∀ a, r = .ok a → (f a).FailsWith P) : (r >>= f).FailsWith P := by
  cases r with
  | ok a => exact hf a rfl
  | error e => exact error (hr e rfl)

/-- A function of the value of a computation. -/
theorem map {r : Result α} (hr : r.FailsWith P) (f : α → β) :
    FailsWith P (r.map f : Result β) := by
  cases r with
  | ok a => exact ok (f a)
  | error e => exact error (hr e rfl)

/-- Computations over a list. -/
theorem mapM {f : α → Result β} {xs : List α} (hf : ∀ x ∈ xs, (f x).FailsWith P) :
    FailsWith P (xs.mapM f) := by
  induction xs with
  | nil => exact .ok []
  | cons x rest ih =>
    obtain ⟨hx, hrest⟩ := List.forall_mem_cons.mp hf
    rw [List.mapM_cons]
    exact hx.bind fun _ _ => (ih hrest).bind fun _ _ => .ok _

end FailsWith

end Templating.Result
