import Mathlib.Data.List.Perm.Subperm
import Templating.Proofs.Emission.Agreement
import Templating.Proofs.Template.Everywhere

/-!
# Chains of templates end

Following the templates that are extended comes to an end: a template that is on the way already is
refused, and there are only so many templates. The bound that the steps are counted against is never
reached.
-/

namespace Templating

/-- One computation after the other fails as one of them does. -/
theorem Result.IsFault.of_bind {α β : Type} {x : Result α} {f : α → Result β} {fault : Fault}
    (h : IsFault (x >>= f) fault) : IsFault x fault ∨ ∃ a, IsFault (f a) fault := by
  cases x with
  | error e =>
    obtain ⟨e', he, hfault⟩ := h
    obtain rfl := Except.error.inj he
    exact .inl ⟨_, rfl, hfault⟩
  | ok a => exact .inr ⟨a, h⟩

/-- Computations over a list fail as one of them does. -/
theorem Result.IsFault.of_mapM {α β : Type} {f : α → Result β} {xs : List α} {fault : Fault}
    (h : IsFault (xs.mapM f) fault) : ∃ x ∈ xs, IsFault (f x) fault := by
  induction xs with
  | nil => exact absurd h fun ⟨_, he, _⟩ => by simp [pure, Except.pure] at he
  | cons x rest ih =>
    rw [List.mapM_cons] at h
    rcases h.of_bind with h | ⟨y, h⟩
    · exact ⟨x, List.mem_cons_self, h⟩
    · rcases h.of_bind with h | ⟨ys, _, he, _⟩
      · obtain ⟨x', hx', h⟩ := ih h
        exact ⟨x', List.mem_cons_of_mem x hx', h⟩
      · simp [pure, Except.pure] at he

/-- An error in a template has the fault that it was made of. -/
theorem Template.not_isFault_failAt {α : Type} {t : Template} {line : Nat} {fault other : Fault}
    (h : fault ≠ other) : ¬ Result.IsFault (t.failAt line fault : Result α) other := by
  rintro ⟨e, he, rfl⟩
  obtain rfl := Except.error.inj he
  exact h (Error.fault_locate (.ofFault fault) _ _).symm

/-- Looking for the template that is extended never gives up. -/
theorem Template.not_isFault_extendsTag? {t : Template} {found : Option (String × Nat)}
    {content : Bool} {ns : List Node} :
    ¬ Result.IsFault (t.extendsTag? found content ns) .nestedTooDeep := by
  induction ns generalizing found content with
  | nil => exact fun ⟨_, he, _⟩ => by simp [extendsTag?] at he
  | cons n rest ih =>
    cases n with
    | literal text span =>
      rw [extendsTag?]
      exact ih
    | output subject filters span =>
      rw [extendsTag?]
      exact ih
    | tag name args body branches span =>
      rw [extendsTag?]
      split
      · split
        · exact not_isFault_failAt (by simp)
        · split
          · exact ih
          · exact not_isFault_failAt (by simp)
      · split
        · exact not_isFault_failAt (by simp)
        · exact ih

namespace TemplateSet

variable {s : TemplateSet}

/-- Following the extended templates never gives up as long as those on the way are different. -/
theorem not_isFault_chainFrom {bound : Nat} {current : Template} {earlier : List Template}
    (hnodup : ((current :: earlier).map Template.name).Nodup)
    (hmem : current :: earlier ⊆ s.templates) (hbound : s.size < bound + earlier.length) :
    ¬ Result.IsFault (s.chainFrom bound current earlier) .nestedTooDeep := by
  induction bound generalizing current earlier with
  | zero =>
    have hlength := (List.subperm_of_subset hnodup.of_map hmem).length_le
    simp only [templates, size, List.length_cons] at hlength hbound
    omega
  | succ bound ih =>
    rw [chainFrom]
    cases hbase : current.base? with
    | error e =>
      rintro ⟨e', he, hfault⟩
      obtain rfl := Except.error.inj he
      exact Template.not_isFault_extendsTag? ⟨e, hbase, hfault⟩
    | ok base? =>
      rcases base? with _ | ⟨base, line⟩
      · rintro ⟨_, he, _⟩
        simp at he
      · simp only
        split
        · exact Template.not_isFault_failAt (by simp)
        · next hfresh =>
          cases hnext : s.get? base with
          | none => exact Template.not_isFault_failAt (by simp)
          | some next =>
            obtain ⟨hin, hname⟩ := mem_of_get? hnext
            refine ih (List.nodup_cons.mpr ⟨fun hagain => hfresh ?_, hnodup⟩)
              (List.cons_subset.mpr ⟨hin, hmem⟩) (by rw [List.length_cons]; omega)
            obtain ⟨u, hu, huname⟩ := List.mem_map.mp hagain
            exact List.any_eq_true.mpr
              ⟨u, List.mem_reverse.mpr hu, beq_iff_eq.mpr (huname.trans hname)⟩

/-- Inheritance is applied or refused, whatever the templates extend. -/
theorem not_isFault_resolve {t : Template} (ht : t ∈ s.templates) :
    ¬ Result.IsFault (s.resolve t) .nestedTooDeep := by
  intro h
  rcases h.of_bind with hchain | ⟨chain, h⟩
  · refine not_isFault_chainFrom ?_ (List.cons_subset.mpr ⟨ht, List.nil_subset _⟩) ?_ hchain
    · exact List.nodup_singleton t.name
    · exact Nat.lt_succ_self s.size
  · rcases h.of_bind with hlevels | ⟨levels, _, he, _⟩
    · obtain ⟨u, -, hblocks⟩ := hlevels.of_mapM
      rcases hblocks.of_bind with hblocks | ⟨defs, _, he, _⟩
      · simp only [Template.blocks] at hblocks
        split at hblocks
        · exact Template.not_isFault_failAt (by simp) hblocks
        · obtain ⟨_, he, _⟩ := hblocks
          simp at he
      · simp [pure, Except.pure] at he
    · simp [pure, Except.pure] at he

end TemplateSet

end Templating
