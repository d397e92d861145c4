import Mathlib.Data.List.Induction
import Templating.Program.Emission

/-!
# Line tables describe the code they were built with

A line table keeps a run only where the place changes and is searched by halving. What it has to
say is the sequence of all places, one for each instruction: pushing a place extends the sequence
that the table describes, and a search in a table finds what the sequence holds.
-/

namespace Templating

namespace LineTable

/-- Every instruction that falls into a run has the place of the run; runs begin at the first
instruction, one behind the other, and at no instruction that is still to come. -/
structure Describes (runs : Array LineRun) (places : List (Nat × Nat)) : Prop where
  sorted : ∀ {i j : Nat} {r q : LineRun}, i < j → runs[i]? = some r → runs[j]? = some q →
    r.first < q.first
  front : ∀ {r : LineRun}, runs[0]? = some r → r.first = 0
  nonempty : places ≠ [] → 0 < runs.size
  inside : ∀ {i : Nat} {r : LineRun}, runs[i]? = some r → r.first < places.length
  covers : ∀ {i k : Nat} {r : LineRun} {place : Nat × Nat}, places[i]? = some place →
    runs[k]? = some r → r.first ≤ i → (∀ q, runs[k + 1]? = some q → i < q.first) →
      place = (r.file, r.line)

/-- An empty table describes no code. -/
theorem describes_empty : Describes #[] [] where
  sorted := fun _ h => by simp at h
  front := fun h => by simp at h
  nonempty := fun h => absurd rfl h
  inside := fun h => by simp at h
  covers := fun h => by simp at h

/-- What stands in a table to which a run was added: the run, or what stood there before. -/
theorem getElem?_push_cases {runs : Array LineRun} {run r : LineRun} {i : Nat}
    (h : (runs.push run)[i]? = some r) :
    (i = runs.size ∧ run = r) ∨ (i < runs.size ∧ runs[i]? = some r) := by
  rw [Array.getElem?_push] at h
  split at h
  · exact .inl ⟨‹_›, Option.some.inj h⟩
  · exact .inr ⟨(Array.getElem?_eq_some_iff.mp h).1, h⟩

/-- What stands in a sequence to which a place was added: the place, or what stood there before. -/
theorem getElem?_concat_cases {places : List (Nat × Nat)} {place p : Nat × Nat} {i : Nat}
    (h : (places ++ [place])[i]? = some p) :
    (i = places.length ∧ place = p) ∨ (i < places.length ∧ places[i]? = some p) := by
  rcases Nat.lt_or_ge i places.length with hi | hi
  · exact .inr ⟨hi, by rwa [List.getElem?_append_left hi] at h⟩
  · rw [List.getElem?_append_right hi, List.getElem?_singleton] at h
    split at h
    · exact .inl ⟨by omega, Option.some.inj h⟩
    · exact absurd h (by simp)

namespace Describes

variable {runs : Array LineRun} {places : List (Nat × Nat)}

/-- An instruction from the place of the last run falls into the last run. -/
theorem push_same (h : Describes runs places) {last : LineRun} (hlast : runs.back? = some last) :
    Describes runs (places ++ [(last.file, last.line)]) where
  sorted := h.sorted
  front := h.front
  nonempty := fun _ => by
    rcases Nat.eq_zero_or_pos runs.size with hzero | hpos
    · simp [Array.size_eq_zero_iff.mp hzero] at hlast
    · exact hpos
  inside := fun hr => by
    have := h.inside hr
    rw [List.length_append]
    omega
  covers := by
    intro i k r place hplace hr hle hnext
    rcases getElem?_concat_cases hplace with ⟨rfl, rfl⟩ | ⟨hi, hplace⟩
    · have hk : k < runs.size := (Array.getElem?_eq_some_iff.mp hr).1
      rcases Nat.lt_or_ge (k + 1) runs.size with hk' | hk'
      · have hq := Array.getElem?_eq_getElem hk'
        have hlt := hnext _ hq
        have hinside := h.inside hq
        omega
      · rw [Array.back?_eq_getElem?, show runs.size - 1 = k by omega, hr] at hlast
        rw [Option.some.inj hlast]
    · exact h.covers hplace hr hle hnext

/-- An instruction from another place begins a new run. -/
theorem push_new (h : Describes runs places) (file line : Nat) :
    Describes (runs.push ⟨places.length, file, line⟩) (places ++ [(file, line)]) where
  sorted := by
    intro i j r q hij hr hq
    rcases getElem?_push_cases hq with ⟨rfl, rfl⟩ | ⟨hj, hq⟩ <;>
      rcases getElem?_push_cases hr with ⟨rfl, rfl⟩ | ⟨hi, hr⟩
    · omega
    · exact h.inside hr
    · omega
    · exact h.sorted hij hr hq
  front := by
    intro r hr
    rcases getElem?_push_cases hr with ⟨hzero, rfl⟩ | ⟨_, hr⟩
    · have hnil : places = [] := by
        rcases List.eq_nil_or_concat places with hnil | ⟨front, place, hplaces⟩
        · exact hnil
        · have := h.nonempty (by simp [hplaces])
          omega
      simp [hnil]
    · exact h.front hr
  nonempty := fun _ => by simp
  inside := by
    intro i r hr
    rw [List.length_append, List.length_singleton]
    rcases getElem?_push_cases hr with ⟨_, rfl⟩ | ⟨_, hr⟩
    · exact Nat.lt_succ_self _
    · exact Nat.lt_succ_of_lt (h.inside hr)
  covers := by
    intro i k r place hplace hr hle hnext
    rcases getElem?_concat_cases hplace with ⟨rfl, rfl⟩ | ⟨hi, hplace⟩ <;>
      rcases getElem?_push_cases hr with ⟨rfl, rfl⟩ | ⟨hk, hr⟩
    · rfl
    · have hnew : ∃ q, (runs.push ⟨places.length, file, line⟩)[k + 1]? = some q ∧
          q.first ≤ places.length := by
        rcases Nat.lt_or_ge (k + 1) runs.size with hk' | hk'
        · refine ⟨runs[k + 1], Array.getElem?_push_lt hk', ?_⟩
          exact Nat.le_of_lt (h.inside (Array.getElem?_eq_getElem hk'))
        · rw [show k + 1 = runs.size by omega]
          exact ⟨_, Array.getElem?_push_size, Nat.le_refl _⟩
      obtain ⟨q, hq, hfirst⟩ := hnew
      have := hnext q hq
      omega
    · exact absurd hle (Nat.not_le_of_lt hi)
    · refine h.covers hplace hr hle fun q hq => hnext q ?_
      rw [Array.getElem?_push, if_neg (Nat.ne_of_lt (Array.getElem?_eq_some_iff.mp hq).1)]
      exact hq

/-- Pushing the place of the next instruction extends what the table describes. -/
theorem push (h : Describes runs places) (file line : Nat) :
    Describes (LineTable.push runs places.length file line) (places ++ [(file, line)]) := by
  unfold LineTable.push
  split
  · split
    · rename_i last hlast heq
      obtain ⟨rfl, rfl⟩ := heq
      exact h.push_same hlast
    · exact h.push_new file line
  · exact h.push_new file line

end Describes

/-- A search by halving ends at a run of the table, sorted or not, that does not begin too late
unless it is the first one. -/
theorem halve_lands (runs : Array LineRun) (index fuel base size : Nat) (hpos : 0 < size)
    (hsize : base + size ≤ runs.size)
    (hbase : base = 0 ∨ ∃ r, runs[base]? = some r ∧ r.first ≤ index) :
    let found := halve runs index fuel base size
    found < runs.size ∧ (found = 0 ∨ ∃ r, runs[found]? = some r ∧ r.first ≤ index) := by
  induction fuel generalizing base size with
  | zero => exact ⟨by simp only [halve]; omega, hbase⟩
  | succ fuel ih =>
    rw [halve]
    split
    · exact ⟨by omega, hbase⟩
    · have hmiddle : base + size / 2 < runs.size := by omega
      simp only [Array.getElem?_eq_getElem hmiddle]
      split
      · exact ih base (size - size / 2) (by omega) (by omega) hbase
      · rename_i hsoon
        exact ih (base + size / 2) (size - size / 2) (by omega) (by omega)
          (.inr ⟨_, Array.getElem?_eq_getElem hmiddle, Nat.le_of_not_lt hsoon⟩)

/-- In a sorted table, every run behind the one where a search by halving ends begins too late. -/
theorem halve_late {runs : Array LineRun} (index : Nat)
    (hsorted : ∀ {i j : Nat} {r q : LineRun}, i < j → runs[i]? = some r → runs[j]? = some q →
      r.first < q.first) (fuel base size : Nat) (hpos : 0 < size) (hfuel : size ≤ fuel + 1)
    (hsize : base + size ≤ runs.size)
    (hlate : ∀ k r, base + size ≤ k → runs[k]? = some r → index < r.first) (k : Nat) (r : LineRun)
    (hk : halve runs index fuel base size < k) (hr : runs[k]? = some r) : index < r.first := by
  induction fuel generalizing base size with
  | zero => exact hlate k r (by simp only [halve] at hk; omega) hr
  | succ fuel ih =>
    rw [halve] at hk
    split at hk
    · exact hlate k r (by omega) hr
    · have hmiddle : base + size / 2 < runs.size := by omega
      simp only [Array.getElem?_eq_getElem hmiddle] at hk
      split at hk
      · rename_i htoolate
        refine ih base (size - size / 2) (by omega) (by omega) (by omega) ?_ hk
        intro k r hk hr
        rcases Nat.eq_or_lt_of_le (show base + size / 2 ≤ k by omega) with rfl | hlt
        · rw [Array.getElem?_eq_getElem hmiddle] at hr
          rwa [← Option.some.inj hr]
        · exact Nat.lt_trans htoolate (hsorted hlt (Array.getElem?_eq_getElem hmiddle) hr)
      · exact ih (base + size / 2) (size - size / 2) (by omega) (by omega) (by omega)
          (fun k r hk => hlate k r (by omega)) hk

/-- A search in a table finds the place of every instruction that the table describes. -/
theorem find?_eq_some {runs : Array LineRun} {places : List (Nat × Nat)} {i : Nat}
    {place : Nat × Nat} (h : Describes runs places) (hplace : places[i]? = some place) :
    find? runs i = some place := by
  have hnonempty : 0 < runs.size := h.nonempty fun hnil => by simp [hnil] at hplace
  obtain ⟨hsize, hearly⟩ :=
    halve_lands runs i runs.size 0 runs.size hnonempty (by omega) (.inl rfl)
  have hlate := halve_late i h.sorted runs.size 0 runs.size hnonempty (Nat.le_succ _) (by omega)
    fun k r hk hr => absurd (Array.getElem?_eq_some_iff.mp hr).1 (by omega)
  have hrun := Array.getElem?_eq_getElem hsize
  have hfirst : runs[halve runs i runs.size 0 runs.size].first ≤ i := by
    rcases hearly with hzero | ⟨r, hr, hle⟩
    · rw [h.front (by rw [← hrun, hzero])]
      exact Nat.zero_le i
    · rw [hrun] at hr
      rwa [Option.some.inj hr]
  have hcovers := h.covers hplace hrun hfirst fun q hq => hlate _ q (Nat.lt_succ_self _) hq
  simp only [find?, hrun, if_pos hfirst, hcovers]

/-- Every run of a table has the place of some instruction that the table describes. -/
theorem Describes.mem_of_mem {runs : Array LineRun} {places : List (Nat × Nat)} {r : LineRun}
    (h : Describes runs places) (hr : r ∈ runs) : (r.file, r.line) ∈ places := by
  obtain ⟨k, hk, rfl⟩ := Array.mem_iff_getElem.mp hr
  have hrun := Array.getElem?_eq_getElem hk
  have hplace := List.getElem?_eq_getElem (h.inside hrun)
  rw [← h.covers hplace hrun (Nat.le_refl _) fun q hq => h.sorted (Nat.lt_succ_self k) hrun hq]
  exact List.getElem_mem _

end LineTable

namespace Code

/-- Code put together from a piece holds the instructions of the piece, and its line table
describes their places. -/
theorem ofFragment_describes (f : Fragment) :
    (ofFragment f).instructions.toList = f.map Placed.instruction ∧
      LineTable.Describes (ofFragment f).lines (f.map fun p => (p.file, p.line)) := by
  induction f using List.reverseRecOn with
  | nil => exact ⟨rfl, LineTable.describes_empty⟩
  | append_singleton f p ih =>
    obtain ⟨hinstructions, hlines⟩ := ih
    have hofFragment : ofFragment (f ++ [p]) = (ofFragment f).push p.instruction p.file p.line := by
      simp [ofFragment, List.foldl_append]
    rw [hofFragment]
    constructor
    · simp [push, hinstructions]
    · have hsize : (ofFragment f).instructions.size = (f.map fun p => (p.file, p.line)).length := by
        rw [← Array.length_toList, hinstructions, List.length_map, List.length_map]
      rw [List.map_append, push, hsize]
      exact hlines.push p.file p.line

/-- The instructions of code put together from a piece. -/
theorem getElem?_ofFragment (f : Fragment) (i : Nat) :
    (ofFragment f).instructions[i]? = f[i]?.map Placed.instruction := by
  rw [← Array.getElem?_toList, (ofFragment_describes f).1, List.getElem?_map]

/-- The size of code put together from a piece. -/
theorem size_ofFragment (f : Fragment) : (ofFragment f).size = f.length := by
  rw [size, ← Array.length_toList, (ofFragment_describes f).1, List.length_map]

/-- The place of every instruction of code put together from a piece. -/
theorem place?_ofFragment {f : Fragment} {i : Nat} {p : Placed} (h : f[i]? = some p) :
    (ofFragment f).place? i = some (p.file, p.line) := by
  refine LineTable.find?_eq_some (ofFragment_describes f).2 ?_
  rw [List.getElem?_map, h, Option.map_some]

/-- The code has a piece of code at a position, with the places of the piece. -/
def Carries (c : Code) (first : Nat) (f : Fragment) : Prop :=
  ∀ {i : Nat} {p : Placed}, f[i]? = some p →
    c.instructions[first + i]? = some p.instruction ∧ c.place? (first + i) = some (p.file, p.line)

/-- Code put together from pieces has each piece behind the pieces before it. -/
theorem ofFragment_carries (before f after : Fragment) :
    (ofFragment (before ++ f ++ after)).Carries before.length f := by
  intro i p hp
  have hi : i < f.length := (List.getElem?_eq_some_iff.mp hp).1
  have hwhole : (before ++ f ++ after)[before.length + i]? = some p := by
    rw [List.getElem?_append_left (by rw [List.length_append]; omega),
      List.getElem?_append_right (Nat.le_add_right _ _), Nat.add_sub_cancel_left, hp]
  refine ⟨?_, place?_ofFragment hwhole⟩
  rw [getElem?_ofFragment, hwhole, Option.map_some]

/-- Code put together from a piece has the piece at its beginning. -/
theorem carries_ofFragment (f : Fragment) : (ofFragment f).Carries 0 f := by
  have h : (ofFragment ([] ++ f ++ [])).Carries 0 f := ofFragment_carries [] f []
  rwa [List.nil_append, List.append_nil] at h

namespace Carries

variable {c : Code} {first : Nat} {f g : Fragment} {p : Placed}

/-- A piece made of two is there if both are, one behind the other. -/
theorem of_append (h : c.Carries first (f ++ g)) :
    c.Carries first f ∧ c.Carries (first + f.length) g := by
  constructor
  · intro i p hp
    refine h ?_
    rwa [List.getElem?_append_left (List.getElem?_eq_some_iff.mp hp).1]
  · intro i p hp
    rw [Nat.add_assoc]
    refine h ?_
    rwa [List.getElem?_append_right (Nat.le_add_right _ _), Nat.add_sub_cancel_left]

/-- The front of a piece. -/
theorem head (h : c.Carries first (p :: f)) :
    c.instructions[first]? = some p.instruction ∧ c.place? first = some (p.file, p.line) :=
  h (i := 0) rfl

/-- What is behind the front of a piece. -/
theorem tail (h : c.Carries first (p :: f)) : c.Carries (first + 1) f :=
  (of_append (f := [p]) h).2

end Carries

end Code

end Templating
