import Templating.Proofs.Emission.Growth
import Templating.Proofs.Machine.Escaping

/-!
# Pieces of code that stay clean

A piece of code that was emitted between two states is sealed if runs through it stay clean,
whatever the program is linked with that knows the filters named so far, and if the code of the
macros added on the way does so too. Sealed pieces are put together like the code itself: one behind
the other, behind a jump that may skip them, or into a loop.
-/

namespace Templating

/-- The program is linked with the built-in filters of the names in a table. -/
def LinkedProgram.Knows (linked : LinkedProgram) (table : Array String) : Prop :=
  ∀ ⦃i : Nat⦄ ⦃name : String⦄, table[i]? = some name →
    ∃ f, Registry.initial.filter? name = some f ∧ linked.filters[i]? = some f

/-- What is known of a table is known of what it began with. -/
theorem LinkedProgram.Knows.of_begins {linked : LinkedProgram} {table table' : Array String}
    (h : linked.Knows table') (hbegins : table.toList <+: table'.toList) : linked.Knows table := by
  intro i name hname
  obtain ⟨more, hmore⟩ := hbegins
  refine h (i := i) ?_
  rw [← Array.getElem?_toList] at hname ⊢
  rw [← hmore, List.getElem?_append_left (List.getElem?_eq_some_iff.mp hname).1, hname]

/-- A filter of a known table. -/
theorem LinkedProgram.Knows.keeps {linked : LinkedProgram} {table : Array String}
    (h : linked.Knows table) {i : Nat} {name : String} (hname : table[i]? = some name) {f : Filter}
    (hf : linked.filters[i]? = some f) :
    (name ∉ Filter.trusting → f.Keeps false) ∧ (name ≠ "url_decode" → f.Keeps true) := by
  obtain ⟨g, hg, hi⟩ := h hname
  obtain rfl := Option.some.inj (hf.symm.trans hi)
  exact Filter.keeps_builtin _ (Filter.mem_builtin hg)

/-- A setting that code refers to filters of a table in, and calls values in. -/
structure Machine.Setting.Suits (setting : Machine.Setting) (table : Array String) : Prop where
  knows : setting.linked.Knows table
  invoke : setting.invoke.Harmless

/-- What suits a table suits what it began with. -/
theorem Machine.Setting.Suits.of_begins {setting : Machine.Setting} {table table' : Array String}
    (h : setting.Suits table') (hbegins : table.toList <+: table'.toList) : setting.Suits table :=
  ⟨h.knows.of_begins hbegins, h.invoke⟩

/-- Code that refers to filters of a table stays clean as a whole. -/
def Code.StaysClean (code : Code) (table : Array String) : Prop :=
  ∀ setting : Machine.Setting, setting.Suits table → setting.code = code →
    setting.StaysClean 0 code.size

namespace EmissionState

/-- The code of every macro so far stays clean. -/
def Tame (s : EmissionState) : Prop := ∀ decl ∈ s.macros, decl.code.StaysClean s.filters

/-- What emission may do to the tables. -/
structure Grows (s t : EmissionState) : Prop where
  filters : s.filters.toList <+: t.filters.toList
  tame : s.Tame → t.Tame

theorem Grows.refl (s : EmissionState) : s.Grows s := ⟨List.prefix_rfl, id⟩

theorem Grows.trans {s t u : EmissionState} (h : s.Grows t) (h' : t.Grows u) : s.Grows u :=
  ⟨h.filters.trans h'.filters, fun hs => h'.tame (h.tame hs)⟩

/-- A change that the tables of filters and macros do not notice. -/
theorem Grows.of_tables_eq {s t : EmissionState} (hfilters : t.filters = s.filters)
    (hmacros : t.macros = s.macros) : s.Grows t where
  filters := hfilters ▸ List.prefix_rfl
  tame := fun hs decl hdecl setting hsetting =>
    hs decl (hmacros ▸ hdecl) setting (hfilters ▸ hsetting)

end EmissionState

/-- Code that stands at a position, and that emission ended behind, stays clean when it is
entered. -/
def Enters (first : Nat) (t : EmissionState) (code : Fragment) (entry : Nat) : Prop :=
  ∀ ⦃setting : Machine.Setting⦄, setting.Suits t.filters →
    setting.code.Holds first code.instructions → setting.StaysClean entry t.next

/-- The code that was emitted between two states stays clean, and so does that of the macros. -/
structure Sealed (s t : EmissionState) (code : Fragment) : Prop where
  next : t.next = s.next + code.length
  grows : s.Grows t
  enters : Enters s.next t code s.next

namespace Sealed

variable {s t u : EmissionState} {first second code : Fragment} {i : Instruction} {entry f l : Nat}

/-- No code was emitted. -/
theorem nil (s : EmissionState) : Sealed s s [] := ⟨rfl, .refl s, fun _ _ _ => .refl⟩

/-- Code behind other code is entered. -/
theorem enters_behind (h : Sealed s t first) (h' : Enters t.next u second entry) :
    Enters s.next u (first ++ second) entry := by
  intro setting hsetting hcode
  rw [Fragment.instructions_append] at hcode
  refine h' hsetting ?_
  rw [h.next, ← Fragment.length_instructions]
  exact hcode.of_append.2

/-- One piece of code was emitted after the other. -/
theorem append (h : Sealed s t first) (h' : Sealed t u second) : Sealed s u (first ++ second) where
  next := by rw [h'.next, h.next, List.length_append, Nat.add_assoc]
  grows := h.grows.trans h'.grows
  enters := fun _ hsetting hcode => by
    have hlast := h.enters_behind h'.enters hsetting hcode
    rw [Fragment.instructions_append] at hcode
    exact (h.enters (hsetting.of_begins h'.grows.filters) hcode.of_append.1).trans hlast

/-- Only tables were changed before the code was emitted. -/
theorem afterGrows (h : Sealed t u code) (hnext : t.next = s.next) (h' : s.Grows t) :
    Sealed s u code :=
  ⟨hnext ▸ h.next, h'.trans h.grows, hnext ▸ h.enters⟩

/-- Only the line was changed before the code was emitted. -/
theorem afterLine (h : Sealed { s with line := l } t code) : Sealed s t code :=
  h.afterGrows rfl (.of_tables_eq rfl rfl)

/-- Room was left for an instruction in front of the code. -/
theorem next_reserved (h : Sealed { s with next := s.next + 1 } t code) :
    t.next = s.next + (code.length + 1) := by
  rw [h.next, Nat.add_right_comm, Nat.add_assoc]

/-- Leaving room for an instruction changes no table. -/
theorem grows_reserved (h : Sealed { s with next := s.next + 1 } t code) : s.Grows t :=
  EmissionState.Grows.trans (t := { s with next := s.next + 1 }) (.of_tables_eq rfl rfl) h.grows

/-- One instruction was emitted, on any line. -/
theorem single (hi : ∀ linked : LinkedProgram, linked.Knows s.filters → i.Harmless linked)
    (hsuccessors : i.successors s.next = [s.next + 1]) :
    Sealed s { s with next := s.next + 1 } [⟨i, s.file, l⟩] where
  next := rfl
  grows := .of_tables_eq rfl rfl
  enters := fun _ hsetting hcode =>
    .single hsetting.invoke (hi _ hsetting.knows) hcode.of_cons.1 hsuccessors

/-- Room was left for a jump that may not be taken; it leads to where further code is entered. -/
theorem choice (hi : ∀ linked : LinkedProgram, i.Harmless linked)
    (hsuccessors : i.successors s.next = [s.next + 1, entry])
    (h : Sealed { s with next := s.next + 1 } t first) (h' : Sealed t u second)
    (hentry : Enters t.next u second entry) :
    Sealed s u (⟨i, s.file, l⟩ :: first ++ second) where
  next := (h.append h').next_reserved
  grows := (h.append h').grows_reserved
  enters := fun _ hsetting hcode => by
    rw [List.cons_append, Fragment.instructions_cons] at hcode
    obtain ⟨hjump, hcode⟩ := hcode.of_cons
    exact .choice hsetting.invoke hsuccessors (hi _) hjump ((h.append h').enters hsetting hcode)
      (h.enters_behind hentry hsetting hcode)

/-- Room was left for a jump over the code behind it that may not be taken. -/
theorem guarded (hi : ∀ linked : LinkedProgram, i.Harmless linked)
    (hsuccessors : i.successors s.next = [s.next + 1, t.next])
    (h : Sealed { s with next := s.next + 1 } t code) :
    Sealed s t (⟨i, s.file, l⟩ :: code) := by
  simpa using choice (l := l) hi hsuccessors h (.nil t) fun _ _ _ => .refl

/-- Room was left for a jump over the code behind it, which may be entered from elsewhere. -/
theorem skipped (h : Sealed { s with next := s.next + 1 } t code) :
    Sealed s t (⟨.jump t.next, s.file, l⟩ :: code) ∧
      Enters s.next t (⟨.jump t.next, s.file, l⟩ :: code) (s.next + 1) :=
  ⟨⟨h.next_reserved, h.grows_reserved, fun _ hsetting hcode =>
      .jump hsetting.invoke hcode.of_cons.1⟩,
    fun _ hsetting hcode => h.enters hsetting hcode.of_cons.2⟩

/-- Room was left for an iteration, which the code behind it comes back to. -/
theorem loop (h : Sealed { s with next := s.next + 1 } t code) :
    Sealed s { t with next := t.next + 1 }
      (⟨.iterate (t.next + 1), s.file, l⟩ :: code ++ [⟨.jump s.next, t.file, f⟩]) where
  next := by
    rw [List.length_append, List.length_cons, List.length_singleton, ← Nat.add_assoc,
      ← h.next_reserved]
  grows := h.grows_reserved.trans (.of_tables_eq rfl rfl)
  enters := fun _ hsetting hcode => by
    rw [Fragment.instructions_append] at hcode
    obtain ⟨hfront, hlast⟩ := hcode.of_append
    obtain ⟨hiterate, hbody⟩ := hfront.of_cons
    rw [Fragment.length_instructions, List.length_cons, ← h.next_reserved] at hlast
    exact .loop hsetting.invoke hiterate (h.enters hsetting hbody) hlast.of_cons.1

end Sealed

end Templating
