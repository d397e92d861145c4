import Templating.Proofs.Emission.Laws
import Templating.Proofs.Program.Structured

/-!
# Growth of a program under emission

Emission only adds: the next position moves up by the length of the code, and the tables keep what
they hold at its place. Along the way the tables stay sound, which means that filters are listed
once and that the code of every macro so far is structured and refers to what is there.
-/

namespace Templating

/-- A piece of code comes from files, and refers to filters and macros, of tables of the given
sizes. -/
def Fragment.Within (code : Fragment) (filters macros files : Nat) : Prop :=
  ∀ p ∈ code, p.file < files ∧ p.instruction.RefersWithin filters macros

/-- The instructions of a piece of code. -/
def Fragment.instructions (code : Fragment) : List Instruction := code.map Placed.instruction

namespace Fragment

@[simp] theorem instructions_nil : instructions [] = [] := rfl

@[simp] theorem instructions_cons (p : Placed) (code : Fragment) :
    instructions (p :: code) = p.instruction :: instructions code := rfl

@[simp] theorem instructions_append (first second : Fragment) :
    instructions (first ++ second) = instructions first ++ instructions second :=
  List.map_append

@[simp] theorem length_instructions (code : Fragment) : (instructions code).length = code.length :=
  List.length_map _

/-- Larger tables hold what smaller ones do. -/
theorem Within.mono {code : Fragment} {filters macros files filters' macros' files' : Nat}
    (h : code.Within filters macros files) (hfilters : filters ≤ filters')
    (hmacros : macros ≤ macros') (hfiles : files ≤ files') :
    code.Within filters' macros' files' := fun p hp =>
  ⟨Nat.lt_of_lt_of_le (h p hp).1 hfiles, (h p hp).2.mono hfilters hmacros⟩

theorem Within.nil {filters macros files : Nat} : Within [] filters macros files := by
  intro p hp
  exact absurd hp List.not_mem_nil

theorem Within.cons {p : Placed} {code : Fragment} {filters macros files : Nat}
    (hfile : p.file < files) (hrefers : p.instruction.RefersWithin filters macros)
    (h : code.Within filters macros files) : Within (p :: code) filters macros files := by
  intro q hq
  rcases List.mem_cons.mp hq with rfl | hq
  · exact ⟨hfile, hrefers⟩
  · exact h q hq

theorem Within.append {first second : Fragment} {filters macros files : Nat}
    (hfirst : first.Within filters macros files) (hsecond : second.Within filters macros files) :
    Within (first ++ second) filters macros files := by
  intro p hp
  rcases List.mem_append.mp hp with hp | hp
  · exact hfirst p hp
  · exact hsecond p hp

end Fragment

/-- The code of a macro of a table of macros is structured and refers to what is there. -/
structure MacroDecl.Sound (decl : MacroDecl) (filters macros files : Nat) : Prop where
  code : ∃ body : Fragment, decl.code = Code.ofFragment body ∧
    body.Within filters macros files ∧ Structured 0 body.instructions 0 0
  siblings : ∀ sibling ∈ decl.siblings, sibling.2 < macros

/-- Larger tables leave a macro sound. -/
theorem MacroDecl.Sound.mono {decl : MacroDecl} {filters macros files filters' macros' files' : Nat}
    (h : decl.Sound filters macros files) (hfilters : filters ≤ filters')
    (hmacros : macros ≤ macros') (hfiles : files ≤ files') :
    decl.Sound filters' macros' files' := by
  obtain ⟨⟨body, hcode, hwithin, hstructured⟩, hsiblings⟩ := h
  exact ⟨⟨body, hcode, hwithin.mono hfilters hmacros hfiles, hstructured⟩,
    fun sibling hs => Nat.lt_of_lt_of_le (hsiblings sibling hs) hmacros⟩

/-- What stands in a table still does so when the table has grown. -/
theorem getElem?_of_prefix_toList {α : Type} {table table' : Array α}
    (h : table.toList <+: table'.toList) {i : Nat} {x : α} (hx : table[i]? = some x) :
    table'[i]? = some x := by
  obtain ⟨more, hmore⟩ := h
  rw [← Array.getElem?_toList] at hx ⊢
  rw [← hmore, List.getElem?_append_left (List.getElem?_eq_some_iff.mp hx).1, hx]

namespace EmissionState

/-- The current file is listed, and the tables hold each filter once and sound macros. -/
structure Sound (s : EmissionState) : Prop where
  file : s.file < s.files.size
  filters : s.filters.toList.Nodup
  macros : ∀ decl ∈ s.macros, decl.Sound s.filters.size s.macros.size s.files.size

/-- What emission of so many instructions may do to the state. -/
structure Advances (s t : EmissionState) (count : Nat) : Prop where
  next : t.next = s.next + count
  file : t.file = s.file
  filters : s.filters.toList <+: t.filters.toList
  files : s.files.toList <+: t.files.toList
  macros : s.macros.toList <+: t.macros.toList
  sound : s.Sound → t.Sound

namespace Advances

variable {s t u : EmissionState} {m n : Nat}

theorem refl (s : EmissionState) : s.Advances s 0 :=
  ⟨rfl, rfl, List.prefix_rfl, List.prefix_rfl, List.prefix_rfl, id⟩

theorem trans (h : s.Advances t m) (h' : t.Advances u n) : s.Advances u (m + n) where
  next := by rw [h'.next, h.next, Nat.add_assoc]
  file := h'.file.trans h.file
  filters := h.filters.trans h'.filters
  files := h.files.trans h'.files
  macros := h.macros.trans h'.macros
  sound := fun hs => h'.sound (h.sound hs)

/-- The filter table does not shrink. -/
theorem filters_le (h : s.Advances t m) : s.filters.size ≤ t.filters.size := by
  simpa using h.filters.length_le

/-- The macro table does not shrink. -/
theorem macros_le (h : s.Advances t m) : s.macros.size ≤ t.macros.size := by
  simpa using h.macros.length_le

/-- The file table does not shrink. -/
theorem files_le (h : s.Advances t m) : s.files.size ≤ t.files.size := by
  simpa using h.files.length_le

/-- Code within the tables stays within them. -/
theorem within (h : s.Advances t m) {code : Fragment}
    (hcode : code.Within s.filters.size s.macros.size s.files.size) :
    code.Within t.filters.size t.macros.size t.files.size :=
  hcode.mono h.filters_le h.macros_le h.files_le

/-- Every filter keeps its number. -/
theorem getElem?_filters (h : s.Advances t m) {i : Nat} {name : String}
    (hname : s.filters[i]? = some name) : t.filters[i]? = some name :=
  getElem?_of_prefix_toList h.filters hname

/-- A change that the tables do not notice. -/
theorem of_tables_eq (hnext : t.next = s.next + m) (hfile : t.file = s.file)
    (hfilters : t.filters = s.filters) (hfiles : t.files = s.files)
    (hmacros : t.macros = s.macros) : s.Advances t m where
  next := hnext
  file := hfile
  filters := hfilters ▸ List.prefix_rfl
  files := hfiles ▸ List.prefix_rfl
  macros := hmacros ▸ List.prefix_rfl
  sound := fun ⟨hlisted, hnodup, hsound⟩ =>
    ⟨hfile ▸ hfiles ▸ hlisted, hfilters ▸ hnodup, fun decl hdecl => by
      rw [hfilters, hfiles, hmacros]
      exact hsound decl (hmacros ▸ hdecl)⟩

end Advances

end EmissionState

/-- Code that was emitted between two states. -/
structure Laid (s t : EmissionState) (code : Fragment) : Prop where
  advances : s.Advances t code.length
  within : s.Sound → code.Within t.filters.size t.macros.size t.files.size

/-- Code that was emitted between two states and takes and leaves so many values. -/
structure Emitted (s t : EmissionState) (code : Fragment) (a b : Nat) : Prop
    extends Laid s t code where
  structured : Structured s.next code.instructions a b

namespace Laid

variable {s t u : EmissionState} {first second code : Fragment}

/-- No code was emitted. -/
theorem nil (s : EmissionState) : Laid s s [] := ⟨.refl s, fun _ => .nil⟩

/-- One piece of code was emitted after the other. -/
theorem append (h : Laid s t first) (h' : Laid t u second) : Laid s u (first ++ second) where
  advances := by
    rw [List.length_append]
    exact h.advances.trans h'.advances
  within := fun hs => .append (h'.advances.within (h.within hs)) (h'.within (h.advances.sound hs))

/-- One instruction was emitted, on any line. -/
theorem single {i : Instruction} {line : Nat}
    (hrefers : i.RefersWithin s.filters.size s.macros.size) :
    Laid s { s with next := s.next + 1 } [⟨i, s.file, line⟩] where
  advances := .of_tables_eq rfl rfl rfl rfl rfl
  within := fun hs => .cons hs.file hrefers .nil

/-- Room was left for an instruction, which is written in front of the code behind it. -/
theorem cons {i : Instruction} {line : Nat}
    (hrefers : i.RefersWithin s.filters.size s.macros.size)
    (h : Laid { s with next := s.next + 1 } t code) : Laid s t (⟨i, s.file, line⟩ :: code) :=
  (single hrefers).append h

/-- Only tables were changed before the code was emitted. -/
theorem afterAdvance (h : Laid t u code) (h' : s.Advances t 0) : Laid s u code where
  advances := by simpa using h'.trans h.advances
  within := fun hs => h.within (h'.sound hs)

/-- Only the line was changed before the code was emitted. -/
theorem afterLine {line : Nat} (h : Laid { s with line := line } t code) : Laid s t code :=
  h.afterAdvance (.of_tables_eq rfl rfl rfl rfl rfl)

end Laid

namespace Emitted

variable {s t u : EmissionState} {a b c : Nat} {first second code : Fragment}

/-- The next position moved up by the length of the code. -/
theorem next_eq (h : Emitted s t code a b) : t.next = s.next + code.length := h.advances.next

/-- The next position never moves down. -/
theorem next_le (h : Emitted s t code a b) : s.next ≤ t.next := by
  rw [h.next_eq]
  exact Nat.le_add_right _ _

/-- No code was emitted. -/
theorem nil (s : EmissionState) (a : Nat) : Emitted s s [] a a := ⟨.nil s, .nil⟩

/-- One piece of code was emitted after the other. -/
theorem append (h : Emitted s t first a b) (h' : Emitted t u second b c) :
    Emitted s u (first ++ second) a c where
  toLaid := h.toLaid.append h'.toLaid
  structured := by
    rw [Fragment.instructions_append]
    refine .append h.structured ?_
    rw [Fragment.length_instructions, ← h.next_eq]
    exact h'.structured

/-- An instruction that goes on to the next position was emitted. -/
theorem single {i : Instruction} (hgives : i.gives? = some b)
    (hrefers : i.RefersWithin s.filters.size s.macros.size) :
    Emitted s { s with next := s.next + 1 } [⟨i, s.file, s.line⟩] i.takes b :=
  ⟨.single hrefers, .single hgives⟩

/-- Values further down are left alone. -/
theorem above (h : Emitted s t code a b) (below : Nat) :
    Emitted s t code (a + below) (b + below) :=
  ⟨h.toLaid, h.structured.above below⟩

/-- Only tables were changed before the code was emitted. -/
theorem afterAdvance (h : Emitted t u code a b) (h' : s.Advances t 0) : Emitted s u code a b := by
  refine ⟨h.toLaid.afterAdvance h', ?_⟩
  rw [show s.next = t.next from h'.next.symm]
  exact h.structured

/-- Only the line was changed before the code was emitted. -/
theorem afterLine {line : Nat} (h : Emitted { s with line := line } t code a b) :
    Emitted s t code a b :=
  ⟨h.toLaid.afterLine, h.structured⟩

end Emitted

namespace Emission

/-- Numbering a name keeps the table, or adds the name at its end. -/
theorem intern_cases (table : Array String) (name : String) :
    ((intern table name).2 = table ∧ table[(intern table name).1]? = some name) ∨
      ((intern table name).2 = table.push name ∧ (intern table name).1 = table.size ∧
        name ∉ table) := by
  unfold intern
  cases hfind : table.findIdx? (· == name) with
  | none =>
    refine .inr ⟨rfl, rfl, fun hmem => ?_⟩
    have hne := (Array.findIdx?_eq_none_iff.mp hfind) name hmem
    simp at hne
  | some i =>
    obtain ⟨hi, heq, _⟩ := Array.findIdx?_eq_some_iff_getElem.mp hfind
    refine .inl ⟨rfl, ?_⟩
    rw [Array.getElem?_eq_getElem hi, beq_iff_eq.mp heq]

/-- The number of a name leads to the name. -/
theorem getElem?_intern (table : Array String) (name : String) :
    (intern table name).2[(intern table name).1]? = some name := by
  rcases intern_cases table name with ⟨htable, hname⟩ | ⟨htable, hindex, _⟩
  · rw [htable, hname]
  · rw [htable, hindex, Array.getElem?_push_size]

/-- Numbering a name keeps what the table holds. -/
theorem prefix_intern (table : Array String) (name : String) :
    table.toList <+: (intern table name).2.toList := by
  rcases intern_cases table name with ⟨htable, _⟩ | ⟨htable, _, _⟩
  · exact ⟨[], by rw [htable, List.append_nil]⟩
  · rw [htable, Array.toList_push]
    exact List.prefix_append _ _

/-- Numbering a name repeats none. -/
theorem nodup_intern {table : Array String} (h : table.toList.Nodup) (name : String) :
    (intern table name).2.toList.Nodup := by
  rcases intern_cases table name with ⟨htable, _⟩ | ⟨htable, _, hnew⟩ <;> rw [htable]
  · exact h
  · rw [Array.toList_push]
    refine List.nodup_append.mpr ⟨h, by simp, ?_⟩
    rintro other hother _ hname rfl
    rw [List.mem_singleton] at hname
    exact hnew (Array.mem_toList_iff.mp (hname ▸ hother))

end Emission

end Templating
