import Templating.Proofs.Emission.Embedding
import Templating.Proofs.Machine.Resemblance
import Templating.Proofs.Program.LineTable

/-!
# Programs from code at other places

Code that was emitted at another place has the locations it has at the first one, since its files
have the same names. So programs with the same macros, emitted from the same nodes in different
surroundings, resemble each other. A template is related in this way to itself, which tells of every
instruction of its program that it has a location, and of every constant where it comes from.
-/

namespace Templating

variable {C : Value → Prop} {count : Nat} {w : FileTables} {p q : Program} {f g : Fragment}

/-- Lists that are related item by item are so at every position. -/
theorem forall₂_getElem? {α β : Type} {R : α → β → Prop} {l : List α} {l' : List β}
    (h : List.Forall₂ R l l') (i : Nat) : Option.Rel R l[i]? l'[i]? := by
  induction h generalizing i with
  | nil => exact .none
  | cons hx _ ih =>
    cases i with
    | zero => exact .some hx
    | succ i => simpa using ih i

/-- An instruction at another place has the location that it has at the first one. -/
theorem Placed.Moves.location {a b : Placed} (h : a.Moves C count ⟨p.files, q.files⟩ b)
    {c d : Code} {i j : Nat} (hc : c.place? i = some (a.file, a.line))
    (hd : d.place? j = some (b.file, b.line)) :
    ∃ place, p.location? c i = some place ∧ q.location? d j = some place := by
  obtain ⟨name, hname, hname'⟩ := h.file
  refine ⟨⟨name, a.line⟩, ?_, ?_⟩
  · simp [Program.location?, hc, hname]
  · simp [Program.location?, hd, hname', h.line]

/-- An instruction of a piece of code comes from one that stands in it, and there is the same one at
the other place. -/
theorem Fragment.Moves.exists_placed (h : f.Moves C count w g) {pc : Nat} {i : Instruction}
    (hi : (Code.ofFragment f).instructions[pc]? = some i) :
    ∃ a b, f[pc]? = some a ∧ g[pc]? = some b ∧ a.instruction = i ∧ a.Moves C count w b := by
  rw [Code.getElem?_ofFragment] at hi
  obtain ⟨a, ha, rfl⟩ := Option.map_eq_some_iff.mp hi
  have hrel : Option.Rel (Placed.Moves C count w) f[pc]? g[pc]? := forall₂_getElem? h pc
  generalize hb : g[pc]? = b? at hrel
  rw [ha] at hrel
  cases hrel with
  | @some _ b hmoves => exact ⟨a, b, ha, rfl, rfl, hmoves⟩

/-- Code that stays where it is resembles itself in the other tables. -/
theorem Fragment.Moves.resembles (h : f.Moves C 0 ⟨p.files, q.files⟩ g) :
    (Code.ofFragment f).Resembles p q (Code.ofFragment g) where
  instructions := by
    have hsame : g.map Placed.instruction = f.map Placed.instruction := by
      refine List.Forall₂.rec rfl (fun ha _ ih => ?_) h
      rw [List.map_cons, List.map_cons, ih, ha.instruction, Instruction.shifted_zero]
    refine Array.toList_inj.mp ?_
    rw [(Code.ofFragment_describes f).1, (Code.ofFragment_describes g).1, hsame]
  location hi := by
    obtain ⟨a, b, ha, hb, -, hmoves⟩ := h.exists_placed hi
    exact hmoves.location (Code.place?_ofFragment ha) (Code.place?_ofFragment hb)

/-- A macro resembles itself in the other tables. -/
theorem MacroDecl.Moves.resembles {d e : MacroDecl} (h : d.Moves C ⟨p.files, q.files⟩ e) :
    d.Resembles p q e := by
  obtain ⟨f, g, hf, hg, hcode⟩ := h.code
  refine ⟨h.name, h.params, h.siblings, ?_⟩
  rw [hf, hg]
  exact hcode.resembles

/-- Programs with the same macros at other places resemble each other. -/
theorem LinkedProgram.resembles_of_moves {l l' : LinkedProgram} (hfilters : l'.filters = l.filters)
    (hmacros : List.Forall₂ (MacroDecl.Moves C ⟨l.program.files, l'.program.files⟩)
      l.program.macros.toList l'.program.macros.toList) : l.Resembles l' where
  filters := hfilters
  macros id := by
    have hrel := forall₂_getElem? (hmacros.imp fun _ _ h => h.resembles) id
    rwa [Array.getElem?_toList, Array.getElem?_toList] at hrel

namespace TemplateSet

variable {A : String → Prop} {s s' : TemplateSet} {registry : Registry} {resolved : Resolved}

/-- What a portable set is emitted in is portable, and so is what inheritance makes of its root. -/
theorem portable_of_resolve
    (hportable : ∀ t ∈ s.templates, Emission.Portable C A registry t.nodes)
    (hresolved : s.resolve s.root = .ok resolved) (including : List String) :
    Emission.Surroundings.Portable C A { registry, set := s, resolved, including } ∧
      ∀ row ∈ resolved.body, Emission.Portable C A registry [row.2] :=
  ⟨⟨hportable, throughout_layers hportable hresolved List.mem_cons_self⟩,
    throughout_body hportable hresolved List.mem_cons_self⟩

end TemplateSet

end Templating
