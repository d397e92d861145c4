import Templating.Proofs.Emission.Detachment
import Templating.Proofs.Emission.Embedding
import Templating.Proofs.Emission.Growth

/-!
# Imported macros and the templates that import them

An import emits the macros of another template, and then the map of them. Which macros these are
depends on the set of templates that the macros come from, and on the tables so far; it depends
neither on where in a template the import stands nor on the files of that template. It would depend
on the blocks of that template, unless the macros are detached from them.
-/

namespace Templating

variable {C : Value → Prop} {A : String → Prop}

/-- States with the same filters and the same macros, wherever in their programs they are and
whatever files these have. -/
structure EmissionState.Shares (C : Value → Prop) (s t : EmissionState) : Prop where
  filters : t.filters = s.filters
  macros : List.Forall₂ (MacroDecl.Moves C (s.tables t)) s.macros.toList t.macros.toList

namespace Emission

variable {E E' : Elsewhere} {env env' : Surroundings} {s s' t : EmissionState} {code : Fragment}

/-- Each macro is emitted from its own first position and on its own line, so it does not matter
where the emission of macros starts. -/
theorem macrosOf_anywhere {ns : List Node} {imported : List (String × Nat)} (next line : Nat)
    (h : macrosOf E env ns s = .ok (imported, t)) :
    ∃ line', macrosOf E env ns { s with next, line } =
      .ok (imported, { t with next, line := line' }) := by
  induction ns generalizing s imported line with
  | nil =>
    obtain ⟨rfl, rfl⟩ := pure_eq_ok.mp h
    exact ⟨line, rfl⟩
  | cons n rest ih =>
    cases n with
    | literal text span => exact ih line h
    | output subject filters span => exact ih line h
    | tag name args body branches span =>
      rw [macrosOf] at h ⊢
      split at h
      · next hname =>
        rw [if_pos hname]
        simp only [bind_eq_ok, setLine_eq_ok] at h ⊢
        obtain ⟨⟨⟩, _, rfl, h⟩ := h
        cases hsignature : macroSignature? args with
        | none =>
          rw [hsignature] at h
          obtain ⟨line', hrest⟩ := ih span.start.line h
          exact ⟨line', (), _, rfl, hrest⟩
        | some signature =>
          simp only [hsignature, bind_eq_ok, placed_eq_ok, macroCode_eq_ok, pure_eq_ok] at h ⊢
          obtain ⟨id, _, ⟨code, u, hbody, rfl, rfl⟩, more, _, hmore, rfl, rfl⟩ := h
          obtain ⟨line', hrest⟩ := ih u.line hmore
          exact ⟨line', (), _, rfl, u.macros.size, _, ⟨code, u, hbody, rfl, rfl⟩, more, _, hrest,
            rfl, rfl⟩
      · next hname =>
        rw [if_neg hname]
        exact ih line h

/-- What the map of imported macros is built from. -/
def pairInstructions : List (String × Nat) → List Instruction
  | [] => []
  | (name, id) :: rest =>
    .loadConst (.ofString name) :: .buildMacro id :: pairInstructions rest

/-- The code of imported macros can be emitted everywhere. -/
theorem exists_macroPairs (imported : List (String × Nat)) (s : EmissionState) :
    ∃ pairs next, macroPairs imported s = .ok (pairs, { s with next }) ∧
      Fragment.instructions pairs = pairInstructions imported := by
  induction imported generalizing s with
  | nil => exact ⟨[], s.next, rfl, rfl⟩
  | cons pair rest ih =>
    obtain ⟨more, next, hmore, hinstructions⟩ := ih { s with next := s.next + 1 + 1 }
    let key : Placed := ⟨.loadConst (.ofString pair.1), s.file, s.line⟩
    let value : Placed := ⟨.buildMacro pair.2, s.file, s.line⟩
    refine ⟨key :: value :: more, next, ?_, ?_⟩
    · simp only [macroPairs, bind_eq_ok, op_eq_ok, pure_eq_ok]
      exact ⟨[key], _, ⟨rfl, rfl⟩, [value], _, ⟨rfl, rfl⟩, more, _, hmore, rfl, rfl⟩
    · simp [key, value, pairInstructions, hinstructions]

/-- An import whose macros can be emitted succeeds: it lets them see each other, and leaves the map
of them. -/
theorem importTemplate_of_macros {name : String} {template : Template}
    {imported : List (String × Nat)} {v w : EmissionState}
    (hget : env.set.get? name = some template)
    (hmacros : macrosOf E env template.nodes (entered s template.name) = .ok (imported, v))
    (hshare : shareMacros imported v = .ok ((), w)) :
    ∃ code next, importTemplate E env name s = .ok (code, { w with next, file := s.file }) ∧
      Fragment.instructions code =
        pairInstructions imported ++ [.buildMap imported.length] := by
  obtain ⟨pairs, next, hpairs, hinstructions⟩ := exists_macroPairs imported w
  let last : Placed := ⟨.buildMap imported.length, s.file, w.line⟩
  refine ⟨pairs ++ [last], next + 1, ?_, ?_⟩
  · simp only [importTemplate, hget, bind_eq_ok, pure_eq_ok, inFile_eq_ok, op_eq_ok]
    exact ⟨(imported.length, pairs), _, ⟨_, ⟨imported, v, hmacros, (), w, hshare, pairs, _, hpairs,
      rfl, rfl⟩, rfl⟩, [last], _, ⟨rfl, rfl⟩, rfl, rfl⟩
  · rw [Fragment.instructions_append, hinstructions]
    rfl

/-- A template is imported alike into every set that has the same templates under the names that are
asked for, wherever the import stands: with the same code, and with the same macros added. -/
theorem importTemplate_shares (hE : E.Moves C A E') (hmoves : env.Moves A env')
    (henv : env.Portable C A) {name : String} (hname : A name) (hst : s.Shares C t)
    (h : importTemplate E env name s = .ok (code, s')) :
    ∃ code' t', importTemplate E' env' name t = .ok (code', t') ∧
      Fragment.instructions code' = Fragment.instructions code ∧ s'.Shares C t' := by
  have hget' := hmoves.within.get? name hname
  cases hget : env.set.get? name with
  | none => simp [importTemplate, hget, fail_eq_ok] at h
  | some template =>
    rw [hget] at hget'
    have hnodes := henv.templates template (TemplateSet.mem_of_get? hget).1
    have hcode := h
    simp only [importTemplate, hget, bind_eq_ok, pure_eq_ok, inFile_eq_ok] at h
    obtain ⟨_, _, ⟨_, ⟨imported, v, himported, _, w, hshare, -⟩, -⟩, -⟩ := h
    obtain ⟨_, _, hcode', hinstructions⟩ := importTemplate_of_macros hget himported hshare
    obtain ⟨rfl, rfl⟩ := Prod.mk.inj (Except.ok.inj (hcode.symm.trans hcode'))
    -- Both states are in the file of the imported template now, which makes them comparable.
    obtain ⟨line', himported⟩ := macrosOf_anywhere t.next t.line himported
    have hentered : (s.tables t).Grow
        ((entered s template.name).tables (entered t template.name)) :=
      ⟨prefix_intern s.files template.name, prefix_intern t.files template.name⟩
    have hstart : EmissionState.Moves C 0 True
        { entered s template.name with next := t.next, line := t.line }
        (entered t template.name) :=
      ⟨(Nat.zero_add t.next).symm, fun _ => ⟨template.name, getElem?_intern s.files template.name,
        getElem?_intern t.files template.name⟩, rfl, hst.filters,
        hst.macros.imp fun _ _ hdecl => hdecl.mono hentered⟩
    obtain ⟨_, v', himported', hv, -, hids⟩ :=
      macrosOf_moves hE hmoves henv hnodes hstart himported
    obtain rfl := hids _ (.refl _)
    obtain rfl : _ = w := (Prod.mk.inj (Except.ok.inj hshare)).2
    obtain ⟨⟨⟩, w', hshare', hw, -⟩ := shareMacros_moves imported hv rfl
    obtain ⟨code', next', himport', hinstructions'⟩ :=
      importTemplate_of_macros hget' himported' hshare'
    exact ⟨code', _, himport', hinstructions'.trans hinstructions.symm, hw.filters, hw.macros⟩

end Emission

end Templating
