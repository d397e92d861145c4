import Templating.Proofs.Emission.Composition
import Templating.Proofs.Emission.Expression

/-!
# Code of the single constructions is structured

What the built-in tags put around code that is structured by itself: scopes, escaping modes and
captures around a body, choices between branches, loops, macros, and another current file. Each
construction is emitted in one go, so that its jumps are known when its last piece is.
-/

namespace Templating

namespace Emission

variable {isFilter : String → Bool} {s t u v : EmissionState}
  {first second last code body yes : Fragment} {a b c d : Nat}

/-- One instruction, whatever it does. -/
theorem op_laid {i : Instruction} (h : op i s = .ok (code, t))
    (hrefers : i.RefersWithin s.filters.size s.macros.size) : Laid s t code := by
  obtain ⟨rfl, rfl⟩ := op_eq_ok.mp h
  exact .single hrefers

/-- The code of a body between an instruction that opens something and one that closes it. -/
theorem enclosed_emitted {i j : Instruction}
    (hwhole : ∀ {p : Nat} {code : List Instruction}, Structured (p + 1) code a b →
      Structured p (i :: code ++ [j]) c d)
    (hi : i.RefersWithin s.filters.size s.macros.size)
    (hj : j.RefersWithin v.filters.size v.macros.size) (hopen : op i s = .ok (first, u))
    (hbody : Emitted u v body a b) (hclose : op j v = .ok (last, t)) :
    Emitted s t (first ++ body ++ last) c d := by
  refine ⟨((op_laid hopen hi).append hbody.toLaid).append (op_laid hclose hj), ?_⟩
  obtain ⟨rfl, rfl⟩ := op_eq_ok.mp hopen
  obtain ⟨rfl, _⟩ := op_eq_ok.mp hclose
  simpa using hwhole hbody.structured

/-- Code that is skipped if the condition before it is false. -/
theorem guarded_emitted {line : Nat} (h : Emitted { s with next := s.next + 1 } t yes 0 0) :
    Emitted s t (⟨.jumpIfFalse t.next, s.file, line⟩ :: yes) 1 0 := by
  refine ⟨.cons trivial h.toLaid, ?_⟩
  rw [Fragment.instructions_cons, h.next_eq, ← Fragment.length_instructions]
  exact .guarded h.structured

/-- How the code of further branches follows what comes before it: there are none, and a condition
that is false leads right to the end; or they begin with a jump to the end over the rest, where such
a condition leads. -/
inductive Alternative (s t : EmissionState) : Fragment → Nat → Prop
  | none : t = s → Alternative s t [] s.next
  | some {line : Nat} {no : Fragment} : Emitted { s with next := s.next + 1 } t no 0 0 →
    Alternative s t (⟨.jump t.next, s.file, line⟩ :: no) (s.next + 1)

/-- Further branches that are never entered. -/
theorem Alternative.skipped {onFalse : Nat} (h : Alternative s t code onFalse) :
    Emitted s t code 0 0 := by
  cases h with
  | none heq =>
    subst heq
    exact .nil t 0
  | some hno =>
    refine ⟨.cons trivial hno.toLaid, ?_⟩
    rw [Fragment.instructions_cons, hno.next_eq, ← Fragment.length_instructions]
    exact .skipped hno.structured

/-- Code behind a condition, and further branches. -/
theorem choice_emitted {onFalse : Nat} (line : Nat)
    (hyes : Emitted { s with next := s.next + 1 } u yes 0 0) (h : Alternative u t code onFalse) :
    Emitted s t (⟨.jumpIfFalse onFalse, s.file, line⟩ :: yes ++ code) 1 0 := by
  refine ⟨.append (.cons trivial hyes.toLaid) h.skipped.toLaid, ?_⟩
  cases h with
  | none heq =>
    rw [List.append_nil]
    exact (guarded_emitted hyes).structured
  | some hno =>
    have hnext : u.next = s.next + 1 + yes.length := hyes.next_eq
    have htnext : t.next = u.next + 1 + _ := hno.next_eq
    have hno := hno.structured
    simp only [Fragment.instructions_append, Fragment.instructions_cons, htnext]
    simp only [hnext, ← Fragment.length_instructions] at hno ⊢
    exact .branch hyes.structured hno

/-- The state with another current file, which is added to the file table if it is new. -/
def entered (s : EmissionState) (name : String) : EmissionState :=
  { s with file := (intern s.files name).1, files := (intern s.files name).2 }

/-- Another current file leaves the tables sound. -/
theorem sound_entered (hs : s.Sound) (name : String) : (entered s name).Sound where
  file := (Array.getElem?_eq_some_iff.mp (getElem?_intern s.files name)).1
  filters := hs.filters
  macros := fun decl hdecl => by
    have hle : s.files.size ≤ (intern s.files name).2.size := by
      simpa using (prefix_intern s.files name).length_le
    exact (hs.macros decl hdecl).mono (Nat.le_refl _) (Nat.le_refl _) hle

/-- Code that was emitted with another current file, before coming back to the one before. -/
theorem inFile_emitted {name : String} (h : Emitted (entered s name) t code a b) :
    Emitted s { t with file := s.file } code a b := by
  have hfiles := (prefix_intern s.files name).trans h.advances.files
  refine ⟨⟨⟨h.next_eq, rfl, h.advances.filters, hfiles, h.advances.macros, fun hs => ?_⟩,
    fun hs => h.within (sound_entered hs name)⟩, h.structured⟩
  obtain ⟨_, hfilters, hmacros⟩ := h.advances.sound (sound_entered hs name)
  exact ⟨Nat.lt_of_lt_of_le hs.file (by simpa using hfiles.length_le), hfilters, hmacros⟩

/-- The code of a macro is emitted apart, and the macro is added to the table under its number. -/
theorem macroCode_advances {name : String} {params : List String} {e : Emission Fragment} {id : Nat}
    (h : macroCode name params e s = .ok (id, t))
    (he : ∀ {s t : EmissionState} {code : Fragment}, e s = .ok (code, t) → Emitted s t code 0 0) :
    s.Advances t 0 ∧ s.macros.size ≤ id ∧ id < t.macros.size := by
  obtain ⟨code, u, hu, rfl, rfl⟩ := macroCode_eq_ok.mp h
  have hbody := he hu
  have hsize : u.macros.size ≤ (u.macros.push { name, params, code := .ofFragment code }).size := by
    simp
  have hadded : u.macros.toList <+:
      (u.macros.push { name, params, code := .ofFragment code }).toList := by simp
  refine ⟨⟨rfl, hbody.advances.file, hbody.advances.filters, hbody.advances.files,
    hbody.advances.macros.trans hadded, fun hs => ?_⟩, hbody.advances.macros_le, by simp⟩
  have hstart : EmissionState.Sound { s with next := 0 } := ⟨hs.file, hs.filters, hs.macros⟩
  obtain ⟨hfile, hfilters, hmacros⟩ := hbody.advances.sound hstart
  refine ⟨hfile, hfilters, fun decl hdecl => ?_⟩
  rcases Array.mem_push.mp hdecl with hdecl | rfl
  · exact (hmacros decl hdecl).mono (Nat.le_refl _) hsize (Nat.le_refl _)
  · refine ⟨⟨code, rfl, ?_, hbody.structured⟩, by simp⟩
    exact (hbody.within hstart).mono (Nat.le_refl _) hsize (Nat.le_refl _)

/-- Every expression among the arguments fits. -/
def ArgsFit (args : List TagArg) : Prop := ∀ e, TagArg.expr e ∈ args → e.Fits

/-- The expression in front of arguments is one of them. -/
theorem expr_mem_of_head {args : List TagArg} {e : Expr}
    (he : args.head?.bind TagArg.asExpr? = some e) : TagArg.expr e ∈ args := by
  obtain ⟨arg, harg, he⟩ := Option.bind_eq_some_iff.mp he
  cases arg with
  | expr e' =>
    obtain rfl := Option.some.inj he
    exact List.mem_of_mem_head? harg
  | _ => simp [TagArg.asExpr?] at he

/-- The expression in front of arguments that fit. -/
theorem ArgsFit.head {args : List TagArg} {e : Expr} (h : ArgsFit args)
    (he : args.head?.bind TagArg.asExpr? = some e) : e.Fits :=
  h e (expr_mem_of_head he)

/-- The loop variables take a key and a value. -/
theorem loopTargets_emitted {args : List TagArg} {targets : Emission Fragment}
    (htargets : loopTargets? args = some targets) (h : targets s = .ok (code, t)) :
    Emitted s t code 2 0 := by
  unfold loopTargets? at htargets
  split at htargets
  · obtain rfl := Option.some.inj htargets
    simp only [bind_eq_ok, pure_eq_ok] at h
    obtain ⟨store, u, hstore, last, v, hlast, rfl, rfl⟩ := h
    exact ((op_emitted hstore rfl rfl trivial).above 1).append (op_emitted hlast rfl rfl trivial)
  · obtain rfl := Option.some.inj htargets
    simp only [bind_eq_ok, pure_eq_ok] at h
    obtain ⟨store, u, hstore, last, v, hlast, rfl, rfl⟩ := h
    exact ((op_emitted hstore rfl rfl trivial).above 1).append (op_emitted hlast rfl rfl trivial)
  · simp at htargets

/-- An assignment leaves the stack as it was. -/
theorem assignment_emitted {args : List TagArg} (hfits : ArgsFit args)
    (h : assignment isFilter args s = .ok (code, t)) : Emitted s t code 0 0 := by
  unfold assignment at h
  split at h
  · rename_i name e
    simp only [bind_eq_ok, pure_eq_ok] at h
    obtain ⟨first, u, hfirst, last, v, hlast, rfl, rfl⟩ := h
    exact (expr_emitted (hfits e (by simp)) hfirst).append (op_emitted hlast rfl rfl trivial)
  · simp [badArguments, bind_eq_ok, fail_eq_ok] at h

/-- Output with escaping turned on or off leaves the stack as it was. -/
theorem escaping_emitted {args : List TagArg} {e : Emission Fragment}
    (he : ∀ {s t : EmissionState} {code : Fragment}, e s = .ok (code, t) → Emitted s t code 0 0)
    (h : escaping args e s = .ok (code, t)) : Emitted s t code 0 0 := by
  cases hconst : (args.head?.bind TagArg.asExpr?).bind Expr.asConst? with
  | none => simp [escaping, hconst, badArguments, bind_eq_ok, fail_eq_ok] at h
  | some value =>
    simp only [escaping, hconst, bind_eq_ok, pure_eq_ok] at h
    obtain ⟨mode, u, hmode, push, v, hpush, body, w, hbody, pop, x, hpop, rfl, rfl⟩ := h
    have hwhole := enclosed_emitted .mode trivial trivial hpush (he hbody) hpop
    have hmode : Emitted s u mode 0 1 := op_emitted hmode rfl rfl trivial
    simpa [List.append_assoc] using hmode.append hwhole

/-- Arguments that are all expressions give expressions that fit if the arguments do. -/
theorem allFit_of_args {es : List Expr} (hfits : ArgsFit (es.map TagArg.expr)) :
    Expr.AllFit es := by
  induction es with
  | nil => trivial
  | cons e rest ih =>
    exact ⟨hfits e List.mem_cons_self, ih fun e' he' => hfits e' (List.mem_cons_of_mem _ he')⟩

/-- A filter applied to collected output leaves the stack as it was. -/
theorem filtered_emitted {args : List TagArg} {e : Emission Fragment} (hfits : ArgsFit args)
    (he : ∀ {s t : EmissionState} {code : Fragment}, e s = .ok (code, t) → Emitted s t code 0 0)
    (h : filtered isFilter args e s = .ok (code, t)) : Emitted s t code 0 0 := by
  unfold filtered at h
  split at h
  · rename_i name params
    simp only [bind_eq_ok] at h
    obtain ⟨start, u, hstart, body, v, hbody, stop, w, hstop, h⟩ := h
    have hcapture := enclosed_emitted .capture trivial trivial hstart (he hbody) hstop
    cases hparams : params.mapM TagArg.asExpr? with
    | none => simp [hparams, badArguments, bind_eq_ok, fail_eq_ok] at h
    | some es =>
      simp only [hparams, bind_eq_ok, pure_eq_ok] at h
      obtain ⟨inner, x, hes, call, y, hcall, off, z, hoff, push, s₁, hpush, write, s₂, hwrite, pop,
        s₃, hpop, rfl, rfl⟩ := h
      obtain rfl := eq_map_of_mapM_asExpr? hparams
      have hall := allFit_of_args fun e he => hfits e (List.mem_cons_of_mem _ he)
      have hes := (exprs_emitted hall hes).above 1
      rw [Nat.zero_add] at hes
      have hcall := applyFilter_emitted hcall
      rw [List.length_cons, List.length_map, Nat.add_sub_cancel] at hcall
      have hoff := (op_emitted hoff rfl rfl trivial).above 1
      have hmode := enclosed_emitted .mode trivial trivial hpush
        (op_emitted hwrite rfl rfl trivial) hpop
      have hwhole := (((hcapture.append hes).append hcall).append hoff).append hmode
      simpa [List.append_assoc] using hwhole
  · simp [badArguments, bind_eq_ok, fail_eq_ok] at h

/-- The code of a loop up to the jump back, and what closes it. -/
theorem looped_emitted (closing : Fragment) {w x y : EmissionState} {stores back push : Fragment}
    (hwhole : ∀ {p : Nat} {code : List Instruction}, Structured (p + 2) code 2 0 →
      Structured p (.pushLoop :: .iterate (p + 2 + code.length + 1) :: code ++
        .jump (p + 1) :: closing.instructions) 1 c)
    (hpush : op .pushLoop s = .ok (push, u))
    (hstores : Emitted { u with next := u.next + 1 } v stores 2 0) (hbody : Emitted v w body 0 0)
    (hback : op (.jump u.next) w = .ok (back, x)) (hclosing : Laid x y closing) :
    Emitted s y (push ++ ⟨.iterate x.next, u.file, u.line⟩ :: stores ++ body ++ back ++ closing)
      1 c := by
  have hinner := hstores.append hbody
  refine ⟨?_, ?_⟩
  · have hfront : Laid s w (push ++ ⟨.iterate x.next, u.file, u.line⟩ :: (stores ++ body)) :=
      (op_laid hpush trivial).append (.cons trivial hinner.toLaid)
    have hlaid := (hfront.append (op_laid hback trivial)).append hclosing
    simpa [List.append_assoc] using hlaid
  · obtain ⟨rfl, rfl⟩ := op_eq_ok.mp hpush
    obtain ⟨rfl, rfl⟩ := op_eq_ok.mp hback
    have hnext : w.next = s.next + 1 + 1 + (stores ++ body).length := hinner.next_eq
    have hwhole := hwhole hinner.structured
    simp only [Fragment.length_instructions, ← hnext] at hwhole
    simpa [List.append_assoc, hnext] using hwhole

/-- A loop leaves the stack as it was. -/
theorem loop_emitted {args : List TagArg} {e : Emission Fragment}
    {other? : Option (Emission Fragment)} (hfits : ArgsFit args)
    (he : ∀ {s t : EmissionState} {code : Fragment}, e s = .ok (code, t) → Emitted s t code 0 0)
    (hother : ∀ {other : Emission Fragment}, other? = some other →
      ∀ {s t : EmissionState} {code : Fragment}, other s = .ok (code, t) → Emitted s t code 0 0)
    (h : loop isFilter args e other? s = .ok (code, t)) : Emitted s t code 0 0 := by
  cases hlast : args.getLast? with
  | none => simp [loop, hlast, badArguments, bind_eq_ok, fail_eq_ok] at h
  | some arg =>
    cases htargets : loopTargets? args.dropLast with
    | none => cases arg <;> simp [loop, hlast, htargets, badArguments, bind_eq_ok, fail_eq_ok] at h
    | some targets =>
      cases arg with
      | expr subject =>
        have hsubject : subject.Fits := hfits subject (List.mem_of_getLast? hlast)
        simp only [loop, hlast, htargets, bind_eq_ok, here_eq_ok, reserve_eq_ok] at h
        obtain ⟨first, u, hfirst, push, v, hpush, _, _, ⟨rfl, rfl⟩, _, _, ⟨rfl, rfl⟩, stores, w,
          hstores, body, x, hbody, back, y, hback, _, _, ⟨rfl, rfl⟩, h⟩ := h
        have hsubject := expr_emitted hsubject hfirst
        have hstores := loopTargets_emitted htargets hstores
        cases other? with
        | none =>
          simp only [bind_eq_ok, pure_eq_ok] at h
          obtain ⟨pop, z, hpop, rfl, rfl⟩ := h
          have hloop := looped_emitted (c := 0) pop
            (by
              obtain ⟨rfl, _⟩ := op_eq_ok.mp hpop
              exact .loop)
            hpush hstores (he hbody) hback (op_laid hpop trivial)
          simpa [List.append_assoc] using hsubject.append hloop
        | some other =>
          simp only [bind_eq_ok, reserve_eq_ok, here_eq_ok, pure_eq_ok] at h
          obtain ⟨missed, z, hmissed, pop, s₁, hpop, _, _, ⟨rfl, rfl⟩, no, s₂, hno, _, _,
            ⟨rfl, rfl⟩, rfl, rfl⟩ := h
          have hloop := looped_emitted (c := 1) (missed ++ pop)
            (by
              obtain ⟨rfl, _⟩ := op_eq_ok.mp hmissed
              obtain ⟨rfl, _⟩ := op_eq_ok.mp hpop
              exact .loopOrElse)
            hpush hstores (he hbody) hback ((op_laid hmissed trivial).append (op_laid hpop trivial))
          have hno : Emitted s₁ s₂ (⟨.jumpIfFalse s₂.next, s₁.file, s₁.line⟩ :: no) 1 0 :=
            guarded_emitted (hother rfl hno)
          simpa [List.append_assoc] using (hsubject.append hloop).append hno
      | _ => simp [loop, hlast, htargets, badArguments, bind_eq_ok, fail_eq_ok] at h

end Emission

end Templating
