import Templating.Proofs.Emission.Composition
import Templating.Proofs.Emission.Growth
import Templating.Proofs.Emission.TagCode
import Templating.Proofs.Machine.Runs

/-!
# Where emitted code stands

The code of anything that is emitted covers the positions from one state of emission to the next,
and its jumps stay there. This holds of added tags with any plans as well, so that a run through the
code of a node can only leave it at its end.

Most actions put their code together from front to back. What they return is then the code so far
with more behind it, and the laws below follow the actions one by one.
-/

namespace Templating.Emission

/-- Code covers the positions between two states, and leads nowhere but to positions from `low` on
up to its end. The tables keep what they hold. -/
structure Covers (low : Nat) (s t : EmissionState) (code : Fragment) : Prop where
  next : t.next = s.next + code.length
  file : t.file = s.file
  filters : s.filters.toList <+: t.filters.toList
  files : s.files.toList <+: t.files.toList
  jumps : ∀ ⦃i : Nat⦄ ⦃p : Placed⦄, code[i]? = some p →
    ∀ target ∈ p.instruction.successors (s.next + i), low ≤ target ∧ target ≤ t.next

namespace Covers

variable {s t u : EmissionState} {first second code : Fragment} {low low' : Nat} {i : Instruction}

/-- Code ends behind where it begins. -/
theorem next_le (h : Covers low s t code) : s.next ≤ t.next := h.next ▸ Nat.le_add_right _ _

/-- Nothing is said about positions before. -/
theorem mono (h : Covers low s t code) (hlow : low' ≤ low) : Covers low' s t code where
  next := h.next
  file := h.file
  filters := h.filters
  files := h.files
  jumps := fun _ _ hp target htarget =>
    ⟨Nat.le_trans hlow (h.jumps hp target htarget).1, (h.jumps hp target htarget).2⟩

/-- No code. -/
theorem nil (low : Nat) (s : EmissionState) : Covers low s s [] :=
  ⟨rfl, rfl, List.prefix_rfl, List.prefix_rfl, fun _ _ hp => by simp at hp⟩

/-- One piece of code behind the other. -/
theorem append (h : Covers low s t first) (h' : Covers low t u second) :
    Covers low s u (first ++ second) where
  next := by rw [h'.next, h.next, List.length_append, Nat.add_assoc]
  file := h'.file.trans h.file
  filters := h.filters.trans h'.filters
  files := h.files.trans h'.files
  jumps := by
    intro i p hp target htarget
    by_cases hi : i < first.length
    · rw [List.getElem?_append_left hi] at hp
      exact ⟨(h.jumps hp target htarget).1, Nat.le_trans (h.jumps hp target htarget).2 h'.next_le⟩
    · rw [List.getElem?_append_right (Nat.le_of_not_lt hi)] at hp
      have hplace : s.next + i = t.next + (i - first.length) := by
        have := h.next
        omega
      exact h'.jumps hp target (hplace ▸ htarget)

/-- Only other tables and the line were changed before. -/
theorem behind (h : Covers low t u code) (hnext : t.next = s.next) (hfile : t.file = s.file)
    (hfilters : s.filters.toList <+: t.filters.toList)
    (hfiles : s.files.toList <+: t.files.toList) : Covers low s u code :=
  ⟨hnext ▸ h.next, h.file.trans hfile, hfilters.trans h.filters, hfiles.trans h.files,
    hnext ▸ h.jumps⟩

/-- Only the line was changed before. -/
theorem afterLine {line : Nat} (h : Covers low { s with line := line } t code) :
    Covers low s t code :=
  h.behind rfl rfl List.prefix_rfl List.prefix_rfl

/-- An instruction in front of other code, on any line. -/
theorem cons {line : Nat} (h : Covers low { s with next := s.next + 1 } t code)
    (hi : ∀ target ∈ i.successors s.next, low ≤ target ∧ target ≤ t.next) :
    Covers low s t (⟨i, s.file, line⟩ :: code) where
  next := by rw [h.next, List.length_cons, Nat.add_right_comm, Nat.add_assoc]
  file := h.file
  filters := h.filters
  files := h.files
  jumps := by
    intro j p hp target htarget
    cases j with
    | zero =>
      obtain rfl := Option.some.inj hp
      exact hi target htarget
    | succ j =>
      rw [Nat.add_succ, ← Nat.succ_add] at htarget
      exact h.jumps hp target htarget

/-- One instruction. -/
theorem single {line : Nat}
    (hi : ∀ target ∈ i.successors s.next, low ≤ target ∧ target ≤ s.next + 1) :
    Covers low s { s with next := s.next + 1 } [⟨i, s.file, line⟩] := (nil low _).cons hi

/-- Code that is skipped. -/
theorem skipped (line : Nat)
    (h : Covers (s.next + 1) { s with next := s.next + 1 } t code) :
    Covers s.next s t (⟨.jump t.next, s.file, line⟩ :: code) := by
  refine (h.mono (Nat.le_succ _)).cons fun n hn => ?_
  obtain rfl : n = t.next := List.mem_singleton.mp hn
  exact ⟨Nat.le_trans (Nat.le_succ _) h.next_le, Nat.le_refl _⟩

/-- Code that is run if a value is true; otherwise what is behind it is entered somewhere. -/
theorem choice (line : Nat) {entry : Nat}
    (h : Covers (s.next + 1) { s with next := s.next + 1 } t first) (h' : Covers t.next t u second)
    (hentry : t.next ≤ entry) (hlast : entry ≤ u.next) :
    Covers s.next s u (⟨.jumpIfFalse entry, s.file, line⟩ :: (first ++ second)) := by
  have hfirst : s.next + 1 ≤ t.next := h.next_le
  refine ((h.mono (Nat.le_succ _)).append (h'.mono (by omega))).cons fun n hn => ?_
  have := h'.next_le
  obtain rfl | rfl : n = s.next + 1 ∨ n = entry := by simpa [Instruction.successors] using hn
  all_goals omega

end Covers

variable {α β : Type} {isFilter : String → Bool}

/-- What is returned by the action contains the code that it emits. -/
def Lays (x : Emission α) (code : α → Fragment) : Prop :=
  ∀ ⦃s : EmissionState⦄ ⦃a : α⦄ ⦃t : EmissionState⦄, x s = .ok (a, t) →
    Covers s.next s t (code a)

/-- The action returns the code that it emits. -/
abbrev Emits (x : Emission Fragment) : Prop := Lays x id

/-- The action emits no code. -/
abbrev Silent (x : Emission α) : Prop := Lays x fun _ => []

/-- The action returns some code with the code that it emits behind it. -/
def Behind (before : Fragment) (x : Emission Fragment) : Prop :=
  ∀ ⦃s : EmissionState⦄ ⦃code : Fragment⦄ ⦃t : EmissionState⦄, x s = .ok (code, t) →
    ∃ more, code = before ++ more ∧ Covers s.next s t more

section Laws

variable {before : Fragment} {x : Emission α} {y : Emission Fragment} {f : α → Fragment}
  {g : α → Emission Fragment}

/-- Nothing more is emitted. -/
theorem Behind.done (code : Fragment) : Behind code (pure code) := by
  intro s code' t h
  obtain ⟨rfl, rfl⟩ := pure_eq_ok.mp h
  exact ⟨[], (List.append_nil _).symm, .nil _ _⟩

/-- The action emits one piece after the other. -/
theorem Lays.bind (hx : Lays x f) (hg : ∀ a, Behind (before ++ f a) (g a)) :
    Behind before (x >>= g) := by
  intro s code t h
  obtain ⟨a, u, hfirst, hsecond⟩ := bind_eq_ok.mp h
  obtain ⟨more, rfl, hmore⟩ := hg a hsecond
  have hfirst := hx hfirst
  exact ⟨f a ++ more, List.append_assoc _ _ _, hfirst.append (hmore.mono hfirst.next_le)⟩

/-- Something is done first that emits no code. -/
theorem Silent.bind (hx : Silent x) (hg : ∀ a, Behind before (g a)) : Behind before (x >>= g) :=
  Lays.bind hx fun a => (List.append_nil before).symm ▸ hg a

/-- The last piece. -/
theorem Behind.last (hy : Emits y) : Behind before (do return before ++ (← y)) :=
  Lays.bind hy fun _ => .done _

/-- All of the code is emitted by the action. -/
theorem Behind.emits (h : Behind [] y) : Emits y := by
  intro s code t hrun
  obtain ⟨more, rfl, hmore⟩ := h hrun
  exact hmore

/-- A fault. -/
theorem Behind.fail (fault : Fault) : Behind before (fail fault) :=
  fun _ _ _ h => (fail_eq_ok.mp h).elim

/-- A fault that tells the line. -/
theorem Behind.failAt (faultAt : Nat → Fault) :
    Behind before (do Emission.fail (faultAt (← currentLine))) := by
  intro s code t h
  obtain ⟨line, u, -, h⟩ := bind_eq_ok.mp h
  exact (fail_eq_ok.mp h).elim

/-- Returning. -/
theorem Silent.pure (a : α) : Silent (pure a) := by
  intro s b t h
  obtain ⟨rfl, rfl⟩ := pure_eq_ok.mp h
  exact .nil _ _

/-- One action without code after the other. -/
theorem Silent.andThen {z : α → Emission β} (hx : Silent x) (hz : ∀ a, Silent (z a)) :
    Silent (x >>= z) := by
  intro s b t h
  obtain ⟨a, u, hfirst, hsecond⟩ := bind_eq_ok.mp h
  exact (hx hfirst).append ((hz a hsecond).mono (hx hfirst).next_le)

/-- Setting the line. -/
theorem silent_setLine (line : Nat) : Silent (setLine line) := by
  intro s a t h
  obtain rfl := setLine_eq_ok.mp h
  exact (Covers.nil _ _).afterLine

/-- Placing errors at a line. -/
theorem Lays.placed {line : Nat} (hx : Lays x f) : Lays (placed line x) f :=
  fun _ _ _ h => hx (placed_eq_ok.mp h)

/-- Emitting with another current file. -/
theorem Lays.inFile {name : String} (hx : Lays x f) : Lays (inFile name x) f := by
  intro s a t h
  obtain ⟨u, hinner, rfl⟩ := inFile_eq_ok.mp h
  have hinner := hx hinner
  exact ⟨hinner.next, rfl, hinner.filters, (prefix_intern _ _).trans hinner.files, hinner.jumps⟩

/-- The code of a macro is emitted apart. -/
theorem silent_macroCode {name : String} {params : List String} (hy : Emits y) :
    Silent (macroCode name params y) := by
  intro s a t h
  obtain ⟨code, u, hinner, -, rfl⟩ := macroCode_eq_ok.mp h
  have hinner := hy hinner
  exact ⟨rfl, hinner.file, hinner.filters, hinner.files, fun _ _ hp => by simp at hp⟩

/-- One instruction that goes on to the next position. -/
theorem emits_op {i : Instruction} (hi : ∀ pc, i.successors pc = [pc + 1]) : Emits (op i) := by
  intro s code t h
  obtain ⟨rfl, rfl⟩ := op_eq_ok.mp h
  refine (Covers.nil _ _).cons fun target htarget => ?_
  rw [hi, List.mem_singleton] at htarget
  exact ⟨htarget ▸ Nat.le_succ _, htarget ▸ Nat.le_refl _⟩

/-- A filter is applied. -/
theorem emits_applyFilter (name : String) (args : Nat) :
    Emits (applyFilter isFilter name args) := by
  intro s code t h
  obtain ⟨_, rfl, rfl⟩ := applyFilter_eq_ok.mp h
  have hcovers : Covers s.next { s with filters := (intern s.filters name).2 }
      { s with filters := (intern s.filters name).2, next := s.next + 1 }
      [⟨.applyFilter (intern s.filters name).1 args, s.file, s.line⟩] := by
    refine Covers.cons (Covers.nil _ _) fun target htarget => ?_
    simp only [Instruction.successors, List.mem_singleton] at htarget
    simp [htarget]
  exact hcovers.behind rfl rfl (prefix_intern _ _) List.prefix_rfl

/-- The first piece. -/
theorem Lays.behind (hy : Emits y) : Behind [] y := fun _ code _ h => ⟨code, rfl, hy h⟩

end Laws

/-- Jumps on a condition lead to the next position or to their target. -/
theorem successors_of_conditional {jump : Nat → Instruction}
    (h : Instruction.IsConditional jump) {target pc n : Nat}
    (hn : n ∈ (jump target).successors pc) : n = pc + 1 ∨ n = target := by
  cases h <;> simpa [Instruction.successors] using hn

/-- Whatever code is put together, it covers its positions if what it is put together of does. -/
theorem emits_congruence (isFilter : String → Bool) :
    Congruence isFilter (fun _ => True) fun x _ => Emits x where
  nothing := (Behind.done []).emits
  andThen hx hy := (hx.bind fun _ => .last hy).emits
  onLine _ hx := ((silent_setLine _).bind fun _ => hx.behind).emits
  op hgoes _ := emits_op hgoes
  applyFilter := emits_applyFilter
  skipping hjump hx := by
    intro s code t h
    simp only [skipping, bind_eq_ok, reserve_eq_ok, here_eq_ok, pure_eq_ok] at h
    obtain ⟨_, _, ⟨rfl, rfl⟩, second, u, hsecond, _, _, ⟨rfl, rfl⟩, rfl, rfl⟩ := h
    have hsecond := hx hsecond
    have hnext : s.next + 1 ≤ u.next := hsecond.next_le
    refine (hsecond.mono (Nat.le_succ _)).cons fun n hn => ?_
    rcases successors_of_conditional hjump hn with rfl | rfl <;> omega
  choosing hx hy := by
    intro s code t h
    simp only [choosing, bind_eq_ok, reserve_eq_ok, here_eq_ok, pure_eq_ok] at h
    obtain ⟨_, _, ⟨rfl, rfl⟩, yes, u, hyes, _, _, ⟨rfl, rfl⟩, _, _, ⟨rfl, rfl⟩, no, v, hno,
      _, _, ⟨rfl, rfl⟩, rfl, rfl⟩ := h
    have hno := hy hno
    exact (hx hyes).choice s.line (hno.skipped u.line) (Nat.le_succ _) hno.next_le
  rounds hx := by
    intro s code t h
    simp only [rounds, bind_eq_ok, here_eq_ok, reserve_eq_ok, pure_eq_ok] at h
    obtain ⟨_, _, ⟨rfl, rfl⟩, _, _, ⟨rfl, rfl⟩, inner, u, hinner, back, v, hback, _, _,
      ⟨rfl, rfl⟩, rfl, rfl⟩ := h
    obtain ⟨rfl, rfl⟩ := op_eq_ok.mp hback
    have hinner := hx hinner
    have hstart : s.next + 1 ≤ u.next := hinner.next_le
    have hback : Covers s.next u { u with next := u.next + 1 }
        [⟨.jump s.next, u.file, u.line⟩] := by
      refine .single fun n hn => ?_
      obtain rfl : n = s.next := List.mem_singleton.mp hn
      omega
    refine ((hinner.mono (Nat.le_succ _)).append (hback.mono (by omega))).cons fun n hn => ?_
    change s.next ≤ n ∧ n ≤ u.next + 1
    obtain rfl | rfl : n = s.next + 1 ∨ n = u.next + 1 := by
      simpa [Instruction.successors] using hn
    all_goals omega
  badArguments _ := (Behind.failAt _).emits

/-- The code of an expression. -/
theorem expr_emits (e : Expr) : Emits (expr isFilter e) :=
  (emits_congruence isFilter).expr e.loads_true

section Elsewhere

variable {E : Elsewhere} (hE : ∀ env ns, Emits (E env ns)) (env : Surroundings)

include hE

/-- The code of nodes from several templates. -/
theorem nodesOf_emits : ∀ rows : List (String × Node), Emits (nodesOf E env rows)
  | [] => (Behind.done []).emits
  | row :: rest => ((hE env [row.2]).inFile.bind fun _ => .last (nodesOf_emits rest)).emits

/-- The code of one definition of a block. -/
theorem blockLayer_emits (name : String) (index : Nat) : Emits (blockLayer E env name index) := by
  unfold blockLayer
  cases (env.resolved.layers name)[index]? with
  | none => exact (Behind.done []).emits
  | some layer => exact (hE _ layer.body).inFile

/-- The code of the next less derived definition. -/
theorem parentLayer_emits : Emits (parentLayer E env) := by
  unfold parentLayer
  cases env.blocks with
  | nil => exact (Behind.failAt _).emits
  | cons block rest => exact blockLayer_emits hE env block.1 (block.2 + 1)

omit hE in
/-- The code that makes the frame of an included template. -/
theorem includeFrame_emits (value? : Option Expr) (isolated : Bool) :
    Emits (includeFrame env value? isolated) := by
  unfold includeFrame
  cases value? with
  | some e => exact ((expr_emits e).bind fun _ => .last (emits_op fun _ => rfl)).emits
  | none =>
    cases isolated with
    | true => exact ((emits_op fun _ => rfl).bind fun _ => .last (emits_op fun _ => rfl)).emits
    | false => exact emits_op fun _ => rfl

/-- The code of an included template. -/
theorem insertTemplate_emits (name : String) (value? : Option Expr) (isolated isOptional : Bool) :
    Emits (insertTemplate E env name value? isolated isOptional) := by
  intro s t code h
  cases insertedCode_of_eq_ok h with
  | missing => exact .nil _ _
  | inserted _ _ _ hframe hbody hpop =>
    have hframe := includeFrame_emits env value? isolated hframe
    have hbody := nodesOf_emits hE _ _ hbody
    have hpop := (emits_op fun _ => rfl) hpop
    exact (hframe.append (hbody.mono hframe.next_le)).append
      (hpop.mono (Nat.le_trans hframe.next_le hbody.next_le))

/-- The code of macros is emitted apart. -/
theorem silent_macrosOf (ns : List Node) : Silent (macrosOf E env ns) := by
  induction ns with
  | nil => exact .pure _
  | cons n rest ih =>
    cases n with
    | literal text span => exact ih
    | output subject filters span => exact ih
    | tag name args body branches span =>
      rw [macrosOf]
      split
      · refine (silent_setLine _).andThen fun _ => ?_
        cases macroSignature? args with
        | none => exact ih
        | some signature =>
          exact Silent.andThen (Lays.placed (silent_macroCode (hE env body))) fun _ =>
            ih.andThen fun _ => .pure _
      · exact ih

omit hE env in
/-- Letting macros see each other takes no code. -/
theorem silent_shareMacros (imported : List (String × Nat)) : Silent (shareMacros imported) := by
  intro s a t h
  obtain rfl : _ = t := (Prod.mk.inj (Except.ok.inj h)).2
  exact (Covers.nil _ _).behind rfl rfl List.prefix_rfl List.prefix_rfl

omit hE env in
/-- The code of callables under their names. -/
theorem macroPairs_emits : ∀ imported : List (String × Nat), Emits (macroPairs imported)
  | [] => (Behind.done []).emits
  | (_, _) :: rest => ((emits_op fun _ => rfl).bind fun _ => (emits_op fun _ => rfl).bind fun _ =>
      .last (macroPairs_emits rest)).emits

/-- The code of the imported macros of a template. -/
theorem importTemplate_emits (name : String) : Emits (importTemplate E env name) := by
  unfold importTemplate
  cases env.set.get? name with
  | none => exact (Behind.fail _).emits
  | some template =>
    refine (Lays.bind (f := Prod.snd) (Lays.inFile fun s a t h => ?_) fun _ =>
      .last (emits_op fun _ => rfl)).emits
    simp only [bind_eq_ok, pure_eq_ok] at h
    obtain ⟨imported, u, himported, _, v, hshare, pairs, w, hpairs, rfl, rfl⟩ := h
    have himported := silent_macrosOf hE env _ himported
    have hshare := silent_shareMacros _ hshare
    have hpairs := macroPairs_emits _ hpairs
    have hsilent := himported.append (hshare.mono himported.next_le)
    exact hsilent.append (hpairs.mono hsilent.next_le)

end Elsewhere

mutual

/-- The code of a node. -/
theorem node_emits {E : Elsewhere} (hE : ∀ env ns, Emits (E env ns)) (env : Surroundings) :
    ∀ n : Node, Emits (node E env n)
  | .literal text span => by
    rw [node]
    refine ((silent_setLine _).bind fun _ => ?_).emits
    split
    · exact .done _
    · exact (emits_op fun _ => rfl).behind
  | .output subject filters span => by
    rw [node]
    have houtput : Emits (output env.isFilter subject filters) :=
      (emits_congruence _).output subject.loads_true fun _ _ => Expr.allLoad_true _
    exact ((silent_setLine _).bind fun _ => houtput.placed.behind).emits
  | .tag name args body branches span => by
    intro s t code h
    have hnodes := nodes_emits hE env body
    have hbranch := branchAt_emits hE env branches
    have hemits := emits_congruence env.isFilter
    by_cases hcustom : ∃ tag, env.registry.tag? name = some (.custom tag)
    · obtain ⟨tag, htag⟩ := hcustom
      simp only [node, bind_eq_ok, setLine_eq_ok, placed_eq_ok] at h
      obtain ⟨_, _, rfl, h⟩ := h
      obtain ⟨tags, h⟩ := noted_eq_ok h
      simp only [htag, bind_eq_ok] at h
      obtain ⟨steps, u, hlift, h⟩ := h
      obtain ⟨-, rfl⟩ := lift_eq_ok.mp hlift
      exact (hemits.holds_plan (fun _ => trivial) hnodes hbranch steps h).behind rfl rfl
        List.prefix_rfl List.prefix_rfl
    · obtain ⟨tag, tags, -, hcode⟩ := exists_tagCode h fun tag htag => hcustom ⟨tag, htag⟩
      refine Covers.behind (t := { s with line := span.start.line, tags }) ?_ rfl rfl
        List.prefix_rfl List.prefix_rfl
      cases hcode with
      | inherit => exact .nil _ _
      | block _ hcode => exact blockLayer_emits hE env _ _ hcode
      | parent hcode => exact parentLayer_emits hE env hcode
      | @cond _ _ u _ _ _ _ _ _ _ _ htest hyes hrest =>
        have htest := expr_emits _ htest
        have hyes := hnodes hyes
        obtain ⟨hrest, hentry, hlast⟩ := alternatives_covers hE env hrest
        have hchoice := hyes.choice u.line hrest hentry hlast
        simpa using htest.append (hchoice.mono htest.next_le)
      | loop _ hcode => exact hemits.holds_loop (argsLoad_true _) hnodes (by simp) hcode
      | loopOrElse _ hcode =>
        refine hemits.holds_loop (argsLoad_true _) hnodes (fun other hother => ?_) hcode
        obtain rfl := Option.some.inj hother
        exact hbranch 0
      | assign hcode => exact hemits.assignment (argsLoad_true _) hcode
      | insert _ hcode => exact insertTemplate_emits hE env _ _ _ _ hcode
      | importMacros _ hmacros hstore =>
        have hmacros := importTemplate_emits hE env _ hmacros
        exact hmacros.append (((emits_op fun _ => rfl) hstore).mono hmacros.next_le)
      | defineMacro _ hid hbuild hstore =>
        have hid := silent_macroCode hnodes hid
        have hbuild := hid.append (((emits_op fun _ => rfl) hbuild).mono hid.next_le)
        exact hbuild.append (((emits_op fun _ => rfl) hstore).mono hbuild.next_le)
      | filter hcode => exact hemits.holds_filtered (argsLoad_true _) trivial hnodes hcode
      | escaping hcode => exact hemits.holds_escaping (fun _ => trivial) hnodes hcode

/-- The code of nodes one after the other. -/
theorem nodes_emits {E : Elsewhere} (hE : ∀ env ns, Emits (E env ns)) (env : Surroundings) :
    ∀ ns : List Node, Emits (nodes E env ns)
  | [] => by
    rw [nodes]
    exact (Behind.done []).emits
  | n :: rest => by
    rw [nodes]
    exact ((node_emits hE env n).bind fun _ => .last (nodes_emits hE env rest)).emits

/-- The code of the branches of a condition, which is entered somewhere in it or at its end. -/
theorem alternatives_covers {E : Elsewhere} (hE : ∀ env ns, Emits (E env ns))
    (env : Surroundings) : ∀ {branches : List Branch} {s t : EmissionState} {code : Fragment}
      {entry : Nat}, alternatives E env branches s = .ok ((code, entry), t) →
        Covers s.next s t code ∧ s.next ≤ entry ∧ entry ≤ t.next
  | [], s, t, code, entry, h => by
    simp only [alternatives, bind_eq_ok, here_eq_ok, pure_eq_ok] at h
    obtain ⟨_, _, ⟨rfl, rfl⟩, heq, rfl⟩ := h
    obtain ⟨rfl, rfl⟩ := Prod.mk.inj heq
    exact ⟨.nil _ _, Nat.le_refl _, Nat.le_refl _⟩
  | .mk label args body span :: rest, s, t, code, entry, h => by
    have hnodes := nodes_emits hE env body
    simp only [alternatives, bind_eq_ok, setLine_eq_ok, reserve_eq_ok, here_eq_ok] at h
    obtain ⟨_, _, rfl, _, _, ⟨rfl, rfl⟩, _, _, ⟨rfl, rfl⟩, h⟩ := h
    cases hcondition : args.head?.bind TagArg.asExpr? with
    | some condition =>
      simp only [hcondition, bind_eq_ok, reserve_eq_ok, here_eq_ok, pure_eq_ok] at h
      obtain ⟨test, u, htest, _, _, ⟨rfl, rfl⟩, yes, v, hyes, ⟨more, onFalse⟩, w, hmore, _, _,
        ⟨rfl, rfl⟩, heq, rfl⟩ := h
      obtain ⟨rfl, rfl⟩ := Prod.mk.inj heq
      have htest := expr_emits _ htest
      have hyes := hnodes hyes
      obtain ⟨hrest, hentry, hlast⟩ := alternatives_covers hE env hmore
      have hchoice := hyes.choice u.line hrest hentry hlast
      have hcode := htest.append (hchoice.mono htest.next_le)
      refine ⟨?_, Nat.le_succ _, hcode.next_le⟩
      simpa using (hcode.skipped (s := { s with line := span.start.line }) _).afterLine
    | none =>
      simp only [hcondition, bind_eq_ok, here_eq_ok, pure_eq_ok] at h
      obtain ⟨yes, u, hyes, ⟨more, onFalse⟩, v, hmore, _, _, ⟨rfl, rfl⟩, heq, rfl⟩ := h
      obtain ⟨rfl, rfl⟩ := Prod.mk.inj heq
      have hyes := hnodes hyes
      obtain ⟨hrest, hentry, hlast⟩ := alternatives_covers hE env hmore
      have hcode := hyes.append (hrest.mono hyes.next_le)
      exact ⟨(hcode.skipped (s := { s with line := span.start.line }) _).afterLine, Nat.le_succ _,
        hcode.next_le⟩

/-- The code of one branch. -/
theorem branchAt_emits {E : Elsewhere} (hE : ∀ env ns, Emits (E env ns)) (env : Surroundings) :
    ∀ (branches : List Branch) (index : Nat), Emits (branchAt E env branches index)
  | [], index => by
    rw [branchAt]
    exact (Behind.done []).emits
  | .mk label args body span :: rest, 0 => by
    rw [branchAt]
    exact nodes_emits hE env body
  | .mk label args body span :: rest, index + 1 => by
    rw [branchAt]
    exact branchAt_emits hE env rest index

end

/-- The code of nodes, however deep references nest. -/
theorem atDepth_emits (depth : Nat) (env : Surroundings) (ns : List Node) :
    Emits (atDepth depth env ns) := by
  induction depth generalizing env ns with
  | zero => exact (Behind.fail _).emits
  | succ depth ih => exact nodes_emits ih env ns

end Templating.Emission
