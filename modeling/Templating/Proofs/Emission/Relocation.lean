import Mathlib.Data.List.Forall2
import Templating.Proofs.Emission.Composition
import Templating.Proofs.Emission.Construction
import Templating.Proofs.Machine.Above

/-!
# Emission at another place

The same nodes may be emitted at another place: further on in the code, with other files in the
table. What comes out is the same code at another place: its jumps are moved on, and each of its
instructions comes from the same line of the file of the same name. Its constants are those of the
expressions that are emitted.

Numbers of files can be compared only in tables that hold them, and tables grow while emission goes
on. So a relation between two results is asked for in all tables that the tables so far may grow to.
-/

namespace Templating

/-- The file tables of two emissions. -/
structure FileTables where
  one : Array String
  other : Array String

namespace FileTables

variable {u v w : FileTables} {i j : Nat}

/-- The numbers stand for files of one name. -/
def Named (w : FileTables) (i j : Nat) : Prop :=
  ∃ name, w.one[i]? = some name ∧ w.other[j]? = some name

/-- Both tables keep what they hold. -/
structure Grow (v w : FileTables) : Prop where
  one : v.one.toList <+: w.one.toList
  other : v.other.toList <+: w.other.toList

/-- Tables that stay grow. -/
theorem Grow.refl (w : FileTables) : w.Grow w := ⟨List.prefix_rfl, List.prefix_rfl⟩

/-- Tables grow step by step. -/
theorem Grow.trans (h : u.Grow v) (h' : v.Grow w) : u.Grow w :=
  ⟨h.one.trans h'.one, h.other.trans h'.other⟩

/-- Numbers keep the file that they stand for. -/
theorem Named.mono (h : v.Named i j) (hgrow : v.Grow w) : w.Named i j := by
  obtain ⟨name, hone, hother⟩ := h
  exact ⟨name, getElem?_of_prefix_toList hgrow.one hone,
    getElem?_of_prefix_toList hgrow.other hother⟩

end FileTables

variable {C : Value → Prop} {count : Nat} {known : Prop} {v w : FileTables}

/-- An instruction that loads such constants only, and the same one at another place: its jump moved
on, from the same line of the file of the same name. -/
structure Placed.Moves (C : Value → Prop) (count : Nat) (w : FileTables) (p q : Placed) : Prop where
  instruction : q.instruction = p.instruction.shifted count
  file : w.Named p.file q.file
  line : q.line = p.line
  loads : p.instruction.Loads C

/-- A piece of code and the same one at another place. -/
def Fragment.Moves (C : Value → Prop) (count : Nat) (w : FileTables) : Fragment → Fragment → Prop :=
  List.Forall₂ (Placed.Moves C count w)

namespace Fragment.Moves

variable {first second first' second' : Fragment} {p q : Placed}

/-- No code. -/
theorem nil : Fragment.Moves C count w [] [] := List.Forall₂.nil

/-- Code behind an instruction. -/
theorem cons (hp : p.Moves C count w q) (h : first.Moves C count w first') :
    Fragment.Moves C count w (p :: first) (q :: first') := List.Forall₂.cons hp h

/-- Code behind other code. -/
theorem append (h : first.Moves C count w first') (h' : second.Moves C count w second') :
    Fragment.Moves C count w (first ++ second) (first' ++ second') :=
  List.rel_append h h'

/-- Code that is the same in some tables is so in all that these grow to. -/
theorem mono (h : first.Moves C count v second) (hgrow : v.Grow w) :
    first.Moves C count w second :=
  List.Forall₂.imp (fun _ _ hp => ⟨hp.instruction, hp.file.mono hgrow, hp.line, hp.loads⟩) h

end Fragment.Moves

/-- A macro and the same one in another table. -/
structure MacroDecl.Moves (C : Value → Prop) (w : FileTables) (d e : MacroDecl) : Prop where
  name : e.name = d.name
  params : e.params = d.params
  siblings : e.siblings = d.siblings
  code : ∃ f g : Fragment, d.code = Code.ofFragment f ∧ e.code = Code.ofFragment g ∧
    f.Moves C 0 w g

/-- Macros that are the same in some tables are so in all that these grow to. -/
theorem MacroDecl.Moves.mono {d e : MacroDecl} (h : d.Moves C v e) (hgrow : v.Grow w) :
    d.Moves C w e := by
  obtain ⟨f, g, hf, hg, hcode⟩ := h.code
  exact ⟨h.name, h.params, h.siblings, f, g, hf, hg, hcode.mono hgrow⟩

/-- The file tables of two states. -/
def EmissionState.tables (s t : EmissionState) : FileTables := ⟨s.files, t.files⟩

/-- States of emission of the same code at another place. It may be known that their current files
have one name. -/
structure EmissionState.Moves (C : Value → Prop) (count : Nat) (known : Prop)
    (s t : EmissionState) : Prop where
  next : t.next = count + s.next
  file : known → (s.tables t).Named s.file t.file
  line : t.line = s.line
  filters : t.filters = s.filters
  macros : List.Forall₂ (MacroDecl.Moves C (s.tables t)) s.macros.toList t.macros.toList

namespace Emission

variable {α β γ δ : Type} {R : FileTables → α → β → Prop} {Q : FileTables → γ → δ → Prop}

/-- From states of emission at another place the second action succeeds if the first one does, and
their results are related in all tables that the tables may still grow to. -/
def Moves (C : Value → Prop) (count : Nat) (known : Prop) (R : FileTables → α → β → Prop)
    (x : Emission α) (y : Emission β) : Prop :=
  ∀ ⦃s t : EmissionState⦄, s.Moves C count known t → ∀ ⦃a : α⦄ ⦃s' : EmissionState⦄,
    x s = .ok (a, s') → ∃ b t', y t = .ok (b, t') ∧ s'.Moves C count known t' ∧
      (s.tables t).Grow (s'.tables t') ∧ ∀ w, (s'.tables t').Grow w → R w a b

/-- From states of emission at another place the second action emits the same code. -/
abbrev EmitsAlike (C : Value → Prop) (count : Nat) (known : Prop) (x y : Emission Fragment) :
    Prop :=
  Moves C count known (Fragment.Moves C count) x y

namespace Moves

/-- Returning. -/
theorem pure {a : α} {b : β} (h : ∀ w, R w a b) :
    Moves C count known R (pure a) (pure b) := by
  intro s t hst a' s' hx
  obtain ⟨rfl, rfl⟩ := pure_eq_ok.mp hx
  exact ⟨b, t, rfl, hst, .refl _, fun w _ => h w⟩

/-- One action after the other. What the first ones yield is related in the tables that the second
ones leave, so it is at hand once their results are compared. -/
theorem bind {x : Emission α} {y : Emission β} {f : α → Emission γ} {g : β → Emission δ}
    (hxy : Moves C count known R x y)
    (hfg : ∀ a b, (∃ w, R w a b) →
      Moves C count known (fun w c d => R w a b → Q w c d) (f a) (g b)) :
    Moves C count known Q (x >>= f) (y >>= g) := by
  intro s t hst c s' hx
  obtain ⟨a, u, hxs, hf⟩ := bind_eq_ok.mp hx
  obtain ⟨b, v, hyt, huv, hgrow, hab⟩ := hxy hst hxs
  obtain ⟨d, t', hg, hst', hgrow', hcd⟩ := hfg a b ⟨_, hab _ (.refl _)⟩ huv hf
  exact ⟨d, t', bind_eq_ok.mpr ⟨b, v, hyt, hg⟩, hst', hgrow.trans hgrow',
    fun w hw => hcd w hw (hab w (hgrow'.trans hw))⟩

/-- What fails has nothing to ask for. -/
theorem of_fails {x : Emission α} (h : ∀ s p, x s ≠ .ok p) (y : Emission β) :
    Moves C count known R x y :=
  fun s _ _ _ _ hx => absurd hx (h s _)

/-- A fault. -/
theorem fail (fault : Fault) (y : Emission β) :
    Moves C count known R (fail fault : Emission α) y :=
  of_fails (fun _ _ h => fail_eq_ok.mp h) y

/-- A fault that tells the line. -/
theorem failAt (faultAt : Nat → Fault) (y : Emission β) :
    Moves C count known R (do Emission.fail (faultAt (← currentLine)) : Emission α) y :=
  of_fails (fun _ _ h => absurd (bind_eq_ok.mp h) fun ⟨_, _, _, hfail⟩ => fail_eq_ok.mp hfail) y

/-- Asking for the next position. -/
theorem here : Moves C count known (fun _ n n' => n' = count + n) here here := by
  intro s t hst n s' hx
  obtain ⟨rfl, rfl⟩ := here_eq_ok.mp hx
  exact ⟨t.next, t, rfl, hst, .refl _, fun _ _ => hst.next⟩

/-- Setting the line. -/
theorem after_setLine {line : Nat} {x : Emission α} {y : Emission β}
    (h : Moves C count known R x y) :
    Moves C count known R (do setLine line; x) (do setLine line; y) := by
  intro s t hst a s' hx
  obtain ⟨⟨⟩, u, hline, hx⟩ := bind_eq_ok.mp hx
  obtain rfl := setLine_eq_ok.mp hline
  have hset : EmissionState.Moves C count known { s with line } { t with line } :=
    ⟨hst.next, hst.file, rfl, hst.filters, hst.macros⟩
  obtain ⟨b, t', hy, hrest⟩ := h hset hx
  exact ⟨b, t', bind_eq_ok.mpr ⟨(), _, rfl, hy⟩, hrest⟩

/-- Noting the use of an added tag. -/
theorem noted {note : Bool} {name : String} {x : Emission α} {y : Emission β}
    (h : Moves C count known R x y) :
    Moves C count known R (if note = true then useTag name >>= fun _ => x else x)
      (if note = true then useTag name >>= fun _ => y else y) := by
  split
  · intro s t hst a s' hx
    obtain ⟨⟨⟩, u, hnote, hx⟩ := bind_eq_ok.mp hx
    obtain rfl := useTag_eq_ok.mp hnote
    have hnoted : EmissionState.Moves C count known { s with tags := insertSorted name s.tags }
        { t with tags := insertSorted name t.tags } :=
      ⟨hst.next, hst.file, hst.line, hst.filters, hst.macros⟩
    obtain ⟨b, t', hy, hrest⟩ := h hnoted hx
    exact ⟨b, t', bind_eq_ok.mpr ⟨(), _, rfl, hy⟩, hrest⟩
  · exact h

/-- Placing errors. -/
theorem placed {line : Nat} {x : Emission α} {y : Emission β} (h : Moves C count known R x y) :
    Moves C count known R (placed line x) (placed line y) := by
  intro s t hst a s' hx
  obtain ⟨b, t', hy, hrest⟩ := h hst (placed_eq_ok.mp hx)
  exact ⟨b, t', placed_eq_ok.mpr hy, hrest⟩

/-- Leaving room for an instruction. -/
theorem reserve : Moves C count True (fun w place place' => ∀ i : Instruction, i.Loads C →
    (place i).Moves C count w (place' (i.shifted count))) reserve reserve := by
  intro s t hst place s' hx
  obtain ⟨rfl, rfl⟩ := reserve_eq_ok.mp hx
  have hnext : t.next + 1 = count + (s.next + 1) := by rw [hst.next, Nat.add_assoc]
  refine ⟨_, _, rfl, ⟨hnext, hst.file, hst.line, hst.filters, hst.macros⟩, .refl _,
    fun w hw i hi => ⟨rfl, (hst.file trivial).mono hw, hst.line, hi⟩⟩

/-- Emitting an instruction. -/
theorem op (i : Instruction) (hi : i.Loads C) :
    EmitsAlike C count True (op i) (op (i.shifted count)) :=
  reserve.bind fun _ _ _ => pure fun _ hroom => .cons (hroom i hi) .nil

/-- Results that need no emission, and what is done with them. -/
theorem lift_bind {r r' : Result α} {f : α → Emission γ} {g : α → Emission δ}
    (h : ∀ a, r = .ok a → r' = .ok a ∧ Moves C count known Q (f a) (g a)) :
    Moves C count known Q (liftM r >>= f) (liftM r' >>= g) := by
  intro s t hst c s' hx
  obtain ⟨a, u, hlift, hf⟩ := bind_eq_ok.mp hx
  obtain ⟨hr, rfl⟩ := lift_eq_ok.mp hlift
  obtain ⟨hr', hfg⟩ := h a hr
  obtain ⟨d, t', hg, hrest⟩ := hfg hst hf
  exact ⟨d, t', bind_eq_ok.mpr ⟨a, t, lift_eq_ok.mpr ⟨hr', rfl⟩, hg⟩, hrest⟩

/-- Emitting with another current file, which is known then. -/
theorem inFile {name : String} {x : Emission α} {y : Emission β} (h : Moves C count True R x y) :
    Moves C count known R (inFile name x) (inFile name y) := by
  intro s t hst a s' hx
  obtain ⟨u, hinner, rfl⟩ := inFile_eq_ok.mp hx
  have hentered : (s.tables t).Grow ⟨(intern s.files name).2, (intern t.files name).2⟩ :=
    ⟨prefix_intern s.files name, prefix_intern t.files name⟩
  have hmoved : EmissionState.Moves C count True
      { s with file := (intern s.files name).1, files := (intern s.files name).2 }
      { t with file := (intern t.files name).1, files := (intern t.files name).2 } :=
    ⟨hst.next, fun _ => ⟨name, getElem?_intern s.files name, getElem?_intern t.files name⟩,
      hst.line, hst.filters, hst.macros.imp fun _ _ hdecl => hdecl.mono hentered⟩
  obtain ⟨b, v, hy, huv, hgrow, hab⟩ := h hmoved hinner
  have hgrown : (s.tables t).Grow (u.tables v) := hentered.trans hgrow
  exact ⟨b, _, inFile_eq_ok.mpr ⟨v, hy, rfl⟩,
    ⟨huv.next, fun hknown => (hst.file hknown).mono hgrown, huv.line, huv.filters, huv.macros⟩,
    hgrown, hab⟩

/-- Emitting the code of a macro, which starts from its own first position. -/
theorem macroCode {name : String} {params : List String} {x y : Emission Fragment}
    (h : EmitsAlike C 0 known x y) :
    Moves C count known (fun _ => Eq) (macroCode name params x) (macroCode name params y) := by
  intro s t hst id s' hx
  obtain ⟨code, u, hbody, rfl, rfl⟩ := macroCode_eq_ok.mp hx
  have hstart : EmissionState.Moves C 0 known { s with next := 0 } { t with next := 0 } :=
    ⟨rfl, hst.file, hst.line, hst.filters, hst.macros⟩
  obtain ⟨code', v, hy, huv, hgrow, hcode⟩ := h hstart hbody
  have hsize : u.macros.size = v.macros.size := by simpa using huv.macros.length_eq
  refine ⟨_, _, macroCode_eq_ok.mpr ⟨code', v, hy, rfl, rfl⟩,
    ⟨hst.next, huv.file, huv.line, huv.filters, ?_⟩, hgrow, fun _ _ => hsize⟩
  rw [Array.toList_push, Array.toList_push]
  exact List.rel_append huv.macros
    (.cons ⟨rfl, rfl, rfl, code, code', rfl, rfl, hcode _ (.refl _)⟩ .nil)

/-- Applying a filter. -/
theorem applyFilter (isFilter : String → Bool) (name : String) (args : Nat) :
    EmitsAlike C count True (applyFilter isFilter name args) (applyFilter isFilter name args) := by
  intro s t hst code s' hx
  obtain ⟨hfilter, rfl, rfl⟩ := applyFilter_eq_ok.mp hx
  have hnext : t.next + 1 = count + (s.next + 1) := by rw [hst.next, Nat.add_assoc]
  refine ⟨_, _, applyFilter_eq_ok.mpr ⟨hfilter, rfl, rfl⟩,
    ⟨hnext, hst.file, hst.line, ?_, hst.macros⟩, .refl _,
    fun w hw => .cons ⟨?_, (hst.file trivial).mono hw, hst.line, trivial⟩ .nil⟩
  · rw [hst.filters]
  · rw [hst.filters]
    rfl

end Moves

/-- An instruction that goes on to the next position is the same at another place. -/
theorem shifted_of_successors {i : Instruction} (h : ∀ pc, i.successors pc = [pc + 1]) :
    i.shifted count = i := by
  cases i with
  | jump target =>
    exact absurd (List.singleton_inj.mp (h target)) (Nat.ne_of_lt target.lt_succ_self)
  | iterate | jumpIfFalse | jumpIfFalseOrPop | jumpIfTrueOrPop =>
    exact absurd (congrArg List.length (h 0)) (by simp [Instruction.successors])
  | _ => rfl

/-- A jump on a condition is moved on at another place. -/
theorem shifted_conditional {jump : Nat → Instruction} (h : Instruction.IsConditional jump)
    (stop : Nat) : (jump stop).Loads C ∧ jump (count + stop) = (jump stop).shifted count := by
  cases h <;> exact ⟨trivial, rfl⟩

/-- Whatever code is put together, it is the same at another place if what it is put together of
is. -/
theorem moves_congruence (isFilter : String → Bool) :
    Congruence isFilter C (EmitsAlike C count True) where
  nothing := .pure fun _ => .nil
  andThen hx hy := hx.bind fun _ _ _ => hy.bind fun _ _ _ =>
    .pure fun _ hsecond hfirst => hfirst.append hsecond
  onLine _ hx := .after_setLine hx
  op {i} hgoes hi := by
    have hop : EmitsAlike C count True (Emission.op i) (Emission.op (i.shifted count)) :=
      Moves.op i hi
    rwa [shifted_of_successors hgoes] at hop
  applyFilter := Moves.applyFilter isFilter
  skipping hjump hx := by
    refine Moves.reserve.bind fun _ _ _ => hx.bind fun _ _ _ => ?_
    refine Moves.here.bind fun stop _ ⟨_, hstop⟩ => .pure fun _ _ hcode hroom => ?_
    obtain ⟨hloads, hshifted⟩ := shifted_conditional hjump stop
    rw [hstop, hshifted]
    exact .cons (hroom _ hloads) hcode
  choosing hx hy := by
    refine Moves.reserve.bind fun _ _ _ => hx.bind fun _ _ _ => Moves.reserve.bind fun _ _ _ => ?_
    refine Moves.here.bind fun onFalse _ ⟨_, honFalse⟩ => hy.bind fun _ _ _ => ?_
    refine Moves.here.bind fun stop _ ⟨_, hstop⟩ => .pure ?_
    subst honFalse hstop
    intro w _ hno _ hskip hyes htest
    exact (Fragment.Moves.cons (htest (.jumpIfFalse onFalse) trivial) hyes).append
      (.cons (hskip (.jump stop) trivial) hno)
  rounds hx := by
    refine Moves.here.bind fun start _ ⟨_, hstart⟩ => Moves.reserve.bind fun _ _ _ => ?_
    subst hstart
    refine hx.bind fun _ _ _ => (Moves.op (.jump start) trivial).bind fun _ _ _ => ?_
    refine Moves.here.bind fun stop _ ⟨_, hstop⟩ => .pure ?_
    subst hstop
    intro w _ hback hcode hiterate _
    exact (Fragment.Moves.cons (hiterate (.iterate stop) trivial) hcode).append hback
  badArguments _ := .failAt _ _

end Emission

end Templating
