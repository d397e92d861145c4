import Templating.Proofs.Emission.Lenient
import Templating.Proofs.Emission.Templates
import Templating.Proofs.Machine.Choices

/-!
# Runs of literal text and output points

Code that cannot fail and only leads forward runs to its end in fewer steps than it has instructions
left, whatever program it belongs to. The code of literal text and of output points writes the text
and the texts of the values, one after the other, and changes nothing else.
-/

namespace Templating

namespace Machine

/-- An instruction that cannot fail and refers to no table does the same in every program. -/
theorem exists_execute {i : Instruction} (hsafe : i.mayFail = false) (halone : i.RefersWithin 0 0)
    (m : Machine) : ∃ m', ∀ linked invoke code, m.execute linked invoke code i = .ok m' := by
  cases i with
  | add | sub | mul | div | rem | neg | applyFilter | call | iterate => cases hsafe
  | buildMacro id => exact absurd halone (Nat.not_lt_zero id)
  | popAutoEscape =>
    cases hmodes : m.modes with
    | nil => exact ⟨m.next, fun _ _ _ => by simp only [execute, hmodes]⟩
    | cons mode rest =>
      exact ⟨{ m with modes := rest, autoescape := mode }.next, fun _ _ _ => by
        simp only [execute, hmodes]⟩
  | _ => exact ⟨_, fun _ _ _ => rfl⟩

/-- Code that cannot fail and only leads forward runs to its end: each step leaves fewer instructions
ahead, so that a budget larger than their number is enough. -/
theorem exists_runCode {is : List Instruction} (h : Steady 0 is) (m : Machine) :
    ∃ m', ∀ linked invoke (code : Code) budget, code.instructions.toList = is →
      is.length - m.pc < budget → m.runCode linked invoke code budget = .ok m' := by
  induction hahead : is.length - m.pc using Nat.strongRecOn generalizing m with
  | _ ahead ih =>
    subst hahead
    cases hi : is[m.pc]? with
    | none =>
      refine ⟨m, fun linked invoke code budget hcode hbudget => ?_⟩
      obtain ⟨more, rfl⟩ := Nat.exists_eq_add_one.mpr (Nat.zero_lt_of_lt hbudget)
      have hfetch : m.fetch? code = none := by
        rw [fetch?, ← Array.getElem?_toList, hcode, hi]
      rw [runCode, hfetch]
    | some i =>
      obtain ⟨hsafe, halone, hforward⟩ := h hi
      obtain ⟨after, hafter⟩ := exists_execute hsafe halone m
      have hlt := (List.getElem?_eq_some_iff.mp hi).1
      have hpc : m.pc < after.pc := by
        have hlater := hforward after.pc
        rw [Nat.zero_add] at hlater
        exact hlater (pc_execute (hafter default (fun _ _ _ _ => .ok .undefined) default))
      obtain ⟨m', hm'⟩ := ih (is.length - after.pc) (by omega) after rfl
      refine ⟨m', fun linked invoke code budget hcode hbudget => ?_⟩
      obtain ⟨more, rfl⟩ := Nat.exists_eq_add_one.mpr (Nat.zero_lt_of_lt hbudget)
      have hfetch : m.fetch? code = some i := by
        rw [fetch?, ← Array.getElem?_toList, hcode, hi]
      have hadvance : m.advance linked invoke code i = .ok after := by
        simp only [advance, hafter]
      rw [runCode, hfetch]
      simp only [hadvance]
      exact hm' linked invoke code more hcode (by omega)

/-- The machine at another position, with texts written behind its output. -/
def wrote (m : Machine) (pc : Nat) (texts : List String) : Machine :=
  { m with pc, output := texts.foldl Output.write m.output }

end Machine

/-- Writing nothing changes nothing. -/
theorem Output.write_empty (o : Output) : o.write "" = o := by
  obtain ⟨text, captures⟩ := o
  cases captures <;> simp [Output.write]

/-- Outside of captures texts are written one behind the other. -/
theorem Output.foldl_write (texts : List String) (text : String) :
    texts.foldl Output.write ⟨text, []⟩ = ⟨texts.foldl (· ++ ·) text, []⟩ := by
  induction texts generalizing text with
  | nil => rfl
  | cons first rest ih => exact ih _

/-- What a node writes in a situation: literal text itself, an output point without filters the text
of the value of its expression. -/
inductive Node.Shows (sit : Expr.Situation) : Node → String → Prop
  | literal {text : String} {span : Span} : Shows sit (.literal text span) text
  | output {e : Expr} {v : Value} {span : Span} : e.eval sit = .ok v →
    Shows sit (.output e [] span) (Output.valueText v sit.place.autoescape)

/-- A lenient node always writes something. -/
theorem Node.exists_shows {n : Node} (h : n.isLenient = true) (sit : Expr.Situation) :
    ∃ text, n.Shows sit text := by
  cases n with
  | literal text span => exact ⟨text, .literal⟩
  | output e filters span =>
    simp only [isLenient, Bool.and_eq_true, List.isEmpty_iff] at h
    obtain ⟨h, rfl⟩ := h
    obtain ⟨v, hv⟩ : ∃ v, e.eval sit = .ok v := Expr.exists_eval h
    exact ⟨_, .output hv⟩
  | tag name args body branches span => cases h

/-- Lenient nodes always write something. -/
theorem Node.exists_forall₂_shows {ns : List Node} (h : ∀ n ∈ ns, n.isLenient = true)
    (sit : Expr.Situation) : ∃ texts, List.Forall₂ (Node.Shows sit) ns texts := by
  induction ns with
  | nil => exact ⟨[], .nil⟩
  | cons n rest ih =>
    obtain ⟨hn, hrest⟩ := List.forall_mem_cons.mp h
    obtain ⟨text, hshows⟩ := Node.exists_shows hn sit
    obtain ⟨texts, htexts⟩ := ih hrest
    exact ⟨text :: texts, .cons hshows htexts⟩

namespace Emission

open Machine (Setting)

variable {setting : Setting} {sit : Expr.Situation} {E : Elsewhere} {env : Surroundings}
  {m : Machine} {s t : EmissionState} {code : Fragment}

/-- The code of a node writes what the node shows. -/
theorem node_wrote {n : Node} {text : String} (hfits : n.Fits) (hshows : n.Shows sit text)
    (h : node E env n s = .ok (code, t)) (hserves : Serves setting m sit t)
    (hcarries : setting.code.Carries s.next code) :
    setting.Reaches s.next t.next (m.wrote s.next []) (m.wrote t.next [text]) := by
  cases hshows with
  | literal =>
    simp only [node, bind_eq_ok, setLine_eq_ok] at h
    obtain ⟨_, _, rfl, h⟩ := h
    by_cases hempty : text = ""
    · rw [if_pos hempty] at h
      obtain ⟨rfl, rfl⟩ := pure_eq_ok.mp h
      rw [hempty, Machine.wrote, Machine.wrote, List.foldl_cons, Output.write_empty]
      exact .refl
    · rw [if_neg hempty] at h
      obtain ⟨rfl, rfl⟩ := op_eq_ok.mp h
      exact .step hcarries.head.1 rfl rfl (Nat.le_refl _) (Nat.lt_succ_self _)
  | @output e v span hv =>
    simp only [node, output, filterChain, bind_eq_ok, setLine_eq_ok, placed_eq_ok, pure_eq_ok,
      op_eq_ok] at h
    obtain ⟨_, _, rfl, first, u, hfirst, _, _, ⟨rfl, rfl⟩, _, _, ⟨rfl, rfl⟩, rfl, rfl⟩ := h
    rw [List.append_nil] at hcarries
    have hcovers : Covers _ _ _ first := expr_emits e hfirst
    obtain ⟨hfirstAt, hemit⟩ := hcovers.carries hcarries
    have hvalue : setting.Delivers s.next u.next (m.moved s.next m.stack)
        ((e.eval sit).map fun v => m.moved u.next (v :: m.stack)) :=
      expr_delivers (s := { s with line := span.start.line }) hfits.1 hfirst
        (hserves.of_begins List.prefix_rfl rfl) hfirstAt
    rw [hv] at hvalue
    have hwrite : setting.Reaches s.next (u.next + 1) (m.moved u.next (v :: m.stack))
        (m.wrote (u.next + 1) [Output.valueText v sit.place.autoescape]) := by
      rw [← hserves.mode]
      exact .step hemit.head.1 rfl rfl hcovers.next_le (Nat.lt_succ_self _)
    exact (Setting.Reaches.mono hvalue (Nat.le_refl _) (Nat.le_succ _)).trans hwrite

/-- The code of the nodes of a file writes what they show, one after the other. -/
theorem nodesOf_wrote {registry : Registry} {p : Program} {depth : Nat} {file : String}
    {ns : List Node} {texts : List String} (hlink : p.link registry = .ok setting.linked)
    (hfits : ∀ n ∈ ns, n.Fits)
    (hshows : List.Forall₂
      (Node.Shows ⟨registry.filter?, ⟨file, m.autoescape⟩, setting.invoke, m.frames⟩) ns texts)
    (h : nodesOf (atDepth (depth + 1)) env (ns.map fun n => (file, n)) s = .ok (code, t))
    (hfilters : t.filters.toList <+: p.filters.toList)
    (hfiles : t.files.toList <+: p.files.toList)
    (hcarries : setting.code.Carries s.next code) :
    setting.Reaches s.next t.next (m.wrote s.next []) (m.wrote t.next texts) := by
  generalize hmode : m.autoescape = mode at hshows
  generalize hframes : m.frames = frames at hshows
  induction hshows generalizing s m code with
  | nil =>
    obtain ⟨rfl, rfl⟩ := pure_eq_ok.mp h
    exact .refl
  | @cons n text ns texts hn _ ih =>
    obtain ⟨hfits, hfitsRest⟩ := List.forall_mem_cons.mp hfits
    simp only [List.map_cons, nodesOf, bind_eq_ok, inFile_eq_ok, pure_eq_ok] at h
    obtain ⟨first, _, ⟨u, hfirst, rfl⟩, rest, v, hrest, rfl, rfl⟩ := h
    have hcovers : Covers _ _ u first := atDepth_emits (depth + 1) env [n] hfirst
    have hcoversRest := nodesOf_emits (atDepth_emits (depth + 1)) env _ hrest
    obtain ⟨hfirstAt, hrestAt⟩ := hcovers.carries hcarries
    subst hmode hframes
    -- the node is emitted with its file as the current one
    have hfile : p.files[u.file]? = some file := by
      rw [hcovers.file]
      exact getElem?_of_prefix_toList ((hcovers.files.trans hcoversRest.files).trans hfiles)
        (getElem?_intern s.files file)
    have hserves : Serves setting m _ u :=
      serves_of_link hlink (hcoversRest.filters.trans hfilters) hfile
    have hwrote := node_wrote hfits hn (nodes_singleton_eq_ok.mp hfirst) hserves hfirstAt
    have hrestWrote := ih (m := m.wrote u.next [text]) hfitsRest hrest hrestAt rfl rfl
    exact (hwrote.mono (Nat.le_refl _) hcoversRest.next_le).trans
      (Setting.Reaches.mono hrestWrote hcovers.next_le (Nat.le_refl _))

/-- A run of the code of the nodes of a file comes to its end when what they show is written. -/
theorem nodesOf_runCode {registry : Registry} {p : Program} {linked : LinkedProgram}
    {invoke : Invocation} {depth : Nat} {file : String} {ns : List Node} {texts : List String}
    (hlink : p.link registry = .ok linked) (hfits : ∀ n ∈ ns, n.Fits)
    (hshows : List.Forall₂
      (Node.Shows ⟨registry.filter?, ⟨file, m.autoescape⟩, invoke, m.frames⟩) ns texts)
    (h : nodesOf (atDepth (depth + 1)) env (ns.map fun n => (file, n)) s = .ok (code, t))
    (hfilters : t.filters.toList <+: p.filters.toList)
    (hfiles : t.files.toList <+: p.files.toList) (hs : s.next = 0) (hm : m.pc = 0) :
    ∃ least, ∀ budget, least < budget →
      m.runCode linked invoke (Code.ofFragment code) budget = .ok (m.wrote t.next texts) := by
  let setting : Setting := ⟨linked, invoke, Code.ofFragment code⟩
  have hcarries : setting.code.Carries s.next code := hs ▸ Code.carries_ofFragment code
  have hwrote : setting.Reaches s.next t.next (m.wrote s.next []) (m.wrote t.next texts) :=
    nodesOf_wrote hlink hfits hshows h hfilters hfiles hcarries
  have hstart : m.wrote s.next [] = m := by rw [hs, ← hm]; rfl
  rw [hstart] at hwrote
  refine hwrote.runCode_ok ?_
  have hcovers : Covers _ s t code := nodesOf_emits (atDepth_emits (depth + 1)) env _ h
  rw [Machine.fetch?, ← Array.getElem?_toList, (Code.ofFragment_describes code).1]
  simp [Machine.wrote, hcovers.next, hs]

end Emission

end Templating
