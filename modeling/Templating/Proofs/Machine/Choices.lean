import Templating.Proofs.Emission.Layout
import Templating.Proofs.Emission.Supplied
import Templating.Proofs.Machine.ExpressionCode
import Templating.Proofs.Machine.Lockstep

/-!
# A condition runs one of its branches

The code of an `if` tag evaluates conditions in order, up to the first one that is true, runs the
body of that condition, or that of the `else` branch if none was true, and goes on right behind the
tag. The bodies may hold any nodes: all that is known of their code is that it can only be left at
its end.
-/

namespace Templating

open Machine (Setting)

/-- The code between two positions is what an action emits, and a run through it can only leave it
at its end. -/
structure Machine.Setting.Holds (setting : Setting) (x : Emission Fragment) (first last : Nat) :
    Prop where
  emitted : ∃ s code t, x s = .ok (code, t) ∧ s.next = first ∧ t.next = last ∧
    setting.code.Carries first code
  confined : ∀ {m m' : Machine}, setting.Steps first last m m' → first ≤ m'.pc ∧ m'.pc ≤ last

/-- One jump leads a machine to its target, with all else as it was. -/
theorem Machine.Setting.Reaches.jump {setting : Setting} {pc target last : Nat} {m : Machine}
    (hjump : setting.code.instructions[pc]? = some (.jump target)) (hpc : m.pc = pc)
    (hlast : pc < last) : setting.Reaches pc last m (m.moved target m.stack) :=
  .step hjump hpc rfl (Nat.le_refl _) hlast

/-- What is run if a condition is true, or in any case if there is no condition. -/
structure Arm where
  condition? : Option Expr
  body : List Node

namespace Arm

/-- What may be run of a condition with branches. -/
def all (args : List TagArg) (body : List Node) (branches : List Branch) : List Arm :=
  ⟨args.head?.bind TagArg.asExpr?, body⟩ :: branches.map fun b => ⟨b.condition?, b.body⟩

/-- The number of the first arm whose condition is true or that has none. The conditions up to that
one are evaluated. -/
def choose (env : Expr.Situation) : List Arm → Result (Option Nat)
  | [] => .ok none
  | arm :: rest =>
    match arm.condition? with
    | none => .ok (some 0)
    | some c => c.eval env >>= fun v =>
      if v.isTrue then .ok (some 0) else (choose env rest).map fun k? => k?.map (· + 1)

end Arm

namespace Emission

variable {setting : Setting} {sit : Expr.Situation} {E : Elsewhere} {env : Surroundings}
  {m : Machine} {stack : List Value} {s t u : EmissionState} {code : Fragment} {low : Nat}

/-- The code from a position on runs some arms one after the other. First comes the condition of an
arm, if it has one. If it is true, or if there is none, its body is next; otherwise the next arm is.
Whatever a machine holds at the end of the body, it goes on behind all the arms. -/
def RunsArms (setting : Setting) (sit : Expr.Situation) (E : Elsewhere) (env : Surroundings)
    (m : Machine) (stack : List Value) (last : Nat) : Nat → List Arm → Prop
  | entry, [] => entry = last
  | entry, arm :: rest => ∃ start stop next,
    entry ≤ start ∧ start ≤ stop ∧ stop ≤ next ∧ next ≤ last ∧
    (match arm.condition? with
      | none => start = entry
      | some c => setting.Delivers entry start (m.moved entry stack)
          ((c.eval sit).map fun v => m.moved (if v.isTrue then start else next) stack)) ∧
    setting.Holds (nodes E env arm.body) start stop ∧
    (∀ m', m'.pc = stop → setting.Reaches stop last m' (m'.moved last m'.stack)) ∧
    RunsArms setting sit E env m stack last next rest

/-- A run of some arms of which one was chosen gets to the body of that arm. Where the body ends, the
run goes on behind all the arms; where the body stops with an error, the run does. If no arm was
chosen, the run just gets behind all the arms; if a condition failed, the run fails so. -/
def RunsChosen (setting : Setting) (E : Elsewhere) (env : Surroundings) (arms : List Arm)
    (m : Machine) (stack : List Value) (entry last : Nat) : Result (Option Nat) → Prop
  | .error e => setting.Fails entry last (m.moved entry stack) e
  | .ok none => setting.Reaches entry last (m.moved entry stack) (m.moved last stack)
  | .ok (some k) => ∃ arm start stop, arms[k]? = some arm ∧ entry ≤ start ∧ stop ≤ last ∧
    setting.Holds (nodes E env arm.body) start stop ∧
    setting.Reaches entry start (m.moved entry stack) (m.moved start stack) ∧
    (∀ m', setting.Reaches start stop (m.moved start stack) m' → m'.pc = stop →
      setting.Reaches entry last (m.moved entry stack) (m'.moved last m'.stack)) ∧
    ∀ e, setting.Stops start stop (m.moved start stack) e →
      setting.Stops entry last (m.moved entry stack) e

/-- What agrees with larger tables agrees. -/
theorem Serves.of_begins (h : Serves setting m sit t)
    (hfilters : s.filters.toList <+: t.filters.toList) (hfile : t.file = s.file) :
    Serves setting m sit s where
  filters := by
    intro i name hname
    obtain ⟨more, hmore⟩ := hfilters
    rw [← Array.getElem?_toList] at hname
    refine h.filters (i := i) ?_
    rw [← Array.getElem?_toList, ← hmore,
      List.getElem?_append_left (List.getElem?_eq_some_iff.mp hname).1, hname]
  file := hfile ▸ h.file
  mode := h.mode
  frames := h.frames
  invoke := h.invoke

/-- Code that covers the positions from its beginning to its end is left only there. -/
theorem Covers.holds {x : Emission Fragment} (h : Covers s.next s t code)
    (hx : x s = .ok (code, t)) (hcarries : setting.code.Carries s.next code) :
    setting.Holds x s.next t.next where
  emitted := ⟨s, code, t, hx, rfl, rfl, hcarries⟩
  confined := by
    intro m m' hstep
    obtain ⟨i, hi, hexecute⟩ := hstep.exists_execute
    obtain ⟨k, hk⟩ := Nat.exists_eq_add_of_le hstep.first_le
    have hlt : k < code.length := by
      have := hstep.lt_last
      have := h.next
      omega
    have hplaced := List.getElem?_eq_getElem hlt
    have hinstruction := (hcarries hplaced).1
    rw [← hk, hi] at hinstruction
    refine h.jumps hplaced m'.pc ?_
    rw [← Option.some.inj hinstruction, ← hk]
    exact Machine.pc_execute hexecute

/-- Code behind other code stands where that ends. -/
theorem Covers.carries {first second : Fragment} {c : Code} (h : Covers low s t first)
    (hcarries : c.Carries s.next (first ++ second)) :
    c.Carries s.next first ∧ c.Carries t.next second := by
  rw [h.next]
  exact hcarries.of_append

/-- The condition of an arm is followed by a jump to the next arm and by the body. -/
theorem runsArms_of_test {isFilter : String → Bool} {condition : Expr} {body : List Node}
    {rest : List Arm} {test : Fragment} {next last : Nat} (hfits : condition.Fits)
    (htest : expr isFilter condition s = .ok (test, t)) (hserves : Serves setting m sit t)
    (htestAt : setting.code.Carries s.next test)
    (hjump : setting.code.instructions[t.next]? = some (.jumpIfFalse next))
    (hbody : setting.Holds (nodes E env body) (t.next + 1) u.next)
    (hstop : t.next + 1 ≤ u.next) (hnext : u.next ≤ next) (hlast : next ≤ last)
    (hskip : ∀ m', m'.pc = u.next → setting.Reaches u.next last m' (m'.moved last m'.stack))
    (hrest : RunsArms setting sit E env m stack last next rest) :
    RunsArms setting sit E env m stack last s.next (⟨some condition, body⟩ :: rest) := by
  have hle : s.next ≤ t.next := (expr_emits condition htest).next_le
  have htested : setting.Delivers s.next (t.next + 1) (m.moved s.next stack)
      ((condition.eval sit).map fun v =>
        m.moved (if v.isTrue then t.next + 1 else next) stack) := by
    have hdelivers : setting.Delivers s.next t.next (m.moved s.next stack)
        ((condition.eval sit).map fun v => m.moved t.next (v :: stack)) :=
      expr_delivers hfits htest hserves htestAt
    cases hvalue : condition.eval sit with
    | error e =>
      rw [hvalue] at hdelivers
      exact hdelivers.mono (Nat.le_refl _) (Nat.le_succ _)
    | ok v =>
      rw [hvalue] at hdelivers
      have hstep := Setting.Delivers.single (m := m.moved t.next (v :: stack)) hjump
        (Machine.execute_jumpIfFalse next v)
      exact (hstep.mono hle (Nat.le_refl _)).after
        (Setting.Reaches.mono hdelivers (Nat.le_refl _) (Nat.le_succ _))
  exact ⟨t.next + 1, u.next, next, Nat.le_succ_of_le hle, hstop, hnext, hlast, htested, hbody,
    hskip, hrest⟩

/-- The code of branches runs them as arms, where it is entered; in front of it stands what leads
behind it. -/
theorem alternatives_run (hE : ∀ env ns, Emits (E env ns)) :
    ∀ {branches : List Branch} {s t : EmissionState} {code : Fragment} {entry : Nat},
      (∀ b ∈ branches, ∀ c ∈ b.condition?, c.Fits) →
      alternatives E env branches s = .ok ((code, entry), t) → Serves setting m sit t →
      setting.code.Carries s.next code →
        (∀ m', m'.pc = s.next → setting.Reaches s.next t.next m' (m'.moved t.next m'.stack)) ∧
        RunsArms setting sit E env m stack t.next entry
          (branches.map fun b => ⟨b.condition?, b.body⟩)
  | [], s, t, code, entry, _, h, _, _ => by
    simp only [alternatives, bind_eq_ok, here_eq_ok, pure_eq_ok] at h
    obtain ⟨_, _, ⟨rfl, rfl⟩, heq, rfl⟩ := h
    obtain ⟨rfl, rfl⟩ := Prod.mk.inj heq
    refine ⟨fun m' hpc => ?_, rfl⟩
    rw [← hpc]
    exact .refl
  | .mk label args body span :: rest, s, t, code, entry, hfits, h, hserves, hcarries => by
    obtain ⟨hfits, hrestFits⟩ := List.forall_mem_cons.mp hfits
    simp only [alternatives, bind_eq_ok, setLine_eq_ok, reserve_eq_ok, here_eq_ok] at h
    obtain ⟨_, _, rfl, _, _, ⟨rfl, rfl⟩, _, _, ⟨rfl, rfl⟩, h⟩ := h
    cases hcondition : args.head?.bind TagArg.asExpr? with
    | some condition =>
      simp only [hcondition, bind_eq_ok, reserve_eq_ok, here_eq_ok, pure_eq_ok] at h
      obtain ⟨test, u, htest, _, _, ⟨rfl, rfl⟩, yes, v, hyes, ⟨more, onFalse⟩, w, hmore, _, _,
        ⟨rfl, rfl⟩, heq, rfl⟩ := h
      obtain ⟨rfl, rfl⟩ := Prod.mk.inj heq
      have hskipped := hcarries.head.1
      rw [List.cons_append, List.cons_append] at hcarries
      obtain ⟨htestAt, hcarries⟩ := (expr_emits condition htest).carries
        (List.append_assoc _ _ _ ▸ hcarries.tail)
      have hjump := hcarries.head.1
      have hbody := nodes_emits hE env body hyes
      obtain ⟨hyesAt, hmoreAt⟩ := hbody.carries hcarries.tail
      obtain ⟨hcovers, hnext, hlast⟩ := alternatives_covers hE env hmore
      obtain ⟨hbehind, hrest⟩ := alternatives_run hE hrestFits hmore hserves hmoreAt
      have hserves := (hserves.of_begins hcovers.filters hcovers.file).of_begins (s := u)
        hbody.filters hbody.file
      have harm := runsArms_of_test (hfits condition hcondition) htest hserves htestAt hjump
        (hbody.holds hyes hyesAt) hbody.next_le hnext hlast hbehind hrest
      refine ⟨fun m' hpc => Setting.Reaches.jump hskipped hpc ?_, ?_⟩
      · have htestLe : s.next + 1 ≤ u.next := (expr_emits condition htest).next_le
        have hbodyLe : u.next + 1 ≤ v.next := hbody.next_le
        have := hcovers.next_le
        omega
      · rw [List.map_cons, show (Branch.mk label args body span).condition? = _ from hcondition]
        exact harm
    | none =>
      simp only [hcondition, bind_eq_ok, here_eq_ok, pure_eq_ok] at h
      obtain ⟨yes, u, hyes, ⟨more, onFalse⟩, v, hmore, _, _, ⟨rfl, rfl⟩, heq, rfl⟩ := h
      obtain ⟨rfl, rfl⟩ := Prod.mk.inj heq
      have hskipped := hcarries.head.1
      have hbody := nodes_emits hE env body hyes
      obtain ⟨hyesAt, hmoreAt⟩ := hbody.carries hcarries.tail
      obtain ⟨hcovers, hnext, hlast⟩ := alternatives_covers hE env hmore
      obtain ⟨hbehind, hrest⟩ := alternatives_run hE hrestFits hmore hserves hmoreAt
      have hbodyLe : s.next + 1 ≤ u.next := hbody.next_le
      refine ⟨fun m' hpc => Setting.Reaches.jump hskipped hpc ?_, ?_⟩
      · have := hcovers.next_le
        omega
      · rw [List.map_cons, show (Branch.mk label args body span).condition? = _ from hcondition]
        exact ⟨s.next + 1, u.next, onFalse, Nat.le_refl _, hbodyLe, hnext, hlast, rfl,
          hbody.holds hyes hyesAt, hbehind, hrest⟩

section Chosen

variable {arm : Arm} {rest : List Arm} {entry start stop next last : Nat}

/-- The first arm is chosen. -/
theorem RunsChosen.first (hstart : entry ≤ start) (hle : start ≤ stop) (hstop : stop ≤ last)
    (hbody : setting.Holds (nodes E env arm.body) start stop)
    (hskip : ∀ m', m'.pc = stop → setting.Reaches stop last m' (m'.moved last m'.stack))
    (hreaches : setting.Reaches entry start (m.moved entry stack) (m.moved start stack)) :
    RunsChosen setting E env (arm :: rest) m stack entry last (.ok (some 0)) := by
  have hlast := Nat.le_trans hle hstop
  have hstartLast {m' : Machine} (h : setting.Reaches start stop (m.moved start stack) m') :
      setting.Reaches entry last (m.moved entry stack) m' :=
    (hreaches.mono (Nat.le_refl _) hlast).trans (h.mono hstart hstop)
  refine ⟨arm, start, stop, rfl, hstart, hstop, hbody, hreaches, fun m' hrun hpc => ?_,
    fun e hstops => ?_⟩
  · exact (hstartLast hrun).trans ((hskip m' hpc).mono (Nat.le_trans hstart hle) (Nat.le_refl _))
  · exact (hstops.mono hstart hstop).after (hreaches.mono (Nat.le_refl _) hlast)

/-- The first arm is not chosen. -/
theorem RunsChosen.later {r : Result (Option Nat)} (hstart : entry ≤ next) (hlast : next ≤ last)
    (hreaches : setting.Reaches entry next (m.moved entry stack) (m.moved next stack))
    (h : RunsChosen setting E env rest m stack next last r) :
    RunsChosen setting E env (arm :: rest) m stack entry last
      (r.map fun k? => k?.map (· + 1)) := by
  have hnext := hreaches.mono (Nat.le_refl _) hlast
  cases r with
  | error e =>
    have hfails : setting.Delivers entry last (m.moved next stack) (.error e) :=
      Setting.Fails.mono h hstart (Nat.le_refl _)
    exact hfails.after hnext
  | ok k? =>
    cases k? with
    | none => exact hnext.trans (Setting.Reaches.mono h hstart (Nat.le_refl _))
    | some k =>
      obtain ⟨arm, start, stop, harm, hle, hstop, hbody, hchosen, hbehind, hstops⟩ := h
      refine ⟨arm, start, stop, harm, Nat.le_trans hstart hle, hstop, hbody, ?_,
        fun m' hrun hpc => ?_, fun e hrun => ?_⟩
      · exact (hreaches.mono (Nat.le_refl _) hle).trans (hchosen.mono hstart (Nat.le_refl _))
      · exact hnext.trans ((hbehind m' hrun hpc).mono hstart (Nat.le_refl _))
      · exact ((hstops e hrun).mono hstart (Nat.le_refl _)).after hnext

end Chosen

/-- Evaluating the conditions chooses what is run. -/
theorem RunsArms.chosen {last : Nat} : ∀ {arms : List Arm} {entry : Nat},
    RunsArms setting sit E env m stack last entry arms →
      RunsChosen setting E env arms m stack entry last (Arm.choose sit arms)
  | [], entry, h => by
    obtain rfl : entry = last := h
    exact .refl
  | ⟨condition?, body⟩ :: rest, entry, h => by
    obtain ⟨start, stop, next, hstart, hstop, hnext, hlast, htest, hbody, hskip, hrest⟩ := h
    have hstopLast := Nat.le_trans hnext hlast
    cases condition? with
    | none =>
      obtain rfl : start = entry := htest
      exact .first (Nat.le_refl _) hstop hstopLast hbody hskip .refl
    | some c =>
      have hnextStart := Nat.le_trans hstop hnext
      have hchoose : Arm.choose sit (⟨some c, body⟩ :: rest) = c.eval sit >>= fun v =>
          if v.isTrue then .ok (some 0) else (Arm.choose sit rest).map fun k? => k?.map (· + 1) :=
        rfl
      simp only at htest
      cases hvalue : c.eval sit with
      | error e =>
        rw [hchoose, hvalue]
        rw [hvalue] at htest
        exact Setting.Fails.mono htest (Nat.le_refl _) (Nat.le_trans hnextStart hlast)
      | ok v =>
        have hreaches : setting.Reaches entry start (m.moved entry stack)
            (m.moved (if v.isTrue then start else next) stack) := by
          rw [hvalue] at htest
          exact htest
        rw [hchoose, hvalue]
        change RunsChosen setting E env _ m stack entry last (if v.isTrue then _ else _)
        cases htrue : v.isTrue with
        | true =>
          rw [htrue] at hreaches
          exact .first hstart hstop hstopLast hbody hskip hreaches
        | false =>
          rw [htrue] at hreaches
          exact .later (Nat.le_trans hstart hnextStart) hlast
            (hreaches.mono (Nat.le_refl _) hnextStart) hrest.chosen

/-- A branch that follows an `else` branch is behind one. -/
theorem exists_behindElse? {front back : List Branch} {other b : Branch}
    (hother : other.label = "else") :
    ∃ late, behindElse? (front ++ other :: b :: back) = some late := by
  induction front with
  | nil => exact ⟨b, by simp [behindElse?, hother]⟩
  | cons first front ih =>
    by_cases hlabel : first.label = "else"
    · cases front with
      | nil => exact ⟨other, by simp [behindElse?, hlabel]⟩
      | cons second front => exact ⟨second, by simp [behindElse?, hlabel]⟩
    · simpa [behindElse?, hlabel] using ih

/-- The code of an `if` tag runs its arms. -/
theorem cond_run {name : String} {args : List TagArg} {body : List Node} {branches : List Branch}
    {span : Span} (hE : ∀ env ns, Emits (E env ns))
    (htag : env.registry.tag? name = some (.builtin .cond))
    (hfits : ∀ arm ∈ Arm.all args body branches, ∀ c ∈ arm.condition?, c.Fits)
    (h : node E env (.tag name args body branches span) s = .ok (code, t))
    (hserves : Serves setting m sit t) (hcarries : setting.code.Carries s.next code) :
    RunsArms setting sit E env m stack t.next s.next (Arm.all args body branches) := by
  obtain ⟨tag, tags, hbuiltin, hcode⟩ := exists_tagCode h fun tag => by simp [htag]
  obtain rfl : .cond = tag := by simpa [htag] using hbuiltin
  cases hcode with
  | @cond _ _ u v test yes rest condition onFalse _ hcondition htest hyes hrest =>
    obtain ⟨hfits, hrestFits⟩ := List.forall_mem_cons.mp hfits
    rw [List.append_assoc] at hcarries
    obtain ⟨htestAt, hcarries⟩ := (expr_emits condition htest).carries hcarries
    have hbody := nodes_emits hE env body hyes
    obtain ⟨hyesAt, hmoreAt⟩ := hbody.carries hcarries.tail
    obtain ⟨hcovers, hnext, hlast⟩ := alternatives_covers hE env hrest
    obtain ⟨hbehind, hrest⟩ := alternatives_run hE
      (fun b hb => hrestFits _ (List.mem_map_of_mem hb)) hrest hserves hmoreAt
    have hserves := (hserves.of_begins hcovers.filters hcovers.file).of_begins (s := u)
      hbody.filters hbody.file
    have harm := runsArms_of_test (hfits condition hcondition) htest hserves htestAt
      hcarries.head.1 (hbody.holds hyes hyesAt) hbody.next_le hnext hlast hbehind hrest
    rw [Arm.all, hcondition]
    exact harm

/-- Wherever the code of an `if` tag was emitted, and whatever the machine holds when it gets there,
the conditions are evaluated in order up to the first one that is true. Its body is run, or that of
the `else` branch if none was true, and then the code behind the tag; a condition or a body that
fails ends the run with its error. With a branch behind an `else` branch, no code is emitted. -/
theorem cond_run_eq_choose {registry : Registry} {name : String} {args : List TagArg}
    {body : List Node} {branches : List Branch} {span : Span}
    (htag : registry.tag? name = some (.builtin .cond)) :
    (∀ {p : Program} {linked : LinkedProgram} {template : String} {depth : Nat}
        {env : Surroundings} {s t : EmissionState} {code : Fragment},
      p.link registry = .ok linked → env.registry = registry →
      (∀ arm ∈ Arm.all args body branches, ∀ c ∈ arm.condition?, c.Fits) →
      node (atDepth depth) env (.tag name args body branches span) s = .ok (code, t) →
      t.filters.toList <+: p.filters.toList → p.files[s.file]? = some template →
      ∀ (before after : Fragment), before.length = s.next →
      ∀ (invoke : Invocation) (m : Machine) (stack : List Value),
        let setting : Setting := ⟨linked, invoke, Code.ofFragment (before ++ code ++ after)⟩
        let sit : Expr.Situation := ⟨registry.filter?, ⟨template, m.autoescape⟩, invoke, m.frames⟩
        let arms := Arm.all args body branches
        RunsArms setting sit (atDepth depth) env m stack (s.next + code.length) s.next arms ∧
          RunsChosen setting (atDepth depth) env arms m stack s.next (s.next + code.length)
            (Arm.choose sit arms)) ∧
    ∀ (E : Elsewhere) (env : Surroundings) (s : EmissionState) (front back : List Branch)
      (other b : Branch), env.registry = registry → branches = front ++ other :: b :: back →
        other.label = "else" →
          ∃ e, node E env (.tag name args body branches span) s = .error e ∧
            e.kind = .compileError := by
  refine ⟨?_, ?_⟩
  · intro p linked template depth env s t code hlinked henv hfits hcode hfilters hfile before after
      hbefore invoke m stack setting sit arms
    have hcovers : Covers s.next s t code := node_emits (atDepth_emits depth) env _ hcode
    have hserves : Serves setting m sit t :=
      serves_of_link hlinked hfilters (hcovers.file ▸ hfile)
    have hcarries : setting.code.Carries s.next code :=
      hbefore ▸ Code.ofFragment_carries before code after
    rw [← hcovers.next]
    have hruns : RunsArms setting sit (atDepth depth) env m stack t.next s.next arms :=
      cond_run (atDepth_emits depth) (henv ▸ htag) hfits hcode hserves hcarries
    exact ⟨hruns, hruns.chosen⟩
  · rintro E env s front back other b rfl rfl hother
    obtain ⟨late, hlate⟩ : ∃ late, behindElse? (front ++ other :: b :: back) = some late :=
      exists_behindElse? hother
    have hrejection : (Node.tag name args body (front ++ other :: b :: back) span).rejection?
        env.registry = some (.labelAfterElse late.label late.line) := by
      simp [Node.rejection?, htag, hlate]
    exact ⟨_, node_of_rejection? hrejection s, Error.kind_locate _ _ _⟩

/-- The code of an `if` tag with an `elseif` and an `else` branch, whose first condition is false
and whose second one is true: the run gets to the text of the second one. With the `else` branch in
front of the `elseif` branch there is no code. -/
theorem cond_run_eq_choose_of_second :
    let registry : Registry :=
      { filters := [], tags := [("if", .builtin .cond)], builtinTags := ["if"] }
    let env : Surroundings :=
      { registry, set := ⟨⟨"t", []⟩, []⟩, resolved := ⟨[], []⟩ }
    let body : List Node := [.literal "x" {}]
    let second : Branch := .mk "elseif" [.expr (.var "b" {})] [.literal "y" {}] {}
    let other : Branch := .mk "else" [] [.literal "z" {}] {}
    let args : List TagArg := [.expr (.var "a" {})]
    let code : Fragment :=
      [⟨.lookup "a", 0, 0⟩, ⟨.jumpIfFalse 4, 0, 0⟩, ⟨.emitRaw "x", 0, 0⟩, ⟨.jump 9, 0, 0⟩,
        ⟨.lookup "b", 0, 0⟩, ⟨.jumpIfFalse 8, 0, 0⟩, ⟨.emitRaw "y", 0, 0⟩, ⟨.jump 9, 0, 0⟩,
        ⟨.emitRaw "z", 0, 0⟩]
    let p : Program := { name := "t", autoescape := true, files := #["t"] }
    let m : Machine := { frames := [{ locals := [("b", .bool true)] }], autoescape := true }
    node (atDepth 0) env (.tag "if" args body [second, other] {}) { files := #["t"] } =
        .ok (code, { next := 9, line := 0, files := #["t"] }) ∧
      (∀ invoke, RunsChosen ⟨⟨p, #[]⟩, invoke, Code.ofFragment ([] ++ code ++ [])⟩ (atDepth 0) env
        (Arm.all args body [second, other]) m [] 0 9 (.ok (some 1))) ∧
      ∃ e, node (atDepth 0) env (.tag "if" args body ([] ++ other :: second :: []) {}) {} =
        .error e ∧ e.kind = .compileError := by
  intro registry env body second other args code p m
  have hcode : node (atDepth 0) env (.tag "if" args body [second, other] {}) { files := #["t"] } =
      .ok (code, { next := 9, line := 0, files := #["t"] }) := by
    simp [-bind_pure_comp, node, nodes, alternatives, behindElse?, expr, registry, env, body,
      second, other, args, code, TagArg.asExpr?, bind_eq_ok, setLine_eq_ok, op_eq_ok, pure_eq_ok,
      here_eq_ok, reserve_eq_ok, placed_eq_ok, Registry.tag?, Registry.find?, Registry.isCustomTag,
      Branch.label]
  have hfits : ∀ arm ∈ Arm.all args body [second, other], ∀ c ∈ arm.condition?, c.Fits := by
    simp [Arm.all, args, second, other, TagArg.asExpr?, Branch.condition?, Branch.args, Expr.Fits]
  have htag : registry.tag? "if" = some (.builtin .cond) := rfl
  have hlink : p.link registry = .ok ⟨p, #[]⟩ := by
    simp only [Program.link, p, Array.mapM_empty]
    rfl
  have hchoose (invoke : Invocation) : Arm.choose ⟨registry.filter?, ⟨"t", true⟩, invoke, m.frames⟩
      (Arm.all args body [second, other]) = .ok (some 1) := rfl
  refine ⟨hcode, fun invoke => ?_, ?_⟩
  · have hruns := (cond_run_eq_choose htag).1 hlink rfl hfits hcode List.prefix_rfl rfl [] [] rfl
      invoke m []
    exact hchoose invoke ▸ hruns.2
  · exact (cond_run_eq_choose htag).2 (atDepth 0) env {} [] [] other second rfl rfl rfl

end Emission

end Templating
