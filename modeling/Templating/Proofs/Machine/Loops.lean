import Templating.Proofs.Machine.Choices
import Templating.Proofs.Machine.Scopes
import Templating.Proofs.Emission.ScopedTemplates

/-!
# A loop visits every pair once

The code of a `for` tag runs its body once for each pair of the value it loops over, in order, and
its `else` branch if there is no pair. The position of the loop is kept in the frame that the loop
pushed. Whatever the body does, loops inside of it included, it changes nothing about that frame but
variables, so that each round finds the loop where the round before left it.
-/

namespace Templating

open Machine (Setting)

namespace Machine

/-- The code of a stretch leaves frames alone: those that a machine came with are there as long as
it is in the stretch, with nothing changed but variables of the innermost one, and behind the
stretch there are no others. -/
def Setting.KeepsFrames (setting : Setting) (first last : Nat) : Prop :=
  ∀ {m m' : Machine}, m.pc = first → m.frames ≠ [] → setting.Reaches first last m m' →
    (∃ own fs, m'.frames = own ++ fs ∧ m.frames.Stores fs) ∧
      (m'.pc = last → m.frames.Stores m'.frames)

end Machine

/-- A loop in some code: the names that it stores keys and values under, and the positions of the
iteration and of the end of the body. -/
structure LoopShape where
  key? : Option String
  value : String
  top : Nat
  stop : Nat

namespace LoopShape

/-- The body begins behind the iteration and the two instructions that take a key and a value. -/
def start (loop : LoopShape) : Nat := loop.top + 3

/-- The names are different from each other, and from that of the variable that tells the
position. -/
structure HasNames (loop : LoopShape) : Prop where
  value : loop.value ≠ "loop"
  key : ∀ key ∈ loop.key?, key ≠ loop.value ∧ key ≠ "loop"

/-- The frame of the loop with a pair stored in it. -/
def bind (loop : LoopShape) (f : Frame) (pair : Value × Value) : Frame :=
  match loop.key? with
  | some key => (f.store loop.value pair.2).store key pair.1
  | none => f.store loop.value pair.2

/-- The code of the loop around its body. -/
structure StandsIn (loop : LoopShape) (setting : Setting) : Prop where
  iterate : setting.code.instructions[loop.top]? = some (.iterate (loop.stop + 1))
  storeValue : setting.code.instructions[loop.top + 1]? = some (.storeLocal loop.value)
  storeKey : setting.code.instructions[loop.top + 2]? =
    some (loop.key?.elim .discardTop .storeLocal)
  back : setting.code.instructions[loop.stop]? = some (.jump loop.top)
  start_le : loop.start ≤ loop.stop

/-- What the variable `loop` holds in a round, counted from 0, of so many rounds. -/
def roundInfo (rounds k : Nat) (key : Value) : Value :=
  .map
    [("index", .ofNat (k + 1)), ("index0", .ofNat k), ("revindex", .ofNat (rounds - k)),
      ("revindex0", .ofNat (rounds - k - 1)), ("first", .bool (k == 0)),
      ("last", .bool (k + 1 == rounds)), ("length", .ofNat rounds), ("key", key)]

/-- A round over a pair of a value begins: the machine stands in front of the body in the frame of
the loop, and finds the pair and the position in variables. -/
structure Begins (loop : LoopShape) (below : Frames) (pairs : List (Value × Value)) (k : Nat)
    (pair : Value × Value) (b : Machine) : Prop where
  pc : b.pc = loop.start
  frames : ∃ f, b.frames = f :: below ∧
    f.loop? = some ⟨pairs.drop (k + 1), pairs.length, k + 1⟩
  value : Frames.load b.frames loop.value = pair.2
  key : ∀ key ∈ loop.key?, Frames.load b.frames key = pair.1
  info : Frames.load b.frames "loop" = roundInfo pairs.length k pair.1

/-- A machine goes through the rounds of a loop from one on: each begins with the next pair, and
takes the body to its end, from where one jump leads back to the next round. -/
inductive Rounds (loop : LoopShape) (setting : Setting) (below : Frames)
    (pairs : List (Value × Value)) : Nat → Machine → List (Value × Value) → Machine → Prop
  | done {k : Nat} {m : Machine} : Rounds loop setting below pairs k m [] m
  | round {k : Nat} {m b stopped m' : Machine} {pair : Value × Value}
      {rest : List (Value × Value)} :
    setting.Reaches loop.top loop.start m b → loop.Begins below pairs k pair b →
    setting.Reaches loop.start loop.stop b stopped → stopped.pc = loop.stop →
    setting.Reaches loop.stop (loop.stop + 1) stopped (stopped.moved loop.top stopped.stack) →
    Rounds loop setting below pairs (k + 1) (stopped.moved loop.top stopped.stack) rest m' →
      Rounds loop setting below pairs k m (pair :: rest) m'

variable {loop : LoopShape} {setting : Setting} {below : Frames} {pairs rest : List (Value × Value)}
  {pair : Value × Value} {k n : Nat} {m : Machine} {f : Frame}

/-- Storing a pair leaves the position of the loop as it is. -/
@[simp] theorem loop?_bind : (loop.bind f pair).loop? = f.loop? := by
  unfold bind
  split <;> rfl

/-- A pair that was stored is found, and so is the position. -/
theorem load_bind (hnames : loop.HasNames) {info : Value} :
    Frames.load (loop.bind (f.store "loop" info) pair :: below) loop.value = pair.2 ∧
      (∀ key ∈ loop.key?,
        Frames.load (loop.bind (f.store "loop" info) pair :: below) key = pair.1) ∧
      Frames.load (loop.bind (f.store "loop" info) pair :: below) "loop" = info := by
  have hvalue : "loop" ≠ loop.value := hnames.value.symm
  cases hkey : loop.key? with
  | none =>
    simp [bind, hkey, Frames.load, Frame.get?, Frame.store, Entries.get?_insert_self,
      Entries.get?_insert_of_ne, hvalue]
  | some key =>
    obtain ⟨hne, hloop⟩ := hnames.key key hkey
    simp [bind, hkey, Frames.load, Frame.get?, Frame.store, Entries.get?_insert_self,
      Entries.get?_insert_of_ne, hvalue, hne.symm, hloop.symm]

/-- The iteration gives the next pair to the body. -/
theorem StandsIn.begins (h : loop.StandsIn setting) (hnames : loop.HasNames) (hpc : m.pc = loop.top)
    (hframes : m.frames = f :: below)
    (hloop : f.loop? = some ⟨pair :: rest, pairs.length, k⟩) (hrest : pairs.drop (k + 1) = rest) :
    ∃ b, setting.Reaches loop.top loop.start m b ∧ loop.Begins below pairs k pair b := by
  -- the frame with the new position, and the machine behind the iteration
  let next : LoopState := ⟨rest, pairs.length, k + 1⟩
  let g := { f with loop? := some next }.store "loop" (roundInfo pairs.length k pair.1)
  let visited : Machine :=
    { m with pc := loop.top + 1, stack := pair.2 :: pair.1 :: m.stack, frames := g :: below }
  let stored : Machine :=
    { m with
      pc := loop.top + 2, stack := pair.1 :: m.stack, frames := g.store loop.value pair.2 :: below }
  let b : Machine := { m with pc := loop.start, frames := loop.bind g pair :: below }
  have hcurrent : Frames.currentLoop? m.frames = some ⟨pair :: rest, pairs.length, k⟩ := by
    simp [hframes, Frames.currentLoop?, hloop]
  have hset : Frames.setLoop m.frames next = { f with loop? := some next } :: below := by
    simp [hframes, Frames.setLoop, hloop]
  have hiterate : setting.Reaches loop.top loop.start m visited := by
    refine .step h.iterate hpc ?_ (Nat.le_refl _) (Nat.lt_add_of_pos_right (by decide))
    simp only [Machine.execute, Machine.iterate, hcurrent, LoopState.next?]
    rw [hset]
    simp only [visited, ← hpc]
    rfl
  have hstore : setting.Reaches loop.top loop.start visited stored :=
    .step h.storeValue rfl rfl (Nat.le_succ _) (Nat.lt_succ_of_lt (Nat.lt_succ_self _))
  have hkey : setting.Reaches loop.top loop.start stored b := by
    refine .step h.storeKey rfl ?_ (Nat.le_add_right _ _) (Nat.lt_succ_self _)
    cases hkey : loop.key? with
    | none => simp [b, bind, hkey, stored, Machine.execute, Machine.pop, Machine.next, start]
    | some key =>
      simp [b, bind, hkey, stored, Machine.execute, Machine.pop, Machine.next, start, Frames.store]
  have hposition : (bind loop g pair).loop? =
      some ⟨pairs.drop (k + 1), pairs.length, k + 1⟩ := by
    simp [g, next, hrest, Frame.store]
  obtain ⟨hvalue, hkeys, hinfo⟩ := load_bind hnames
  exact ⟨b, (hiterate.trans hstore).trans hkey, rfl, ⟨_, rfl, hposition⟩, hvalue, hkeys, hinfo⟩

/-- Without a further pair the iteration leads behind the loop. -/
theorem StandsIn.leaves (h : loop.StandsIn setting) (hpc : m.pc = loop.top)
    (hframes : m.frames = f :: below) (hloop : f.loop? = some ⟨[], n, k⟩) :
    setting.Reaches loop.top (loop.top + 1) m (m.goto (loop.stop + 1)) := by
  have hcurrent : Frames.currentLoop? m.frames = some ⟨[], n, k⟩ := by
    simp [hframes, Frames.currentLoop?, hloop]
  refine .step h.iterate hpc ?_ (Nat.le_refl _) (Nat.lt_succ_self _)
  simp only [Machine.execute, Machine.iterate, hcurrent, LoopState.next?]

/-- If no body run that begins is left unfinished, the machine goes through all rounds that are
left, and then stands in front of the iteration with no pair left. -/
theorem StandsIn.rounds {first last : Nat} {origin : Machine} (h : loop.StandsIn setting)
    (hnames : loop.HasNames) (hfirst : first ≤ loop.top) (hlast : loop.stop < last)
    (hkeeps : setting.KeepsFrames loop.start loop.stop)
    (hbody : ∀ k pair b, pairs[k]? = some pair → setting.Reaches first last origin b →
      loop.Begins below pairs k pair b →
        ∃ b', setting.Reaches loop.start loop.stop b b' ∧ b'.pc = loop.stop)
    (hrest : pairs.drop k = rest) (hk : k ≤ pairs.length)
    (hreaches : setting.Reaches first last origin m) (hpc : m.pc = loop.top)
    (hframes : m.frames = f :: below) (hloop : f.loop? = some ⟨rest, pairs.length, k⟩) :
    ∃ m' f', loop.Rounds setting below pairs k m rest m' ∧ m'.pc = loop.top ∧
      m'.frames = f' :: below ∧ f'.loop? = some ⟨[], pairs.length, pairs.length⟩ := by
  induction rest generalizing k m f with
  | nil =>
    obtain rfl : k = pairs.length := Nat.le_antisymm hk (List.drop_eq_nil_iff.mp hrest)
    exact ⟨m, f, .done, hpc, hframes, hloop⟩
  | cons pair rest ih =>
    have hpair : pairs[k]? = some pair := by
      rw [← Nat.add_zero k, ← List.getElem?_drop, hrest]
      rfl
    have hmore : pairs.drop (k + 1) = rest := by
      rw [← List.drop_drop, hrest]
      rfl
    have hstart : loop.top ≤ loop.start := Nat.le_add_right _ _
    have hstop := h.start_le
    obtain ⟨b, hbegin, hbegins⟩ := h.begins hnames hpc hframes hloop hmore
    have hreached := hreaches.trans (hbegin.mono hfirst (by omega))
    obtain ⟨stopped, hrun, hstopped⟩ := hbody k pair b hpair hreached hbegins
    obtain ⟨g, hg, hposition⟩ := hbegins.frames
    obtain ⟨_, _, locals, heq, hstores⟩ := (hkeeps hbegins.pc (by simp [hg]) hrun).2 hstopped
    obtain ⟨rfl, rfl⟩ := List.cons.inj (hg.symm.trans heq)
    have hback := Setting.Reaches.jump h.back hstopped (Nat.lt_succ_self _)
    have hagain := (hreached.trans (hrun.mono (by omega) (by omega))).trans
      (hback.mono (by omega) hlast)
    rw [hmore] at hposition
    obtain ⟨m', f', hrounds, hend⟩ := ih hmore (List.getElem?_eq_some_iff.mp hpair).1 hagain rfl
      hstores hposition
    exact ⟨m', f', .round hbegin hbegins hrun hstopped hback hrounds, hend⟩

end LoopShape

namespace Emission

variable {setting : Setting} {s t : EmissionState} {code : Fragment}

/-- The arguments of a loop over the value of an expression. -/
def loopArgs (key? : Option String) (value : String) (subject : Expr) : List TagArg :=
  key?.toList.map .ident ++ [.ident value, .expr subject]

/-- The code of a loop in front of its body, behind that of the value it loops over. -/
def loopFront (key? : Option String) (value : String) (file line stop : Nat) : Fragment :=
  [⟨.pushLoop, file, line⟩, ⟨.iterate (stop + 1), file, line⟩, ⟨.storeLocal value, file, line⟩,
    ⟨key?.elim .discardTop .storeLocal, file, line⟩]

/-- The code of a loop: the value, the front, the body and what is behind it. -/
inductive LoopCode (isFilter : String → Bool) (key? : Option String) (value : String)
    (subject : Expr) (body : Emission Fragment) (s : EmissionState) :
    Option (Emission Fragment) → Fragment → EmissionState → Prop
  | alone {u v : EmissionState} {first inner : Fragment} :
    expr isFilter subject s = .ok (first, u) →
    body { u with next := u.next + 4 } = .ok (inner, v) →
      LoopCode isFilter key? value subject body s none
        (first ++ (loopFront key? value u.file u.line v.next ++
          (inner ++ [⟨.jump (u.next + 1), v.file, v.line⟩, ⟨.popFrame, v.file, v.line⟩])))
        { v with next := v.next + 2 }
  | orElse {u v t : EmissionState} {first inner no : Fragment} {other : Emission Fragment} :
    expr isFilter subject s = .ok (first, u) →
    body { u with next := u.next + 4 } = .ok (inner, v) →
    other { v with next := v.next + 4 } = .ok (no, t) →
      LoopCode isFilter key? value subject body s (some other)
        (first ++ (loopFront key? value u.file u.line v.next ++
          (inner ++ ([⟨.jump (u.next + 1), v.file, v.line⟩, ⟨.pushDidNotIterate, v.file, v.line⟩,
            ⟨.popFrame, v.file, v.line⟩, ⟨.jumpIfFalse t.next, v.file, v.line⟩] ++ no))))
        t

/-- Code that was emitted for a loop is such code. -/
theorem loopCode_of_eq_ok {isFilter : String → Bool} {key? : Option String} {value : String}
    {subject : Expr} {body : Emission Fragment} {other? : Option (Emission Fragment)}
    (h : loop isFilter (loopArgs key? value subject) body other? s = .ok (code, t)) :
    LoopCode isFilter key? value subject body s other? code t := by
  have hlast : (loopArgs key? value subject).getLast? = some (.expr subject) := by
    cases key? <;> rfl
  have htargets : ∃ targets, loopTargets? (loopArgs key? value subject).dropLast = some targets ∧
      ∀ {u v : EmissionState} {stores : Fragment}, targets u = .ok (stores, v) →
        stores = [⟨.storeLocal value, u.file, u.line⟩,
          ⟨key?.elim .discardTop .storeLocal, u.file, u.line⟩] ∧
        v = { u with next := u.next + 2 } := by
    cases key? <;> refine ⟨_, rfl, fun {u v stores} h => ?_⟩ <;>
    · simp only [bind_eq_ok, op_eq_ok, pure_eq_ok] at h
      obtain ⟨_, _, ⟨rfl, rfl⟩, _, _, ⟨rfl, rfl⟩, rfl, rfl⟩ := h
      exact ⟨rfl, rfl⟩
  obtain ⟨targets, htargets, hstores⟩ := htargets
  simp only [loop, hlast, htargets, bind_eq_ok, here_eq_ok, reserve_eq_ok, op_eq_ok] at h
  obtain ⟨first, u, hfirst, _, _, ⟨rfl, rfl⟩, _, _, ⟨rfl, rfl⟩, _, _, ⟨rfl, rfl⟩, stores, w,
    htaken, inner, v, hinner, _, _, ⟨rfl, rfl⟩, _, _, ⟨rfl, rfl⟩, h⟩ := h
  obtain ⟨rfl, rfl⟩ := hstores htaken
  cases other? with
  | none =>
    simp only [bind_eq_ok, op_eq_ok, pure_eq_ok] at h
    obtain ⟨_, _, ⟨rfl, rfl⟩, rfl, rfl⟩ := h
    have hcode : LoopCode isFilter key? value subject body s none _ _ := .alone hfirst hinner
    simpa [loopFront] using hcode
  | some other =>
    simp only [bind_eq_ok, reserve_eq_ok, here_eq_ok, op_eq_ok, pure_eq_ok] at h
    obtain ⟨_, _, ⟨rfl, rfl⟩, _, _, ⟨rfl, rfl⟩, _, _, ⟨rfl, rfl⟩, no, z, hno, _, _, ⟨rfl, rfl⟩,
      rfl, rfl⟩ := h
    have hcode : LoopCode isFilter key? value subject body s (some other) _ _ :=
      .orElse hfirst hinner hno
    simpa [loopFront] using hcode

/-- Code that closes the scopes it opens leaves frames alone, wherever it stands. -/
theorem ClosesScopes.keepsFrames {x : Emission Fragment} (hx : ClosesScopes x)
    (h : x s = .ok (code, t)) (hcarries : setting.code.Carries s.next code) :
    setting.KeepsFrames s.next t.next := by
  have hnested := hx h []
  obtain ⟨hend, hrespects⟩ := hnested.scopes.respects hcarries.holds
    (List.nil_append (setting.code.scopes s.next)).symm
  rw [Fragment.length_instructions, ← hnested.next] at hend hrespects
  intro m m' hpc hframes hreaches
  obtain ⟨inner, own, fs, hscopes, hown, howns, hstores⟩ :=
    hreaches.over hrespects (by rw [hpc]) hframes
  refine ⟨⟨own, fs, hown, hstores⟩, fun hlast => ?_⟩
  rw [hlast, hend] at hscopes
  obtain rfl : [] = inner := List.append_cancel_right hscopes
  cases howns
  rwa [hown]

section Runs

variable {isFilter : String → Bool} {sit : Expr.Situation} {m : Machine} {stack : List Value}
  {key? : Option String} {value : String} {subject : Expr} {body : Emission Fragment}
  {u v : EmissionState} {first inner tail : Fragment} {file line file' line' : Nat}

/-- Wherever the code of a loop stands, its parts do. -/
theorem loopFront_standsIn (hfirst : expr isFilter subject s = .ok (first, u))
    (hinner : body { u with next := u.next + 4 } = .ok (inner, v)) (hbody : Emits body)
    (hcarries : setting.code.Carries s.next (first ++ (loopFront key? value file line v.next ++
      (inner ++ ⟨.jump (u.next + 1), file', line'⟩ :: tail)))) :
    LoopShape.StandsIn ⟨key?, value, u.next + 1, v.next⟩ setting ∧
      setting.Holds body (u.next + 4) v.next ∧ setting.code.Carries s.next first ∧
      setting.code.instructions[u.next]? = some .pushLoop ∧
      setting.code.Carries (u.next + 4) inner ∧ setting.code.Carries (v.next + 1) tail := by
  have hcovers := hbody hinner
  obtain ⟨hfirstAt, hcarries⟩ := (expr_emits subject hfirst).carries hcarries
  obtain ⟨hfront, hcarries⟩ := Code.Carries.of_append hcarries
  obtain ⟨hinnerAt, hback⟩ := hcovers.carries hcarries
  have hstands : LoopShape.StandsIn ⟨key?, value, u.next + 1, v.next⟩ setting :=
    ⟨(hfront (i := 1) rfl).1, (hfront (i := 2) rfl).1, (hfront (i := 3) rfl).1, hback.head.1,
      hcovers.next_le⟩
  exact ⟨hstands, hcovers.holds hinner hinnerAt, hfirstAt, (hfront (i := 0) rfl).1, hinnerAt,
    hback.tail⟩

/-- The value of a loop is evaluated, and its frame is pushed. -/
theorem pushLoop_delivers (hfits : subject.Fits)
    (hfirst : expr isFilter subject s = .ok (first, u)) (hserves : Serves setting m sit u)
    (hcarries : setting.code.Carries s.next first)
    (hpush : setting.code.instructions[u.next]? = some .pushLoop) :
    setting.Delivers s.next (u.next + 1) (m.moved s.next stack)
      ((subject.eval sit).map fun v =>
        (m.moved (u.next + 1) stack).pushFrame { loop? := some (LoopState.ofValue v) }) := by
  have hle : s.next ≤ u.next := (expr_emits subject hfirst).next_le
  have hdelivers : setting.Delivers s.next u.next (m.moved s.next stack)
      ((subject.eval sit).map fun v => m.moved u.next (v :: stack)) :=
    expr_delivers hfits hfirst hserves hcarries
  cases hvalue : subject.eval sit with
  | error e =>
    rw [hvalue] at hdelivers
    exact hdelivers.mono (Nat.le_refl _) (Nat.le_succ _)
  | ok v =>
    rw [hvalue] at hdelivers
    have hstep : setting.Reaches s.next (u.next + 1) (m.moved u.next (v :: stack))
        ((m.moved (u.next + 1) stack).pushFrame { loop? := some (LoopState.ofValue v) }) :=
      .step hpush rfl rfl hle (Nat.lt_succ_self _)
    exact (Setting.Reaches.mono hdelivers (Nat.le_refl _) (Nat.le_succ _)).trans hstep

/-- Behind a loop without an `else` branch only its frame is dropped. -/
theorem popFrame_leaves {pc : Nat} {m : Machine} {f : Frame} {below : Frames}
    (hpop : setting.code.instructions[pc]? = some .popFrame) (hpc : m.pc = pc)
    (hframes : m.frames = f :: below) (hbelow : below ≠ []) :
    setting.Reaches pc (pc + 1) m { m with pc := pc + 1, frames := below } := by
  refine .step hpop hpc ?_ (Nat.le_refl _) (Nat.lt_succ_self _)
  obtain ⟨g, more, rfl⟩ := List.exists_cons_of_ne_nil hbelow
  simp only [Machine.execute, Machine.next, hframes, hpc, Frames.pop]

/-- Behind a loop with an `else` branch its frame is dropped as well, and the branch is entered if
there was no pair. -/
theorem didNotIterate_leaves {pc last n : Nat} {m : Machine} {f : Frame} {below : Frames}
    (hpush : setting.code.instructions[pc]? = some .pushDidNotIterate)
    (hpop : setting.code.instructions[pc + 1]? = some .popFrame)
    (htest : setting.code.instructions[pc + 2]? = some (.jumpIfFalse last)) (hpc : m.pc = pc)
    (hframes : m.frames = f :: below) (hbelow : below ≠ []) (hloop : f.loop? = some ⟨[], n, n⟩) :
    setting.Reaches pc (pc + 3) m
      { m with pc := if n = 0 then pc + 3 else last, frames := below } := by
  let missed : Value := .bool (!decide (0 < n))
  let pushed : Machine := { m with pc := pc + 1, stack := missed :: m.stack }
  let popped : Machine := { m with pc := pc + 2, stack := missed :: m.stack, frames := below }
  have hcurrent : Frames.currentLoop? m.frames = some ⟨[], n, n⟩ := by
    simp [hframes, Frames.currentLoop?, hloop]
  have hpushed : setting.Reaches pc (pc + 3) m pushed := by
    refine .step hpush hpc ?_ (Nat.le_refl _) (by omega)
    simp only [Machine.execute, hcurrent, Machine.push, Machine.next, hpc]
    rfl
  have hpopped : setting.Reaches pc (pc + 3) pushed popped :=
    (popFrame_leaves (m := pushed) hpop rfl hframes hbelow).mono (Nat.le_succ _) (by omega)
  refine (hpushed.trans hpopped).trans
    (Setting.Reaches.step htest rfl ?_ (by omega) (Nat.lt_succ_self _))
  cases n with
  | zero => simp [Machine.execute, Machine.pop, Machine.next, popped, missed, Value.isTrue]
  | succ n => simp [Machine.execute, Machine.pop, Machine.goto, popped, missed, Value.isTrue]

/-- How the code of a loop runs. It evaluates the value and pushes the frame of the loop. If the
body comes to its end in every round that begins, there is a round for each pair of the value, in
order, and no other; then the frame is dropped, and the `else` branch is entered if there was no
pair. The body has no part in the position of the loop. -/
structure RunsLoop (setting : Setting) (sit : Expr.Situation) (subject : Expr)
    (body other : Emission Fragment) (m : Machine) (stack : List Value) (loop : LoopShape)
    (first behind last : Nat) : Prop where
  first_le : first ≤ loop.top
  stop_lt : loop.stop < behind
  behind_le : behind ≤ last
  body : setting.Holds body loop.start loop.stop
  other : setting.Holds other behind last
  keeps : setting.KeepsFrames loop.start loop.stop
  enters : setting.Delivers first loop.top (m.moved first stack) ((subject.eval sit).map fun v =>
    (m.moved loop.top stack).pushFrame { loop? := some (.ofValue v) })
  visits : ∀ v, subject.eval sit = .ok v →
    (∀ k pair b, v.pairs[k]? = some pair → setting.Reaches first last (m.moved first stack) b →
      loop.Begins m.frames v.pairs k pair b →
        ∃ b', setting.Reaches loop.start loop.stop b b' ∧ b'.pc = loop.stop) →
    ∃ m', loop.Rounds setting m.frames v.pairs 0
        ((m.moved loop.top stack).pushFrame { loop? := some (.ofValue v) }) v.pairs m' ∧
      setting.Reaches loop.top last m'
        { m' with pc := if v.pairs = [] then behind else last, frames := m.frames }

/-- The code of a loop runs as a loop, if what stands behind its rounds leaves it. -/
theorem runsLoop_of_leaves {other : Emission Fragment} {loop : LoopShape} {behind last : Nat}
    (hstands : loop.StandsIn setting) (hnames : loop.HasNames) (hfirst : s.next ≤ loop.top)
    (hstop : loop.stop < behind) (hlast : behind ≤ last)
    (hbody : setting.Holds body loop.start loop.stop) (hother : setting.Holds other behind last)
    (hkeeps : setting.KeepsFrames loop.start loop.stop)
    (henters : setting.Delivers s.next loop.top (m.moved s.next stack)
      ((subject.eval sit).map fun v =>
        (m.moved loop.top stack).pushFrame { loop? := some (.ofValue v) }))
    (hleaves : ∀ {n : Nat} {m' : Machine} {f : Frame}, m'.pc = loop.stop + 1 →
      m'.frames = f :: m.frames → f.loop? = some ⟨[], n, n⟩ →
        setting.Reaches (loop.stop + 1) last m'
          { m' with pc := if n = 0 then behind else last, frames := m.frames }) :
    RunsLoop setting sit subject body other m stack loop s.next behind last := by
  refine ⟨hfirst, hstop, hlast, hbody, hother, hkeeps, henters, fun v hv hends => ?_⟩
  have hstopLast := Nat.lt_of_lt_of_le hstop hlast
  have hstart := hstands.start_le
  have htop : loop.top ≤ loop.stop := Nat.le_trans (Nat.le_add_right _ _) hstart
  rw [hv] at henters
  have hentered := Setting.Reaches.mono henters (Nat.le_refl _) (Nat.le_trans htop hstopLast.le)
  obtain ⟨m', f, hrounds, hpc, hm', hloop⟩ := hstands.rounds hnames hfirst hstopLast hkeeps hends
    (k := 0) rfl (Nat.zero_le _) hentered rfl rfl rfl
  refine ⟨m', hrounds, ?_⟩
  have hout := hstands.leaves hpc hm' hloop
  have hbehind := @hleaves _ (m'.goto (loop.stop + 1)) _ rfl hm' hloop
  simp only [List.length_eq_zero_iff] at hbehind
  exact (hout.mono (Nat.le_refl _) (by omega)).trans (hbehind.mono (by omega) (Nat.le_refl _))

/-- The code of a loop runs as a loop, wherever it stands. -/
theorem LoopCode.exists_runsLoop {other? : Option (Emission Fragment)}
    (h : LoopCode isFilter key? value subject body s other? code t)
    (hbody : Emits body) (hscopes : ClosesScopes body) (hother : ∀ other ∈ other?, Emits other)
    (hnames : value ≠ "loop" ∧ ∀ key ∈ key?, key ≠ value ∧ key ≠ "loop") (hfits : subject.Fits)
    (hserves : Serves setting m sit t) (hcarries : setting.code.Carries s.next code)
    (hframes : m.frames ≠ []) :
    ∃ loop behind, loop.key? = key? ∧ loop.value = value ∧
      RunsLoop setting sit subject body (other?.getD (pure [])) m stack loop s.next behind
        t.next := by
  cases h with
  | @alone u v first inner hfirst hinner =>
    obtain ⟨hstands, hholds, hfirstAt, hpush, hinnerAt, hbehind⟩ :=
      loopFront_standsIn hfirst hinner hbody hcarries
    have hcovers := hbody hinner
    have hserves := (hserves.of_begins (s := v) List.prefix_rfl rfl).of_begins (s := u)
      hcovers.filters hcovers.file
    have hend : setting.Holds (pure [] : Emission Fragment) (v.next + 2) (v.next + 2) :=
      (Covers.nil _ { v with next := v.next + 2 }).holds rfl fun hp => by simp at hp
    refine ⟨⟨key?, value, u.next + 1, v.next⟩, v.next + 2, rfl, rfl, ?_⟩
    refine runsLoop_of_leaves hstands ⟨hnames.1, hnames.2⟩
      (Nat.le_succ_of_le (expr_emits subject hfirst).next_le) (by simp) (Nat.le_refl _) hholds hend
      (hscopes.keepsFrames hinner hinnerAt) (pushLoop_delivers hfits hfirst hserves hfirstAt hpush)
      fun {n m' f} hpc hm' hloop => ?_
    rw [ite_self]
    exact popFrame_leaves hbehind.head.1 hpc hm' hframes
  | @orElse u v t first inner no other hfirst hinner hno =>
    obtain ⟨hstands, hholds, hfirstAt, hpush, hinnerAt, hbehind⟩ :=
      loopFront_standsIn hfirst hinner hbody hcarries
    obtain ⟨hback, hnoAt⟩ := Code.Carries.of_append
      (f := [⟨.pushDidNotIterate, v.file, v.line⟩, ⟨.popFrame, v.file, v.line⟩,
        ⟨.jumpIfFalse t.next, v.file, v.line⟩]) hbehind
    have hcovers := hbody hinner
    have hrest := hother other rfl hno
    have hserves := ((hserves.of_begins hrest.filters hrest.file).of_begins (s := v)
      List.prefix_rfl rfl).of_begins (s := u) hcovers.filters hcovers.file
    have hlast : v.next + 4 ≤ t.next := hrest.next_le
    refine ⟨⟨key?, value, u.next + 1, v.next⟩, v.next + 4, rfl, rfl, ?_⟩
    refine runsLoop_of_leaves hstands ⟨hnames.1, hnames.2⟩
      (Nat.le_succ_of_le (expr_emits subject hfirst).next_le) (by simp) hlast hholds
      (hrest.holds hno hnoAt) (hscopes.keepsFrames hinner hinnerAt)
      (pushLoop_delivers hfits hfirst hserves hfirstAt hpush) fun {n m' f} hpc hm' hloop => ?_
    exact (didNotIterate_leaves (hback (i := 0) rfl).1 (hback (i := 1) rfl).1
      (hback (i := 2) rfl).1 hpc hm' hframes hloop).mono (Nat.le_refl _) hlast

/-- Wherever the code of a `for` tag with one or two names was emitted, and whatever the machine
holds when it gets there, it runs as a loop over the value of its expression, and leaves all frames
that were there alone, with their loops. -/
theorem for_run_visits_pairs {registry : Registry} {p : Program} {linked : LinkedProgram}
    {template name : String} {depth : Nat} {env : Surroundings} {nodesIn : List Node}
    {branches : List Branch} {span : Span} (hlinked : p.link registry = .ok linked)
    (henv : env.registry = registry) (htag : registry.tag? name = some (.builtin .loop))
    (htags : registry.ClosesScopes)
    (hnames : value ≠ "loop" ∧ ∀ key ∈ key?, key ≠ value ∧ key ≠ "loop") (hfits : subject.Fits)
    (hcode : node (atDepth depth) env
      (.tag name (loopArgs key? value subject) nodesIn branches span) s = .ok (code, t))
    (hfilters : t.filters.toList <+: p.filters.toList)
    (hfile : p.files[s.file]? = some template) (before after : Fragment)
    (hbefore : before.length = s.next) (invoke : Invocation) (m : Machine)
    (hframes : m.frames ≠ []) (stack : List Value) :
    let setting : Setting := ⟨linked, invoke, Code.ofFragment (before ++ code ++ after)⟩
    let sit : Expr.Situation := ⟨registry.filter?, ⟨template, m.autoescape⟩, invoke, m.frames⟩
    let otherwise := (branches.head?.map Branch.body).getD []
    setting.KeepsFrames s.next (s.next + code.length) ∧
      ∃ loop behind, loop.key? = key? ∧ loop.value = value ∧
        RunsLoop setting sit subject (nodes (atDepth depth) env nodesIn)
          (nodes (atDepth depth) env otherwise) m stack loop s.next behind
          (s.next + code.length) := by
  intro setting sit otherwise
  have hE := atDepth_emits depth
  have hnested := atDepth_closesScopes htags depth
  have hcovers : Covers s.next s t code := node_emits hE env _ hcode
  have hserves : Serves setting m sit t :=
    serves_of_link hlinked hfilters (hcovers.file ▸ hfile)
  have hcarries : setting.code.Carries s.next code :=
    hbefore ▸ Code.ofFragment_carries before code after
  rw [← hcovers.next]
  have hscopes : ClosesScopes (node (atDepth depth) env
      (.tag name (loopArgs key? value subject) nodesIn branches span)) :=
    node_nested hnested henv htags _
  refine ⟨hscopes.keepsFrames hcode hcarries, ?_⟩
  obtain ⟨tag, tags, hbuiltin, hcode⟩ := exists_tagCode hcode fun tag => by simp [henv, htag]
  obtain rfl : .loop = tag := by simpa [henv, htag] using hbuiltin
  have hbody := nodes_emits hE env nodesIn
  have hbodyScopes : ClosesScopes (nodes (atDepth depth) env nodesIn) :=
    nodes_nested hnested henv htags nodesIn
  cases hcode with
  | loop hbranches h =>
    have hnone : nodes (atDepth depth) env otherwise = pure [] := by
      simp [otherwise, hbranches, nodes]
    rw [hnone]
    exact (loopCode_of_eq_ok h).exists_runsLoop hbody hbodyScopes (by simp) hnames hfits hserves
      hcarries hframes
  | loopOrElse hbranches h =>
    rename_i other
    have hother : branchAt (atDepth depth) env branches 0 =
        nodes (atDepth depth) env otherwise := by
      cases other
      simp [otherwise, hbranches, branchAt, Branch.body]
    rw [hother] at h
    exact (loopCode_of_eq_ok h).exists_runsLoop hbody hbodyScopes
      (fun x hx => Option.some.inj hx ▸ nodes_emits hE env otherwise) hnames hfits hserves hcarries
      hframes

end Runs

/-- The code of a loop with two names and an `else` branch over a variable, which holds a map with
two entries. -/
theorem for_run_visits_pairs_of_map :
    let registry : Registry := .initial
    let env : Surroundings :=
      { registry, set := ⟨⟨"t", []⟩, []⟩, resolved := ⟨[], []⟩ }
    let inside : List Node := [.literal "x" {}]
    let otherwise : List Node := [.literal "y" {}]
    let args : List TagArg := loopArgs (some "k") "v" (.var "entries" {})
    let code : Fragment :=
      [⟨.lookup "entries", 0, 0⟩, ⟨.pushLoop, 0, 0⟩, ⟨.iterate 7, 0, 0⟩, ⟨.storeLocal "v", 0, 0⟩,
        ⟨.storeLocal "k", 0, 0⟩, ⟨.emitRaw "x", 0, 0⟩, ⟨.jump 2, 0, 0⟩,
        ⟨.pushDidNotIterate, 0, 0⟩, ⟨.popFrame, 0, 0⟩, ⟨.jumpIfFalse 11, 0, 0⟩,
        ⟨.emitRaw "y", 0, 0⟩]
    let p : Program := { name := "t", autoescape := true, files := #["t"] }
    let entries : Value := .map [("b", .bool true), ("a", .bool false)]
    let m : Machine := { frames := [{ locals := [("entries", entries)] }], autoescape := true }
    entries.pairs = [(.ofString "b", .bool true), (.ofString "a", .bool false)] ∧
      node (atDepth 0) env (.tag "for" args inside [.mk "else" [] otherwise {}] {})
        { files := #["t"] } = .ok (code, { next := 11, line := 0, files := #["t"] }) ∧
      ∀ invoke : Invocation,
        let setting : Setting := ⟨⟨p, #[]⟩, invoke, Code.ofFragment ([] ++ code ++ [])⟩
        let sit : Expr.Situation := ⟨registry.filter?, ⟨"t", true⟩, invoke, m.frames⟩
        setting.KeepsFrames 0 11 ∧
          ∃ loop behind, loop.key? = some "k" ∧ loop.value = "v" ∧
            RunsLoop setting sit (.var "entries" {}) (nodes (atDepth 0) env inside)
              (nodes (atDepth 0) env otherwise) m [] loop 0 behind 11 := by
  intro registry env inside otherwise args code p entries m
  have htag : Registry.initial.tag? "for" = some (.builtin .loop) := rfl
  have hname : Registry.initial.isCustomTag "for" = false := by decide
  have hcode : node (atDepth 0) env (.tag "for" args inside [.mk "else" [] otherwise {}] {})
      { files := #["t"] } = .ok (code, { next := 11, line := 0, files := #["t"] }) := by
    simp [-bind_pure_comp, node, nodes, loop, branchAt, loopTargets?, loopArgs, expr, htag, hname,
      registry, env, inside, otherwise, args, code, bind_eq_ok, setLine_eq_ok, op_eq_ok,
      pure_eq_ok, here_eq_ok, reserve_eq_ok, placed_eq_ok]
  have hfits : (Expr.var "entries" {}).Fits := by simp [Expr.Fits]
  have hlink : p.link registry = .ok ⟨p, #[]⟩ := by
    simp only [Program.link, p, Array.mapM_empty]
    rfl
  exact ⟨rfl, hcode, fun invoke => for_run_visits_pairs hlink rfl htag
    Registry.closesScopes_initial (by decide) hfits hcode List.prefix_rfl rfl [] [] rfl invoke m
    (by simp [m]) []⟩

end Emission

end Templating
