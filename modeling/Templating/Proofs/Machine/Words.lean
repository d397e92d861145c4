import Templating.Proofs.Machine.Scopes
import Templating.Proofs.Program.LineTable

/-!
# Steps in machine words

A machine counts and numbers with natural numbers, and lists are as long as they like. Where it
really runs, positions, counts and lengths are words of 64 bits, sums and products of which may be
too large, and a place of a table that is not there cannot be read. `advanceChecked` is a step that
computes with such words: every sum, difference and product is checked for whether a word holds it,
every lookup for whether there is something at the index, and a failed check is a fault of its own,
told apart from the errors that a step returns. A step without a fault is the step of the machine,
and in a machine that fits into memory one instruction can have a fault only: a map of so many
pairs that no word counts their keys and values.
-/

namespace Templating

/-- What goes wrong in machine words: a result that no word holds, or an index where nothing is. -/
inductive WordFault where
  | overflow
  | outOfBounds
  deriving Repr, DecidableEq

/-- What is computed in machine words. -/
abbrev Checked := Except WordFault

namespace Word

/-- Half the number of words. Signed words begin with its negative and end before it. -/
def half : Nat := Nat.pow 2 63

/-- The number, if a word holds it. -/
def ofNat (n : Nat) : Checked Nat := if n < UInt64.size then .ok n else .error .overflow

/-- The sum of two words. -/
def add (a b : Nat) : Checked Nat := ofNat (a + b)

/-- The product of two words. -/
def mul (a b : Nat) : Checked Nat := ofNat (a * b)

/-- The difference of two words. -/
def sub (a b : Nat) : Checked Nat := if b ≤ a then .ok (a - b) else .error .overflow

/-- The number, if a signed word holds it. -/
def ofInt (n : Int) : Checked Int :=
  if -(half : Int) ≤ n ∧ n < half then .ok n else .error .overflow

/-- What a table has at an index. -/
def get {α : Type} (table : Array α) (index : Nat) : Checked α :=
  match table[index]? with
  | some x => .ok x
  | none => .error .outOfBounds

variable {a b : Nat}

theorem size_eq : UInt64.size = 2 * half := rfl

theorem add_eq_ok (h : a + b < UInt64.size) : add a b = .ok (a + b) := if_pos h

theorem mul_eq_ok (h : a * b < UInt64.size) : mul a b = .ok (a * b) := if_pos h

theorem sub_eq_ok (h : b ≤ a) : sub a b = .ok (a - b) := if_pos h

theorem ofInt_eq_ok {n : Int} (hlow : -(half : Int) ≤ n) (hhigh : n < half) : ofInt n = .ok n :=
  if_pos ⟨hlow, hhigh⟩

theorem get_eq_ok {α : Type} {table : Array α} {index : Nat} {x : α} (h : table[index]? = some x) :
    get table index = .ok x := by rw [get, h]

end Word

/-! ## Places -/

namespace LineTable

/-- Where a run begins at an instruction, or where one would stand that does. -/
def search (runs : Array LineRun) (index : Nat) : Except Nat Nat :=
  let base := halve runs index runs.size 0 runs.size
  match runs[base]? with
  | none => .error 0
  | some run =>
    if run.first = index then .ok base
    else if run.first < index then .error (base + 1)
    else .error base

/-- The place of an instruction, in words. -/
def findChecked (runs : Array LineRun) (index : Nat) : Checked (Option (Nat × Nat)) :=
  match search runs index with
  | .ok found => do
    let run ← Word.get runs found
    return some (run.file, run.line)
  | .error 0 => return none
  | .error behind => do
    let run ← Word.get runs (← Word.sub behind 1)
    return some (run.file, run.line)

/-- The place of an instruction is found without a fault in every table, sorted or not. -/
theorem findChecked_eq (runs : Array LineRun) (index : Nat) :
    findChecked runs index = .ok (find? runs index) := by
  rcases Nat.eq_zero_or_pos runs.size with hempty | hpos
  · obtain rfl := Array.eq_empty_of_size_eq_zero hempty
    rfl
  · obtain ⟨hsize, hfirst⟩ :=
      halve_lands runs index runs.size 0 runs.size hpos (by omega) (.inl rfl)
    rw [findChecked, search, find?]
    generalize halve runs index runs.size 0 runs.size = base at hsize hfirst
    have hrun := Array.getElem?_eq_getElem hsize
    simp only [hrun]
    rcases Nat.lt_trichotomy runs[base].first index with hlt | heq | hgt
    · rw [if_neg (Nat.ne_of_lt hlt), if_pos hlt, if_pos (Nat.le_of_lt hlt)]
      simp only [Word.sub_eq_ok (Nat.le_add_left 1 base), Nat.add_sub_cancel]
      simp only [bind, Except.bind, Word.get_eq_ok hrun]
      rfl
    · rw [if_pos heq, if_pos (Nat.le_of_eq heq)]
      simp only [Word.get_eq_ok hrun]
      rfl
    · -- every run begins too late, so the search has ended at the first one
      obtain rfl : base = 0 := by
        refine hfirst.resolve_right ?_
        rintro ⟨r, hr, hle⟩
        rw [hrun] at hr
        obtain rfl := Option.some.inj hr
        omega
      rw [if_neg (Nat.ne_of_gt hgt), if_neg (Nat.lt_asymm hgt), if_neg (Nat.not_le_of_lt hgt)]
      rfl

end LineTable

/-- The location of an instruction of some code of the program, in words. -/
def Program.locationChecked (p : Program) (c : Code) (index : Nat) : Checked (Option Location) := do
  match ← LineTable.findChecked c.lines index with
  | some (file, line) => return p.files[file]?.map fun template => ⟨template, line⟩
  | none => return none

/-- Locations are found without a fault. -/
theorem Program.locationChecked_eq (p : Program) (c : Code) (index : Nat) :
    p.locationChecked c index = .ok (p.location? c index) := by
  rw [locationChecked, location?, LineTable.findChecked_eq, Code.place?]
  cases LineTable.find? c.lines index with
  | none => rfl
  | some place =>
    obtain ⟨file, line⟩ := place
    cases h : p.files[file]? <;> simp [h, bind, Except.bind, pure, Except.pure]

/-! ## Loops -/

namespace LoopState

/-- What was given out and what is still to come are all pairs of the loop. -/
def IsWhole (l : LoopState) : Prop := l.index + l.remaining.length = l.length

/-- The next pair of a loop and the loop behind it, in words. -/
def nextChecked (l : LoopState) : Checked (Option (Visit × LoopState)) :=
  match l.remaining with
  | [] => return none
  | (key, value) :: rest => do
    let index ← Word.add l.index 1
    let left ← Word.sub l.length l.index
    let info := Value.map
      [("index", .ofNat index),
        ("index0", .ofNat l.index),
        ("revindex", .ofNat left),
        ("revindex0", .ofNat (← Word.sub left 1)),
        ("first", .bool (l.index == 0)),
        ("last", .bool (index == l.length)),
        ("length", .ofNat l.length),
        ("key", key)]
    return some (⟨key, value, info⟩, { l with remaining := rest, index })

variable {l l' : LoopState}

theorem isWhole_ofValue (v : Value) : (ofValue v).IsWhole := Nat.zero_add _

theorem IsWhole.next (h : l.IsWhole) {visit : Visit} (hnext : l.next? = some (visit, l')) :
    l'.IsWhole := by
  obtain ⟨remaining, length, index⟩ := l
  cases remaining with
  | nil => simp [next?] at hnext
  | cons pair rest =>
    obtain ⟨-, rfl⟩ := Prod.mk.inj (Option.some.inj hnext)
    simp only [IsWhole, List.length_cons] at h ⊢
    omega

/-- A loop moves on without a fault. -/
theorem IsWhole.nextChecked_eq (h : l.IsWhole) (hlength : l.length < Word.half) :
    l.nextChecked = .ok l.next? := by
  obtain ⟨remaining, length, index⟩ := l
  cases remaining with
  | nil => rfl
  | cons pair rest =>
    simp only [IsWhole, List.length_cons] at h hlength
    have hindex : index + 1 < UInt64.size := by
      rw [Word.size_eq]
      omega
    simp only [nextChecked, Word.add_eq_ok hindex, Word.sub_eq_ok (show index ≤ length by omega),
      Word.sub_eq_ok (show 1 ≤ length - index by omega), bind, Except.bind]
    rfl

end LoopState

namespace Frames

/-- All loops are whole. -/
def AreWhole (fs : Frames) : Prop := ∀ f ∈ fs, ∀ l, f.loop? = some l → l.IsWhole

variable {fs : Frames}

theorem AreWhole.nil : AreWhole [] := List.forall_mem_nil _

theorem AreWhole.cons {f : Frame} (hf : ∀ l, f.loop? = some l → l.IsWhole) (h : AreWhole fs) :
    AreWhole (f :: fs) := List.forall_mem_cons.mpr ⟨hf, h⟩

theorem AreWhole.pop (h : AreWhole fs) : AreWhole fs.pop := by
  match fs with
  | [] => exact h
  | [f] => exact h
  | f :: g :: rest => exact (List.forall_mem_cons.mp h).2

theorem AreWhole.store (h : AreWhole fs) (name : String) (v : Value) :
    AreWhole (fs.store name v) := by
  cases fs with
  | nil => exact h
  | cons f rest =>
    obtain ⟨hf, hrest⟩ := List.forall_mem_cons.mp h
    exact .cons hf hrest

theorem AreWhole.setLoop (h : AreWhole fs) {l : LoopState} (hl : l.IsWhole) :
    AreWhole (fs.setLoop l) := by
  induction fs with
  | nil => exact h
  | cons f rest ih =>
    obtain ⟨hf, hrest⟩ := List.forall_mem_cons.mp h
    rw [Frames.setLoop]
    split
    · refine .cons (fun l' hl' => ?_) hrest
      rwa [← Option.some.inj hl']
    · exact .cons hf (ih hrest)

/-- The innermost loop is the loop of a frame. -/
theorem exists_of_currentLoop? {l : LoopState} (h : fs.currentLoop? = some l) :
    ∃ f ∈ fs, f.loop? = some l := List.exists_of_findSome?_eq_some h

end Frames

/-! ## Items -/

namespace Value

/-- The position of an index, in words: an index is signed, and so is the length that a negative one
is counted from. -/
def positionChecked (length : Nat) (index : Int) : Checked Int :=
  if index < 0 then do Word.ofInt ((← Word.ofInt length) + index) else return index

/-- An item by key or index, in words. -/
def itemChecked (v key : Value) : Checked Value :=
  match v, key.asInt? with
  | seq items, some i => do
    let position ← positionChecked items.length i.toInt
    return if position < 0 then undefined else items[position.toNat]?.getD undefined
  | _, _ => return v.item key

theorem positionChecked_eq {length : Nat} {index : Int} (hlength : length < Word.half)
    (hindex : -(Word.half : Int) ≤ index) :
    positionChecked length index = .ok (if index < 0 then length + index else index) := by
  rw [positionChecked]
  split
  · rw [Word.ofInt_eq_ok (by omega) (by omega)]
    exact Word.ofInt_eq_ok (by omega) (by omega)
  · rfl

/-- Items are found without a fault. -/
theorem itemChecked_eq {v : Value} (h : ∀ items, v = seq items → items.length < Word.half)
    (key : Value) : v.itemChecked key = .ok (v.item key) := by
  unfold itemChecked
  split
  · next items i hkey =>
    simp only [item, hkey, itemAt, positionChecked_eq (h items rfl) i.le_toInt]
    rfl
  · rfl

end Value

namespace Machine

/-! ## Instructions -/

section Instructions

variable (linked : LinkedProgram) (invoke : Invocation) (depth : Nat) (code : Code) (m : Machine)

/-- Take so many of the topmost values, in words: the values from some position on, counted from
the bottom of the stack, which is the bottom itself if there are fewer. -/
def popManyChecked (count : Nat) : Checked (List Value × Machine) :=
  let values := m.stack.reverse
  let start := values.length - count
  if start ≤ values.length then
    .ok (values.drop start, { m with stack := (values.take start).reverse })
  else .error .outOfBounds

/-- What a filter applied by some code is told, in words. -/
def filterPlaceChecked : Checked FilterPlace := do
  let place? ← linked.program.locationChecked code m.pc
  return { template := (place?.map Location.template).getD linked.program.name
           autoescape := m.autoescape }

/-- Apply a filter of the filter table, in words. -/
def applyFilterChecked (filter args : Nat) : Checked (Result Machine) := do
  let (arguments, rest) ← m.popManyChecked args
  let (subject, rest) := rest.pop
  match linked.filters[filter]? with
  | none => return fail (.noSuchFilterIndex filter)
  | some f =>
    match f (← m.filterPlaceChecked linked code) subject arguments with
    | .ok v => return .ok (rest.push v).next
    | .error e => return .error e

/-- The words of a call at some depth of calls: when a macro is entered, the room for what it
writes, and the depth of its own calls. -/
def enterChecked (callee : Value) (arguments : List Value) : Checked Unit :=
  match callee with
  | .callable id _ =>
    match linked.program.macros[id]? with
    | none => return
    | some decl =>
      if arguments.length ≤ decl.params.length ∧ depth < maxCallDepth then do
        let _ ← Word.mul decl.code.size 8
        let _ ← Word.add depth 1
        return
      else return
  | _ => return

/-- Call a value at some depth of calls, in words. -/
def callChecked (args : Nat) : Checked (Result Machine) := do
  let (arguments, rest) ← m.popManyChecked args
  let (callee, rest) := rest.pop
  enterChecked linked depth callee arguments
  match invoke callee arguments m.frames m.autoescape with
  | .ok v => return .ok (rest.push v).next
  | .error e => return .error e

/-- Give the next pair of the innermost loop to its body, or leave the loop, in words. -/
def iterateChecked (target : Nat) : Checked (Result Machine) :=
  match Frames.currentLoop? m.frames with
  | none => return fail .iterateOutsideLoop
  | some l => do
    match ← l.nextChecked with
    | none => return .ok (m.goto target)
    | some (visit, l) =>
      let frames := Frames.store (Frames.setLoop m.frames l) "loop" visit.info
      return .ok (({ m with frames }.push visit.key).push visit.value).next

/-- Carry out an instruction at some depth of calls, in words. Instructions that compute with words
do it here; the others move values, or compute with values whose arithmetic has errors of its
own. -/
def executeChecked : Instruction → Checked (Result Machine)
  | .getItem => do
    let (a, b, rest) := m.popTwo
    return .ok (rest.push (← a.itemChecked b)).next
  | .buildMap pairs => do
    let (items, rest) ← m.popManyChecked (← Word.mul pairs 2)
    return .ok (rest.push (.map (pairUp [] items))).next
  | .buildList count => do
    let (items, rest) ← m.popManyChecked count
    return .ok (rest.push (.seq items)).next
  | .applyFilter filter args => m.applyFilterChecked linked code filter args
  | .call args => m.callChecked linked invoke depth args
  | .iterate target => m.iterateChecked target
  | i => return m.execute linked invoke code i

/-- Where an instruction makes the machine go on, if it is not the next instruction. -/
def jumpTarget? : Instruction → Option Nat
  | .jump target => some target
  | .jumpIfFalse target => if m.pop.1.isTrue then none else some target
  | .jumpIfFalseOrPop target => if m.topIsTrue then none else some target
  | .jumpIfTrueOrPop target => if m.topIsTrue then some target else none
  | .iterate target =>
    if ((Frames.currentLoop? m.frames).bind LoopState.next?).isSome then none else some target
  | _ => none

/-- Place the error of an instruction, in words. -/
def locateErrorChecked (pc : Nat) (e : Error) : Checked Error := do
  match ← linked.program.locationChecked code pc with
  | some place => return e.locate place.template place.line
  | none => return e

/-- Carry out an instruction at some depth of calls and place its error, in words. The machine goes
on where the instruction makes it go, or at the position one further. -/
def advanceChecked (i : Instruction) : Checked (Result Machine) := do
  match ← m.executeChecked linked invoke depth code i with
  | .ok m' =>
    match m.jumpTarget? i with
    | some target => return .ok (m'.goto target)
    | none => return .ok (m'.goto (← Word.add m.pc 1))
  | .error e => return .error (← locateErrorChecked linked code m.pc e)

end Instructions

end Machine

/-- Builds a map of so many pairs that no word counts their keys and values. -/
def Instruction.buildsTooMany : Instruction → Bool
  | buildMap pairs => decide (Word.half ≤ pairs)
  | _ => false

namespace Machine

/-- Sequences and loops have no more items than fit into memory, where a signed word counts them. -/
structure InMemory (m : Machine) : Prop where
  sequences : ∀ items, .seq items ∈ m.stack → items.length < Word.half
  loops : ∀ f ∈ m.frames, ∀ l, f.loop? = some l → l.length < Word.half

variable {linked : LinkedProgram} {invoke : Invocation} {depth : Nat} {code : Code} {m m' : Machine}
  {i : Instruction}

/-- The value that an item is taken of is on the stack, if there is one. -/
theorem InMemory.length_subject (h : m.InMemory) {items : List Value}
    (hitems : m.popTwo.1 = .seq items) : items.length < Word.half := by
  refine h.sequences items ?_
  cases hstack : m.stack with
  | nil => simp [popTwo, pop, hstack] at hitems
  | cons b rest =>
    cases rest with
    | nil => simp [popTwo, pop, hstack] at hitems
    | cons a rest =>
      have ha : a = .seq items := by simpa [popTwo, pop, hstack] using hitems
      simp [ha]

/-- The topmost values are taken without a fault, however many there should be. -/
theorem popManyChecked_eq (m : Machine) (count : Nat) :
    m.popManyChecked count = .ok (m.popMany count) := by
  have hstart : m.stack.reverse.length - count ≤ m.stack.reverse.length := Nat.sub_le _ _
  have hcount : m.stack.length - (m.stack.length - count) = min count m.stack.length := by omega
  rw [popManyChecked, if_pos hstart, popMany, List.length_reverse, List.drop_reverse,
    List.take_reverse, List.reverse_reverse, hcount]
  simp

theorem filterPlaceChecked_eq :
    m.filterPlaceChecked linked code = .ok (filterPlace linked code m) := by
  rw [filterPlaceChecked, Program.locationChecked_eq, filterPlace]
  cases linked.program.location? code m.pc <;> rfl

theorem locateErrorChecked_eq (pc : Nat) (e : Error) :
    locateErrorChecked linked code pc e = .ok (locateError linked code pc e) := by
  rw [locateErrorChecked, Program.locationChecked_eq, locateError]
  cases linked.program.location? code pc <;> rfl

/-- A macro is entered without a fault if there are words for the room that its code asks for. -/
theorem enterChecked_eq (hmacros : ∀ decl ∈ linked.program.macros, decl.code.size * 8 < UInt64.size)
    (callee : Value) (arguments : List Value) :
    enterChecked linked depth callee arguments = .ok () := by
  unfold enterChecked
  split
  · split
    · rfl
    · next decl hdecl =>
      split
      · next hentered =>
        have hroom := hmacros decl (Array.mem_of_getElem? hdecl)
        have hdepth : depth + 1 < UInt64.size :=
          Nat.lt_of_lt_of_le (Nat.succ_lt_succ hentered.2) (by decide)
        simp only [Word.mul_eq_ok hroom, Word.add_eq_ok hdepth, bind, Except.bind]
        rfl
      · rfl
  · rfl

/-- The innermost loop moves on without a fault. -/
theorem iterateChecked_eq (hmemory : m.InMemory) (hwhole : m.frames.AreWhole) (target : Nat) :
    m.iterateChecked target = .ok (m.iterate target) := by
  rw [iterateChecked, iterate]
  cases hloop : Frames.currentLoop? m.frames with
  | none => rfl
  | some l =>
    obtain ⟨f, hf, hl⟩ := Frames.exists_of_currentLoop? hloop
    simp only [(hwhole f hf l hl).nextChecked_eq (hmemory.loops f hf l hl)]
    cases l.next? <;> rfl

/-- An instruction is carried out without a fault unless it builds a map of too many pairs. -/
theorem executeChecked_eq (hmemory : m.InMemory) (hwhole : m.frames.AreWhole)
    (hmacros : ∀ decl ∈ linked.program.macros, decl.code.size * 8 < UInt64.size)
    (hpairs : i.buildsTooMany = false) :
    m.executeChecked linked invoke depth code i = .ok (m.execute linked invoke code i) := by
  cases i with
  | getItem =>
    rw [executeChecked]
    simp only [Value.itemChecked_eq fun _ => hmemory.length_subject]
    rfl
  | buildMap pairs =>
    have hfew : pairs * 2 < UInt64.size := by
      simp only [Instruction.buildsTooMany, decide_eq_false_iff_not] at hpairs
      rw [Word.size_eq]
      omega
    rw [executeChecked, Word.mul_eq_ok hfew, execute, pairedCount, Nat.mod_eq_of_lt hfew]
    simp only [popManyChecked_eq, bind, Except.bind]
    rfl
  | buildList count =>
    rw [executeChecked, popManyChecked_eq]
    rfl
  | applyFilter filter args =>
    rw [executeChecked, applyFilterChecked, popManyChecked_eq, execute, applyFilter]
    simp only [bind, Except.bind, filterPlaceChecked_eq]
    cases linked.filters[filter]? with
    | none => rfl
    | some f =>
      simp only
      cases f (filterPlace linked code m) (m.popMany args).2.pop.1 (m.popMany args).1 <;> rfl
  | call args =>
    rw [executeChecked, callChecked, popManyChecked_eq, execute, call]
    simp only [bind, Except.bind, enterChecked_eq hmacros]
    cases invoke (m.popMany args).2.pop.1 (m.popMany args).1 m.frames m.autoescape <;> rfl
  | iterate target => exact iterateChecked_eq hmemory hwhole target
  | _ => rfl

/-- The machine goes on at the target of a jump, or at the position one further. -/
theorem pc_eq_of_execute (h : m.execute linked invoke code i = .ok m') :
    m'.pc = (m.jumpTarget? i).getD (m.pc + 1) := by
  cases i with
  | jumpIfFalse target | jumpIfFalseOrPop target | jumpIfTrueOrPop target =>
    simp only [execute, Except.ok.injEq] at h
    subst h
    simp only [jumpTarget?]
    split <;> simp
  | iterate target =>
    simp only [execute, iterate] at h
    simp only [jumpTarget?]
    split at h
    · simp [fail] at h
    · next l hloop =>
      rw [hloop, Option.bind_some]
      split at h
      · next hnext => simp [hnext, ← Except.ok.inj h]
      · next hnext => simp [hnext, ← Except.ok.inj h]
  | _ => simpa [jumpTarget?, Instruction.successors] using pc_execute h

/-- A step is carried out without a fault unless it builds a map of too many pairs. -/
theorem advanceChecked_eq (hmemory : m.InMemory) (hwhole : m.frames.AreWhole)
    (hmacros : ∀ decl ∈ linked.program.macros, decl.code.size * 8 < UInt64.size)
    (hcode : code.size < UInt64.size) (hfetch : m.fetch? code = some i)
    (hpairs : i.buildsTooMany = false) :
    m.advanceChecked linked invoke depth code i = .ok (m.advance linked invoke code i) := by
  have hpc : m.pc + 1 < UInt64.size := by
    have hlt : m.pc < code.size := (Array.getElem?_eq_some_iff.mp hfetch).1
    omega
  rw [advanceChecked, executeChecked_eq hmemory hwhole hmacros hpairs, advance]
  cases h : m.execute linked invoke code i with
  | error e =>
    simp only [bind, Except.bind, locateErrorChecked_eq]
    rfl
  | ok m' =>
    have hgoto : m'.goto ((m.jumpTarget? i).getD (m.pc + 1)) = m' :=
      congrArg m'.goto (pc_eq_of_execute h).symm
    simp only [bind, Except.bind]
    split
    · next target htarget =>
      rw [htarget] at hgoto
      exact congrArg (fun m => Except.ok (Except.ok m)) hgoto
    · next hnone =>
      rw [hnone] at hgoto
      rw [Word.add_eq_ok hpc]
      exact congrArg (fun m => Except.ok (Except.ok m)) hgoto

/-- The count of the keys and values of too many pairs is the one fault. -/
theorem advanceChecked_of_buildsTooMany (h : i.buildsTooMany = true) :
    m.advanceChecked linked invoke depth code i = .error .overflow := by
  cases i with
  | buildMap pairs =>
    have hmany : ¬ pairs * 2 < UInt64.size := by
      have := of_decide_eq_true h
      rw [Word.size_eq]
      omega
    rw [advanceChecked, executeChecked, Word.mul, Word.ofNat, if_neg hmany]
    rfl
  | _ => simp [Instruction.buildsTooMany] at h

/-- What neither pushes a frame nor moves a loop keeps loops whole. -/
theorem FrameEffect.areWhole {fs fs' : Frames} (h : FrameEffect i fs fs')
    (hopens : i.opensScope = false) (hiterate : ∀ target, i ≠ .iterate target)
    (hwhole : fs.AreWhole) : fs'.AreWhole := by
  cases h with
  | opens hopens' => simp [hopens] at hopens'
  | closes => exact hwhole.pop
  | stores => exact hwhole.store _ _
  | visits => exact absurd rfl (hiterate _)
  | keeps => exact hwhole

/-- A step keeps loops whole. -/
theorem areWhole_execute (hwhole : m.frames.AreWhole)
    (h : m.execute linked invoke code i = .ok m') : m'.frames.AreWhole := by
  cases i with
  | pushFrame =>
    obtain rfl := Except.ok.inj h
    exact hwhole.cons (by simp)
  | pushContext isolated =>
    simp only [execute, Except.ok.injEq] at h
    subst h
    simpa using hwhole.cons (f := { context := m.pop.1, isolated }) (by simp)
  | pushLoop =>
    simp only [execute, Except.ok.injEq] at h
    subst h
    rw [frames_next, frames_pushFrame, frames_pop]
    refine hwhole.cons fun l hl => ?_
    rw [← Option.some.inj hl]
    exact LoopState.isWhole_ofValue _
  | iterate target =>
    simp only [execute, iterate] at h
    split at h
    · simp [fail] at h
    · next l hloop =>
      obtain ⟨f, hf, hl⟩ := Frames.exists_of_currentLoop? hloop
      split at h
      · exact Except.ok.inj h ▸ hwhole
      · next visit l' hnext =>
        obtain rfl := Except.ok.inj h
        exact (hwhole.setLoop ((hwhole f hf l hl).next hnext)).store _ _
  | _ => exact (frameEffect_execute h).areWhole rfl (by simp) hwhole

end Machine

end Templating
