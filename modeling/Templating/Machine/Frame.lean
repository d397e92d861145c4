import Templating.Value.Lookup

/-!
# Frames

The variables of a running program live in a stack of frames, innermost first. A name is looked up
frame by frame, in the variables of a frame before its context, up to and including the first
isolated frame. A loop keeps its position in the frame it pushed.
-/

namespace Templating

/-- The position of a loop: the pairs still to come, and how many were given out already. -/
structure LoopState where
  remaining : List (Value × Value)
  length : Nat
  index : Nat := 0
  deriving Inhabited

namespace LoopState

/-- A loop over the pairs of a value. -/
def ofValue (v : Value) : LoopState := { remaining := v.pairs, length := v.pairs.length }

/-- Some pair was given out. -/
def didIterate (l : LoopState) : Bool := decide (0 < l.index)

/-- What the variable `loop` holds while the pair at the loop's position is visited. -/
def info (l : LoopState) (key : Value) : Value :=
  .map
    [("index", .ofNat (l.index + 1)),
      ("index0", .ofNat l.index),
      ("revindex", .ofNat (l.length - l.index)),
      ("revindex0", .ofNat (l.length - l.index - 1)),
      ("first", .bool (l.index == 0)),
      ("last", .bool (l.index + 1 == l.length)),
      ("length", .ofNat l.length),
      ("key", key)]

end LoopState

/-- What a step of a loop yields. -/
structure Visit where
  key : Value
  value : Value
  info : Value
  deriving Inhabited

/-- The next pair of a loop and the loop behind it. -/
def LoopState.next? (l : LoopState) : Option (Visit × LoopState) :=
  match l.remaining with
  | [] => none
  | (key, value) :: rest =>
    some (⟨key, value, l.info key⟩, { l with remaining := rest, index := l.index + 1 })

/-- One level of variables. -/
structure Frame where
  /-- The variables stored in the frame. -/
  locals : Entries := []
  /-- Entries of a map are visible as variables. -/
  context : Value := .undefined
  /-- Frames below are not visible. -/
  isolated : Bool := false
  loop? : Option LoopState := none
  deriving Inhabited

namespace Frame

/-- Look up a name in one frame. -/
def get? (f : Frame) (name : String) : Option Value :=
  match Entries.get? f.locals name with
  | some v => some v
  | none =>
    match f.context with
    | .map entries => Entries.get? entries name
    | _ => none

/-- Store a variable. -/
def store (f : Frame) (name : String) (v : Value) : Frame :=
  { f with locals := Entries.insert f.locals name v }

/-- The variables of a frame, without its loop. -/
def snapshot (f : Frame) : Frame := { f with loop? := none }

end Frame

/-- The frames of running code, innermost first. -/
abbrev Frames := List Frame

namespace Frames

/-- Look up a variable; an unknown one is undefined. -/
def load : Frames → String → Value
  | [], _ => .undefined
  | f :: rest, name =>
    match f.get? name with
    | some v => v
    | none => if f.isolated then .undefined else load rest name

/-- Store a variable in the innermost frame. -/
def store : Frames → String → Value → Frames
  | [], _, _ => []
  | f :: rest, name, v => f.store name v :: rest

/-- Drop the innermost frame; the outermost one stays. -/
def pop : Frames → Frames
  | [] => []
  | [f] => [f]
  | _ :: g :: rest => g :: rest

/-- The outermost frame. -/
def root (fs : Frames) : Frame := fs.getLast?.getD {}

/-- The innermost loop. -/
def currentLoop? (fs : Frames) : Option LoopState := fs.findSome? Frame.loop?

/-- Move the innermost loop to a position. -/
def setLoop : Frames → LoopState → Frames
  | [], _ => []
  | f :: rest, l =>
    match f.loop? with
    | some _ => { f with loop? := some l } :: rest
    | none => f :: setLoop rest l

/-- A variable just stored in some frame is found with its new value. -/
theorem load_store (f : Frame) (fs : Frames) (name : String) (v : Value) :
    load (store (f :: fs) name v) name = v := by
  simp [store, load, Frame.get?, Frame.store, Entries.get?_insert_self]

end Frames

end Templating
