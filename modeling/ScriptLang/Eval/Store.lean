import ScriptLang.Value.Basic

/-! # Frames

A frame binds names to values and knows the frames around it, from the nearest outwards. A name
belongs to the first frame on the way outwards that binds it.
-/

namespace ScriptLang

/-- What a variable is called. Trees that were not parsed may use numbers and null as names. -/
inductive Name where
  | text (text : String)
  | number (value : Int)
  | fraction (value : Binary64)
  | null
  deriving DecidableEq

namespace Name

/-- The name that a field of a tree stands for; equal numbers are one name. -/
def ofJson? : Json → Option Name
  | .str s => some (text s)
  | .int n => some (number n)
  | .bool b => some (number (if b then 1 else 0))
  | .float x =>
    match x.toUnits? with
    | some units =>
      if units % Binary64.scale = 0 then some (number (units / Binary64.scale)) else some (fraction x)
    | none => some (fraction x)
  | .null => some null
  | .arr _ | .obj _ => none

def label : Name → String
  | text s => s
  | number n => Integer.text n
  | fraction x => x.inspect
  | null => "null"

end Name

structure Frame where
  ancestors : List Nat
  bindings : List (Name × Value)

namespace Frame

def get? (frame : Frame) (name : Name) : Option Value := frame.bindings.lookup name

def owns (frame : Frame) (name : Name) : Bool := (frame.get? name).isSome

/-- Replaces the value of a name in a list of bindings, or adds the name at the end. -/
def bind (name : Name) (value : Value) : List (Name × Value) → List (Name × Value)
  | [] => [(name, value)]
  | (other, old) :: rest =>
    if other = name then (name, value) :: rest else (other, old) :: bind name value rest

def define (frame : Frame) (name : Name) (value : Value) : Frame :=
  { frame with bindings := bind name value frame.bindings }

end Frame

/-- All frames ever made, in the order of their making. -/
structure Store where
  frames : Array Frame

namespace Store

/-- The frames from a given one outwards. -/
def chain (store : Store) (frame : Nat) : List Nat :=
  frame :: (store.frames[frame]?.map Frame.ancestors).getD []

def owns (store : Store) (name : Name) (frame : Nat) : Bool :=
  store.frames[frame]?.any (·.owns name)

def resolve (store : Store) (frame : Nat) (name : Name) : Option Nat :=
  (store.chain frame).find? (store.owns name)

def own? (store : Store) (frame : Nat) (name : Name) : Option Value :=
  store.frames[frame]?.bind (·.get? name)

/-- The value of a name: the first one that a frame binds to it, from a given frame outwards. -/
def get? (store : Store) (frame : Nat) (name : Name) : Option Value :=
  (store.chain frame).findSome? fun other => store.own? other name

def define (store : Store) (frame : Nat) (name : Name) (value : Value) : Store :=
  ⟨store.frames.modify frame (·.define name value)⟩

/-- Binds a name in the frame that it belongs to, or in the given one if it belongs to none. -/
def set (store : Store) (frame : Nat) (name : Name) (value : Value) : Store :=
  store.define ((store.resolve frame name).getD frame) name value

/-- Adds an empty frame inside another or outside all. Its number is the old number of frames. -/
def push (store : Store) (parent : Option Nat) : Store :=
  ⟨store.frames.push ⟨(parent.map store.chain).getD [], []⟩⟩

def depth (store : Store) (frame : Nat) : Nat := (store.chain frame).length - 1

end Store

end ScriptLang
