import TwinScheme.Bindings
import TwinScheme.Lexical.Environment

/-!
# Frames in a heap

The bindings of every frame there is, by number. A look-up through an
environment searches its frames in order and takes the first that binds the
name; an assignment overwrites the binding that a look-up would find; a
definition goes to the innermost frame. Frames are added and never removed.
-/

namespace TwinScheme

/-- The bindings of all frames. -/
structure Heap where
  frames : Array Bindings

namespace Heap

/-- No frames. -/
def empty : Heap :=
  ⟨#[]⟩

instance : Inhabited Heap := ⟨empty⟩

/-- What one frame binds. -/
def frame (h : Heap) (i : Nat) : Bindings :=
  h.frames[i]?.getD ∅

/-- Adds a frame; its number is the number of frames before. -/
def push (h : Heap) (bindings : Bindings) : Heap :=
  ⟨h.frames.push bindings⟩

/-- Binds a name in one frame. -/
def write (h : Heap) (i : Nat) (name : String) (v : Value) : Heap :=
  ⟨h.frames.modify i (·.insert name v)⟩

/-- The frame in which a look-up of a name ends. -/
def holder? (h : Heap) (env : Environment) (name : String) : Option Nat :=
  env.frames.find? fun i => (h.frame i).contains name

/-- The value of a name. -/
def find? (h : Heap) (env : Environment) (name : String) : Option Value :=
  (h.holder? env name).bind fun i => (h.frame i).get? name

/-- Binds a name in the innermost frame. -/
def define (h : Heap) (env : Environment) (name : String) (v : Value) : Heap :=
  h.write env.innermost name v

/-- Overwrites the binding that a look-up finds, if there is one. -/
def overwrite (h : Heap) (env : Environment) (name : String) (v : Value) : Heap :=
  match h.holder? env name with
  | some i => h.write i name v
  | none => h

/-- A new environment of a single frame. -/
def fresh (h : Heap) : Environment × Heap :=
  (⟨h.frames.size, []⟩, h.push ∅)

/-- A new frame with some bindings in front of an environment. -/
def extend (h : Heap) (env : Environment) (bindings : Bindings) : Environment × Heap :=
  (⟨h.frames.size, env.frames⟩, h.push bindings)

/-- What the innermost frame binds. -/
def locals (h : Heap) (env : Environment) : Bindings :=
  h.frame env.innermost

/-- A top-level environment: a frame for definitions in front of one that binds
the constants and the primitive procedures. -/
def topLevel (h : Heap) : Environment × Heap :=
  let h' := h.push (Bindings.empty.insertAll builtins)
  h'.extend ⟨h.frames.size, []⟩ ∅

/-- The shape of an environment as text. -/
def describe (h : Heap) (env : Environment) : String :=
  s!"Environment(frames={env.depth}, local={(h.locals env).size})"

end Heap

end TwinScheme
