import TypedArrays.Container

/-! Heaps: live containers behind handles.

Handles are given out in order and never again, so a new handle differs from every handle given out
before, whether its container is still live or not. -/

namespace TypedArrays.Boundary

/-- Stands for a container of one form. -/
structure Handle (f : Form) where
  index : Nat
deriving DecidableEq

/-- Cells in the order of their handles; a released cell is empty. -/
structure Arena (α : Type) where
  cells : Array (Option α)

namespace Arena

variable {α : Type}

def empty : Arena α := ⟨#[]⟩

def get? (arena : Arena α) (index : Nat) : Option α := (arena.cells[index]?).join

/-- Adds a cell; its index is the number of cells so far. -/
def push (arena : Arena α) (value : α) : Arena α := ⟨arena.cells.push (some value)⟩

def set (arena : Arena α) (index : Nat) (value : Option α) : Arena α := ⟨arena.cells.setIfInBounds index value⟩

end Arena

/-- The live containers. -/
structure Heap where
  vectors : Arena Vector
  matrices : Arena Matrix

namespace Heap

def empty : Heap := ⟨.empty, .empty⟩

/-- The containers of one form. -/
def arena (heap : Heap) : (f : Form) → Arena f.Carrier
  | .vector => heap.vectors
  | .matrix => heap.matrices

/-- The heap with other containers of one form. -/
def withArena (heap : Heap) : (f : Form) → Arena f.Carrier → Heap
  | .vector => fun vectors => { heap with vectors }
  | .matrix => fun matrices => { heap with matrices }

/-- The container behind a handle, if it is live. -/
def get? (heap : Heap) {f : Form} (h : Handle f) : Option f.Carrier := (heap.arena f).get? h.index

/-- The handle that the next container of a form gets. -/
def fresh (heap : Heap) (f : Form) : Handle f := ⟨(heap.arena f).cells.size⟩

/-- Adds a container behind the fresh handle. -/
def insert (heap : Heap) {f : Form} (value : f.Carrier) : Heap := heap.withArena f ((heap.arena f).push value)

/-- Replaces the container behind a handle. -/
def set (heap : Heap) {f : Form} (h : Handle f) (value : f.Carrier) : Heap :=
  heap.withArena f ((heap.arena f).set h.index (some value))

/-- Releases the container behind a handle. -/
def erase (heap : Heap) {f : Form} (h : Handle f) : Heap :=
  heap.withArena f ((heap.arena f).set h.index none)

end Heap

end TypedArrays.Boundary
