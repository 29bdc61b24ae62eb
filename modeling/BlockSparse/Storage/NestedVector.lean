import BlockSparse.Error
import BlockSparse.Offsets
import BlockSparse.Storage.Store

/-! A flat view of shared vectors laid out one after another. The view owns no storage: it maps each
index to a component and a place in it, and reads and writes there. -/
namespace BlockSparse

/-- Components in order, with the boundaries that they had when the view was made. -/
structure NestedVector where
  components : List SharedVector
  offsets : List Nat
  deriving DecidableEq

namespace NestedVector
variable {α : Type}

/-- The view of the given vectors. -/
def ofComponents (s : Store α) (components : List SharedVector) : NestedVector :=
  ⟨components, Offsets.cumulative (components.map s.length)⟩

/-- The number of entries of all components together. -/
def length (n : NestedVector) : Nat := n.offsets.getLast?.getD 0

/-- The component of a given index. -/
def component? (n : NestedVector) (i : Nat) : Option SharedVector := n.components[i]?

/-- The component that holds an index, which is the last one to start at or before it, and the place
of the index in that component. -/
def locate (n : NestedVector) (index : Nat) : Option (Nat × Nat) :=
  if index < n.length then
    let component := (n.offsets.takeWhile (· ≤ index)).length - 1
    some (component, index - n.offsets[component]?.getD 0)
  else none

/-- The storage and the place in it at which an index is held. -/
def address? (n : NestedVector) (index : Nat) : Option (SharedVector × Nat) := do
  let (component, place) ← n.locate index
  let v ← n.components[component]?
  pure (v, place)

/-- The entry at an index. -/
def get? (s : Store α) (n : NestedVector) (index : Nat) : Option α := do
  let (v, place) ← n.address? index
  (s.read v)[place]?

/-- Replaces the entry at an index. -/
def set (n : NestedVector) (index : Nat) (x : α) : EStateM Error (Store α) Unit :=
  match n.address? index with
  | some (v, place) => modify fun s => s.setEntry v place x
  | none => throw (.indexOutOfBounds index n.length)

/-- The current values of all components, each copied to where its component starts. -/
def toFlat [Zero α] (s : Store α) (n : NestedVector) : List α :=
  (n.components.zip n.offsets).foldl (fun flat p => Offsets.paste flat p.2 (s.read p.1))
    (List.replicate n.length 0)

/-- Writes values into the components, each taking its piece, from the first component to the
last. -/
def copyFrom (n : NestedVector) (values : List α) : EStateM Error (Store α) Unit :=
  if values.length = n.length then
    modify fun s => s.writeAll (n.components.zip (Offsets.slices values n.offsets))
  else throw (.componentLength 0 n.length values.length)

example : (NestedVector.mk [⟨0⟩, ⟨1⟩, ⟨2⟩] [0, 2, 2, 5]).locate 2 = some (2, 0) := by decide

end NestedVector
end BlockSparse
