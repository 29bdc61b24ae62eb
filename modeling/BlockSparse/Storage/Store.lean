/-! Storage shared between handles. A store holds the values of vectors; a shared vector names one
of them, and copies of the name see each other's writes. An operation on storage that may fail is a
computation in `EStateM`: what it has written by then stays written. -/
namespace BlockSparse

/-- The vectors held in storage. -/
structure Store (α : Type) where
  vectors : List (List α)
  deriving DecidableEq

/-- The name of a vector in storage. -/
structure SharedVector where
  index : Nat
  deriving DecidableEq

namespace Store
variable {α : Type}

/-- Storage that holds nothing. -/
def empty : Store α := ⟨[]⟩

/-- Puts a vector into fresh storage. -/
def alloc (s : Store α) (values : List α) : Store α × SharedVector :=
  (⟨s.vectors ++ [values]⟩, ⟨s.vectors.length⟩)

/-- The current values of a vector. -/
def read (s : Store α) (v : SharedVector) : List α := s.vectors[v.index]?.getD []

/-- The number of entries of a vector. -/
def length (s : Store α) (v : SharedVector) : Nat := (s.read v).length

/-- Replaces the values of a vector. -/
def write (s : Store α) (v : SharedVector) (values : List α) : Store α :=
  ⟨s.vectors.set v.index values⟩

/-- Replaces the values of vectors one after another. -/
def writeAll (s : Store α) (pieces : List (SharedVector × List α)) : Store α :=
  pieces.foldl (fun s p => s.write p.1 p.2) s

/-- Replaces one entry of a vector. -/
def setEntry (s : Store α) (v : SharedVector) (i : Nat) (x : α) : Store α :=
  s.write v ((s.read v).set i x)

/-- Replaces entries of a vector one after another. -/
def setEntries (s : Store α) (v : SharedVector) (entries : List (Nat × α)) : Store α :=
  entries.foldl (fun s e => s.setEntry v e.1 e.2) s

/-- Replaces all entries of a vector by one value. -/
def fill (s : Store α) (v : SharedVector) (x : α) : Store α :=
  s.write v (List.replicate (s.length v) x)

/-- An operation that cannot fail, as a computation. -/
def perform {ε β : Type} (f : Store α → Store α × β) : EStateM ε (Store α) β :=
  modifyGet fun s => (f s).swap

/-- The vector is held in the store. -/
def Holds (s : Store α) (v : SharedVector) : Prop := v.index < s.vectors.length

instance (s : Store α) (v : SharedVector) : Decidable (s.Holds v) :=
  Nat.decLt v.index s.vectors.length

theorem read_alloc_new (s : Store α) (values : List α) :
    (s.alloc values).1.read (s.alloc values).2 = values := by
  simp [alloc, read]

theorem read_alloc_of_holds {s : Store α} {v : SharedVector} (h : s.Holds v) (values : List α) :
    (s.alloc values).1.read v = s.read v := by
  simp only [Holds] at h
  simp [alloc, read, List.getElem?_append_left h]

theorem read_write_self {s : Store α} {v : SharedVector} (h : s.Holds v) (values : List α) :
    (s.write v values).read v = values := by
  simp only [Holds] at h
  simp [write, read, List.getElem?_set_self h]

theorem read_write_of_ne (s : Store α) {v w : SharedVector} (h : v ≠ w) (values : List α) :
    (s.write v values).read w = s.read w := by
  have hne : v.index ≠ w.index := fun e => h (by cases v; cases w; simp_all)
  simp [write, read, List.getElem?_set_ne hne]

/-- Writing an entry keeps the length of every vector. -/
theorem length_setEntry (s : Store α) (v w : SharedVector) (i : Nat) (x : α) :
    (s.setEntry v i x).length w = s.length w := by
  by_cases hvw : v = w
  · subst hvw
    by_cases h : s.Holds v
    · simp [length, setEntry, read_write_self h]
    · simp only [Holds] at h
      simp [length, setEntry, write, read, List.set_eq_of_length_le (Nat.le_of_not_lt h)]
  · simp [length, setEntry, read_write_of_ne s hvw]

end Store
end BlockSparse
