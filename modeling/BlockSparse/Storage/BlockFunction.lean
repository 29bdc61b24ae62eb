import BlockSparse.Expr.Basic
import BlockSparse.Storage.NestedVector

/-! Functions on a product of spaces. A function is a space together with a shared vector of
coefficients, one for each dimension; a block function has one function for each of several
spaces. -/
namespace BlockSparse

/-- Spaces of finite dimension. -/
class FunctionSpace (S : Type) where
  dim : S → Nat

/-- A space known by its name and its dimension. -/
structure NamedSpace where
  name : String
  dim : Nat
  deriving DecidableEq

instance : FunctionSpace NamedSpace := ⟨NamedSpace.dim⟩

/-- A function in a space, given by its coefficients. -/
structure SpaceFunction (S : Type) where
  space : S
  coefficients : SharedVector
  deriving DecidableEq

/-- One function in each of a sequence of spaces. -/
structure BlockFunction (S : Type) where
  functions : List (SpaceFunction S)
  deriving DecidableEq

/-- What a component of a block function may be made of. -/
inductive ComponentSource (S α : Type) where
  /-- An existing function, whose coefficients are shared. -/
  | function (f : SpaceFunction S)
  /-- A shared vector of coefficients. -/
  | vector (v : SharedVector)
  /-- Values that get storage of their own. -/
  | values (x : List α)

variable {S α : Type} [FunctionSpace S]

namespace SpaceFunction

/-- The zero function of a space, in fresh storage. -/
def zeros [Zero α] (s : Store α) (space : S) : Store α × SpaceFunction S :=
  let (s, v) := s.alloc (List.replicate (FunctionSpace.dim space) 0)
  (s, ⟨space, v⟩)

/-- The function with the given coefficients, whose storage is shared. -/
def ofCoefficients (space : S) (v : SharedVector) : EStateM Error (Store α) (SpaceFunction S) := do
  let s ← get
  if s.length v = FunctionSpace.dim space then pure ⟨space, v⟩
  else throw (.componentLength 0 (FunctionSpace.dim space) (s.length v))

end SpaceFunction

namespace ComponentSource

/-- The shared vector that a source supplies for a space; values are put into fresh storage. -/
def supply [BEq S] (index : Nat) (space : S) :
    ComponentSource S α → EStateM Error (Store α) SharedVector
  | function f =>
    if f.space == space then pure f.coefficients else throw (.foreignComponent index)
  | vector v => pure v
  | values x => Store.perform (·.alloc x)

end ComponentSource

namespace BlockFunction

/-- The zero functions of the given spaces. -/
def zeros [Zero α] (s : Store α) : List S → Store α × BlockFunction S
  | [] => (s, ⟨[]⟩)
  | space :: spaces =>
    let (s, f) := SpaceFunction.zeros s space
    let (s, fs) := zeros s spaces
    (s, ⟨f :: fs.functions⟩)

/-- Makes functions of pairs of a space and a source, the first of them having the given index. -/
def attach [BEq S] : Nat → List (S × ComponentSource S α) →
    EStateM Error (Store α) (List (SpaceFunction S))
  | _, [] => pure []
  | index, (space, source) :: rest => do
    let v ← source.supply index space
    let f ← (SpaceFunction.ofCoefficients space v).adaptExcept (Error.atComponent index)
    let fs ← attach (index + 1) rest
    pure (f :: fs)

/-- The functions made of the given sources, one for each space. -/
def ofComponents [BEq S] (spaces : List S) (sources : List (ComponentSource S α)) :
    EStateM Error (Store α) (BlockFunction S) :=
  if spaces.length = sources.length then BlockFunction.mk <$> attach 0 (spaces.zip sources)
  else throw (.componentCount spaces.length sources.length)

/-- The number of functions. -/
def length (b : BlockFunction S) : Nat := b.functions.length

/-- The function of a given index. -/
def get (b : BlockFunction S) (i : Nat) : Except Error (SpaceFunction S) :=
  match b.functions[i]? with
  | some f => .ok f
  | none => .error (.indexOutOfBounds i b.length)

/-- The coefficient vectors of the functions. -/
def vectors (b : BlockFunction S) : List SharedVector := b.functions.map SpaceFunction.coefficients

/-- A flat view that shares the storage of the coefficients. -/
def vector (s : Store α) (b : BlockFunction S) : NestedVector :=
  NestedVector.ofComponents s b.vectors

/-- A block vector of the current coefficients, which later writes do not reach. -/
def blockVector (s : Store α) (b : BlockFunction S) : List (Expr α) :=
  b.vectors.map fun v => Expr.vector (s.read v)

end BlockFunction
end BlockSparse
