/-! Ways of turning a grid of blocks into a result. -/
namespace BlockSparse

/-- How a grid of blocks is assembled. -/
inductive Strategy where
  /-- Concatenate the blocks through their entries. -/
  | concatenate
  /-- Stream the rows of the blocks into one matrix. -/
  | streamRows
  /-- Keep the evaluated blocks apart. -/
  | keepBlocks
  deriving DecidableEq

namespace Strategy

instance : Inhabited Strategy := ⟨concatenate⟩

/-- The name under which a strategy appears in messages and in configuration. -/
def name : Strategy → String
  | concatenate => "Csr"
  | streamRows => "RowStreamed"
  | keepBlocks => "Blocks"

/-- Every strategy. -/
def all : List Strategy := [concatenate, streamRows, keepBlocks]

/-- The strategy of a given name. -/
def ofName? (name : String) : Option Strategy := all.find? (·.name == name)

theorem ofName?_name (s : Strategy) : ofName? s.name = some s := by
  cases s <;> decide

end Strategy
end BlockSparse
