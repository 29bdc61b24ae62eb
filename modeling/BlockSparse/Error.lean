import BlockSparse.Shape.Basic

/-! The ways in which shape inference, evaluation, assembly and the function containers fail. Each
error is a cause with its data; the wording of all of them is in `Error.message`. Sizes that add up
to more than can be counted are among them, although the program does not hand back an error then:
it stops. -/
namespace BlockSparse

/-- The two directions of a block grid. -/
inductive Axis where
  | row
  | column
  deriving DecidableEq

/-- The word for an axis in messages. -/
def Axis.name : Axis → String
  | row => "row"
  | column => "column"

/-- The binary operations whose operands must have matching shapes. -/
inductive Operation where
  | add
  | subtract
  | multiply
  deriving DecidableEq

/-- The word for an operation in messages. -/
def Operation.name : Operation → String
  | add => "add"
  | subtract => "subtract"
  | multiply => "multiply"

/-- The three kinds of concrete values. -/
inductive Kind where
  | scalar
  | matrix
  | vector
  deriving DecidableEq

/-- The word for a kind in messages. -/
def Kind.name : Kind → String
  | scalar => "scalar"
  | matrix => "matrix"
  | vector => "vector"

/-- What is wrong with the arrays or entries from which a sparse matrix was to be built. -/
inductive FormatFault where
  | offsetCount
  | offsetEnds
  | offsetsDecrease
  | columnOutOfBounds
  | columnsUnsorted
  | duplicateEntry
  | valueCount
  | entryRowOutOfBounds
  | entryColumnOutOfBounds
  | rowOutOfOrder (row last : Nat)
  | rowLengths (row columns values : Nat)
  deriving DecidableEq

/-- The wording of a fault. -/
def FormatFault.message : FormatFault → String
  | offsetCount => "Length of row offset array is not equal to nrows + 1."
  | offsetEnds => "First or last row offset is inconsistent with format specification."
  | offsetsDecrease => "Row offsets are not monotonically increasing."
  | columnOutOfBounds => "Column indices are out of bounds."
  | columnsUnsorted =>
    "Column indices are not monotonically increasing (sorted) within each row."
  | duplicateEntry => "Matrix data contains duplicate entries."
  | valueCount => "Number of values and column indices must be the same"
  | entryRowOutOfBounds => "Row index out of bounds."
  | entryColumnOutOfBounds => "Col index out of bounds."
  | rowOutOfOrder row last => s!"row {row} inserted after row {last}"
  | rowLengths row columns values =>
    s!"row {row} has {columns} column indices but {values} values"

/-- Expressions and blocks that an operation has no meaning for. -/
inductive Unsupported where
  | emptyProduct
  | vectorTranspose
  | operator (name : String)
  | blockMatrix
  | blockVector
  /-- A sum or product of two values of kinds that do not combine. -/
  | pair (operation : Operation) (left right : Kind)
  | vectorCell (row col : Nat)
  | matrixComponent (index : Nat)
  | component (kind : Kind)
  | zeroRowSum (row : Nat)
  deriving DecidableEq

/-- The words for what has no meaning. -/
def Unsupported.text : Unsupported → String
  | emptyProduct => "empty multiply"
  | vectorTranspose => "transpose of vector"
  | operator name => s!"operator {name}"
  | blockMatrix => "block matrix"
  | blockVector => "block vector"
  | pair operation left right => s!"{operation.name} of {left.name} and {right.name}"
  | vectorCell row col => s!"vector in block ({row}, {col}) of block matrix"
  | matrixComponent index => s!"matrix in block vector component {index}"
  | component kind => s!"{kind.name} in block vector"
  | zeroRowSum row => s!"lumped inverse of matrix with zero row sum in row {row}"

/-- Why a computation has no result. -/
inductive Error where
  /-- The operands of a binary operation have shapes that do not fit together. -/
  | incompatibleShapes (operation : Operation) (left right : Shape)
  /-- A nonzero scalar stands where a matrix that is not square is needed. -/
  | nonSquareIdentity (rows cols : Nat)
  /-- A grid was given rows of different lengths, or the wrong number of blocks. -/
  | raggedGrid (row expected actual : Nat)
  /-- The blocks of a block row or block column do not determine one size. -/
  | inconsistentSizes (axis : Axis) (index : Nat) (sizes : List Nat)
  | unsupported (cause : Unsupported)
  /-- The data of a sparse matrix are not well formed. -/
  | malformed (fault : FormatFault)
  | indexOutOfBounds (index length : Nat)
  | componentCount (expected actual : Nat)
  /-- A function was supplied for a space that it does not belong to. -/
  | foreignComponent (index : Nat)
  | componentLength (index expected actual : Nat)
  /-- The result of an operation on sizes is too large for a size, which ends the computation. -/
  | sizeOverflow (operation : Operation)
  deriving DecidableEq

/-- Numbers in brackets, separated by a comma and a blank. -/
def listText (sizes : List Nat) : String := "[" ++ ", ".intercalate (sizes.map Nat.repr) ++ "]"

namespace Error

/-- The wording of an error. -/
def message : Error → String
  | incompatibleShapes operation left right =>
    s!"Incompatible shapes for {operation.name}: {left.text} and {right.text}"
  | nonSquareIdentity rows cols =>
    s!"Cannot promote scalar to identity of non-square shape {rows}x{cols}"
  | raggedGrid row expected actual => s!"Block row {row} has {actual} blocks, expected {expected}"
  | inconsistentSizes axis index [] => s!"No block in block {axis.name} {index} determines its size"
  | inconsistentSizes axis index sizes =>
    s!"Inconsistent sizes {listText sizes} in block {axis.name} {index}"
  | unsupported cause => s!"Unsupported operation for expression of kind {cause.text}"
  | malformed fault => s!"Backend error: {fault.message}"
  | indexOutOfBounds index length => s!"Index {index} out of bounds for length {length}"
  | componentCount expected actual => s!"Expected {expected} components, got {actual}"
  | foreignComponent index => s!"Component {index} does not belong to the corresponding space"
  | componentLength index expected actual =>
    s!"Component {index} has length {actual}, but its space has dimension {expected}"
  | sizeOverflow operation => s!"attempt to {operation.name} with overflow"

/-- Whether the error is about shapes or sizes that do not fit together. -/
def isShapeError : Error → Bool
  | incompatibleShapes .. | nonSquareIdentity .. | raggedGrid .. | inconsistentSizes .. => true
  | _ => false

/-- What is wrong with the length of a component, said of the component of the given index. -/
def atComponent (index : Nat) : Error → Error
  | componentLength _ expected actual => componentLength index expected actual
  | e => e

/-- The fault beneath an error about malformed matrix data. -/
def cause? : Error → Option FormatFault
  | malformed fault => some fault
  | _ => none

end Error
end BlockSparse
