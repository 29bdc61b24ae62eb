import BlockSparse.Ascending
import BlockSparse.Block.Assemble
import BlockSparse.Block.Nested
import BlockSparse.Block.Resolve
import BlockSparse.Block.Sizes
import BlockSparse.Block.Vector
import BlockSparse.Config.Codec
import BlockSparse.Config.Json
import BlockSparse.Decimal.Shortest
import BlockSparse.Decimal.Text
import BlockSparse.DenseVector
import BlockSparse.Error
import BlockSparse.Expr.Assemble
import BlockSparse.Expr.Basic
import BlockSparse.Expr.Eval
import BlockSparse.Expr.Lumped
import BlockSparse.Expr.Shape
import BlockSparse.Grid
import BlockSparse.Offsets
import BlockSparse.Proofs.Block.Action
import BlockSparse.Proofs.Block.Cells
import BlockSparse.Proofs.Block.Concatenate
import BlockSparse.Proofs.Block.Dense
import BlockSparse.Proofs.Block.Entries
import BlockSparse.Proofs.Block.Inference
import BlockSparse.Proofs.Block.KeepBlocks
import BlockSparse.Proofs.Block.Outcome
import BlockSparse.Proofs.Block.Product
import BlockSparse.Proofs.Block.Resolve
import BlockSparse.Proofs.Block.Sizes
import BlockSparse.Proofs.Block.Strategies
import BlockSparse.Proofs.Block.Transpose
import BlockSparse.Proofs.Config.Codec
import BlockSparse.Proofs.Config.Reader
import BlockSparse.Proofs.Config.Sizes
import BlockSparse.Proofs.DenseValue
import BlockSparse.Proofs.Expr.Addition
import BlockSparse.Proofs.Expr.Calls
import BlockSparse.Proofs.Expr.Context
import BlockSparse.Proofs.Expr.Denotation
import BlockSparse.Proofs.Expr.Lumped
import BlockSparse.Proofs.Expr.Outcome
import BlockSparse.Proofs.Expr.Pattern
import BlockSparse.Proofs.Expr.Regroup
import BlockSparse.Proofs.Expr.Shapes
import BlockSparse.Proofs.Expr.Structure
import BlockSparse.Proofs.Expr.Transpose
import BlockSparse.Proofs.Expr.WellFormed
import BlockSparse.Proofs.Expr.Yield
import BlockSparse.Proofs.Grid
import BlockSparse.Proofs.Grid.Access
import BlockSparse.Proofs.Grid.Column
import BlockSparse.Proofs.Offsets
import BlockSparse.Proofs.PartialMonoid
import BlockSparse.Proofs.Sparse.Compressed
import BlockSparse.Proofs.Sparse.Coordinate
import BlockSparse.Proofs.Sparse.Equations
import BlockSparse.Proofs.Sparse.Insertions
import BlockSparse.Proofs.Sparse.Kernels
import BlockSparse.Proofs.Sparse.Pattern
import BlockSparse.Proofs.Sparse.RowBuilder
import BlockSparse.Proofs.Sparse.Values
import BlockSparse.Proofs.Storage.Aliasing
import BlockSparse.Proofs.Storage.BlockVector
import BlockSparse.Proofs.Storage.BulkWrite
import BlockSparse.Proofs.Storage.Components
import BlockSparse.Proofs.Storage.Locate
import BlockSparse.Proofs.Traversal
import BlockSparse.Proofs.Value.Cases
import BlockSparse.Proofs.Value.Dense
import BlockSparse.Proofs.Value.Outcome
import BlockSparse.Proofs.Value.Pattern
import BlockSparse.Proofs.Value.Product
import BlockSparse.Proofs.Value.Transpose
import BlockSparse.Proofs.WellFormed
import BlockSparse.Shape.Arithmetic
import BlockSparse.Shape.Basic
import BlockSparse.Size
import BlockSparse.Sparse.Basic
import BlockSparse.Sparse.Compressed
import BlockSparse.Sparse.Coordinate
import BlockSparse.Sparse.Dense
import BlockSparse.Sparse.Kernels
import BlockSparse.Sparse.RowBuilder
import BlockSparse.Sparse.Sample
import BlockSparse.Storage.BlockFunction
import BlockSparse.Storage.NestedVector
import BlockSparse.Storage.Session
import BlockSparse.Storage.Store
import BlockSparse.Strategy
import BlockSparse.Trace
import BlockSparse.Value
import BlockSparse.Value.Arithmetic
