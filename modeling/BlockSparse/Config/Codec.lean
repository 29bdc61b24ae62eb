import BlockSparse.Block.Sizes
import BlockSparse.Config.Json
import BlockSparse.Strategy

/-! Shapes, block sizes and strategies as configuration text. A shape is an object with one field
that names its kind; block sizes are an object with their two lists, or an array of the two; a
strategy is its name. Reading refuses numbers that are not natural or too large, and fields that are
missing or repeated; fields that block sizes do not have are passed over. -/
namespace BlockSparse

/-- How values of a type are written as JSON and read from it. -/
structure Codec (τ : Type) where
  encode : τ → Json
  decode? : Json → Option τ

namespace Codec
variable {τ : Type}

/-- The compact text of a value. -/
def write (c : Codec τ) (x : τ) : List Char := (c.encode x).text

/-- The value of a text. -/
def read? (c : Codec τ) (text : List Char) : Option τ := (Json.ofText? text).bind c.decode?

end Codec

namespace Config

/-- The name and the content of an object with exactly one field. -/
def tagged? : Json → Option (List Char × Json)
  | .object [(name, content)] => (Json.unescape name).map fun name => (name, content)
  | _ => none

/-- The field that names a vector. -/
def vectorTag : List Char := ['V', 'e', 'c', 't', 'o', 'r']

/-- The field that names a matrix. -/
def matrixTag : List Char := ['M', 'a', 't', 'r', 'i', 'x']

/-- The field of the heights of block rows. -/
def rowSizesField : List Char := ['r', 'o', 'w', '_', 's', 'i', 'z', 'e', 's']

/-- The field of the widths of block columns. -/
def colSizesField : List Char := ['c', 'o', 'l', '_', 's', 'i', 'z', 'e', 's']

/-- A shape as an object with one field. -/
def encodeShape : Shape → Json
  | .vector n => .object [(vectorTag, Json.ofNatural n)]
  | .matrix r c => .object [(matrixTag, Json.ofNaturals [r, c])]

/-- The shape of an object whose one field names its kind. -/
def decodeShape (j : Json) : Option Shape := do
  let (tag, content) ← tagged? j
  if tag = vectorTag then
    let n ← content.natural?
    pure (.vector n)
  else if tag = matrixTag then
    match ← content.naturals? with
    | [r, c] => pure (.matrix r c)
    | _ => none
  else none

/-- Shapes in configuration. -/
def shapes : Codec Shape := ⟨encodeShape, decodeShape⟩

/-- Block sizes as an object with two fields. -/
def encodeSizes (s : BlockSizes) : Json :=
  .object [(rowSizesField, Json.ofNaturals s.rowSizes), (colSizesField, Json.ofNaturals s.colSizes)]

/-- The content of the one field of a given name. -/
def field? (fields : List (List Char × Json)) (name : List Char) : Option Json :=
  match fields.filter (·.1 == name) with
  | [(_, content)] => some content
  | _ => none

/-- The block sizes of an object with their two fields, or of an array of the two lists. -/
def decodeSizes : Json → Option BlockSizes
  | .object fields => do
    let fields ← fields.mapM fun (name, content) =>
      (Json.unescape name).map fun name => (name, content)
    let rowSizes ← (← field? fields rowSizesField).naturals?
    let colSizes ← (← field? fields colSizesField).naturals?
    pure ⟨rowSizes, colSizes⟩
  | .array [rowSizes, colSizes] => do
    let rowSizes ← rowSizes.naturals?
    let colSizes ← colSizes.naturals?
    pure ⟨rowSizes, colSizes⟩
  | _ => none

/-- Block sizes in configuration. -/
def sizes : Codec BlockSizes := ⟨encodeSizes, decodeSizes⟩

/-- A strategy as its name. -/
def encodeStrategy (s : Strategy) : Json := .string s.name.toList

/-- A strategy is its name, or an object that gives nothing under its name. -/
def decodeStrategy : Json → Option Strategy
  | .string literal => do
    let name ← Json.unescape literal
    Strategy.ofName? (String.ofList name)
  | j => do
    match ← tagged? j with
    | (name, .null) => Strategy.ofName? (String.ofList name)
    | _ => none

/-- Strategies in configuration. -/
def strategies : Codec Strategy := ⟨encodeStrategy, decodeStrategy⟩

end Config
end BlockSparse
