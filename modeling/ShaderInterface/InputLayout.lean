import ShaderInterface.Catalog

/-!
# Vertex input elements

A graphics device is told of every field of a vertex input struct, row by row: its semantic, its
format, the stream that feeds it and its offset in that stream. The fields of one stream are placed
as if they were a struct of their own.
-/
namespace ShaderInterface

/-- What an element advances with. -/
inductive StepMode where
  | perVertex
  | perInstance
deriving DecidableEq, Repr

structure InputElement where
  semanticName : String
  semanticIndex : Nat
  format : String
  slot : Nat
  /-- Offset in the stream of the slot. -/
  offset : Nat
  stepMode : StepMode
  /-- Instances per step; zero for a stream of vertices. -/
  stepRate : Nat
deriving DecidableEq, Repr

/-- The stream that feeds a member. -/
def Member.slot (m : Member) : Nat := m.register.getD 0

namespace InputLayout

/-- Offsets of members in their streams, where `free s` is the first free byte of stream `s`. -/
def offsets (free : Nat → Nat) : List Member → List Nat
  | [] => []
  | m :: ms =>
    let offset := Layout.start .vertexInput (free m.slot) m.extent
    offset :: offsets (fun s => if s = m.slot then offset + m.type.size else free s) ms

/-- The elements of a member that lies at `offset` in its stream, one for each row. -/
def rows (m : Member) (offset : Nat) : List InputElement :=
  let (name, index) := Semantic.split m.semantic
  (List.range m.type.rows).map fun row =>
    { semanticName := name
      semanticIndex := index + row
      format := m.type.format
      slot := m.slot
      offset := offset + row * (m.type.size / m.type.rows)
      stepMode := if m.stepRate.isSome then .perInstance else .perVertex
      stepRate := m.stepRate.getD 0 }

end InputLayout

/-- The vertex input elements of an aggregate, member by member. -/
def Aggregate.inputElements (a : Aggregate) : List InputElement :=
  (List.zipWith InputLayout.rows a.members (InputLayout.offsets (fun _ => 0) a.members)).flatten

end ShaderInterface
