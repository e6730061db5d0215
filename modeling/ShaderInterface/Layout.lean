import ShaderInterface.Kind

/-!
# Layout of fields

Fields are placed one after the other, each at the first offset its kind allows behind the field
before it. In a constant buffer a field may not cross a sixteen-byte row, and one of sixteen bytes or
more starts a row; in the other kinds an offset is a multiple of the field's alignment. A constant
buffer ends at the end of a row, and an alignment of the struct rounds its size up further.
-/
namespace ShaderInterface

/-- Size and alignment of a field. -/
structure Extent where
  size : Nat
  align : Nat
deriving DecidableEq, Repr

/-- Where a field lies, and the unused bytes right before it. -/
structure Placement where
  offset : Nat
  padding : Nat
deriving DecidableEq, Repr

structure Layout where
  placements : List Placement
  size : Nat
  tailPadding : Nat
deriving DecidableEq, Repr

/-- Bytes of a row of a constant buffer. -/
def rowSize : Nat := 16

/-- The least multiple of `unit` that is at least `n`; a unit of zero counts as one. -/
def roundUp (n unit : Nat) : Nat :=
  let unit := max unit 1
  (n + (unit - 1)) / unit * unit

namespace Layout

/-- The first offset at or behind `free` at which a field can lie. -/
def start (kind : Kind) (free : Nat) (field : Extent) : Nat :=
  match kind with
  | .constantBuffer =>
    if field.size ≥ rowSize ∨ free % rowSize + field.size > rowSize then roundUp free rowSize
    else free
  | .vertexInput | .structuredBuffer => roundUp free field.align

/-- Places fields from the offset `free` on. -/
def place (kind : Kind) (free : Nat) : List Extent → List Placement
  | [] => []
  | f :: fs =>
    let offset := start kind free f
    ⟨offset, offset - free⟩ :: place kind (offset + f.size) fs

/-- The first byte behind fields placed from the offset `free` on. -/
def endOf (kind : Kind) (free : Nat) : List Extent → Nat
  | [] => free
  | f :: fs => endOf kind (start kind free f + f.size) fs

/-- The size of a struct whose fields end at `free`. -/
def totalSize (kind : Kind) (alignment : Option Nat) (free : Nat) : Nat :=
  match kind, alignment with
  | .constantBuffer, none => roundUp free rowSize
  | .constantBuffer, some n => roundUp (roundUp free rowSize) (max n rowSize)
  | _, none => free
  | _, some n => roundUp free n

/-- The layout of a struct with these fields. -/
def ofExtents (kind : Kind) (fields : List Extent) (alignment : Option Nat) : Layout :=
  let free := endOf kind 0 fields
  let size := totalSize kind alignment free
  ⟨place kind 0 fields, size, size - free⟩

end Layout

end ShaderInterface
