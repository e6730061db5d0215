/-!
# Places in a text

A `Location` is a byte offset with the line and column a reader would look at. Lines are ended by
newline characters and counted from one; a column counts the characters before the place on its
line, from one. Inside a character that takes several bytes the column counts bytes instead, and
past the end of the text it stays where the text ends.
-/
namespace ShaderInterface

/-- A byte offset with its line and column, both counted from one. -/
structure Location where
  offset : Nat
  line : Nat
  column : Nat
deriving DecidableEq, Repr, Inhabited

namespace Location

def message (l : Location) : String :=
  s!"line {l.line}, column {l.column} (offset {l.offset})"

/-- Where a walk through a text stands: the byte position, the line, the position its line starts
at, and the column. -/
structure Walk where
  position : Nat
  line : Nat
  lineStart : Nat
  column : Nat
deriving DecidableEq, Repr

/-- The walk before the first character. -/
def Walk.start : Walk := ⟨0, 1, 0, 1⟩

/-- The walk after the character `c`. -/
def Walk.step (w : Walk) (c : Char) : Walk :=
  let position := w.position + c.utf8Size
  if c = '\n' then ⟨position, w.line + 1, position, 1⟩
  else ⟨position, w.line, w.lineStart, w.column + 1⟩

/-- The location of `offset` when the walk `w` has the characters `cs` before it. -/
def locateFrom (offset : Nat) (w : Walk) : List Char → Location
  | [] => ⟨offset, w.line, w.column⟩
  | c :: cs =>
    if offset ≤ w.position then ⟨offset, w.line, w.column⟩
    else if offset < w.position + c.utf8Size then ⟨offset, w.line, offset - w.lineStart + 1⟩
    else locateFrom offset (w.step c) cs

end Location

/-- The location of the byte `offset` in the text `cs`. -/
def locate (cs : List Char) (offset : Nat) : Location :=
  Location.locateFrom offset .start cs

end ShaderInterface
