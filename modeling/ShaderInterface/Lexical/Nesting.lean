import ShaderInterface.Lexical.Piece
import ShaderInterface.Text.Basic

/-!
# Nesting of groups

Pieces get their byte offsets by adding up lengths. `checkNesting` walks through placed pieces with
the stack of open groups: every closing character has to be the one that the innermost open group
expects. The first that is not is reported; what is still open at the end is returned.
-/
namespace ShaderInterface

/-- A piece and the byte offset it starts at. -/
structure PlacedPiece where
  start : Nat
  piece : Piece
deriving DecidableEq, Repr

namespace PlacedPiece

def length (p : PlacedPiece) : Nat := Text.byteLength p.piece.chars

end PlacedPiece

/-- Gives each piece its offset, the first one `start`. -/
def placePieces (start : Nat) : List Piece → List PlacedPiece
  | [] => []
  | p :: ps => ⟨start, p⟩ :: placePieces (start + Text.byteLength p.chars) ps

/-- Number of bytes that the pieces cover together. -/
def piecesLength : List Piece → Nat
  | [] => 0
  | p :: ps => Text.byteLength p.chars + piecesLength ps

/-- A group that is still open. -/
structure OpenGroup where
  opener : Char
  expected : Char
  offset : Nat
deriving DecidableEq, Repr

/-- A closing character that does not close the innermost open group. -/
structure UnexpectedClose where
  found : Char
  expected : Option Char
  offset : Nat
deriving DecidableEq, Repr

/-- The groups open after the pieces, if every close fits; `stack` are the groups open before them,
the innermost first. -/
def checkNesting : (stack : List OpenGroup) → List PlacedPiece →
    Except UnexpectedClose (List OpenGroup)
  | stack, [] => .ok stack
  | stack, p :: ps =>
    match p.piece.kind with
    | .token (.groupOpen opener closer) => checkNesting (⟨opener, closer, p.start⟩ :: stack) ps
    | .token (.groupClose closer) =>
      match stack with
      | [] => .error ⟨closer, none, p.start⟩
      | group :: outer =>
        if group.expected = closer then checkNesting outer ps
        else .error ⟨closer, some group.expected, p.start⟩
    | _ => checkNesting stack ps

end ShaderInterface
