import ShaderInterface.Lexical.Nesting
import ShaderInterface.Text.Location

/-!
# Tokens of a text, and why there are none

`LexicalRules.tokenize` scans a text, checks the nesting of its groups and keeps the tokens and the
skipped regions with their byte spans. A close that does not fit is reported before a literal or a
block without an end behind it, and a group that is never closed only if nothing else is wrong.
-/
namespace ShaderInterface

/-- A token as it stands in the text, not yet classified. -/
structure RawToken where
  shape : TokenShape
  text : String
  start : Nat
  length : Nat
deriving DecidableEq, Repr

/-- A comment or directive. -/
structure SkippedRegion where
  tag : SkipTag
  start : Nat
  length : Nat
deriving DecidableEq, Repr

inductive LexFault where
  | unterminatedLiteral
  | unterminatedComment
  | unclosedGroup (opener : Char)
  | unexpectedClose (found : Char) (expected : Option Char)
deriving DecidableEq, Repr

def LexFault.message : LexFault → String
  | .unterminatedLiteral => "unterminated string literal"
  | .unterminatedComment => "unterminated block comment"
  | .unclosedGroup opener => s!"unmatched '{opener}'"
  | .unexpectedClose found (some expected) => s!"found '{found}' while expecting '{expected}'"
  | .unexpectedClose found none => s!"unmatched '{found}'"

structure LexError where
  fault : LexFault
  location : Location
deriving DecidableEq, Repr

def LexError.message (e : LexError) : String :=
  s!"lex error at {e.location.message}: {e.fault.message}"

/-- The tokens and skipped regions of a text, each in order. -/
structure Tokenized where
  tokens : List RawToken
  skipped : List SkippedRegion
deriving DecidableEq, Repr

def Unended.fault : Unended → LexFault
  | .literal => .unterminatedLiteral
  | .block => .unterminatedComment

/-- What is wrong with a scan, and at which offset. -/
def Scan.fault? (s : Scan) : Option (LexFault × Nat) :=
  match checkNesting [] (placePieces 0 s.pieces) with
  | .error e => some (.unexpectedClose e.found e.expected, e.offset)
  | .ok stack =>
    match s.unended, stack with
    | some u, _ => some (u.fault, piecesLength s.pieces)
    | none, group :: _ => some (.unclosedGroup group.opener, group.offset)
    | none, [] => none

/-- The token that a placed piece is. -/
def PlacedPiece.token? (escape : Char) (p : PlacedPiece) : Option RawToken :=
  match p.piece.kind with
  | .token shape => some ⟨shape, String.ofList (p.piece.text escape), p.start, p.length⟩
  | _ => none

/-- The region that a placed piece skips. -/
def PlacedPiece.skipped? (p : PlacedPiece) : Option SkippedRegion :=
  match p.piece.kind with
  | .skipped tag => some ⟨tag, p.start, p.length⟩
  | _ => none

/-- The tokens and skipped regions of placed pieces. -/
def Tokenized.ofPieces (escape : Char) (ps : List PlacedPiece) : Tokenized :=
  ⟨ps.filterMap (PlacedPiece.token? escape), ps.filterMap PlacedPiece.skipped?⟩

/-- The tokens and skipped regions of a text, or the first fault in it. -/
def LexicalRules.tokenize (rules : LexicalRules) (source : String) : Except LexError Tokenized :=
  let scan := rules.scan source.toList
  match scan.fault? with
  | some (fault, offset) => .error ⟨fault, locate source.toList offset⟩
  | none => .ok (Tokenized.ofPieces rules.escape (placePieces 0 scan.pieces))

end ShaderInterface
