import ShaderInterface.Lexical.Rules

/-!
# Pieces of a text

A scan cuts a text into pieces, one after the other and without gaps: tokens, skipped regions,
single delimiters, and an escape character with nothing behind it. A piece holds the characters it
covers; the text of a token is a function of these characters. The scan stops early at a literal or
a skipped block that has no end. Whether groups nest is not its business.
-/
namespace ShaderInterface

/-- What sort of token a piece is. -/
inductive TokenShape where
  | word
  | punctuator
  | terminator
  | groupOpen (opener closer : Char)
  | groupClose (closer : Char)
  | literal
deriving DecidableEq, Repr

inductive PieceKind where
  | token (shape : TokenShape)
  | skipped (tag : SkipTag)
  /-- One delimiter. -/
  | delimiter
  /-- An escape character at the very end of the text, outside a word. -/
  | danglingEscape
deriving DecidableEq, Repr

/-- A part of the text and the characters it covers. -/
structure Piece where
  kind : PieceKind
  chars : List Char
deriving DecidableEq, Repr

/-- What a scan can find without an end. -/
inductive Unended where
  | literal
  | block
deriving DecidableEq, Repr

/-- Drops every escape character and keeps the character behind it. -/
def unescape (escape : Char) : List Char → List Char
  | [] => []
  | c :: cs =>
    if c = escape then
      match cs with
      | [] => []
      | d :: ds => d :: unescape escape ds
    else c :: unescape escape cs

/-- The text of a piece: words and literals without their escapes, literals without their quotes. -/
def Piece.text (escape : Char) (p : Piece) : List Char :=
  match p.kind with
  | .token .word => unescape escape p.chars
  | .token .literal => unescape escape (p.chars.drop 1).dropLast
  | _ => p.chars

/-- What a text starts with; of several readings the first one counts. -/
inductive Lead where
  | block (skip : BlockSkip)
  | line (skip : LineSkip)
  | escape
  | delimiter
  | quote
  | opener (closer : Char)
  | closer
  | terminator
  | punctuator (chars : List Char)
  | plain
deriving DecidableEq, Repr

namespace LexicalRules

/-- What the text `c :: cs` starts with. -/
def lead (rules : LexicalRules) (c : Char) (cs : List Char) : Lead :=
  match rules.blockSkipAt (c :: cs) with
  | some skip => .block skip
  | none =>
  match rules.lineSkipAt (c :: cs) with
  | some skip => .line skip
  | none =>
  if c = rules.escape then .escape
  else if rules.delimiters.contains c then .delimiter
  else if rules.quotes.contains c then .quote
  else match rules.closerOf c with
  | some closer => .opener closer
  | none =>
  if rules.isCloser c then .closer
  else if c = rules.terminator then .terminator
  else match rules.punctuatorAt (c :: cs) with
  | some p => .punctuator p
  | none => .plain

/-- The characters of the word a text starts with: plain characters, and escape characters each
with the character behind it. -/
def wordChars (rules : LexicalRules) : List Char → List Char
  | [] => []
  | c :: cs =>
    match rules.lead c cs with
    | .plain => c :: wordChars rules cs
    | .escape =>
      match cs with
      | [] => [c]
      | d :: ds => c :: d :: wordChars rules ds
    | _ => []

/-- The characters behind an opening quote, up to the closing quote and with it. -/
def literalChars (escape quote : Char) : List Char → Option (List Char)
  | [] => none
  | c :: cs =>
    if c = escape then
      match cs with
      | [] => none
      | d :: ds => (literalChars escape quote ds).map fun body => c :: d :: body
    else if c = quote then some [c]
    else (literalChars escape quote cs).map (c :: ·)

/-- The characters of a text up to the first `closer` and with it. -/
def blockChars (closer : List Char) : List Char → Option (List Char)
  | [] => if closer.isEmpty then some [] else none
  | c :: cs =>
    if closer.isPrefixOf (c :: cs) then some closer
    else (blockChars closer cs).map (c :: ·)

/-- The characters of a text before the first newline. -/
def lineChars (cs : List Char) : List Char := cs.takeWhile (· != '\n')

/-- The piece that the text `c :: cs` starts with. -/
def pieceAt (rules : LexicalRules) (c : Char) (cs : List Char) : Except Unended Piece :=
  match rules.lead c cs with
  | .block skip =>
    match blockChars skip.closer ((c :: cs).drop skip.opener.length) with
    | some chars => .ok ⟨.skipped skip.tag, skip.opener ++ chars⟩
    | none => .error .block
  | .line skip =>
    .ok ⟨.skipped skip.tag, skip.marker ++ lineChars ((c :: cs).drop skip.marker.length)⟩
  | .delimiter => .ok ⟨.delimiter, [c]⟩
  | .quote =>
    match literalChars rules.escape c cs with
    | some chars => .ok ⟨.token .literal, c :: chars⟩
    | none => .error .literal
  | .opener closer => .ok ⟨.token (.groupOpen c closer), [c]⟩
  | .closer => .ok ⟨.token (.groupClose c), [c]⟩
  | .terminator => .ok ⟨.token .terminator, [c]⟩
  | .punctuator chars => .ok ⟨.token .punctuator, chars⟩
  | .escape | .plain =>
    let chars := rules.wordChars (c :: cs)
    .ok ⟨if (unescape rules.escape chars).isEmpty then .danglingEscape else .token .word, chars⟩

end LexicalRules

/-- The pieces of a text, up to the first thing without an end. -/
structure Scan where
  pieces : List Piece
  unended : Option Unended
deriving DecidableEq, Repr

namespace Scan

def cons (p : Piece) (s : Scan) : Scan := { s with pieces := p :: s.pieces }

/-- Scans a text whose first `skip` characters belong to a piece already found. -/
def ofChars (rules : LexicalRules) : (skip : Nat) → List Char → Scan
  | _, [] => ⟨[], none⟩
  | skip + 1, _ :: cs => ofChars rules skip cs
  | 0, c :: cs =>
    match rules.pieceAt c cs with
    | .ok p => cons p (ofChars rules (p.chars.length - 1) cs)
    | .error u => ⟨[], some u⟩

end Scan

/-- The scan of a whole text. -/
def LexicalRules.scan (rules : LexicalRules) (text : List Char) : Scan :=
  Scan.ofChars rules 0 text

end ShaderInterface
