import ShaderInterface.Lexical.Tokenize
import ShaderInterface.Text.Numeral

/-!
# Classified tokens

Words are told apart as keywords, integers and identifiers, and every token gets its location. The
list of tokens of a text ends with an end-of-file token.
-/
namespace ShaderInterface

inductive TokenKind where
  | keyword
  | identifier
  | integer
  | punctuator
  | grouper
  | stringLiteral
  | unknown
  | eof
deriving DecidableEq, Repr

def TokenKind.message : TokenKind → String
  | .keyword => "keyword"
  | .identifier => "identifier"
  | .integer => "integer literal"
  | .punctuator => "punctuator"
  | .grouper => "grouping character"
  | .stringLiteral => "string literal"
  | .unknown => "unrecognized text"
  | .eof => "end of file"

structure Token where
  kind : TokenKind
  text : String
  location : Location
  length : Nat
deriving DecidableEq, Repr

namespace Token

/-- How an error message names a token. -/
def message (t : Token) : String :=
  match t.kind with
  | .keyword | .punctuator | .grouper => s!"'{t.text}'"
  | .eof => t.kind.message
  | .stringLiteral => s!"{t.kind.message} \"{t.text}\""
  | _ => s!"{t.kind.message} '{t.text}'"

def isKeyword (t : Token) (word : String) : Bool := t.kind = .keyword && t.text == word

def isPunctuator (t : Token) (text : String) : Bool := t.kind = .punctuator && t.text == text

/-- Whether `t` is a grouping character whose text starts with `c`. -/
def isGrouper (t : Token) (c : Char) : Bool := t.kind = .grouper && t.text.toList.head? == some c

def isIdentifier (t : Token) : Bool := t.kind = .identifier

end Token

/-- Whether a word is a name: a letter or underscore, then letters, numerals and underscores. -/
def isName : List Char → Bool
  | [] => false
  | c :: cs => (Text.isLetter c || c == '_') && cs.all Text.isWordChar

/-- The kind of a word. -/
def LexicalRules.classify (rules : LexicalRules) (word : String) : TokenKind :=
  if rules.keywords.contains word then .keyword
  else match word.toList with
  | [] => .unknown
  | c :: cs =>
    if '0' ≤ c ∧ c ≤ '9' then .integer
    else if isName (c :: cs) then .identifier
    else .unknown

/-- The kind of a token. -/
def RawToken.kind (rules : LexicalRules) (t : RawToken) : TokenKind :=
  match t.shape with
  | .word => rules.classify t.text
  | .punctuator | .terminator => .punctuator
  | .groupOpen _ _ | .groupClose _ => .grouper
  | .literal => .stringLiteral

/-- The classified tokens of a text, with the end-of-file token, and what was skipped. -/
structure Lexed where
  tokens : List Token
  skipped : List SkippedRegion
deriving DecidableEq, Repr

/-- The end-of-file token of a text. -/
def endToken (source : List Char) : Token :=
  ⟨.eof, "", locate source (Text.byteLength source), 0⟩

/-- The classified tokens of a text. -/
def LexicalRules.lex (rules : LexicalRules) (source : String) : Except LexError Lexed :=
  match rules.tokenize source with
  | .error e => .error e
  | .ok found =>
    let tokens := found.tokens.map fun t =>
      ⟨t.kind rules, t.text, locate source.toList t.start, t.length⟩
    .ok ⟨tokens ++ [endToken source.toList], found.skipped⟩

end ShaderInterface
