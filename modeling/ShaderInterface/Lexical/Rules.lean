import ShaderInterface.Text.Basic

/-!
# Lexical rules

`LexicalRules` says how a header is cut into pieces: which characters separate words, which texts
start a comment or a directive, which characters open and close groups, which quote literals, and
which texts are punctuators. The rules are data, so the scanner works for any table;
`LexicalRules.headers` is the one of annotated struct headers.
-/
namespace ShaderInterface

/-- Why a region of the text is skipped. -/
inductive SkipTag where
  | comment
  | directive
deriving DecidableEq, Repr

/-- A region that starts with `marker` and goes on to the end of the line. -/
structure LineSkip where
  marker : List Char
  tag : SkipTag
deriving DecidableEq, Repr

/-- A region from `opener` to the first `closer` behind it. -/
structure BlockSkip where
  opener : List Char
  closer : List Char
  tag : SkipTag
deriving DecidableEq, Repr

/-- A pair of grouping characters. -/
structure Group where
  opener : Char
  closer : Char
deriving DecidableEq, Repr

/-- The table a scan works from. -/
structure LexicalRules where
  /-- Ends a declaration. -/
  terminator : Char
  /-- Makes the next character part of a word or a literal, whatever it is. -/
  escape : Char
  /-- Separate words and mean nothing else. -/
  delimiters : List Char := []
  lineSkips : List LineSkip := []
  blockSkips : List BlockSkip := []
  groups : List Group := []
  quotes : List Char := []
  /-- In the order in which they are tried, the longest first. -/
  punctuators : List (List Char) := []
  keywords : List String := []
deriving Repr

namespace LexicalRules

/-- Whether `p` is tried before `q`: the one with more bytes, and of two with equally many the one
that comes first in the order of code points. -/
def triedBefore (p q : List Char) : Bool :=
  Text.byteLength q < Text.byteLength p ||
    (Text.byteLength q == Text.byteLength p && !q.lex p fun c d => c.toNat < d.toNat)

/-- Puts `p` before the first punctuator that is not tried before it. -/
def insertPunctuator (p : List Char) : List (List Char) → List (List Char)
  | [] => [p]
  | q :: qs => if triedBefore p q then p :: q :: qs else q :: insertPunctuator p qs

/-- Adds a punctuator to the table. -/
def addPunctuator (rules : LexicalRules) (p : String) : LexicalRules :=
  { rules with punctuators := insertPunctuator p.toList rules.punctuators }

/-- Adds punctuators in order. -/
def addPunctuators (rules : LexicalRules) (ps : List String) : LexicalRules :=
  ps.foldl addPunctuator rules

/-- The first punctuator of the table that the text starts with. -/
def punctuatorAt (rules : LexicalRules) (text : List Char) : Option (List Char) :=
  rules.punctuators.find? fun p => p.isPrefixOf text

def blockSkipAt (rules : LexicalRules) (text : List Char) : Option BlockSkip :=
  rules.blockSkips.find? fun b => b.opener.isPrefixOf text

def lineSkipAt (rules : LexicalRules) (text : List Char) : Option LineSkip :=
  rules.lineSkips.find? fun l => l.marker.isPrefixOf text

/-- The closer of the first group that `c` opens. -/
def closerOf (rules : LexicalRules) (c : Char) : Option Char :=
  (rules.groups.find? fun g => g.opener == c).map Group.closer

def isCloser (rules : LexicalRules) (c : Char) : Bool :=
  rules.groups.any fun g => g.closer == c

/-- The rules of annotated struct headers. -/
def headers : LexicalRules :=
  addPunctuators
    { terminator := ';'
      escape := '\\'
      delimiters := [' ', '\t', '\r', '\n', '\x0c', '\x0b']
      lineSkips := [⟨['/', '/'], .comment⟩, ⟨['#'], .directive⟩]
      blockSkips := [⟨['/', '*'], ['*', '/'], .comment⟩]
      groups := [⟨'(', ')'⟩, ⟨'{', '}'⟩, ⟨'[', ']'⟩]
      quotes := ['"', '\'']
      keywords := ["namespace", "struct", "class", "using", "alignas", "public", "private",
        "protected"] }
    ["::", ":", "=", ",", "<", ">", "*", "&", ".", "-", "+"]

end LexicalRules

end ShaderInterface
