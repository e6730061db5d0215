import ShaderInterface.Screen.Palette
import ShaderInterface.ShaderType
import ShaderInterface.Text.Numeral

/-!
# Highlighting a source line

A line is cut into spans: words, single characters between them, and a comment or directive that
takes the rest of the line. The spans put together are the line.
-/
namespace ShaderInterface.Highlight

/-- The style of a word. -/
def wordStyle (word : String) : Style :=
  if ["namespace", "struct", "class", "using", "alignas", "public", "private", "protected"].contains
      word then Palette.boldInk Palette.keyword
  else if ["SEMANTIC", "REGISTER", "INSTANCE_DATA"].contains word then Palette.ink Palette.semantic
  else if word.toList.head?.any Char.isDigit then Palette.ink Palette.number
  else if (ShaderType.ofSpelling? word).isSome then Palette.ink Palette.typeName
  else Palette.ink Palette.plain

/-- The style of a character outside words. -/
def charStyle (c : Char) : Style :=
  if ['{', '}', '(', ')', '[', ']'].contains c then Palette.ink Palette.primary
  else Palette.ink Palette.plain

/-- The span of a word given in reverse, if it has characters. -/
def wordSpans (rev : List Char) : List Span :=
  if rev.isEmpty then [] else [⟨rev.reverse, wordStyle (String.ofList rev.reverse)⟩]

/-- Whether the rest of the line is a comment or a directive; a directive has only blanks before it. -/
def startsNote (blankBefore : Bool) (cs : List Char) : Bool :=
  (blankBefore && cs.head? == some '#') || ['/', '/'].isPrefixOf cs

/-- The spans of the rest of a line behind the word `rev` (in reverse). -/
def spansFrom (rev : List Char) (blankBefore : Bool) : List Char → List Span
  | [] => wordSpans rev
  | c :: cs =>
    if startsNote blankBefore (c :: cs) then
      wordSpans rev ++ [⟨c :: cs, Palette.ink Palette.comment⟩]
    else
      let blankBefore := blankBefore && Text.isBlank c
      if Text.isWordChar c then spansFrom (c :: rev) blankBefore cs
      else wordSpans rev ++ ⟨[c], charStyle c⟩ :: spansFrom [] blankBefore cs

/-- The spans of a line. -/
def spans (line : String) : List Span := spansFrom [] true line.toList

end ShaderInterface.Highlight
