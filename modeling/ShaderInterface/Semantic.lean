import ShaderInterface.Token.Integer

/-!
# Semantics of vertex input fields

A semantic is a name with an index: the decimal digits at its end. A field without a semantic marker
takes its semantic from its name. Letters and digits are the ASCII ones throughout, as the shader
language knows no others.
-/
namespace ShaderInterface.Semantic

/-- The semantic of a field from its name: its letters and digits, as capitals. -/
def derive (name : String) : String :=
  String.ofList ((name.toList.filter Char.isAlphanum).map Char.toUpper)

/-- Whether a text can stand as a semantic: it starts with a letter or an underscore. -/
def isUsable (semantic : String) : Bool :=
  match semantic.toList with
  | [] => false
  | c :: _ => c.isAlpha || c == '_'

/-- The digits at the end of a text. -/
def indexDigits (cs : List Char) : List Char := (cs.reverse.takeWhile Char.isDigit).reverse

/-- The name and the index of a semantic. The index is zero without digits, and also when their
value is not below the limit of integer literals. -/
def split (semantic : String) : String × Nat :=
  let cs := semantic.toList
  let digits := indexDigits cs
  (String.ofList (cs.take (cs.length - digits.length)), (Integer.digits? 10 digits).getD 0)

end ShaderInterface.Semantic
