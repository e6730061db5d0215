/-!
# Lines of a text

A line ends with a newline, which is not part of it; neither is a carriage return right before
that newline. A last line without a newline is a line only if it has characters, and it keeps a
carriage return at its end.
-/
namespace ShaderInterface.Text

/-- The characters of a finished line, given in reverse. -/
def finishLine : List Char → List Char
  | '\r' :: rev => rev.reverse
  | rev => rev.reverse

/-- Lines of `cs` when the characters `rev` (in reverse) already stand on the first one. -/
def linesFrom (rev : List Char) : List Char → List (List Char)
  | [] => if rev.isEmpty then [] else [rev.reverse]
  | c :: cs => if c = '\n' then finishLine rev :: linesFrom [] cs else linesFrom (c :: rev) cs

/-- The lines of a text, without their ends. -/
def lines (s : String) : List String :=
  (linesFrom [] s.toList).map String.ofList

/-- The text in which every line is followed by a newline. -/
def unlines (ls : List String) : String :=
  String.ofList (ls.flatMap fun l => l.toList ++ ['\n'])

@[simp] theorem toList_unlines (ls : List String) :
    (unlines ls).toList = ls.flatMap fun l => l.toList ++ ['\n'] := by
  simp [unlines]

end ShaderInterface.Text
