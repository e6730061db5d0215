/-!
# A screen of cells

A screen is a list of rows of cells. A cell shows one character in a style; text to be shown is a list
of spans, each of one style.
-/
namespace ShaderInterface

inductive Colour where
  /-- What the terminal shows by itself. -/
  | reset
  | black
  | white
  | rgb (red green blue : Nat)
deriving DecidableEq, Repr

structure Style where
  foreground : Colour := .reset
  background : Colour := .reset
  bold : Bool := false
deriving DecidableEq, Repr

structure Cell where
  char : Char
  style : Style
deriving DecidableEq, Repr

structure Span where
  chars : List Char
  style : Style
deriving DecidableEq, Repr

/-- A span of a text. -/
def Span.ofText (text : String) (style : Style) : Span := ⟨text.toList, style⟩

/-- The cells of a span. -/
def Span.cells (s : Span) : List Cell := s.chars.map (⟨·, s.style⟩)

/-- The cells of spans one behind the other. -/
def spanCells (spans : List Span) : List Cell := spans.flatMap Span.cells

namespace Screen

/-- A blank cell. -/
def blank (style : Style) : Cell := ⟨' ', style⟩

/-- Cells cut to a width, or filled up to it with blanks at the right. -/
def fitLeft (width : Nat) (fill : Style) (cells : List Cell) : List Cell :=
  cells.take width ++ List.replicate (width - cells.length) (blank fill)

/-- Cells cut to a width, or filled up to it with blanks at the left. -/
def fitRight (width : Nat) (fill : Style) (cells : List Cell) : List Cell :=
  List.replicate (width - cells.length) (blank fill) ++ cells.take width

/-- Rows side by side. -/
def beside (left right : List (List Cell)) : List (List Cell) :=
  List.zipWith (· ++ ·) left right

/-- The part of a pane inside its border. -/
def boxRow (width : Nat) (border : Style) (inside : List Cell) : List Cell :=
  ⟨'│', border⟩ :: inside.take (width - 2) ++ [⟨'│', border⟩]

/-- The upper border of a pane with its title. -/
def boxTop (width : Nat) (border : Style) (title : String) : List Cell :=
  let shown := title.toList.take (width - 2)
  let line := List.replicate (width - 2 - shown.length) '─'
  ('┌' :: shown ++ line ++ ['┐']).map (⟨·, border⟩)

/-- The lower border of a pane. -/
def boxBottom (width : Nat) (border : Style) : List Cell :=
  ('└' :: List.replicate (width - 2) '─' ++ ['┘']).map (⟨·, border⟩)

/-- A pane: a border with a title around rows. Each row is cut or filled to the inside; missing rows
are blank, all in the style `fill`. -/
def box (width height : Nat) (border : Style) (title : String) (fill : Style)
    (rows : List (List Cell)) : List (List Cell) :=
  let inside := rows.take (height - 2) ++ List.replicate (height - 2 - rows.length) []
  let middle := inside.map fun row => boxRow width border (fitLeft (width - 2) fill row)
  (boxTop width border title :: middle ++ [boxBottom width border]).take height

end Screen

end ShaderInterface
