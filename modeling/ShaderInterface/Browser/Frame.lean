import ShaderInterface.Browser.Basic
import ShaderInterface.Browser.Highlight

/-!
# Frames of the browser

A frame has three panes side by side and a status line below them. Before it is drawn the first rows
are settled, so that the last page of a pane stays filled; a pane that shows a message instead of rows
keeps its first row.
-/
namespace ShaderInterface.Browser

/-! ## Rows of the panes -/

/-- A header line with its number. -/
def sourceRow (errorLine : Option Nat) (number : Nat) (line : String) : List Span :=
  let digits := Text.decimalRight 4 number ++ " "
  if errorLine = some number then
    let mark : Style := { foreground := .white, background := Palette.error, bold := true }
    Span.ofText digits (Palette.boldInk Palette.error) ::
      (Highlight.spans line).map fun s => { s with style := mark }
  else Span.ofText digits (Palette.ink Palette.comment) :: Highlight.spans line

/-- The rows of the source pane. -/
def sourceRows (b : Browser) : List (List Span) :=
  (Text.lines b.source).mapIdx fun i line => sourceRow b.errorLine (i + 1) line

/-- The row that stands for unused bytes. -/
def paddingRows (bytes : Nat) : List (List Span) :=
  if bytes = 0 then []
  else [[Span.ofText s!"        ({bytes} bytes padding)" (Palette.ink Palette.padding)]]

/-- The row of an aggregate. -/
def aggregateRow (kind : Kind) (a : Aggregate) : List Span :=
  let register := match kind.registerLetter?, a.register with
    | some letter, some slot =>
      [Span.ofText s!"  register({Register.text ⟨letter, slot⟩})" (Palette.ink Palette.semantic)]
    | _, _ => []
  [Span.ofText a.qualified (Palette.boldInk Palette.typeName),
    Span.ofText s!"  {a.size} bytes" (Palette.ink Palette.number)] ++ register

/-- The row of a field. -/
def memberRow (kind : Kind) (m : Member) : List Span :=
  let semantic := if kind = .vertexInput then
      [Span.ofText s!" : {m.semantic}" (Palette.ink Palette.semantic)]
    else []
  [Span.ofText s!"  {Text.decimalRight 4 m.placement.offset} " (Palette.ink Palette.number),
    Span.ofText (Text.padRight 9 m.type.text) (Palette.ink Palette.typeName),
    Span.ofText m.name (Palette.ink Palette.plain)] ++ semantic

/-- The rows of an aggregate, its fields and its unused bytes. -/
def aggregateRows (kind : Kind) (a : Aggregate) : List (List Span) :=
  aggregateRow kind a ::
    (a.members.flatMap fun m => paddingRows m.placement.padding ++ [memberRow kind m]) ++
    paddingRows a.tailPadding

/-- The rows of the catalog pane. -/
def catalogRows (b : Browser) : List (List Span) := b.types.flatMap (aggregateRows b.kind)

/-- The style of a line of shader text. -/
def outputStyle (line : String) : Style :=
  let cs := line.toList.dropWhile Text.isBlank
  if ['/', '/'].isPrefixOf cs then Palette.ink Palette.comment
  else if "struct".toList.isPrefixOf cs || "cbuffer".toList.isPrefixOf cs then
    Palette.boldInk Palette.keyword
  else Palette.ink Palette.plain

/-- The rows of the output pane. -/
def outputRows (text : String) : List (List Span) :=
  (Text.lines text).map fun line => [Span.ofText line (outputStyle line)]

/-! ## Scrolling -/

/-- The height of the panes of a screen. -/
def paneHeight (height : Nat) : Nat := height - 1

/-- Rows that scrolling takes for visible in a pane of this height. -/
def visibleRows (paneHeight : Nat) : Nat := max (paneHeight - 2) 1

/-- The first row, moved back so that the last page of `total` rows stays filled. -/
def clamp (total visible first : Nat) : Nat := if total > visible then min first (total - visible) else 0

/-- The rows from `first` on that are visible. -/
def window {α : Type} (visible first : Nat) (rows : List α) : List α := (rows.drop first).take visible

/-- The browser with the first rows that a screen of this height allows. -/
def settle (b : Browser) (height : Nat) : Browser :=
  let visible := visibleRows (paneHeight height)
  { b with
    scroll :=
      { source := clamp (sourceRows b).length visible b.scroll.source
        catalog :=
          if b.types.isEmpty then b.scroll.catalog
          else clamp (catalogRows b).length visible b.scroll.catalog
        output :=
          match b.output with
          | none => b.scroll.output
          | some text => clamp (outputRows text).length visible b.scroll.output } }

/-! ## Drawing -/

/-- The source pane. -/
def sourcePane (b : Browser) (width height : Nat) : List (List Cell) :=
  let rows := window (visibleRows height) b.scroll.source (sourceRows b)
  Screen.box width height (Palette.border (b.focus == .source)) " Source " {} (rows.map spanCells)

/-- The catalog pane; its rows keep a distance of one cell from the border. -/
def catalogPane (b : Browser) (width height : Nat) : List (List Cell) :=
  let border := Palette.border (b.focus == .catalog)
  let title := s!" Catalog ({b.kind.message}) "
  if b.types.isEmpty then
    let style := Palette.ink Palette.comment
    Screen.box width height border title style [(Span.ofText "(no types)" style).cells]
  else
    let rows := window (visibleRows height) b.scroll.catalog (catalogRows b)
    Screen.box width height border title {} (rows.map fun row => Screen.blank {} :: spanCells row)

/-- The output pane. -/
def outputPane (b : Browser) (width height : Nat) : List (List Cell) :=
  let border := Palette.border (b.focus == .output)
  let title := s!" Output ({b.kind.message}) "
  match b.output with
  | none =>
    let style := Palette.ink Palette.error
    Screen.box width height border title style
      [(Span.ofText "(generation failed, see status bar)" style).cells]
  | some text =>
    let rows := window (visibleRows height) b.scroll.output (outputRows text)
    Screen.box width height border title {} (rows.map spanCells)

/-- Text of a colour on the background of the status line. -/
def statusInk (colour : Colour) : Style :=
  { foreground := colour, background := Palette.statusBackground }

/-- Bold black text on a colour. -/
def badge (colour : Colour) : Style := { foreground := .black, background := colour, bold := true }

/-- The left half of the status line: the number of aggregates and the message. -/
def statusLeft (b : Browser) : List Span :=
  [Span.ofText s!" {b.session.size} types "
      (badge (if b.isError then Palette.error else Palette.primary)),
    Span.ofText " | " (statusInk Palette.comment),
    Span.ofText s!" {b.status} " (statusInk (if b.isError then Palette.error else Palette.plain))]

/-- The name of a kind in the status line. -/
def kindLabel : Kind → String
  | .vertexInput => " VERTEX "
  | .constantBuffer => " CBUFFER "
  | .structuredBuffer => " STRUCTURED "

/-- The right half of the status line: what keys do, and the kind. -/
def statusRight (b : Browser) : List Span :=
  let key : Style := { foreground := .black, background := Palette.comment }
  let words := statusInk Palette.plain
  let bar := Span.ofText "│" (statusInk Palette.comment)
  [Span.ofText " ⇥ " key, Span.ofText " focus " words, bar, Span.ofText " " words,
    Span.ofText " ↑/↓ " key, Span.ofText " scroll " words, bar, Span.ofText " " words,
    Span.ofText " 1/2/3 " key, Span.ofText " kind " words, bar, Span.ofText " " words,
    Span.ofText "q" key, Span.ofText " quit " words, bar,
    Span.ofText (kindLabel b.kind) (badge (if b.isError then Palette.error else Palette.success))]

/-- The status line. -/
def statusRow (b : Browser) (width : Nat) : List Cell :=
  let fill : Style := { background := Palette.statusBackground }
  let left := width / 2
  Screen.fitLeft left fill (spanCells (statusLeft b)) ++
    Screen.fitRight (width - left) fill (spanCells (statusRight b))

/-- The whole screen: panes of two, one and a half and one and a half fifths of the width. -/
def frame (b : Browser) (width height : Nat) : List (List Cell) :=
  let tall := paneHeight height
  let source := width * 4 / 10
  let catalog := width * 3 / 10
  let panes := Screen.beside (sourcePane b source tall)
    (Screen.beside (catalogPane b catalog tall) (outputPane b (width - source - catalog) tall))
  (panes ++ [statusRow b width]).take height

/-- Draws the browser: settles its first rows and gives the frame. -/
def draw (b : Browser) (width height : Nat) : Browser × List (List Cell) :=
  let settled := b.settle height
  (settled, settled.frame width height)

end ShaderInterface.Browser
