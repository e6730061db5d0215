import ShaderInterface.Session
import ShaderInterface.Text.Lines

/-!
# The catalog browser

A browser shows a session for one kind at a time: the headers, the aggregates of the kind and its
text. Choosing a kind generates its text; if that fails, the status line says why and the line of the
headers that is to blame is marked.
-/
namespace ShaderInterface

/-- The pane that scrolling moves. -/
inductive Focus where
  | source
  | catalog
  | output
deriving DecidableEq, Repr

namespace Focus

/-- The pane to the right, or the first one. -/
def next : Focus → Focus
  | .source => .catalog
  | .catalog => .output
  | .output => .source

/-- The pane to the left, or the last one. -/
def previous : Focus → Focus
  | .source => .output
  | .catalog => .source
  | .output => .catalog

end Focus

/-- The first row that each pane shows. -/
structure Scroll where
  source : Nat
  catalog : Nat
  output : Nat
deriving DecidableEq, Repr

/-- Changes the row of one pane. -/
def Scroll.move (s : Scroll) (focus : Focus) (change : Nat → Nat) : Scroll :=
  match focus with
  | .source => { s with source := change s.source }
  | .catalog => { s with catalog := change s.catalog }
  | .output => { s with output := change s.output }

inductive Key where
  | char (c : Char)
  | escape
  | tab
  | backTab
  | up
  | down
  | pageUp
  | pageDown
  /-- Any other key. -/
  | other
deriving DecidableEq, Repr

/-- The key with a name: a single character is itself. -/
def Key.ofName : String → Key
  | "esc" => .escape
  | "tab" => .tab
  | "backtab" => .backTab
  | "up" => .up
  | "down" => .down
  | "pageup" => .pageUp
  | "pagedown" => .pageDown
  | name =>
    match name.toList with
    | [c] => .char c
    | _ => .other

/-- Rows that a page moves. -/
def pageRows : Nat := 10

structure Browser where
  session : Session
  /-- All headers, each on lines of its own. -/
  source : String
  /-- Number of lines before each header. -/
  lineStarts : List Nat
  kind : Kind
  /-- The aggregates of the kind. -/
  types : List Aggregate
  /-- The text of the kind; `none` if it cannot be generated. -/
  output : Option String
  focus : Focus
  scroll : Scroll
  /-- The line of the headers, counted from one, that the last error is about. -/
  errorLine : Option Nat
  quit : Bool
  status : String
  isError : Bool
deriving DecidableEq, Repr

namespace Browser

/-- The characters of a header, with a newline behind them if they do not end in one. -/
def endLine (cs : List Char) : List Char :=
  if cs.getLast? = some '\n' then cs else cs ++ ['\n']

/-- Headers one behind the other, each ended by a newline. -/
def joinSources (sources : List String) : String :=
  String.ofList (sources.flatMap fun s => endLine s.toList)

@[simp] theorem toList_joinSources (sources : List String) :
    (joinSources sources).toList = sources.flatMap fun s => endLine s.toList := by
  simp [joinSources]

/-- Number of lines before each header, when `before` lines stand before the first. -/
def countLines (before : Nat) : List String → List Nat
  | [] => []
  | s :: rest => before :: countLines (before + (Text.lines s).length) rest

/-- The line of the joined headers that an error is about. -/
def lineOf (lineStarts : List Nat) (e : CompileError) : Option Nat :=
  let before := (e.sourceIndex?.bind fun i => lineStarts[i]?).getD 0
  e.location?.map fun l => before + l.line

/-- Shows another kind, from its first row on. -/
def select (b : Browser) (kind : Kind) : Browser :=
  let types := match b.session.ofKind kind with
    | .ok types => types
    | .error _ => []
  let scroll := { b.scroll with catalog := 0, output := 0 }
  match b.session.generate kind with
  | (session, .ok text) =>
    { b with
      session := session, kind := kind, scroll := scroll, types := types, output := some text
      errorLine := none, status := s!"Generated {kind.message}", isError := false }
  | (session, .error e) =>
    { b with
      session := session, kind := kind, scroll := scroll, types := types, output := none
      errorLine := lineOf b.lineStarts e, status := e.message, isError := true }

/-- A browser of a session made from `sources`, in their order. -/
def new (session : Session) (sources : List String) (kind : Kind) : Browser :=
  select
    { session := session
      source := joinSources sources
      lineStarts := countLines 0 sources
      kind := kind
      types := []
      output := none
      focus := .source
      scroll := ⟨0, 0, 0⟩
      errorLine := none
      quit := false
      status := "Ready!"
      isError := false } kind

/-- Scrolls the pane in focus. -/
def scrollBy (b : Browser) (change : Nat → Nat) : Browser :=
  { b with scroll := b.scroll.move b.focus change }

/-- What a key does. -/
def press (b : Browser) : Key → Browser
  | .char 'q' => { b with quit := true }
  | .char 'Q' => { b with quit := true }
  | .escape => { b with quit := true }
  | .char '1' => b.select .vertexInput
  | .char '2' => b.select .constantBuffer
  | .char '3' => b.select .structuredBuffer
  | .tab => { b with focus := b.focus.next }
  | .backTab => { b with focus := b.focus.previous }
  | .up => b.scrollBy (· - 1)
  | .down => b.scrollBy (· + 1)
  | .pageUp => b.scrollBy (· - pageRows)
  | .pageDown => b.scrollBy (· + pageRows)
  | .char _ => b
  | .other => b

end Browser

end ShaderInterface
