import ShaderInterface.Declaration.Basic
import ShaderInterface.Token.Basic
import ShaderInterface.Token.Integer

/-!
# Reading declarations

The grammar, with terminals in quotes:

    item      = namespace | alias | struct | forward | ";"
    namespace = "namespace" name { "::" name } "{" { item } "}"
    alias     = "using" name "=" type ";"
    struct    = ( "struct" | "class" ) [ align ] name { marker } "{" { member } "}" [ ";" ]
    forward   = ( "struct" | "class" ) name ";"
    align     = "alignas" "(" integer ")"
    member    = access ":" | type name { marker } ";"
    type      = [ "::" ] name { "::" name }
    marker    = "SEMANTIC" "(" name ")" | "REGISTER" "(" integer ")" | "INSTANCE_DATA" "(" integer ")"

A `Reader` takes one token at a time. Its phase says what it is in the middle of, its scopes are the
namespace blocks it is inside of. The token it cannot take is the one an error names, with two
exceptions: an alignment out of range is found once its token is taken, and a marker that a struct
cannot carry once all its markers are read.

The semicolon that may end a struct needs no phase of its own, because a single semicolon is an item.
-/
namespace ShaderInterface

/-- The three words that start a marker. -/
inductive MarkerWord where
  | semantic
  | register
  | instanceData
deriving DecidableEq, Repr

namespace MarkerWord

def text : MarkerWord → String
  | .semantic => "SEMANTIC"
  | .register => "REGISTER"
  | .instanceData => "INSTANCE_DATA"

/-- The marker that a token starts. -/
def ofToken? (t : Token) : Option MarkerWord :=
  if t.isIdentifier then
    if t.text == MarkerWord.semantic.text then some .semantic
    else if t.text == MarkerWord.register.text then some .register
    else if t.text == MarkerWord.instanceData.text then some .instanceData
    else none
  else none

end MarkerWord

def Marker.word : Marker → MarkerWord
  | .semantic _ => .semantic
  | .register _ => .register
  | .instanceData _ => .instanceData

/-- What a reader waits for. -/
inductive Expected where
  | item
  | namespaceName
  | pathName
  | namespaceBody
  | namespaceEnd
  | aliasName
  | aliasEquals
  | aliasEnd
  | typeName
  | structName
  | alignOpen
  | alignValue
  | alignRange
  | alignClose
  | structBody
  | structEnd
  | onlyRegister
  | accessColon
  | fieldName
  | fieldEnd
  | markerOpen (word : MarkerWord)
  | markerValue (word : MarkerWord)
  | markerClose (word : MarkerWord)
deriving DecidableEq, Repr

/-- The greatest alignment a struct can ask for. -/
def maxStructAlignment : Nat := 256

/-- A brace as messages show it. -/
def quoted (brace : Char) : String := s!"'{brace}'"

def Expected.message : Expected → String
  | .item => "'namespace', 'using', 'struct' or 'class'"
  | .namespaceName => "identifier after 'namespace'"
  | .pathName => "identifier after '::'"
  | .namespaceBody => quoted '{' ++ " after namespace name"
  | .namespaceEnd => quoted '}' ++ " to close namespace"
  | .aliasName => "identifier after 'using'"
  | .aliasEquals => "'=' after alias name"
  | .aliasEnd => "';' after alias declaration"
  | .typeName => "identifier for type name"
  | .structName => "identifier after 'struct'"
  | .alignOpen => "'(' after 'alignas'"
  | .alignValue => "non-negative integer in 'alignas'"
  | .alignRange => s!"power-of-two alignment up to {maxStructAlignment} in 'alignas'"
  | .alignClose => "')' after alignment"
  | .structBody => quoted '{' ++ " after struct name"
  | .structEnd => quoted '}' ++ " after struct fields"
  | .onlyRegister => s!"only {MarkerWord.register.text} on a struct"
  | .accessColon => "':' after access specifier"
  | .fieldName => "identifier for field name"
  | .fieldEnd => "';' after struct field"
  | .markerOpen word => s!"'(' after {word.text}"
  | .markerValue .semantic => s!"identifier in {MarkerWord.semantic.text} marker"
  | .markerValue word => s!"non-negative integer in {word.text} marker"
  | .markerClose word => s!"')' to close {word.text}"

/-- Why a list of tokens is no list of declarations. -/
structure ParseError where
  expected : Expected
  found : String
  location : Location
deriving DecidableEq, Repr

def ParseError.message (e : ParseError) : String :=
  s!"parse error at {e.location.message}: expected {e.expected.message}, found {e.found}"

/-- A struct up to its name. -/
structure StructHead where
  alignment : Option Nat
  name : Name
deriving DecidableEq, Repr

/-- A struct whose fields are being read. -/
structure StructBody where
  head : StructHead
  register : Option Nat
  fields : List FieldDecl
deriving DecidableEq, Repr

/-- What a type name is read for. -/
inductive TypeSite where
  | target (name : Name)
  | field (body : StructBody)
deriving DecidableEq, Repr

/-- What markers are read for. -/
inductive MarkerSite where
  | aggregate (head : StructHead)
  | field (body : StructBody) (type : TypeName) (name : Name)
deriving DecidableEq, Repr

/-- What a reader is in the middle of. -/
inductive Phase where
  | item
  | namespaceStart
  | namespaceColons (segments : List String)
  | namespaceName (segments : List String)
  | aliasStart
  | aliasName (name : Name)
  | typeStart (site : TypeSite)
  | typeRoot (site : TypeSite) (location : Location)
  | typeColons (site : TypeSite) (type : TypeName)
  | typeName (site : TypeSite) (type : TypeName)
  | structStart
  | alignStart
  | alignOpen
  | alignValue (alignment : Nat)
  | alignClose (alignment : Nat)
  | markers (site : MarkerSite) (found : List Marker)
  | markerWord (site : MarkerSite) (found : List Marker) (word : MarkerWord)
  | markerOpen (site : MarkerSite) (found : List Marker) (word : MarkerWord)
  | markerValue (site : MarkerSite) (found : List Marker) (marker : Marker)
  | members (body : StructBody)
  | access (body : StructBody)
deriving DecidableEq, Repr

/-- The first marker that a struct cannot carry. -/
def foreignMarker? (found : List Marker) : Option Marker :=
  found.find? fun m => m.register?.isNone

/-- The slot of the last register marker. -/
def lastRegister? (found : List Marker) : Option Nat :=
  (found.filterMap Marker.register?).getLast?

/-- What the next token of a phase has to be when it is none of the tokens that may also stand
there. -/
def Phase.expected : Phase → Expected
  | .item => .item
  | .namespaceStart => .namespaceName
  | .namespaceColons _ => .pathName
  | .namespaceName _ => .namespaceBody
  | .aliasStart => .aliasName
  | .aliasName _ => .aliasEquals
  | .typeStart _ => .typeName
  | .typeRoot _ _ => .typeName
  | .typeColons _ _ => .pathName
  | .typeName (.target _) _ => .aliasEnd
  | .typeName (.field _) _ => .fieldName
  | .structStart => .structName
  | .alignStart => .alignOpen
  | .alignOpen => .alignValue
  | .alignValue _ => .alignClose
  | .alignClose _ => .structName
  | .markers (.aggregate _) _ => .structBody
  | .markers (.field _ _ _) _ => .fieldEnd
  | .markerWord _ _ word => .markerOpen word
  | .markerOpen _ _ word => .markerValue word
  | .markerValue _ _ marker => .markerClose marker.word
  | .members _ => .typeName
  | .access _ => .accessColon

/-- The alignments a struct can ask for: the powers of two up to the greatest one. -/
def isStructAlignment (n : Nat) : Bool :=
  [1, 2, 4, 8, 16, 32, 64, 128, maxStructAlignment].contains n

/-- The value of an integer token. -/
def Token.integer? (t : Token) : Option Nat :=
  if t.kind = .integer then Integer.ofText? t.text else none

/-- A token as a name. -/
def Token.name (t : Token) : Name := ⟨t.text, t.location⟩

/-- A marker from its word and the token between the brackets. -/
def Marker.ofToken? (word : MarkerWord) (t : Token) : Option Marker :=
  match word with
  | .semantic => if t.isIdentifier then some (.semantic t.text) else none
  | .register => t.integer?.map .register
  | .instanceData => t.integer?.map .instanceData

def Token.isAccess (t : Token) : Bool :=
  t.isKeyword "public" || t.isKeyword "private" || t.isKeyword "protected"

def Token.isStruct (t : Token) : Bool := t.isKeyword "struct" || t.isKeyword "class"

/-- A reader between two tokens. -/
structure Reader where
  /-- The segments of the open namespace blocks, the innermost block first. -/
  scopes : List (List String)
  /-- What has been read so far, in order. -/
  declarations : List Declaration
  phase : Phase
deriving DecidableEq, Repr

/-- A refused token: the error, and whether the token counts as read. -/
structure Refusal where
  error : ParseError
  taken : Bool
deriving DecidableEq, Repr

namespace Reader

/-- The reader before the first token. -/
def start : Reader := ⟨[], [], .item⟩

/-- The path of the open namespace blocks, the outermost first. -/
def path (r : Reader) : List String := r.scopes.reverse.flatten

/-- The reader in another phase. -/
def goto (r : Reader) (phase : Phase) : Reader := { r with phase := phase }

/-- The reader behind a finished declaration. -/
def declare (r : Reader) (d : Declaration) : Reader :=
  { r with declarations := r.declarations ++ [d], phase := .item }

/-- The struct that ends here. -/
def finishStruct (r : Reader) (body : StructBody) : Reader :=
  r.declare (.aggregate
    { name := body.head.name.text
      path := r.path
      alignment := body.head.alignment
      register := body.register
      fields := body.fields
      location := body.head.name.location })

/-- The alias that ends here. -/
def finishAlias (r : Reader) (name : Name) (target : TypeName) : Reader :=
  r.declare (.typeAlias ⟨name.text, r.path, target, name.location⟩)

/-- The field that ends here. -/
def finishField (r : Reader) (body : StructBody) (type : TypeName) (name : Name)
    (markers : List Marker) : Reader :=
  r.goto (.members
    { body with fields := body.fields ++ [⟨name.text, type, markers, name.location⟩] })

/-- The refusal of a token that cannot stand here. -/
def unexpected (expected : Expected) (t : Token) : Except Refusal Reader :=
  .error ⟨⟨expected, t.message, t.location⟩, false⟩

/-- Takes a token behind the markers of a struct. -/
def stepHead (r : Reader) (head : StructHead) (found : List Marker) (t : Token) :
    Except Refusal Reader :=
  match foreignMarker? found with
  | some marker => .error ⟨⟨.onlyRegister, marker.word.text, head.name.location⟩, false⟩
  | none =>
    if t.isPunctuator ";" && head.alignment.isNone && (lastRegister? found).isNone then
      .ok (r.goto .item)
    else if t.isGrouper '{' then .ok (r.goto (.members ⟨head, lastRegister? found, []⟩))
    else unexpected .structBody t

/-- Takes a token where an item can start. -/
def stepItem (r : Reader) (t : Token) : Except Refusal Reader :=
  if t.isKeyword "namespace" then .ok (r.goto .namespaceStart)
  else if t.isKeyword "using" then .ok (r.goto .aliasStart)
  else if t.isStruct then .ok (r.goto .structStart)
  else if t.isPunctuator ";" then .ok r
  else match r.scopes with
  | [] => unexpected .item t
  | _ :: outer =>
    if t.isGrouper '}' then .ok { r with scopes := outer } else unexpected .item t

/-- Takes one token. -/
def step (r : Reader) (t : Token) : Except Refusal Reader :=
  let refused := unexpected r.phase.expected t
  match r.phase with
  | .item => r.stepItem t
  | .namespaceStart =>
    if t.isIdentifier then .ok (r.goto (.namespaceName [t.text])) else refused
  | .namespaceColons segments =>
    if t.isIdentifier then .ok (r.goto (.namespaceName (segments ++ [t.text]))) else refused
  | .namespaceName segments =>
    if t.isPunctuator "::" then .ok (r.goto (.namespaceColons segments))
    else if t.isGrouper '{' then .ok { r with scopes := segments :: r.scopes, phase := .item }
    else refused
  | .aliasStart => if t.isIdentifier then .ok (r.goto (.aliasName t.name)) else refused
  | .aliasName name =>
    if t.isPunctuator "=" then .ok (r.goto (.typeStart (.target name))) else refused
  | .typeStart site =>
    if t.isPunctuator "::" then .ok (r.goto (.typeRoot site t.location))
    else if t.isIdentifier then .ok (r.goto (.typeName site ⟨[t.text], t.location⟩))
    else refused
  | .typeRoot site location =>
    if t.isIdentifier then .ok (r.goto (.typeName site ⟨[t.text], location⟩)) else refused
  | .typeColons site type =>
    if t.isIdentifier then
      .ok (r.goto (.typeName site { type with segments := type.segments ++ [t.text] }))
    else refused
  | .typeName site type =>
    if t.isPunctuator "::" then .ok (r.goto (.typeColons site type))
    else match site with
    | .target name => if t.isPunctuator ";" then .ok (r.finishAlias name type) else refused
    | .field body =>
      if t.isIdentifier then .ok (r.goto (.markers (.field body type t.name) [])) else refused
  | .structStart =>
    if t.isKeyword "alignas" then .ok (r.goto .alignStart)
    else if t.isIdentifier then .ok (r.goto (.markers (.aggregate ⟨none, t.name⟩) []))
    else refused
  | .alignStart => if t.isGrouper '(' then .ok (r.goto .alignOpen) else refused
  | .alignOpen =>
    match t.integer? with
    | none => refused
    | some n =>
      if isStructAlignment n then .ok (r.goto (.alignValue n))
      else .error ⟨⟨.alignRange, t.message, t.location⟩, true⟩
  | .alignValue n => if t.isGrouper ')' then .ok (r.goto (.alignClose n)) else refused
  | .alignClose n =>
    if t.isIdentifier then .ok (r.goto (.markers (.aggregate ⟨some n, t.name⟩) [])) else refused
  | .markers site found =>
    match MarkerWord.ofToken? t with
    | some word => .ok (r.goto (.markerWord site found word))
    | none =>
      match site with
      | .aggregate head => r.stepHead head found t
      | .field body type name =>
        if t.isPunctuator ";" then .ok (r.finishField body type name found) else refused
  | .markerWord site found word =>
    if t.isGrouper '(' then .ok (r.goto (.markerOpen site found word)) else refused
  | .markerOpen site found word =>
    match Marker.ofToken? word t with
    | some marker => .ok (r.goto (.markerValue site found marker))
    | none => refused
  | .markerValue site found marker =>
    if t.isGrouper ')' then .ok (r.goto (.markers site (found ++ [marker]))) else refused
  | .members body =>
    if t.isGrouper '}' then .ok (r.finishStruct body)
    else if t.isAccess then .ok (r.goto (.access body))
    else if t.isPunctuator "::" then .ok (r.goto (.typeRoot (.field body) t.location))
    else if t.isIdentifier then .ok (r.goto (.typeName (.field body) ⟨[t.text], t.location⟩))
    else refused
  | .access body => if t.isPunctuator ":" then .ok (r.goto (.members body)) else refused

/-- The error of a reader that has no more tokens, or `none` if it is between items at file scope.
`stop` is the end-of-file token. -/
def atEnd? (r : Reader) (stop : Token) : Option ParseError :=
  let waiting (expected : Expected) : ParseError := ⟨expected, stop.message, stop.location⟩
  match r.phase with
  | .item => if r.scopes.isEmpty then none else some (waiting .namespaceEnd)
  | .members _ => some (waiting .structEnd)
  | .markers (.aggregate head) found =>
    match foreignMarker? found with
    | some marker => some ⟨.onlyRegister, marker.word.text, head.name.location⟩
    | none => some (waiting .structBody)
  | phase => some (waiting phase.expected)

end Reader

/-- What reading gave, and the tokens that are left for the next time. -/
structure ReadResult where
  result : Except ParseError (List Declaration)
  rest : List Token

/-- Goes on with reader `r` through the tokens before the end-of-file token `stop`. -/
def Reader.run (stop : Token) : Reader → List Token → ReadResult
  | r, [] =>
    match r.atEnd? stop with
    | none => ⟨.ok r.declarations, []⟩
    | some e => ⟨.error e, []⟩
  | r, t :: ts =>
    match r.step t with
    | .ok r => r.run stop ts
    | .error refusal => ⟨.error refusal.error, if refusal.taken then ts else t :: ts⟩

/-- Tokens still to be read, and the end-of-file token behind them. -/
structure TokenStream where
  ahead : List Token
  stop : Token
deriving DecidableEq, Repr

namespace TokenStream

/-- The end-of-file token that stands behind a list without one. -/
def endBehind (ts : List Token) : Token :=
  ⟨.eof, "", (ts.getLast?.map Token.location).getD ⟨0, 0, 0⟩, 0⟩

/-- The stream of a list of tokens; nothing behind its first end-of-file token is ever read. -/
def ofTokens (ts : List Token) : TokenStream :=
  let isEnd (t : Token) : Bool := t.kind = .eof
  ⟨ts.takeWhile fun t => !isEnd t, (ts.find? isEnd).getD (endBehind ts)⟩

/-- Reads declarations, and leaves the stream where reading stopped. -/
def read (s : TokenStream) : Except ParseError (List Declaration) × TokenStream :=
  let r := Reader.start.run s.stop s.ahead
  (r.result, { s with ahead := r.rest })

end TokenStream

end ShaderInterface
