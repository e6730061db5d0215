import ShaderInterface.Kind

/-!
# Command lines

The arguments name headers, each for one kind, and say what happens with the text. An option that
takes a value takes it behind an equals sign or as the next argument, which then may not look like an
option. Behind `--` every argument names a header.
-/
namespace ShaderInterface

structure Invocation where
  /-- Headers named without an option. -/
  inputs : List String := []
  /-- The kind of these; vertex input unless given. -/
  kind? : Option Kind := none
  vertex : List String := []
  constant : List String := []
  structured : List String := []
  /-- The file to write instead of printing. -/
  out? : Option String := none
  /-- Whether to open the browser. -/
  browse : Bool := false
  verbose : Bool := false
deriving DecidableEq, Repr

/-- Why arguments are not understood. -/
inductive UsageError where
  | unknownOption (text : String)
  | missingValue (name : String)
  | unneededValue (name : String)
  | badKind (text : String)
  | repeated (name : String)
deriving DecidableEq, Repr

def UsageError.message : UsageError → String
  | .unknownOption text => s!"unexpected argument '{text}'"
  | .missingValue name => s!"a value is required for '{name}'"
  | .unneededValue name => s!"'{name}' takes no value"
  | .badKind text => s!"invalid value '{text}' for '--kind'"
  | .repeated name => s!"'{name}' cannot be used multiple times"

/-- An option that takes a value. -/
inductive ValueOption where
  | kind
  | vertex
  | constant
  | structured
  | out
deriving DecidableEq, Repr

/-- An option without a value. -/
inductive FlagOption where
  | browse
  | verbose
deriving DecidableEq, Repr

/-- The kind that a word names on the command line. -/
def Kind.ofWord? : String → Option Kind
  | "vertex" => some .vertexInput
  | "cbuffer" => some .constantBuffer
  | "structured" => some .structuredBuffer
  | _ => none

namespace Invocation

def valueOption? : String → Option ValueOption
  | "kind" => some .kind
  | "vertex" => some .vertex
  | "cbuffer" => some .constant
  | "structured" => some .structured
  | "out" => some .out
  | _ => none

def flagOption? : String → Option FlagOption
  | "tui" => some .browse
  | "verbose" => some .verbose
  | _ => none

/-- Sets an option to a value. -/
def set (i : Invocation) (option : ValueOption) (name value : String) :
    Except UsageError Invocation :=
  if value.isEmpty then .error (.missingValue name)
  else match option with
  | .kind =>
    if i.kind?.isSome then .error (.repeated name)
    else match Kind.ofWord? value with
    | some kind => .ok { i with kind? := some kind }
    | none => .error (.badKind value)
  | .vertex => .ok { i with vertex := i.vertex ++ [value] }
  | .constant => .ok { i with constant := i.constant ++ [value] }
  | .structured => .ok { i with structured := i.structured ++ [value] }
  | .out => if i.out?.isSome then .error (.repeated name) else .ok { i with out? := some value }

/-- Sets a flag, which can be given once. -/
def raise (i : Invocation) (flag : FlagOption) (name : String) : Except UsageError Invocation :=
  match flag with
  | .browse => if i.browse then .error (.repeated name) else .ok { i with browse := true }
  | .verbose => if i.verbose then .error (.repeated name) else .ok { i with verbose := true }

/-- Adds a header named without an option. -/
def addInput (i : Invocation) (path : String) : Except UsageError Invocation :=
  if path.isEmpty then .error (.missingValue "inputs") else .ok { i with inputs := i.inputs ++ [path] }

/-- Adds headers named without an option. -/
def addInputs (i : Invocation) (paths : List String) : Except UsageError Invocation :=
  paths.foldlM addInput i

/-- The letters of an argument with a single dash; every one of them is a flag. -/
def raiseLetters (i : Invocation) : List Char → Except UsageError Invocation
  | [] => .ok i
  | 'v' :: cs =>
    match i.raise .verbose "-v" with
    | .ok i => i.raiseLetters cs
    | .error e => .error e
  | c :: _ => .error (.unknownOption s!"-{c}")

/-- How an argument reads. -/
inductive Argument where
  | separator
  /-- Two dashes, a name, and a value if there is an equals sign. -/
  | long (name : String) (value? : Option String)
  /-- One dash and the letters behind it. -/
  | short (letters : List Char)
  | plain (text : String)
deriving DecidableEq, Repr

/-- The value behind the first equals sign. -/
def valueBehind? : List Char → Option String
  | [] => none
  | c :: cs => if c = '=' then some (String.ofList cs) else valueBehind? cs

def Argument.ofText (s : String) : Argument :=
  match s.toList with
  | ['-', '-'] => .separator
  | '-' :: '-' :: cs => .long (String.ofList (cs.takeWhile (· != '='))) (valueBehind? cs)
  | ['-'] => .plain s
  | '-' :: cs => .short cs
  | _ => .plain s

/-- Reads arguments; with `pending`, the next one has to be the value of that option. -/
def readFrom (i : Invocation) (pending : Option (ValueOption × String)) :
    List String → Except UsageError Invocation
  | [] =>
    match pending with
    | some (_, name) => .error (.missingValue name)
    | none => .ok i
  | arg :: args =>
    match pending, Argument.ofText arg with
    | some (option, name), .plain value =>
      match i.set option name value with
      | .ok i => i.readFrom none args
      | .error e => .error e
    | some (_, name), _ => .error (.missingValue name)
    | none, .plain path =>
      match i.addInput path with
      | .ok i => i.readFrom none args
      | .error e => .error e
    | none, .separator => i.addInputs args
    | none, .short letters =>
      match i.raiseLetters letters with
      | .ok i => i.readFrom none args
      | .error e => .error e
    | none, .long name value? =>
      match valueOption? name, flagOption? name, value? with
      | some option, _, some value =>
        match i.set option name value with
        | .ok i => i.readFrom none args
        | .error e => .error e
      | some option, _, none => i.readFrom (some (option, name)) args
      | none, some _, some _ => .error (.unneededValue name)
      | none, some flag, none =>
        match i.raise flag name with
        | .ok i => i.readFrom none args
        | .error e => .error e
      | none, none, _ => .error (.unknownOption arg)

/-- The invocation that a list of arguments asks for. -/
def ofArguments (args : List String) : Except UsageError Invocation :=
  ({} : Invocation).readFrom none args

/-- The kind of headers named without an option. -/
def kind (i : Invocation) : Kind := i.kind?.getD .vertexInput

/-- The headers with their kinds in the order in which they are added. -/
def sources (i : Invocation) : List (String × Kind) :=
  i.inputs.map (·, i.kind) ++ i.vertex.map (·, .vertexInput) ++
    i.constant.map (·, .constantBuffer) ++ i.structured.map (·, .structuredBuffer)

end Invocation

end ShaderInterface
