import ShaderInterface.Catalog
import ShaderInterface.Text.Lines

/-!
# Shader text

The text of a kind holds the aggregates of that kind, one block of lines each, with an empty line
between blocks. Before it is written, `checkRegisters` makes sure that no two of them claim one
register.
-/
namespace ShaderInterface

/-- How text is written. -/
structure EmitOptions where
  /-- Whether the text starts with a comment that says where it comes from. -/
  header : Bool := true
  /-- Blanks before a field. -/
  indent : Nat := 4
deriving DecidableEq, Repr

/-- Refuses an aggregate that claims a register of one before it; `claimed` are those before. -/
def checkClaims (kind : Kind) (letter : Char) (claimed : List Aggregate) :
    List Aggregate → Except CompileError Unit
  | [] => .ok ()
  | a :: as =>
    match a.register with
    | none => checkClaims kind letter claimed as
    | some slot =>
      match claimed.find? fun b => b.register == some slot with
      | some first =>
        .error (.registerConflict kind ⟨letter, slot⟩ first.qualified a.qualified a.location
          a.sourceIndex)
      | none => checkClaims kind letter (a :: claimed) as

/-- Refuses two aggregates of a kind that claim one register. -/
def checkRegisters (kind : Kind) (types : List Aggregate) : Except CompileError Unit :=
  match kind.registerLetter? with
  | none => .ok ()
  | some letter => checkClaims kind letter [] (types.filter fun a => a.kind == kind)

namespace Emission

def headerLine : String :=
  "// Generated by shaderdecl from annotated struct headers. Do not edit."

/-- The line that opens an aggregate. -/
def titleLine (kind : Kind) (a : Aggregate) : String :=
  match kind, a.register with
  | .constantBuffer, some slot => s!"cbuffer {a.name} : register(b{slot})"
  | .constantBuffer, none => s!"cbuffer {a.name}"
  | _, _ => s!"struct {a.name}"

/-- The line of a field. -/
def memberLine (kind : Kind) (indent : Nat) (m : Member) : String :=
  let field := String.ofList (List.replicate indent ' ') ++ s!"{m.type.text} {m.name}"
  match kind with
  | .vertexInput => field ++ s!" : {m.semantic};"
  | _ => field ++ ";"

/-- The comment behind an element of a structured buffer that claims a register. -/
def strideLines (kind : Kind) (a : Aggregate) : List String :=
  match kind, a.register with
  | .structuredBuffer, some slot => [s!"// register(t{slot}), stride {a.size}"]
  | _, _ => []

/-- The line below the title. -/
def openLine : String := String.ofList ['{']

/-- The line behind the fields. -/
def closeLine : String := String.ofList ['}', ';']

/-- The lines of an aggregate. -/
def block (kind : Kind) (indent : Nat) (a : Aggregate) : List String :=
  [titleLine kind a, openLine] ++ a.members.map (memberLine kind indent) ++ [closeLine] ++
    strideLines kind a

/-- Blocks one behind the other, with an empty line between two. -/
def joinBlocks : List (List String) → List String
  | [] => []
  | [b] => b
  | b :: bs => b ++ [""] ++ joinBlocks bs

end Emission

/-- The text of the aggregates of a kind. -/
def emit (kind : Kind) (types : List Aggregate) (options : EmitOptions) : String :=
  let blocks := (types.filter fun a => a.kind == kind).map (Emission.block kind options.indent)
  Text.unlines ((if options.header then [Emission.headerLine] else []) ++ Emission.joinBlocks blocks)

end ShaderInterface
