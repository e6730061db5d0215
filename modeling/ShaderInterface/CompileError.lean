import ShaderInterface.Declaration.Reader
import ShaderInterface.Kind

/-!
# Why a header or a generation fails

Every failure behind the reading of files has one cause, its text, and mostly a place. The place lies
in the header that was being added, except for a conflict of registers, which says by itself which
header it lies in.
-/
namespace ShaderInterface

inductive CompileError where
  | lex (error : LexError)
  | parse (error : ParseError)
  /-- A struct with the name of an earlier one. -/
  | duplicateType (name : String) (location first : Location)
  /-- An alias whose target is neither a shader type nor an alias. -/
  | unresolvedAlias (name target : String) (location : Location)
  /-- A field whose type is neither a shader type nor an alias. -/
  | unknownType (type field aggregate : String) (location : Location)
  /-- A vertex input field whose semantic cannot be written. -/
  | invalidSemantic (field aggregate semantic : String) (location : Location)
  /-- Two structs of one kind that claim one register. -/
  | registerConflict (kind : Kind) (register : Register) (first second : String)
      (location : Location) (sourceIndex : Nat)
  /-- A question about the catalog of a session without one. -/
  | noCatalog
deriving DecidableEq, Repr

namespace CompileError

def message : CompileError → String
  | .lex e => e.message
  | .parse e => e.message
  | .duplicateType name location first =>
    s!"duplicate type '{name}' at {location.message}, first declared at {first.message}"
  | .unresolvedAlias name target location =>
    s!"alias '{name}' at {location.message} refers to unknown type '{target}'"
  | .unknownType type field aggregate location =>
    s!"field '{field}' of '{aggregate}' at {location.message} has unknown type '{type}'"
  | .invalidSemantic field aggregate semantic location =>
    s!"field '{field}' of '{aggregate}' at {location.message} has no usable semantic ('{semantic}')"
  | .registerConflict kind register first second location _ =>
    s!"{kind.message} '{second}' at {location.message} claims register {register.text}, " ++
      s!"already bound to '{first}'"
  | .noCatalog => "no type catalog: parse a source file first"

def location? : CompileError → Option Location
  | .lex e => some e.location
  | .parse e => some e.location
  | .duplicateType _ location _ => some location
  | .unresolvedAlias _ _ location => some location
  | .unknownType _ _ _ location => some location
  | .invalidSemantic _ _ _ location => some location
  | .registerConflict _ _ _ _ location _ => some location
  | .noCatalog => none

/-- Which of several headers the location lies in. -/
def sourceIndex? : CompileError → Option Nat
  | .registerConflict _ _ _ _ _ index => some index
  | _ => none

end CompileError

end ShaderInterface
