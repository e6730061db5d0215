/-!
# Kinds of shader declarations

A header is read for one kind, and so is every struct in it: the kind fixes how its fields are
packed, how it is written in the shader language and what it binds to.
-/
namespace ShaderInterface

inductive Kind where
  /-- A struct whose fields carry semantics, fed from vertex streams. -/
  | vertexInput
  | constantBuffer
  /-- The element type of a structured buffer. -/
  | structuredBuffer
deriving DecidableEq, Repr

namespace Kind

/-- All kinds, in the order in which they are written. -/
def all : List Kind := [.vertexInput, .constantBuffer, .structuredBuffer]

def message : Kind → String
  | .vertexInput => "vertex input struct"
  | .constantBuffer => "constant buffer"
  | .structuredBuffer => "structured buffer"

/-- The letter of the registers a kind binds to, if it binds to any. -/
def registerLetter? : Kind → Option Char
  | .vertexInput => none
  | .constantBuffer => some 'b'
  | .structuredBuffer => some 't'

theorem mem_all (k : Kind) : k ∈ all := by cases k <;> decide

end Kind

/-- A register: its letter and its number. -/
structure Register where
  letter : Char
  slot : Nat
deriving DecidableEq, Repr

def Register.text (r : Register) : String := s!"{r.letter}{r.slot}"

end ShaderInterface
