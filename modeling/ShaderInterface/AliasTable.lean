import ShaderInterface.Declaration.Basic
import ShaderInterface.ShaderType

/-!
# Aliases of type names

An alias is looked up by its short or its qualified spelling and stands for the name its target had
resolved to when it was declared. A later alias of the same spelling replaces the earlier one.
-/
namespace ShaderInterface

/-- The spellings defined so far, each once, with the name it stands for. -/
structure AliasTable where
  entries : List (String × String)
deriving DecidableEq, Repr

namespace AliasTable

def empty : AliasTable := ⟨[]⟩

def size (t : AliasTable) : Nat := t.entries.length

/-- The name that a spelling stands for. -/
def get? (t : AliasTable) (spelling : String) : Option String :=
  (t.entries.find? fun e => e.1 == spelling).map Prod.snd

/-- The table in which `spelling` stands for `name`, whatever it stood for before. -/
def insert (t : AliasTable) (spelling name : String) : AliasTable :=
  ⟨(spelling, name) :: t.entries.filter fun e => e.1 != spelling⟩

/-- The name that a type resolves to: what its qualified spelling stands for, else what its last
segment stands for, else itself if it is the name of a shader type. -/
def resolve? (t : AliasTable) (type : TypeName) : Option String :=
  match t.get? type.qualified with
  | some name => some name
  | none =>
    match t.get? type.base with
    | some name => some name
    | none => if (ShaderType.ofName? type.qualified).isSome then some type.qualified else none

/-- The table with an alias for `target` under its short and its qualified spelling, if the target
resolves; with it the name the alias stands for. -/
def define? (t : AliasTable) (short qualified : String) (target : TypeName) :
    Option (String × AliasTable) :=
  (t.resolve? target).map fun name => (name, (t.insert short name).insert qualified name)

end AliasTable

end ShaderInterface
