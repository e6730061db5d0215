import ShaderInterface.Text.Location

/-!
# Declarations of a header

A header declares structs, whose fields and which themselves may carry markers, and aliases for type
names. Each declaration keeps the path of the namespace blocks around it.
-/
namespace ShaderInterface

/-- The text of a path, its segments joined by `::`. -/
def joinPath : List String → String
  | [] => ""
  | [s] => s
  | s :: path => s ++ "::" ++ joinPath path

/-- The name `name` as seen from outside the namespaces of `path`. -/
def qualify (path : List String) (name : String) : String := joinPath (path ++ [name])

/-- A name and the place it stands at. -/
structure Name where
  text : String
  location : Location
deriving DecidableEq, Repr

/-- A type as it is written: a path of one or more segments. -/
structure TypeName where
  segments : List String
  location : Location
deriving DecidableEq, Repr

namespace TypeName

def qualified (t : TypeName) : String := joinPath t.segments

/-- The last segment. -/
def base (t : TypeName) : String := t.segments.getLastD ""

end TypeName

/-- An annotation behind the name of a struct or a field. -/
inductive Marker where
  | semantic (name : String)
  | register (slot : Nat)
  | instanceData (stepRate : Nat)
deriving DecidableEq, Repr

namespace Marker

def semantic? : Marker → Option String
  | .semantic name => some name
  | _ => none

def register? : Marker → Option Nat
  | .register slot => some slot
  | _ => none

def stepRate? : Marker → Option Nat
  | .instanceData rate => some rate
  | _ => none

end Marker

structure FieldDecl where
  name : String
  type : TypeName
  markers : List Marker
  location : Location
deriving DecidableEq, Repr

namespace FieldDecl

/-- The semantic of the first semantic marker. -/
def semantic? (f : FieldDecl) : Option String := f.markers.findSome? Marker.semantic?

/-- The slot of the first register marker. -/
def register? (f : FieldDecl) : Option Nat := f.markers.findSome? Marker.register?

/-- The step rate of the first instance marker. -/
def stepRate? (f : FieldDecl) : Option Nat := f.markers.findSome? Marker.stepRate?

end FieldDecl

structure StructDecl where
  name : String
  path : List String
  alignment : Option Nat
  register : Option Nat
  fields : List FieldDecl
  location : Location
deriving DecidableEq, Repr

def StructDecl.qualified (d : StructDecl) : String := qualify d.path d.name

structure AliasDecl where
  name : String
  path : List String
  target : TypeName
  location : Location
deriving DecidableEq, Repr

def AliasDecl.qualified (d : AliasDecl) : String := qualify d.path d.name

inductive Declaration where
  | aggregate (decl : StructDecl)
  | typeAlias (decl : AliasDecl)
deriving DecidableEq, Repr

end ShaderInterface
