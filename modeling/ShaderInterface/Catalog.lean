import ShaderInterface.AliasTable
import ShaderInterface.CompileError
import ShaderInterface.Layout
import ShaderInterface.Semantic

/-!
# The catalog of aggregates

A catalog holds the structs of the headers added so far, in order, with their field types resolved
and their fields placed. Short names are unique in it; the short and the qualified name of an
aggregate lead to its position, which is also its tag. Adding a header goes declaration by
declaration: what was added before the first one that fails stays.
-/
namespace ShaderInterface

/-- A resolved field. -/
structure Member where
  name : String
  /-- The type as it is written. -/
  declared : String
  /-- The type that it resolves to. -/
  resolved : String
  type : ShaderType
  placement : Placement
  /-- The semantic marker, if there is one. -/
  annotation : Option String
  /-- The vertex stream that feeds the field. -/
  register : Option Nat
  /-- Instances per step of the stream; `none` for a stream of vertices. -/
  stepRate : Option Nat
  location : Location
deriving DecidableEq, Repr

namespace Member

/-- The semantic that the field is written with. -/
def semantic (m : Member) : String := m.annotation.getD (Semantic.derive m.name)

def extent (m : Member) : Extent := ⟨m.type.size, m.type.align⟩

end Member

/-- A resolved struct. -/
structure Aggregate where
  name : String
  qualified : String
  tag : Nat
  kind : Kind
  /-- Position of its header among those added. -/
  sourceIndex : Nat
  register : Option Nat
  alignment : Option Nat
  members : List Member
  size : Nat
  tailPadding : Nat
  location : Location
deriving DecidableEq, Repr

namespace Aggregate

/-- The first member with this name. -/
def member? (a : Aggregate) (name : String) : Option Member :=
  a.members.find? fun m => m.name == name

/-- All unused bytes, between members and behind the last one. -/
def padding (a : Aggregate) : Nat :=
  a.members.foldr (fun m behind => m.placement.padding + behind) a.tailPadding

end Aggregate

/-- Resolves the type of a field of the struct `aggregate` and checks its semantic. The field is not
placed yet. -/
def FieldDecl.resolve (aliases : AliasTable) (kind : Kind) (aggregate : String) (f : FieldDecl) :
    Except CompileError Member :=
  match aliases.resolve? f.type with
  | none => .error (.unknownType f.type.qualified f.name aggregate f.type.location)
  | some resolved =>
    match ShaderType.ofName? resolved with
    | none => .error (.unknownType f.type.qualified f.name aggregate f.type.location)
    | some type =>
      let member : Member :=
        { name := f.name
          declared := f.type.qualified
          resolved := resolved
          type := type
          placement := ⟨0, 0⟩
          annotation := f.semantic?
          register := f.register?
          stepRate := f.stepRate?
          location := f.location }
      if kind = .vertexInput ∧ !Semantic.isUsable member.semantic then
        .error (.invalidSemantic f.name aggregate member.semantic f.location)
      else .ok member

/-- Resolves fields in order, up to the first that fails. -/
def resolveFields (aliases : AliasTable) (kind : Kind) (aggregate : String) :
    List FieldDecl → Except CompileError (List Member)
  | [] => .ok []
  | f :: fs =>
    match f.resolve aliases kind aggregate with
    | .error e => .error e
    | .ok m =>
      match resolveFields aliases kind aggregate fs with
      | .error e => .error e
      | .ok ms => .ok (m :: ms)

/-- Gives each member its place. -/
def placeMembers (ms : List Member) (ps : List Placement) : List Member :=
  List.zipWith (fun m p => { m with placement := p }) ms ps

structure Catalog where
  entries : List Aggregate
  /-- The positions that short and qualified names lead to; of two for one name the first counts. -/
  names : List (String × Nat)
  aliases : AliasTable
  /-- Number of headers added in full. -/
  sources : Nat
deriving DecidableEq, Repr

namespace Catalog

def empty : Catalog := ⟨[], [], .empty, 0⟩

def size (c : Catalog) : Nat := c.entries.length

/-- The aggregate with this short or qualified name. -/
def find? (c : Catalog) (name : String) : Option Aggregate :=
  (c.names.lookup name).bind fun i => c.entries[i]?

/-- The aggregate with this tag. -/
def ofTag? (c : Catalog) (tag : Nat) : Option Aggregate :=
  c.entries[tag]?.filter fun a => a.tag == tag

/-- The aggregates of a kind, in order. -/
def ofKind (c : Catalog) (kind : Kind) : List Aggregate :=
  c.entries.filter fun a => a.kind == kind

/-- The kinds that have aggregates. -/
def kinds (c : Catalog) : List Kind :=
  Kind.all.filter fun kind => c.entries.any fun a => a.kind == kind

/-- The aggregate that a struct declaration gives, as the next entry of the catalog. -/
def resolve (c : Catalog) (kind : Kind) (d : StructDecl) : Except CompileError Aggregate :=
  match resolveFields c.aliases kind d.name d.fields with
  | .error e => .error e
  | .ok members =>
    let layout := Layout.ofExtents kind (members.map Member.extent) d.alignment
    .ok
      { name := d.name
        qualified := d.qualified
        tag := c.size
        kind := kind
        sourceIndex := c.sources
        register := d.register
        alignment := d.alignment
        members := placeMembers members layout.placements
        size := layout.size
        tailPadding := layout.tailPadding
        location := d.location }

/-- The catalog with one more aggregate, found by both its names. -/
def push (c : Catalog) (a : Aggregate) : Catalog :=
  { c with
    entries := c.entries ++ [a]
    names := (a.qualified, c.size) :: (a.name, c.size) :: c.names }

/-- Adds an aggregate unless its short name is taken. -/
def insert (c : Catalog) (a : Aggregate) : Except CompileError Catalog :=
  match c.find? a.name with
  | some first => .error (.duplicateType a.name a.location first.location)
  | none => .ok (c.push a)

/-- Adds one declaration. -/
def declare (c : Catalog) (kind : Kind) : Declaration → Except CompileError Catalog
  | .typeAlias d =>
    match c.aliases.define? d.name d.qualified d.target with
    | some (_, aliases) => .ok { c with aliases := aliases }
    | none => .error (.unresolvedAlias d.name d.target.qualified d.location)
  | .aggregate d =>
    match c.resolve kind d with
    | .error e => .error e
    | .ok a => c.insert a

/-- Adds the declarations of a header, up to the first that fails. -/
def extend (c : Catalog) (kind : Kind) : List Declaration → Catalog × Option CompileError
  | [] => ({ c with sources := c.sources + 1 }, none)
  | d :: ds =>
    match c.declare kind d with
    | .ok c => c.extend kind ds
    | .error e => (c, some e)

end Catalog

/-- The declarations of a header. -/
def readHeader (source : String) : Except CompileError (List Declaration) :=
  match LexicalRules.headers.lex source with
  | .error e => .error (.lex e)
  | .ok lexed =>
    match (TokenStream.ofTokens lexed.tokens).read.1 with
    | .error e => .error (.parse e)
    | .ok ds => .ok ds

end ShaderInterface
