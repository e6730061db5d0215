import ShaderInterface.Emission
import ShaderInterface.InputLayout

/-!
# Sessions

A session holds the catalog of the headers given to it and the texts generated from that catalog. A
header that fails leaves an empty session; a generation that fails leaves the session as it was.
-/
namespace ShaderInterface

/-- How far a session has come. -/
inductive Stage where
  | empty
  | parsed
  | generated (kind : Kind)
deriving DecidableEq, Repr

structure Session where
  catalog? : Option Catalog
  /-- Texts generated from the catalog, one for a kind. -/
  texts : List (Kind × String)
  options : EmitOptions
  stage : Stage
deriving DecidableEq, Repr

namespace Session

/-- A session without a catalog. -/
def new (options : EmitOptions) : Session := ⟨none, [], options, .empty⟩

/-- Drops the catalog and all texts. -/
def reset (s : Session) : Session := new s.options

/-- The text generated for a kind, if there is one. -/
def text? (s : Session) (kind : Kind) : Option String :=
  (s.texts.find? fun entry => entry.1 == kind).map Prod.snd

/-- The session whose catalog is `c`. -/
def withCatalog (s : Session) (c : Catalog) : Session := ⟨some c, [], s.options, .parsed⟩

/-- Adds a header to the catalog `c`; without success the session is empty. -/
def load (s : Session) (c : Catalog) (source : String) (kind : Kind) :
    Session × Option CompileError :=
  match readHeader source with
  | .error e => (s.reset, some e)
  | .ok ds =>
    match c.extend kind ds with
    | (_, some e) => (s.reset, some e)
    | (c, none) => (s.withCatalog c, none)

/-- Reads a header into a new catalog. -/
def parse (s : Session) (source : String) (kind : Kind) : Session × Option CompileError :=
  s.load .empty source kind

/-- Reads a header into the catalog of the session, or into a new one if it has none. -/
def append (s : Session) (source : String) (kind : Kind) : Session × Option CompileError :=
  s.load (s.catalog?.getD .empty) source kind

/-- The text of the aggregates of a kind, after a check of their registers. -/
def textOf (options : EmitOptions) (c : Catalog) (kind : Kind) : Except CompileError String :=
  match checkRegisters kind (c.ofKind kind) with
  | .error e => .error e
  | .ok () => .ok (emit kind (c.ofKind kind) options)

/-- The text of a kind, generated now unless it has been before. -/
def generate (s : Session) (kind : Kind) : Session × Except CompileError String :=
  match s.catalog? with
  | none => (s, .error .noCatalog)
  | some c =>
    match s.text? kind with
    | some text => ({ s with stage := .generated kind }, .ok text)
    | none =>
      match textOf s.options c kind with
      | .error e => (s, .error e)
      | .ok text =>
        ({ s with texts := (kind, text) :: s.texts, stage := .generated kind }, .ok text)

/-- The catalog, or the error of having none. -/
def catalog (s : Session) : Except CompileError Catalog :=
  match s.catalog? with
  | none => .error .noCatalog
  | some c => .ok c

/-- The aggregates of a kind. -/
def ofKind (s : Session) (kind : Kind) : Except CompileError (List Aggregate) :=
  s.catalog.map fun c => c.ofKind kind

/-- The kinds that have aggregates. -/
def kinds (s : Session) : List Kind := (s.catalog?.map Catalog.kinds).getD []

/-- Number of aggregates. -/
def size (s : Session) : Nat := (s.catalog?.map Catalog.size).getD 0

/-- The aggregate at a position. -/
def get? (s : Session) (index : Nat) : Option Aggregate := s.catalog?.bind fun c => c.entries[index]?

/-- The aggregate with this short or qualified name. -/
def find? (s : Session) (name : String) : Option Aggregate := s.catalog?.bind fun c => c.find? name

/-- The aggregate with this tag. -/
def ofTag? (s : Session) (tag : Nat) : Option Aggregate := s.catalog?.bind fun c => c.ofTag? tag

/-- The elements of the vertex input aggregate with this name, if there is one. -/
def inputElements (s : Session) (name : String) :
    Except CompileError (Option (List InputElement)) :=
  s.catalog.map fun c =>
    ((c.find? name).filter fun a => a.kind == .vertexInput).map Aggregate.inputElements

end Session

end ShaderInterface
