/-!
# Files and paths

The files that a run sees, and how a path leads to one of them. A path is followed name by name:
slashes in a row count as one, `.` stays, `..` goes up, and every name before the last has to stand
for a directory. A slash at the end asks for a directory too, which can be neither read nor written.

Only the working directory holds files from the start. Its own name is not known, so a path that
leaves it does not lead back.
-/
namespace ShaderInterface

/-- Why a file cannot be read or written. -/
inductive FileFault where
  | missing
  | notText
  | isDirectory
  | notDirectory
  | nameTooLong
  | denied
deriving DecidableEq, Repr

def FileFault.message : FileFault → String
  | .missing => "No such file or directory (os error 2)"
  | .notText => "stream did not contain valid UTF-8"
  | .isDirectory => "Is a directory (os error 21)"
  | .notDirectory => "Not a directory (os error 20)"
  | .nameTooLong => "File name too long (os error 36)"
  | .denied => "Permission denied (os error 13)"

/-- A directory that always exists. -/
inductive Base where
  | root
  /-- The directory that many levels above the working directory. -/
  | above (levels : Nat)
deriving DecidableEq, Repr

/-- A place in the tree: where to start, and the names that lead there. -/
structure Place where
  base : Base
  names : List String
deriving DecidableEq, Repr

namespace Place

/-- The place of a file or directory with this name. -/
def child (p : Place) (name : String) : Place := { p with names := p.names ++ [name] }

/-- The directory above; the root is above itself. -/
def parent (p : Place) : Place :=
  match p.names, p.base with
  | [], .root => p
  | [], .above levels => ⟨.above (levels + 1), []⟩
  | _ :: _, base => ⟨base, p.names.dropLast⟩

/-- Whether `q` lies below `p`. -/
def isAbove (p q : Place) : Bool :=
  p.base = q.base && p.names.isPrefixOf q.names && p.names != q.names

end Place

/-- Files by their places; `none` stands for a file that is not text. -/
structure FileTree where
  files : List (Place × Option String)
deriving DecidableEq, Repr

/-- What a name stands for. -/
inductive Entry where
  | directory (place : Place)
  | file (content? : Option String)
  | absent
deriving DecidableEq, Repr

/-- The last name of a path, in a directory that exists. -/
structure Target where
  directory : Place
  name : String
  /-- Whether a slash stands behind the name. -/
  slashed : Bool
deriving DecidableEq, Repr

/-- Most bytes in a name. -/
def nameLimit : Nat := 255

/-- Most bytes in a path. -/
def pathLimit : Nat := 4095

/-- The texts between slashes, when the characters `rev` (in reverse) already stand before the first. -/
def segmentsFrom (rev : List Char) : List Char → List (List Char)
  | [] => [rev.reverse]
  | c :: cs => if c = '/' then rev.reverse :: segmentsFrom [] cs else segmentsFrom (c :: rev) cs

/-- The names on a path. -/
def pathNames (path : String) : List String :=
  ((segmentsFrom [] path.toList).filter fun name => !name.isEmpty).map String.ofList

/-- The directory that a path starts from. -/
def pathStart (path : String) : Place :=
  if path.toList.head? = some '/' then ⟨.root, []⟩ else ⟨.above 0, []⟩

namespace FileTree

/-- The tree with these files in the working directory. -/
def ofFiles (files : List (String × Option String)) : FileTree :=
  ⟨files.map fun (path, content?) => (⟨.above 0, pathNames path⟩, content?)⟩

/-- What stands at a place. -/
def entryAt (t : FileTree) (p : Place) : Entry :=
  match t.files.find? fun file => file.1 == p with
  | some (_, content?) => .file content?
  | none =>
    if p.names.isEmpty || t.files.any fun file => p.isAbove file.1 then .directory p else .absent

/-- What a name stands for in a directory. -/
def entry (t : FileTree) (directory : Place) (name : String) : Except FileFault Entry :=
  if name = "." then .ok (.directory directory)
  else if name = ".." then .ok (.directory directory.parent)
  else if nameLimit < name.utf8ByteSize then .error .nameTooLong
  else .ok (t.entryAt (directory.child name))

/-- Follows names that all have to stand for directories. -/
def walk (t : FileTree) (directory : Place) : List String → Except FileFault Place
  | [] => .ok directory
  | name :: names =>
    match t.entry directory name with
    | .ok (.directory next) => t.walk next names
    | .ok (.file _) => .error .notDirectory
    | .ok .absent => .error .missing
    | .error fault => .error fault

/-- Follows a path up to its last name. -/
def target (t : FileTree) (path : String) : Except FileFault Target :=
  if path.isEmpty then .error .missing
  else if pathLimit < path.utf8ByteSize then .error .nameTooLong
  else
    let names := pathNames path
    match t.walk (pathStart path) names.dropLast with
    | .ok directory =>
      .ok ⟨directory, names.getLast?.getD ".", path.toList.getLast? == some '/'⟩
    | .error fault => .error fault

/-- The text of a file. -/
def read (t : FileTree) (path : String) : Except FileFault String :=
  match t.target path with
  | .error fault => .error fault
  | .ok target =>
    match t.entry target.directory target.name with
    | .error fault => .error fault
    | .ok .absent => .error .missing
    | .ok (.directory _) => .error .isDirectory
    | .ok (.file content?) =>
      if target.slashed then .error .notDirectory
      else match content? with
      | some text => .ok text
      | none => .error .notText

/-- The tree with a text at a place, and nothing else there. -/
def put (t : FileTree) (p : Place) (text : String) : FileTree :=
  ⟨(p, some text) :: t.files.filter fun file => file.1 != p⟩

@[simp] theorem entryAt_put (t : FileTree) (p : Place) (text : String) :
    (t.put p text).entryAt p = .file (some text) := by
  simp [entryAt, put]

/-- Makes or replaces a file. -/
def write (t : FileTree) (path text : String) : Except FileFault FileTree :=
  match t.target path with
  | .error fault => .error fault
  | .ok target =>
    if target.slashed then .error .isDirectory
    else match t.entry target.directory target.name with
    | .error fault => .error fault
    | .ok (.directory _) => .error .isDirectory
    | .ok (.file _) | .ok .absent => .ok (t.put (target.directory.child target.name) text)

end FileTree

end ShaderInterface
