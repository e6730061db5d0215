import ShaderInterface.Command.FileTree
import ShaderInterface.Command.Invocation
import ShaderInterface.Session

/-!
# Running a command line

The headers are read and added to one session in order, then the text of every kind is generated, and
only then something is printed or written: a failure leaves no trace but its message.
-/
namespace ShaderInterface

/-- Why a run fails. -/
inductive Failure where
  | noInputs
  | notRead (path : String) (fault : FileFault)
  | notCompiled (path : String) (kind : Kind) (error : CompileError)
  | notGenerated (kind : Kind) (error : CompileError)
  | notWritten (path : String) (fault : FileFault)
deriving DecidableEq, Repr

namespace Failure

/-- A text whose lines behind the first are indented too. -/
def indentLines (s : String) : String :=
  String.ofList (s.toList.flatMap fun c => if c = '\n' then ['\n', ' ', ' ', ' ', ' '] else [c])

/-- What failed, and why. -/
def report (context cause : String) : String :=
  s!"Error: {context}\n\nCaused by:\n    {indentLines cause}\n"

def message : Failure → String
  | .noInputs => "Error: no input headers given\n"
  | .notRead path fault => report s!"failed to read {path}" fault.message
  | .notCompiled path kind error =>
    report s!"failed to compile {path} as {kind.message}" error.message
  | .notGenerated kind error => report s!"failed to generate {kind.message}" error.message
  | .notWritten path fault => report s!"failed to write {path}" fault.message

end Failure

namespace Session

/-- Adds headers in order; each is read only if those before it could be added. The texts come back
with the session. -/
def addFiles (read : String → Except FileFault String) (s : Session) :
    List (String × Kind) → Except Failure (Session × List String)
  | [] => .ok (s, [])
  | (path, kind) :: rest =>
    match read path with
    | .error fault => .error (.notRead path fault)
    | .ok source =>
      match s.append source kind with
      | (_, some e) => .error (.notCompiled path kind e)
      | (s, none) => (s.addFiles read rest).map fun (s, texts) => (s, source :: texts)

/-- Generates the texts of kinds in order, up to the first that fails. -/
def generateAll (s : Session) : List Kind → Except Failure (List String)
  | [] => .ok []
  | kind :: kinds =>
    match s.generate kind with
    | (_, .error e) => .error (.notGenerated kind e)
    | (s, .ok text) => (s.generateAll kinds).map (text :: ·)

end Session

namespace Invocation

/-- The session of all headers, and their texts. -/
def load (i : Invocation) (read : String → Except FileFault String) :
    Except Failure (Session × List String) :=
  if i.sources.isEmpty then .error .noInputs
  else (Session.new {}).addFiles read i.sources

/-- The text of all kinds, one newline between two. -/
def text (i : Invocation) (read : String → Except FileFault String) : Except Failure String :=
  match i.load read with
  | .error e => .error e
  | .ok (s, _) => (s.generateAll s.kinds).map fun texts => "\n".intercalate texts

/-- The kind that the browser opens with. -/
def firstKind (i : Invocation) (s : Session) : Kind := s.kinds.head?.getD i.kind

end Invocation

/-- What is left to do once all texts are generated. -/
inductive Action where
  | print (text : String)
  | write (path text : String)
deriving DecidableEq, Repr

/-- Reads, adds and generates everything, and says what to do with the text. -/
def Invocation.action (i : Invocation) (read : String → Except FileFault String) :
    Except Failure Action :=
  (i.text read).map fun text =>
    match i.out? with
    | none => .print text
    | some path => .write path text

/-- What a run leaves: exit code, the two outputs, and the files. -/
structure Report where
  code : Nat
  stdout : String
  stderr : String
  files : FileTree
deriving DecidableEq, Repr

/-- The report of a failure, which leaves the files as they are. -/
def Report.ofFailure (t : FileTree) (e : Failure) : Report := ⟨1, "", e.message, t⟩

/-- Runs a command line that does not open the browser. -/
def Invocation.run (i : Invocation) (t : FileTree) : Report :=
  match i.action t.read with
  | .error e => .ofFailure t e
  | .ok (.print text) => ⟨0, text, "", t⟩
  | .ok (.write path text) =>
    match t.write path text with
    | .ok t => ⟨0, "", "", t⟩
    | .error fault => .ofFailure t (.notWritten path fault)

end ShaderInterface
