import ShaderInterface.Browser.Frame
import ShaderInterface.Command.Run

/-!
# The program

Reads the files that the arguments name, runs the command line on them and carries out what it says.
The browser takes the names of keys from standard input, one a line, and prints a frame after each.
-/
namespace ShaderInterface

/-- The fault that the system reports; some of its calls give their codes negated. -/
def FileFault.ofSystem : IO.Error → FileFault
  | .inappropriateType _ code _ => if code = 21 || code = -21 then .isDirectory else .notDirectory
  | .permissionDenied .. => .denied
  | .invalidArgument .. => .nameTooLong
  | _ => .missing

/-- The text of a file of the system. -/
def readFile (path : String) : IO (Except FileFault String) := do
  try
    match String.fromUTF8? (← IO.FS.readBinFile path) with
    | some text => return .ok text
    | none => return .error .notText
  catch e => return .error (.ofSystem e)

/-- What reading each of these paths gives. -/
def readFiles (paths : List String) : IO (String → Except FileFault String) := do
  let results ← paths.mapM fun path => return (path, ← readFile path)
  return fun path => (results.lookup path).getD (.error .missing)

/-- Columns and rows of the browser's screen. -/
def screenSize : Nat × Nat := (120, 40)

/-- Draws a frame and takes the next key, until a key quits or the input ends. -/
partial def browse (b : Browser) : IO Unit := do
  let (b, rows) := b.draw screenSize.1 screenSize.2
  for row in rows do
    IO.println (String.ofList (row.map Cell.char))
  unless b.quit do
    let line ← (← IO.getStdin).getLine
    unless line.isEmpty do
      browse (b.press (.ofName (String.ofList (line.toList.takeWhile (· != '\n')))))

/-- Carries out what a run is to do, and gives its exit code. -/
def perform : Except Failure Action → IO UInt32
  | .error e => do
    IO.eprint e.message
    return 1
  | .ok (.print text) => do
    IO.print text
    return 0
  | .ok (.write path text) => do
    try
      IO.FS.writeFile path text
      return 0
    catch e =>
      IO.eprint (Failure.notWritten path (.ofSystem e)).message
      return 1

end ShaderInterface

open ShaderInterface in
def main (args : List String) : IO UInt32 := do
  match Invocation.ofArguments args with
  | .error e =>
    IO.eprintln s!"error: {e.message}"
    return 2
  | .ok invocation =>
    let read ← readFiles (invocation.sources.map Prod.fst)
    if invocation.browse then
      match invocation.load read with
      | .error e => perform (.error e)
      | .ok (session, texts) =>
        browse (.new session texts (invocation.firstKind session))
        return 0
    else perform (invocation.action read)
