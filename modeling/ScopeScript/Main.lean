import ScopeScript.CommandLine

/-!
# The program

Reading files and lines, and writing transcripts. Everything else is done by pure functions: a
computation that needs files is repeated until all files it has asked for have been read.
-/

namespace ScopeScript
namespace Host

/-- Files that have been read, or why they cannot be read. -/
abbrev Shelf := List (String × Except FileError String)

/-- Why a file cannot be read. -/
def fileError : IO.Error → FileError
  | .noFileOrDirectory _ _ _ => .missing
  | error => .other (toString error)

/-- Read a file. -/
def readFile (path : String) : IO (Except FileError String) := do
  try
    return .ok (← IO.FS.readFile path)
  catch error =>
    return .error (fileError error)

/-- The reader of the files that have been read. -/
def Shelf.reader (shelf : Shelf) : FileReader := fun path =>
  (shelf.lookup path).getD (.error .missing)

/-- Repeat a computation until all files it asks for have been read. -/
partial def settle (shelf : Shelf) (compute : FileReader → α × List String) : IO α := do
  let (result, requests) := compute shelf.reader
  match requests.reverse.find? fun path => (shelf.lookup path).isNone with
  | some path => settle ((path, ← readFile path) :: shelf) compute
  | none => return result

/-- Write a transcript. -/
def write (transcript : Transcript) : IO Unit := do
  let output ← IO.getStdout
  output.putStr transcript.output
  output.flush
  (← IO.getStderr).putStr transcript.errors

/-- Hold a session with the lines of the standard input. -/
partial def converse (interpreter : Interpreter) : IO Nat := do
  let line ← (← IO.getStdin).getLine
  if line = "" then
    write { output := Console.farewell }
    return 0
  let (transcript, ending, interpreter) ← settle [] fun files =>
    let config := { interpreter.config with files }
    let (transcript, ending, after) := CommandLine.converse { interpreter with config } line
    ((transcript, ending, after.flush), after.machine.requests)
  write transcript
  match ending with
  | .goesOn => converse interpreter
  | .quits =>
      write { output := Console.farewell }
      return 0
  | .crashed _ | .endless => return transcript.exitCode

/-- Carry out a command line and give the exit code. -/
def run (arguments : List String) : IO Nat := do
  match Invocation.parse arguments with
  | .error error =>
      write { errors := error.message }
      return error.exitCode
  | .ok invocation =>
      let path := Settings.pathFor invocation.settingsPath invocation.script
      match ← settle [] fun files => (invocation.settings files, [path]) with
      | .error error =>
          write (.refusal 2 error.message)
          return 2
      | .ok settings =>
          if invocation.script = "" then
            write { output := Console.welcome }
            converse (Session.start (settings.config (Shelf.reader [])))
          else
            let transcript ← settle [] fun files =>
              let (transcript, interpreter) :=
                CommandLine.runFile (settings.config files) invocation.script
              (transcript, interpreter.machine.requests ++ [invocation.script])
            write transcript
            return transcript.exitCode

end Host
end ScopeScript

/-- The program: run a script or hold a session. -/
def main (arguments : List String) : IO UInt32 := do
  return (← ScopeScript.Host.run arguments).toUInt32
