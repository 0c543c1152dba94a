import ScopeScript.Interpreter

/-!
# Interactive sessions

In a session statements are evaluated line by line against one global scope. All lines are
collected in the outermost file of the interpreter, so a diagnostic may refer to an earlier line.
A statement at the end of a line needs no semicolon.
-/

namespace ScopeScript
namespace Session

/-- The path of interactive input. -/
def path : String := "<repl>"

/-- An interpreter at the beginning of a session. -/
def start (config : Config) : Interpreter :=
  (Interpreter.new config).start path ""

/-- Whether a line ends with a complete statement. -/
def isComplete (line : String) : Bool :=
  match line.toList.getLast? with
  | some c => c == ';' || c == '\x7d'
  | none => false

/-- Add a missing semicolon to a line. -/
def complete (line : String) : String :=
  if isComplete line then line else line ++ ";"

/-- Append a line to the text of the session and execute it. -/
def evaluate (interpreter : Interpreter) (line : String) : Outcome Value × Interpreter :=
  let text := complete line ++ "\n"
  let (offset, interpreter) := interpreter.appendSource text
  match Program.parseAt path text offset.toUInt64 with
  | .error diagnostic =>
      let file := interpreter.source
      (.failed (diagnostic.withSource file.path file.source), interpreter)
  | .ok program => interpreter.eval program

end Session
end ScopeScript
