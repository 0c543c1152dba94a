import ScopeScript.Session
import ScopeScript.Session.Message
import ScopeScript.Session.Tree

/-!
# The console of a session

A line that begins with a colon is a command, any other line is evaluated. `Console.reply` says
what is shown for a line and whether the session goes on; what the program itself prints and
reports is left in the interpreter.
-/

namespace ScopeScript

/-- The commands of a session. -/
inductive Command
  | quit
  | vault
  | source
  | help
  | unknown (name : String)
  deriving DecidableEq, Repr, Inhabited

namespace Command

/-- The command with a given name. -/
def ofName : String → Command
  | "quit" => quit
  | "q" => quit
  | "vault" => vault
  | "source" => source
  | "help" => help
  | name => unknown name

/-- The command that the text behind a colon asks for. Further words are ignored. -/
def parse (text : String) : Command :=
  match Text.words text with
  | [] => help
  | name :: _ => ofName name

end Command

namespace Console

/-- How a session stands after a line. -/
inductive Ending
  | goesOn
  | quits
  | crashed (crash : Crash)
  | endless
  deriving Inhabited

/-- What is shown for a line of input: messages, and the report of a failure. -/
structure Reply where
  ending : Ending := .goesOn
  messages : String := ""
  report : String := ""
  deriving Inhabited

/-- The message in front of all others. -/
def welcome : String :=
  Message.renderLine .info "Welcome to SymboScript"

/-- What is said at the end. -/
def farewell : String := "Good bye!\n"

/-- What the user may ask for. -/
def helpText : String :=
  ":vault  show live scopes  |  :source  show input  |  :quit"

/-- The live scopes as a tree, with their number and fingerprint. -/
def vaultReport (vault : Vault) : String :=
  "vault\n" ++ Tree.renderAll "" (Tree.ofLevels (RecordInfo.outline vault.snapshot)) ++ "\n" ++
    Message.render .info
      (toString vault.live ++ " records live, fingerprint " ++ vault.fingerprint ++ "\n")

/-- Carry out a command. -/
def obey (interpreter : Interpreter) : Command → Reply
  | .quit => { ending := .quits }
  | .vault => { messages := vaultReport interpreter.machine.vault }
  | .source => { messages := interpreter.source.source ++ "\n" }
  | .help => { messages := Message.renderLine .info helpText }
  | .unknown name => { messages := Message.render .error ("unknown command :" ++ name ++ "\n") }

/-- What is shown for the outcome of a line. -/
def answer (interpreter : Interpreter) : Outcome Value → Reply
  | .done value =>
      if value.isNone then {}
      else { messages := Message.renderLine .info (interpreter.machine.display value) }
  | .failed diagnostic => { report := diagnostic.report interpreter.config.color ++ "\n" }
  | .crashed crash => { ending := .crashed crash }
  | .endless => { ending := .endless }

/-- Treat a line of input. -/
def reply (interpreter : Interpreter) (line : String) : Reply × Interpreter :=
  match line.toList with
  | ':' :: rest => (obey interpreter (Command.parse (String.ofList rest)), interpreter)
  | _ =>
      let (outcome, interpreter) := Session.evaluate interpreter line
      (answer interpreter outcome, interpreter)

end Console

end ScopeScript
