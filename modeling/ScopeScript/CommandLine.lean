import ScopeScript.Session.Console
import ScopeScript.Settings

/-!
# The command line

A command line consists of flags and the path of a script. Flags take precedence over settings.
With a script, `CommandLine.run` executes it; without one, it holds a session with the lines of its
input. Either way the result is a transcript: what goes to the two output channels, and the exit
code.
-/

namespace ScopeScript

/-- What is wrong with a command line. -/
inductive UsageError
  | help
  | malformedFlag (argument : String)
  | unknownFlag (name : String)
  | missingValue (name : String)
  | invalidValue (name value : String)
  deriving DecidableEq, Repr, Inhabited

namespace UsageError

/-- How the program is called. -/
def usage : String :=
  "usage: symbo [flags] [file]\n" ++
    "  -trace level   trace level [Debug|Info|Error]\n" ++
    "  -config file   settings file; default is " ++ Settings.fileName ++ " next to the script\n" ++
    "  -color         colorize output\n" ++
    "  -maxdepth n    maximum nesting of calls\n"

/-- Wording of an error. -/
def message : UsageError → String
  | help => usage
  | malformedFlag argument => "bad flag syntax: " ++ argument ++ "\n" ++ usage
  | unknownFlag name => "flag provided but not defined: -" ++ name ++ "\n" ++ usage
  | missingValue name => "flag needs an argument: -" ++ name ++ "\n" ++ usage
  | invalidValue name value =>
      "invalid value " ++ Text.quoted value ++ " for flag -" ++ name ++ "\n" ++ usage

/-- The exit code for an error. -/
def exitCode : UsageError → Nat
  | help => 0
  | _ => 2

end UsageError

/-- What a command line asks for. -/
structure Invocation where
  traceLevel : String := "Error"
  settingsPath : String := ""
  color? : Option Bool := none
  maxDepth? : Option Int := none
  script : String := ""
  deriving DecidableEq, Repr, Inhabited

namespace Invocation

/-- What an argument is. -/
inductive Argument
  | operand
  | endOfFlags
  | malformed
  | flag (name : String) (value? : Option String)
  deriving DecidableEq, Repr, Inhabited

/-- Split a flag at its equals sign. -/
def splitFlag (chars : List Char) : Argument :=
  match chars with
  | [] => .malformed
  | first :: _ =>
      if first = '-' ∨ first = '=' then
        .malformed
      else
        let name := chars.takeWhile (· != '=')
        match chars.dropWhile (· != '=') with
        | _ :: value => .flag (String.ofList name) (some (String.ofList value))
        | [] => .flag (String.ofList name) none

/-- Tell what an argument is. Flags begin with one or two dashes. -/
def classify (argument : String) : Argument :=
  match argument.toList with
  | ['-', '-'] => .endOfFlags
  | '-' :: '-' :: rest => splitFlag rest
  | '-' :: first :: rest => splitFlag (first :: rest)
  | _ => .operand

/-- A truth value as it is written behind a flag. -/
def readBool? (text : String) : Option Bool :=
  if Settings.trueWords.contains text then some true
  else if Settings.falseWords.contains text then some false
  else none

/-- Set a flag to a value. -/
def setFlag (invocation : Invocation) (name value : String) : Except UsageError Invocation :=
  match name with
  | "trace" => .ok { invocation with traceLevel := value }
  | "config" => .ok { invocation with settingsPath := value }
  | "color" =>
      match readBool? value with
      | some color => .ok { invocation with color? := some color }
      | none => .error (.invalidValue name value)
  | "maxdepth" =>
      match Decimal.readInteger? value with
      | some maxDepth => .ok { invocation with maxDepth? := some maxDepth }
      | none => .error (.invalidValue name value)
  | "help" | "h" => .error .help
  | _ => .error (.unknownFlag name)

/-- Whether a flag takes the following argument as its value if it has none itself. -/
def takesNext (name : String) : Bool :=
  ["trace", "config", "maxdepth"].contains name

/-- Read the arguments that follow an invocation read so far. -/
def parseAfter (invocation : Invocation) : List String → Except UsageError Invocation
  | [] => .ok invocation
  | argument :: rest =>
      match classify argument with
      | .operand => .ok { invocation with script := argument }
      | .endOfFlags => .ok { invocation with script := rest.head?.getD "" }
      | .malformed => .error (.malformedFlag argument)
      | .flag name (some value) => do parseAfter (← invocation.setFlag name value) rest
      | .flag name none =>
          if takesNext name then
            match rest with
            | value :: later => do parseAfter (← invocation.setFlag name value) later
            | [] => .error (.missingValue name)
          else do
            parseAfter (← invocation.setFlag name "true") rest

/-- Read a command line. -/
def parse (arguments : List String) : Except UsageError Invocation :=
  parseAfter {} arguments

/-- The settings for an invocation: those of the settings file, except for what flags say. -/
def settings (invocation : Invocation) (files : FileReader) : Except SettingsError Settings := do
  let settings ← Settings.load files invocation.settingsPath invocation.script
  return { settings with
    color := invocation.color?.getD settings.color
    maxDepth := invocation.maxDepth?.getD settings.maxDepth }

end Invocation

/-- What has gone to the output channels, and the exit code. -/
structure Transcript where
  exitCode : Nat := 0
  output : String := ""
  errors : String := ""
  deriving DecidableEq, Repr, Inhabited

namespace Transcript

/-- One transcript after the other; the exit code is that of the second. -/
def append (first second : Transcript) : Transcript where
  exitCode := second.exitCode
  output := first.output ++ second.output
  errors := first.errors ++ second.errors

instance : Append Transcript := ⟨append⟩

/-- An error message that ends the program. -/
def refusal (exitCode : Nat) (message : String) : Transcript where
  exitCode := exitCode
  output := Message.renderLine .error message

/-- What a crash leaves behind. -/
def ofCrash (crash : Crash) : Transcript where
  exitCode := 2
  errors := "panic: " ++ crash.message ++ "\n"

/-- What a program has printed and reported. -/
def ofInterpreter (interpreter : Interpreter) : Transcript where
  output := interpreter.machine.output
  errors := String.join
    (interpreter.reports.map fun report => report.report interpreter.config.color ++ "\n")

end Transcript

namespace CommandLine

/-- What is added to the transcript of a script because of its outcome. -/
def verdict (color : Bool) : Outcome Value → Transcript
  | .done _ => {}
  | .failed diagnostic => { exitCode := 1, errors := diagnostic.report color ++ "\n" }
  | .crashed crash => .ofCrash crash
  | .endless => {}

/-- Execute a script. Also gives the interpreter afterwards. -/
def runScript (config : Config) (path source : String) : Transcript × Interpreter :=
  let (outcome, interpreter) := (Interpreter.new config).run path source
  (.ofInterpreter interpreter ++ verdict config.color outcome, interpreter)

/-- Read and execute a script. -/
def runFile (config : Config) (path : String) : Transcript × Interpreter :=
  match config.files path with
  | .error error => (.refusal 1 (error.message path), Interpreter.new config)
  | .ok source => runScript config path source

/-- What a line of a session shows. Empty lines are passed over. Also tells whether the session
goes on, and gives the interpreter to go on with. -/
def converse (interpreter : Interpreter) (line : String) :
    Transcript × Console.Ending × Interpreter :=
  let line := Text.trim line
  if line = "" then
    ({}, .goesOn, interpreter)
  else
    let (reply, interpreter) := Console.reply interpreter line
    let shown : Transcript := { output := reply.messages, errors := reply.report }
    let crash : Transcript := match reply.ending with
      | .crashed crash => .ofCrash crash
      | _ => {}
    (.ofInterpreter interpreter ++ shown ++ crash, reply.ending, interpreter)

/-- Hold a session with the given lines, up to the one that ends it. -/
def converseAll (interpreter : Interpreter) : List String → Transcript
  | [] => { output := Console.farewell }
  | line :: lines =>
      let (transcript, ending, interpreter) := converse interpreter line
      match ending with
      | .goesOn => transcript ++ converseAll interpreter.flush lines
      | .quits => transcript ++ { output := Console.farewell }
      | .crashed _ | .endless => transcript

/-- Whether a character ends a line of input. -/
def endsLine (c : Char) : Bool :=
  c == '\n' || c == '\r'

/-- Hold a session with an input text. -/
def runSession (config : Config) (input : String) : Transcript :=
  { output := Console.welcome : Transcript } ++
    converseAll (Session.start config) ((input.toList.splitOnP endsLine).map String.ofList)

/-- Carry out a command line with the given files and input. -/
def run (files : FileReader) (arguments : List String) (input : String) : Transcript :=
  match Invocation.parse arguments with
  | .error error => { exitCode := error.exitCode, errors := error.message }
  | .ok invocation =>
      match invocation.settings files with
      | .error error => .refusal 2 error.message
      | .ok settings =>
          let config := settings.config files
          if invocation.script = "" then runSession config input
          else (runFile config invocation.script).1

end CommandLine

end ScopeScript
