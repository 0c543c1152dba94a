import ScopeScript.File.Tree
import ScopeScript.Machine
import ScopeScript.Settings.Document

/-!
# Settings

What can be configured in a file: colours, the allowed nesting, the history of a session and what
is traced. Settings are read from a given file, or else from a file beside the script that may be
missing. A value that is left out keeps its default.
-/

namespace ScopeScript

/-- Why settings cannot be used. -/
inductive SettingsError
  | unreadable (path : String) (error : FileError)
  | malformed (path : String)
  deriving DecidableEq, Repr, Inhabited

namespace SettingsError

/-- Wording of an error. -/
def message : SettingsError → String
  | unreadable path error => "cannot read settings: " ++ error.message path
  | malformed path => "cannot parse settings " ++ path ++ ": malformed document"

end SettingsError

/-- The tracing adapter that is used if none is named. -/
def Settings.defaultAdapter : String := "go"

/-- Everything that can be configured in a file. -/
structure Settings where
  color : Bool := true
  maxDepth : Int := Config.defaultMaxDepth
  history : String := ""
  adapter : String := Settings.defaultAdapter
  destination : String := ""
  levels : List (String × String) := []
  deriving DecidableEq, Repr, Inhabited

namespace Settings

/-- The name of the settings file beside a script. -/
def fileName : String := "symbo.yaml"

/-- Apply an entry with a value; an empty value changes nothing. -/
def withValue (settings : Settings) (value : Document) (read : Document → Option α)
    (apply : α → Settings) : Option Settings :=
  if value.isNull then some settings else (read value).map apply

/-- The levels of tracing by name. An empty level is an empty text. -/
def levels? (value : Document) : Option (List (String × String)) := do
  (← value.entries?).mapM fun (name, level) =>
    if level.isNull then some (name, "") else level.text?.map (name, ·)

/-- Apply an entry of the tracing section. -/
def addTracing (settings : Settings) (entry : String × Document) : Option Settings :=
  let value := entry.2
  match entry.1 with
  | "adapter" => settings.withValue value Document.text? fun text =>
      { settings with adapter := text }
  | "destination" => settings.withValue value Document.text? fun text =>
      { settings with destination := text }
  | "levels" => settings.withValue value levels? fun levels => { settings with levels }
  | _ => some settings

/-- Apply an entry of a document. Unknown keys are ignored. -/
def addEntry (settings : Settings) (entry : String × Document) : Option Settings :=
  let value := entry.2
  match entry.1 with
  | "color" => settings.withValue value Document.bool? fun color => { settings with color }
  | "max_depth" => settings.withValue value Document.integer? fun maxDepth =>
      { settings with maxDepth }
  | "history" => settings.withValue value Document.text? fun history =>
      { settings with history }
  | "tracing" =>
      if value.isNull then some settings
      else do (← value.entries?).foldlM addTracing settings
  | _ => some settings

/-- Replace values that mean nothing by defaults. -/
def normalize (settings : Settings) : Settings :=
  { settings with
    maxDepth := Config.depthLimit settings.maxDepth
    adapter := if settings.adapter = "" then defaultAdapter else settings.adapter }

/-- The settings that a document describes. -/
def ofDocument? (document : Document) : Option Settings :=
  if document.isNull then
    some {}
  else do
    return (← (← document.entries?).foldlM addEntry {}).normalize

/-- The path of the settings file for a script if none is given. -/
def defaultPath (script : String) : String :=
  Path.join (if script = "" then "." else Path.directory script) fileName

/-- The path of the settings file. -/
def pathFor (given script : String) : String :=
  if given = "" then defaultPath script else given

/-- Load settings from the given file, or else from the one beside the script. -/
def load (files : FileReader) (given script : String) : Except SettingsError Settings :=
  let path := pathFor given script
  match files path with
  | .error error =>
      if given = "" ∧ error = .missing then .ok {} else .error (.unreadable path error)
  | .ok text =>
      match (Document.parse? text).bind ofDocument? with
      | some settings => .ok settings
      | none => .error (.malformed path)

/-- What the names of trace levels begin with. -/
def levelKey : String := "tracelevel."

/-- The level of tracing for a name. -/
def level (settings : Settings) (name : String) : String :=
  (settings.levels.lookup name).getD ""

/-- The value of a key as a text; empty for keys without a value. -/
def string (settings : Settings) (key : String) : String :=
  match key with
  | "color" => if settings.color then "true" else "false"
  | "max_depth" => toString settings.maxDepth
  | "history" => settings.history
  | "tracing.adapter" => settings.adapter
  | "tracing.destination" => settings.destination
  | _ =>
      if levelKey.toList.isPrefixOf key.toList then
        settings.level (String.ofList (key.toList.drop levelKey.length))
      else
        ""

/-- Whether a key has a value. -/
def isSet (settings : Settings) (key : String) : Bool :=
  settings.string key != ""

/-- The value of a key as an integer. -/
def integer (settings : Settings) (key : String) : Int :=
  Decimal.integerOrZero (settings.string key)

/-- The words for true. -/
def trueWords : List String := ["1", "t", "T", "TRUE", "true", "True"]

/-- The words for false. -/
def falseWords : List String := ["0", "f", "F", "FALSE", "false", "False"]

/-- The value of a key as a truth value. -/
def bool (settings : Settings) (key : String) : Bool :=
  trueWords.contains (settings.string key)

/-- The levels of tracing as texts, in increasing order. -/
def levelTexts (settings : Settings) : List String :=
  (settings.levels.map fun (name, level) => name ++ "=" ++ level).mergeSort Table.textLE

/-- The configuration of an interpreter. -/
def config (settings : Settings) (files : FileReader) : Config where
  maxDepth := Config.depthLimit settings.maxDepth
  color := settings.color
  files := files

end Settings

end ScopeScript
