import ScopeScript.Evaluator.Assignment
import ScopeScript.Evaluator.Expression
import ScopeScript.Parser.Source

/-!
# Executing statements

Statements tell how control leaves them. Blocks, the rounds of loops and the handlers of caught
values run in blocks of their own; a loop has a block around its rounds. A scope declaration binds
its name when its body has ended, unless the body crashed.

An import runs a file inside a named scope. A file that cannot be read is reported, and the
program goes on.
-/

namespace ScopeScript
namespace Evaluator

/-- Run a body in a named scope and bind the scope afterwards; a context knows itself. -/
def declareScope (recursion : Recursion) (name : String) (body : List Stmt) (isContext : Bool) :
    Eval Flow := do
  let handle ← Eval.onVault (Vault.declare name)
  if isContext then
    Eval.define "this" (.scope handle)
  Eval.followedBy (recursion.execute body) (Eval.onVault (Vault.endDeclaration handle name))

/-- How a loop goes on after a round: `none` for another round, otherwise how control leaves
it. -/
def afterRound : Flow → Option Flow
  | .proceed | .nextRound => none
  | .leaveLoop => some .proceed
  | flow => some flow

/-- Run rounds until one of them ends the loop. -/
def repeatRounds (round : Eval (Option Flow)) : Nat → Eval Flow
  | 0 => Eval.endless
  | fuel + 1 => do
      match ← round with
      | some flow => return flow
      | none => repeatRounds round fuel

/-- One round of a loop with a test, which may be missing. -/
def loopRound (recursion : Recursion) (test? : Option Expr) (body : List Stmt) :
    Eval (Option Flow) := do
  let goesOn ← match test? with
    | some test => do pure (← recursion.evaluate test).isTrue
    | none => pure true
  if goesOn then
    return afterRound (← Eval.inBlock (recursion.execute body))
  else
    return some .proceed

/-- Run a loop with a test, which may be missing. -/
def runLoop (recursion : Recursion) (test? : Option Expr) (body : List Stmt) : Eval Flow :=
  Eval.inBlock (repeatRounds (loopRound recursion test? body) recursion.fuel)

/-- Run the rounds of a loop over items. -/
def runRounds (recursion : Recursion) (name : String) (body : List Stmt) :
    List Value → Eval Flow
  | [] => return .proceed
  | item :: items => do
      let flow ← Eval.inBlock do
        Eval.define name item
        recursion.execute body
      match afterRound flow with
      | some flow => return flow
      | none => runRounds recursion name body items

/-- The items a loop runs over: the elements of a sequence, the characters of a text, or the names
of a scope. -/
def itemsOf (span : Span) : Value → Eval (List Value)
  | .sequence items => return items
  | .text text => return text.toList.map fun c => .text c.toString
  | .scope handle => do
      let table ← Eval.queryAt span (·.bindings handle)
      return table.names.map .text
  | other => Eval.failAt span .notIterable ("cannot iterate over " ++ other.kind)

/-- Run a body and, if it throws, the handler with the thrown value. -/
def runAttempt (recursion : Recursion) (body : List Stmt) (caught : String)
    (handler : List Stmt) : Eval Flow := do
  match ← Eval.inBlock (recursion.execute body) with
  | .thrown value _ =>
      Eval.inBlock do
        if caught ≠ "" then
          Eval.define caught value
        recursion.execute handler
  | flow => return flow

/-- Add a value to those yielded by the innermost activation. -/
def yieldValue (recursion : Recursion) (span : Span) (argument : Option Expr) : Eval Unit := do
  if (← Eval.machine).activations.isEmpty then
    Eval.failAt span .yieldOutside "yield outside of a function"
  let value ← evaluateOptional recursion argument
  Eval.update fun machine =>
    { machine with
      activations := machine.activations.modifyHead (value :: ·) }

/-- The ending of source files. -/
def sourceExtension : String := ".syms"

/-- The path of an imported file, seen from the innermost file. -/
def importPath (machine : Machine) (source : String) : String :=
  let name := if Path.extension source = sourceExtension then source else source ++ sourceExtension
  if Path.isAbsolute name then
    name
  else
    let file := machine.currentFile
    let directory :=
      if file.path = "" ∨ file.path.toList.head? = some '<' then "." else Path.directory file.path
    Path.join directory name

/-- The name an import is bound to. -/
def importName (source aliasName : String) : String :=
  if aliasName = "" then Path.withoutSuffix (Path.base source) sourceExtension else aliasName

/-- The diagnostic for a thrown value that nothing catches. -/
def uncaught (value : Value) (span : Span) : Eval α := do
  Eval.failAt span .uncaughtThrow ("uncaught throw of " ++ (← Eval.display value))

/-- A number for a newly parsed text. -/
def freshOrigin : Eval Origin := do
  let origin := (← Eval.machine).parses + 1
  Eval.update fun machine => { machine with parses := origin }
  return origin

/-- Run an imported program inside a new named scope. -/
def runImported (recursion : Recursion) (span : Span) (source path text name : String)
    (program : Program) : Eval Unit := do
  let origin ← freshOrigin
  Eval.deeper span do
    let handle ← Eval.onVault (Vault.declare name)
    Eval.ensuring
      (do
        Eval.define "__file__" (.text path)
        Eval.define "__name__" (.text name)
        Eval.define "__module__" (.text source)
        Eval.inFile ⟨path, text⟩ do
          match ← Eval.within origin (recursion.execute program.body) with
          | .thrown value thrownAt => uncaught value thrownAt
          | _ => return ())
      (Eval.onVault (Vault.endDeclaration handle name))

/-- Execute an import. -/
def importFile (recursion : Recursion) (span : Span) (source aliasName : String) :
    Eval Unit := do
  let machine ← Eval.machine
  let path := importPath machine source
  Eval.update fun machine => { machine with requests := path :: machine.requests }
  match (← Eval.config).files path with
  | .error error =>
      let report := Eval.diagnosticAt machine span .importFailed
        ("cannot import " ++ Text.quoted source ++ ": " ++ error.message path)
      Eval.update fun machine => { machine with reports := report :: machine.reports }
  | .ok text =>
      match Program.parse path text with
      | .error diagnostic => Eval.fail diagnostic
      | .ok program =>
          runImported recursion span source path text (importName source aliasName) program

/-- Execute a statement. -/
def executeOne (recursion : Recursion) : Stmt → Eval Flow
  | .evaluate _ expr => do
      let value ← recursion.evaluate expr
      Eval.update fun machine => { machine with last := value }
      return .proceed
  | .declare _ name initial isFormula => do
      let value ←
        if isFormula then
          do pure (.formula ⟨← Eval.origin, initial⟩)
        else
          recursion.evaluate initial
      Eval.define name value
      return .proceed
  | .function span name parameters body isAsync => do
      Eval.define name (.function ⟨← Eval.origin, span, name, parameters, body, isAsync⟩)
      return .proceed
  | .scope _ name body => declareScope recursion name body false
  | .context _ name body => declareScope recursion name body true
  | .block _ body => Eval.inBlock (recursion.execute body)
  | .conditional _ test _ consequent alternate => do
      if (← recursion.evaluate test).isTrue then
        Eval.inBlock (recursion.execute consequent)
      else
        match alternate with
        | some statement => recursion.execute [statement]
        | none => return .proceed
  | .whileLoop _ test _ body => runLoop recursion (some test) body
  | .loop _ _ body => runLoop recursion none body
  | .forEach _ name iterable _ body =>
      Eval.inBlock do
        let value ← recursion.evaluate iterable
        let items ← itemsOf iterable.span value
        runRounds recursion name body items
  | .attempt _ _ body caught _ handler => runAttempt recursion body caught handler
  | .assign _ target operator right => do
      assign recursion target operator right
      return .proceed
  | .imports span source aliasName => do
      importFile recursion span source aliasName
      return .proceed
  | .returns _ argument => do
      return .result (← evaluateOptional recursion argument)
  | .throws span argument => do
      return .thrown (← recursion.evaluate argument) span
  | .breaks _ => return .leaveLoop
  | .continues _ => return .nextRound
  | .yields span argument => do
      yieldValue recursion span argument
      return .proceed

/-- Execute statements in order up to the first one that transfers control. -/
def executeStep (recursion : Recursion) : List Stmt → Eval Flow
  | [] => return .proceed
  | statement :: rest => do
      match ← executeOne recursion statement with
      | .proceed => executeStep recursion rest
      | flow => return flow

mutual

/-- Evaluate an expression with the given fuel. -/
def evaluate : Nat → Expr → Eval Value
  | 0, _ => Eval.endless
  | fuel + 1, expr => fun context machine =>
      evaluateStep ⟨evaluate fuel, execute fuel, fuel⟩ expr context machine

/-- Execute statements with the given fuel. -/
def execute : Nat → List Stmt → Eval Flow
  | 0, _ => Eval.endless
  | fuel + 1, statements => fun context machine =>
      executeStep ⟨evaluate fuel, execute fuel, fuel⟩ statements context machine

end

end Evaluator
end ScopeScript
