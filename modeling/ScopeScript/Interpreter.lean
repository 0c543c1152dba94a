import ScopeScript.Evaluator.Statement

/-!
# The interpreter

An interpreter runs programs one after the other. `start` gives it a fresh scope store with the
native routines in the global scope, `eval` executes a program in the global scope, and `stop`
frees everything. `run` does all three for one program.

The fuel is chosen so large that no evaluation that ends can use it up.
-/

namespace ScopeScript

/-- An interpreter between two programs. -/
structure Interpreter where
  config : Config
  isStarted : Bool := false
  machine : Machine := {}

namespace Interpreter

/-- Fuel for evaluations in practice. -/
def patience : Nat := 4611686018427387904

/-- A new interpreter. -/
def new (config : Config) : Interpreter := { config }

/-- Enter the global scope and fill it with the native routines. -/
def opening : Run Vault Unit := do
  let _ ← Vault.enterBlock
  Native.injectAll

/-- The store with the native routines in its global scope. -/
def freshVault : Vault :=
  (opening .empty).2

/-- Start with a fresh store; spans of the programs to come refer to the given source. -/
def start (interpreter : Interpreter) (path source : String) : Interpreter :=
  { interpreter with
    isStarted := true
    machine :=
      { interpreter.machine with
        vault := freshVault
        files := [⟨path, source⟩]
        activations := []
        depth := 0
        firstCrash? := none
        stuckOn? := none } }

/-- Leave and free all scopes. -/
def stop (interpreter : Interpreter) : Interpreter :=
  if interpreter.isStarted then
    { interpreter with
      machine :=
        { interpreter.machine with
          vault := (Vault.unwind 0 interpreter.machine.vault).2 } }
  else
    interpreter

/-- The path of input that has no file. -/
def inputPath : String := "<input>"

/-- Append text to the outermost file. Gives the offset at which the text begins. -/
def appendSource (interpreter : Interpreter) (text : String) : Nat × Interpreter :=
  let files := if interpreter.machine.files.isEmpty then [⟨inputPath, ""⟩]
    else interpreter.machine.files
  match files.getLast? with
  | some file =>
      (Text.size file.source,
        { interpreter with
          machine :=
            { interpreter.machine with
              files := files.dropLast ++ [{ file with source := file.source ++ text }] } })
  | none => (0, interpreter)

/-- The outermost file. -/
def source (interpreter : Interpreter) : SourceFile :=
  interpreter.machine.files.getLast?.getD ⟨"", ""⟩

/-- Execute a program in the global scope. Its result is what it returns, or else the value of the
last expression statement. -/
def evalProgram (fuel : Nat) (program : Program) : Eval Value := do
  let origin ← Evaluator.freshOrigin
  Eval.update fun machine => { machine with last := .none, depth := 0 }
  match ← Eval.within origin (Evaluator.execute fuel program.body) with
  | .thrown value span => Evaluator.uncaught value span
  | .result value => return value
  | _ => return (← Eval.machine).last

/-- Execute a program with the given fuel, starting the interpreter if necessary. -/
def evalWithin (fuel : Nat) (interpreter : Interpreter) (program : Program) :
    Outcome Value × Interpreter :=
  let interpreter := if interpreter.isStarted then interpreter else interpreter.start inputPath ""
  let (outcome, machine) :=
    evalProgram fuel program ⟨interpreter.config, 0⟩ interpreter.machine
  (outcome, { interpreter with machine })

/-- Execute a program, starting the interpreter if necessary. -/
def eval (interpreter : Interpreter) (program : Program) : Outcome Value × Interpreter :=
  evalWithin patience interpreter program

/-- Parse a program, execute it with the given fuel against a fresh store, and free the store. -/
def runWithin (fuel : Nat) (interpreter : Interpreter) (path source : String) :
    Outcome Value × Interpreter :=
  match Program.parse path source with
  | .error diagnostic => (.failed diagnostic, interpreter)
  | .ok program =>
      let (outcome, interpreter) := (interpreter.start path source).evalWithin fuel program
      (outcome, interpreter.stop)

/-- Parse and execute a program against a fresh store. -/
def run (interpreter : Interpreter) (path source : String) : Outcome Value × Interpreter :=
  runWithin patience interpreter path source

/-- What has been reported, oldest first. -/
def reports (interpreter : Interpreter) : List Diagnostic :=
  interpreter.machine.reports.reverse

/-- Forget what has been printed, reported and asked for. -/
def flush (interpreter : Interpreter) : Interpreter :=
  { interpreter with
    machine := { interpreter.machine with output := "", reports := [], requests := [] } }

end Interpreter

end ScopeScript
