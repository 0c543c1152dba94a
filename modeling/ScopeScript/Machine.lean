import ScopeScript.File.Tree
import ScopeScript.Vault.Basic

/-!
# The state of an evaluation

A machine holds everything an evaluation changes: the scope store, the files being executed, the
values yielded by the active function calls, the nesting depth, the value of the last expression
statement, what has been printed and reported, which files have been asked for, how a crash began,
and the operator at which an evaluation hangs.

`Eval` is a computation on a machine in a context that never changes during it: the configuration,
and the parse that the tree being evaluated comes from.
-/

namespace ScopeScript

/-- A file being executed. -/
structure SourceFile where
  path : String
  source : String
  deriving DecidableEq, Repr, Inhabited

/-- What an evaluation is configured with. -/
structure Config where
  maxDepth : Nat
  color : Bool
  files : FileReader

namespace Config

/-- The nesting that is allowed if nothing else is said. -/
def defaultMaxDepth : Nat := 1000

/-- The allowed nesting for a wanted one, which counts only if it is positive. -/
def depthLimit (wanted : Int) : Nat :=
  if wanted ≤ 0 then defaultMaxDepth else wanted.toNat

end Config

/-- The state of an evaluation. Stacks have their innermost element first; yielded values, reports
and requests for files have the newest first. -/
structure Machine where
  vault : Vault := .empty
  files : List SourceFile := []
  activations : List (List Value) := []
  depth : Nat := 0
  last : Value := .none
  output : String := ""
  reports : List Diagnostic := []
  requests : List String := []
  parses : Nat := 0
  /-- The crash that what is done at the end of computations has followed on. That may crash in
  turn, and then the outcome of the whole tells of the later crash. -/
  firstCrash? : Option Crash := none
  /-- The operator and the operands that an evaluation is still busy with and will be for ever, as
  their result never comes. -/
  stuckOn? : Option (BinaryOperator × Value × Value) := none
  deriving Inhabited

namespace Machine

/-- Remember an outcome if it is a crash and no earlier one is remembered. -/
def noting (machine : Machine) : Outcome α → Machine
  | .crashed crash => { machine with firstCrash? := machine.firstCrash?.or (some crash) }
  | _ => machine

/-- The crash by which a computation with the given outcome left its course, if it did. -/
def rootCause? (machine : Machine) : Outcome α → Option Crash
  | .crashed crash => machine.firstCrash?.or (some crash)
  | _ => machine.firstCrash?

/-- The innermost file being executed. -/
def currentFile (machine : Machine) : SourceFile :=
  machine.files.head?.getD ⟨"", ""⟩

/-- Give a diagnostic of the scope store a position in the innermost file. -/
def locate (machine : Machine) (span : Span) (diagnostic : Diagnostic) : Diagnostic :=
  if diagnostic.source = "" then
    let file := machine.currentFile
    { diagnostic with span := if diagnostic.span.isNull then span else diagnostic.span }.withSource
      file.path file.source
  else
    diagnostic

/-- A value as it is printed: scopes are shown by their path. -/
def display (machine : Machine) (value : Value) : String :=
  value.textWith machine.vault.path

end Machine

/-- What stays the same during an evaluation. -/
structure Context where
  config : Config
  origin : Origin

/-- A computation on a machine. -/
def Eval (α : Type) := Context → Machine → Outcome α × Machine

namespace Eval

/-- End with a result. -/
@[always_inline, inline] def result (value : α) : Eval α := fun _ machine =>
  (.done value, machine)

/-- Go on with a result; everything else ends the computation. -/
@[always_inline, inline] def andThen (first : Eval α) (next : α → Eval β) : Eval β :=
  fun context machine =>
    match first context machine with
    | (.done value, machine) => next value context machine
    | (.failed diagnostic, machine) => (.failed diagnostic, machine)
    | (.crashed crash, machine) => (.crashed crash, machine)
    | (.endless, machine) => (.endless, machine)

instance : Monad Eval where
  pure := result
  bind := andThen

/-- The state. -/
@[inline] def machine : Eval Machine := fun _ machine => (.done machine, machine)

/-- The configuration. -/
@[inline] def config : Eval Config := fun context machine => (.done context.config, machine)

/-- The parse that the tree being evaluated comes from. -/
@[inline] def origin : Eval Origin := fun context machine => (.done context.origin, machine)

/-- Change the state. -/
@[inline] def update (change : Machine → Machine) : Eval Unit := fun _ machine =>
  (.done (), change machine)

/-- End with a diagnostic that is complete. -/
@[inline] def fail (diagnostic : Diagnostic) : Eval α := fun _ machine =>
  (.failed diagnostic, machine)

/-- Never end. -/
@[inline] def endless : Eval α := fun _ machine => (.endless, machine)

/-- The diagnostic about a place in the innermost file. -/
def diagnosticAt (machine : Machine) (span : Span) (kind : DiagnosticKind) (message : String) :
    Diagnostic :=
  let file := machine.currentFile
  Diagnostic.withSource { kind, span, message } file.path file.source

/-- End with a diagnostic about a place in the innermost file. -/
def failAt (span : Span) (kind : DiagnosticKind) (message : String) : Eval α :=
  fun _ machine => (.failed (diagnosticAt machine span kind message), machine)

/-- Operate on the scope store. -/
@[inline] def onVault (operation : Run Vault α) : Eval α := fun _ machine =>
  let vault := machine.vault
  let machine := { machine with vault := .empty }
  match operation vault with
  | (outcome, vault) => (outcome, { machine with vault })

/-- Operate on the scope store; its diagnostics are about the given place. -/
@[inline] def onVaultAt (span : Span) (operation : Run Vault α) : Eval α := fun context machine =>
  match onVault operation context machine with
  | (.failed diagnostic, machine) => (.failed (machine.locate span diagnostic), machine)
  | other => other

/-- Look something up in the scope store; its diagnostics are about the given place. -/
@[inline] def queryAt (span : Span) (query : Vault → Except Diagnostic α) : Eval α :=
  fun _ machine =>
    match query machine.vault with
    | .ok value => (.done value, machine)
    | .error diagnostic => (.failed (machine.locate span diagnostic), machine)

/-- Evaluate a tree that comes from another parse. -/
@[inline] def within (origin : Origin) (body : Eval α) : Eval α := fun context machine =>
  body { context with origin } machine

/-- Do something at the end, however the body ends; if that fails itself, its failure counts. -/
@[inline] def ensuring (body : Eval α) (atEnd : Eval Unit) : Eval α := fun context machine =>
  match body context machine with
  | (.endless, machine) => (.endless, machine)
  | (outcome, machine) =>
      match atEnd context (machine.noting outcome) with
      | (.done _, machine) => (outcome, machine)
      | (.failed diagnostic, machine) => (.failed diagnostic, machine)
      | (.crashed crash, machine) => (.crashed crash, machine)
      | (.endless, machine) => (.endless, machine)

/-- Do something at the end unless the body crashes. -/
@[inline] def followedBy (body : Eval α) (atEnd : Eval Unit) : Eval α := fun context machine =>
  match body context machine with
  | (.crashed crash, machine) => (.crashed crash, machine)
  | (.endless, machine) => (.endless, machine)
  | (outcome, machine) =>
      match atEnd context machine with
      | (.done _, machine) => (outcome, machine)
      | (.failed diagnostic, machine) => (.failed diagnostic, machine)
      | (.crashed crash, machine) => (.crashed crash, machine)
      | (.endless, machine) => (.endless, machine)

/-- Evaluate inside a new block. -/
@[inline] def inBlock (body : Eval α) : Eval α := do
  let _ ← onVault Vault.enterBlock
  ensuring body (onVault Vault.exitBlock)

/-- Evaluate one level deeper, unless that exceeds the allowed nesting. -/
@[inline] def deeper (span : Span) (body : Eval α) : Eval α := fun context machine =>
  if context.config.maxDepth < machine.depth + 1 then
    failAt span .depthExceeded
      ("maximum depth of " ++ toString context.config.maxDepth ++ " exceeded") context machine
  else
    ensuring body (update fun machine => { machine with depth := machine.depth - 1 }) context
      { machine with depth := machine.depth + 1 }

/-- Evaluate with a file as the innermost one. -/
@[inline] def inFile (file : SourceFile) (body : Eval α) : Eval α := do
  update fun machine => { machine with files := file :: machine.files }
  ensuring body (update fun machine => { machine with files := machine.files.tail })

/-- Bind a name in the innermost scope. -/
def define (name : String) (value : Value) : Eval Unit :=
  onVault (Vault.define name value)

/-- A value as it is printed. -/
def display (value : Value) : Eval String := do
  return (← machine).display value

end Eval

end ScopeScript
