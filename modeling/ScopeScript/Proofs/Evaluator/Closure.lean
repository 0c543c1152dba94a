import ScopeScript.Evaluator.Statement
import ScopeScript.Proofs.Evaluator.Prelude

/-!
# Properties of all evaluations

The evaluator is put together from few parts: operations on the scope store that neither enter nor
leave nor create a scope, changes of the state beside it, and brackets that do something before and
after a body. `Eval.Closed` lists them. A property that is closed under these parts holds of every
evaluation, by induction on the fuel (`Eval.Closed.recursion`), and the induction is done here once.

Properties come in two levels, because statements may add to the values yielded by the innermost
activation and declare scopes in the innermost one, and expressions may not. An expression that
calls a function executes statements, but only in a block of their own.
-/

namespace ScopeScript

/-- What a computation is part of. -/
inductive Level
  | expression
  | statement

namespace Vault

/-- The operations by which evaluation works with scopes without entering, leaving or creating
one. -/
inductive Plain : {α : Type} → Run Vault α → Prop
  | resolve (name : String) : Plain (Vault.resolve name)
  | define (name : String) (value : Value) : Plain (Vault.define name value)
  | defineIn (handle : Handle) (name : String) (value : Value) :
      Plain (Vault.defineIn handle name value)
  | write (reference : Reference) (value : Value) : Plain (Vault.write reference value)
  | unbind (name : String) : Plain (Vault.unbind name)
  | eraseIn (handle : Handle) (name : String) : Plain (Vault.eraseIn handle name)
  | clearIn (handle : Handle) : Plain (Vault.clearIn handle)

end Vault

/-- A change of the state touches neither scopes nor files nor calls. -/
structure Machine.Aside (before after : Machine) : Prop where
  vault : after.vault = before.vault
  files : after.files = before.files
  activations : after.activations = before.activations
  depth : after.depth = before.depth
  firstCrash? : after.firstCrash? = before.firstCrash?

namespace Eval

/-- Add a value to those yielded by the innermost activation. -/
def yielding (value : Value) : Eval Unit :=
  update fun machine => { machine with activations := machine.activations.modifyHead (value :: ·) }

/-- Go on with a result or, where there is none, in another way. -/
def resume (first : Eval α) (next : α → Eval β) (otherwise : Eval β) : Eval β :=
  fun context machine =>
    match first context machine with
    | (.done value, machine) => next value context machine
    | (.failed _, machine) => otherwise context machine
    | (.crashed crash, machine) => (.crashed crash, machine)
    | (.endless, machine) => (.endless, machine)

/-- Create a scope inside the innermost block and another one inside that, and go on with both. -/
def founding (span : Span) (outer inner : String) (next : Handle → Handle → Eval α) : Eval α := do
  let owner ← onVault Vault.owner
  let scope ← onVaultAt span (Vault.createOwned owner outer)
  let part ← onVaultAt span (Vault.createOwned scope inner)
  next scope part

/-- Evaluate the body of a function in a block of its own, which is filled before. -/
def inCall (filling : Eval Unit) (body : Eval α) : Eval α :=
  inBlock do
    filling
    Evaluator.activated body

/-- Evaluate inside a new named scope, which is bound to its name at the end. -/
def inDeclaration (name : String) (body : Eval α) : Eval α := do
  let handle ← onVault (Vault.declare name)
  ensuring body (onVault (Vault.endDeclaration handle name))

/-- A property of computations is closed under what the evaluator is made of. -/
structure Closed (P : Level → {α : Type} → Eval α → Prop) : Prop where
  raise {α : Type} {body : Eval α} : P .expression body → P .statement body
  result {α : Type} (level : Level) (value : α) : P level (pure value)
  bind {α β : Type} {level : Level} {first : Eval α} {next : α → Eval β} :
    P level first → (∀ value, P level (next value)) → P level (first >>= next)
  resume {α β : Type} {level : Level} {operation : Run Vault α} {next : α → Eval β}
    {otherwise : Eval β} :
    Vault.Plain operation → (∀ value, P level (next value)) → P level otherwise →
      P level ((Eval.onVault operation).resume next otherwise)
  machine (level : Level) : P level Eval.machine
  /-- Only the allowed nesting has an influence of its own; everything else that is configured is
  looked up. -/
  configured {α : Type} {level : Level} {next : Config → Eval α} :
    (∀ config, P level (next config)) →
      (∀ config limit, next { config with maxDepth := limit } = next config) →
      P level (Eval.config >>= next)
  origin (level : Level) : P level Eval.origin
  within {α : Type} {level : Level} {body : Eval α} (origin : Origin) :
    P level body → P level (Eval.within origin body)
  fail {α : Type} (level : Level) (diagnostic : Diagnostic) :
    P level (Eval.fail diagnostic : Eval α)
  failAt {α : Type} (level : Level) (span : Span) (kind : DiagnosticKind) (message : String) :
    P level (Eval.failAt span kind message : Eval α)
  endless {α : Type} (level : Level) : P level (Eval.endless : Eval α)
  queryAt {α : Type} (level : Level) (span : Span) (query : Vault → Except Diagnostic α) :
    P level (Eval.queryAt span query)
  onVault {α : Type} (level : Level) {operation : Run Vault α} :
    Vault.Plain operation → P level (Eval.onVault operation)
  onVaultAt {α : Type} (level : Level) (span : Span) {operation : Run Vault α} :
    Vault.Plain operation → P level (Eval.onVaultAt span operation)
  aside (level : Level) {change : Machine → Machine} :
    (∀ machine : Machine, machine.Aside (change machine)) → P level (Eval.update change)
  yielding (value : Value) : P .statement (Eval.yielding value)
  deeper {α : Type} {level : Level} {body : Eval α} (span : Span) :
    P level body → P level (Eval.deeper span body)
  inBlock {α : Type} {level : Level} {body : Eval α} :
    P level body → P level (Eval.inBlock body)
  inFile {α : Type} {level : Level} {body : Eval α} (file : SourceFile) :
    P level body → P level (Eval.inFile file body)
  inCall {α : Type} {filling : Eval Unit} {body : Eval α} :
    P .expression filling → P .statement body → P .expression (Eval.inCall filling body)
  founding {α : Type} {level : Level} {next : Handle → Handle → Eval α} (span : Span)
    (outer inner : String) :
    (∀ scope part, P level (next scope part)) → P level (Eval.founding span outer inner next)
  inScope {α : Type} {body : Eval α} (span : Span) (handle : Handle) :
    P .expression body → P .expression (Evaluator.inScope span handle body)
  inBox {α : Type} {level : Level} {body : Handle → Eval α} (value : Value) :
    (∀ box, P level (body box)) → P level (Evaluator.inBox value body)
  inDeclaration {α : Type} {body : Eval α} (name : String) :
    P .statement body → P .statement (Eval.inDeclaration name body)
  declareScope {recursion : Recursion} {body : List Stmt} (name : String) (isContext : Bool) :
    P .statement (recursion.execute body) →
      P .statement (Evaluator.declareScope recursion name body isContext)

end Eval

/-- A property holds of the evaluators that a step may use. The methods of maps are executed as a
part of an expression. -/
structure Recursion.Satisfies (recursion : Recursion) (P : Level → {α : Type} → Eval α → Prop) :
    Prop where
  evaluate : ∀ expr, P .expression (recursion.evaluate expr)
  execute : ∀ statements, P .statement (recursion.execute statements)
  prelude : P .expression (recursion.execute Prelude.statements)

namespace Eval.Closed

open Evaluator

variable {P : Level → {α : Type} → Eval α → Prop} {recursion : Recursion}

/-! ## Expressions -/

/-- Arguments are evaluated from left to right. -/
theorem evaluateAll (closed : Closed P) (satisfies : recursion.Satisfies P) (exprs : List Expr) :
    P .expression (Evaluator.evaluateAll recursion exprs) := by
  induction exprs with
  | nil => exact closed.result _ _
  | cons expr exprs inductionHypothesis =>
      refine closed.bind (satisfies.evaluate expr) fun value => ?_
      exact closed.bind inductionHypothesis fun values => closed.result _ _

theorem evaluateOptional (closed : Closed P) (satisfies : recursion.Satisfies P)
    (expr : Option Expr) : P .expression (Evaluator.evaluateOptional recursion expr) := by
  cases expr with
  | none => exact closed.result _ _
  | some expr => exact satisfies.evaluate expr

theorem applyBinary (closed : Closed P) (operator : BinaryOperator) (left right : Value) :
    P .expression (Evaluator.applyBinary operator left right) := by
  unfold Evaluator.applyBinary
  split
  · exact closed.result _ _
  · exact closed.bind (closed.aside _ fun _ => ⟨rfl, rfl, rfl, rfl, rfl⟩) fun _ => closed.endless _

/-- Only formulas are evaluated when they are read. -/
theorem dereference (closed : Closed P) (satisfies : recursion.Satisfies P) (span : Span)
    (value : Value) : P .expression (Evaluator.dereference recursion span value) := by
  unfold Evaluator.dereference
  split
  case h_1 formula =>
    exact closed.deeper span (closed.within formula.origin (satisfies.evaluate formula.expr))
  case h_2 => exact closed.result _ _

/-- Looking a name up is to resolve it and to read what is found. -/
theorem lookup (closed : Closed P) (satisfies : recursion.Satisfies P) (span : Span)
    (name : String) : P .expression (Evaluator.lookup recursion span name) := by
  refine closed.bind (closed.onVaultAt _ span (.resolve name)) ?_
  rintro ⟨reference, value⟩
  exact closed.dereference satisfies span value

/-! ## Native routines -/

theorem printAll (closed : Closed P) (values : List Value) (ending : String) :
    P .expression (Native.printAll values ending) := by
  refine closed.configured (fun config => ?_) fun _ _ => rfl
  refine closed.bind (closed.machine _) fun machine => ?_
  exact closed.bind (closed.aside _ fun _ => ⟨rfl, rfl, rfl, rfl, rfl⟩) fun _ => closed.result _ _

theorem callConversion (closed : Closed P) (native : Native) (site : CallSite)
    (values : List Value) : P .expression (native.callConversion site values) := by
  unfold Native.callConversion
  split
  · exact closed.bind (closed.machine _) fun machine => closed.result _ _
  · exact closed.failAt _ _ _ _

/-- A routine of a box finds its value under a name of its own. -/
theorem callBoxed_nil (native : Native) (site : CallSite) :
    native.callBoxed site [] =
      (Eval.onVault (Vault.resolve Native.boxedValue)).resume
        (fun found => do return native.convert (← Eval.machine) found.2)
        (Eval.failAt site.span .notScope ("`" ++ site.callee ++ "` called on non-primitive")) := by
  funext context machine
  unfold Native.callBoxed Eval.resume
  dsimp only
  generalize Eval.onVault (Vault.resolve Native.boxedValue) context machine = ran
  rcases ran with ⟨⟨reference, value⟩ | diagnostic | crash | _, after⟩ <;> rfl

theorem callBoxed (closed : Closed P) (native : Native) (site : CallSite) (values : List Value) :
    P .expression (native.callBoxed site values) := by
  cases values with
  | nil =>
      rw [callBoxed_nil]
      refine closed.resume (.resolve _) (fun found => ?_) (closed.failAt _ _ _ _)
      exact closed.bind (closed.machine _) fun machine => closed.result _ _
  | cons value rest => exact closed.callConversion native site (value :: rest)

/-- The routines of maps change one record at most. -/
theorem onEntries (closed : Closed P) (native : Native) (site : CallSite) (handle : Handle)
    (table : Table) (values : List Value) :
    P .expression (native.onEntries site handle table values) := by
  unfold Native.onEntries
  split
  case h_1 key value =>
    split
    · exact closed.bind (closed.onVaultAt _ _ (.defineIn _ _ _)) fun _ => closed.result _ _
    · exact closed.result _ _
  case h_2 key =>
    split
    · exact closed.result _ _
    · exact closed.bind (closed.onVaultAt _ _ (.eraseIn _ _)) fun _ => closed.result _ _
    · exact closed.result _ _
    · exact closed.result _ _
  case h_3 =>
    split
    · exact closed.result _ _
    · exact closed.result _ _
    · exact closed.bind (closed.onVault _ (.clearIn _)) fun _ => closed.result _ _
    · exact closed.result _ _
    · exact closed.result _ _

theorem callStorage (closed : Closed P) (native : Native) (site : CallSite)
    (values : List Value) : P .expression (native.callStorage site values) := by
  unfold Native.callStorage
  split
  · split
    case h_1 =>
      refine closed.bind (closed.queryAt _ _ _) fun table => ?_
      exact closed.onEntries native site _ table _
    case h_2 => exact closed.failAt _ _ _ _
    case h_3 => exact closed.result _ _
  · exact closed.failAt _ _ _ _

/-- A map is created in the innermost scope and filled by the prelude. -/
theorem callNewMap (closed : Closed P) (satisfies : recursion.Satisfies P) (site : CallSite)
    (values : List Value) : P .expression (Native.callNewMap recursion site values) := by
  unfold Native.callNewMap
  split
  · exact closed.failAt _ _ _ _
  · refine closed.founding site.span "Map" "entries" fun handle entries => ?_
    refine closed.bind (closed.onVault _ (.defineIn _ _ _)) fun _ => ?_
    refine closed.bind (closed.onVault _ (.defineIn _ _ _)) fun _ => ?_
    refine closed.inScope site.span handle (closed.bind ?_ fun _ => closed.result _ _)
    exact closed.inFile _ (closed.within _ satisfies.prelude)

theorem callNative (closed : Closed P) (satisfies : recursion.Satisfies P) (native : Native)
    (site : CallSite) (values : List Value) :
    P .expression (native.call recursion site values) := by
  unfold Native.call
  split
  · exact closed.printAll values _
  · exact closed.printAll values _
  iterate 6 exact closed.callConversion _ site values
  iterate 5 exact closed.callBoxed _ site values
  · exact closed.callNewMap satisfies site values
  · exact closed.callStorage native site values

/-! ## Calls and members -/

/-- Parameters are bound one by one. -/
theorem bindParameters (closed : Closed P) (level : Level) (names : List String)
    (values : List Value) : P level (Evaluator.bindParameters names values) := by
  induction names generalizing values with
  | nil => exact closed.result _ _
  | cons name names inductionHypothesis =>
      cases values with
      | nil => exact closed.result _ _
      | cons value values =>
          exact closed.bind (closed.onVault _ (.define _ _)) fun _ => inductionHypothesis values

theorem resultOfBody (closed : Closed P) (level : Level) (flow : Flow) :
    P level (Evaluator.resultOfBody flow) := by
  unfold Evaluator.resultOfBody
  split
  · exact closed.result _ _
  · refine closed.bind ?_ fun text => closed.result _ _
    exact closed.bind (closed.machine _) fun machine => closed.result _ _
  · exact closed.bind (closed.machine _) fun machine => closed.result _ _

/-- A call goes one level deeper, in a block that holds the parameters. -/
theorem callFunction (closed : Closed P) (satisfies : recursion.Satisfies P) (site : CallSite)
    (function : Function) (values : List Value) :
    P .expression (Evaluator.callFunction recursion site function values) := by
  unfold Evaluator.callFunction
  split
  · refine closed.deeper site.span (closed.inCall (closed.bindParameters _ _ _) ?_)
    refine closed.bind (closed.within _ (satisfies.execute _)) fun flow => ?_
    exact closed.resultOfBody _ flow
  · exact closed.failAt _ _ _ _

theorem invoke (closed : Closed P) (satisfies : recursion.Satisfies P) (site : CallSite)
    (callee : Value) (values : List Value) :
    P .expression (Evaluator.invoke recursion site callee values) := by
  unfold Evaluator.invoke
  split
  · split
    · exact closed.callNative satisfies _ site values
    · exact closed.failAt _ _ _ _
  · exact closed.callFunction satisfies site _ values
  · exact closed.failAt _ _ _ _

theorem callByName (closed : Closed P) (satisfies : recursion.Satisfies P) (site : CallSite)
    (values : List Value) : P .expression (Evaluator.callByName recursion site values) :=
  closed.bind (closed.lookup satisfies _ _) fun callee => closed.invoke satisfies site callee values

/-- A member of a scope is looked up inside of it, and other values are put in a box. -/
theorem property (closed : Closed P) (satisfies : recursion.Satisfies P) (span : Span)
    (object : Value) (name : String) :
    P .expression (Evaluator.property recursion span object name) := by
  unfold Evaluator.property
  split
  · exact closed.inScope span _ (closed.lookup satisfies span name)
  · split
    · refine closed.inBox _ fun box => closed.bind (closed.machine _) fun machine => ?_
      split
      · exact closed.result _ _
      · exact closed.failAt _ _ _ _
    · exact closed.failAt _ _ _ _

theorem callMember (closed : Closed P) (satisfies : recursion.Satisfies P) (span : Span)
    (object : Value) (site : CallSite) (values : List Value) :
    P .expression (Evaluator.callMember recursion span object site values) := by
  unfold Evaluator.callMember
  split
  · exact closed.inScope span _ (closed.callByName satisfies site values)
  · split
    · refine closed.inBox _ fun box => closed.bind (closed.machine _) fun machine => ?_
      split
      · exact closed.invoke satisfies site _ values
      · exact closed.failAt _ _ _ _
    · exact closed.failAt _ _ _ _

theorem elementAt (closed : Closed P) (satisfies : recursion.Satisfies P) (span objectSpan : Span)
    (object key : Value) :
    P .expression (Evaluator.elementAt recursion span objectSpan object key) := by
  unfold Evaluator.elementAt
  split
  · exact closed.result _ _
  · simp only
    split
    · exact closed.result _ _
    · exact closed.result _ _
  · refine closed.bind (closed.queryAt _ _ _) fun found => ?_
    split
    · exact closed.result _ _
    · exact closed.property satisfies span _ _
    · exact closed.result _ _
  · exact closed.failAt _ _ _ _

theorem evaluateStep (closed : Closed P) (satisfies : recursion.Satisfies P) (expr : Expr) :
    P .expression (Evaluator.evaluateStep recursion expr) := by
  cases expr with
  | number span value => exact closed.result _ _
  | text span value => exact closed.result _ _
  | bool span value => exact closed.result _ _
  | none span => exact closed.result _ _
  | absent span => exact closed.result _ _
  | name span name => exact closed.lookup satisfies span name
  | binary span left operator right =>
      refine closed.bind (satisfies.evaluate left) fun leftValue => ?_
      exact closed.bind (satisfies.evaluate right) fun rightValue => closed.applyBinary _ _ _
  | unary span operator operand =>
      exact closed.bind (satisfies.evaluate operand) fun value => closed.result _ _
  | conditional span test consequent alternate =>
      refine closed.bind (satisfies.evaluate test) fun value => ?_
      split
      · exact satisfies.evaluate consequent
      · exact satisfies.evaluate alternate
  | sequence span items =>
      exact closed.bind (closed.evaluateAll satisfies items) fun values => closed.result _ _
  | call span callee argumentsSpan arguments =>
      refine closed.bind (closed.evaluateAll satisfies arguments) fun values => ?_
      exact closed.callByName satisfies _ values
  | member span object nameSpan name =>
      refine closed.bind (satisfies.evaluate object) fun value => ?_
      exact closed.property satisfies span value name
  | method span object callSpan callee argumentsSpan arguments =>
      refine closed.bind (satisfies.evaluate object) fun value => ?_
      refine closed.bind (closed.evaluateAll satisfies arguments) fun values => ?_
      exact closed.callMember satisfies span value _ values
  | index span object key =>
      refine closed.bind (satisfies.evaluate object) fun value => ?_
      refine closed.bind (satisfies.evaluate key) fun keyValue => ?_
      exact closed.elementAt satisfies span object.span value keyValue
  | await span operand => exact satisfies.evaluate operand
  | delete span nameSpan name =>
      refine closed.bind (closed.onVault _ (.unbind name)) fun removed => ?_
      split
      · exact closed.result _ _
      · exact closed.failAt _ _ _ _
  | construct span callSpan callee argumentsSpan arguments =>
      refine closed.bind (closed.evaluateAll satisfies arguments) fun values => ?_
      refine closed.bind (closed.lookup satisfies callSpan callee) fun target => ?_
      exact closed.callMember satisfies callSpan target _ values

/-! ## Assignments -/

/-- The new value is computed before anything is changed. -/
theorem newValue (closed : Closed P) (satisfies : recursion.Satisfies P)
    (operator : AssignOperator) (right : Expr) {current : Eval Value}
    (holds : P .expression current) :
    P .expression (Evaluator.newValue recursion operator right current) := by
  unfold Evaluator.newValue
  split
  · exact closed.bind (closed.origin _) fun origin => closed.result _ _
  · refine closed.bind (satisfies.evaluate right) fun rightValue => ?_
    split
    · exact closed.result _ _
    · exact closed.bind holds fun leftValue => closed.applyBinary _ _ _

/-- The name is resolved before the right side is evaluated, and written to afterwards. -/
theorem assignName (closed : Closed P) (satisfies : recursion.Satisfies P) (span : Span)
    (name : String) (operator : AssignOperator) (right : Expr) :
    P .expression (Evaluator.assignName recursion span name operator right) := by
  refine closed.bind (closed.onVaultAt _ span (.resolve name)) ?_
  rintro ⟨reference, _⟩
  refine closed.bind (closed.newValue satisfies operator right ?_) fun value => ?_
  · exact closed.bind (closed.machine _) fun machine => closed.dereference satisfies span _
  · exact closed.onVault _ (.write reference value)

theorem assignBinding (closed : Closed P) (satisfies : recursion.Satisfies P) (span : Span)
    (handle : Handle) (name : String) (operator : AssignOperator) (right : Expr) :
    P .expression (Evaluator.assignBinding recursion span handle name operator right) := by
  refine closed.bind (closed.newValue satisfies operator right ?_) fun value => ?_
  · refine closed.bind (closed.queryAt _ _ _) fun found => ?_
    split
    · exact closed.result _ _
    · exact closed.property satisfies span _ name
  · exact closed.onVaultAt _ span (.defineIn handle name value)

/-- The elements of a sequence are changed by binding the whole sequence again. -/
theorem assignElement (closed : Closed P) (satisfies : recursion.Satisfies P)
    (target object : Expr) (items : List Value) (key : Value) (operator : AssignOperator)
    (right : Expr) :
    P .expression (Evaluator.assignElement recursion target object items key operator right) := by
  unfold Evaluator.assignElement
  split
  · refine closed.bind (closed.newValue satisfies operator right (closed.result _ _)) fun _ => ?_
    refine closed.bind (closed.onVaultAt _ _ (.resolve _)) ?_
    rintro ⟨reference, _⟩
    exact closed.onVault _ (.write reference _)
  · exact closed.failAt _ _ _ _

theorem assign (closed : Closed P) (satisfies : recursion.Satisfies P) (target : Expr)
    (operator : AssignOperator) (right : Expr) :
    P .expression (Evaluator.assign recursion target operator right) := by
  unfold Evaluator.assign
  split
  case h_1 span name => exact closed.assignName satisfies span name operator right
  case h_2 span object nameSpan name =>
    refine closed.bind (satisfies.evaluate object) fun value => ?_
    split
    · exact closed.assignBinding satisfies span _ name operator right
    · exact closed.failAt _ _ _ _
  case h_3 span object key =>
    refine closed.bind (satisfies.evaluate object) fun objectValue => ?_
    refine closed.bind (satisfies.evaluate key) fun keyValue => ?_
    split
    · exact closed.assignBinding satisfies span _ _ operator right
    · exact closed.assignElement satisfies _ object _ keyValue operator right
    · exact closed.failAt _ _ _ _
  case h_4 span object callSpan callee argumentsSpan arguments =>
    exact closed.bind (satisfies.evaluate object) fun _ => closed.failAt _ _ _ _
  case h_5 => exact closed.failAt _ _ _ _

/-! ## Statements -/

/-- A loop is as good as one of its rounds. -/
theorem repeatRounds (closed : Closed P) {round : Eval (Option Flow)} (holds : P .statement round)
    (fuel : Nat) : P .statement (Evaluator.repeatRounds round fuel) := by
  induction fuel with
  | zero => exact closed.endless _
  | succ fuel inductionHypothesis =>
      refine closed.bind holds fun ended => ?_
      split
      · exact closed.result _ _
      · exact inductionHypothesis

theorem loopRound (closed : Closed P) (satisfies : recursion.Satisfies P) (test? : Option Expr)
    (body : List Stmt) : P .statement (Evaluator.loopRound recursion test? body) := by
  have goOn : P .statement do
      return afterRound (← Eval.inBlock (recursion.execute body)) :=
    closed.bind (closed.inBlock (satisfies.execute body)) fun flow => closed.result _ _
  cases test? with
  | none => exact goOn
  | some test =>
      refine closed.bind (closed.raise (satisfies.evaluate test)) fun value => ?_
      refine closed.bind (closed.result _ _) fun goesOn => ?_
      cases goesOn with
      | true => exact goOn
      | false => exact closed.result _ _

theorem runLoop (closed : Closed P) (satisfies : recursion.Satisfies P) (test? : Option Expr)
    (body : List Stmt) : P .statement (Evaluator.runLoop recursion test? body) :=
  closed.inBlock (closed.repeatRounds (closed.loopRound satisfies test? body) recursion.fuel)

theorem runRounds (closed : Closed P) (satisfies : recursion.Satisfies P) (name : String)
    (body : List Stmt) (items : List Value) :
    P .statement (Evaluator.runRounds recursion name body items) := by
  induction items with
  | nil => exact closed.result _ _
  | cons item items inductionHypothesis =>
      refine closed.bind (closed.inBlock ?_) fun flow => ?_
      · exact closed.bind (closed.onVault _ (.define _ _)) fun _ => satisfies.execute body
      · split
        · exact closed.result _ _
        · exact inductionHypothesis

theorem itemsOf (closed : Closed P) (span : Span) (value : Value) :
    P .expression (Evaluator.itemsOf span value) := by
  unfold Evaluator.itemsOf
  split
  · exact closed.result _ _
  · exact closed.result _ _
  · exact closed.bind (closed.queryAt _ _ _) fun table => closed.result _ _
  · exact closed.failAt _ _ _ _

theorem runAttempt (closed : Closed P) (satisfies : recursion.Satisfies P) (body : List Stmt)
    (caught : String) (handler : List Stmt) :
    P .statement (Evaluator.runAttempt recursion body caught handler) := by
  refine closed.bind (closed.inBlock (satisfies.execute body)) fun flow => ?_
  split
  · refine closed.inBlock ?_
    split
    · exact closed.bind (closed.onVault _ (.define _ _)) fun _ => satisfies.execute handler
    · exact satisfies.execute handler
  · exact closed.result _ _

theorem yieldValue (closed : Closed P) (satisfies : recursion.Satisfies P) (span : Span)
    (argument : Option Expr) : P .statement (Evaluator.yieldValue recursion span argument) := by
  refine closed.bind (closed.machine _) fun machine => ?_
  split
  · exact closed.bind (closed.failAt _ _ _ _) fun _ =>
      closed.bind (closed.raise (closed.evaluateOptional satisfies argument)) closed.yielding
  · exact closed.bind (closed.raise (closed.evaluateOptional satisfies argument)) closed.yielding

theorem uncaught {α : Type} (closed : Closed P) (level : Level) (value : Value) (span : Span) :
    P level (Evaluator.uncaught value span : Eval α) := by
  refine closed.bind ?_ fun text => closed.failAt _ _ _ _
  exact closed.bind (closed.machine _) fun machine => closed.result _ _

theorem freshOrigin (closed : Closed P) (level : Level) : P level Evaluator.freshOrigin := by
  refine closed.bind (closed.machine _) fun machine => ?_
  exact closed.bind (closed.aside _ fun _ => ⟨rfl, rfl, rfl, rfl, rfl⟩) fun _ => closed.result _ _

theorem runImported (closed : Closed P) (satisfies : recursion.Satisfies P) (span : Span)
    (source path text name : String) (program : Program) :
    P .statement (Evaluator.runImported recursion span source path text name program) := by
  refine closed.bind (closed.freshOrigin _) fun origin => closed.deeper span ?_
  refine closed.inDeclaration name ?_
  refine closed.bind (closed.onVault _ (.define _ _)) fun _ => ?_
  refine closed.bind (closed.onVault _ (.define _ _)) fun _ => ?_
  refine closed.bind (closed.onVault _ (.define _ _)) fun _ => closed.inFile _ ?_
  refine closed.bind (closed.within origin (satisfies.execute program.body)) fun flow => ?_
  split
  · exact closed.uncaught _ _ _
  · exact closed.result _ _

theorem importFile (closed : Closed P) (satisfies : recursion.Satisfies P) (span : Span)
    (source aliasName : String) :
    P .statement (Evaluator.importFile recursion span source aliasName) := by
  refine closed.bind (closed.machine _) fun machine => ?_
  refine closed.bind (closed.aside _ fun _ => ⟨rfl, rfl, rfl, rfl, rfl⟩) fun _ => ?_
  refine closed.configured (fun config => ?_) fun _ _ => rfl
  split
  · exact closed.aside _ fun _ => ⟨rfl, rfl, rfl, rfl, rfl⟩
  · split
    · exact closed.fail _ _
    · exact closed.runImported satisfies span source _ _ _ _

theorem executeOne (closed : Closed P) (satisfies : recursion.Satisfies P) (statement : Stmt) :
    P .statement (Evaluator.executeOne recursion statement) := by
  have evaluate := fun expr => closed.raise (satisfies.evaluate expr)
  cases statement with
  | evaluate span expr =>
      refine closed.bind (evaluate expr) fun value => ?_
      exact closed.bind (closed.aside _ fun _ => ⟨rfl, rfl, rfl, rfl, rfl⟩) fun _ =>
        closed.result _ _
  | returns span argument =>
      exact closed.bind (closed.raise (closed.evaluateOptional satisfies argument)) fun value =>
        closed.result _ _
  | yields span argument =>
      exact closed.bind (closed.yieldValue satisfies span argument) fun _ => closed.result _ _
  | throws span argument =>
      exact closed.bind (evaluate argument) fun value => closed.result _ _
  | breaks span => exact closed.result _ _
  | continues span => exact closed.result _ _
  | declare span name initial isFormula =>
      have define := fun value =>
        closed.bind (closed.onVault .statement (.define name value)) fun _ =>
          closed.result .statement Flow.proceed
      cases isFormula with
      | true => exact closed.bind (closed.origin _) fun origin => define _
      | false => exact closed.bind (evaluate initial) fun value => define value
  | function span name parameters body isAsync =>
      refine closed.bind (closed.origin _) fun origin => ?_
      exact closed.bind (closed.onVault _ (.define _ _)) fun _ => closed.result _ _
  | scope span name body => exact closed.declareScope name false (satisfies.execute body)
  | context span name body => exact closed.declareScope name true (satisfies.execute body)
  | conditional span test consequentSpan consequent alternate =>
      refine closed.bind (evaluate test) fun value => ?_
      split
      · exact closed.inBlock (satisfies.execute consequent)
      · split
        · exact satisfies.execute _
        · exact closed.result _ _
  | forEach span name iterable bodySpan body =>
      refine closed.inBlock (closed.bind (evaluate iterable) fun value => ?_)
      refine closed.bind (closed.raise (closed.itemsOf _ value)) fun items => ?_
      exact closed.runRounds satisfies name body items
  | whileLoop span test bodySpan body => exact closed.runLoop satisfies (some test) body
  | loop span bodySpan body => exact closed.runLoop satisfies none body
  | block span body => exact closed.inBlock (satisfies.execute body)
  | assign span target operator right =>
      refine closed.bind (closed.raise (closed.assign satisfies target operator right)) fun _ => ?_
      exact closed.result _ _
  | imports span source aliasName =>
      exact closed.bind (closed.importFile satisfies span source aliasName) fun _ =>
        closed.result _ _
  | attempt span bodySpan body caught handlerSpan handler =>
      exact closed.runAttempt satisfies body caught handler

theorem executeStep (closed : Closed P) (satisfies : recursion.Satisfies P)
    (statements : List Stmt) : P .statement (Evaluator.executeStep recursion statements) := by
  induction statements with
  | nil => exact closed.result _ _
  | cons statement statements inductionHypothesis =>
      refine closed.bind (closed.executeOne satisfies statement) fun flow => ?_
      split
      · exact inductionHypothesis
      · exact closed.result _ _

end Eval.Closed

/-! ## Evaluation with fuel -/

/-- The evaluators for a given amount of fuel. -/
def Evaluator.recursion (fuel : Nat) : Recursion :=
  ⟨Evaluator.evaluate fuel, Evaluator.execute fuel, fuel⟩

theorem Evaluator.execute_succ (fuel : Nat) (statements : List Stmt) :
    (recursion (fuel + 1)).execute statements = executeStep (recursion fuel) statements := rfl

namespace Eval.Closed

variable {P : Level → {α : Type} → Eval α → Prop}

/-- Declarations of functions yield nothing. -/
theorem executeStep_of_isFunction (closed : Closed P) (recursion : Recursion)
    {statements : List Stmt}
    (functions : ∀ statement ∈ statements, statement.isFunction = true) :
    P .expression (Evaluator.executeStep recursion statements) := by
  induction statements with
  | nil => exact closed.result _ _
  | cons statement statements inductionHypothesis =>
      have rest := inductionHypothesis fun other member =>
        functions other (List.mem_cons_of_mem _ member)
      have isFunction := functions statement List.mem_cons_self
      cases statement with
      | function span name parameters body isAsync =>
          refine closed.bind ?_ fun flow => ?_
          · refine closed.bind (closed.origin _) fun origin => ?_
            exact closed.bind (closed.onVault _ (.define _ _)) fun _ => closed.result _ _
          · split
            · exact rest
            · exact closed.result _ _
      | _ => simp [Stmt.isFunction] at isFunction

/-- A closed property holds of all evaluations. -/
theorem recursion (closed : Closed P) (fuel : Nat) :
    (Evaluator.recursion fuel).Satisfies P := by
  induction fuel with
  | zero => exact ⟨fun _ => closed.endless _, fun _ => closed.endless _, closed.endless _⟩
  | succ fuel inductionHypothesis =>
      exact
        { evaluate := fun expr => closed.evaluateStep inductionHypothesis expr
          execute := fun statements => closed.executeStep inductionHypothesis statements
          prelude := by
            -- Without this step the statements of the prelude would be computed once more.
            rw [Evaluator.execute_succ]
            exact closed.executeStep_of_isFunction _ Prelude.statements_isFunction }

end Eval.Closed

end ScopeScript
