import ScopeScript.Proofs.Course.Basic

/-!
# Courses of evaluations

Every evaluation has a course (`Evaluator.courses`): each part of the evaluator is given the course
that its own parts add up to. The events are the calls of native routines, the yielded values and
whatever is run in a block of its own: blocks and branches, loops and their rounds, attempts, and
calls of functions.
-/

namespace ScopeScript

namespace Eval.Course

def freshOrigin : Course Evaluator.freshOrigin :=
  .quiet (closed_widens.freshOrigin .expression) (closed_balances.freshOrigin .expression).quiet

def uncaught {α : Type} (value : Value) (span : Span) :
    Course (Evaluator.uncaught value span : Eval α) :=
  .quiet (closed_widens.uncaught .expression value span)
    (closed_balances.uncaught .expression value span).quiet

def define (name : String) (value : Value) : Course (Eval.define name value) :=
  .onVault (Vault.widens_define name value)

def config : Course Eval.config :=
  .quiet (.of_vault fun _ _ => rfl) fun _ _ _ => rfl

def bindParameters (names : List String) (values : List Value) :
    Course (Evaluator.bindParameters names values) :=
  .quiet (closed_widens.bindParameters .expression names values)
    (closed_balances.bindParameters .expression names values).quiet

def resultOfBody (flow : Flow) : Course (Evaluator.resultOfBody flow) :=
  .quiet (closed_widens.resultOfBody .expression flow)
    (closed_balances.resultOfBody .expression flow).quiet

def applyBinary (operator : BinaryOperator) (left right : Value) :
    Course (Evaluator.applyBinary operator left right) :=
  .quiet (closed_widens.applyBinary operator left right)
    (closed_balances.applyBinary operator left right).quiet

def itemsOf (span : Span) (value : Value) : Course (Evaluator.itemsOf span value) :=
  .quiet (closed_widens.itemsOf span value) (closed_balances.itemsOf span value).quiet

end Eval.Course

/-- Courses of what the evaluators do that a step may use. -/
structure Recursion.Courses (recursion : Recursion) where
  evaluate : ∀ expr, Eval.Course (recursion.evaluate expr)
  execute : ∀ statements, Eval.Course (recursion.execute statements)

namespace Recursion.Courses

open Eval (Course)

variable {recursion : Recursion} (courses : recursion.Courses)

/-! ## Names -/

def evaluateAll : ∀ exprs, Course (Evaluator.evaluateAll recursion exprs)
  | [] => .result _
  | expr :: rest =>
      (courses.evaluate expr).bind fun _ => (evaluateAll rest).bind fun _ => .result _

def evaluateOptional : ∀ expr, Course (Evaluator.evaluateOptional recursion expr)
  | none => .result _
  | some expr => courses.evaluate expr

def dereference (span : Span) : ∀ value, Course (Evaluator.dereference recursion span value)
  | .formula formula => .deeper span (.within formula.origin (courses.evaluate formula.expr))
  | .none | .number _ | .bool _ | .text _ | .sequence _ | .scope _ | .native _ | .function _
  | .error _ => .result _

def lookup (span : Span) (name : String) : Course (Evaluator.lookup recursion span name) :=
  (Course.onVaultAt span (Vault.widens_resolve name)).bind fun found =>
    courses.dereference span found.2

/-! ## Native routines -/

def callNewMap (site : CallSite) (values : List Value) :
    Course (Native.callNewMap recursion site values) :=
  .ite _ (.failAt _ _ _) <| (Course.onVault Vault.widens_owner).bind fun _ =>
    (Course.onVaultAt _ (Vault.widens_createOwned _ _)).bind fun handle =>
      (Course.onVaultAt _ (Vault.widens_createOwned _ _)).bind fun _ =>
        (Course.onVault (Vault.widens_defineIn _ _ _)).bind fun _ =>
          (Course.onVault (Vault.widens_defineIn _ _ _)).bind fun _ =>
            .inScope site.span handle <|
              (Course.inFile _ (.within _ (courses.execute Prelude.statements))).bind fun _ =>
                .result _

def callNative (site : CallSite) (values : List Value) :
    ∀ native : Native, Course (native.call recursion site values)
  | .print | .println =>
      .quiet (Eval.closed_widens.printAll values _) (Eval.closed_balances.printAll values _).quiet
  | .toText | .toNumber | .toBool | .toError | .kindOf | .length =>
      .quiet (Eval.closed_widens.callConversion _ site values)
        (Eval.closed_balances.callConversion _ site values).quiet
  | .boxedText | .boxedIsError | .boxedNumber | .boxedLength | .boxedKind =>
      .quiet (Eval.closed_widens.callBoxed _ site values)
        (Eval.closed_balances.callBoxed _ site values).quiet
  | .newMap => courses.callNewMap site values
  | .mapSet | .mapGet | .mapDelete | .mapHas | .mapKeys | .mapValues | .mapClear | .mapLength =>
      .quiet (Eval.closed_widens.callStorage _ site values)
        (Eval.closed_balances.callStorage _ site values).quiet

/-! ## Calls and members -/

/-- The body of a function with what becomes of the way it ends. -/
def callBody (function : Function) : Course (do
    let flow ← Eval.within function.origin (recursion.execute function.body)
    Evaluator.resultOfBody flow) :=
  (Course.within function.origin (courses.execute function.body)).bind fun flow =>
    .resultOfBody flow

def callFunction (site : CallSite) (function : Function) (values : List Value) :
    Course (Evaluator.callFunction recursion site function values) :=
  .recording <| .ite _
    (.deeper site.span <| .inBlock <|
      (Course.bindParameters function.parameters values).bind fun _ =>
        .activated (courses.callBody function))
    (.failAt _ _ _)

/-- The call of a routine is an event. -/
def callRoutine (site : CallSite) (values : List Value) : ∀ native? : Option Native,
    Course (match native? with
      | some native => native.call recursion site values
      | none =>
          Eval.failAt site.span .notCallable ("no native routine for `" ++ site.callee ++ "`"))
  | some native => .calling native (courses.callNative site values native)
  | none => .failAt _ _ _

def invoke (site : CallSite) (values : List Value) :
    ∀ callee, Course (Evaluator.invoke recursion site callee values)
  | .native tag => courses.callRoutine site values (Native.ofTag? tag)
  | .function function => courses.callFunction site function values
  | .none | .number _ | .bool _ | .text _ | .sequence _ | .formula _ | .scope _ | .error _ =>
      .failAt _ _ _

def callByName (site : CallSite) (values : List Value) :
    Course (Evaluator.callByName recursion site values) :=
  (courses.lookup site.span site.callee).bind fun callee => courses.invoke site values callee

def property (span : Span) (object : Value) (name : String) :
    Course (Evaluator.property recursion span object name) :=
  match object with
  | .scope handle => .inScope span handle (courses.lookup span name)
  | .function _ | .native _ => .failAt _ _ _
  | .none | .number _ | .bool _ | .text _ | .sequence _ | .formula _ | .error _ =>
      .inBox _ fun box => Course.machine.bind fun machine =>
        match Evaluator.boxedMember? machine box name with
        | some _ => .result _
        | none => .failAt _ _ _

def callMember (span : Span) (object : Value) (site : CallSite) (values : List Value) :
    Course (Evaluator.callMember recursion span object site values) :=
  match object with
  | .scope handle => .inScope span handle (courses.callByName site values)
  | .function _ | .native _ => .failAt _ _ _
  | .none | .number _ | .bool _ | .text _ | .sequence _ | .formula _ | .error _ =>
      .inBox _ fun box => Course.machine.bind fun machine =>
        match Evaluator.boxedMember? machine box site.callee with
        | some callee => courses.invoke site values callee
        | none => .failAt _ _ _

/-- The character of a text at a position, if there is one. -/
def elementOfText : ∀ found : Option Char,
    Course (match found with
      | some c => return .text c.toString
      | none => return .none : Eval Value)
  | some _ => .result _
  | none => .result _

def elementAt (span objectSpan : Span) (object key : Value) :
    Course (Evaluator.elementAt recursion span objectSpan object key) :=
  match object with
  | .sequence _ => .result _
  | .text text =>
      elementOfText ((Evaluator.position? key text.toList.length).bind (text.toList[·]?))
  | .scope handle => (Course.queryAt span (·.lookup handle key.toText)).bind fun found =>
      match found with
      | none => .result _
      | some ⟨_, .formula _⟩ => courses.property span (.scope handle) key.toText
      | some ⟨_, .none⟩ | some ⟨_, .number _⟩ | some ⟨_, .bool _⟩ | some ⟨_, .text _⟩
      | some ⟨_, .sequence _⟩ | some ⟨_, .scope _⟩ | some ⟨_, .native _⟩ | some ⟨_, .function _⟩
      | some ⟨_, .error _⟩ => .result _
  | .none | .number _ | .bool _ | .formula _ | .native _ | .function _ | .error _ => .failAt _ _ _

def evaluateStep : ∀ expr, Course (Evaluator.evaluateStep recursion expr)
  | .number _ _ | .text _ _ | .bool _ _ | .none _ | .absent _ => .result _
  | .name span name => courses.lookup span name
  | .binary _ left operator right =>
      (courses.evaluate left).bind fun _ => (courses.evaluate right).bind fun _ =>
        .applyBinary operator _ _
  | .unary _ _ operand => (courses.evaluate operand).bind fun _ => .result _
  | .conditional _ test consequent alternate =>
      (courses.evaluate test).bind fun _ =>
        .ite _ (courses.evaluate consequent) (courses.evaluate alternate)
  | .sequence _ items => (courses.evaluateAll items).bind fun _ => .result _
  | .call span callee _ arguments =>
      (courses.evaluateAll arguments).bind fun values => courses.callByName ⟨span, callee⟩ values
  | .member span object _ name =>
      (courses.evaluate object).bind fun value => courses.property span value name
  | .method span object callSpan callee _ arguments =>
      (courses.evaluate object).bind fun value => (courses.evaluateAll arguments).bind fun values =>
        courses.callMember span value ⟨callSpan, callee⟩ values
  | .index span object key =>
      (courses.evaluate object).bind fun value => (courses.evaluate key).bind fun keyValue =>
        courses.elementAt span object.span value keyValue
  | .await _ operand => courses.evaluate operand
  | .delete _ _ name =>
      (Course.onVault (Vault.widens_unbind name)).bind fun _ => .ite _ (.result _) (.failAt _ _ _)
  | .construct _ callSpan callee _ arguments =>
      (courses.evaluateAll arguments).bind fun values =>
        (courses.lookup callSpan callee).bind fun target =>
          courses.callMember callSpan target ⟨callSpan, "new"⟩ values

/-! ## Assignments -/

def compound (binary : BinaryOperator) (right : Expr) {current : Eval Value}
    (course : Course current) : Course (do
      let rightValue ← recursion.evaluate right
      Evaluator.applyBinary binary (← current) rightValue) :=
  (courses.evaluate right).bind fun _ => course.bind fun _ =>
    .applyBinary binary _ _

def newValue (operator : AssignOperator) (right : Expr) {current : Eval Value}
    (course : Course current) : Course (Evaluator.newValue recursion operator right current) :=
  match operator with
  | .formula => Course.origin.bind fun _ => .result _
  | .value => (courses.evaluate right).bind fun _ => .result _
  | .add | .subtract | .multiply | .divide | .power | .modulo => courses.compound _ right course

def assignName (span : Span) (name : String) (operator : AssignOperator) (right : Expr) :
    Course (Evaluator.assignName recursion span name operator right) :=
  (Course.onVaultAt span (Vault.widens_resolve name)).bind fun _ =>
    (courses.newValue operator right (Course.machine.bind fun _ =>
      courses.dereference span _)).bind fun _ => .onVault (Vault.widens_write _ _)

def assignBinding (span : Span) (handle : Handle) (name : String) (operator : AssignOperator)
    (right : Expr) : Course (Evaluator.assignBinding recursion span handle name operator right) :=
  (courses.newValue operator right ((Course.queryAt span _).bind fun found =>
    match found with
    | none => .result _
    | some _ => courses.property span (.scope handle) name)).bind fun _ =>
      .onVaultAt _ (Vault.widens_defineIn _ _ _)

def assignElement (target object : Expr) (items : List Value) (key : Value)
    (operator : AssignOperator) (right : Expr) :
    Course (Evaluator.assignElement recursion target object items key operator right) := by
  unfold Evaluator.assignElement
  split
  · exact (courses.newValue operator right (.result _)).bind fun _ =>
      (Course.onVaultAt _ (Vault.widens_resolve _)).bind fun _ =>
        .onVault (Vault.widens_write _ _)
  · exact .failAt _ _ _

def assign (target : Expr) (operator : AssignOperator) (right : Expr) :
    Course (Evaluator.assign recursion target operator right) :=
  match target with
  | .name span name => courses.assignName span name operator right
  | .member span object _ name => (courses.evaluate object).bind fun value =>
      match value with
      | .scope handle => courses.assignBinding span handle name operator right
      | .none | .number _ | .bool _ | .text _ | .sequence _ | .formula _ | .native _
      | .function _ | .error _ => .failAt _ _ _
  | .index span object key => (courses.evaluate object).bind fun value =>
      (courses.evaluate key).bind fun keyValue =>
        match value with
        | .scope handle => courses.assignBinding span handle keyValue.toText operator right
        | .sequence items =>
            courses.assignElement (.index span object key) object items keyValue operator right
        | .none | .number _ | .bool _ | .text _ | .formula _ | .native _ | .function _
        | .error _ => .failAt _ _ _
  | .method _ object _ _ _ _ => (courses.evaluate object).bind fun _ => .failAt _ _ _
  | .number _ _ | .text _ _ | .bool _ _ | .none _ | .absent _ | .binary _ _ _ _ | .unary _ _ _
  | .conditional _ _ _ _ | .sequence _ _ | .call _ _ _ _ | .await _ _ | .delete _ _ _
  | .construct _ _ _ _ _ => .failAt _ _ _

/-! ## Statements -/

/-- The body of a declaration with what is done at its end. -/
def declared (handle : Handle) (name : String) (body : List Stmt) :
    Course (Eval.followedBy (recursion.execute body)
      (Eval.onVault (Vault.endDeclaration handle name))) :=
  (courses.execute body).followedBy (.onVault (Vault.widens_endDeclaration handle name))
    (.onVault (Vault.unfailing_endDeclaration handle name)) (Eval.quiet_onVault _)

def declareScope (name : String) (body : List Stmt) (isContext : Bool) :
    Course (Evaluator.declareScope recursion name body isContext) :=
  (Course.onVault (Vault.widens_declare name)).bind fun handle =>
    match isContext with
    | false => courses.declared handle name body
    | true => (Course.define _ _).bind fun _ => courses.declared handle name body

def repeatRounds {round : Eval (Option Flow)} (course : Course round) :
    ∀ fuel, Course (Evaluator.repeatRounds round fuel)
  | 0 => .endless
  | fuel + 1 => course.bind fun ended =>
      match ended with
      | some _ => .result _
      | none => repeatRounds course fuel

/-- The body of a loop runs once more. -/
def oneRound (body : List Stmt) : Course (do
    return Evaluator.afterRound (← Eval.inBlock (recursion.execute body))) :=
  (Course.inBlock (courses.execute body)).bind fun _ => .result _

def loopRound (test? : Option Expr) (body : List Stmt) :
    Course (Evaluator.loopRound recursion test? body) :=
  match test? with
  | none => courses.oneRound body
  | some test => (courses.evaluate test).bind fun value =>
      (Course.result value.isTrue).bind fun goesOn =>
        .ite (goesOn = true) (courses.oneRound body) (.result _)

def runLoop (test? : Option Expr) (body : List Stmt) :
    Course (Evaluator.runLoop recursion test? body) :=
  .inBlock (repeatRounds (courses.loopRound test? body) recursion.fuel)

def runRounds (name : String) (body : List Stmt) :
    ∀ items, Course (Evaluator.runRounds recursion name body items)
  | [] => .result _
  | _ :: items =>
      (Course.inBlock ((Course.define _ _).bind fun _ => courses.execute body)).bind fun flow =>
        match Evaluator.afterRound flow with
        | some _ => .result _
        | none => runRounds name body items

/-- The handler of a caught value, which is bound to a name unless the name is missing. -/
def caught (name : String) (value : Value) (handler : List Stmt) : Course (do
    if name ≠ "" then
      Eval.define name value
    recursion.execute handler) :=
  .ite (name ≠ "") ((Course.define _ _).bind fun _ => courses.execute handler)
    (courses.execute handler)

def runAttempt (body : List Stmt) (name : String) (handler : List Stmt) :
    Course (Evaluator.runAttempt recursion body name handler) :=
  .recording <| (Course.inBlock (courses.execute body)).bind fun flow =>
    match flow with
    | .thrown value _ => .inBlock (courses.caught name value handler)
    | .proceed | .leaveLoop | .nextRound | .result _ => .result _

/-- A yielded value is an event. -/
def yieldValue (span : Span) (argument : Option Expr) :
    Course (Evaluator.yieldValue recursion span argument) :=
  Course.machine.bind fun machine =>
    .ite (machine.activations.isEmpty = true)
      ((Course.failAt _ _ _).bind fun _ =>
        (courses.evaluateOptional argument).bind fun value => .yielding value)
      ((courses.evaluateOptional argument).bind fun value => .yielding value)

def runImported (span : Span) (source path text name : String) (program : Program) :
    Course (Evaluator.runImported recursion span source path text name program) :=
  Course.freshOrigin.bind fun origin =>
    .deeper span <| .inDeclaration name <|
      (Course.define _ _).bind fun _ => (Course.define _ _).bind fun _ =>
        (Course.define _ _).bind fun _ => .inFile _ <|
          (Course.within origin (courses.execute program.body)).bind fun flow =>
            match flow with
            | .thrown value thrownAt => .uncaught value thrownAt
            | .proceed | .leaveLoop | .nextRound | .result _ => .result _

/-- A text that was imported is executed if it is a program. -/
def importParsed (span : Span) (source path text name : String) :
    ∀ parsed : Except Diagnostic Program, Course (match parsed with
      | .error diagnostic => Eval.fail diagnostic
      | .ok program => Evaluator.runImported recursion span source path text name program)
  | .error _ => .quiet (.of_vault fun _ _ => rfl) fun _ _ _ => rfl
  | .ok program => courses.runImported span source path text name program

def importFile (span : Span) (source aliasName : String) :
    Course (Evaluator.importFile recursion span source aliasName) :=
  Course.machine.bind fun machine =>
    (Course.update (fun _ => by rfl) fun _ => by rfl).bind fun _ => Course.config.bind fun config =>
      match config.files (Evaluator.importPath machine source) with
      | .error _ => .update (fun _ => by rfl) fun _ => by rfl
      | .ok text => courses.importParsed span source (Evaluator.importPath machine source) text
          (Evaluator.importName source aliasName) (Program.parse _ text)

def executeOne : ∀ statement, Course (Evaluator.executeOne recursion statement)
  | .evaluate _ expr => (courses.evaluate expr).bind fun _ =>
      (Course.update (fun _ => by rfl) fun _ => by rfl).bind fun _ => .result _
  | .declare _ _ _ true => Course.origin.bind fun _ => (Course.define _ _).bind fun _ => .result _
  | .declare _ _ initial false => (courses.evaluate initial).bind fun _ =>
      (Course.define _ _).bind fun _ => .result _
  | .function _ _ _ _ _ => Course.origin.bind fun _ => (Course.define _ _).bind fun _ => .result _
  | .scope _ name body => courses.declareScope name body false
  | .context _ name body => courses.declareScope name body true
  | .block _ body => .inBlock (courses.execute body)
  | .conditional _ test _ consequent alternate => (courses.evaluate test).bind fun _ =>
      .ite _ (.inBlock (courses.execute consequent)) <|
        match alternate with
        | some statement => courses.execute [statement]
        | none => .result _
  | .whileLoop _ test _ body => courses.runLoop (some test) body
  | .loop _ _ body => courses.runLoop none body
  | .forEach _ name iterable _ body =>
      .inBlock <| (courses.evaluate iterable).bind fun value =>
        (Course.itemsOf _ value).bind fun items =>
          courses.runRounds name body items
  | .attempt _ _ body caught _ handler => courses.runAttempt body caught handler
  | .assign _ target operator right =>
      (courses.assign target operator right).bind fun _ => .result _
  | .imports span source aliasName =>
      (courses.importFile span source aliasName).bind fun _ => .result _
  | .returns _ argument => (courses.evaluateOptional argument).bind fun _ => .result _
  | .throws _ argument => (courses.evaluate argument).bind fun _ => .result _
  | .breaks _ | .continues _ => .result _
  | .yields span argument => (courses.yieldValue span argument).bind fun _ => .result _

def executeStep : ∀ statements, Course (Evaluator.executeStep recursion statements)
  | [] => .result _
  | statement :: rest => (courses.executeOne statement).bind fun flow =>
      match flow with
      | .proceed => executeStep rest
      | .leaveLoop | .nextRound | .result _ | .thrown _ _ => .result _

end Recursion.Courses

/-- The courses of all evaluations with a given amount of fuel. -/
def Evaluator.courses : ∀ fuel, (Evaluator.recursion fuel).Courses
  | 0 => ⟨fun _ => .endless, fun _ => .endless⟩
  | fuel + 1 => ⟨(courses fuel).evaluateStep, (courses fuel).executeStep⟩

end ScopeScript
