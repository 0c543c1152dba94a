import ScopeScript.Proofs.Interpreter.Lifetime
import ScopeScript.Proofs.Isolation.Isolating

/-!
# Evaluation isolates

Every part of the evaluator isolates if the evaluators that it uses do and the code that it is given
is steady. So all evaluations of steady code isolate, by induction on the fuel
(`Evaluator.courses_isolate`). Functions, formulas and imported files are no parts of the code at
hand, but they are steady as well: values are, and so is every file that can be imported.
-/

namespace ScopeScript

/-- What the evaluators do with steady code isolates. -/
structure Recursion.Courses.Isolate {recursion : Recursion} (courses : recursion.Courses) :
    Prop where
  evaluate : ∀ {expr}, expr.isSteady = true →
    (courses.evaluate expr).Isolates .expression Value.Steady
  execute : ∀ {statements}, Stmt.areSteady statements = true →
    (courses.execute statements).Isolates .statement Flow.Steady

namespace Eval.Course.Isolates

variable {level : Level} {recursion : Recursion} {courses : recursion.Courses}

/-! ## Names -/

theorem evaluateAll (isolate : courses.Isolate) {exprs : List Expr}
    (steady : Expr.areSteady exprs = true) :
    (courses.evaluateAll exprs).Isolates .expression fun values =>
      ∀ value ∈ values, value.Steady := by
  induction exprs with
  | nil => exact result (List.forall_mem_nil _)
  | cons expr exprs inductionHypothesis =>
      obtain ⟨first, rest⟩ := (Bool.and_eq_true _ _).mp steady
      refine bind (isolate.evaluate first) fun value steadyValue => ?_
      refine bind (inductionHypothesis rest) fun values steadyValues => ?_
      exact result (List.forall_mem_cons.2 ⟨steadyValue, steadyValues⟩)

theorem evaluateOptional (isolate : courses.Isolate) {expr? : Option Expr}
    (steady : Expr.isSteady? expr? = true) :
    (courses.evaluateOptional expr?).Isolates .expression Value.Steady := by
  cases expr? with
  | none => exact result .none
  | some expr => exact isolate.evaluate steady

theorem applyBinary (operator : BinaryOperator) (left right : Value) :
    (Course.applyBinary operator left right).Isolates level Value.Steady := by
  intro before context machine openings _ _ isolated _ _
  unfold Course.applyBinary
  refine .quiet fun returned => ?_
  unfold Evaluator.applyBinary at returned ⊢
  cases computed : operator.result? left right with
  | some value => exact ⟨isolated, .result? computed⟩
  | none =>
      rw [computed] at returned
      cases returned

/-- A formula is evaluated in whatever scope is innermost, so it must be an expression that
isolates. -/
theorem dereference (isolate : courses.Isolate) (span : Span) {value : Value}
    (steady : value.Steady) :
    (courses.dereference span value).Isolates .expression Value.Steady := by
  cases steady with
  | formula steadyCode => exact deeper span (within _ (isolate.evaluate steadyCode))
  | sequence steadyItems => exact result (.sequence steadyItems)
  | function steadyCode => exact result (.function steadyCode)
  | _ => exact result (by simp)

theorem lookup (isolate : courses.Isolate) (span : Span) (name : String) :
    (courses.lookup span name).Isolates .expression Value.Steady :=
  bind (resolve span name) fun _ steady => dereference isolate span steady

/-! ## Native routines -/

/-- Printing changes nothing about scopes. -/
theorem printAll (values : List Value) (ending : String)
    (widens : (Native.printAll values ending).Widens)
    (quiet : (Native.printAll values ending).Quiet) :
    (Course.quiet widens quiet).Isolates level Value.Steady :=
  of_vault (closed_orderly.printAll values ending) (fun _ _ => rfl) fun _ _ => .none

theorem callConversion (native : Native) (site : CallSite) (values : List Value)
    (widens : (native.callConversion site values).Widens)
    (quiet : (native.callConversion site values).Quiet) :
    (Course.quiet widens quiet).Isolates level Value.Steady := by
  refine of_vault (closed_orderly.callConversion native site values) (fun context machine => ?_)
    fun {context machine} _ _ => ?_
  · unfold Native.callConversion
    split <;> rfl
  · unfold Native.callConversion
    split
    · exact .convert native machine _
    · trivial

/-- A routine of a box reads the value in the box. -/
theorem callBoxed (native : Native) (site : CallSite) (values : List Value)
    (widens : (native.callBoxed site values).Widens)
    (quiet : (native.callBoxed site values).Quiet) :
    (Course.quiet widens quiet).Isolates level Value.Steady := by
  cases values with
  | nil =>
      intro before context machine openings _ _ isolated _ _
      refine .quiet fun _ => ?_
      obtain ⟨outcome, resolved, _⟩ := isolated.tidy.forest.resolve Native.boxedValue
      simp only [Eval.Closed.callBoxed_nil, Eval.resume, onVault_apply, resolved]
      cases outcome with
      | done found => exact ⟨isolated, .convert native machine found.2⟩
      | failed diagnostic => exact ⟨isolated, trivial⟩
      | crashed crash => exact ⟨isolated, trivial⟩
      | endless => exact ⟨isolated, trivial⟩
  | cons value rest => exact callConversion native site (value :: rest) widens quiet

/-- A routine that does not write to maps only reads. -/
theorem onEntries_of_reads {native : Native} (reads : native.writesMap = false) (site : CallSite)
    (handle : Handle) {table : Table} (steady : table.Holds Value.Steady) (values : List Value) :
    ∃ value : Value, native.onEntries site handle table values = pure value ∧ value.Steady := by
  have find : ∀ key : String,
      Value.Steady (((table.find? key).map Binding.value).getD .none) := by
    intro key
    cases found : table.find? key with
    | none => exact .none
    | some binding => exact steady.find? found
  unfold Native.onEntries
  split
  case h_1 key value =>
    cases native with
    | mapSet => cases reads
    | _ => exact ⟨.none, rfl, .none⟩
  case h_2 key =>
    cases native with
    | mapDelete => cases reads
    | mapGet => exact ⟨_, rfl, find key.toText⟩
    | mapHas => exact ⟨_, rfl, .bool _⟩
    | _ => exact ⟨.none, rfl, .none⟩
  case h_3 =>
    cases native with
    | mapClear => cases reads
    | mapKeys =>
        refine ⟨_, rfl, .sequence fun item member => ?_⟩
        obtain ⟨name, _, rfl⟩ := List.mem_map.1 member
        exact .text name
    | mapValues => exact ⟨_, rfl, .sequence steady.values⟩
    | mapLength => exact ⟨_, rfl, .number _⟩
    | _ => exact ⟨.none, rfl, .none⟩

/-- A routine that does not write to maps only reads from them. -/
theorem callStorage {native : Native} (reads : native.writesMap = false) (site : CallSite)
    (values : List Value) (widens : (native.callStorage site values).Widens)
    (quiet : (native.callStorage site values).Quiet) :
    (Course.quiet widens quiet).Isolates level Value.Steady := by
  intro before context machine openings _ _ isolated _ _
  refine .quiet fun _ => ?_
  unfold Native.callStorage
  split
  · cases values with
    | nil => exact ⟨isolated, .none⟩
    | cons value rest =>
        cases value with
        | scope handle =>
            exact isolated.onBindings site.span handle context fun steady =>
              onEntries_of_reads reads site handle steady rest
        | _ => exact ⟨isolated, trivial⟩
  · exact ⟨isolated, trivial⟩

/-- Of the routines only those that write to maps can change what a caller has bound. -/
theorem callNative (isolate : courses.Isolate) (site : CallSite) (values : List Value)
    {native : Native} (reads : native.writesMap = false) :
    (courses.callNative site values native).Isolates level Value.Steady := by
  cases native with
  | print | println =>
      exact printAll values _ (closed_widens.printAll values _)
        (closed_balances.printAll values _).quiet
  | toText | toNumber | toBool | toError | kindOf | length =>
      exact callConversion _ site values (closed_widens.callConversion _ site values)
        (closed_balances.callConversion _ site values).quiet
  | boxedText | boxedIsError | boxedNumber | boxedLength | boxedKind =>
      exact callBoxed _ site values (closed_widens.callBoxed _ site values)
        (closed_balances.callBoxed _ site values).quiet
  | newMap => exact callNewMap (isolate.execute Prelude.areSteady_statements) site values
  | mapSet | mapGet | mapDelete | mapHas | mapKeys | mapValues | mapClear | mapLength =>
      exact callStorage reads site values (closed_widens.callStorage _ site values)
        (closed_balances.callStorage _ site values).quiet

/-! ## Calls and members -/

/-- Parameters are bound in the block of the call. -/
theorem bindParameters (names : List String) {values : List Value}
    (steady : ∀ value ∈ values, value.Steady) :
    (Course.bindParameters names values).Isolates .statement fun _ => True := by
  intro before context machine openings _ binds isolated _ _
  unfold Course.bindParameters
  refine .quiet fun _ => ?_
  obtain ⟨filled, bound, kept⟩ := isolated.bindParameters binds names steady context
  rw [bound]
  exact ⟨kept, trivial⟩

/-- What a function gives is a value that it has returned, thrown or yielded. -/
theorem resultOfBody {flow : Flow} (steady : flow.Steady) :
    (Course.resultOfBody flow).Isolates level Value.Steady := by
  refine of_vault (closed_orderly.resultOfBody .expression flow) (fun context machine => ?_)
    fun {context machine} _ steadyMachine => ?_
  · cases flow <;> rfl
  · cases steady with
    | result steadyValue => exact steadyValue
    | thrown span _ => exact .error _
    | proceed | leaveLoop | nextRound => exact .yieldedValues steadyMachine.yielded

/-- A call binds its parameters in a block of its own, so nothing of the caller is touched. -/
theorem callFunction (isolate : courses.Isolate) (site : CallSite) {function : Function}
    (steadyBody : Stmt.areSteady function.body = true) {values : List Value}
    (steady : ∀ value ∈ values, value.Steady) :
    (courses.callFunction site function values).Isolates level Value.Steady := by
  refine recording (ite (fun _ => ?_) fun _ => failAt _ _ _)
  refine deeper site.span (inBlock (bind (bindParameters _ steady) fun _ _ => activated ?_))
  refine bind (within _ (isolate.execute steadyBody)) fun flow steadyFlow => ?_
  exact resultOfBody steadyFlow

theorem invoke (isolate : courses.Isolate) (site : CallSite) {values : List Value}
    (steady : ∀ value ∈ values, value.Steady) {callee : Value} (steadyCallee : callee.Steady) :
    (courses.invoke site values callee).Isolates level Value.Steady := by
  cases steadyCallee with
  | native tag =>
      change (courses.callRoutine site values (Native.ofTag? tag)).Isolates level Value.Steady
      generalize Native.ofTag? tag = native?
      cases native? with
      | some native => exact calling native fun reads => callNative isolate site values reads
      | none => exact failAt _ _ _
  | function steadyBody => exact callFunction isolate site steadyBody steady
  | _ => exact failAt _ _ _

theorem callByName (isolate : courses.Isolate) (site : CallSite) {values : List Value}
    (steady : ∀ value ∈ values, value.Steady) :
    (courses.callByName site values).Isolates .expression Value.Steady :=
  bind (lookup isolate site.span site.callee) fun _ steadyCallee =>
    invoke isolate site steady steadyCallee

/-- What a box binds to a name is steady. -/
theorem steady_of_boxedMember? {machine : Machine} (steady : machine.Steady) {box : Handle}
    {name : String} {value : Value}
    (found : Evaluator.boxedMember? machine box name = some value) : value.Steady := by
  unfold Evaluator.boxedMember? at found
  split at found
  · next bound =>
    cases found
    exact steady.stored.lookup bound
  · cases found

/-- A member of a value in a box, or a diagnostic if there is none. -/
theorem inBox_member {object : Value} (steady : object.Steady) (name : String)
    {next : Value → Eval Value} {otherwise : Eval Value} {following : ∀ value, Course (next value)}
    {missing : Course otherwise}
    (followingIsolates : ∀ value, value.Steady →
      (following value).Isolates .expression Value.Steady)
    (missingIsolates : missing.Isolates .expression Value.Steady) :
    (Course.inBox object fun box => Course.machine.bind fun machine =>
      (match Evaluator.boxedMember? machine box name with
        | some value => following value
        | none => missing : Course (match Evaluator.boxedMember? machine box name with
        | some value => next value
        | none => otherwise))).Isolates .expression Value.Steady := by
  refine inBox steady fun box => bind machine fun current steadyCurrent => ?_
  cases found : Evaluator.boxedMember? current box name with
  | some value =>
      exact (followingIsolates value (steady_of_boxedMember? steadyCurrent found)).raise
  | none => exact missingIsolates.raise

/-- The members of a scope are looked up on a visit, and those of other values in a box. -/
theorem property (isolate : courses.Isolate) (span : Span) {object : Value}
    (steady : object.Steady) (name : String) :
    (courses.property span object name).Isolates .expression Value.Steady := by
  have boxed := inBox_member steady name (fun _ steadyMember => result steadyMember)
    (failAt span .unboundName (object.kind ++ " has no member `" ++ name ++ "`"))
  cases object with
  | scope handle => exact inScope span handle (lookup isolate span name)
  | function | native => exact failAt _ _ _
  | _ => exact boxed

theorem callMember (isolate : courses.Isolate) (span : Span) {object : Value}
    (steady : object.Steady) (site : CallSite) {values : List Value}
    (steadyValues : ∀ value ∈ values, value.Steady) :
    (courses.callMember span object site values).Isolates .expression Value.Steady := by
  have boxed := inBox_member steady site.callee
    (fun _ steadyCallee => invoke isolate site steadyValues steadyCallee)
    (failAt site.span .unboundName (object.kind ++ " has no method `" ++ site.callee ++ "`"))
  cases object with
  | scope handle => exact inScope span handle (callByName isolate site steadyValues)
  | function | native => exact failAt _ _ _
  | _ => exact boxed

/-- An element is read, and it is a value of the sequence, the text or the scope. -/
theorem elementAt (isolate : courses.Isolate) (span objectSpan : Span) {object : Value}
    (steady : object.Steady) (key : Value) :
    (courses.elementAt span objectSpan object key).Isolates .expression Value.Steady := by
  cases steady with
  | @sequence items steadyItems =>
      refine result ?_
      cases found : (Evaluator.position? key items.length).bind (items[·]?) with
      | none => exact .none
      | some item =>
          obtain ⟨index, _, selected⟩ := Option.bind_eq_some_iff.1 found
          exact steadyItems item (List.mem_of_getElem? selected)
  | text text =>
      change (Recursion.Courses.elementOfText _).Isolates .expression Value.Steady
      generalize (Evaluator.position? key text.toList.length).bind (text.toList[·]?) = found
      cases found with
      | some c => exact result (Value.Keeps.text _)
      | none => exact result Value.Keeps.none
  | scope handle =>
      have stored : (Course.queryAt span (·.lookup handle key.toText)).Isolates .expression
          fun found => ∀ binding, found = some binding → binding.value.Steady := by
        refine queryAt span fun holds same => ?_
        rintro binding rfl
        exact holds.lookup same
      refine bind stored fun found steadyFound => ?_
      rcases found with _ | ⟨cell, value⟩
      · exact result .none
      · have steadyValue : value.Steady := steadyFound _ rfl
        cases value with
        | formula content => exact property isolate span (.scope handle) key.toText
        | _ => exact result steadyValue
  | _ => exact failAt _ _ _

/-! ## Expressions -/

theorem evaluateStep (isolate : courses.Isolate) {expr : Expr} (steady : expr.isSteady = true) :
    (courses.evaluateStep expr).Isolates .expression Value.Steady := by
  cases expr with
  | number span value => exact result (.number value)
  | text span value => exact result (.text value)
  | bool span value => exact result (.bool value)
  | none span => exact result .none
  | absent span => exact result .none
  | name span name => exact lookup isolate span name
  | binary span left operator right =>
      obtain ⟨steadyLeft, steadyRight⟩ := (Bool.and_eq_true _ _).mp steady
      refine bind (isolate.evaluate steadyLeft) fun _ _ => ?_
      exact bind (isolate.evaluate steadyRight) fun _ _ => applyBinary operator _ _
  | unary span operator operand =>
      exact bind (isolate.evaluate steady) fun _ kept => result (.apply operator kept)
  | conditional span test consequent alternate =>
      obtain ⟨steadyFirst, steadyAlternate⟩ := (Bool.and_eq_true _ _).mp steady
      obtain ⟨steadyTest, steadyConsequent⟩ := (Bool.and_eq_true _ _).mp steadyFirst
      refine bind (isolate.evaluate steadyTest) fun _ _ => ?_
      exact ite (fun _ => isolate.evaluate steadyConsequent)
        fun _ => isolate.evaluate steadyAlternate
  | sequence span items =>
      exact bind (evaluateAll isolate steady) fun _ kept => result (.sequence kept)
  | call span callee argumentsSpan arguments =>
      exact bind (evaluateAll isolate steady) fun _ kept => callByName isolate ⟨span, callee⟩ kept
  | member span object nameSpan name =>
      exact bind (isolate.evaluate steady) fun _ kept => property isolate span kept name
  | method span object callSpan callee argumentsSpan arguments =>
      obtain ⟨steadyObject, steadyArguments⟩ := (Bool.and_eq_true _ _).mp steady
      refine bind (isolate.evaluate steadyObject) fun _ kept => ?_
      refine bind (evaluateAll isolate steadyArguments) fun _ keptValues => ?_
      exact callMember isolate span kept ⟨callSpan, callee⟩ keptValues
  | index span object key =>
      obtain ⟨steadyObject, steadyKey⟩ := (Bool.and_eq_true _ _).mp steady
      refine bind (isolate.evaluate steadyObject) fun _ kept => ?_
      refine bind (isolate.evaluate steadyKey) fun keyValue _ => ?_
      exact elementAt isolate span object.span kept keyValue
  | await span operand => exact isolate.evaluate steady
  | delete span nameSpan name => cases steady
  | construct span callSpan callee argumentsSpan arguments =>
      refine bind (evaluateAll isolate steady) fun _ keptValues => ?_
      refine bind (lookup isolate callSpan callee) fun _ kept => ?_
      exact callMember isolate callSpan kept ⟨callSpan, "new"⟩ keptValues

/-! ## Statements -/

/-- A statement that goes on with the next one when it is done. -/
theorem proceeding {computation : Eval Unit} {course : Course computation}
    (isolates : course.Isolates level fun _ => True) :
    (course.bind fun _ => Course.result Flow.proceed).Isolates level Flow.Steady :=
  bind isolates fun _ _ => result .proceed

/-- Code is bound together with the place where it stands. -/
theorem declareCode (name : String) (code : Origin → Value)
    (steady : ∀ origin, (code origin).Steady) :
    (Course.origin.bind fun origin => (Course.define name (code origin)).bind
      fun _ => Course.result Flow.proceed).Isolates .statement Flow.Steady :=
  bind origin fun origin _ => proceeding (define name (steady origin))

theorem repeatRounds {round : Eval (Option Flow)} {course : Course round}
    (isolates : course.Isolates .statement fun ended =>
      ∀ flow, ended = some flow → flow.Steady) (fuel : Nat) :
    (Recursion.Courses.repeatRounds course fuel).Isolates .statement Flow.Steady := by
  induction fuel with
  | zero => exact endless
  | succ fuel inductionHypothesis =>
      refine bind isolates fun ended steady => ?_
      cases ended with
      | some flow => exact result (steady flow rfl)
      | none => exact inductionHypothesis

/-- A loop ends with the flow of its last round. -/
theorem steady_afterRound {flow ended : Flow} (steady : flow.Steady)
    (ends : Evaluator.afterRound flow = some ended) : ended.Steady := by
  cases steady with
  | proceed | nextRound => cases ends
  | leaveLoop => exact Option.some.inj ends ▸ .proceed
  | result steadyValue => exact Option.some.inj ends ▸ .result steadyValue
  | thrown span steadyValue => exact Option.some.inj ends ▸ .thrown span steadyValue

/-- Each round has a block of its own. -/
theorem oneRound (isolate : courses.Isolate) {body : List Stmt}
    (steady : Stmt.areSteady body = true) :
    (courses.oneRound body).Isolates level fun ended =>
      ∀ flow, ended = some flow → flow.Steady :=
  bind (inBlock (isolate.execute steady)) fun _ kept => result fun _ => steady_afterRound kept

theorem loopRound (isolate : courses.Isolate) {test? : Option Expr} {body : List Stmt}
    (steadyTest : Expr.isSteady? test? = true) (steady : Stmt.areSteady body = true) :
    (courses.loopRound test? body).Isolates level fun ended =>
      ∀ flow, ended = some flow → flow.Steady := by
  have leaving : ∀ flow, some Flow.proceed = some flow → flow.Steady := by
    rintro _ ⟨⟩
    exact .proceed
  cases test? with
  | none => exact oneRound isolate steady
  | some test =>
      refine bind (isolate.evaluate steadyTest).raise fun value _ => ?_
      refine bind (result trivial : Isolates _ _ fun _ => True) fun goesOn _ => ?_
      exact ite (fun _ => oneRound isolate steady) fun _ => result leaving

theorem runLoop (isolate : courses.Isolate) {test? : Option Expr} {body : List Stmt}
    (steadyTest : Expr.isSteady? test? = true) (steady : Stmt.areSteady body = true) :
    (courses.runLoop test? body).Isolates level Flow.Steady :=
  inBlock (repeatRounds (loopRound isolate steadyTest steady) recursion.fuel)

/-- The name of a loop is bound in the block of the round. -/
theorem runRounds (isolate : courses.Isolate) (name : String) {body : List Stmt}
    (steady : Stmt.areSteady body = true) {items : List Value}
    (steadyItems : ∀ item ∈ items, item.Steady) :
    (courses.runRounds name body items).Isolates level Flow.Steady := by
  induction items with
  | nil => exact result .proceed
  | cons item items inductionHypothesis =>
      obtain ⟨steadyItem, rest⟩ := List.forall_mem_cons.1 steadyItems
      refine bind (inBlock (bind (define name steadyItem) fun _ _ => isolate.execute steady))
        fun flow kept => ?_
      cases kept with
      | proceed | nextRound => exact inductionHypothesis rest
      | leaveLoop => exact result .proceed
      | result keptValue => exact result (.result keptValue)
      | thrown span keptValue => exact result (.thrown span keptValue)

theorem itemsOf (span : Span) {value : Value} (steady : value.Steady) :
    (Course.itemsOf span value).Isolates level fun items => ∀ item ∈ items, item.Steady := by
  have texts {γ : Type} (written : γ → String) (parts : List γ) :
      ∀ item ∈ parts.map fun part => Value.text (written part), item.Steady := by
    intro item member
    obtain ⟨part, _, rfl⟩ := List.mem_map.1 member
    exact .text _
  intro before context machine openings _ _ isolated _ _
  unfold Course.itemsOf
  refine .quiet fun _ => ?_
  cases steady with
  | sequence steadyItems => exact ⟨isolated, steadyItems⟩
  | text text => exact ⟨isolated, texts _ text.toList⟩
  | scope handle =>
      exact isolated.onBindings span handle context fun {table} _ =>
        ⟨_, rfl, texts id table.names⟩
  | _ => exact ⟨isolated, trivial⟩

/-- A caught value is bound in the block of the handler. -/
theorem runAttempt (isolate : courses.Isolate) {body handler : List Stmt} (caught : String)
    (steadyBody : Stmt.areSteady body = true) (steadyHandler : Stmt.areSteady handler = true) :
    (courses.runAttempt body caught handler).Isolates level Flow.Steady := by
  refine recording (bind (inBlock (isolate.execute steadyBody)) fun flow kept => ?_)
  cases kept with
  | @thrown value span keptValue =>
      refine inBlock (ite (fun _ => ?_) fun _ => isolate.execute steadyHandler)
      exact bind (define caught keptValue) fun _ _ => isolate.execute steadyHandler
  | proceed => exact result .proceed
  | leaveLoop => exact result .leaveLoop
  | nextRound => exact result .nextRound
  | result keptValue => exact result (.result keptValue)

/-- A yielded value goes to the activation and to no scope. -/
theorem yieldValue (isolate : courses.Isolate) (span : Span) {argument : Option Expr}
    (steady : Expr.isSteady? argument = true) :
    (courses.yieldValue span argument).Isolates .statement fun _ => True := by
  have yields : ((courses.evaluateOptional argument).bind fun value =>
      Course.yielding value).Isolates .statement fun _ => True :=
    bind (evaluateOptional isolate steady).raise fun _ kept => yielding kept
  refine bind machine fun current _ => ite (fun _ => ?_) fun _ => yields
  exact bind (failAt _ _ _ : Isolates _ _ fun _ => True) fun _ _ => yields

/-! ## Imports -/

theorem uncaught {α : Type} {P : α → Prop} (value : Value) (span : Span) :
    (Course.uncaught value span).Isolates level P :=
  of_vault (closed_orderly.uncaught .expression value span) (fun _ _ => rfl) fun _ _ => trivial

theorem freshOrigin : Course.freshOrigin.Isolates level fun _ => True :=
  of_vault (closed_orderly.freshOrigin .expression) (fun _ _ => rfl) fun _ _ => trivial

/-- An imported program is run inside a declaration, so its bindings are young. -/
theorem runImported (isolate : courses.Isolate) (span : Span) (source path text name : String)
    {program : Program} (steady : program.Steady) :
    (courses.runImported span source path text name program).Isolates .statement
      fun _ => True := by
  refine bind freshOrigin fun origin _ => deeper span (inDeclaration name ?_)
  refine bind (define _ (.text path)) fun _ _ => ?_
  refine bind (define _ (.text name)) fun _ _ => ?_
  refine bind (define _ (.text source)) fun _ _ => inFile _ ?_
  refine bind (within origin (isolate.execute steady)) fun flow _ => ?_
  cases flow with
  | thrown value thrownAt => exact uncaught value thrownAt
  | _ => exact result trivial

theorem config : Course.config.Isolates level Config.Steady :=
  of_vault ⟨.of_vault fun _ _ => rfl, fun _ _ _ tidy _ => tidy⟩ (fun _ _ => rfl) fun steady _ => steady

theorem importParsed (isolate : courses.Isolate) (span : Span) (source path text name : String)
    {parsed : Except Diagnostic Program}
    (steady : ∀ program, parsed = .ok program → program.Steady) :
    (courses.importParsed span source path text name parsed).Isolates .statement
      fun _ => True := by
  cases parsed with
  | error diagnostic =>
      intro before context machine openings _ _ isolated _ _
      exact ⟨fun _ => ⟨isolated, trivial⟩, nofun⟩
  | ok program => exact runImported isolate span source path text name (steady program rfl)

/-- An import binds nothing but the scope that it declares. -/
theorem importFile (isolate : courses.Isolate) (span : Span) (source aliasName : String) :
    (courses.importFile span source aliasName).Isolates .statement fun _ => True := by
  refine bind machine fun current _ => ?_
  refine bind (update fun _ => rfl) fun _ _ => ?_
  refine bind config fun config steady => ?_
  cases read : config.files (Evaluator.importPath current source) with
  | error error => exact update fun _ => rfl
  | ok text => exact importParsed isolate span source _ text _ (steady _ text · read)

/-! ## Statements in order -/

/-- Statements in a block of their own isolate wherever they are executed. -/
theorem executeOwnBlock (isolate : courses.Isolate) {statement : Stmt}
    (block : statement.hasOwnBlock = true) (steady : statement.isSteady = true) :
    (courses.executeOne statement).Isolates level Flow.Steady := by
  cases statement with
  | block span body => exact inBlock (isolate.execute steady)
  | whileLoop span test bodySpan body =>
      obtain ⟨steadyTest, steadyBody⟩ := (Bool.and_eq_true _ _).mp steady
      exact runLoop isolate steadyTest steadyBody
  | loop span bodySpan body => exact @runLoop _ _ _ isolate none body rfl steady
  | forEach span name iterable bodySpan body =>
      obtain ⟨steadyIterable, steadyBody⟩ := (Bool.and_eq_true _ _).mp steady
      refine inBlock (bind (isolate.evaluate steadyIterable).raise fun value kept => ?_)
      exact bind (itemsOf _ kept) fun items keptItems => runRounds isolate name steadyBody keptItems
  | attempt span bodySpan body caught handlerSpan handler =>
      obtain ⟨steadyBody, steadyHandler⟩ := (Bool.and_eq_true _ _).mp steady
      exact runAttempt isolate caught steadyBody steadyHandler
  | _ => cases block

/-- A statement binds names in the innermost scope at most. -/
theorem executeOne (isolate : courses.Isolate) {statement : Stmt}
    (steady : statement.isSteady = true) :
    (courses.executeOne statement).Isolates .statement Flow.Steady := by
  cases statement with
  | evaluate span expr =>
      refine bind (isolate.evaluate steady).raise fun value _ => ?_
      exact proceeding (update fun _ => rfl)
  | declare span name initial isFormula =>
      cases isFormula with
      | true => exact declareCode name (.formula ⟨·, initial⟩) fun _ => .formula steady
      | false =>
          refine bind (isolate.evaluate steady).raise fun value kept => ?_
          exact proceeding (define name kept)
  | function span name parameters body isAsync =>
      exact declareCode name (.function ⟨·, span, name, parameters, body, isAsync⟩)
        fun _ => .function steady
  | scope span name body => exact declareScope name false (isolate.execute steady)
  | context span name body => exact declareScope name true (isolate.execute steady)
  | block | whileLoop | loop | forEach | attempt => exact executeOwnBlock isolate rfl steady
  | conditional span test bodySpan consequent alternate =>
      obtain ⟨steadyFirst, steadyAlternate⟩ := (Bool.and_eq_true _ _).mp steady
      obtain ⟨steadyTest, steadyConsequent⟩ := (Bool.and_eq_true _ _).mp steadyFirst
      refine bind (isolate.evaluate steadyTest).raise fun _ _ => ?_
      refine ite (fun _ => inBlock (isolate.execute steadyConsequent)) fun _ => ?_
      cases alternate with
      | none => exact result .proceed
      | some statement =>
          exact isolate.execute ((Bool.and_eq_true _ _).mpr ⟨steadyAlternate, rfl⟩)
  | assign => cases steady
  | imports span source aliasName => exact proceeding (importFile isolate span source aliasName)
  | returns span argument =>
      exact bind (evaluateOptional isolate steady).raise fun _ kept => result (.result kept)
  | throws span argument =>
      exact bind (isolate.evaluate steady).raise fun _ kept => result (.thrown span kept)
  | breaks span => exact result .leaveLoop
  | continues span => exact result .nextRound
  | yields span argument => exact proceeding (yieldValue isolate span steady)

theorem executeStep (isolate : courses.Isolate) {statements : List Stmt}
    (steady : Stmt.areSteady statements = true) :
    (courses.executeStep statements).Isolates .statement Flow.Steady := by
  induction statements with
  | nil => exact result .proceed
  | cons statement statements inductionHypothesis =>
      obtain ⟨first, rest⟩ := (Bool.and_eq_true _ _).mp steady
      refine bind (executeOne isolate first) fun flow kept => ?_
      cases kept with
      | proceed => exact inductionHypothesis rest
      | leaveLoop => exact result .leaveLoop
      | nextRound => exact result .nextRound
      | result keptValue => exact result (.result keptValue)
      | thrown span keptValue => exact result (.thrown span keptValue)

end Eval.Course.Isolates

/-- Every evaluation of steady code isolates. -/
theorem Evaluator.courses_isolate : ∀ fuel, (Evaluator.courses fuel).Isolate
  | 0 => ⟨fun _ => .endless, fun _ => .endless⟩
  | fuel + 1 => ⟨.evaluateStep (courses_isolate fuel), .executeStep (courses_isolate fuel)⟩

end ScopeScript
