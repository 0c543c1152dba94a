import ScopeScript.Proofs.Termination.Settling

/-!
# Evaluation settles

Every part of the evaluator settles if the parts of the tree that it evaluates do, and if whatever
is evaluated a level deeper does (`Evaluator.Ready`). Bodies of functions, formulas and imported
files are no parts of the tree, but they are always evaluated a level deeper. So the trees settle by
induction on the budget and, for each budget, on the tree (`Evaluator.ready`).
-/

namespace ScopeScript

/-- Whatever is evaluated a level deeper settles. -/
structure Evaluator.Ready (budget : Nat) : Prop where
  evaluate : ∀ smaller < budget, ∀ expr,
    Eval.Settles smaller Value.LoopFree fun fuel => (recursion fuel).evaluate expr
  execute : ∀ smaller < budget, ∀ statements, Stmt.areLoopFree statements = true →
    Eval.Settles smaller Flow.LoopFree fun fuel => (recursion fuel).execute statements

namespace Eval.Settles

open Evaluator (Ready recursion)

variable {α : Type} {budget : Nat}

/-! ## Names -/

/-- A formula is evaluated one level deeper, where a smaller budget is enough. -/
theorem dereference (ready : Ready budget) (span : Span) {value : Value} (free : value.LoopFree) :
    Settles budget Value.LoopFree fun fuel =>
      Evaluator.dereference (recursion fuel) span value := by
  cases value with
  | formula content =>
      exact deeper span fun smaller less =>
        within content.origin (ready.evaluate smaller less content.expr)
  | _ => exact result free

/-- A name is looked up by resolving it and reading what is found. -/
theorem lookup (ready : Ready budget) (span : Span) (name : String) :
    Settles budget Value.LoopFree fun fuel => Evaluator.lookup (recursion fuel) span name := by
  refine bind (onVaultAt span (.resolve name) (.resolve name)) ?_
  rintro ⟨reference, value⟩ free
  exact dereference ready span free

/-! ## Statements in order -/

/-- A statement that goes on with the next one when it is done. -/
theorem proceeding {body : Nat → Eval Unit} (settles : Settles budget (fun _ => True) body) :
    Settles budget Flow.LoopFree fun fuel => do
      body fuel
      return .proceed :=
  bind settles fun _ _ => result .proceed

/-- Statements in order settle if the first one and the rest do. -/
theorem executeStep_cons {recursion : Nat → Recursion} {statement : Stmt} {rest : List Stmt}
    (settles : Settles budget Flow.LoopFree fun fuel =>
      Evaluator.executeOne (recursion fuel) statement)
    (settlesRest : Settles budget Flow.LoopFree fun fuel =>
      Evaluator.executeStep (recursion fuel) rest) :
    Settles budget Flow.LoopFree fun fuel =>
      Evaluator.executeStep (recursion fuel) (statement :: rest) := by
  refine bind settles fun flow free => ?_
  cases free with
  | proceed => exact settlesRest
  | leaveLoop => exact result .leaveLoop
  | nextRound => exact result .nextRound
  | result freeValue => exact result (.result freeValue)
  | thrown span freeValue => exact result (.thrown span freeValue)

/-- What one step does is what is done with one more unit of fuel. -/
theorem of_executeStep {statements : List Stmt}
    (settles : Settles budget Flow.LoopFree fun fuel =>
      Evaluator.executeStep (recursion fuel) statements) :
    Settles budget Flow.LoopFree fun fuel => (recursion fuel).execute statements :=
  of_succ settles

/-- Declarations of functions settle at once. -/
theorem executeStep_of_isFunction {recursion : Nat → Recursion} {statements : List Stmt}
    (functions : ∀ statement ∈ statements, statement.isFunction = true)
    (free : Stmt.areLoopFree statements = true) :
    Settles budget Flow.LoopFree fun fuel => Evaluator.executeStep (recursion fuel) statements := by
  induction statements with
  | nil => exact result .proceed
  | cons statement statements inductionHypothesis =>
      obtain ⟨isFunction, rest⟩ := List.forall_mem_cons.1 functions
      obtain ⟨freeFirst, freeRest⟩ := (Bool.and_eq_true _ _).mp free
      cases statement with
      | function span name parameters body isAsync =>
          refine executeStep_cons ?_ (inductionHypothesis rest freeRest)
          exact bind origin fun _ _ => proceeding (define name (.function freeFirst))
      | _ => cases isFunction

/-! ## Native routines -/

theorem printAll (values : List Value) (ending : String) :
    Settles budget Value.LoopFree fun _ => Native.printAll values ending :=
  bind config fun _ _ => bind machine fun _ _ =>
    bind (aside fun _ => ⟨rfl, rfl, rfl, rfl, rfl⟩) fun _ _ => result .none

theorem callConversion (native : Native) (site : CallSite) (values : List Value) :
    Settles budget Value.LoopFree fun _ => native.callConversion site values := by
  unfold Native.callConversion
  split
  · exact bind machine fun _ _ => result (.convert native _ _)
  · exact failAt _ _ _

theorem callBoxed (native : Native) (site : CallSite) (values : List Value) :
    Settles budget Value.LoopFree fun _ => native.callBoxed site values := by
  cases values with
  | nil =>
      rw [Eval.Closed.callBoxed_nil]
      refine resume (.resolve _) (.resolve _) (fun found _ => ?_) (failAt _ _ _)
      exact bind machine fun _ _ => result (.convert native _ _)
  | cons value rest => exact callConversion native site (value :: rest)

/-- The routines of maps have no loops. -/
theorem onEntries (native : Native) (site : CallSite) (handle : Handle) {table : Table}
    (free : table.LoopFree) {values : List Value} (freeValues : ∀ value ∈ values, value.LoopFree) :
    Settles budget Value.LoopFree fun _ => native.onEntries site handle table values := by
  unfold Native.onEntries
  split
  case h_1 key value =>
    have freeValue := freeValues value (by simp)
    refine ite (fun _ => ?_) fun _ => result .none
    exact bind (onVaultAt _ (.defineIn _ _ _) (.defineIn handle key.toText freeValue)) fun _ _ =>
      result .none
  case h_2 key =>
    split
    · refine result ?_
      cases found : table.find? key.toText with
      | none => exact .none
      | some binding => exact free.find? found
    · exact bind (onVaultAt _ (.eraseIn _ _) (.eraseIn _ _)) fun _ _ => result (.bool _)
    · exact result (.bool _)
    · exact result .none
  case h_3 =>
    split
    · exact result (.sequence fun item member => by
        obtain ⟨name, _, rfl⟩ := List.mem_map.1 member
        exact .text name)
    · exact result (.sequence free.values)
    · exact bind (onVault (.clearIn handle) (.clearIn handle)) fun _ _ => result .none
    · exact result (.number _)
    · exact result .none

/-- A routine for maps settles, also where it is called for something else. -/
theorem callStorage (native : Native) (site : CallSite) {values : List Value}
    (free : ∀ value ∈ values, value.LoopFree) :
    Settles budget Value.LoopFree fun _ => native.callStorage site values := by
  refine ite (fun _ => ?_) fun _ => failAt _ _ _
  cases values with
  | nil => exact result .none
  | cons value rest =>
      cases value with
      | scope handle =>
          refine bind (queryAt site.span fun vault table freeVault found => ?_)
            fun table freeTable => onEntries native site handle freeTable ?_
          · exact freeVault.bindings found
          · exact fun value member => free value (List.mem_cons_of_mem _ member)
      | _ => exact failAt _ _ _

/-- The prelude has no loops, so filling a map settles. -/
theorem callNewMap (site : CallSite) (values : List Value) :
    Settles budget Value.LoopFree fun fuel =>
      Native.callNewMap (recursion fuel) site values := by
  refine ite (fun _ => failAt _ _ _) fun _ => ?_
  refine founding site.span "Map" "entries" fun handle entries => ?_
  refine bind (onVault (.defineIn _ _ _) (.defineIn handle _ (.scope handle))) fun _ _ => ?_
  refine bind (onVault (.defineIn _ _ _) (.defineIn handle _ (.scope entries))) fun _ _ => ?_
  -- The prelude is executed on the same level, so `ready` says nothing about it.
  have methods : Settles budget Flow.LoopFree fun fuel =>
      (recursion fuel).execute Prelude.statements :=
    of_executeStep (executeStep_of_isFunction Prelude.statements_isFunction
      Prelude.areLoopFree_statements)
  refine inScope site.span handle ?_
  exact bind (inFile _ (within _ methods)) fun _ _ => result (.scope handle)

theorem callNative (native : Native) (site : CallSite) {values : List Value}
    (free : ∀ value ∈ values, value.LoopFree) :
    Settles budget Value.LoopFree fun fuel => native.call (recursion fuel) site values := by
  cases native with
  | print | println => exact printAll values _
  | toText | toNumber | toBool | toError | kindOf | length => exact callConversion _ site values
  | boxedText | boxedIsError | boxedNumber | boxedLength | boxedKind =>
      exact callBoxed _ site values
  | newMap => exact callNewMap site values
  | mapSet | mapGet | mapDelete | mapHas | mapKeys | mapValues | mapClear | mapLength =>
      exact callStorage _ site free

/-! ## Calls and members -/

/-- There are only so many parameters to bind. -/
theorem bindParameters (names : List String) {values : List Value}
    (free : ∀ value ∈ values, value.LoopFree) :
    Settles budget (fun _ => True) fun _ => Evaluator.bindParameters names values := by
  induction names generalizing values with
  | nil => exact result trivial
  | cons name names inductionHypothesis =>
      cases values with
      | nil => exact result trivial
      | cons value values =>
          obtain ⟨first, rest⟩ := List.forall_mem_cons.1 free
          exact bind (define name first) fun _ _ => inductionHypothesis rest

/-- What becomes of the end of a body needs no fuel. -/
theorem resultOfBody {flow : Flow} (free : flow.LoopFree) :
    Settles budget Value.LoopFree fun _ => Evaluator.resultOfBody flow := by
  have yielded : Settles budget Value.LoopFree fun _ => do
      return Evaluator.yieldedValues (← Eval.machine) :=
    bind machine fun _ calm => result (.yieldedValues calm.2)
  cases free with
  | result free => exact result free
  | thrown span free =>
      refine bind (bind machine fun _ _ => result trivial : Settles budget (fun _ => True) _)
        fun _ _ => result (.error _)
  | proceed | leaveLoop | nextRound => exact yielded

/-- The body of a function is loop-free code one level deeper. -/
theorem callFunction (ready : Ready budget) (site : CallSite) {function : Function}
    (freeBody : Stmt.areLoopFree function.body = true) {values : List Value}
    (free : ∀ value ∈ values, value.LoopFree) :
    Settles budget Value.LoopFree fun fuel =>
      Evaluator.callFunction (recursion fuel) site function values := by
  refine ite (fun _ => ?_) fun _ => failAt _ _ _
  refine deeper site.span fun smaller less => inBlock ?_
  refine bind (bindParameters function.parameters free) fun _ _ => activated ?_
  refine bind (within function.origin (ready.execute smaller less function.body freeBody)) ?_
  exact fun flow freeFlow => resultOfBody freeFlow

/-- Calling something settles, whether it is a function, a routine or neither. -/
theorem invoke (ready : Ready budget) (site : CallSite) {callee : Value}
    (freeCallee : callee.LoopFree) {values : List Value}
    (free : ∀ value ∈ values, value.LoopFree) :
    Settles budget Value.LoopFree fun fuel =>
      Evaluator.invoke (recursion fuel) site callee values := by
  cases freeCallee with
  | native tag =>
      unfold Evaluator.invoke
      dsimp only
      split
      · exact callNative _ site free
      · exact failAt _ _ _
  | function freeBody => exact callFunction ready site freeBody free
  | _ => exact failAt _ _ _

theorem callByName (ready : Ready budget) (site : CallSite) {values : List Value}
    (free : ∀ value ∈ values, value.LoopFree) :
    Settles budget Value.LoopFree fun fuel =>
      Evaluator.callByName (recursion fuel) site values :=
  bind (lookup ready site.span site.callee) fun _ freeCallee => invoke ready site freeCallee free

/-- What a box binds to a name is free of loops. -/
theorem boxedMember? {machine : Machine} (free : machine.vault.LoopFree) {box : Handle}
    {name : String} {value : Value}
    (found : Evaluator.boxedMember? machine box name = some value) : value.LoopFree := by
  unfold Evaluator.boxedMember? at found
  split at found
  · next bound =>
    cases found
    exact free.lookup bound
  · cases found

/-- A member of a value in a box, or a diagnostic if there is none. -/
theorem inBox_member {other : Value} (free : other.LoopFree) (name : String)
    {next : Value → Nat → Eval Value} {otherwise : Eval Value}
    (settles : ∀ value, value.LoopFree → Settles budget Value.LoopFree (next value))
    (settlesOtherwise : Settles budget Value.LoopFree fun _ => otherwise) :
    Settles budget Value.LoopFree fun fuel => Evaluator.inBox other (fun box => do
      match Evaluator.boxedMember? (← Eval.machine) box name with
      | some value => next value fuel
      | none => otherwise) := by
  refine inBox free fun box => bind machine fun current calm => ?_
  cases found : Evaluator.boxedMember? current box name with
  | some value => exact settles value (boxedMember? calm.1 found)
  | none => exact settlesOtherwise

/-- A member is looked up in a scope or in a box. -/
theorem property (ready : Ready budget) (span : Span) {object : Value} (free : object.LoopFree)
    (name : String) :
    Settles budget Value.LoopFree fun fuel =>
      Evaluator.property (recursion fuel) span object name := by
  have boxed := inBox_member free name (fun value free => (result free : Settles budget _ _))
    (failAt span .unboundName (object.kind ++ " has no member `" ++ name ++ "`"))
  cases object with
  | scope handle => exact inScope span handle (lookup ready span name)
  | function | native => exact failAt _ _ _
  | _ => exact boxed

theorem callMember (ready : Ready budget) (span : Span) {object : Value} (free : object.LoopFree)
    (site : CallSite) {values : List Value} (freeValues : ∀ value ∈ values, value.LoopFree) :
    Settles budget Value.LoopFree fun fuel =>
      Evaluator.callMember (recursion fuel) span object site values := by
  have boxed := inBox_member free site.callee
    (fun callee freeCallee => invoke ready site freeCallee freeValues)
    (failAt site.span .unboundName (object.kind ++ " has no method `" ++ site.callee ++ "`"))
  cases object with
  | scope handle => exact inScope span handle (callByName ready site freeValues)
  | function | native => exact failAt _ _ _
  | _ => exact boxed

theorem elementAt (ready : Ready budget) (span objectSpan : Span) {object : Value}
    (free : object.LoopFree) (key : Value) :
    Settles budget Value.LoopFree fun fuel =>
      Evaluator.elementAt (recursion fuel) span objectSpan object key := by
  cases free with
  | @sequence items freeItems =>
      refine result ?_
      cases found : (Evaluator.position? key items.length).bind (items[·]?) with
      | none => exact .none
      | some item =>
          obtain ⟨index, _, selected⟩ := Option.bind_eq_some_iff.1 found
          exact freeItems item (List.mem_of_getElem? selected)
  | text text =>
      unfold Evaluator.elementAt
      dsimp only
      split
      · exact result (.text _)
      · exact result .none
  | scope handle =>
      refine bind (queryAt span fun vault found freeVault same => ?_ : Settles budget
        (fun found => ∀ binding, found = some binding → binding.value.LoopFree) _) ?_
      · rintro binding rfl
        exact freeVault.lookup same
      · intro found freeFound
        rcases found with _ | ⟨cell, value⟩
        · exact result .none
        · have freeValue : value.LoopFree := freeFound _ rfl
          cases value with
          | formula content => exact property ready span (.scope handle) key.toText
          | _ => exact result freeValue
  | _ => exact failAt _ _ _

/-! ## Expressions -/

/-- What one step does of an expression is what is done with one more unit of fuel. -/
theorem of_evaluateStep {expr : Expr}
    (settles : Settles budget Value.LoopFree fun fuel =>
      Evaluator.evaluateStep (recursion fuel) expr) :
    Settles budget Value.LoopFree fun fuel => (recursion fuel).evaluate expr :=
  of_succ settles

mutual

/-- Expressions settle, by induction on the tree. -/
theorem evaluate (ready : Ready budget) : ∀ expr : Expr,
    Settles budget Value.LoopFree fun fuel => (recursion fuel).evaluate expr
  | .number _ value => of_evaluateStep (result (.number value))
  | .text _ value => of_evaluateStep (result (.text value))
  | .bool _ value => of_evaluateStep (result (.bool value))
  | .none _ => of_evaluateStep (result .none)
  | .absent _ => of_evaluateStep (result .none)
  | .name span name => of_evaluateStep (lookup ready span name)
  | .binary _ left operator right =>
      of_evaluateStep (bind (evaluate ready left) fun _ _ =>
        bind (evaluate ready right) fun _ _ => applyBinary operator _ _)
  | .unary _ operator operand =>
      of_evaluateStep (bind (evaluate ready operand) fun _ free => result (.apply operator free))
  | .conditional _ test consequent alternate =>
      of_evaluateStep (bind (evaluate ready test) fun _ _ =>
        ite (fun _ => evaluate ready consequent) fun _ => evaluate ready alternate)
  | .sequence _ items =>
      of_evaluateStep (bind (evaluateAll ready items) fun _ free => result (.sequence free))
  | .call span callee _ arguments =>
      of_evaluateStep (bind (evaluateAll ready arguments) fun _ free =>
        callByName ready ⟨span, callee⟩ free)
  | .member span object _ name =>
      of_evaluateStep (bind (evaluate ready object) fun _ free => property ready span free name)
  | .method span object callSpan callee _ arguments =>
      of_evaluateStep (bind (evaluate ready object) fun _ free =>
        bind (evaluateAll ready arguments) fun _ freeValues =>
          callMember ready span free ⟨callSpan, callee⟩ freeValues)
  | .index span object key =>
      of_evaluateStep (bind (evaluate ready object) fun _ free =>
        bind (evaluate ready key) fun keyValue _ =>
          elementAt ready span object.span free keyValue)
  | .await _ operand => of_evaluateStep (evaluate ready operand)
  | .delete _ _ name =>
      of_evaluateStep (bind (onVault (.unbind name) (.unbind name)) fun _ _ =>
        ite (fun _ => result .none) fun _ => failAt _ _ _)
  | .construct _ callSpan callee _ arguments =>
      of_evaluateStep (bind (evaluateAll ready arguments) fun _ freeValues =>
        bind (lookup ready callSpan callee) fun _ free =>
          callMember ready callSpan free ⟨callSpan, "new"⟩ freeValues)

theorem evaluateAll (ready : Ready budget) : ∀ exprs : List Expr,
    Settles budget (fun values => ∀ value ∈ values, value.LoopFree) fun fuel =>
      Evaluator.evaluateAll (recursion fuel) exprs
  | [] => result nofun
  | expr :: rest =>
      bind (evaluate ready expr) fun _ free => bind (evaluateAll ready rest) fun _ freeRest =>
        result (List.forall_mem_cons.2 ⟨free, freeRest⟩)

end

theorem evaluateOptional (ready : Ready budget) (expr? : Option Expr) :
    Settles budget Value.LoopFree fun fuel =>
      Evaluator.evaluateOptional (recursion fuel) expr? := by
  cases expr? with
  | none => exact result .none
  | some expr => exact evaluate ready expr

/-! ## Assignments -/

/-- The new value of an assignment settles with its right side. -/
theorem newValue (ready : Ready budget) (operator : AssignOperator) (right : Expr)
    {current : Nat → Eval Value} (settles : Settles budget Value.LoopFree current) :
    Settles budget Value.LoopFree fun fuel =>
      Evaluator.newValue (recursion fuel) operator right (current fuel) := by
  have compound (binary : BinaryOperator) : Settles budget Value.LoopFree (fun fuel => do
      let rightValue ← (recursion fuel).evaluate right
      Evaluator.applyBinary binary (← current fuel) rightValue) :=
    bind (evaluate ready right) fun _ _ => bind settles fun _ _ => applyBinary binary _ _
  cases operator with
  | formula => exact bind origin fun _ _ => result (.formula _)
  | value => exact bind (evaluate ready right) fun _ free => result free
  | _ => exact compound _

theorem assignName (ready : Ready budget) (span : Span) (name : String)
    (operator : AssignOperator) (right : Expr) :
    Settles budget (fun _ => True) fun fuel =>
      Evaluator.assignName (recursion fuel) span name operator right := by
  refine bind (onVaultAt span (.resolve name) (.resolve name)) ?_
  rintro ⟨reference, _⟩ _
  refine bind (newValue ready operator right ?_) fun value free => ?_
  · exact bind machine fun _ calm => dereference ready span (calm.1.read reference)
  · exact onVault (.write reference value) (.write reference free)

theorem assignBinding (ready : Ready budget) (span : Span) (handle : Handle) (name : String)
    (operator : AssignOperator) (right : Expr) :
    Settles budget (fun _ => True) fun fuel =>
      Evaluator.assignBinding (recursion fuel) span handle name operator right := by
  refine bind (newValue ready operator right ?_) fun value free => ?_
  · refine bind (queryAt span fun _ _ _ _ => trivial : Settles budget (fun _ => True) _) ?_
    intro found _
    cases found with
    | none => exact result .none
    | some _ => exact property ready span (.scope handle) name
  · exact onVaultAt span (.defineIn handle name value) (.defineIn handle name free)

theorem assignElement (ready : Ready budget) (target object : Expr) {items : List Value}
    (free : ∀ item ∈ items, item.LoopFree) (key : Value) (operator : AssignOperator)
    (right : Expr) :
    Settles budget (fun _ => True) fun fuel =>
      Evaluator.assignElement (recursion fuel) target object items key operator right := by
  unfold Evaluator.assignElement
  split
  case h_1 nameSpan name index selected =>
    have current : ((items[index]?).getD .none).LoopFree := by
      cases found : items[index]? with
      | none => exact .none
      | some item => exact free item (List.mem_of_getElem? found)
    refine bind (newValue ready operator right (result current)) fun value freeValue => ?_
    refine bind (onVaultAt nameSpan (.resolve name) (.resolve name)) ?_
    rintro ⟨reference, _⟩ _
    have freeItems : ∀ item ∈ items.set index value, item.LoopFree := by
      intro item member
      rcases List.mem_or_eq_of_mem_set member with earlier | rfl
      · exact free item earlier
      · exact freeValue
    exact onVault (.write reference _) (.write reference (.sequence freeItems))
  case h_2 => exact failAt _ _ _

theorem assign (ready : Ready budget) (target : Expr) (operator : AssignOperator)
    (right : Expr) :
    Settles budget (fun _ => True) fun fuel =>
      Evaluator.assign (recursion fuel) target operator right := by
  cases target with
  | name span name => exact assignName ready span name operator right
  | member span object nameSpan name =>
      refine bind (evaluate ready object) fun value _ => ?_
      cases value with
      | scope handle => exact assignBinding ready span handle name operator right
      | _ => exact failAt _ _ _
  | index span object key =>
      refine bind (evaluate ready object) fun value free => ?_
      refine bind (evaluate ready key) fun keyValue _ => ?_
      cases free with
      | scope handle => exact assignBinding ready span handle keyValue.toText operator right
      | sequence freeItems =>
          exact assignElement ready _ object freeItems keyValue operator right
      | _ => exact failAt _ _ _
  | method span object callSpan callee argumentsSpan arguments =>
      exact bind (evaluate ready object) fun _ _ => failAt _ _ _
  | _ => exact failAt _ _ _

/-! ## Statements -/

/-- There is one round for each item, and there are no more items than at the beginning. -/
theorem runRounds {recursion : Nat → Recursion} (name : String) {body : List Stmt}
    (settles : Settles budget Flow.LoopFree fun fuel => (recursion fuel).execute body)
    {items : List Value} (free : ∀ item ∈ items, item.LoopFree) :
    Settles budget Flow.LoopFree fun fuel =>
      Evaluator.runRounds (recursion fuel) name body items := by
  induction items with
  | nil => exact result .proceed
  | cons item items inductionHypothesis =>
      obtain ⟨freeItem, freeItems⟩ := List.forall_mem_cons.1 free
      refine bind (inBlock (bind (define name freeItem) fun _ _ => settles))
        fun flow freeFlow => ?_
      cases freeFlow with
      | proceed | nextRound => exact inductionHypothesis freeItems
      | leaveLoop => exact result .proceed
      | result freeValue => exact result (.result freeValue)
      | thrown span freeValue => exact result (.thrown span freeValue)

/-- The items of a value are there before the first round. -/
theorem itemsOf (span : Span) {value : Value} (free : value.LoopFree) :
    Settles budget (fun items => ∀ item ∈ items, item.LoopFree) fun _ =>
      Evaluator.itemsOf span value := by
  have texts {α : Type} (written : α → String) (parts : List α) :
      ∀ item ∈ parts.map fun part => Value.text (written part), item.LoopFree := by
    intro item member
    obtain ⟨part, _, rfl⟩ := List.mem_map.1 member
    exact .text _
  cases free with
  | sequence freeItems => exact result freeItems
  | text text => exact result (texts _ text.toList)
  | scope handle =>
      exact bind (queryAt span fun _ _ _ _ => trivial : Settles budget (fun _ => True) _)
        fun table _ => result (texts id table.names)
  | _ => exact failAt _ _ _

/-- An attempt settles with its body and its handler. -/
theorem runAttempt {recursion : Nat → Recursion} {body handler : List Stmt} (caught : String)
    (settlesBody : Settles budget Flow.LoopFree fun fuel => (recursion fuel).execute body)
    (settlesHandler : Settles budget Flow.LoopFree fun fuel => (recursion fuel).execute handler) :
    Settles budget Flow.LoopFree fun fuel =>
      Evaluator.runAttempt (recursion fuel) body caught handler := by
  refine bind (inBlock settlesBody) fun flow freeFlow => ?_
  cases freeFlow with
  | @thrown value span freeValue =>
      refine inBlock (ite (fun _ => ?_) fun _ => settlesHandler)
      exact bind (define caught freeValue) fun _ _ => settlesHandler
  | proceed => exact result .proceed
  | leaveLoop => exact result .leaveLoop
  | nextRound => exact result .nextRound
  | result freeValue => exact result (.result freeValue)

theorem yieldValue (ready : Ready budget) (span : Span) (argument : Option Expr) :
    Settles budget (fun _ => True) fun fuel =>
      Evaluator.yieldValue (recursion fuel) span argument := by
  have yields : Settles budget (fun _ => True) (fun fuel => do
      let value ← Evaluator.evaluateOptional (recursion fuel) argument
      Eval.yielding value) :=
    bind (evaluateOptional ready argument) fun _ free => yielding free
  refine bind machine fun current _ => ?_
  refine ite (fun _ => ?_) fun _ => yields
  exact bind (failAt _ _ _) fun (_ : Unit) (_ : True) => yields

theorem uncaught {P : α → Prop} (value : Value) (span : Span) :
    Settles budget P fun _ => (Evaluator.uncaught value span : Eval α) :=
  bind (bind machine fun _ _ => result trivial : Settles budget (fun _ => True) _)
    fun _ _ => failAt _ _ _

theorem freshOrigin : Settles budget (fun _ => True) fun _ => Evaluator.freshOrigin :=
  bind machine fun _ _ => bind (aside fun _ => ⟨rfl, rfl, rfl, rfl, rfl⟩) fun _ _ =>
    result trivial

/-- An imported program is loop-free and is run one level deeper. -/
theorem runImported (ready : Ready budget) (span : Span) (source path text name : String)
    {program : Program} (free : program.LoopFree) :
    Settles budget (fun _ => True) fun fuel =>
      Evaluator.runImported (recursion fuel) span source path text name program := by
  refine bind freshOrigin fun origin _ => deeper span fun smaller less => ?_
  refine inDeclaration name ?_
  refine bind (define _ (.text path)) fun _ _ => ?_
  refine bind (define _ (.text name)) fun _ _ => ?_
  refine bind (define _ (.text source)) fun _ _ => inFile _ ?_
  refine bind (within origin (ready.execute smaller less program.body free)) fun flow _ => ?_
  cases flow with
  | thrown value thrownAt => exact uncaught value thrownAt
  | _ => exact result trivial

/-- Importing settles, whether the file can be read or not. -/
theorem importFile (ready : Ready budget) (span : Span) (source aliasName : String) :
    Settles budget (fun _ => True) fun fuel =>
      Evaluator.importFile (recursion fuel) span source aliasName := by
  refine bind machine fun current _ => ?_
  refine bind (aside fun _ => ⟨rfl, rfl, rfl, rfl, rfl⟩) fun _ _ => ?_
  refine bind config fun config free => ?_
  cases read : config.files (Evaluator.importPath current source) with
  | error error => exact aside fun _ => ⟨rfl, rfl, rfl, rfl, rfl⟩
  | ok text =>
      cases parsed : Program.parse (Evaluator.importPath current source) text with
      | error diagnostic =>
          simp only [parsed]
          exact fail diagnostic
      | ok program =>
          simp only [parsed]
          exact runImported ready span source _ text _ (free _ text program read parsed)

mutual

/-- Statements settle, by induction on the tree. -/
theorem executeOne (ready : Ready budget) : ∀ statement : Stmt, statement.isLoopFree = true →
    Settles budget Flow.LoopFree fun fuel => Evaluator.executeOne (recursion fuel) statement
  | .evaluate _ expr, _ =>
      bind (evaluate ready expr) fun _ _ => proceeding (aside fun _ => ⟨rfl, rfl, rfl, rfl, rfl⟩)
  | .declare _ name initial _, _ =>
      ite (fun _ => bind origin fun _ _ => proceeding (define name (.formula _)))
        fun _ => bind (evaluate ready initial) fun _ free => proceeding (define name free)
  | .function _ name _ _ _, free =>
      bind origin fun _ _ => proceeding (define name (.function free))
  | .scope _ name body, free =>
      declareScope name false (of_executeStep (executeStep ready body free))
  | .context _ name body, free =>
      declareScope name true (of_executeStep (executeStep ready body free))
  | .block _ body, free => inBlock (of_executeStep (executeStep ready body free))
  | .conditional _ test _ consequent alternate, free => by
      obtain ⟨freeConsequent, freeAlternate⟩ := (Bool.and_eq_true _ _).mp free
      refine bind (evaluate ready test) fun _ _ => ite (fun _ => ?_) fun _ => ?_
      · exact inBlock (of_executeStep (executeStep ready consequent freeConsequent))
      · exact executeAlternate ready alternate freeAlternate
  | .forEach _ name iterable _ body, free =>
      inBlock (bind (evaluate ready iterable) fun _ freeValue =>
        bind (itemsOf iterable.span freeValue) fun _ freeItems =>
          runRounds name (of_executeStep (executeStep ready body free)) freeItems)
  | .attempt _ _ body caught _ handler, free => by
      obtain ⟨freeBody, freeHandler⟩ := (Bool.and_eq_true _ _).mp free
      exact runAttempt caught (of_executeStep (executeStep ready body freeBody))
        (of_executeStep (executeStep ready handler freeHandler))
  | .assign _ target operator right, _ => proceeding (assign ready target operator right)
  | .imports span source aliasName, _ => proceeding (importFile ready span source aliasName)
  | .returns _ argument, _ =>
      bind (evaluateOptional ready argument) fun _ free => result (.result free)
  | .throws span argument, _ =>
      bind (evaluate ready argument) fun _ free => result (.thrown span free)
  | .breaks _, _ => result .leaveLoop
  | .continues _, _ => result .nextRound
  | .yields span argument, _ => proceeding (yieldValue ready span argument)

/-- Statements in order settle, by recursion over the list. -/
theorem executeStep (ready : Ready budget) : ∀ statements : List Stmt,
    Stmt.areLoopFree statements = true →
    Settles budget Flow.LoopFree fun fuel => Evaluator.executeStep (recursion fuel) statements
  | [], _ => result .proceed
  | statement :: rest, free => by
      obtain ⟨freeFirst, freeRest⟩ := (Bool.and_eq_true _ _).mp free
      exact executeStep_cons (executeOne ready statement freeFirst) (executeStep ready rest freeRest)

theorem executeAlternate (ready : Ready budget) : ∀ alternate : Option Stmt,
    Stmt.isLoopFree? alternate = true →
    Settles budget Flow.LoopFree fun fuel =>
      match alternate with
      | some statement => (recursion fuel).execute [statement]
      | none => return .proceed
  | none, _ => result .proceed
  | some statement, free =>
      -- The list of one statement is no part of the tree, but the statement is.
      of_executeStep (executeStep_cons (executeOne ready statement free) (result .proceed))

end

/-- Loop-free statements settle. -/
theorem execute (ready : Ready budget) {statements : List Stmt}
    (free : Stmt.areLoopFree statements = true) :
    Settles budget Flow.LoopFree fun fuel => (recursion fuel).execute statements :=
  of_executeStep (executeStep ready statements free)

end Eval.Settles

/-- However much nesting is left, whatever is evaluated a level deeper settles. -/
theorem Evaluator.ready (budget : Nat) : Evaluator.Ready budget := by
  induction budget using Nat.strong_induction_on with
  | _ budget inductionHypothesis =>
      refine ⟨fun smaller less expr => ?_, fun smaller less statements free => ?_⟩
      · exact Eval.Settles.evaluate (inductionHypothesis smaller less) expr
      · exact Eval.Settles.execute (inductionHypothesis smaller less) free

end ScopeScript
