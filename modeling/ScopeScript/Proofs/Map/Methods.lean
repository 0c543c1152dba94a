import ScopeScript.Proofs.Map.Storage

/-!
# The methods of maps

The methods of a map are functions of the language. Each of them finds the routine of its name in
`std.hashmap`, under the names that are visible where it runs, and hands its parameters on to it
together with the scope `entries` of the map. This module follows such a call from the member of a
map down to the routine and back: where the names are bound as they should be, a call does what the
routine does to the entries, and leaves no other trace in the scopes (`MapCall.callMember`).
-/

namespace ScopeScript

namespace MapCall

theorem exists_method (call : MapCall) :
    ∃ method ∈ Prelude.methods, method.delegates call.signature = true := by
  have listed : call.signature ∈ Prelude.signatures := by
    cases call <;> simp [Prelude.signatures, signature]
  obtain ⟨place, found⟩ := List.get_of_mem listed
  have bound : place < Prelude.methods.length :=
    Prelude.methods_delegate.length_eq.symm ▸ place.isLt
  refine ⟨Prelude.methods.get ⟨place, bound⟩, List.get_mem _ _, ?_⟩
  exact found ▸ Prelude.methods_delegate.get bound place.isLt

theorem nodup_parameters (call : MapCall) : call.signature.parameters.Nodup := by
  cases call <;> simp [signature]

theorem length_arguments (call : MapCall) :
    call.arguments.length = call.signature.parameters.length := by
  cases call <;> rfl

theorem mem_mapRoutines (call : MapCall) : (call.method, call.routine) ∈ Native.mapRoutines := by
  cases call <;> simp [Native.mapRoutines, method, signature, routine]

end MapCall

/-! ## Calls -/

namespace Evaluator

variable {context : Context} {machine : Machine} {std hashmap : Handle}

theorem evaluateAll_names {exprs : List Expr} {names : List String} {values : List Value}
    (isNames : exprs.map Expr.name? = names.map some)
    (sees : List.Forall₂ (fun name value => machine.vault.Sees machine.vault.frames name value ∧
      value.isFormula = false) names values) (fuel : Nat) :
    evaluateAll (Evaluator.recursion (fuel + 1)) exprs context machine =
      (.done values, machine) := by
  induction sees generalizing exprs with
  | nil =>
      cases List.map_eq_nil_iff.1 isNames
      rfl
  | cons seen _ inductionHypothesis =>
      obtain ⟨expr, rest, rfl, isName, isRest⟩ := List.map_eq_cons_iff.1 isNames
      obtain ⟨span, rfl⟩ := Expr.exists_of_name? isName
      refine (Eval.bind_of_done (lookup_of_sees seen.1 seen.2 span) _).trans ?_
      exact Eval.bind_of_done (inductionHypothesis isRest) _

/-- An expression that hands variables on to a routine calls the routine with their values. -/
theorem evaluate_delegates {callee : String} {names : List String} {values : List Value}
    {expr : Expr} (delegates : expr.delegates callee names = true)
    (seesStd : machine.vault.Sees machine.vault.frames "std" (.scope std))
    (bound : machine.vault.valueIn? std "hashmap" = some (.scope hashmap))
    (sees : List.Forall₂ (fun name value => machine.vault.Sees machine.vault.frames name value ∧
      value.isFormula = false) names values) (fuel : Nat) :
    ∃ span callSpan, (Evaluator.recursion (fuel + 3)).evaluate expr context machine =
      callMember (Evaluator.recursion (fuel + 2)) span (.scope hashmap) ⟨callSpan, callee⟩ values
        context machine := by
  obtain ⟨span, memberSpan, stdSpan, nameSpan, callSpan, argumentsSpan, arguments, rfl, isNames⟩ :=
    Expr.exists_of_delegates delegates
  refine ⟨span, callSpan, ?_⟩
  have object : (Evaluator.recursion (fuel + 2)).evaluate
      (.member memberSpan (.name stdSpan "std") nameSpan "hashmap") context machine =
        (.done (.scope hashmap), machine) := by
    refine (Eval.bind_of_done (lookup_of_sees seesStd rfl stdSpan) _).trans ?_
    exact property_of_bound bound rfl memberSpan
  refine (Eval.bind_of_done object _).trans ?_
  exact Eval.bind_of_done (evaluateAll_names isNames sees (fuel + 1)) _

end Evaluator

namespace MapCall

variable {context : Context} {machine : Machine} {hashmap entries : Handle} {table : Table}

theorem callRoutine (call : MapCall) (recursion : Recursion) (site : CallSite)
    (values : List Value) :
    Evaluator.invoke recursion site call.routine.value values =
      call.routine.callStorage site values := by
  cases call <;> rfl

theorem isFormula_routine (call : MapCall) : call.routine.value.isFormula = false := rfl

/-- A member of the scope of routines does its work on the entries. -/
theorem callMember_routine (call : MapCall) (named : call.Named) (recursion : Recursion)
    (bound : machine.vault.valueIn? hashmap call.method = some call.routine.value)
    (found : machine.vault.table? entries = some table) (span callSpan : Span) :
    ∃ table' after,
      Evaluator.callMember recursion span (.scope hashmap) ⟨callSpan, call.method⟩
          (.scope entries :: call.arguments) context machine =
        (.done (call.answer table.contents), after) ∧
      machine.Writes entries table' after ∧ table'.contents = call.effect table.contents := by
  obtain ⟨visited, _, live, _⟩ := Vault.exists_table_of_valueIn? bound
  let inside : Machine := machine.visiting hashmap
  have sees : inside.vault.Sees inside.vault.frames call.method call.routine.value :=
    Vault.sees_cons_of_bound bound
  have stored : inside.vault.table? entries = some table := found
  let site : CallSite := ⟨callSpan, call.method⟩
  obtain ⟨table', after, ran, writes, contents⟩ := call.callStorage named site context stored
  have called : Evaluator.callByName recursion site (.scope entries :: call.arguments) context
      inside = (.done (call.answer table.contents), after) := by
    refine (Eval.bind_of_done (Evaluator.lookup_of_sees sees call.isFormula_routine _) _).trans ?_
    rw [callRoutine, ran]
  obtain ⟨left, ranScope, writesScope⟩ := Evaluator.inScope_writes live called writes span
  exact ⟨table', left, ranScope, writesScope, contents⟩

end MapCall

/-- The routines for maps are visible under their names: no active scope hides `std`, and `std` and
its part `hashmap` bind what they were given. -/
structure Vault.Stocked (vault : Vault) (std hashmap : Handle) : Prop where
  visible : vault.Sees vault.frames "std" (.scope std)
  part : vault.valueIn? std "hashmap" = some (.scope hashmap)
  routines : ∀ routine ∈ Native.mapRoutines,
    vault.valueIn? hashmap routine.1 = some routine.2.value

/-- A scope is a map that nobody has tampered with: it binds the methods and the live scope of its
entries, and does not hide `std`. -/
structure Vault.IsMap (vault : Vault) (map entries : Handle) : Prop where
  methods : ∀ method ∈ Prelude.methods,
    vault.valueIn? map method.name = some (.function method)
  bound : vault.valueIn? map "entries" = some (.scope entries)
  unhidden : vault.valueIn? map "std" = none
  stored : ∃ table, vault.table? entries = some table

namespace MapCall

/-- No argument is a formula, and nothing is to be filed under the empty text. -/
structure Proper (call : MapCall) : Prop where
  plain : ∀ value ∈ call.arguments, value.isFormula = false
  named : call.Named

instance (call : MapCall) : Decidable call.Proper :=
  decidable_of_iff ((∀ value ∈ call.arguments, value.isFormula = false) ∧ call.Named)
    ⟨fun both => ⟨both.1, both.2⟩, fun proper => ⟨proper.plain, proper.named⟩⟩

variable {context : Context} {machine : Machine} {std hashmap map entries : Handle}
  {table : Table}

theorem answer_of_not_answers {call : MapCall} (silent : call.signature.answers = false)
    (map : FiniteMap) :
    call.answer map = .none := by
  cases call <;> first | rfl | cases silent

/-- The body of a method does what the expression does that it consists of. -/
theorem execute_method (call : MapCall) {method : Function} {called : Machine} {fuel : Nat}
    {contents : FiniteMap} {outer : List (List Value)}
    (delegates : method.delegates call.signature = true)
    (idle : called.activations = [] :: outer)
    (ran : ∀ expr, Expr.delegates call.method ("entries" :: call.signature.parameters) expr = true →
      ∃ table after, (Evaluator.recursion (fuel + 3)).evaluate expr context called =
        (.done (call.answer contents), after) ∧
        called.Writes entries table after ∧ table.contents = call.effect contents) :
    ∃ flow table after, (Evaluator.recursion (fuel + 4)).execute method.body context called =
        (.done flow, after) ∧
      (∀ context, Evaluator.resultOfBody flow context after =
        (.done (call.answer contents), after)) ∧
      called.Writes entries table after ∧ table.contents = call.effect contents := by
  simp only [Function.delegates, Bool.and_eq_true] at delegates
  obtain ⟨_, body⟩ := delegates
  split at body
  case h_1 span expr isBody =>
    obtain ⟨_, isDelegation⟩ := (Bool.and_eq_true _ _).mp body
    obtain ⟨table, after, evaluated, writes, written⟩ := ran expr isDelegation
    refine ⟨.result (call.answer contents), table, after, ?_, fun _ => rfl, writes, written⟩
    rw [isBody, Evaluator.execute_succ]
    exact Evaluator.executeStep_singleton (Eval.bind_of_done evaluated _)
  case h_2 span expr isBody =>
    obtain ⟨silent, isDelegation⟩ := (Bool.and_eq_true _ _).mp body
    obtain ⟨table, after, evaluated, writes, written⟩ := ran expr isDelegation
    refine ⟨.proceed, table, { after with last := call.answer contents }, ?_, ?_,
      ⟨writes.vault, ?_⟩, written⟩
    · rw [isBody, Evaluator.execute_succ]
      exact Evaluator.executeStep_singleton (Eval.bind_of_done evaluated _)
    · intro context
      have stillIdle : after.activations = [] :: outer := by
        rw [writes.beside]
        exact idle
      have nothing :
          Evaluator.yieldedValues { after with last := call.answer contents } = .none := by
        rw [Evaluator.yieldedValues, stillIdle]
      rw [answer_of_not_answers ((Bool.not_eq_true' _).mp silent) contents] at nothing ⊢
      exact congrArg (fun value => (Outcome.done value, _)) nothing
    · rw [writes.beside]
  case h_3 => cases body

theorem not_mem_parameters (call : MapCall) :
    "std" ∉ call.signature.parameters ∧ "entries" ∉ call.signature.parameters := by
  cases call <;> simp [signature]

/-- The body of a method that has been called reaches the routine of its name. -/
theorem execute_called (call : MapCall) (proper : call.Proper) (context : Context)
    {method : Function} {inside called : Machine} {block : Handle} {bindings : Table} (fuel : Nat)
    (delegates : method.delegates call.signature = true)
    (isCalled : inside.Called call.signature.parameters call.arguments block bindings called)
    (seesStd : inside.vault.Sees inside.vault.frames "std" (.scope std))
    (seesEntries : inside.vault.Sees inside.vault.frames "entries" (.scope entries))
    (part : inside.vault.valueIn? std "hashmap" = some (.scope hashmap))
    (routine : inside.vault.valueIn? hashmap call.method = some call.routine.value)
    (found : inside.vault.table? entries = some table) :
    ∃ flow table' after, (Evaluator.recursion (fuel + 4)).execute method.body context called =
        (.done flow, after) ∧
      (∀ context, Evaluator.resultOfBody flow context after =
        (.done (call.answer table.contents), after)) ∧
      called.Writes entries table' after ∧ table'.contents = call.effect table.contents := by
  obtain ⟨outerStd, outerEntries⟩ := call.not_mem_parameters
  have parametersSeen : List.Forall₂ (fun name value =>
      called.vault.Sees called.vault.frames name value ∧ value.isFormula = false)
      call.signature.parameters call.arguments := by
    have plain := (List.forall₂_and_left _ _).2 ⟨proper.plain, isCalled.sees_parameters.flip⟩
    exact plain.flip.imp fun _ _ both => both.symm
  have seen := List.Forall₂.cons ⟨isCalled.sees_outer outerEntries seesEntries, rfl⟩ parametersSeen
  refine call.execute_method delegates isCalled.activations fun expr isDelegation => ?_
  obtain ⟨span, callSpan, evaluated⟩ := Evaluator.evaluate_delegates isDelegation
    (isCalled.sees_outer outerStd seesStd) (isCalled.valueIn? part) seen fuel
  obtain ⟨table', after, ran, writes, contents⟩ := call.callMember_routine proper.named
    (Evaluator.recursion (fuel + 2)) (isCalled.valueIn? routine) (isCalled.table? found) span
    callSpan
  exact ⟨table', after, evaluated.trans ran, writes, contents⟩

/-- Where everything is in its place, a call of a method answers as a finite map does and does to
the entries what it would do to a finite map. -/
theorem callMember (call : MapCall) (proper : call.Proper) (fuel : Nat) (span callSpan : Span)
    (sound : machine.vault.Sound) (room : machine.vault.live < UInt32.size)
    (shallow : machine.depth < context.config.maxDepth)
    (stocked : machine.vault.Stocked std hashmap) (isMap : machine.vault.IsMap map entries)
    (found : machine.vault.table? entries = some table) :
    ∃ table' after,
      Evaluator.callMember (Evaluator.recursion (fuel + 4)) span (.scope map)
          ⟨callSpan, call.method⟩ call.arguments context machine =
        (.done (call.answer table.contents), after) ∧
      machine.Writes entries table' after ∧ table'.contents = call.effect table.contents := by
  obtain ⟨method, isMethod, delegates⟩ := call.exists_method
  obtain ⟨isNamed, hasParameters⟩ := Prelude.name_of_delegates delegates
  have bound := isNamed ▸ isMap.methods method isMethod
  obtain ⟨visited, _, live, _⟩ := Vault.exists_table_of_valueIn? isMap.bound
  have unhidden : visited.find? "std" = none := by
    simpa [Vault.valueIn?, live] using isMap.unhidden
  let inside : Machine := machine.visiting map
  have seesMethod : inside.vault.Sees inside.vault.frames call.method (.function method) :=
    Vault.sees_cons_of_bound bound
  have seesEntries : inside.vault.Sees inside.vault.frames "entries" (.scope entries) :=
    Vault.sees_cons_of_bound isMap.bound
  have seesStd : inside.vault.Sees inside.vault.frames "std" (.scope std) :=
    Vault.sees_cons_of_unbound live unhidden (stocked.visible.congr fun _ _ _ found => found)
  have routine := stocked.routines _ call.mem_mapRoutines
  have ranBody (block : Handle) (bindings : Table) (called : Machine)
      (isCalled : inside.Called method.parameters call.arguments block bindings called) :=
    call.execute_called proper { context with origin := method.origin } fuel delegates
      (hasParameters ▸ isCalled) seesStd seesEntries stocked.part routine found
  obtain ⟨table', after, ran, writes, written⟩ := Evaluator.callFunction_writes inside
    ⟨callSpan, call.method⟩ method call.arguments (hasParameters ▸ call.nodup_parameters)
    (hasParameters ▸ call.length_arguments) shallow (sound.congr rfl rfl rfl) room rfl live found
    ranBody
  have called : Evaluator.callByName (Evaluator.recursion (fuel + 4)) ⟨callSpan, call.method⟩
      call.arguments context inside = (.done (call.answer table.contents), after) :=
    (Eval.bind_of_done (Evaluator.lookup_of_sees seesMethod rfl _) _).trans ran
  obtain ⟨left, ranScope, writesScope⟩ := Evaluator.inScope_writes live called writes span
  exact ⟨table', left, ranScope, writesScope, written⟩

end MapCall

end ScopeScript
