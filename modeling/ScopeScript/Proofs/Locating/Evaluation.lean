import ScopeScript.Proofs.Locating.Pointing

/-!
# Evaluation locates its diagnostics

Every part of the evaluator points to a node if the evaluators that it uses do (`Recursion.Points`).
An expression may have spans that are near the file being executed, and statements have the spans
that fit the place where they are executed: at the top level of a file those of the file, and in a
call those of the code that is evaluated later. By induction on the fuel this holds of all
evaluations (`Evaluator.points`).
-/

namespace ScopeScript

/-- The evaluators that a step may use point to nodes. -/
structure Recursion.Points (sources : Sources) (recursion : Recursion) : Prop where
  evaluate {place : Place} {expr : Expr} : expr.EverySpan (sources.Near place.file) →
    Eval.Points sources place (Value.Keeps sources.Supplies) (recursion.evaluate expr)
  execute {place : Place} {here : Span → Prop} {statements : List Stmt} :
    sources.Fits place here → Stmt.PlacedAll here sources.Defers statements →
    Eval.Points sources place (sources.Transfers here) (recursion.execute statements)
  prelude (place : Place) :
    Eval.Points sources place (sources.Transfers sources.Defers)
      (recursion.execute Prelude.statements)

namespace Sources

variable {sources : Sources} {place : Place} {here : Span → Prop} {expr : Expr} {span : Span}

/-- Code that is evaluated later may be evaluated while any file is executed. -/
theorem Near.later (near : sources.Near place.file span)
    (every : expr.EverySpan sources.Defers) : expr.EverySpan (sources.Near place.file) :=
  every.mono fun _ defers => ⟨near.1, .inr defers⟩

/-- Code that belongs to a place may be evaluated there. -/
theorem Fits.near (fits : sources.Fits place here) (every : expr.EverySpan here) :
    expr.EverySpan (sources.Near place.file) :=
  every.mono fun span isHere => (fits span isHere).1

/-- The right side of an assignment or a declaration is evaluated here, unless it is a formula. -/
theorem Fits.near_unless (fits : sources.Fits place here) {isFormula : Prop} [Decidable isFormula]
    (every : expr.EverySpan (if isFormula then sources.Defers else here)) :
    expr.EverySpan (if isFormula then sources.Defers else sources.Near place.file) := by
  by_cases formula : isFormula
  · rwa [if_pos formula] at every ⊢
  · rw [if_neg formula] at every ⊢
    exact fits.near every

/-- A file that is executed has its own nodes at its top level. -/
theorem Opens.fits {file : SourceFile} (opened : sources.Opens file) (outer : List SourceFile)
    (calls : Nat) : sources.Fits ⟨file, outer, calls⟩ (· ∈ file.spans) :=
  fun _ own => ⟨⟨opened, .inl own⟩, fun _ => own⟩

/-- The code of an opened file that parses is placed in this file. -/
theorem Opens.placed {file : SourceFile} (opened : sources.Opens file) {program : Program}
    (parsed : Program.parse file.path file.source = .ok program) :
    Stmt.PlacedAll (· ∈ file.spans) sources.Defers program.body :=
  SourceFile.placedAll_of_parse parsed fun _ member => .inl ⟨file, opened, member⟩

/-- In a call the code of functions is executed. -/
theorem Near.fits (near : sources.Near place.file span) :
    sources.Fits { place with calls := place.calls + 1 } sources.Defers :=
  fun _ defers => ⟨⟨near.1, .inr defers⟩, nofun⟩

end Sources

namespace Eval.Points

variable {sources : Sources} {place : Place} {recursion : Recursion} {span : Span}
  {here : Span → Prop}

/-! ## Names -/

/-- The code of a formula is evaluated in the text that the formula is from. -/
theorem dereference (points : recursion.Points sources) (near : sources.Near place.file span)
    {value : Value} (kept : value.Keeps sources.Supplies) :
    Points sources place (Value.Keeps sources.Supplies)
      (Evaluator.dereference recursion span value) := by
  cases kept with
  | @formula content defers =>
      exact deeper near (within content.origin (points.evaluate (near.later defers)))
  | function defers => exact result (.function defers)
  | sequence keptItems => exact result (.sequence keptItems)
  | _ => exact result (by simp)

theorem lookup (points : recursion.Points sources) (near : sources.Near place.file span)
    (name : String) :
    Points sources place (Value.Keeps sources.Supplies)
      (Evaluator.lookup recursion span name) := by
  refine bind (resolve near name) ?_
  rintro ⟨reference, value⟩ kept
  exact dereference points near kept

theorem applyBinary (operator : BinaryOperator) (left right : Value) :
    Points sources place (Value.Keeps sources.Supplies)
      (Evaluator.applyBinary operator left right) := by
  unfold Evaluator.applyBinary
  split
  · next computed => exact result (.result? computed)
  · exact bind (update (fun _ => rfl) (fun _ => rfl) fun _ => rfl) fun _ _ => endless

/-! ## Statements in order -/

/-- A statement that goes on with the next one when it is done. -/
theorem proceeding {body : Eval Unit} (points : Points sources place (fun _ => True) body) :
    Points sources place (sources.Transfers here) do
      body
      return .proceed :=
  bind points fun _ _ => result .proceed

/-- Statements in order point into the file if the first one and the rest do. -/
theorem executeStep_cons {statement : Stmt} {rest : List Stmt}
    (points : Points sources place (sources.Transfers here)
      (Evaluator.executeOne recursion statement))
    (pointsRest : Points sources place (sources.Transfers here)
      (Evaluator.executeStep recursion rest)) :
    Points sources place (sources.Transfers here)
      (Evaluator.executeStep recursion (statement :: rest)) := by
  refine bind points fun flow transfers => ?_
  cases transfers with
  | proceed => exact pointsRest
  | leaveLoop => exact result .leaveLoop
  | nextRound => exact result .nextRound
  | result kept => exact result (.result kept)
  | thrown kept isHere => exact result (.thrown kept isHere)

/-- Declarations of functions point to nothing, whatever file is executed. -/
theorem executeStep_of_isFunction {statements : List Stmt}
    (functions : ∀ statement ∈ statements, statement.isFunction = true)
    (deferred : ∀ span ∈ Stmt.deferredSpansAll statements, sources.Defers span) :
    Points sources place (sources.Transfers here)
      (Evaluator.executeStep recursion statements) := by
  induction statements with
  | nil => exact result .proceed
  | cons statement statements inductionHypothesis =>
      obtain ⟨isFunction, rest⟩ := List.forall_mem_cons.1 functions
      obtain ⟨deferredFirst, deferredRest⟩ := List.forall_mem_append.1 deferred
      cases statement with
      | function span name parameters body isAsync =>
          refine executeStep_cons ?_ (inductionHypothesis rest deferredRest)
          have supplied := (Stmt.spansAll_iff body).2 deferredFirst
          exact bind origin fun _ _ => proceeding (define name (.function supplied))
      | _ => cases isFunction

/-! ## Native routines -/

theorem printAll (values : List Value) (ending : String) :
    Points sources place (Value.Keeps sources.Supplies) (Native.printAll values ending) :=
  bind config fun _ _ => bind machine fun _ _ =>
    bind (update (fun _ => rfl) (fun _ => rfl) fun _ => rfl) fun _ _ => result .none

/-- What is wrong with an argument of a conversion is told at the call. -/
theorem callConversion (native : Native) {site : CallSite}
    (near : sources.Near place.file site.span) (values : List Value) :
    Points sources place (Value.Keeps sources.Supplies) (native.callConversion site values) := by
  unfold Native.callConversion
  split
  · exact bind machine fun _ _ => result (.convert native _ _)
  · exact failAt near (by decide) _

theorem callBoxed (native : Native) {site : CallSite}
    (near : sources.Near place.file site.span) (values : List Value) :
    Points sources place (Value.Keeps sources.Supplies) (native.callBoxed site values) := by
  cases values with
  | nil =>
      rw [Eval.Closed.callBoxed_nil]
      refine resume (Sources.invariant_stores.resolve _) (fun found _ => ?_)
        (failAt near (by decide) _)
      exact bind machine fun _ _ => result (.convert native _ _)
  | cons value rest => exact callConversion native near (value :: rest)

/-- What a map routine finds wrong with a key or its number of arguments is told at the call. -/
theorem onEntries (native : Native) {site : CallSite}
    (near : sources.Near place.file site.span) (handle : Handle) {table : Table}
    (holds : table.Holds (Value.Keeps sources.Supplies)) {values : List Value}
    (kept : ∀ value ∈ values, value.Keeps sources.Supplies) :
    Points sources place (Value.Keeps sources.Supplies)
      (native.onEntries site handle table values) := by
  unfold Native.onEntries
  split
  case h_1 key value =>
    have keptValue := kept value (by simp)
    refine ite (fun _ => ?_) fun _ => result .none
    exact bind (onVaultAt near (Vault.bare_defineIn _ _ _)
      (Sources.invariant_stores.defineIn handle key.toText keptValue)) fun _ _ => result .none
  case h_2 key =>
    split
    · refine result ?_
      cases found : table.find? key.toText with
      | none => exact .none
      | some binding => exact holds.find? found
    · exact bind (onVaultAt near (Vault.bare_eraseIn _ _)
        (Sources.invariant_stores.eraseIn handle key.toText)) fun _ _ => result (.bool _)
    · exact result (.bool _)
    · exact result .none
  case h_3 =>
    split
    · exact result (.sequence fun item member => by
        obtain ⟨name, _, rfl⟩ := List.mem_map.1 member
        exact .text name)
    · exact result (.sequence holds.values)
    · exact bind (onVault (.update _) (Sources.invariant_stores.clearIn handle)) fun _ _ =>
        result .none
    · exact result (.number _)
    · exact result .none

/-- A routine that is called for something that is no map says so at the call. -/
theorem callStorage (native : Native) {site : CallSite}
    (near : sources.Near place.file site.span) {values : List Value}
    (kept : ∀ value ∈ values, value.Keeps sources.Supplies) :
    Points sources place (Value.Keeps sources.Supplies) (native.callStorage site values) := by
  refine ite (fun _ => ?_) fun _ => failAt near (by decide) _
  cases values with
  | nil => exact result .none
  | cons value rest =>
      obtain ⟨_, keptRest⟩ := List.forall_mem_cons.1 kept
      cases value with
      | scope handle =>
          refine bind (queryAt near (fun _ _ => Vault.bare_bindings) fun _ _ holds found =>
            holds.bindings found) fun table holds => ?_
          exact onEntries native near handle holds keptRest
      | _ => exact failAt near (by decide) _

/-- A scope is created inside another one, which exists then, if the numbers still fit. -/
theorem createOwned_live (near : sources.Near place.file span) {owner : Handle} {name : String}
    {P : α → Prop} {next : Handle → Eval α} {context : Context}
    (goesOn : ∀ part machine, sources.Stands place machine →
      (machine.vault.Fits → machine.vault.isLive owner = true) →
        sources.Ended place P (next part context machine))
    {machine : Machine} (stands : sources.Stands place machine) :
    sources.Ended place P
      ((Eval.onVaultAt span (Vault.createOwned owner name) >>= next) context machine) := by
  have stored := (Sources.invariant_stores.createOwned owner name machine.vault stands.stored).1
  cases found : machine.vault.record? owner with
  | none =>
      obtain ⟨diagnostic, refused, _⟩ := Vault.find_of_none found
      rw [Eval.bind_apply, Eval.onVaultAt, onVault_apply, Vault.createOwned_of_none name refused]
      exact .failed machine (stands.locate near (Vault.bare_find refused))
  | some record =>
      obtain ⟨path, created⟩ := Vault.createOwned_of_some name found
      rw [created] at stored
      rw [bind_of_done (onVaultAt_eq_of_done span context machine created)]
      refine goesOn _ _ (stands.onVault stored) fun fits => ?_
      rw [Vault.Fits, Vault.size_slots_modify] at fits
      have consistent := stands.stored.1 ((Vault.widens_allocate _ owner path).fits fits)
      rw [Vault.isLive_modify, consistent.isLive_allocate fits]
      exact .inr (Vault.isLive_of_record? found)

/-- A name is bound in a scope that exists as long as the numbers fit; then there is nothing to tell
of. -/
theorem defineIn_live {handle : Handle} {name : String} {value : Value} {P : α → Prop}
    (kept : value.Keeps sources.Supplies) {next : Unit → Eval α} {context : Context}
    (goesOn : ∀ machine, sources.Stands place machine →
      (machine.vault.Fits → machine.vault.isLive handle = true) →
        sources.Ended place P (next () context machine))
    {machine : Machine} (stands : sources.Stands place machine)
    (live : machine.vault.Fits → machine.vault.isLive handle = true) :
    sources.Ended place P
      ((Eval.onVault (Vault.defineIn handle name value) >>= next) context machine) := by
  have stored := (Sources.invariant_stores.defineIn handle name kept machine.vault stands.stored).1
  rw [Eval.bind_apply, onVault_apply]
  cases found : machine.vault.record? handle with
  | none =>
      obtain ⟨diagnostic, refused, _⟩ := Vault.find_of_none found
      rw [Vault.defineIn_of_none name value refused]
      refine .overfull fun fits => ?_
      have alive := live fits
      rw [Vault.isLive, found] at alive
      cases alive
  | some record =>
      rw [Vault.defineIn_of_some name value found] at stored ⊢
      by_cases named : name = ""
      · rw [named, Vault.rebind_empty]
        exact .crashed _ _
      · rw [Vault.rebind_of_ne handle value named] at stored ⊢
        refine goesOn _ (stands.onVault stored) fun fits => ?_
        rw [Vault.Fits, Vault.size_slots_modify] at fits
        exact (Vault.isLive_modify _ _ _ _).trans (live fits)

theorem callNewMap (points : recursion.Points sources) {site : CallSite}
    (near : sources.Near place.file site.span) (values : List Value) :
    Points sources place (Value.Keeps sources.Supplies)
      (Native.callNewMap recursion site values) := by
  refine ite (fun _ => failAt near (by decide) _) fun _ => ?_
  refine bind (onVault Vault.unfailing_owner Vault.ensures_owner) fun owner _ => ?_
  refine bind (onVaultAt near (Vault.bare_createOwned owner "Map")
    (Sources.invariant_stores.createOwned owner "Map")) fun handle _ => ?_
  intro context machine files stands
  -- The names of the new scope are bound without a place, so it matters that the scope exists.
  refine createOwned_live near (fun entries grown standsGrown live => ?_) stands
  refine defineIn_live (.scope handle) (fun bound standsBound liveBound => ?_) standsGrown live
  refine defineIn_live (.scope entries) (fun filled standsFilled _ => ?_) standsBound liveBound
  refine inScope near handle ?_ context filled files standsFilled
  exact bind (inFile _ (within _ (points.prelude _))) fun _ _ =>
    result (.scope handle)

/-- The routines point at their calls, whatever they do. -/
theorem callNative (points : recursion.Points sources) (native : Native) {site : CallSite}
    (near : sources.Near place.file site.span) {values : List Value}
    (kept : ∀ value ∈ values, value.Keeps sources.Supplies) :
    Points sources place (Value.Keeps sources.Supplies) (native.call recursion site values) := by
  cases native with
  | print | println => exact printAll values _
  | toText | toNumber | toBool | toError | kindOf | length => exact callConversion _ near values
  | boxedText | boxedIsError | boxedNumber | boxedLength | boxedKind =>
      exact callBoxed _ near values
  | newMap => exact callNewMap points near values
  | mapSet | mapGet | mapDelete | mapHas | mapKeys | mapValues | mapClear | mapLength =>
      exact callStorage _ near kept

/-! ## Calls and members -/

theorem bindParameters (names : List String) {values : List Value}
    (kept : ∀ value ∈ values, value.Keeps sources.Supplies) :
    Points sources place (fun _ => True) (Evaluator.bindParameters names values) := by
  induction names generalizing values with
  | nil => exact result trivial
  | cons name names inductionHypothesis =>
      cases values with
      | nil => exact result trivial
      | cons value values =>
          obtain ⟨first, rest⟩ := List.forall_mem_cons.1 kept
          exact bind (define name first) fun _ _ => inductionHypothesis rest

theorem display (value : Value) :
    Points sources place (fun _ => True) (Eval.display value) :=
  bind machine fun _ _ => result trivial

/-- A value that leaves a function uncaught becomes an error with its own place. -/
theorem resultOfBody {flow : Flow} (transfers : sources.Transfers here flow) :
    Points sources place (Value.Keeps sources.Supplies) (Evaluator.resultOfBody flow) := by
  have yielded : Points sources place (Value.Keeps sources.Supplies) do
      return Evaluator.yieldedValues (← Eval.machine) :=
    bind machine fun _ stands => result (.yieldedValues stands.yielded)
  cases transfers with
  | result kept => exact result kept
  | @thrown value => exact bind (display value) fun _ _ => result (.error _)
  | proceed | leaveLoop | nextRound => exact yielded

/-- The body of a function is evaluated in the text where the function stands. -/
theorem callFunction (points : recursion.Points sources) {site : CallSite}
    (near : sources.Near place.file site.span) {function : Function}
    (deferred : Stmt.EverySpanAll sources.Defers function.body) {values : List Value}
    (kept : ∀ value ∈ values, value.Keeps sources.Supplies) :
    Points sources place (Value.Keeps sources.Supplies)
      (Evaluator.callFunction recursion site function values) := by
  refine ite (fun _ => ?_) fun _ => failAt near (by decide) _
  refine deeper near (inBlock ?_)
  refine bind (bindParameters function.parameters kept) fun _ _ => activated ?_
  have body := points.execute near.fits (Stmt.placedAll_of_everySpanAll_self deferred)
  exact bind (within function.origin body) fun flow transfers => resultOfBody transfers

theorem invoke (points : recursion.Points sources) {site : CallSite}
    (near : sources.Near place.file site.span) {callee : Value}
    (keptCallee : callee.Keeps sources.Supplies) {values : List Value}
    (kept : ∀ value ∈ values, value.Keeps sources.Supplies) :
    Points sources place (Value.Keeps sources.Supplies)
      (Evaluator.invoke recursion site callee values) := by
  cases keptCallee with
  | native tag =>
      unfold Evaluator.invoke
      dsimp only
      split
      · exact callNative points _ near kept
      · exact failAt near (by decide) _
  | function deferred => exact callFunction points near deferred kept
  | _ => exact failAt near (by decide) _

theorem callByName (points : recursion.Points sources) {site : CallSite}
    (near : sources.Near place.file site.span) {values : List Value}
    (kept : ∀ value ∈ values, value.Keeps sources.Supplies) :
    Points sources place (Value.Keeps sources.Supplies)
      (Evaluator.callByName recursion site values) :=
  bind (lookup points near site.callee) fun _ keptCallee => invoke points near keptCallee kept

/-- A member of a value in a box, or a diagnostic if there is none. -/
theorem inBox_member {other : Value} (kept : other.Keeps sources.Supplies) (name : String)
    {next : Value → Eval Value} {otherwise : Eval Value}
    (goesOn : ∀ value, value.Keeps sources.Supplies →
      Points sources place (Value.Keeps sources.Supplies) (next value))
    (instead : Points sources place (Value.Keeps sources.Supplies) otherwise) :
    Points sources place (Value.Keeps sources.Supplies) (Evaluator.inBox other fun box => do
      match Evaluator.boxedMember? (← Eval.machine) box name with
      | some value => next value
      | none => otherwise) := by
  refine inBox kept fun box => bind machine fun current stands => ?_
  cases found : Evaluator.boxedMember? current box name with
  | none => exact instead
  | some value =>
      refine goesOn value ?_
      unfold Evaluator.boxedMember? at found
      split at found
      · next bound =>
        cases found
        exact stands.stored.2.lookup bound
      · cases found

/-- A member is looked up with the place of its access. -/
theorem property (points : recursion.Points sources) (near : sources.Near place.file span)
    {object : Value} (kept : object.Keeps sources.Supplies) (name : String) :
    Points sources place (Value.Keeps sources.Supplies)
      (Evaluator.property recursion span object name) := by
  have missing : Points sources place (Value.Keeps sources.Supplies) (Eval.failAt span .unboundName
      (object.kind ++ " has no member `" ++ name ++ "`")) := failAt near (by decide) _
  have boxed := inBox_member kept name (fun _ kept => result kept) missing
  cases object with
  | scope handle => exact inScope near handle (lookup points near name)
  | function | native => exact failAt near (by decide) _
  | _ => exact boxed

theorem callMember (points : recursion.Points sources) (near : sources.Near place.file span)
    {object : Value} (kept : object.Keeps sources.Supplies) {site : CallSite}
    (nearSite : sources.Near place.file site.span) {values : List Value}
    (keptValues : ∀ value ∈ values, value.Keeps sources.Supplies) :
    Points sources place (Value.Keeps sources.Supplies)
      (Evaluator.callMember recursion span object site values) := by
  have missing : Points sources place (Value.Keeps sources.Supplies) (Eval.failAt site.span
      .unboundName (object.kind ++ " has no method `" ++ site.callee ++ "`")) :=
    failAt nearSite (by decide) _
  have boxed := inBox_member kept site.callee
    (fun _ keptCallee => invoke points nearSite keptCallee keptValues) missing
  cases object with
  | scope handle => exact inScope near handle (callByName points nearSite keptValues)
  | function | native => exact failAt nearSite (by decide) _
  | _ => exact boxed

theorem elementAt (points : recursion.Points sources) (near : sources.Near place.file span)
    {objectSpan : Span} (nearObject : sources.Near place.file objectSpan) {object : Value}
    (kept : object.Keeps sources.Supplies) (key : Value) :
    Points sources place (Value.Keeps sources.Supplies)
      (Evaluator.elementAt recursion span objectSpan object key) := by
  cases kept with
  | @sequence items keptItems =>
      refine result ?_
      cases found : (Evaluator.position? key items.length).bind (items[·]?) with
      | none => exact .none
      | some item =>
          obtain ⟨index, _, selected⟩ := Option.bind_eq_some_iff.1 found
          exact keptItems item (List.mem_of_getElem? selected)
  | text text =>
      unfold Evaluator.elementAt
      dsimp only
      split
      · exact result (.text _)
      · exact result .none
  | scope handle =>
      have query : Points sources place
          (fun found => ∀ binding, found = some binding → binding.value.Keeps sources.Supplies)
          (Eval.queryAt span (·.lookup handle key.toText)) := by
        refine queryAt near (fun _ _ => Vault.bare_lookup) fun _ found holds same => ?_
        rintro binding rfl
        exact holds.lookup same
      refine bind query fun found keptFound => ?_
      rcases found with _ | ⟨cell, value⟩
      · exact result .none
      · have keptValue : value.Keeps sources.Supplies := keptFound _ rfl
        cases value with
        | formula content => exact property points near (.scope handle) key.toText
        | _ => exact result keptValue
  | _ => exact failAt nearObject (by decide) _

/-! ## Expressions -/

/-- Each argument is evaluated with its own place. -/
theorem evaluateAll (points : recursion.Points sources) {exprs : List Expr}
    (every : Expr.EverySpanAll (sources.Near place.file) exprs) :
    Points sources place (fun values => ∀ value ∈ values, value.Keeps sources.Supplies)
      (Evaluator.evaluateAll recursion exprs) := by
  induction exprs with
  | nil => exact result nofun
  | cons expr exprs inductionHypothesis =>
      refine bind (points.evaluate every.1) fun value kept => ?_
      refine bind (inductionHypothesis every.2) fun values keptValues => ?_
      exact result (List.forall_mem_cons.2 ⟨kept, keptValues⟩)

theorem evaluateOptional (points : recursion.Points sources) {expr? : Option Expr}
    (every : ∀ expr, expr? = some expr → expr.EverySpan (sources.Near place.file)) :
    Points sources place (Value.Keeps sources.Supplies)
      (Evaluator.evaluateOptional recursion expr?) := by
  cases expr? with
  | none => exact result .none
  | some expr => exact points.evaluate (every expr rfl)

theorem evaluateStep (points : recursion.Points sources) {expr : Expr}
    (every : expr.EverySpan (sources.Near place.file)) :
    Points sources place (Value.Keeps sources.Supplies)
      (Evaluator.evaluateStep recursion expr) := by
  cases expr with
  | number span value => exact result (.number value)
  | text span value => exact result (.text value)
  | bool span value => exact result (.bool value)
  | none span => exact result .none
  | absent span => exact result .none
  | name span name => exact lookup points every name
  | binary span left operator right =>
      obtain ⟨_, everyLeft, everyRight⟩ := every
      exact bind (points.evaluate everyLeft) fun _ _ =>
        bind (points.evaluate everyRight) fun _ _ => applyBinary operator _ _
  | unary span operator operand =>
      exact bind (points.evaluate every.2) fun _ kept => result (.apply operator kept)
  | conditional span test consequent alternate =>
      obtain ⟨_, everyTest, everyConsequent, everyAlternate⟩ := every
      exact bind (points.evaluate everyTest) fun _ _ =>
        ite (fun _ => points.evaluate everyConsequent) fun _ => points.evaluate everyAlternate
  | sequence span items =>
      exact bind (evaluateAll points every.2) fun _ kept => result (.sequence kept)
  | call span callee argumentsSpan arguments =>
      obtain ⟨near, _, everyArgument⟩ := every
      exact bind (evaluateAll points everyArgument) fun _ kept => callByName points near kept
  | member span object nameSpan name =>
      obtain ⟨near, everyObject, _⟩ := every
      exact bind (points.evaluate everyObject) fun _ kept => property points near kept name
  | method span object callSpan callee argumentsSpan arguments =>
      obtain ⟨near, everyObject, nearCall, _, everyArgument⟩ := every
      exact bind (points.evaluate everyObject) fun _ kept =>
        bind (evaluateAll points everyArgument) fun _ keptValues =>
          callMember points near kept nearCall keptValues
  | index span object key =>
      obtain ⟨near, everyObject, everyKey⟩ := every
      exact bind (points.evaluate everyObject) fun _ kept =>
        bind (points.evaluate everyKey) fun keyValue _ =>
          elementAt points near everyObject.span kept keyValue
  | await span operand => exact points.evaluate every.2
  | delete span nameSpan name =>
      refine bind (onVault (Vault.unfailing_unbind name)
        (Sources.invariant_stores.unbind name)) fun _ _ => ?_
      exact ite (fun _ => result .none) fun _ => failAt every.2 (by decide) _
  | construct span callSpan callee argumentsSpan arguments =>
      obtain ⟨_, nearCall, _, everyArgument⟩ := every
      exact bind (evaluateAll points everyArgument) fun _ keptValues =>
        bind (lookup points nearCall callee) fun _ kept =>
          callMember points nearCall kept nearCall keptValues

/-! ## Assignments -/

/-- The new value of a formula assignment is code for later, and every other one is evaluated at
once. -/
theorem newValue (points : recursion.Points sources) {operator : AssignOperator} {right : Expr}
    (every : right.EverySpan
      (if operator = .formula then sources.Defers else sources.Near place.file))
    {current : Eval Value}
    (pointsCurrent : Points sources place (Value.Keeps sources.Supplies) current) :
    Points sources place (Value.Keeps sources.Supplies)
      (Evaluator.newValue recursion operator right current) := by
  unfold Evaluator.newValue
  split
  case h_1 => exact bind origin fun _ _ => result (.formula every)
  case h_2 notFormula =>
    rw [if_neg notFormula] at every
    refine bind (points.evaluate every) fun rightValue kept => ?_
    split
    · exact result kept
    · exact bind pointsCurrent fun _ _ => applyBinary _ _ _

theorem assignName (points : recursion.Points sources) (near : sources.Near place.file span)
    (name : String) {operator : AssignOperator} {right : Expr}
    (every : right.EverySpan
      (if operator = .formula then sources.Defers else sources.Near place.file)) :
    Points sources place (fun _ => True)
      (Evaluator.assignName recursion span name operator right) := by
  refine bind (resolve near name) ?_
  rintro ⟨reference, _⟩ _
  refine bind (newValue points every ?_) fun value kept => ?_
  · exact bind machine fun _ stands =>
      dereference points near (stands.stored.2.read .none reference)
  · exact onVault (.update _) (Sources.invariant_stores.write reference kept)

theorem assignBinding (points : recursion.Points sources) (near : sources.Near place.file span)
    (handle : Handle) (name : String) {operator : AssignOperator} {right : Expr}
    (every : right.EverySpan
      (if operator = .formula then sources.Defers else sources.Near place.file)) :
    Points sources place (fun _ => True)
      (Evaluator.assignBinding recursion span handle name operator right) := by
  have query : Points sources place (fun _ => True) (Eval.queryAt span (·.lookup handle name)) :=
    queryAt near (fun _ _ => Vault.bare_lookup) fun _ _ _ _ => trivial
  refine bind (newValue points every ?_) fun value kept => ?_
  · refine bind query fun found _ => ?_
    cases found with
    | none => exact result .none
    | some _ => exact property points near (.scope handle) name
  · exact onVaultAt near (Vault.bare_defineIn handle name value)
      (Sources.invariant_stores.defineIn handle name kept)

theorem assignElement (points : recursion.Points sources) {target object : Expr}
    (nearTarget : sources.Near place.file target.span)
    (everyObject : object.EverySpan (sources.Near place.file)) {items : List Value}
    (kept : ∀ item ∈ items, item.Keeps sources.Supplies) (key : Value)
    {operator : AssignOperator} {right : Expr}
    (every : right.EverySpan
      (if operator = .formula then sources.Defers else sources.Near place.file)) :
    Points sources place (fun _ => True)
      (Evaluator.assignElement recursion target object items key operator right) := by
  unfold Evaluator.assignElement
  split
  case h_1 nameSpan name index selected =>
    have current : ((items[index]?).getD .none).Keeps sources.Supplies := by
      cases found : items[index]? with
      | none => exact .none
      | some item => exact kept item (List.mem_of_getElem? found)
    refine bind (newValue points every (result current)) fun value keptValue => ?_
    refine bind (resolve everyObject name) ?_
    rintro ⟨reference, _⟩ _
    have keptItems : ∀ item ∈ items.set index value, item.Keeps sources.Supplies := by
      intro item member
      rcases List.mem_or_eq_of_mem_set member with earlier | rfl
      · exact kept item earlier
      · exact keptValue
    exact onVault (.update _) (Sources.invariant_stores.write reference (.sequence keptItems))
  case h_2 => exact failAt nearTarget (by decide) _

theorem assign (points : recursion.Points sources) {target : Expr}
    (everyTarget : target.EverySpan (sources.Near place.file)) {operator : AssignOperator}
    {right : Expr}
    (every : right.EverySpan
      (if operator = .formula then sources.Defers else sources.Near place.file)) :
    Points sources place (fun _ => True) (Evaluator.assign recursion target operator right) := by
  cases target with
  | name span name => exact assignName points everyTarget name every
  | member span object nameSpan name =>
      obtain ⟨near, everyObject, _⟩ := everyTarget
      refine bind (points.evaluate everyObject) fun value _ => ?_
      cases value with
      | scope handle => exact assignBinding points near handle name every
      | _ => exact failAt everyObject.span (by decide) _
  | index span object key =>
      obtain ⟨near, everyObject, everyKey⟩ := everyTarget
      refine bind (points.evaluate everyObject) fun value kept => ?_
      refine bind (points.evaluate everyKey) fun keyValue _ => ?_
      cases kept with
      | scope handle => exact assignBinding points near handle keyValue.toText every
      | sequence keptItems => exact assignElement points near everyObject keptItems keyValue every
      | _ => exact failAt everyObject.span (by decide) _
  | method span object callSpan callee argumentsSpan arguments =>
      obtain ⟨_, everyObject, nearCall, _⟩ := everyTarget
      exact bind (points.evaluate everyObject) fun _ _ =>
        failAt nearCall (by decide) _
  | _ => exact failAt everyTarget.span (by decide) _

/-! ## Statements -/

/-- What ends a loop transfers what its round did. -/
theorem afterRound {flow next : Flow} (transfers : sources.Transfers here flow)
    (ended : Evaluator.afterRound flow = some next) : sources.Transfers here next := by
  cases transfers with
  | proceed | nextRound => cases ended
  | leaveLoop =>
      cases ended
      exact .proceed
  | result kept =>
      cases ended
      exact .result kept
  | thrown kept isHere =>
      cases ended
      exact .thrown kept isHere

theorem repeatRounds {round : Eval (Option Flow)}
    (points : Points sources place
      (fun ended => ∀ flow, ended = some flow → sources.Transfers here flow) round) (fuel : Nat) :
    Points sources place (sources.Transfers here) (Evaluator.repeatRounds round fuel) := by
  induction fuel with
  | zero => exact endless
  | succ fuel inductionHypothesis =>
      refine bind points fun ended transfers => ?_
      cases ended with
      | none => exact inductionHypothesis
      | some flow => exact result (transfers flow rfl)

/-- A round of a loop points into the file that its test and its body stand in. -/
theorem loopRound (points : recursion.Points sources) (fits : sources.Fits place here)
    {test? : Option Expr} (every : ∀ test, test? = some test → test.EverySpan here)
    {body : List Stmt} (placed : Stmt.PlacedAll here sources.Defers body) :
    Points sources place (fun ended => ∀ flow, ended = some flow → sources.Transfers here flow)
      (Evaluator.loopRound recursion test? body) := by
  have goOn : Points sources place
      (fun ended => ∀ flow, ended = some flow → sources.Transfers here flow) do
        return Evaluator.afterRound (← Eval.inBlock (recursion.execute body)) :=
    bind (inBlock (points.execute fits placed)) fun _ transfers =>
      result fun _ => afterRound transfers
  cases test? with
  | none => exact goOn
  | some test =>
      refine bind (points.evaluate (fits.near (every test rfl))) fun value _ => ?_
      refine bind (result trivial : Points sources place (fun _ => True) _) fun goesOn _ => ?_
      refine ite (fun _ => goOn) fun _ => result ?_
      rintro _ ⟨⟩
      exact .proceed

theorem runLoop (points : recursion.Points sources) (fits : sources.Fits place here)
    {test? : Option Expr} (every : ∀ test, test? = some test → test.EverySpan here)
    {body : List Stmt} (placed : Stmt.PlacedAll here sources.Defers body) :
    Points sources place (sources.Transfers here) (Evaluator.runLoop recursion test? body) :=
  inBlock (repeatRounds (loopRound points fits every placed) recursion.fuel)

theorem runRounds (points : recursion.Points sources) (fits : sources.Fits place here)
    (name : String) {body : List Stmt} (placed : Stmt.PlacedAll here sources.Defers body)
    {items : List Value} (kept : ∀ item ∈ items, item.Keeps sources.Supplies) :
    Points sources place (sources.Transfers here)
      (Evaluator.runRounds recursion name body items) := by
  induction items with
  | nil => exact result .proceed
  | cons item items inductionHypothesis =>
      obtain ⟨keptItem, keptItems⟩ := List.forall_mem_cons.1 kept
      refine bind (inBlock (bind (define name keptItem) fun _ _ => points.execute fits placed))
        fun flow transfers => ?_
      cases ended : Evaluator.afterRound flow with
      | none => exact inductionHypothesis keptItems
      | some next => exact result (afterRound transfers ended)

theorem itemsOf (near : sources.Near place.file span) {value : Value}
    (kept : value.Keeps sources.Supplies) :
    Points sources place (fun items => ∀ item ∈ items, item.Keeps sources.Supplies)
      (Evaluator.itemsOf span value) := by
  have texts {α : Type} (written : α → String) (parts : List α) :
      ∀ item ∈ parts.map fun part => Value.text (written part), item.Keeps sources.Supplies := by
    intro item member
    obtain ⟨part, _, rfl⟩ := List.mem_map.1 member
    exact .text _
  cases kept with
  | sequence keptItems => exact result keptItems
  | text text => exact result (texts _ text.toList)
  | scope handle =>
      have query : Points sources place (fun _ => True) (Eval.queryAt span (·.bindings handle)) :=
        queryAt near (fun _ _ => Vault.bare_bindings) fun _ _ _ _ => trivial
      exact bind query fun table _ => result (texts id table.names)
  | _ => exact failAt near (by decide) _

/-- A caught error is bound as a value and leads nowhere by itself. -/
theorem runAttempt (points : recursion.Points sources) (fits : sources.Fits place here)
    {body handler : List Stmt} (caught : String)
    (placed : Stmt.PlacedAll here sources.Defers body)
    (placedHandler : Stmt.PlacedAll here sources.Defers handler) :
    Points sources place (sources.Transfers here)
      (Evaluator.runAttempt recursion body caught handler) := by
  have handling := points.execute fits placedHandler
  refine bind (inBlock (points.execute fits placed)) fun flow transfers => ?_
  cases transfers with
  | thrown kept isHere =>
      refine inBlock (ite (fun _ => ?_) fun _ => handling)
      exact bind (define caught kept) fun _ _ => handling
  | proceed => exact result .proceed
  | leaveLoop => exact result .leaveLoop
  | nextRound => exact result .nextRound
  | result kept => exact result (.result kept)

/-- Only at the top level of a file a yield is refused, for there are no calls then. -/
theorem yieldValue (points : recursion.Points sources) (fits : sources.Fits place here)
    (isHere : here span) {argument : Option Expr}
    (every : ∀ expr, argument = some expr → expr.EverySpan here) :
    Points sources place (fun _ => True) (Evaluator.yieldValue recursion span argument) := by
  have yields : Points sources place (fun _ => True) (do
      let value ← Evaluator.evaluateOptional recursion argument
      Eval.yielding value) :=
    bind (evaluateOptional points fun expr given => fits.near (every expr given))
      fun _ kept => yielding kept
  refine bind machine fun current stands => ite (fun outside => ?_) fun _ => yields
  have noCalls : place.calls = 0 := by
    rw [← stands.calls, List.isEmpty_iff.1 outside]
    rfl
  obtain ⟨near, own⟩ := fits span isHere
  exact bind (failAt_own near.1 (own noCalls) _ _) fun (_ : Unit) (_ : True) => yields

theorem uncaught {P : α → Prop} (opened : sources.Opens place.file)
    (own : span ∈ place.file.spans) (value : Value) :
    Points sources place P (Evaluator.uncaught value span : Eval α) :=
  bind (display value) fun _ _ => failAt_own opened own _ _

theorem freshOrigin : Points sources place (fun _ => True) Evaluator.freshOrigin :=
  bind machine fun _ _ => bind (update (fun _ => rfl) (fun _ => rfl) fun _ => rfl) fun _ _ =>
    result trivial

/-- The top level of a file. -/
theorem topLevel (points : recursion.Points sources) {file : SourceFile}
    (opened : sources.Opens file) {program : Program}
    (parsed : Program.parse file.path file.source = .ok program) (origin : Origin)
    (outer : List SourceFile) (calls : Nat) :
    Points sources ⟨file, outer, calls⟩ (sources.Transfers (· ∈ file.spans))
      (Eval.within origin (recursion.execute program.body)) :=
  within origin (points.execute (opened.fits outer calls) (opened.placed parsed))

/-- An imported program is run with its own file on top, and its diagnostics point there. -/
theorem runImported (points : recursion.Points sources) (near : sources.Near place.file span)
    (source name : String) {path text : String} (opened : sources.Opens ⟨path, text⟩)
    {program : Program} (parsed : Program.parse path text = .ok program) :
    Points sources place (fun _ => True)
      (Evaluator.runImported recursion span source path text name program) := by
  refine bind freshOrigin fun origin _ => deeper near (inDeclaration name ?_)
  refine bind (define _ (.text path)) fun _ _ => ?_
  refine bind (define _ (.text name)) fun _ _ => ?_
  refine bind (define _ (.text source)) fun _ _ => inFile _ ?_
  refine bind (topLevel points opened parsed origin _ _) fun flow transfers => ?_
  cases transfers with
  | @thrown value _ _ own =>
      apply uncaught
      · exact opened
      · exact own
  | _ => exact result trivial

/-- What is wrong with an import is told at the import, except for what its text says. -/
theorem importFile (points : recursion.Points sources) (near : sources.Near place.file span)
    (source aliasName : String) :
    Points sources place (fun _ => True)
      (Evaluator.importFile recursion span source aliasName) := by
  refine bind machine fun current _ => ?_
  refine bind (update (fun _ => rfl) (fun _ => rfl) fun _ => rfl) fun _ _ => ?_
  refine bind config fun config files => ?_
  generalize Evaluator.importPath current source = path
  cases read : config.files path with
  | error error => exact update (fun _ => rfl) (fun _ => rfl) fun _ => rfl
  | ok text =>
      rw [files] at read
      cases parsed : Program.parse path text with
      | error diagnostic =>
          simp only [parsed]
          refine fail fun notLexical notGrammar => ?_
          exact ((Program.kind_of_refused parsed).elim notLexical notGrammar).elim
      | ok program =>
          simp only [parsed]
          exact runImported points near source _ (.inr read : sources.Opens ⟨path, text⟩) parsed

/-- Each kind of statement points into the file it stands in. -/
theorem executeOne (points : recursion.Points sources) (fits : sources.Fits place here)
    {statement : Stmt} (placed : statement.Placed here sources.Defers) :
    Points sources place (sources.Transfers here) (Evaluator.executeOne recursion statement) := by
  cases statement with
  | evaluate span expr =>
      exact bind (points.evaluate (fits.near placed.2)) fun _ _ =>
        proceeding (update (fun _ => rfl) (fun _ => rfl) fun _ => rfl)
  | declare span name initial isFormula =>
      have every := fits.near_unless placed.2
      cases isFormula with
      | true => exact bind origin fun _ _ => proceeding (define name (.formula every))
      | false => exact bind (points.evaluate every) fun _ kept => proceeding (define name kept)
  | function span name parameters body isAsync =>
      exact bind origin fun _ _ => proceeding (define name (.function placed.2))
  | scope span name body => exact declareScope name false (points.execute fits placed.2)
  | context span name body => exact declareScope name true (points.execute fits placed.2)
  | block span body => exact inBlock (points.execute fits placed.2)
  | conditional span test consequentSpan consequent alternate =>
      obtain ⟨_, every, placedConsequent, placedAlternate⟩ := placed
      refine bind (points.evaluate (fits.near every)) fun _ _ => ite (fun _ => ?_) fun _ => ?_
      · exact inBlock (points.execute fits placedConsequent)
      · cases alternate with
        | none => exact result .proceed
        | some statement => exact points.execute fits ⟨placedAlternate, trivial⟩
  | whileLoop span test bodySpan body =>
      obtain ⟨_, every, placedBody⟩ := placed
      refine runLoop points fits ?_ placedBody
      rintro _ ⟨⟩
      exact every
  | loop span bodySpan body =>
      refine runLoop points fits ?_ placed.2
      exact nofun
  | forEach span name iterable bodySpan body =>
      obtain ⟨_, every, placedBody⟩ := placed
      have everyNear := fits.near every
      exact inBlock (bind (points.evaluate everyNear) fun _ kept =>
        bind (itemsOf everyNear.span kept) fun _ keptItems =>
          runRounds points fits name placedBody keptItems)
  | attempt span bodySpan body caught handlerSpan handler =>
      exact runAttempt points fits caught placed.2.1 placed.2.2
  | assign span target operator right =>
      obtain ⟨_, everyTarget, every⟩ := placed
      exact proceeding (assign points (fits.near everyTarget) (fits.near_unless every))
  | imports span source aliasName =>
      exact proceeding (importFile points (fits span placed).1 source aliasName)
  | returns span argument =>
      refine bind (evaluateOptional points fun expr given => ?_) fun _ kept => result (.result kept)
      exact fits.near (placed.2 expr given)
  | throws span argument =>
      obtain ⟨isHere, every⟩ := placed
      exact bind (points.evaluate (fits.near every)) fun _ kept => result (.thrown kept isHere)
  | breaks span => exact result .leaveLoop
  | continues span => exact result .nextRound
  | yields span argument => exact proceeding (yieldValue points fits placed.1 placed.2)

theorem executeStep (points : recursion.Points sources) (fits : sources.Fits place here)
    {statements : List Stmt} (placed : Stmt.PlacedAll here sources.Defers statements) :
    Points sources place (sources.Transfers here)
      (Evaluator.executeStep recursion statements) := by
  induction statements with
  | nil => exact result .proceed
  | cons statement statements inductionHypothesis =>
      exact executeStep_cons (executeOne points fits placed.1) (inductionHypothesis placed.2)

end Eval.Points

/-- Evaluation points to nodes, however much fuel there is. -/
theorem Evaluator.points (sources : Sources) (fuel : Nat) :
    (Evaluator.recursion fuel).Points sources := by
  induction fuel with
  | zero => exact ⟨fun _ => .endless, fun _ _ => .endless, fun _ => .endless⟩
  | succ fuel inductionHypothesis =>
      refine ⟨.evaluateStep inductionHypothesis, fun fits placed => ?_, fun place => ?_⟩
      · exact .executeStep inductionHypothesis fits placed
      · rw [Evaluator.execute_succ]
        exact .executeStep_of_isFunction Prelude.statements_isFunction fun _ => .inr

end ScopeScript
