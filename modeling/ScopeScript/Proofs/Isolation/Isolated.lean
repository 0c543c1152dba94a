import ScopeScript.Proofs.Evaluator.Lifetime
import ScopeScript.Proofs.Isolation.Steady
import ScopeScript.Proofs.Vault.Untouched

/-!
# Isolated states

A state is compared with the store at an earlier time. It is isolated from it if the records of that
time are untouched, the scopes that are open are known, and all values are steady. A scope that is
entered, declared or created since is young, which means that it was not live at that time. Leaving
young scopes and binding names in them leads to isolated states again, and so does creating new ones
as long as the numbers of the slots fit.
-/

namespace ScopeScript

/-- The records of an earlier store are untouched, and all values are steady. -/
structure Machine.Isolated (before : Vault) (openings : List Opening) (machine : Machine) :
    Prop where
  tidy : machine.Tidy openings
  untouched : before.Untouched machine.vault
  steady : machine.Steady

/-- Where a computation of a level may be run: statements bind names in the innermost scope, which
must not be one of the earlier store. -/
def Level.Binds (before : Vault) : Level → List Opening → Prop
  | .expression, _ => True
  | .statement, openings => ∀ opening ∈ openings.head?, before.isLive opening.record = false

theorem Level.binds_cons (level : Level) {before : Vault} {opening : Opening}
    (young : before.isLive opening.record = false) (openings : List Opening) :
    level.Binds before (opening :: openings) := by
  cases level with
  | expression => trivial
  | statement =>
      rintro _ ⟨⟩
      exact young

/-- If there is a result, it has a property. -/
def Outcome.Gives (P : α → Prop) : Outcome α → Prop
  | .done value => P value
  | _ => True

theorem Outcome.gives_any (outcome : Outcome α) : outcome.Gives fun _ => True := by
  cases outcome <;> trivial

theorem Eval.onVaultAt_eq_of_failed (span : Span) (context : Context) (machine : Machine)
    {operation : Run Vault α} {diagnostic : Diagnostic}
    (refused : operation machine.vault = (.failed diagnostic, machine.vault)) :
    onVaultAt span operation context machine =
      (.failed (machine.locate span diagnostic), machine) := by
  rw [onVaultAt, onVault_apply, refused]

namespace Machine.Isolated

open Eval (onVault onVaultAt onVault_eq_of_done)

variable {before : Vault} {openings : List Opening} {machine after : Machine}

/-- A change beside the store. -/
theorem beside (isolated : machine.Isolated before openings) (vault : after.vault = machine.vault)
    (firstCrash? : after.firstCrash? = machine.firstCrash?)
    (yielded : ∀ values ∈ after.activations, ∀ value ∈ values, value.Steady) :
    after.Isolated before openings where
  tidy := by
    refine ⟨isolated.tidy.someOpen, ?_, firstCrash?.trans isolated.tidy.uncrashed⟩
    rw [vault]
    exact isolated.tidy.forest
  untouched := by
    rw [vault]
    exact isolated.untouched
  steady := by
    refine ⟨?_, yielded⟩
    rw [vault]
    exact isolated.steady.stored

/-- A change of the store. -/
theorem onVault {later : List Opening} (isolated : machine.Isolated before openings)
    (someOpen : later ≠ []) {operation : Run Vault α} {P : α → Prop} {outcome : Outcome α}
    {vault : Vault} (ran : operation machine.vault = (outcome, vault))
    (forest : vault.Forest later) (untouched : before.Untouched vault)
    (ensures : Run.Ensures (Vault.Holds Value.Steady) P operation) :
    Machine.Isolated before later { machine with vault } where
  tidy := ⟨someOpen, forest, isolated.tidy.uncrashed⟩
  untouched := untouched
  steady := by
    have stored := (ensures machine.vault isolated.steady.stored).1
    rw [ran] at stored
    exact ⟨stored, isolated.steady.yielded⟩

/-- What is made of the bindings of a record without any change. -/
theorem onBindings (isolated : machine.Isolated before openings) (span : Span) (handle : Handle)
    (context : Context) {next : Table → Eval α} {P : α → Prop}
    (gives : ∀ {table}, table.Holds Value.Steady → ∃ value, next table = pure value ∧ P value) :
    ((Eval.queryAt span (·.bindings handle) >>= next) context machine).2.Isolated before openings ∧
      ((Eval.queryAt span (·.bindings handle) >>= next) context machine).1.Gives P := by
  rw [Eval.bind_apply, Eval.queryAt]
  cases found : machine.vault.bindings handle with
  | ok table =>
      obtain ⟨value, only, holds⟩ := gives (isolated.steady.stored.bindings found)
      dsimp only
      rw [only]
      exact ⟨isolated, holds⟩
  | error diagnostic => exact ⟨isolated, trivial⟩

/-! ## Entering -/

/-- A block that is entered is young. -/
theorem enter (isolated : machine.Isolated before openings) {kind : FrameKind}
    (isBlock : kind = .block ∨ kind = .boxed) (context : Context) :
    ∃ handle opened, Eval.onVault (Vault.enter kind) context machine = (.done handle, opened) ∧
      (opened.vault.Fits → opened.Isolated before (.entered kind handle :: openings) ∧
        before.isLive handle = false) := by
  have tidy := isolated.tidy
  obtain ⟨handle, vault, entered, forest⟩ := tidy.forest.enter isBlock
  refine ⟨handle, _, onVault_eq_of_done context machine entered, fun fits => ?_⟩
  obtain ⟨untouched, young⟩ := isolated.untouched.enter tidy.forest tidy.someOpen entered fits
  exact ⟨isolated.onVault (List.cons_ne_nil _ _) entered (forest fits) untouched
    ((Vault.invariant_holds _).enter kind), young⟩

/-- A scope that is declared is young. -/
theorem declare (isolated : machine.Isolated before openings) (name : String)
    (context : Context) :
    ∃ handle opened, Eval.onVault (Vault.declare name) context machine = (.done handle, opened) ∧
      (opened.vault.Fits → opened.Isolated before (.declaration handle :: openings) ∧
        before.isLive handle = false) := by
  have tidy := isolated.tidy
  obtain ⟨handle, vault, declared, forest⟩ := tidy.forest.declare tidy.someOpen name
  refine ⟨handle, _, onVault_eq_of_done context machine declared, fun fits => ?_⟩
  obtain ⟨untouched, young⟩ := isolated.untouched.declare tidy.forest tidy.someOpen declared fits
  exact ⟨isolated.onVault (List.cons_ne_nil _ _) declared (forest fits) untouched
    ((Vault.invariant_holds _).declare name), young⟩

theorem enterNamed (isolated : machine.Isolated before openings) (span : Span) (handle : Handle)
    (context : Context) :
    (∃ opened, onVaultAt span (Vault.enterNamed handle) context machine = (.done (), opened) ∧
      opened.Isolated before (.visit handle :: openings)) ∨
    ∃ diagnostic, onVaultAt span (Vault.enterNamed handle) context machine =
      (.failed diagnostic, machine) := by
  rcases isolated.tidy.forest.enterNamed handle with ⟨vault, entered, forest⟩ | ⟨_, refused⟩
  · refine .inl ⟨_, Eval.onVaultAt_eq_of_done span context machine entered, ?_⟩
    refine isolated.onVault (List.cons_ne_nil _ _) entered forest ?_
      ((Vault.invariant_holds _).enterNamed handle)
    cases found : machine.vault.record? handle with
    | none =>
        obtain ⟨_, refused, _⟩ := Vault.find_of_none found
        cases entered.symm.trans (Vault.enterNamed_of_none refused)
    | some record =>
        cases entered.symm.trans (Vault.enterNamed_of_some found)
        exact isolated.untouched.congr rfl
  · exact .inr ⟨_, Eval.onVaultAt_eq_of_failed span context machine refused⟩

/-- A scope that is created is young. -/
theorem createOwned (isolated : machine.Isolated before openings) (span : Span)
    (owner : Handle) (name : String) (context : Context)
    (fits : (onVaultAt span (Vault.createOwned owner name) context machine).2.vault.Fits) :
    (onVaultAt span (Vault.createOwned owner name) context machine).2.Isolated before openings ∧
      (onVaultAt span (Vault.createOwned owner name) context machine).1.Gives fun handle =>
        before.isLive handle = false := by
  have tidy := isolated.tidy
  rcases tidy.forest.createOwned owner name with ⟨handle, vault, created, forest⟩ | ⟨_, refused⟩
  · rw [Eval.onVaultAt_eq_of_done span context machine created] at fits ⊢
    obtain ⟨untouched, young⟩ :=
      isolated.untouched.createOwned tidy.forest.consistent created fits
    exact ⟨isolated.onVault tidy.someOpen created (forest fits) untouched
      ((Vault.invariant_holds _).createOwned owner name), young⟩
  · rw [Eval.onVaultAt_eq_of_failed span context machine refused]
    exact ⟨isolated, trivial⟩

/-! ## Binding -/

theorem define (isolated : machine.Isolated before openings)
    (binds : Level.statement.Binds before openings) (name : String) {value : Value}
    (steady : value.Steady) (context : Context) :
    ∃ bound, Eval.define name value context machine = (.done (), bound) ∧
      bound.Isolated before openings := by
  have tidy := isolated.tidy
  obtain ⟨vault, defined, forest⟩ := tidy.forest.define tidy.someOpen name value
  obtain ⟨opening, rest, rfl⟩ := List.exists_cons_of_ne_nil tidy.someOpen
  have untouched := isolated.untouched.define tidy.forest.frames
    (tidy.forest.active opening List.mem_cons_self) (binds opening rfl) name value
  rw [defined] at untouched
  exact ⟨_, onVault_eq_of_done context machine defined,
    isolated.onVault tidy.someOpen defined forest untouched
      ((Vault.invariant_holds _).define name steady)⟩

/-- The methods of a box are routines. -/
theorem defineMethods (isolated : machine.Isolated before openings)
    (binds : Level.statement.Binds before openings) (methods : List (String × Native))
    (context : Context) :
    ∃ filled, Evaluator.defineMethods methods context machine = (.done (), filled) ∧
      filled.Isolated before openings := by
  induction methods generalizing machine with
  | nil => exact ⟨machine, rfl, isolated⟩
  | cons method methods inductionHypothesis =>
      obtain ⟨bound, defined, isolatedBound⟩ :=
        isolated.define binds method.1 (.native _) context
      obtain ⟨filled, rest, kept⟩ := inductionHypothesis isolatedBound
      exact ⟨filled, (Eval.bind_of_done defined _).trans rest, kept⟩

theorem bindParameters (isolated : machine.Isolated before openings)
    (binds : Level.statement.Binds before openings) (names : List String) {values : List Value}
    (steady : ∀ value ∈ values, value.Steady) (context : Context) :
    ∃ filled, Evaluator.bindParameters names values context machine = (.done (), filled) ∧
      filled.Isolated before openings := by
  induction names generalizing values machine with
  | nil => exact ⟨machine, rfl, isolated⟩
  | cons name names inductionHypothesis =>
      cases values with
      | nil => exact ⟨machine, rfl, isolated⟩
      | cons value values =>
          obtain ⟨first, rest⟩ := List.forall_mem_cons.1 steady
          obtain ⟨bound, defined, isolatedBound⟩ := isolated.define binds name first context
          obtain ⟨filled, ran, kept⟩ := inductionHypothesis isolatedBound rest
          exact ⟨filled, (Eval.bind_of_done defined _).trans ran, kept⟩

theorem defineIn (isolated : machine.Isolated before openings) {handle : Handle}
    (young : before.isLive handle = false) {name : String} (named : name ≠ "") {value : Value}
    (steady : value.Steady) (context : Context) :
    (Eval.onVault (Vault.defineIn handle name value) context machine).2.Isolated before
      openings := by
  have tidy := isolated.tidy
  obtain ⟨outcome, vault, defined, _, forest⟩ := tidy.forest.defineIn handle value named
  have untouched := isolated.untouched.defineIn young named value
  rw [defined] at untouched
  rw [Eval.onVault_apply, defined]
  exact isolated.onVault tidy.someOpen defined forest untouched
    ((Vault.invariant_holds _).defineIn handle name steady)

/-! ## Leaving -/

theorem leave {kind : FrameKind} (isBlock : kind = .block ∨ kind = .boxed) {handle : Handle}
    (isolated : machine.Isolated before (.entered kind handle :: openings))
    (someOpen : openings ≠ []) (young : before.isLive handle = false) {context : Context}
    (left : Eval.onVault (Vault.leave kind) context machine = (.done (), after)) :
    after.Isolated before openings := by
  have tidy := isolated.tidy
  obtain ⟨vault, exited, forest⟩ := Vault.Forest.leave isBlock tidy.forest
  have frames : machine.vault.frames = ⟨kind, handle⟩ :: openings.map Opening.frame := by
    rw [tidy.forest.frames, List.map_cons, Opening.frame, Opening.kind_entered isBlock,
      Opening.record_entered]
  cases left.symm.trans (onVault_eq_of_done context machine exited)
  exact isolated.onVault someOpen exited forest (isolated.untouched.leave frames young exited)
    ((Vault.invariant_holds _).leave kind)

theorem exitNamed {handle : Handle} (isolated : machine.Isolated before (.visit handle :: openings))
    (someOpen : openings ≠ []) {context : Context}
    (left : Eval.onVault Vault.exitNamed context machine = (.done (), after)) :
    after.Isolated before openings := by
  have tidy := isolated.tidy
  obtain ⟨vault, exited, forest⟩ := tidy.forest.exitNamed
  cases left.symm.trans (onVault_eq_of_done context machine exited)
  refine isolated.onVault someOpen exited forest ?_ (Vault.invariant_holds _).exitNamed
  cases exited.symm.trans (Vault.exitNamed_of_cons tidy.forest.frames)
  exact isolated.untouched.congr rfl

theorem endDeclaration {handle : Handle}
    (isolated : machine.Isolated before (.declaration handle :: openings))
    (young : before.isLive handle = false) (someOpen : openings ≠ [])
    (binds : Level.statement.Binds before openings) {name : String} {context : Context}
    (ended : Eval.onVault (Vault.endDeclaration handle name) context machine = (.done (), after)) :
    after.Isolated before openings := by
  have tidy := isolated.tidy
  have ran := Eval.onVault_of_done ended
  obtain ⟨opening, rest, rfl⟩ := List.exists_cons_of_ne_nil someOpen
  have untouched := isolated.untouched.endDeclaration young tidy.forest.frames
    (tidy.forest.active opening (by simp)) (binds opening rfl) ran
  have ends : (Eval.onVault _ context machine).2.Ends _ _ :=
    Eval.Orderly.endingDeclaration name someOpen tidy
  rw [ended] at ends
  have same : after = { machine with vault := after.vault } :=
    congrArg Prod.snd (ended.symm.trans (onVault_eq_of_done context machine ran))
  rw [same]
  exact isolated.onVault someOpen ran ends.forest untouched
    ((Vault.invariant_holds _).endDeclaration handle name (.scope handle))

end Machine.Isolated

end ScopeScript
