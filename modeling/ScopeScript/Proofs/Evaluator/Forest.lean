import ScopeScript.Proofs.Evaluator.Balance
import ScopeScript.Proofs.Evaluator.Widening
import ScopeScript.Proofs.Vault.Forest

/-!
# Evaluations keep the forest of scopes

While at least the global scope is open, evaluations neither crash nor lose track of the scopes,
with one exception: a binding without a name is a crash. An evaluation that comes to its own end
leaves the same scopes open as before and the records in a forest. One that crashes has attempted a
binding without a name, and this is the first crash, whatever crashes follow from it on the way out.
All this holds as long as the numbers of the slots fit: they do so at the end, and then they have
done so on the way.

This is a closed property of computations (`Eval.closed_orderly`); each bracket of the evaluator
opens and closes one scope of the forest.
-/

namespace ScopeScript

/-- The scopes that are open are known, and no crash is on the record. -/
structure Machine.Tidy (openings : List Opening) (machine : Machine) : Prop where
  someOpen : openings ≠ []
  forest : machine.vault.Forest openings
  uncrashed : machine.firstCrash? = none

/-- How a computation may end: tidy, or by a crash that began with a binding without a name. -/
def Machine.Ends (openings : List Opening) (machine : Machine) : Outcome α → Prop
  | .done _ | .failed _ => machine.Tidy openings
  | .crashed crash => machine.firstCrash?.getD crash = .namelessBinding
  | .endless => machine.firstCrash?.getD .namelessBinding = .namelessBinding

/-- What has returned is tidy. -/
theorem Machine.Ends.tidy {machine : Machine} {openings : List Opening} {outcome : Outcome α}
    (ends : machine.Ends openings outcome) (returned : outcome.Returned) :
    machine.Tidy openings := by
  cases outcome with
  | done value => exact ends
  | failed diagnostic => exact ends
  | crashed crash => cases returned
  | endless => cases returned

/-- Between entries and exits the forest stays as it is, unless the empty name is to be bound. -/
theorem Vault.Plain.forest {operation : Run Vault α} (plain : Vault.Plain operation)
    {vault : Vault} {openings : List Opening} (forest : vault.Forest openings)
    (someOpen : openings ≠ []) :
    (∃ outcome after, operation vault = (outcome, after) ∧ outcome.Returned ∧
      after.Forest openings) ∨
    ∃ after, operation vault = (.crashed .namelessBinding, after) := by
  cases plain with
  | resolve name =>
      obtain ⟨outcome, resolved, returned⟩ := forest.resolve name
      exact .inl ⟨outcome, vault, resolved, returned, forest⟩
  | define name value =>
      obtain ⟨after, defined, kept⟩ := forest.define someOpen name value
      exact .inl ⟨_, after, defined, .done _, kept⟩
  | defineIn handle name value =>
      by_cases named : name = ""
      · subst named
        cases found : vault.record? handle with
        | none =>
            obtain ⟨diagnostic, refused, _⟩ := Vault.find_of_none found
            exact .inl ⟨_, vault, Vault.defineIn_of_none "" value refused, .failed _, forest⟩
        | some record =>
            exact .inr ⟨vault,
              (Vault.defineIn_of_some "" value found).trans (Vault.rebind_empty handle value)⟩
      · exact .inl (forest.defineIn handle value named)
  | write reference value =>
      obtain ⟨after, written, kept⟩ := forest.write reference value
      exact .inl ⟨_, after, written, .done _, kept⟩
  | unbind name =>
      obtain ⟨removed, after, unbound, kept⟩ := forest.unbind name
      exact .inl ⟨_, after, unbound, .done _, kept⟩
  | eraseIn handle name => exact .inl (forest.eraseIn handle name)
  | clearIn handle =>
      obtain ⟨after, cleared, kept⟩ := forest.clearIn handle
      exact .inl ⟨_, after, cleared, .done _, kept⟩

namespace Eval

/-- A computation that begins tidy ends tidy, or in a crash over a binding without a name, as long
as the numbers of the slots fit. -/
structure Orderly (computation : Eval α) : Prop where
  widens : computation.Widens
  ends : ∀ context machine openings, machine.Tidy openings →
    (computation context machine).2.vault.Fits →
    (computation context machine).2.Ends openings (computation context machine).1

/-- A computation leaves the record of the first crash alone. -/
def Incurious (computation : Eval α) : Prop :=
  ∀ context machine, (computation context machine).2.firstCrash? = machine.firstCrash?

namespace Orderly

variable {α β : Type}

/-- The first part ends with fitting numbers because the whole does. -/
theorem bind {first : Eval α} {next : α → Eval β} (firstOrderly : first.Orderly)
    (nextOrderly : ∀ value, (next value).Orderly) : (first >>= next).Orderly where
  widens := .bind firstOrderly.widens fun value => (nextOrderly value).widens
  ends context machine openings tidy := by
    have ends := firstOrderly.ends context machine openings tidy
    rw [bind_apply]
    generalize first context machine = ran at ends ⊢
    obtain ⟨outcome, middle⟩ := ran
    cases outcome with
    | done value =>
        intro fits
        have endsInside := ends ((nextOrderly value).widens.fits fits)
        exact (nextOrderly value).ends context middle openings endsInside fits
    | failed diagnostic => exact ends
    | crashed crash => exact ends
    | endless => exact ends

/-- Going on after a diagnostic is orderly if both ways are. -/
theorem resume {first : Eval α} {next : α → Eval β} {otherwise : Eval β}
    (firstOrderly : first.Orderly) (nextOrderly : ∀ value, (next value).Orderly)
    (otherwiseOrderly : otherwise.Orderly) :
    (first.resume next otherwise).Orderly where
  widens :=
    .resume firstOrderly.widens (fun value => (nextOrderly value).widens) otherwiseOrderly.widens
  ends context machine openings tidy := by
    have ends := firstOrderly.ends context machine openings tidy
    unfold Eval.resume
    generalize first context machine = ran at ends ⊢
    obtain ⟨outcome, middle⟩ := ran
    cases outcome with
    | done value =>
        intro fits
        have endsInside := ends ((nextOrderly value).widens.fits fits)
        exact (nextOrderly value).ends context middle openings endsInside fits
    | failed diagnostic =>
        intro fits
        have endsInside := ends (otherwiseOrderly.widens.fits fits)
        exact otherwiseOrderly.ends context middle openings endsInside fits
    | crashed crash => exact ends
    | endless => exact ends

theorem queryAt (span : Span) (query : Vault → Except Diagnostic α) :
    (Eval.queryAt span query).Orderly where
  widens := .queryAt span query
  ends context machine openings tidy _ := by
    unfold Eval.queryAt
    split <;> exact tidy

/-- An operation between entries and exits keeps the forest or binds the empty name. -/
theorem onVault {operation : Run Vault α} (plain : Vault.Plain operation) :
    (Eval.onVault operation).Orderly where
  widens := .onVault plain.widens
  ends context machine openings tidy _ := by
    rw [onVault_apply]
    rcases plain.forest tidy.forest tidy.someOpen with
      ⟨outcome, after, ran, returned, kept⟩ | ⟨after, crashed⟩
    · rw [ran]
      cases outcome with
      | done value => exact ⟨tidy.someOpen, kept, tidy.uncrashed⟩
      | failed diagnostic => exact ⟨tidy.someOpen, kept, tidy.uncrashed⟩
      | crashed crash => cases returned
      | endless => cases returned
    · rw [crashed]
      simp [Machine.Ends, tidy.uncrashed]

/-- That diagnostics of the store are given a place makes no difference. -/
theorem located (span : Span) {operation : Run Vault α} (widens : operation.Widens)
    (orderly : (Eval.onVault operation).Orderly) :
    (Eval.onVaultAt span operation).Orderly where
  widens := .onVaultAt span widens
  ends context machine openings tidy := by
    have ends := orderly.ends context machine openings tidy
    unfold Eval.onVaultAt
    generalize Eval.onVault operation context machine = ran at ends ⊢
    obtain ⟨outcome, after⟩ := ran
    cases outcome with
    | done value => exact ends
    | failed diagnostic => exact ends
    | crashed crash => exact ends
    | endless => exact ends

theorem owner : (Eval.onVault Vault.owner).Orderly where
  widens := .onVault Vault.widens_owner
  ends context machine openings tidy _ := by
    obtain ⟨handle, found⟩ := tidy.forest.owner tidy.someOpen
    rw [onVault_apply, found]
    exact ⟨tidy.someOpen, tidy.forest, tidy.uncrashed⟩

/-- A scope that is created keeps the forest, and a refusal changes nothing. -/
theorem createOwned (owner : Handle) (name : String) :
    (Eval.onVault (Vault.createOwned owner name)).Orderly where
  widens := .onVault (Vault.widens_createOwned owner name)
  ends context machine openings tidy := by
    rw [onVault_apply]
    rcases tidy.forest.createOwned owner name with ⟨handle, after, created, kept⟩ | ⟨_, refused⟩
    · rw [created]
      exact fun fits => ⟨tidy.someOpen, kept fits, tidy.uncrashed⟩
    · rw [refused]
      exact fun _ => ⟨tidy.someOpen, tidy.forest, tidy.uncrashed⟩

theorem founding {next : Handle → Handle → Eval α} (span : Span) (outer inner : String)
    (nextOrderly : ∀ scope part, (next scope part).Orderly) :
    (Eval.founding span outer inner next).Orderly := by
  refine bind owner fun parent => ?_
  refine bind (located span (Vault.widens_createOwned parent outer)
    (createOwned parent outer)) fun scope => ?_
  exact bind (located span (Vault.widens_createOwned scope inner)
    (createOwned scope inner)) fun part => nextOrderly scope part

theorem aside {change : Machine → Machine}
    (same : ∀ machine : Machine, machine.Aside (change machine)) :
    (Eval.update change).Orderly where
  widens := .update fun machine => (same machine).vault
  ends context machine openings tidy _ := by
    have kept : (change machine).vault.Forest openings := by
      rw [(same machine).vault]
      exact tidy.forest
    exact ⟨tidy.someOpen, kept, (same machine).firstCrash?.trans tidy.uncrashed⟩

/-! ## Brackets -/

/-- What closes a bracket when the body has come to its own end. -/
theorem finishing {atEnd : Eval Unit} {outcome : Outcome α} {context : Context}
    {machine : Machine} {openings : List Opening} (returned : outcome.Returned)
    (fits : (Eval.finishing atEnd outcome context machine).2.vault.Fits)
    (closing : (atEnd context machine).2.vault.Fits →
      (atEnd context machine).2.Ends openings (atEnd context machine).1) :
    (Eval.finishing atEnd outcome context machine).2.Ends openings
      (Eval.finishing atEnd outcome context machine).1 := by
  rw [finishing_snd] at fits
  replace closing := closing fits
  unfold Eval.finishing
  generalize atEnd context machine = ran at closing ⊢
  obtain ⟨ended, after⟩ := ran
  cases ended with
  | done value =>
      cases outcome with
      | done value => exact closing
      | failed diagnostic => exact closing
      | crashed crash => cases returned
      | endless => cases returned
  | failed diagnostic => exact closing
  | crashed crash => exact closing
  | endless => exact closing

/-- What is done at the end of a body that has crashed does not cover up how the crash began. -/
theorem finishing_of_crashed {atEnd : Eval Unit} (unfailing : atEnd.Unfailing)
    (incurious : atEnd.Incurious) {crash : Crash} {context : Context} {machine : Machine}
    (openings : List Opening) (cause : machine.firstCrash?.getD crash = .namelessBinding) :
    (Eval.finishing atEnd (.crashed crash : Outcome α) context
        (machine.noting (.crashed crash : Outcome α))).2.Ends openings
      (Eval.finishing atEnd (.crashed crash : Outcome α) context
        (machine.noting (.crashed crash : Outcome α))).1 := by
  have noted : (machine.noting (.crashed crash : Outcome α)).firstCrash? =
      some .namelessBinding := by
    unfold Machine.noting
    cases first : machine.firstCrash? with
    | none => simpa [first] using cause
    | some earlier => simpa [first] using cause
  have kept := incurious context (machine.noting (.crashed crash : Outcome α))
  have notFailed := unfailing context (machine.noting (.crashed crash : Outcome α))
  rw [noted] at kept
  unfold Eval.finishing
  generalize atEnd context (machine.noting (.crashed crash : Outcome α)) = ran
    at kept notFailed ⊢
  obtain ⟨ended, after⟩ := ran
  have began : ∀ later, after.firstCrash?.getD later = .namelessBinding := by
    intro later
    rw [show after.firstCrash? = some .namelessBinding from kept]
    rfl
  cases ended with
  | done value => exact began _
  | failed diagnostic => exact absurd rfl (notFailed diagnostic)
  | crashed later => exact began _
  | endless => exact began _

/-- A body is evaluated inside a bracket that has been opened; the whole is orderly if closing the
bracket is. -/
theorem ensuring {body : Eval α} {atEnd : Eval Unit} (bodyOrderly : body.Orderly)
    (endWidens : atEnd.Widens) (unfailing : atEnd.Unfailing) (incurious : atEnd.Incurious)
    {context : Context} {opened : Machine} {inner outer : List Opening} (tidy : opened.Tidy inner)
    (fits : (Eval.ensuring body atEnd context opened).2.vault.Fits)
    (closing : ∀ {after : Machine}, after.Tidy inner → (atEnd context after).2.vault.Fits →
      (atEnd context after).2.Ends outer (atEnd context after).1) :
    (Eval.ensuring body atEnd context opened).2.Ends outer
      (Eval.ensuring body atEnd context opened).1 := by
  have ends := bodyOrderly.ends context opened inner tidy
  cases ran : body context opened with
  | mk outcome middle =>
      rw [ran] at ends
      cases outcome with
      | done value =>
          rw [ensuring_of_body ran (.done _)] at fits ⊢
          exact finishing (.done _) fits (closing (ends ((Widens.finishing endWidens _).fits fits)))
      | failed diagnostic =>
          rw [ensuring_of_body ran (.failed _)] at fits ⊢
          exact finishing (.failed _) fits
            (closing (ends ((Widens.finishing endWidens _).fits fits)))
      | crashed crash =>
          rw [ensuring_of_crashed ran] at fits ⊢
          have fitted := (Widens.finishing endWidens _).fits fits
          exact finishing_of_crashed unfailing incurious outer (ends fitted)
      | endless =>
          rw [ensuring_of_endless ran] at fits ⊢
          exact ends fits

/-- The same for a bracket that is left open when its body crashes. -/
theorem followedBy {body : Eval α} {atEnd : Eval Unit} (bodyOrderly : body.Orderly)
    (endWidens : atEnd.Widens) {context : Context} {opened : Machine} {inner outer : List Opening}
    (tidy : opened.Tidy inner)
    (fits : (Eval.followedBy body atEnd context opened).2.vault.Fits)
    (closing : ∀ {after : Machine}, after.Tidy inner → (atEnd context after).2.vault.Fits →
      (atEnd context after).2.Ends outer (atEnd context after).1) :
    (Eval.followedBy body atEnd context opened).2.Ends outer
      (Eval.followedBy body atEnd context opened).1 := by
  have ends := bodyOrderly.ends context opened inner tidy
  cases ran : body context opened with
  | mk outcome middle =>
      rw [ran] at ends
      cases outcome with
      | done value =>
          rw [followedBy_of_body ran (.done _)] at fits ⊢
          exact finishing (.done _) fits (closing (ends ((Widens.finishing endWidens _).fits fits)))
      | failed diagnostic =>
          rw [followedBy_of_body ran (.failed _)] at fits ⊢
          exact finishing (.failed _) fits
            (closing (ends ((Widens.finishing endWidens _).fits fits)))
      | crashed crash =>
          rw [followedBy_of_crashed ran] at fits ⊢
          exact ends fits
      | endless =>
          rw [followedBy_of_endless ran] at fits ⊢
          exact ends fits

/-- A bracket that changes something beside the scopes for the time of the body. -/
theorem beside {body : Eval α} (bodyOrderly : body.Orderly) {undo : Machine → Machine}
    (same : ∀ machine : Machine, (undo machine).vault = machine.vault)
    (incurious : ∀ machine : Machine, (undo machine).firstCrash? = machine.firstCrash?)
    {context : Context} {opened : Machine} {openings : List Opening} (tidy : opened.Tidy openings)
    (fits : (Eval.ensuring body (Eval.update undo) context opened).2.vault.Fits) :
    (Eval.ensuring body (Eval.update undo) context opened).2.Ends openings
      (Eval.ensuring body (Eval.update undo) context opened).1 := by
  refine ensuring bodyOrderly (.update same) (.update undo) (fun _ => incurious) tidy fits ?_
  intro after inside _
  have kept : (undo after).vault.Forest openings := by
    rw [same]
    exact inside.forest
  exact ⟨inside.someOpen, kept, (incurious after).trans inside.uncrashed⟩

/-- Going deeper does not touch the store. -/
theorem deeper {body : Eval α} (span : Span) (bodyOrderly : body.Orderly) :
    (Eval.deeper span body).Orderly where
  widens := .deeper span bodyOrderly.widens
  ends context machine openings tidy := by
    unfold Eval.deeper
    split
    · exact fun _ => tidy
    · refine beside bodyOrderly ?_ ?_ ?_
      · exact fun _ => rfl
      · exact fun _ => rfl
      · exact ⟨tidy.someOpen, tidy.forest, tidy.uncrashed⟩

theorem inFile {body : Eval α} (file : SourceFile) (bodyOrderly : body.Orderly) :
    (Eval.inFile file body).Orderly where
  widens := .inFile file bodyOrderly.widens
  ends context machine openings tidy := by
    unfold Eval.inFile
    rw [update_bind_apply]
    refine beside bodyOrderly ?_ ?_ ?_
    · exact fun _ => rfl
    · exact fun _ => rfl
    · exact ⟨tidy.someOpen, tidy.forest, tidy.uncrashed⟩

theorem activated {body : Eval α} (bodyOrderly : body.Orderly) :
    (Evaluator.activated body).Orderly where
  widens := .activated bodyOrderly.widens
  ends context machine openings tidy := by
    unfold Evaluator.activated
    rw [update_bind_apply]
    refine beside bodyOrderly ?_ ?_ ?_
    · exact fun _ => rfl
    · exact fun _ => rfl
    · exact ⟨tidy.someOpen, tidy.forest, tidy.uncrashed⟩

/-- A block or box is left. -/
theorem leaving {kind : FrameKind} (isBlock : kind = .block ∨ kind = .boxed) {handle : Handle}
    {openings : List Opening} (someOpen : openings ≠ []) {context : Context} {machine : Machine}
    (tidy : machine.Tidy (.entered kind handle :: openings)) :
    (Eval.onVault (Vault.leave kind) context machine).2.Ends openings
      (Eval.onVault (Vault.leave kind) context machine).1 := by
  obtain ⟨after, left, kept⟩ := Vault.Forest.leave isBlock tidy.forest
  rw [onVault_apply, left]
  exact ⟨someOpen, kept, tidy.uncrashed⟩

/-- A declaration ends; its name is what may be missing. -/
theorem endingDeclaration {handle : Handle} (name : String) {openings : List Opening}
    (someOpen : openings ≠ []) {context : Context} {machine : Machine}
    (tidy : machine.Tidy (.declaration handle :: openings)) :
    (Eval.onVault (Vault.endDeclaration handle name) context machine).2.Ends openings
      (Eval.onVault (Vault.endDeclaration handle name) context machine).1 := by
  rw [onVault_apply]
  by_cases named : name = ""
  · obtain ⟨parent, adopted, ended, _⟩ := tidy.forest.endDeclaration_eq_rebind name
    rw [ended, named, Vault.rebind_empty]
    simp [Machine.Ends, tidy.uncrashed]
  · obtain ⟨after, ended, kept⟩ := tidy.forest.endDeclaration named
    rw [ended]
    exact ⟨someOpen, kept, tidy.uncrashed⟩

/-- A block is entered and left again, whatever happens inside. -/
theorem inBlock {body : Eval α} (bodyOrderly : body.Orderly) :
    (Eval.inBlock body).Orderly where
  widens := .inBlock bodyOrderly.widens
  ends context machine openings tidy := by
    unfold Eval.inBlock
    obtain ⟨handle, opened, entered, forest⟩ := tidy.forest.enter (.inl rfl)
    rw [bind_apply, onVault_apply, Vault.enterBlock, entered]
    intro fits
    have leaveWidens := Widens.leave .block
    have fitsInside : opened.Fits := (bodyOrderly.widens.ensuring leaveWidens).fits fits
    exact ensuring bodyOrderly leaveWidens (.onVault (Vault.unfailing_leave .block))
      (fun _ _ => rfl) ⟨List.cons_ne_nil _ _, forest fitsInside, tidy.uncrashed⟩ fits
      fun inside _ => leaving (.inl rfl) tidy.someOpen inside

/-- A visit is begun and ended, or refused. -/
theorem inScope {body : Eval α} (span : Span) (handle : Handle)
    (bodyOrderly : body.Orderly) : (Evaluator.inScope span handle body).Orderly where
  widens := .inScope span handle bodyOrderly.widens
  ends context machine openings tidy := by
    unfold Evaluator.inScope
    rw [bind_apply, Eval.onVaultAt, onVault_apply]
    rcases tidy.forest.enterNamed handle with ⟨opened, entered, forest⟩ | ⟨diagnostic, refused⟩
    · rw [entered]
      intro fits
      refine ensuring bodyOrderly .exitNamed (.onVault Vault.unfailing_exitNamed)
        (fun _ _ => rfl) ⟨List.cons_ne_nil _ _, forest, tidy.uncrashed⟩ fits fun inside _ => ?_
      obtain ⟨after, left, kept⟩ := inside.forest.exitNamed
      rw [onVault_apply, left]
      exact ⟨tidy.someOpen, kept, inside.uncrashed⟩
    · rw [refused]
      exact fun _ => tidy

/-- A declaration is begun and ended, unless its body crashes. -/
theorem inDeclaration {body : Eval α} (name : String) (bodyOrderly : body.Orderly) :
    (Eval.inDeclaration name body).Orderly where
  widens := .inDeclaration name bodyOrderly.widens
  ends context machine openings tidy := by
    unfold Eval.inDeclaration
    obtain ⟨handle, opened, declared, forest⟩ := tidy.forest.declare tidy.someOpen name
    rw [bind_apply, onVault_apply, declared]
    intro fits
    have endWidens := Widens.endDeclaration handle name
    have fitsInside : opened.Fits := (bodyOrderly.widens.ensuring endWidens).fits fits
    exact ensuring bodyOrderly endWidens (.onVault (Vault.unfailing_endDeclaration handle name))
      (fun _ _ => rfl) ⟨List.cons_ne_nil _ _, forest fitsInside, tidy.uncrashed⟩ fits
      fun inside _ => endingDeclaration name tidy.someOpen inside

theorem defineMethods (methods : List (String × Native)) :
    (Evaluator.defineMethods methods).Orderly := by
  induction methods with
  | nil => exact ⟨.result (), fun _ _ _ tidy _ => tidy⟩
  | cons method methods inductionHypothesis =>
      exact bind (onVault (.define _ _)) fun _ => inductionHypothesis

/-- A computation whose first part is orderly goes on in a tidy state or ends. -/
theorem ends_bind {first : Eval α} {next : α → Eval β} (firstOrderly : first.Orderly)
    (unfailing : first.Unfailing) (nextWidens : ∀ value, (next value).Widens) {context : Context}
    {machine : Machine} {inner outer : List Opening} (tidy : machine.Tidy inner)
    (fits : ((first >>= next) context machine).2.vault.Fits)
    (goesOn : ∀ {value middle}, middle.Tidy inner → (next value context middle).2.vault.Fits →
      (next value context middle).2.Ends outer (next value context middle).1) :
    ((first >>= next) context machine).2.Ends outer ((first >>= next) context machine).1 := by
  have ends := firstOrderly.ends context machine inner tidy
  have notFailed := unfailing context machine
  rw [bind_apply] at fits ⊢
  generalize first context machine = ran at ends notFailed fits ⊢
  obtain ⟨outcome, middle⟩ := ran
  cases outcome with
  | done value => exact goesOn (ends ((nextWidens value).fits fits)) fits
  | failed diagnostic => exact absurd rfl (notFailed diagnostic)
  | crashed crash => exact ends fits
  | endless => exact ends fits

/-- A box is entered and filled before its body, and left afterwards. -/
theorem inBox {body : Handle → Eval α} (value : Value)
    (bodyOrderly : ∀ box, (body box).Orderly) :
    (Evaluator.inBox value body).Orderly where
  widens := .inBox value fun box => (bodyOrderly box).widens
  ends context machine openings tidy := by
    unfold Evaluator.inBox
    obtain ⟨box, opened, entered, forest⟩ := tidy.forest.enter (.inr rfl)
    rw [bind_apply, onVault_apply, Vault.enterBoxed, entered]
    intro fits
    have leaveWidens := Widens.leave .boxed
    have filledWidens := (bodyOrderly box).widens.ensuring leaveWidens
    have holdingWidens := (Widens.defineMethods Native.boxedMethods).bind fun _ => filledWidens
    have openedWidens := (Widens.define Native.boxedValue value).bind fun _ => holdingWidens
    have tidyInside : Machine.Tidy (.boxed box :: openings) { machine with vault := opened } :=
      ⟨List.cons_ne_nil _ _, forest (openedWidens.fits fits), tidy.uncrashed⟩
    refine ends_bind (onVault (.define _ _)) (unfailing_define _ value)
      (fun _ => holdingWidens) tidyInside fits ?_
    intro _ holding tidyHolding fitsHolding
    refine ends_bind (defineMethods _) (unfailing_defineMethods _) (fun _ => filledWidens)
      tidyHolding fitsHolding ?_
    intro _ filled tidyFilled fitsFilled
    exact ensuring (bodyOrderly box) leaveWidens (.onVault (Vault.unfailing_leave .boxed))
      (fun _ _ => rfl) tidyFilled fitsFilled
      fun inside _ => leaving (.inr rfl) tidy.someOpen inside

/-- A scope is declared, named inside if it is a context, and bound when its body is done. -/
theorem declareScope {recursion : Recursion} {body : List Stmt} (name : String)
    (isContext : Bool) (bodyOrderly : (recursion.execute body).Orderly) :
    (Evaluator.declareScope recursion name body isContext).Orderly where
  widens := .declareScope name isContext bodyOrderly.widens
  ends context machine openings tidy := by
    unfold Evaluator.declareScope
    obtain ⟨handle, opened, declared, forest⟩ := tidy.forest.declare tidy.someOpen name
    rw [bind_apply, onVault_apply, declared]
    intro fits
    have endWidens := Widens.endDeclaration handle name
    have boundWidens := bodyOrderly.widens.followedBy endWidens
    cases isContext with
    | false =>
        have tidyInside : Machine.Tidy (.declaration handle :: openings)
            { machine with vault := opened } :=
          ⟨List.cons_ne_nil _ _, forest (boundWidens.fits fits), tidy.uncrashed⟩
        exact followedBy bodyOrderly endWidens tidyInside fits
          fun inside _ => endingDeclaration name tidy.someOpen inside
    | true =>
        have openedWidens := (Widens.define "this" (.scope handle)).bind fun _ => boundWidens
        have tidyInside : Machine.Tidy (.declaration handle :: openings)
            { machine with vault := opened } :=
          ⟨List.cons_ne_nil _ _, forest (openedWidens.fits fits), tidy.uncrashed⟩
        refine ends_bind (onVault (.define _ _)) (unfailing_define _ _)
          (fun _ => boundWidens) tidyInside fits ?_
        intro _ bound tidyBound fitsBound
        exact followedBy bodyOrderly endWidens tidyBound fitsBound
          fun inside _ => endingDeclaration name tidy.someOpen inside

/-- The text something is evaluated from is no concern of the vault. -/
theorem within (origin : Origin) (bodyOrderly : body.Orderly) :
    (Eval.within origin body).Orderly where
  widens context := bodyOrderly.widens { context with origin }
  ends context := bodyOrderly.ends { context with origin }

end Orderly

/-- All parts of the evaluator are orderly. -/
theorem closed_orderly : Eval.Closed fun _ => Eval.Orderly where
  raise orderly := orderly
  result _ value := ⟨.result value, fun _ _ _ tidy _ => tidy⟩
  bind := .bind
  resume plain next otherwise := .resume (.onVault plain) next otherwise
  machine _ := ⟨.of_vault fun _ _ => rfl, fun _ _ _ tidy _ => tidy⟩
  configured next _ := .bind ⟨.of_vault fun _ _ => rfl, fun _ _ _ tidy _ => tidy⟩ next
  origin _ := ⟨.of_vault fun _ _ => rfl, fun _ _ _ tidy _ => tidy⟩
  within := .within
  fail _ _ := ⟨.of_vault fun _ _ => rfl, fun _ _ _ tidy _ => tidy⟩
  failAt _ _ _ _ := ⟨.of_vault fun _ _ => rfl, fun _ _ _ tidy _ => tidy⟩
  endless _ := by
    refine ⟨.of_vault fun _ _ => rfl, fun _ machine _ tidy _ => ?_⟩
    change machine.firstCrash?.getD .namelessBinding = .namelessBinding
    rw [tidy.uncrashed]
    rfl
  queryAt _ := .queryAt
  onVault _ _ := .onVault
  onVaultAt _ span _ plain := .located span plain.widens (.onVault plain)
  aside _ _ := .aside
  yielding _ :=
    ⟨.update fun _ => rfl, fun _ _ _ tidy _ => ⟨tidy.someOpen, tidy.forest, tidy.uncrashed⟩⟩
  deeper := .deeper
  inBlock := .inBlock
  inFile := .inFile
  inCall filling body := .inBlock (.bind filling fun _ => .activated body)
  founding := .founding
  inScope := .inScope
  inBox := .inBox
  inDeclaration := .inDeclaration
  declareScope := .declareScope

end Eval

end ScopeScript
