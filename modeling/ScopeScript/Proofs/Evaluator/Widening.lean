import ScopeScript.Proofs.Evaluator.Closure
import ScopeScript.Proofs.Vault.Widening

/-!
# Evaluations give no slots back

Whatever is evaluated, and however it ends, there are at least as many slots afterwards as there
were before. This is a closed property of computations (`Eval.closed_widens`). If the numbers of the
slots fit at the end of an evaluation, they have therefore fitted in each state on the way.
-/

namespace ScopeScript

namespace Vault

theorem Plain.widens {operation : Run Vault α} (plain : Plain operation) : operation.Widens := by
  cases plain with
  | resolve name => exact widens_resolve name
  | define name value => exact widens_define name value
  | defineIn handle name value => exact widens_defineIn handle name value
  | write reference value => exact widens_write reference value
  | unbind name => exact widens_unbind name
  | eraseIn handle name => exact widens_eraseIn handle name
  | clearIn handle => exact widens_clearIn handle

end Vault

namespace Eval

/-- A computation does not give slots back. -/
def Widens (computation : Eval α) : Prop :=
  ∀ context (machine : Machine), machine.vault.Widens (computation context machine).2.vault

namespace Widens

variable {α β : Type}

/-- If the numbers fit after a computation, then they did before. -/
theorem fits {computation : Eval α} (widens : computation.Widens) {context : Context}
    {machine : Machine} (fits : (computation context machine).2.vault.Fits) :
    machine.vault.Fits :=
  (widens context machine).fits fits

/-- The same for a run whose end is known. -/
theorem fits_of_ended {computation : Eval α} (widens : computation.Widens) {context : Context}
    {machine after : Machine} {outcome : Outcome α}
    (ended : computation context machine = (outcome, after)) (fits : after.vault.Fits) :
    machine.vault.Fits := by
  have same : (computation context machine).2 = after := by rw [ended]
  exact widens.fits (same.symm ▸ fits)

theorem of_vault {computation : Eval α}
    (same : ∀ context machine, (computation context machine).2.vault = machine.vault) :
    computation.Widens := by
  intro context machine
  rw [same]
  exact .refl _

theorem result (value : α) : (pure value : Eval α).Widens :=
  of_vault fun _ _ => rfl

theorem update {change : Machine → Machine}
    (same : ∀ machine : Machine, (change machine).vault = machine.vault) :
    (Eval.update change).Widens :=
  of_vault fun _ => same

/-- What is done with a result gives no slots back. -/
theorem after_first {first : Eval α} {next : α → Eval β} (nextWidens : ∀ value, (next value).Widens)
    (context : Context) (machine : Machine) :
    (first context machine).2.vault.Widens ((first >>= next) context machine).2.vault := by
  rw [bind_apply]
  generalize first context machine = ran
  obtain ⟨outcome, middle⟩ := ran
  cases outcome with
  | done value => exact nextWidens value context middle
  | failed diagnostic => exact .refl _
  | crashed crash => exact .refl _
  | endless => exact .refl _

theorem bind {first : Eval α} {next : α → Eval β} (firstWidens : first.Widens)
    (nextWidens : ∀ value, (next value).Widens) : (first >>= next).Widens :=
  fun context machine =>
    (firstWidens context machine).trans (after_first nextWidens context machine)

theorem resume {first : Eval α} {next : α → Eval β} {otherwise : Eval β}
    (firstWidens : first.Widens) (nextWidens : ∀ value, (next value).Widens)
    (otherwiseWidens : otherwise.Widens) : (first.resume next otherwise).Widens := by
  intro context machine
  have wide := firstWidens context machine
  unfold Eval.resume
  generalize first context machine = ran at wide ⊢
  obtain ⟨outcome, middle⟩ := ran
  cases outcome with
  | done value => exact wide.trans (nextWidens value context middle)
  | failed diagnostic => exact wide.trans (otherwiseWidens context middle)
  | crashed crash => exact wide
  | endless => exact wide

theorem onVault {operation : Run Vault α} (widens : operation.Widens) :
    (Eval.onVault operation).Widens :=
  fun _ machine => widens machine.vault

theorem onVaultAt (span : Span) {operation : Run Vault α} (widens : operation.Widens) :
    (Eval.onVaultAt span operation).Widens := by
  intro context machine
  have wide := onVault widens context machine
  unfold Eval.onVaultAt
  generalize Eval.onVault operation context machine = ran at wide ⊢
  obtain ⟨outcome, after⟩ := ran
  cases outcome <;> exact wide

theorem define (name : String) (value : Value) : (Eval.define name value).Widens :=
  onVault (Vault.widens_define name value)

/-- The end of a block or a box gives no slots back. -/
theorem leave (kind : FrameKind) : (Eval.onVault (Vault.leave kind)).Widens :=
  onVault (Vault.widens_leave kind)

/-- The end of a visit gives no slots back. -/
theorem exitNamed : (Eval.onVault Vault.exitNamed).Widens :=
  onVault Vault.widens_exitNamed

/-- The end of a declaration gives no slots back. -/
theorem endDeclaration (handle : Handle) (name : String) :
    (Eval.onVault (Vault.endDeclaration handle name)).Widens :=
  onVault (Vault.widens_endDeclaration handle name)

theorem queryAt (span : Span) (query : Vault → Except Diagnostic α) :
    (Eval.queryAt span query).Widens := by
  refine of_vault fun context machine => ?_
  unfold Eval.queryAt
  split <;> rfl

theorem founding {next : Handle → Handle → Eval α} (span : Span) (outer inner : String)
    (nextWidens : ∀ scope part, (next scope part).Widens) :
    (Eval.founding span outer inner next).Widens := by
  refine bind (onVault Vault.widens_owner) fun owner => ?_
  refine bind (onVaultAt span (Vault.widens_createOwned owner outer)) fun scope => ?_
  refine bind (onVaultAt span (Vault.widens_createOwned scope inner)) fun part => ?_
  exact nextWidens scope part

/-! ## Brackets -/

/-- What is done at the end of a body gives no slots back either. -/
theorem finishing {atEnd : Eval Unit} (widens : atEnd.Widens) (outcome : Outcome α) :
    (Eval.finishing atEnd outcome).Widens := by
  intro context machine
  rw [finishing_snd]
  exact widens context machine

/-- What a bracket does after its body gives no slots back. -/
theorem after_body {body : Eval α} {atEnd : Eval Unit} (endWidens : atEnd.Widens)
    (context : Context) (machine : Machine) :
    (body context machine).2.vault.Widens (Eval.ensuring body atEnd context machine).2.vault := by
  cases ran : body context machine with
  | mk outcome middle =>
      cases outcome with
      | done value =>
          rw [ensuring_of_body ran (.done value)]
          exact finishing endWidens _ context middle
      | failed diagnostic =>
          rw [ensuring_of_body ran (.failed diagnostic)]
          exact finishing endWidens _ context middle
      | crashed crash =>
          rw [ensuring_of_crashed ran]
          exact finishing endWidens (.crashed crash : Outcome α) context
            (middle.noting (.crashed crash : Outcome α))
      | endless =>
          rw [ensuring_of_endless ran]
          exact .refl _

theorem ensuring {body : Eval α} {atEnd : Eval Unit} (bodyWidens : body.Widens)
    (endWidens : atEnd.Widens) : (Eval.ensuring body atEnd).Widens :=
  fun context machine => (bodyWidens context machine).trans (after_body endWidens context machine)

/-- The same for a bracket that is left open when its body crashes. -/
theorem after_followed {body : Eval α} {atEnd : Eval Unit} (endWidens : atEnd.Widens)
    (context : Context) (machine : Machine) :
    (body context machine).2.vault.Widens
      (Eval.followedBy body atEnd context machine).2.vault := by
  cases ran : body context machine with
  | mk outcome middle =>
      cases outcome with
      | done value =>
          rw [followedBy_of_body ran (.done value)]
          exact finishing endWidens _ context middle
      | failed diagnostic =>
          rw [followedBy_of_body ran (.failed diagnostic)]
          exact finishing endWidens _ context middle
      | crashed crash =>
          rw [followedBy_of_crashed ran]
          exact .refl _
      | endless =>
          rw [followedBy_of_endless ran]
          exact .refl _

theorem followedBy {body : Eval α} {atEnd : Eval Unit} (bodyWidens : body.Widens)
    (endWidens : atEnd.Widens) : (Eval.followedBy body atEnd).Widens :=
  fun context machine =>
    (bodyWidens context machine).trans (after_followed endWidens context machine)

/-- Coming up from a nesting gives no slots back. -/
theorem surfacing :
    (Eval.update fun machine => { machine with depth := machine.depth - 1 }).Widens :=
  update fun _ => rfl

theorem deeper {body : Eval α} (span : Span) (bodyWidens : body.Widens) :
    (Eval.deeper span body).Widens := by
  intro context machine
  unfold Eval.deeper
  split
  · exact .refl _
  · exact ensuring bodyWidens surfacing context { machine with depth := machine.depth + 1 }

theorem inFile {body : Eval α} (file : SourceFile) (bodyWidens : body.Widens) :
    (Eval.inFile file body).Widens :=
  bind (update fun _ => rfl) fun _ => ensuring bodyWidens (update fun _ => rfl)

theorem activated {body : Eval α} (bodyWidens : body.Widens) :
    (Evaluator.activated body).Widens :=
  bind (update fun _ => rfl) fun _ => ensuring bodyWidens (update fun _ => rfl)

theorem inBlock {body : Eval α} (bodyWidens : body.Widens) : (Eval.inBlock body).Widens :=
  bind (onVault (Vault.widens_enter .block)) fun _ =>
    ensuring bodyWidens (leave .block)

theorem inScope {body : Eval α} (span : Span) (handle : Handle) (bodyWidens : body.Widens) :
    (Evaluator.inScope span handle body).Widens :=
  bind (onVaultAt span (Vault.widens_enterNamed handle)) fun _ =>
    ensuring bodyWidens exitNamed

theorem defineMethods (methods : List (String × Native)) :
    (Evaluator.defineMethods methods).Widens := by
  induction methods with
  | nil => exact result ()
  | cons method methods inductionHypothesis =>
      exact bind (define _ _) fun _ => inductionHypothesis

/-- What is done in a box that has been entered. -/
theorem boxing {body : Eval α} (value : Value) (bodyWidens : body.Widens) :
    (Eval.define Native.boxedValue value >>= fun _ =>
      Evaluator.defineMethods Native.boxedMethods >>= fun _ =>
        Eval.ensuring body (Eval.onVault (Vault.leave .boxed))).Widens := by
  refine bind (define _ value) fun _ => ?_
  refine bind (defineMethods _) fun _ => ?_
  exact ensuring bodyWidens (leave .boxed)

theorem inBox {body : Handle → Eval α} (value : Value) (bodyWidens : ∀ box, (body box).Widens) :
    (Evaluator.inBox value body).Widens :=
  bind (onVault (Vault.widens_enter .boxed)) fun box => boxing value (bodyWidens box)

theorem inDeclaration {body : Eval α} (name : String) (bodyWidens : body.Widens) :
    (Eval.inDeclaration name body).Widens :=
  bind (onVault (Vault.widens_declare name)) fun handle =>
    ensuring bodyWidens (endDeclaration handle name)

theorem declareScope {recursion : Recursion} {body : List Stmt} (name : String)
    (isContext : Bool) (bodyWidens : (recursion.execute body).Widens) :
    (Evaluator.declareScope recursion name body isContext).Widens := by
  refine bind (onVault (Vault.widens_declare name)) fun handle => ?_
  have closing := followedBy bodyWidens (endDeclaration handle name)
  cases isContext with
  | false => exact closing
  | true => exact bind (define _ _) fun _ => closing

end Widens

/-- No part of the evaluator gives slots back. -/
theorem closed_widens : Eval.Closed fun _ => Eval.Widens where
  raise widens := widens
  result _ := .result
  bind := .bind
  resume plain next otherwise := .resume (.onVault plain.widens) next otherwise
  machine _ := .of_vault fun _ _ => rfl
  configured next _ := .bind (.of_vault fun _ _ => rfl) next
  origin _ := .of_vault fun _ _ => rfl
  within origin widens := fun context => widens { context with origin }
  fail _ _ := .of_vault fun _ _ => rfl
  failAt _ _ _ _ := .of_vault fun _ _ => rfl
  endless _ := .of_vault fun _ _ => rfl
  queryAt _ := .queryAt
  onVault _ _ plain := .onVault plain.widens
  onVaultAt _ span _ plain := .onVaultAt span plain.widens
  aside _ _ same := .update fun machine => (same machine).vault
  yielding _ := .update fun _ => rfl
  deeper := .deeper
  inBlock := .inBlock
  inFile := .inFile
  inCall filling body := .inBlock (.bind filling fun _ => .activated body)
  founding := .founding
  inScope := .inScope
  inBox := .inBox
  inDeclaration := .inDeclaration
  declareScope := .declareScope

end Eval

end ScopeScript
