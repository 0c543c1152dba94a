import ScopeScript.Proofs.Evaluator.Balance

/-!
# The allowed nesting

The nesting that is allowed has one effect only: what would go deeper ends with a diagnostic of its
own kind. Nothing catches that diagnostic, so an evaluation that comes to its own end in another
way has never met the limit, and does the same under every higher one. This is a closed property of
computations (`Eval.closed_tolerant`).

A crash at the end of a body can take the place of the diagnostic, which is why nothing is said
about computations that crash.
-/

namespace ScopeScript

/-- The same context, with another nesting allowed. -/
def Context.allowing (context : Context) (limit : Nat) : Context :=
  { context with config := { context.config with maxDepth := limit } }

/-- A computation has come to its own end, and not because it was nested too deeply. -/
structure Outcome.Unhindered (outcome : Outcome α) : Prop where
  returned : outcome.Returned
  unlimited : outcome.kind? ≠ some .depthExceeded

namespace Eval

variable {α β : Type}

/-- A computation that is not hindered by the allowed nesting does the same if more is allowed. -/
def Tolerant (_ : Level) {α : Type} (computation : Eval α) : Prop :=
  ∀ context machine limit, context.config.maxDepth ≤ limit →
    (computation context machine).1.Unhindered →
    computation (context.allowing limit) machine = computation context machine

/-- A computation does not ask for the allowed nesting at all. -/
def Indifferent (computation : Eval α) : Prop :=
  ∀ context machine limit,
    computation (context.allowing limit) machine = computation context machine

theorem indifferent_onVault (operation : Run Vault α) : (Eval.onVault operation).Indifferent :=
  fun _ _ _ => rfl

theorem indifferent_onVaultAt (span : Span) (operation : Run Vault α) :
    (Eval.onVaultAt span operation).Indifferent :=
  fun _ _ _ => rfl

theorem indifferent_update (change : Machine → Machine) : (Eval.update change).Indifferent :=
  fun _ _ _ => rfl

/-- What does not ask for the limit does the same under every other one. -/
theorem Indifferent.tolerant {computation : Eval α} (indifferent : computation.Indifferent)
    (level : Level) : computation.Tolerant level :=
  fun context machine limit _ _ => indifferent context machine limit

/-- If what is done at the end has been done, the whole ends as the body does. -/
theorem finishing_fst_of_done {atEnd : Eval Unit} {outcome : Outcome α} {context : Context}
    {machine after : Machine} (ended : atEnd context machine = (.done (), after)) :
    (finishing atEnd outcome context machine).1 = outcome := by
  rw [finishing, ended]

/-- A bracket that has returned ends as its body does. -/
theorem ensuring_fst_of_returned {body : Eval α} {atEnd : Eval Unit} {context : Context}
    {machine : Machine} (unfailing : atEnd.Unfailing)
    (returned : (ensuring body atEnd context machine).1.Returned) :
    (ensuring body atEnd context machine).1 = (body context machine).1 := by
  obtain ⟨bodyReturned, ended⟩ := ensuring_of_returned unfailing returned
  rw [ensuring_of_body rfl bodyReturned]
  exact finishing_fst_of_done ended

/-- The same for a bracket that a crash leaves open. -/
theorem followedBy_fst_of_returned {body : Eval α} {atEnd : Eval Unit} {context : Context}
    {machine : Machine} (unfailing : atEnd.Unfailing)
    (returned : (followedBy body atEnd context machine).1.Returned) :
    (followedBy body atEnd context machine).1 = (body context machine).1 := by
  obtain ⟨bodyReturned, ended⟩ := followedBy_of_returned unfailing returned
  rw [followedBy_of_body rfl bodyReturned]
  exact finishing_fst_of_done ended

namespace Tolerant

variable {level : Level}

/-- A sequence is tolerant if its parts are. -/
theorem bind {first : Eval α} {next : α → Eval β} (firstTolerant : first.Tolerant level)
    (nextTolerant : ∀ value, (next value).Tolerant level) : (first >>= next).Tolerant level := by
  intro context machine limit allowed unhindered
  have same := firstTolerant context machine limit allowed
  rw [bind_apply] at unhindered
  rw [bind_apply, bind_apply]
  generalize first context machine = ran at same unhindered ⊢
  obtain ⟨outcome, middle⟩ := ran
  cases outcome with
  | done value =>
      rw [same ⟨.done value, by simp [Outcome.kind?]⟩]
      exact nextTolerant value context middle limit allowed unhindered
  | failed diagnostic => rw [same ⟨.failed diagnostic, unhindered.unlimited⟩]
  | crashed crash => cases unhindered.returned
  | endless => cases unhindered.returned

/-- Going on after a diagnostic of the store is tolerant if both ways are. -/
theorem resume {operation : Run Vault α} {next : α → Eval β} {otherwise : Eval β}
    (nextTolerant : ∀ value, (next value).Tolerant level)
    (otherwiseTolerant : otherwise.Tolerant level) :
    ((Eval.onVault operation).resume next otherwise).Tolerant level := by
  intro context machine limit allowed unhindered
  unfold Eval.resume at unhindered ⊢
  rw [indifferent_onVault operation]
  generalize Eval.onVault operation context machine = ran at unhindered ⊢
  obtain ⟨outcome, middle⟩ := ran
  cases outcome with
  | done value => exact nextTolerant value context middle limit allowed unhindered
  | failed diagnostic => exact otherwiseTolerant context middle limit allowed unhindered
  | crashed crash => rfl
  | endless => rfl

/-- What asks for the configuration is tolerant if it does not look at the limit. -/
theorem configured {next : Config → Eval α} (nextTolerant : ∀ config, (next config).Tolerant level)
    (unasked : ∀ config limit, next { config with maxDepth := limit } = next config) :
    (Eval.config >>= next).Tolerant level := by
  intro context machine limit allowed unhindered
  have same := nextTolerant context.config context machine limit allowed unhindered
  change next { context.config with maxDepth := limit } (context.allowing limit) machine = _
  rw [unasked]
  exact same

/-! ## Brackets -/

/-- A bracket is tolerant if its body is and its end does not ask for the limit. -/
theorem ensuring {body : Eval α} {atEnd : Eval Unit} (bodyTolerant : body.Tolerant level)
    (unfailing : atEnd.Unfailing) (indifferent : atEnd.Indifferent) :
    (Eval.ensuring body atEnd).Tolerant level := by
  intro context machine limit allowed unhindered
  have ends := ensuring_fst_of_returned unfailing unhindered.returned
  have same := bodyTolerant context machine limit allowed (ends ▸ unhindered)
  unfold Eval.ensuring
  rw [same]
  simp only [indifferent context _ limit]

/-- The same for a bracket that a crash leaves open. -/
theorem followedBy {body : Eval α} {atEnd : Eval Unit} (bodyTolerant : body.Tolerant level)
    (unfailing : atEnd.Unfailing) (indifferent : atEnd.Indifferent) :
    (Eval.followedBy body atEnd).Tolerant level := by
  intro context machine limit allowed unhindered
  have ends := followedBy_fst_of_returned unfailing unhindered.returned
  have same := bodyTolerant context machine limit allowed (ends ▸ unhindered)
  unfold Eval.followedBy
  rw [same]
  simp only [indifferent context _ limit]

/-- The one place where the limit counts: below it, so does every higher one. -/
theorem deeper {body : Eval α} (span : Span) (bodyTolerant : body.Tolerant level) :
    (Eval.deeper span body).Tolerant level := by
  intro context machine limit allowed unhindered
  unfold Eval.deeper at unhindered ⊢
  by_cases exceeded : context.config.maxDepth < machine.depth + 1
  · rw [if_pos exceeded] at unhindered
    exact absurd rfl unhindered.unlimited
  · have stillAllowed : ¬limit < machine.depth + 1 := by omega
    rw [if_neg exceeded] at unhindered ⊢
    rw [if_neg (show ¬(context.allowing limit).config.maxDepth < _ from stillAllowed)]
    exact ensuring bodyTolerant (.update _) (indifferent_update _) context _ limit allowed
      unhindered

theorem inFile {body : Eval α} (file : SourceFile) (bodyTolerant : body.Tolerant level) :
    (Eval.inFile file body).Tolerant level :=
  bind ((indifferent_update _).tolerant level) fun _ =>
    ensuring bodyTolerant (.update _) (indifferent_update _)

theorem inBlock {body : Eval α} (bodyTolerant : body.Tolerant level) :
    (Eval.inBlock body).Tolerant level :=
  bind ((indifferent_onVault _).tolerant level) fun _ =>
    ensuring bodyTolerant (.onVault (Vault.unfailing_leave .block)) (indifferent_onVault _)

/-- A call is tolerant if binding its parameters and running its body are. -/
theorem inCall {filling : Eval Unit} {body : Eval α}
    (fillingTolerant : filling.Tolerant .expression) (bodyTolerant : body.Tolerant .statement) :
    (Eval.inCall filling body).Tolerant .expression := by
  refine inBlock (bind fillingTolerant fun _ => ?_)
  exact bind ((indifferent_update _).tolerant _) fun _ =>
    ensuring bodyTolerant (.update _) (indifferent_update _)

theorem inScope {body : Eval α} (span : Span) (handle : Handle)
    (bodyTolerant : body.Tolerant level) : (Evaluator.inScope span handle body).Tolerant level :=
  bind ((indifferent_onVaultAt span _).tolerant level) fun _ =>
    ensuring bodyTolerant (.onVault Vault.unfailing_exitNamed) (indifferent_onVault _)

theorem inDeclaration {body : Eval α} (name : String) (bodyTolerant : body.Tolerant level) :
    (Eval.inDeclaration name body).Tolerant level :=
  bind ((indifferent_onVault _).tolerant level) fun handle =>
    ensuring bodyTolerant (.onVault (Vault.unfailing_endDeclaration handle name))
      (indifferent_onVault _)

theorem define (level : Level) (name : String) (value : Value) :
    (Eval.define name value).Tolerant level :=
  (indifferent_onVault _).tolerant level

theorem defineMethods (level : Level) (methods : List (String × Native)) :
    (Evaluator.defineMethods methods).Tolerant level := by
  induction methods with
  | nil => exact fun _ _ _ _ _ => rfl
  | cons method methods inductionHypothesis =>
      exact bind (define level _ _) fun _ => inductionHypothesis

/-- A box asks for the limit only where its body does. -/
theorem inBox {body : Handle → Eval α} (value : Value)
    (bodyTolerant : ∀ box, (body box).Tolerant level) :
    (Evaluator.inBox value body).Tolerant level := by
  refine bind ((indifferent_onVault _).tolerant level) fun box => ?_
  refine bind (define level _ value) fun _ => bind (defineMethods level _) fun _ => ?_
  exact ensuring (bodyTolerant box) (.onVault (Vault.unfailing_leave .boxed))
    (indifferent_onVault _)

/-- A declaration asks for the limit only where its body does. -/
theorem declareScope {recursion : Recursion} {body : List Stmt} (name : String)
    (isContext : Bool) (bodyTolerant : (recursion.execute body).Tolerant .statement) :
    (Evaluator.declareScope recursion name body isContext).Tolerant .statement := by
  refine bind ((indifferent_onVault _).tolerant _) fun handle => ?_
  have ending := followedBy bodyTolerant (.onVault (Vault.unfailing_endDeclaration handle name))
    (indifferent_onVault _)
  cases isContext with
  | false => exact ending
  | true => exact bind (define _ _ _) fun _ => ending

theorem founding {next : Handle → Handle → Eval α} (span : Span) (outer inner : String)
    (nextTolerant : ∀ scope part, (next scope part).Tolerant level) :
    (Eval.founding span outer inner next).Tolerant level := by
  refine bind ((indifferent_onVault _).tolerant level) fun owner => ?_
  refine bind ((indifferent_onVaultAt span _).tolerant level) fun scope => ?_
  exact bind ((indifferent_onVaultAt span _).tolerant level) fun part => nextTolerant scope part

end Tolerant

/-- All parts of the evaluator tolerate a higher limit. -/
theorem closed_tolerant : Eval.Closed Eval.Tolerant where
  raise holds := holds
  result _ _ := fun _ _ _ _ _ => rfl
  bind := .bind
  resume _ := .resume
  machine _ := fun _ _ _ _ _ => rfl
  configured := .configured
  origin _ := fun _ _ _ _ _ => rfl
  within origin holds := fun context => holds { context with origin }
  fail _ _ := fun _ _ _ _ _ => rfl
  failAt _ _ _ _ := fun _ _ _ _ _ => rfl
  endless _ := fun _ _ _ _ _ => rfl
  queryAt _ _ _ := fun _ _ _ _ _ => rfl
  onVault level _ _ := (indifferent_onVault _).tolerant level
  onVaultAt level span _ _ := (indifferent_onVaultAt span _).tolerant level
  aside level _ _ := (indifferent_update _).tolerant level
  yielding _ := (indifferent_update _).tolerant .statement
  deeper := .deeper
  inBlock := .inBlock
  inFile := .inFile
  inCall := .inCall
  founding := .founding
  inScope := .inScope
  inBox := .inBox
  inDeclaration := .inDeclaration
  declareScope := .declareScope

end Eval

end ScopeScript
