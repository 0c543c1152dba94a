import ScopeScript.Proofs.Evaluator.Closure
import ScopeScript.Proofs.Vault.Frames

/-!
# Balanced stacks

An evaluation that comes to its own end, with a result or with a diagnostic, leaves the stacks of
the machine as it found them: the frames, the files being executed and the nesting depth are the
same, and so are the activations, but that statements may have added to the values yielded by the
innermost one. This is a closed property of computations (`Eval.closed_balances`). It is shown of
all machines, not only of those that can occur: an exit gives a result only if it finds the frame
of its own entry on top.
-/

namespace ScopeScript

/-- How activations may differ from those before. -/
def Level.Keeps : Level → List (List Value) → List (List Value) → Prop
  | .expression, before, after => after = before
  | .statement, before, after => ∃ yielded, after = before.modifyHead (yielded ++ ·)

namespace Level.Keeps

theorem refl (level : Level) (activations : List (List Value)) :
    level.Keeps activations activations := by
  cases level with
  | expression => rfl
  | statement => exact ⟨[], by cases activations <;> rfl⟩

/-- What is kept by two changes is kept by one after the other. -/
theorem trans {level : Level} {before middle after : List (List Value)}
    (first : level.Keeps before middle) (second : level.Keeps middle after) :
    level.Keeps before after := by
  cases level with
  | expression => exact Eq.trans second first
  | statement =>
      obtain ⟨earlier, rfl⟩ := first
      obtain ⟨later, rfl⟩ := second
      refine ⟨later ++ earlier, ?_⟩
      rw [List.modifyHead_modifyHead]
      congr 1
      funext yielded
      simp

/-- What leaves all activations alone adds to none of them either. -/
theorem raise {before after : List (List Value)} (kept : Level.expression.Keeps before after) :
    Level.statement.Keeps before after := by
  cases kept
  exact refl _ _

/-- The activations below the innermost one are the same. -/
theorem tail_eq {level : Level} {before after : List (List Value)}
    (kept : level.Keeps before after) : after.tail = before.tail := by
  cases level with
  | expression => rw [kept]
  | statement =>
      obtain ⟨yielded, rfl⟩ := kept
      cases before <;> rfl

/-- Where there is no activation, none is added. -/
theorem eq_nil {level : Level} {before after : List (List Value)} (kept : level.Keeps before after)
    (nothing : before = []) : after = [] := by
  cases level with
  | expression => exact Eq.trans kept nothing
  | statement =>
      obtain ⟨yielded, rfl⟩ := kept
      rw [nothing]
      rfl

end Level.Keeps

/-- The stacks of a machine are as before. -/
structure Machine.Balanced (level : Level) (before after : Machine) : Prop where
  frames : after.vault.frames = before.vault.frames
  files : after.files = before.files
  depth : after.depth = before.depth
  activations : level.Keeps before.activations after.activations

namespace Machine.Balanced

variable {level : Level} {before middle after : Machine}

theorem refl (level : Level) (machine : Machine) : machine.Balanced level machine :=
  ⟨rfl, rfl, rfl, .refl _ _⟩

/-- Balanced changes can be put together. -/
theorem trans (first : before.Balanced level middle) (second : middle.Balanced level after) :
    before.Balanced level after :=
  ⟨second.frames.trans first.frames, second.files.trans first.files,
    second.depth.trans first.depth, first.activations.trans second.activations⟩

theorem raise (balanced : before.Balanced .expression after) : before.Balanced .statement after :=
  ⟨balanced.frames, balanced.files, balanced.depth, balanced.activations.raise⟩

/-- A change beside scopes and calls is balanced. -/
theorem of_aside (level : Level) (aside : before.Aside after) : before.Balanced level after :=
  ⟨by rw [aside.vault], aside.files, aside.depth, by rw [aside.activations]; exact .refl _ _⟩

/-- A change of the store that leaves the frames alone. -/
theorem of_frames (level : Level) (machine : Machine) {vault : Vault}
    (frames : vault.frames = machine.vault.frames) :
    machine.Balanced level { machine with vault } :=
  ⟨frames, rfl, rfl, .refl _ _⟩

/-- A scope that was entered is left again: the exit has taken the frame away that the entry has
pushed. -/
theorem leaving {opened : Vault} {exit : Run Vault Unit} {context : Context}
    (inside : Machine.Balanced level { before with vault := opened } middle)
    (left : Eval.onVault exit context middle = (.done (), after))
    (popped : ∀ {vault}, exit middle.vault = (.done (), vault) →
      vault.frames = before.vault.frames) : before.Balanced level after := by
  rw [Eval.onVault_apply] at left
  cases ran : exit middle.vault with
  | mk outcome vault =>
      rw [ran] at left
      cases left
      exact ⟨popped ran, inside.files, inside.depth, inside.activations⟩

end Machine.Balanced

/-- Between entries and exits records are edited in place. -/
theorem Vault.Plain.edits {operation : Run Vault α} (plain : Vault.Plain operation) :
    Run.Steps Vault.Edit operation := by
  cases plain with
  | resolve name => exact Vault.Edit.resolve name
  | define name value => exact Vault.Edit.define name value
  | defineIn handle name value => exact Vault.Edit.defineIn handle name value
  | write reference value => exact Vault.Edit.write reference value
  | unbind name => exact Vault.Edit.unbind name
  | eraseIn handle name => exact Vault.Edit.eraseIn handle name
  | clearIn handle => exact Vault.Edit.clearIn handle

/-- Between entries and exits the frames stay as they are. -/
theorem Vault.Plain.frames_eq {operation : Run Vault α} (plain : Vault.Plain operation)
    {vault after : Vault} {outcome : Outcome α} (ran : operation vault = (outcome, after))
    (returned : outcome.Returned) : after.frames = vault.frames :=
  Vault.frames_of_steps (Vault.sameFrames_of_edit plain.edits) ran returned.ne_endless

namespace Eval

/-- A computation leaves the stacks balanced if it comes to its own end. -/
def Balances (level : Level) {α : Type} (computation : Eval α) : Prop :=
  ∀ context machine, (computation context machine).1.Returned →
    machine.Balanced level (computation context machine).2

theorem unfailing_define (name : String) (value : Value) : (define name value).Unfailing :=
  .onVault (Vault.unfailing_define name value)

theorem unfailing_defineMethods (methods : List (String × Native)) :
    (Evaluator.defineMethods methods).Unfailing := by
  induction methods with
  | nil => exact .result ()
  | cons method methods inductionHypothesis =>
      exact .bind (unfailing_define _ _) fun _ => inductionHypothesis

namespace Balances

variable {α β : Type} {level : Level}

/-- A computation that is done leaves a balanced state. -/
theorem of_done {computation : Eval α} (balances : computation.Balances level)
    {context : Context} {machine after : Machine} {value : α}
    (ran : computation context machine = (.done value, after)) : machine.Balanced level after := by
  have balanced := balances context machine
  rw [ran] at balanced
  exact balanced (.done _)

/-- A sequence is balanced if its parts are. -/
theorem bind {first : Eval α} {next : α → Eval β} (firstBalances : first.Balances level)
    (nextBalances : ∀ value, (next value).Balances level) : (first >>= next).Balances level := by
  intro context machine returned
  have balanced := firstBalances context machine
  rw [bind_apply] at returned ⊢
  generalize first context machine = ran at balanced returned ⊢
  obtain ⟨outcome, middle⟩ := ran
  cases outcome with
  | done value => exact (balanced (.done _)).trans (nextBalances value context middle returned)
  | failed diagnostic => exact balanced (.failed _)
  | crashed crash => cases returned
  | endless => cases returned

/-- Going on after a diagnostic is balanced if both ways are. -/
theorem resume {first : Eval α} {next : α → Eval β} {otherwise : Eval β}
    (firstBalances : first.Balances level) (nextBalances : ∀ value, (next value).Balances level)
    (otherwiseBalances : otherwise.Balances level) :
    (first.resume next otherwise).Balances level := by
  intro context machine returned
  have balanced := firstBalances context machine
  unfold Eval.resume at returned ⊢
  generalize first context machine = ran at balanced returned ⊢
  obtain ⟨outcome, middle⟩ := ran
  cases outcome with
  | done value => exact (balanced (.done _)).trans (nextBalances value context middle returned)
  | failed diagnostic =>
      exact (balanced (.failed _)).trans (otherwiseBalances context middle returned)
  | crashed crash => cases returned
  | endless => cases returned

theorem queryAt (level : Level) (span : Span) (query : Vault → Except Diagnostic α) :
    (Eval.queryAt span query).Balances level := by
  intro context machine _
  unfold Eval.queryAt
  split <;> exact .refl _ _

/-- An operation between entries and exits leaves the frames as they are. -/
theorem onVault (level : Level) {operation : Run Vault α} (plain : Vault.Plain operation) :
    (Eval.onVault operation).Balances level :=
  fun _ machine returned => .of_frames level machine (plain.frames_eq rfl returned)

/-- That diagnostics of the store are given a place makes no difference. -/
theorem located (span : Span) {operation : Run Vault α}
    (balances : (Eval.onVault operation).Balances level) :
    (Eval.onVaultAt span operation).Balances level := by
  intro context machine returned
  have balanced := balances context machine
  unfold Eval.onVaultAt at returned ⊢
  generalize Eval.onVault operation context machine = ran at balanced returned ⊢
  obtain ⟨outcome, after⟩ := ran
  cases outcome with
  | done value => exact balanced (.done _)
  | failed diagnostic => exact balanced (.failed _)
  | crashed crash => cases returned
  | endless => cases returned

theorem owner (level : Level) : (Eval.onVault Vault.owner).Balances level := by
  intro context machine returned
  rw [onVault_apply] at returned ⊢
  cases ran : Vault.owner machine.vault with
  | mk outcome after =>
      rw [ran] at returned
      have steps := Vault.sameFrames_of_edit Vault.Edit.owner
      exact .of_frames level machine (Vault.frames_of_steps steps ran returned.ne_endless)

/-- A scope that is created is not entered. -/
theorem createOwned (level : Level) (owner : Handle) (name : String) :
    (Eval.onVault (Vault.createOwned owner name)).Balances level := by
  intro context machine _
  rw [onVault_apply]
  rcases Vault.createOwned_cases owner name machine.vault with
    ⟨handle, grown, created, frames⟩ | ⟨diagnostic, refused⟩
  · rw [created]
    exact .of_frames level machine frames
  · rw [refused]
    exact .refl _ _

theorem founding {next : Handle → Handle → Eval α} (span : Span) (outer inner : String)
    (nextBalances : ∀ scope part, (next scope part).Balances level) :
    (Eval.founding span outer inner next).Balances level := by
  refine bind (owner level) fun parent => ?_
  refine bind (located span (createOwned level parent outer)) fun scope => ?_
  exact bind (located span (createOwned level scope inner)) fun part => nextBalances scope part

theorem aside (level : Level) {change : Machine → Machine}
    (same : ∀ machine : Machine, machine.Aside (change machine)) :
    (Eval.update change).Balances level :=
  fun _ machine _ => .of_aside level (same machine)

/-! ## Brackets -/

/-- A body is evaluated inside a bracket that has been opened; the bracket balances if closing it
does whenever the body has left everything as it was inside. -/
theorem ensuring {inner : Level} {body : Eval α} {atEnd : Eval Unit}
    (bodyBalances : body.Balances inner) (unfailing : atEnd.Unfailing) {context : Context}
    {before opened : Machine}
    (closing : ∀ {after final}, opened.Balanced inner after →
      atEnd context after = (.done (), final) → before.Balanced level final)
    (returned : (Eval.ensuring body atEnd context opened).1.Returned) :
    before.Balanced level (Eval.ensuring body atEnd context opened).2 := by
  obtain ⟨bodyReturned, ended⟩ := ensuring_of_returned unfailing returned
  exact closing (bodyBalances context opened bodyReturned) ended

/-- The depth goes back to what it was when the body has returned. -/
theorem deeper {body : Eval α} (span : Span) (bodyBalances : body.Balances level) :
    (Eval.deeper span body).Balances level := by
  intro context machine returned
  unfold Eval.deeper at returned ⊢
  split at returned
  case isTrue exceeded =>
    rw [if_pos exceeded]
    exact .refl _ _
  case isFalse allowed =>
    rw [if_neg allowed]
    refine ensuring bodyBalances (.update _) ?_ returned
    rintro after final balanced ⟨⟩
    exact ⟨balanced.frames, balanced.files, by simp [balanced.depth], balanced.activations⟩

/-- The file that was put on top is taken away again. -/
theorem inFile {body : Eval α} (file : SourceFile) (bodyBalances : body.Balances level) :
    (Eval.inFile file body).Balances level := by
  intro context machine returned
  unfold Eval.inFile at returned ⊢
  rw [update_bind_apply] at returned ⊢
  refine ensuring bodyBalances (.update _) ?_ returned
  rintro after final balanced ⟨⟩
  exact ⟨balanced.frames, by simp [balanced.files], balanced.depth, balanced.activations⟩

/-- What a function yields goes to its own activation. -/
theorem activated {body : Eval α} (bodyBalances : body.Balances .statement) :
    (Evaluator.activated body).Balances .expression := by
  intro context machine returned
  unfold Evaluator.activated at returned ⊢
  rw [update_bind_apply] at returned ⊢
  refine ensuring bodyBalances (.update _) ?_ returned
  rintro after final balanced ⟨⟩
  exact ⟨balanced.frames, balanced.files, balanced.depth, balanced.activations.tail_eq⟩

/-- A block leaves its frame when its body has returned. -/
theorem inBlock {body : Eval α} (bodyBalances : body.Balances level) :
    (Eval.inBlock body).Balances level := by
  intro context machine returned
  unfold Eval.inBlock at returned ⊢
  rw [bind_apply, onVault_apply] at returned ⊢
  rcases Vault.enter_cases .block machine.vault with
    ⟨handle, opened, entered, frames⟩ | ⟨crash, crashed⟩
  · rw [Vault.enterBlock, entered] at returned ⊢
    refine ensuring bodyBalances (.onVault (Vault.unfailing_leave .block)) ?_ returned
    intro after final inside left
    exact inside.leaving left (Vault.frames_of_leave (inside.frames.trans frames))
  · rw [Vault.enterBlock, crashed] at returned
    cases returned

/-- A visit leaves its frame when the body has returned. -/
theorem inScope {body : Eval α} (span : Span) (handle : Handle)
    (bodyBalances : body.Balances level) :
    (Evaluator.inScope span handle body).Balances level := by
  intro context machine returned
  unfold Evaluator.inScope at returned ⊢
  rw [bind_apply, Eval.onVaultAt, onVault_apply] at returned ⊢
  rcases Vault.enterNamed_cases handle machine.vault with
    ⟨opened, entered, frames⟩ | ⟨diagnostic, refused⟩
  · rw [entered] at returned ⊢
    refine ensuring bodyBalances (.onVault Vault.unfailing_exitNamed) ?_ returned
    intro after final inside left
    exact inside.leaving left (Vault.frames_of_exitNamed (inside.frames.trans frames))
  · rw [refused]
    exact .refl _ _

/-- A declaration leaves its frame when its body has returned. -/
theorem inDeclaration {body : Eval α} (name : String) (bodyBalances : body.Balances level) :
    (Eval.inDeclaration name body).Balances level := by
  intro context machine returned
  unfold Eval.inDeclaration at returned ⊢
  rw [bind_apply, onVault_apply] at returned ⊢
  rcases Vault.declare_cases name machine.vault with
    ⟨handle, opened, declared, frames⟩ | ⟨crash, crashed⟩
  · rw [declared] at returned ⊢
    refine ensuring bodyBalances (.onVault (Vault.unfailing_endDeclaration handle name)) ?_ returned
    intro after final inside left
    exact inside.leaving left (Vault.frames_of_endDeclaration (inside.frames.trans frames))
  · rw [crashed] at returned
    cases returned

theorem defineMethods (level : Level) (methods : List (String × Native)) :
    (Evaluator.defineMethods methods).Balances level := by
  induction methods with
  | nil => exact fun _ _ _ => .refl _ _
  | cons method methods inductionHypothesis =>
      exact bind (onVault level (.define _ _)) fun _ => inductionHypothesis

/-- A box leaves its frame when the body has returned. -/
theorem inBox {body : Handle → Eval α} (value : Value)
    (bodyBalances : ∀ box, (body box).Balances level) :
    (Evaluator.inBox value body).Balances level := by
  intro context machine returned
  unfold Evaluator.inBox at returned ⊢
  rw [bind_apply, onVault_apply] at returned ⊢
  rcases Vault.enter_cases .boxed machine.vault with
    ⟨box, opened, entered, frames⟩ | ⟨crash, crashed⟩
  · rw [Vault.enterBoxed, entered] at returned ⊢
    dsimp only at returned ⊢
    -- The box is filled before anything is ensured, but filling it cannot fail.
    obtain ⟨_, holding, bound, rest⟩ := bind_of_returned (unfailing_define _ value) returned
    rw [rest] at returned ⊢
    obtain ⟨_, filled, methods, rest⟩ := bind_of_returned (unfailing_defineMethods _) returned
    rw [rest] at returned ⊢
    have inBox : Machine.Balanced level { machine with vault := opened } filled :=
      ((onVault level (.define _ _)).of_done bound).trans ((defineMethods level _).of_done methods)
    refine ensuring (bodyBalances box) (.onVault (Vault.unfailing_leave .boxed)) ?_ returned
    intro after final inside left
    have whole := inBox.trans inside
    exact whole.leaving left (Vault.frames_of_leave (whole.frames.trans frames))
  · rw [Vault.enterBoxed, crashed] at returned
    cases returned

/-- A bracket that a crash leaves open is balanced whenever it returns. -/
theorem followedBy {body : Eval α} {atEnd : Eval Unit} (bodyBalances : body.Balances level)
    (unfailing : atEnd.Unfailing) {context : Context} {before opened : Machine}
    (closing : ∀ {after final}, opened.Balanced level after →
      atEnd context after = (.done (), final) → before.Balanced level final)
    (returned : (Eval.followedBy body atEnd context opened).1.Returned) :
    before.Balanced level (Eval.followedBy body atEnd context opened).2 := by
  obtain ⟨bodyReturned, ended⟩ := followedBy_of_returned unfailing returned
  exact closing (bodyBalances context opened bodyReturned) ended

/-- The body of a declaration that has been opened, with what is done at its end. -/
theorem declared {body : Eval α} (bodyBalances : body.Balances level) {handle : Handle}
    (name : String) {context : Context} {before opened : Machine} {entered : Vault}
    (frames : entered.frames = ⟨.named, handle⟩ :: before.vault.frames)
    (inside : Machine.Balanced level { before with vault := entered } opened)
    (returned : (Eval.followedBy body (Eval.onVault (Vault.endDeclaration handle name)) context
      opened).1.Returned) :
    before.Balanced level (Eval.followedBy body
      (Eval.onVault (Vault.endDeclaration handle name)) context opened).2 := by
  refine followedBy bodyBalances (.onVault (Vault.unfailing_endDeclaration handle name)) ?_
    returned
  intro after final balanced left
  have whole := inside.trans balanced
  exact whole.leaving left (Vault.frames_of_endDeclaration (whole.frames.trans frames))

/-- A scope that is declared with a body leaves its frame at the end of the body. -/
theorem declareScope {recursion : Recursion} {body : List Stmt} (name : String)
    (isContext : Bool) (bodyBalances : (recursion.execute body).Balances .statement) :
    (Evaluator.declareScope recursion name body isContext).Balances .statement := by
  intro context machine returned
  unfold Evaluator.declareScope at returned ⊢
  rw [bind_apply, onVault_apply] at returned ⊢
  rcases Vault.declare_cases name machine.vault with
    ⟨handle, entered, declaredAt, frames⟩ | ⟨crash, crashed⟩
  · rw [declaredAt] at returned ⊢
    dsimp only at returned ⊢
    cases isContext with
    | false => exact declared bodyBalances name frames (.refl _ _) returned
    | true =>
        rw [if_pos rfl] at returned ⊢
        obtain ⟨_, opened, bound, rest⟩ := bind_of_returned (unfailing_define _ _) returned
        rw [rest] at returned ⊢
        exact declared bodyBalances name frames ((onVault _ (.define _ _)).of_done bound) returned
  · rw [crashed] at returned
    cases returned

end Balances

/-- All parts of the evaluator leave the stacks balanced. -/
theorem closed_balances : Eval.Closed Eval.Balances where
  raise holds := fun context machine returned => (holds context machine returned).raise
  result _ _ := fun _ _ _ => .refl _ _
  bind := .bind
  resume plain next otherwise := .resume (.onVault _ plain) next otherwise
  machine _ := fun _ _ _ => .refl _ _
  configured next _ := .bind (fun _ _ _ => .refl _ _) next
  origin _ := fun _ _ _ => .refl _ _
  within origin holds := fun context => holds { context with origin }
  fail _ _ := fun _ _ _ => .refl _ _
  failAt _ _ _ _ := fun _ _ _ => .refl _ _
  endless _ := fun _ _ returned => nomatch returned
  queryAt := .queryAt
  onVault := .onVault
  onVaultAt level span _ plain := .located span (.onVault level plain)
  aside := .aside
  yielding value := fun _ _ _ => ⟨rfl, rfl, rfl, [value], rfl⟩
  deeper := .deeper
  inBlock := .inBlock
  inFile := .inFile
  inCall filling body := .inBlock (.bind filling fun _ => .activated body)
  founding := .founding
  inScope := .inScope
  inBox := .inBox
  inDeclaration := .inDeclaration
  declareScope := .declareScope

end Eval

end ScopeScript
