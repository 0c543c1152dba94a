import ScopeScript.Proofs.Evaluator.Forest
import ScopeScript.Proofs.Vault.Territory

/-!
# The lifetime of scopes

Whatever an evaluation creates goes into the territory of the scopes that are open: into the tree
of the innermost block, or of a box or declaration above it. Expressions respect this in every
state, statements where the innermost scope belongs to the territory itself, because that is where
they declare scopes. They are executed in no other states: a scope that is merely visited is left
before, or a block has been entered on top of it. This is a closed property of computations
(`Eval.closed_confined`).

The tree of a block is freed when the block is left. So what runs in a block of its own restores
the store: the same records are live as before, and they own the same scopes (`Eval.Restores`). Both
hold as long as the numbers of the slots fit at the end.
-/

namespace ScopeScript

/-- Which scopes may be open where a computation of a level is run. -/
def Level.Admits : Level → List Opening → Prop
  | .expression, _ => True
  | .statement, openings => ∃ opening rest, openings = opening :: rest ∧ opening.isRoot = true

/-- A scope that has just been entered admits everything. -/
theorem Level.admits_cons (level : Level) {opening : Opening} (root : opening.isRoot = true)
    (openings : List Opening) : level.Admits (opening :: openings) := by
  cases level with
  | expression => trivial
  | statement => exact ⟨opening, openings, rfl, root⟩

/-- The store outside of the territory is as before. -/
def Machine.Spared (openings : List Opening) (before after : Machine) : Prop :=
  after.vault.outside (Opening.territory openings) =
    before.vault.outside (Opening.territory openings)

/-- What is spared by two changes is spared by one after the other. -/
theorem Machine.Spared.trans {openings : List Opening} {before middle after : Machine}
    (first : before.Spared openings middle) (second : middle.Spared openings after) :
    before.Spared openings after :=
  Eq.trans second first

namespace Eval

variable {α β : Type} {level : Level}

theorem onVault_of_done {operation : Run Vault α} {value : α} {context : Context}
    {machine after : Machine} (ended : onVault operation context machine = (.done value, after)) :
    operation machine.vault = (.done value, after.vault) := by
  rw [onVault_apply] at ended
  exact Prod.ext (congrArg (·.1) ended) (congrArg (·.2.vault) ended)

/-- A bracket that changes something beside the scopes leaves the store as its body does. -/
theorem vault_of_beside {body : Eval α} {undo : Machine → Machine} {context : Context}
    {opened : Machine}
    (returned : (Eval.ensuring body (Eval.update undo) context opened).1.Returned)
    (undone : ∀ machine : Machine, (undo machine).vault = machine.vault) :
    (body context opened).1.Returned ∧
      (Eval.ensuring body (Eval.update undo) context opened).2.vault =
        (body context opened).2.vault := by
  obtain ⟨bodyReturned, ended⟩ := ensuring_of_returned (.update undo) returned
  rw [← undone (body context opened).2]
  exact ⟨bodyReturned, congrArg (·.2.vault) ended.symm⟩

/-- A computation that comes to its own end has changed nothing outside of the territory. -/
structure Confined (level : Level) {α : Type} (computation : Eval α) : Prop where
  orderly : computation.Orderly
  spared : ∀ {context machine openings}, machine.Tidy openings → level.Admits openings →
    (computation context machine).2.vault.Fits → (computation context machine).1.Returned →
    machine.Spared openings (computation context machine).2

/-- After a computation that comes to its own end the same records are live, and they own the same
scopes. -/
structure Restores (computation : Eval α) : Prop where
  orderly : computation.Orderly
  same : ∀ {context machine openings}, machine.Tidy openings →
    (computation context machine).2.vault.Fits → (computation context machine).1.Returned →
    ∀ handle, (computation context machine).2.vault.ownedBy? handle =
      machine.vault.ownedBy? handle

/-- What restores the owners is confined. -/
theorem Restores.confined {computation : Eval α} (restores : computation.Restores)
    (level : Level) : computation.Confined level where
  orderly := restores.orderly
  spared tidy _ fits returned := Vault.outside_congr (restores.same tidy fits returned) _

namespace Confined

/-- What is confined in every state is so where statements may be run. -/
theorem raise {computation : Eval α} (confined : computation.Confined .expression) :
    computation.Confined .statement where
  orderly := confined.orderly
  spared tidy _ fits returned := confined.spared tidy trivial fits returned

/-- A computation that leaves the whole store alone. -/
theorem of_vault {computation : Eval α} (orderly : computation.Orderly)
    (untouched : ∀ context machine, (computation context machine).2.vault = machine.vault) :
    computation.Confined level where
  orderly := orderly
  spared {context machine openings} _ _ _ _ := by rw [Machine.Spared, untouched context machine]

/-- A sequence is confined if its parts are. -/
theorem bind {first : Eval α} {next : α → Eval β} (firstConfined : first.Confined level)
    (nextConfined : ∀ value, (next value).Confined level) : (first >>= next).Confined level where
  orderly := firstConfined.orderly.bind fun value => (nextConfined value).orderly
  spared {context machine openings} tidy admitted fits returned := by
    have ends := firstConfined.orderly.ends context machine openings tidy
    have spared : (first context machine).2.vault.Fits → (first context machine).1.Returned → _ :=
      firstConfined.spared tidy admitted
    rw [bind_apply] at fits returned ⊢
    generalize first context machine = ran at ends spared fits returned ⊢
    obtain ⟨outcome, middle⟩ := ran
    cases outcome with
    | done value =>
        have fitted : middle.vault.Fits := (nextConfined value).orderly.widens.fits fits
        exact (spared fitted (.done _)).trans
          ((nextConfined value).spared (ends fitted) admitted fits returned)
    | failed diagnostic => exact spared fits (.failed _)
    | crashed crash => cases returned
    | endless => cases returned

/-- A computation that is done has spared what was there. -/
theorem of_done {computation : Eval α} (confined : computation.Confined level)
    {context : Context} {machine after : Machine} {openings : List Opening} {value : α}
    (tidy : machine.Tidy openings) (admitted : level.Admits openings) (fits : after.vault.Fits)
    (ended : computation context machine = (.done value, after)) :
    after.Tidy openings ∧ machine.Spared openings after := by
  have ends := confined.orderly.ends context machine openings tidy
  have spared : (computation context machine).2.vault.Fits →
    (computation context machine).1.Returned → _ := confined.spared tidy admitted
  rw [ended] at ends spared
  exact ⟨ends fits, spared fits (.done _)⟩

/-- Going on after a diagnostic is confined if both ways are. -/
theorem resume {first : Eval α} {next : α → Eval β} {otherwise : Eval β}
    (firstConfined : first.Confined level) (nextConfined : ∀ value, (next value).Confined level)
    (otherwiseConfined : otherwise.Confined level) :
    (first.resume next otherwise).Confined level where
  orderly := firstConfined.orderly.resume (fun value => (nextConfined value).orderly)
    otherwiseConfined.orderly
  spared {context machine openings} tidy admitted fits returned := by
    have ends := firstConfined.orderly.ends context machine openings tidy
    have spared : (first context machine).2.vault.Fits → (first context machine).1.Returned → _ :=
      firstConfined.spared tidy admitted
    unfold Eval.resume at fits returned ⊢
    generalize first context machine = ran at ends spared fits returned ⊢
    obtain ⟨outcome, middle⟩ := ran
    cases outcome with
    | done value =>
        have fitted : middle.vault.Fits := (nextConfined value).orderly.widens.fits fits
        exact (spared fitted (.done _)).trans
          ((nextConfined value).spared (ends fitted) admitted fits returned)
    | failed diagnostic =>
        have fitted : middle.vault.Fits := otherwiseConfined.orderly.widens.fits fits
        exact (spared fitted (.failed _)).trans
          (otherwiseConfined.spared (ends fitted) admitted fits returned)
    | crashed crash => cases returned
    | endless => cases returned

theorem queryAt (level : Level) (span : Span) (query : Vault → Except Diagnostic α) :
    (Eval.queryAt span query).Confined level := by
  refine of_vault (.queryAt span query) fun context machine => ?_
  unfold Eval.queryAt
  split <;> rfl

/-- Between entries and exits no record is created, freed or handed over. -/
theorem onVault (level : Level) {operation : Run Vault α} (plain : Vault.Plain operation) :
    (Eval.onVault operation).Confined level where
  orderly := .onVault plain
  spared _ _ _ returned :=
    Vault.outside_congr (Vault.Edit.ownedBy?_eq (plain.edits _ returned.ne_endless)) _

/-- That diagnostics of the store are given a place makes no difference. -/
theorem located (span : Span) {operation : Run Vault α} (widens : operation.Widens)
    (confined : (Eval.onVault operation).Confined level) :
    (Eval.onVaultAt span operation).Confined level where
  orderly := .located span widens confined.orderly
  spared {context machine openings} tidy admitted fits returned := by
    have spared : (Eval.onVault operation context machine).2.vault.Fits →
      (Eval.onVault operation context machine).1.Returned → _ := confined.spared tidy admitted
    unfold Eval.onVaultAt at fits returned ⊢
    generalize Eval.onVault operation context machine = ran at spared fits returned ⊢
    obtain ⟨outcome, after⟩ := ran
    cases outcome with
    | done value => exact spared fits (.done _)
    | failed diagnostic => exact spared fits (.failed _)
    | crashed crash => cases returned
    | endless => cases returned

/-! ## Brackets -/

/-- The state in which a bracket is closed after its body. -/
theorem ensuring {body : Eval α} {atEnd : Eval Unit} (bodyConfined : body.Confined level)
    (endWidens : atEnd.Widens) (unfailing : atEnd.Unfailing) {context : Context}
    {opened : Machine} {inner : List Opening} (tidy : opened.Tidy inner)
    (admitted : level.Admits inner)
    (fits : (Eval.ensuring body atEnd context opened).2.vault.Fits)
    (returned : (Eval.ensuring body atEnd context opened).1.Returned) :
    ∃ after, after.Tidy inner ∧ opened.Spared inner after ∧
      atEnd context after = (.done (), (Eval.ensuring body atEnd context opened).2) := by
  obtain ⟨bodyReturned, ended⟩ := ensuring_of_returned unfailing returned
  have fitted := endWidens.fits_of_ended ended fits
  exact ⟨_, (bodyConfined.orderly.ends context opened inner tidy fitted).tidy bodyReturned,
    bodyConfined.spared tidy admitted fitted bodyReturned, ended⟩

/-- A bracket that a crash leaves open is confined whenever it returns. -/
theorem followedBy {body : Eval α} {atEnd : Eval Unit} (bodyConfined : body.Confined level)
    (endWidens : atEnd.Widens) (unfailing : atEnd.Unfailing) {context : Context}
    {opened : Machine} {inner : List Opening} (tidy : opened.Tidy inner)
    (admitted : level.Admits inner)
    (fits : (Eval.followedBy body atEnd context opened).2.vault.Fits)
    (returned : (Eval.followedBy body atEnd context opened).1.Returned) :
    ∃ after, after.Tidy inner ∧ opened.Spared inner after ∧
      atEnd context after = (.done (), (Eval.followedBy body atEnd context opened).2) := by
  obtain ⟨bodyReturned, ended⟩ := followedBy_of_returned unfailing returned
  have fitted := endWidens.fits_of_ended ended fits
  exact ⟨_, (bodyConfined.orderly.ends context opened inner tidy fitted).tidy bodyReturned,
    bodyConfined.spared tidy admitted fitted bodyReturned, ended⟩

/-- A bracket that changes something beside the scopes for the time of the body. -/
theorem beside {body : Eval α} (bodyConfined : body.Confined level) {undo : Machine → Machine}
    {context : Context} {machine opened : Machine} {openings : List Opening}
    (tidy : opened.Tidy openings) (admitted : level.Admits openings)
    (same : opened.vault = machine.vault)
    (undone : ∀ machine : Machine, (undo machine).vault = machine.vault)
    (fits : (Eval.ensuring body (Eval.update undo) context opened).2.vault.Fits)
    (returned : (Eval.ensuring body (Eval.update undo) context opened).1.Returned) :
    machine.Spared openings (Eval.ensuring body (Eval.update undo) context opened).2 := by
  obtain ⟨bodyReturned, kept⟩ := vault_of_beside returned undone
  rw [kept] at fits
  rw [Machine.Spared, kept, ← same]
  exact bodyConfined.spared tidy admitted fits bodyReturned

/-- Going deeper creates and frees nothing by itself. -/
theorem deeper {body : Eval α} (span : Span) (bodyConfined : body.Confined level) :
    (Eval.deeper span body).Confined level where
  orderly := .deeper span bodyConfined.orderly
  spared {context machine openings} tidy admitted fits returned := by
    unfold Eval.deeper at fits returned ⊢
    split at returned
    case isTrue exceeded =>
      rw [if_pos exceeded]
      rfl
    case isFalse allowed =>
      rw [if_neg allowed] at fits ⊢
      exact beside bodyConfined ⟨tidy.someOpen, tidy.forest, tidy.uncrashed⟩ admitted rfl
        (fun _ => rfl) fits returned

/-- Another file on top creates and frees nothing. -/
theorem inFile {body : Eval α} (file : SourceFile) (bodyConfined : body.Confined level) :
    (Eval.inFile file body).Confined level where
  orderly := .inFile file bodyConfined.orderly
  spared {context machine openings} tidy admitted fits returned := by
    unfold Eval.inFile at fits returned ⊢
    rw [update_bind_apply] at fits returned ⊢
    exact beside bodyConfined ⟨tidy.someOpen, tidy.forest, tidy.uncrashed⟩ admitted rfl
      (fun _ => rfl) fits returned

/-- The body of a function consists of statements, so it needs a block. -/
theorem activated {body : Eval α} (bodyConfined : body.Confined .statement) :
    (Evaluator.activated body).Confined .statement where
  orderly := .activated bodyConfined.orderly
  spared {context machine openings} tidy admitted fits returned := by
    unfold Evaluator.activated at fits returned ⊢
    rw [update_bind_apply] at fits returned ⊢
    exact beside bodyConfined ⟨tidy.someOpen, tidy.forest, tidy.uncrashed⟩ admitted rfl
      (fun _ => rfl) fits returned

/-- A block or box is freed with everything that has been created in it. -/
theorem leaving {kind : FrameKind} {handle : Handle} {inner : List Opening} {below : FrameStack}
    {roots : List Handle} {context : Context} {before : Vault} {opened after final : Machine}
    (frames : after.vault.frames = ⟨kind, handle⟩ :: below)
    (territory : Opening.territory inner = handle :: roots)
    (grown : before.Grown handle opened.vault) (spared : opened.Spared inner after)
    (left : Eval.onVault (Vault.leave kind) context after = (.done (), final)) :
    final.vault.outside roots = before.outside roots := by
  rw [Machine.Spared, territory] at spared
  calc final.vault.outside roots
      = after.vault.outside (handle :: roots) :=
        Vault.outside_of_leave frames (onVault_of_done left) roots
    _ = opened.vault.outside (handle :: roots) := spared
    _ = before.outside roots := grown.outside_eq roots

theorem defineMethods (level : Level) (methods : List (String × Native)) :
    (Evaluator.defineMethods methods).Confined level := by
  induction methods with
  | nil => exact of_vault (.defineMethods []) fun _ _ => rfl
  | cons method methods inductionHypothesis =>
      exact bind (onVault level (.define _ _)) fun _ => inductionHypothesis

/-- A box is freed with all it owns. -/
theorem inBox {body : Handle → Eval α} (value : Value)
    (bodyConfined : ∀ box, (body box).Confined level) :
    (Evaluator.inBox value body).Confined level where
  orderly := .inBox value fun box => (bodyConfined box).orderly
  spared {context machine openings} tidy admitted fits returned := by
    unfold Evaluator.inBox at fits returned ⊢
    obtain ⟨box, opened, entered, forest⟩ := tidy.forest.enter (.inr rfl)
    rw [bind_apply, onVault_apply, Vault.enterBoxed, entered] at fits returned ⊢
    dsimp only at fits returned ⊢
    obtain ⟨_, holding, bound, rest⟩ := bind_of_returned (unfailing_define _ value) returned
    rw [rest] at fits returned ⊢
    obtain ⟨_, filled, methods, rest⟩ := bind_of_returned (unfailing_defineMethods _) returned
    rw [rest] at fits returned ⊢
    have leaveWidens := Widens.leave .boxed
    have fitsFilled : filled.vault.Fits :=
      ((bodyConfined box).orderly.widens.ensuring leaveWidens).fits fits
    have fitsHolding : holding.vault.Fits :=
      (Widens.defineMethods _).fits_of_ended methods fitsFilled
    have fitsInside : opened.Fits := (Widens.define _ value).fits_of_ended bound fitsHolding
    have tidyInside : Machine.Tidy (.boxed box :: openings) { machine with vault := opened } :=
      ⟨List.cons_ne_nil _ _, forest fitsInside, tidy.uncrashed⟩
    have admittedInside := level.admits_cons (rfl : (Opening.boxed box).isRoot = true) openings
    obtain ⟨tidyHolding, sparedHolding⟩ :=
      (onVault level (.define _ _)).of_done tidyInside admittedInside fitsHolding bound
    obtain ⟨tidyFilled, sparedFilled⟩ :=
      (defineMethods level _).of_done tidyHolding admittedInside fitsFilled methods
    obtain ⟨after, tidyAfter, sparedAfter, left⟩ := ensuring (bodyConfined box) leaveWidens
      (.onVault (Vault.unfailing_leave .boxed)) tidyFilled admittedInside fits returned
    have spared := (sparedHolding.trans sparedFilled).trans sparedAfter
    exact leaving tidyAfter.forest.frames rfl
      (tidy.forest.consistent.grown_of_enter entered fitsInside) spared left

/-- A visit of a scope adds nothing to the territory. -/
theorem inScope {body : Eval α} (span : Span) (handle : Handle)
    (bodyConfined : body.Confined .expression) :
    (Evaluator.inScope span handle body).Confined .expression where
  orderly := .inScope span handle bodyConfined.orderly
  spared {context machine openings} tidy admitted fits returned := by
    unfold Evaluator.inScope at fits returned ⊢
    rw [bind_apply, Eval.onVaultAt, onVault_apply] at fits returned ⊢
    rcases tidy.forest.enterNamed handle with ⟨opened, entered, forest⟩ | ⟨diagnostic, refused⟩
    · rw [entered] at fits returned ⊢
      have tidyInside : Machine.Tidy (.visit handle :: openings) { machine with vault := opened } :=
        ⟨List.cons_ne_nil _ _, forest, tidy.uncrashed⟩
      obtain ⟨after, tidyAfter, spared, left⟩ := ensuring bodyConfined .exitNamed
        (.onVault Vault.unfailing_exitNamed) tidyInside trivial fits returned
      exact Eq.trans (Vault.outside_of_exitNamed tidyAfter.forest.frames (onVault_of_done left) _)
        (Eq.trans spared (Vault.outside_of_enterNamed entered _))
    · rw [refused]
      rfl

/-- Where a declaration ends, the scope that takes it over belongs to the territory. -/
theorem endingDeclaration {handle : Handle} {name : String} {openings : List Opening}
    (admitted : Level.statement.Admits openings) {context : Context} {before : Vault}
    {opened after final : Machine} (tidy : after.Tidy (.declaration handle :: openings))
    (grown : before.Grown handle opened.vault)
    (spared : opened.Spared (.declaration handle :: openings) after)
    (ended : Eval.onVault (Vault.endDeclaration handle name) context after = (.done (), final)) :
    final.vault.outside (Opening.territory openings) =
      before.outside (Opening.territory openings) := by
  obtain ⟨outer, rest, rfl, root⟩ := admitted
  have live := tidy.forest.active outer (List.mem_cons_of_mem _ List.mem_cons_self)
  have inside : after.vault.Reached (Opening.territory (outer :: rest)) outer.record :=
    Vault.reached_of_mem (Opening.record_mem_territory root rest)
  calc final.vault.outside (Opening.territory (outer :: rest))
      = after.vault.outside (handle :: Opening.territory (outer :: rest)) :=
        Vault.outside_of_endDeclaration tidy.forest.frames live inside (onVault_of_done ended)
    _ = opened.vault.outside (handle :: Opening.territory (outer :: rest)) := spared
    _ = before.outside (Opening.territory (outer :: rest)) := grown.outside_eq _

/-- A declared scope is bound in the scope outside, which may then own more. -/
theorem inDeclaration {body : Eval α} (name : String) (bodyConfined : body.Confined .statement) :
    (Eval.inDeclaration name body).Confined .statement where
  orderly := .inDeclaration name bodyConfined.orderly
  spared {context machine openings} tidy admitted fits returned := by
    unfold Eval.inDeclaration at fits returned ⊢
    obtain ⟨handle, opened, declared, forest⟩ := tidy.forest.declare tidy.someOpen name
    rw [bind_apply, onVault_apply, declared] at fits returned ⊢
    have endWidens := Widens.endDeclaration handle name
    have fitsInside : opened.Fits := (bodyConfined.orderly.widens.ensuring endWidens).fits fits
    have tidyInside : Machine.Tidy (.declaration handle :: openings)
        { machine with vault := opened } :=
      ⟨List.cons_ne_nil _ _, forest fitsInside, tidy.uncrashed⟩
    obtain ⟨after, tidyAfter, spared, ended⟩ := ensuring bodyConfined endWidens
      (.onVault (Vault.unfailing_endDeclaration handle name)) tidyInside
      (Level.admits_cons _ rfl _) fits returned
    exact endingDeclaration admitted tidyAfter
      (tidy.forest.consistent.grown_of_declare declared fitsInside) spared ended

/-- A scope that is declared with a body goes to the scope outside. -/
theorem declareScope {recursion : Recursion} {body : List Stmt} (name : String)
    (isContext : Bool) (bodyConfined : (recursion.execute body).Confined .statement) :
    (Evaluator.declareScope recursion name body isContext).Confined .statement where
  orderly := .declareScope name isContext bodyConfined.orderly
  spared {context machine openings} tidy admitted fits returned := by
    unfold Evaluator.declareScope at fits returned ⊢
    obtain ⟨handle, opened, declared, forest⟩ := tidy.forest.declare tidy.someOpen name
    rw [bind_apply, onVault_apply, declared] at fits returned ⊢
    have tidyInside (fitsInside : opened.Fits) : Machine.Tidy (.declaration handle :: openings)
        { machine with vault := opened } :=
      ⟨List.cons_ne_nil _ _, forest fitsInside, tidy.uncrashed⟩
    have grown (fitsInside : opened.Fits) :=
      tidy.forest.consistent.grown_of_declare declared fitsInside
    have admittedInside := Level.admits_cons .statement
      (rfl : (Opening.declaration handle).isRoot = true) openings
    have endWidens := Widens.endDeclaration handle name
    have bodyWidens := bodyConfined.orderly.widens.followedBy endWidens
    have unfailing : (Eval.onVault (Vault.endDeclaration handle name)).Unfailing :=
      .onVault (Vault.unfailing_endDeclaration handle name)
    cases isContext with
    | false =>
        have fitsInside : opened.Fits := bodyWidens.fits fits
        obtain ⟨after, tidyAfter, spared, ended⟩ := followedBy bodyConfined endWidens unfailing
          (tidyInside fitsInside) admittedInside fits returned
        exact endingDeclaration admitted tidyAfter (grown fitsInside) spared ended
    | true =>
        obtain ⟨_, bound, defined, rest⟩ :=
          bind_of_returned (unfailing_define "this" (.scope handle)) returned
        simp only [if_true] at fits returned ⊢
        rw [rest] at fits returned ⊢
        have fitsBound : bound.vault.Fits := bodyWidens.fits fits
        have fitsInside : opened.Fits := (Widens.define _ _).fits_of_ended defined fitsBound
        obtain ⟨tidyBound, sparedBound⟩ := (onVault .statement (.define _ _)).of_done
          (tidyInside fitsInside) admittedInside fitsBound defined
        obtain ⟨after, tidyAfter, spared, ended⟩ := followedBy bodyConfined endWidens unfailing
          tidyBound admittedInside fits returned
        exact endingDeclaration admitted tidyAfter (grown fitsInside) (sparedBound.trans spared)
          ended

/-- A scope is created inside of what the territory reaches. -/
theorem creating {next : Handle → Eval α} (nextWidens : ∀ handle, (next handle).Widens)
    {owner : Handle} {name : String} (span : Span) {context : Context} {machine : Machine}
    {openings : List Opening} (tidy : machine.Tidy openings)
    (inside : machine.vault.Reached (Opening.territory openings) owner)
    (goesOn : ∀ handle (after : Machine), after.Tidy openings →
      after.vault.Reached (Opening.territory openings) handle →
      (next handle context after).2.vault.Fits → (next handle context after).1.Returned →
      after.Spared openings (next handle context after).2)
    (fits : ((Eval.onVaultAt span (Vault.createOwned owner name) >>= next) context
      machine).2.vault.Fits)
    (returned :
      ((Eval.onVaultAt span (Vault.createOwned owner name) >>= next) context machine).1.Returned) :
    machine.Spared openings
      ((Eval.onVaultAt span (Vault.createOwned owner name) >>= next) context machine).2 := by
  rw [bind_apply, Eval.onVaultAt, onVault_apply] at fits returned ⊢
  rcases tidy.forest.createOwned owner name with ⟨handle, grown, created, forest⟩ | ⟨_, refused⟩
  · rw [created] at fits returned ⊢
    have fitted : grown.Fits := (nextWidens handle).fits fits
    obtain ⟨same, reached⟩ :=
      Vault.outside_of_createOwned tidy.forest.consistent fitted inside created
    have tidyGrown : Machine.Tidy openings { machine with vault := grown } :=
      ⟨tidy.someOpen, forest fitted, tidy.uncrashed⟩
    exact Eq.trans (goesOn handle _ tidyGrown reached fits returned) same
  · rw [refused]
    rfl

/-- Both scopes are created inside the innermost block, which belongs to the territory. -/
theorem founding {next : Handle → Handle → Eval α} (span : Span) (outer inner : String)
    (nextConfined : ∀ scope part, (next scope part).Confined level) :
    (Eval.founding span outer inner next).Confined level where
  orderly := .founding span outer inner fun scope part => (nextConfined scope part).orderly
  spared {context machine openings} tidy admitted fits returned := by
    obtain ⟨owner, found⟩ := tidy.forest.owner tidy.someOpen
    have inside : machine.vault.Reached (Opening.territory openings) owner :=
      Vault.reached_of_mem (tidy.forest.owner_mem_territory found)
    unfold Eval.founding at fits returned ⊢
    rw [bind_apply, onVault_apply, found] at fits returned ⊢
    have lastWidens (scope part : Handle) := (nextConfined scope part).orderly.widens
    have partWidens (scope : Handle) :=
      (Widens.onVaultAt span (Vault.widens_createOwned scope inner)).bind (lastWidens scope)
    refine creating partWidens span tidy inside ?_ fits returned
    intro scope created tidyCreated reached fitsCreated ended
    refine creating (lastWidens scope) span tidyCreated reached ?_ fitsCreated ended
    intro part filled tidyFilled _ fitsFilled ended
    exact (nextConfined scope part).spared tidyFilled admitted fitsFilled ended

end Confined

namespace Restores

/-- A sequence restores the owners if its parts do. -/
theorem bind {first : Eval α} {next : α → Eval β} (firstRestores : first.Restores)
    (nextRestores : ∀ value, (next value).Restores) : (first >>= next).Restores where
  orderly := firstRestores.orderly.bind fun value => (nextRestores value).orderly
  same {context machine openings} tidy fits returned handle := by
    have ends := firstRestores.orderly.ends context machine openings tidy
    have same : (first context machine).2.vault.Fits → (first context machine).1.Returned → _ :=
      firstRestores.same tidy
    rw [bind_apply] at fits returned ⊢
    generalize first context machine = ran at ends same fits returned ⊢
    obtain ⟨outcome, middle⟩ := ran
    cases outcome with
    | done value =>
        have fitted : middle.vault.Fits := (nextRestores value).orderly.widens.fits fits
        exact ((nextRestores value).same (ends fitted) fits returned handle).trans
          (same fitted (.done _) handle)
    | failed diagnostic => exact same fits (.failed _) handle
    | crashed crash => cases returned
    | endless => cases returned

theorem result (value : α) : (pure value : Eval α).Restores where
  orderly := closed_orderly.result .expression value
  same _ _ _ _ := rfl

theorem failAt (span : Span) (kind : DiagnosticKind) (message : String) :
    (Eval.failAt span kind message : Eval α).Restores where
  orderly := closed_orderly.failAt .expression span kind message
  same _ _ _ _ := rfl

/-- What goes deeper restores the owners if it does so itself. -/
theorem deeper {body : Eval α} (span : Span) (bodyRestores : body.Restores) :
    (Eval.deeper span body).Restores where
  orderly := .deeper span bodyRestores.orderly
  same {context machine openings} tidy fits returned handle := by
    unfold Eval.deeper at fits returned ⊢
    split at returned
    case isTrue exceeded =>
      rw [if_pos exceeded]
      rfl
    case isFalse allowed =>
      rw [if_neg allowed] at fits ⊢
      obtain ⟨bodyReturned, kept⟩ := vault_of_beside returned fun _ => rfl
      have tidyDeeper : Machine.Tidy openings { machine with depth := machine.depth + 1 } :=
        ⟨tidy.someOpen, tidy.forest, tidy.uncrashed⟩
      rw [kept] at fits ⊢
      exact bodyRestores.same tidyDeeper fits bodyReturned handle

/-- A block gives the store back as it was found, whatever runs inside. -/
theorem inBlock {body : Eval α} (bodyConfined : body.Confined level) :
    (Eval.inBlock body).Restores where
  orderly := .inBlock bodyConfined.orderly
  same {context machine openings} tidy fits returned := by
    unfold Eval.inBlock at fits returned ⊢
    obtain ⟨handle, opened, entered, forest⟩ := tidy.forest.enter (.inl rfl)
    rw [bind_apply, onVault_apply, Vault.enterBlock, entered] at fits returned ⊢
    have leaveWidens := Widens.leave .block
    have fitsInside : opened.Fits := (bodyConfined.orderly.widens.ensuring leaveWidens).fits fits
    have tidyInside : Machine.Tidy (.block handle :: openings) { machine with vault := opened } :=
      ⟨List.cons_ne_nil _ _, forest fitsInside, tidy.uncrashed⟩
    obtain ⟨after, tidyAfter, spared, left⟩ := bodyConfined.ensuring leaveWidens
      (.onVault (Vault.unfailing_leave .block)) tidyInside (level.admits_cons rfl _) fits returned
    exact Vault.ownedBy?_eq_of_outside (Confined.leaving tidyAfter.forest.frames rfl
      (tidy.forest.consistent.grown_of_enter entered fitsInside) spared left)

/-- A call restores the owners, since its block is freed with all it owns. -/
theorem inCall {filling : Eval Unit} {body : Eval α}
    (fillingConfined : filling.Confined .expression)
    (bodyConfined : body.Confined .statement) : (Eval.inCall filling body).Restores :=
  inBlock (fillingConfined.raise.bind fun _ => bodyConfined.activated)

end Restores

/-- All parts of the evaluator respect the territory. -/
theorem closed_confined : Eval.Closed Eval.Confined where
  raise := .raise
  result level value := (Restores.result value).confined level
  bind := .bind
  resume plain next otherwise := .resume (.onVault _ plain) next otherwise
  machine level := .of_vault (closed_orderly.machine level) fun _ _ => rfl
  configured next _ :=
    .bind (.of_vault ⟨.of_vault fun _ _ => rfl, fun _ _ _ tidy _ => tidy⟩ fun _ _ => rfl) next
  origin level := .of_vault (closed_orderly.origin level) fun _ _ => rfl
  within origin confined :=
    { orderly := .within origin confined.orderly
      spared := confined.spared }
  fail level diagnostic := .of_vault (closed_orderly.fail level diagnostic) fun _ _ => rfl
  failAt level span kind message := (Restores.failAt span kind message).confined level
  endless level :=
    { orderly := closed_orderly.endless level
      spared := fun _ _ _ returned => nomatch returned }
  queryAt := .queryAt
  onVault := .onVault
  onVaultAt level span _ plain := .located span plain.widens (.onVault level plain)
  aside _ _ same := .of_vault (.aside same) fun _ machine => (same machine).vault
  yielding value := .of_vault (closed_orderly.yielding value) fun _ _ => rfl
  deeper := .deeper
  inBlock body := (Restores.inBlock body).confined _
  inFile := .inFile
  inCall filling body := (Restores.inCall filling body).confined _
  founding := .founding
  inScope := .inScope
  inBox := .inBox
  inDeclaration := .inDeclaration
  declareScope := .declareScope

end Eval
end ScopeScript
