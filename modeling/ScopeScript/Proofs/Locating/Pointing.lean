import ScopeScript.Proofs.Evaluator.Balance
import ScopeScript.Proofs.Evaluator.Keeping
import ScopeScript.Proofs.Evaluator.Widening
import ScopeScript.Proofs.Parser.Nodes
import ScopeScript.Proofs.Vault.Failing

/-!
# Where diagnostics point

A diagnostic of an evaluation names the file that is being executed and has the span of the node
that is being evaluated. The node stands in that file as long as it belongs to the top level of a
program. The body of a function and the right side of a formula keep no file, however; they are
evaluated while any file is executed. So the span belongs either to the file that is named or to
some code that is evaluated later than the top level of its own file (`Sources.Locates`).

`Eval.Points` says of a computation that its diagnostics are of this kind. For that, all code in the
store and in the yielded values has to come from a known file, and this is carried along
(`Sources.Stands`). The position in a run that a computation starts from and comes back to is a
`Place`.
-/

namespace ScopeScript

/-- The spans of those nodes of the prelude that are evaluated later: in the methods of maps. -/
def Prelude.deferredSpans : List Span :=
  Stmt.deferredSpansAll Prelude.statements

/-- The files of a run: the program and what its imports find. -/
structure Sources where
  main : SourceFile
  imports : FileReader

/-- Where an evaluation is: the file being executed, the files whose imports have led there, and the
number of calls that are active. -/
structure Place where
  file : SourceFile
  outer : List SourceFile
  calls : Nat

namespace Sources

variable (sources : Sources)

/-- A file is the program or what an import finds. -/
def Opens (file : SourceFile) : Prop :=
  file = sources.main ∨ sources.imports file.path = .ok file.source

/-- A span belongs to a node that is evaluated later than the top level of its file, which may also
be the prelude. -/
def Defers (span : Span) : Prop :=
  (∃ home, sources.Opens home ∧ span ∈ home.deferredSpans) ∨ span ∈ Prelude.deferredSpans

/-- A span belongs to a node that may be evaluated while a file is executed. -/
def Near (file : SourceFile) (span : Span) : Prop :=
  sources.Opens file ∧ (span ∈ file.spans ∨ sources.Defers span)

/-- A diagnostic names a file, and its span is that of a node in this file or of a node that is
evaluated later than the top level of its own file. Only at the top level of a file a throw remains
uncaught or a yield is refused. -/
structure Locates (file : SourceFile) (diagnostic : Diagnostic) : Prop where
  opened : sources.Opens file
  path : diagnostic.path = file.path
  source : diagnostic.source = file.source
  span : diagnostic.span ∈ file.spans ∨
    sources.Defers diagnostic.span ∧ diagnostic.kind ≠ .uncaughtThrow ∧
      diagnostic.kind ≠ .yieldOutside

/-- A diagnostic is located in a file, unless it is about a text that is not a program. -/
def Explains (diagnostic : Diagnostic) : Prop :=
  diagnostic.kind ≠ .lexical → diagnostic.kind ≠ .grammar →
    ∃ file, sources.Locates file diagnostic

/-- Code is evaluated later than the top level of its file. -/
def Supplies : Code → Prop
  | .formula content => content.expr.EverySpan sources.Defers
  | .function content => Stmt.EverySpanAll sources.Defers content.body

/-- Statements with spans of some kind may be executed at a place: outside of calls they stand in
the file that is executed. -/
def Fits (place : Place) (here : Span → Prop) : Prop :=
  ∀ span, here span →
    sources.Near place.file span ∧ (place.calls = 0 → span ∈ place.file.spans)

/-- The code that control is transferred with is evaluated later, and a throw stands where the
statements do. -/
inductive Transfers (here : Span → Prop) : Flow → Prop
  | proceed : Transfers here .proceed
  | leaveLoop : Transfers here .leaveLoop
  | nextRound : Transfers here .nextRound
  | result {value : Value} : value.Keeps sources.Supplies → Transfers here (.result value)
  | thrown {value : Value} {span : Span} :
      value.Keeps sources.Supplies → here span → Transfers here (.thrown value span)

/-- The store is in order as long as the numbers of its slots fit, and the code in it is evaluated
later. -/
def Stores (vault : Vault) : Prop :=
  (vault.Fits → vault.Consistent) ∧ vault.Holds (Value.Keeps sources.Supplies)

/-- A machine is at a place, and the code in it is evaluated later. -/
structure Stands (place : Place) (machine : Machine) : Prop where
  stored : sources.Stores machine.vault
  yielded : ∀ values ∈ machine.activations, ∀ value ∈ values, value.Keeps sources.Supplies
  files : machine.files = place.file :: place.outer
  calls : machine.activations.length = place.calls

/-- How a computation may end: with a result at a place, with a diagnostic that is located, with a
crash or not at all. Nothing is said of diagnostics after the numbers of the slots have ceased to
fit. -/
inductive Ended (place : Place) (P : α → Prop) : Outcome α × Machine → Prop
  | done {value : α} {machine : Machine} :
      P value → sources.Stands place machine → Ended place P (.done value, machine)
  | failed {diagnostic : Diagnostic} (machine : Machine) :
      sources.Explains diagnostic → Ended place P (.failed diagnostic, machine)
  | overfull {diagnostic : Diagnostic} {machine : Machine} :
      ¬machine.vault.Fits → Ended place P (.failed diagnostic, machine)
  | crashed (crash : Crash) (machine : Machine) : Ended place P (.crashed crash, machine)
  | endless (machine : Machine) : Ended place P (.endless, machine)

end Sources

/-- A computation that starts at a place comes back to it or ends with a diagnostic that is located;
its result has a property. -/
def Eval.Points (sources : Sources) (place : Place) (P : α → Prop) (computation : Eval α) : Prop :=
  ∀ context machine, context.config.files = sources.imports → sources.Stands place machine →
    sources.Ended place P (computation context machine)

/-! ## Located diagnostics -/

namespace Sources

variable {sources : Sources} {place : Place} {machine : Machine} {span : Span}

/-- That every value comes from the sources is an invariant of the store. -/
theorem invariant_stores : Vault.Invariant sources.Stores (Value.Keeps sources.Supplies) :=
  (Vault.invariant_holds _).consistent

/-- A diagnostic that points near its file explains itself, unless it is about a throw or a yield.
-/
theorem Near.explains (near : sources.Near place.file span) {diagnostic : Diagnostic}
    (path : diagnostic.path = place.file.path) (source : diagnostic.source = place.file.source)
    (same : diagnostic.span = span)
    (other : diagnostic.kind ≠ .uncaughtThrow ∧ diagnostic.kind ≠ .yieldOutside) :
    sources.Explains diagnostic := by
  subst same
  exact fun _ _ => ⟨place.file, near.1, path, source, near.2.imp_right (⟨·, other⟩)⟩

namespace Stands

/-- The current file is the file of the place. -/
theorem currentFile (stands : sources.Stands place machine) : machine.currentFile = place.file := by
  rw [Machine.currentFile, stands.files]
  rfl

/-- The store is another one. -/
theorem onVault (stands : sources.Stands place machine) {vault : Vault}
    (stored : sources.Stores vault) : sources.Stands place { machine with vault } :=
  ⟨stored, stands.yielded, stands.files, stands.calls⟩

/-- Something else has changed than the store, the files and the calls. -/
theorem beside (stands : sources.Stands place machine) {after : Machine}
    (vault : after.vault = machine.vault) (files : after.files = machine.files)
    (activations : after.activations = machine.activations) : sources.Stands place after := by
  refine ⟨?_, ?_, files.trans stands.files, ?_⟩
  · rw [vault]
    exact stands.stored
  · rw [activations]
    exact stands.yielded
  · rw [activations]
    exact stands.calls

/-- What the store says is missing is told of at the place where it was looked for. -/
theorem locate (stands : sources.Stands place machine) (near : sources.Near place.file span)
    {diagnostic : Diagnostic} (bare : diagnostic.Bare) :
    sources.Explains (machine.locate span diagnostic) := by
  have located : machine.locate span diagnostic =
      { diagnostic with span, path := place.file.path, source := place.file.source } := by
    unfold Machine.locate Diagnostic.withSource
    rw [stands.currentFile]
    simp [bare.span, bare.path, bare.source, Span.isNull]
  rw [located]
  refine near.explains rfl rfl rfl ?_
  rcases bare.kind with kind | kind <;> simp [kind]

end Stands

namespace Ended

variable {α β : Type} {inner outer : Place} {P : α → Prop} {Q : β → Prop} {context : Context}

/-- What follows a result goes on at the place where the first part has ended. -/
theorem bind {first : Eval α} {next : α → Eval β}
    (ended : sources.Ended inner P (first context machine))
    (goesOn : ∀ value middle, P value → sources.Stands inner middle →
      sources.Ended outer Q (next value context middle)) :
    sources.Ended outer Q ((first >>= next) context machine) := by
  rw [Eval.bind_apply]
  generalize first context machine = ran at ended ⊢
  cases ended with
  | done holds stands => exact goesOn _ _ holds stands
  | failed middle explains => exact .failed middle explains
  | overfull unfit => exact .overfull unfit
  | crashed crash middle => exact .crashed crash middle
  | endless middle => exact .endless middle

/-- What is done at the end of a body leads from one place to another. -/
theorem finishing {atEnd : Eval Unit} (unfailing : atEnd.Unfailing) (widens : atEnd.Widens)
    {outcome : Outcome α} (ended : sources.Ended inner P (outcome, machine))
    (closing : ∀ after, sources.Stands inner after →
      sources.Ended outer (fun _ => True) (atEnd context after)) :
    sources.Ended outer P (Eval.finishing atEnd outcome context machine) := by
  have notFailed := unfailing context machine
  have wide := widens context machine
  have closed := closing machine
  unfold Eval.finishing
  generalize atEnd context machine = ran at notFailed wide closed ⊢
  obtain ⟨closedBy, after⟩ := ran
  cases closedBy with
  | done =>
      cases ended with
      | done holds stands =>
          cases closed stands with
          | done _ standsAfter => exact .done holds standsAfter
      | failed _ explains => exact .failed after explains
      | overfull unfit => exact .overfull fun fits => unfit (wide.fits fits)
      | crashed crash => exact .crashed crash after
      | endless => exact .endless after
  | failed diagnostic => exact absurd rfl (notFailed diagnostic)
  | crashed crash => exact .crashed crash after
  | endless => exact .endless after

/-- A bracket leads from an inner place to an outer one if closing it does. -/
theorem ensuring {body : Eval α} {atEnd : Eval Unit} (unfailing : atEnd.Unfailing)
    (widens : atEnd.Widens) (ended : sources.Ended inner P (body context machine))
    (closing : ∀ after, sources.Stands inner after →
      sources.Ended outer (fun _ => True) (atEnd context after)) :
    sources.Ended outer P (Eval.ensuring body atEnd context machine) := by
  cases ran : body context machine with
  | mk outcome middle =>
      rw [ran] at ended
      cases outcome with
      | done value =>
          rw [Eval.ensuring_of_body ran (.done value)]
          exact finishing unfailing widens ended closing
      | failed diagnostic =>
          rw [Eval.ensuring_of_body ran (.failed diagnostic)]
          exact finishing unfailing widens ended closing
      | crashed crash =>
          rw [Eval.ensuring_of_crashed ran]
          exact finishing unfailing widens (.crashed crash _) closing
      | endless =>
          rw [Eval.ensuring_of_endless ran]
          exact .endless middle

/-- The same for a bracket that a crash leaves open. -/
theorem followedBy {body : Eval α} {atEnd : Eval Unit} (unfailing : atEnd.Unfailing)
    (widens : atEnd.Widens) (ended : sources.Ended inner P (body context machine))
    (closing : ∀ after, sources.Stands inner after →
      sources.Ended outer (fun _ => True) (atEnd context after)) :
    sources.Ended outer P (Eval.followedBy body atEnd context machine) := by
  cases ran : body context machine with
  | mk outcome middle =>
      rw [ran] at ended
      cases outcome with
      | done value =>
          rw [Eval.followedBy_of_body ran (.done value)]
          exact finishing unfailing widens ended closing
      | failed diagnostic =>
          rw [Eval.followedBy_of_body ran (.failed diagnostic)]
          exact finishing unfailing widens ended closing
      | crashed crash =>
          rw [Eval.followedBy_of_crashed ran]
          exact .crashed crash middle
      | endless =>
          rw [Eval.followedBy_of_endless ran]
          exact .endless middle

end Ended

end Sources

namespace Eval.Points

variable {sources : Sources} {place : Place} {α β : Type} {P : α → Prop} {Q : β → Prop}
  {span : Span}

/-! ## Sequences and cases -/

theorem result {value : α} (holds : P value) : Points sources place P (pure value : Eval α) :=
  fun _ _ _ stands => .done holds stands

theorem endless : Points sources place P (Eval.endless : Eval α) :=
  fun _ machine _ _ => .endless machine

/-- A sequence points into the sources if its parts do. -/
theorem bind {first : Eval α} {next : α → Eval β} (points : Points sources place P first)
    (goesOn : ∀ value, P value → Points sources place Q (next value)) :
    Points sources place Q (first >>= next) := by
  intro context machine files stands
  refine (points context machine files stands).bind fun value middle holds standsMiddle => ?_
  exact goesOn value holds context middle files standsMiddle

theorem ite {condition : Prop} [Decidable condition] {first second : Eval α}
    (positive : condition → Points sources place P first)
    (negative : ¬condition → Points sources place P second) :
    Points sources place P (if condition then first else second) := by
  by_cases holds : condition
  · rw [if_pos holds]
    exact positive holds
  · rw [if_neg holds]
    exact negative holds

theorem within (origin : Origin) {body : Eval α} (points : Points sources place P body) :
    Points sources place P (Eval.within origin body) :=
  fun context => points { context with origin }

/-! ## The state -/

theorem machine : Points sources place (sources.Stands place) Eval.machine :=
  fun _ _ _ stands => .done stands stands

/-- The files that can be imported are those of the sources. -/
theorem config : Points sources place (fun config => config.files = sources.imports)
    Eval.config :=
  fun _ _ files stands => .done files stands

theorem origin : Points sources place (fun _ => True) Eval.origin :=
  fun _ _ _ stands => .done trivial stands

/-- Something else is changed than the store, the files and the calls. -/
theorem update {change : Machine → Machine}
    (vault : ∀ machine, (change machine).vault = machine.vault)
    (files : ∀ machine, (change machine).files = machine.files)
    (activations : ∀ machine, (change machine).activations = machine.activations) :
    Points sources place (fun _ => True) (Eval.update change) :=
  fun _ machine _ stands =>
    .done trivial (stands.beside (vault machine) (files machine) (activations machine))

/-- A yielded value comes from the sources as everything does. -/
theorem yielding {value : Value} (kept : value.Keeps sources.Supplies) :
    Points sources place (fun _ => True) (Eval.yielding value) := by
  intro _ machine _ stands
  refine .done trivial ⟨stands.stored, ?_, stands.files, ?_⟩
  · exact Evaluator.forall_yielded stands.yielded kept
  · exact List.length_modifyHead.trans stands.calls

/-! ## Diagnostics -/

/-- Failing with a diagnostic that explains itself. -/
theorem fail {diagnostic : Diagnostic} (explains : sources.Explains diagnostic) :
    Points sources place P (Eval.fail diagnostic : Eval α) :=
  fun _ machine _ _ => .failed machine explains

/-- A diagnostic that is made at a place is about the file of this place. -/
theorem diagnosticAt {machine : Machine} (stands : sources.Stands place machine)
    (kind : DiagnosticKind) (message : String) :
    Eval.diagnosticAt machine span kind message =
      ⟨kind, span, message, place.file.path, place.file.source⟩ := by
  rw [Eval.diagnosticAt, stands.currentFile]
  rfl

/-- A diagnostic that is made at a span near the file points into the file. -/
theorem failAt (near : sources.Near place.file span) {kind : DiagnosticKind}
    (other : kind ≠ .uncaughtThrow ∧ kind ≠ .yieldOutside) (message : String) :
    Points sources place P (Eval.failAt span kind message : Eval α) := by
  intro _ machine _ stands
  refine .failed machine ?_
  rw [diagnosticAt stands]
  exact near.explains rfl rfl rfl other

/-- A node of the file that is executed is told of. -/
theorem failAt_own (opened : sources.Opens place.file) (own : span ∈ place.file.spans)
    (kind : DiagnosticKind) (message : String) :
    Points sources place P (Eval.failAt span kind message : Eval α) := by
  intro _ machine _ stands
  refine .failed machine fun _ _ => ⟨place.file, opened, ?_, ?_, .inl ?_⟩
  · rw [diagnosticAt stands]
  · rw [diagnosticAt stands]
  · rwa [diagnosticAt stands]

/-! ## The store -/

/-- An operation of the store that cannot fail needs no place. -/
theorem onVault {operation : Run Vault α} (unfailing : operation.Unfailing)
    (ensures : Run.Ensures sources.Stores P operation) :
    Points sources place P (Eval.onVault operation) := by
  intro context machine _ stands
  obtain ⟨stored, holds⟩ := ensures machine.vault stands.stored
  have notFailed := unfailing machine.vault
  rw [onVault_apply]
  generalize operation machine.vault = ran at stored holds notFailed ⊢
  obtain ⟨outcome, vault⟩ := ran
  cases outcome with
  | done value => exact .done (holds value rfl) (stands.onVault stored)
  | failed diagnostic => exact absurd rfl (notFailed diagnostic)
  | crashed crash => exact .crashed crash _
  | endless => exact .endless _

/-- A diagnostic of the store is bare, so it is given the place at hand. -/
theorem onVaultAt (near : sources.Near place.file span) {operation : Run Vault α}
    (bare : operation.Bare) (ensures : Run.Ensures sources.Stores P operation) :
    Points sources place P (Eval.onVaultAt span operation) := by
  intro context machine _ stands
  obtain ⟨stored, holds⟩ := ensures machine.vault stands.stored
  have bareFailure := bare machine.vault
  unfold Eval.onVaultAt
  rw [onVault_apply]
  generalize operation machine.vault = ran at stored holds bareFailure ⊢
  obtain ⟨outcome, vault⟩ := ran
  cases outcome with
  | done value => exact .done (holds value rfl) (stands.onVault stored)
  | failed diagnostic =>
      exact .failed _ ((stands.onVault stored).locate near (bareFailure diagnostic rfl))
  | crashed crash => exact .crashed crash _
  | endless => exact .endless _

/-- A query that fails gives a bare diagnostic, which is given the place at hand. -/
theorem queryAt (near : sources.Near place.file span) {query : Vault → Except Diagnostic α}
    (bare : ∀ vault diagnostic, query vault = .error diagnostic → diagnostic.Bare)
    (holds : ∀ vault value, vault.Holds (Value.Keeps sources.Supplies) →
      query vault = .ok value → P value) :
    Points sources place P (Eval.queryAt span query) := by
  intro context machine _ stands
  unfold Eval.queryAt
  split
  · next value found => exact .done (holds machine.vault value stands.stored.2 found) stands
  · next diagnostic refused =>
    exact .failed machine (stands.locate near (bare machine.vault diagnostic refused))

/-- A diagnostic of the store is replaced by another one. -/
theorem resume {operation : Run Vault α} (ensures : Run.Ensures sources.Stores P operation)
    {next : α → Eval β} {otherwise : Eval β}
    (goesOn : ∀ value, P value → Points sources place Q (next value))
    (instead : Points sources place Q otherwise) :
    Points sources place Q ((Eval.onVault operation).resume next otherwise) := by
  intro context machine files stands
  obtain ⟨stored, holds⟩ := ensures machine.vault stands.stored
  unfold Eval.resume
  rw [onVault_apply]
  generalize operation machine.vault = ran at stored holds ⊢
  obtain ⟨outcome, vault⟩ := ran
  cases outcome with
  | done value => exact goesOn value (holds value rfl) context _ files (stands.onVault stored)
  | failed diagnostic => exact instead context _ files (stands.onVault stored)
  | crashed crash => exact .crashed crash _
  | endless => exact .endless _

theorem define (name : String) {value : Value} (kept : value.Keeps sources.Supplies) :
    Points sources place (fun _ => True) (Eval.define name value) :=
  onVault (Vault.unfailing_define name value) (Sources.invariant_stores.define name kept)

/-- A name is resolved to a value from the sources, or the diagnostic is about the place at hand. -/
theorem resolve (near : sources.Near place.file span) (name : String) :
    Points sources place (fun found => found.2.Keeps sources.Supplies)
      (Eval.onVaultAt span (Vault.resolve name)) :=
  onVaultAt near (Vault.bare_resolve name) (Sources.invariant_stores.resolve name)

/-! ## Brackets -/

theorem ensuring {body : Eval α} {atEnd : Eval Unit} (unfailing : atEnd.Unfailing)
    (widens : atEnd.Widens) (points : Points sources place P body)
    (closing : Points sources place (fun _ => True) atEnd) :
    Points sources place P (Eval.ensuring body atEnd) := by
  intro context machine files stands
  refine .ensuring unfailing widens (points context machine files stands)
    fun after standsAfter => ?_
  exact closing context after files standsAfter

/-- What goes too deep is told at the place at hand. -/
theorem deeper (near : sources.Near place.file span) {body : Eval α}
    (points : Points sources place P body) : Points sources place P (Eval.deeper span body) := by
  intro context machine files stands
  unfold Eval.deeper
  split
  · exact failAt near (by decide) _ context machine files stands
  · refine .ensuring (.update _) (.update fun _ => rfl)
      (points context _ files (stands.beside rfl rfl rfl)) ?_
    exact fun after standsAfter => .done trivial (standsAfter.beside rfl rfl rfl)

/-- In another file the body points into that file, and afterwards into the one before. -/
theorem inFile (file : SourceFile) {body : Eval α}
    (points : Points sources ⟨file, place.file :: place.outer, place.calls⟩ P body) :
    Points sources place P (Eval.inFile file body) := by
  intro context machine files stands
  unfold Eval.inFile
  rw [update_bind_apply]
  have opened : sources.Stands ⟨file, place.file :: place.outer, place.calls⟩
      { machine with files := file :: machine.files } :=
    ⟨stands.stored, stands.yielded, congrArg (file :: ·) stands.files, stands.calls⟩
  refine .ensuring (.update _) (.update fun _ => rfl) (points context _ files opened)
    fun after standsAfter => ?_
  refine .done trivial ⟨standsAfter.stored, standsAfter.yielded, ?_, standsAfter.calls⟩
  exact congrArg List.tail standsAfter.files

/-- In a call there is one more activation in which to yield. -/
theorem activated {body : Eval α}
    (points : Points sources { place with calls := place.calls + 1 } P body) :
    Points sources place P (Evaluator.activated body) := by
  intro context machine files stands
  unfold Evaluator.activated
  rw [update_bind_apply]
  have opened : sources.Stands { place with calls := place.calls + 1 }
      { machine with activations := [] :: machine.activations } :=
    ⟨stands.stored, List.forall_mem_cons.2 ⟨nofun, stands.yielded⟩, stands.files,
      congrArg (· + 1) stands.calls⟩
  refine .ensuring (.update _) (.update fun _ => rfl) (points context _ files opened)
    fun after standsAfter => ?_
  refine .done trivial ⟨standsAfter.stored, ?_, standsAfter.files, ?_⟩
  · exact fun values member => standsAfter.yielded values (List.mem_of_mem_tail member)
  · rw [List.length_tail, standsAfter.calls]
    rfl

theorem inBlock {body : Eval α} (points : Points sources place P body) :
    Points sources place P (Eval.inBlock body) := by
  have entering : Points sources place (fun _ => True) (Eval.onVault Vault.enterBlock) :=
    onVault (Vault.unfailing_enter .block) (Sources.invariant_stores.enter .block)
  refine bind entering fun _ _ => ensuring (.onVault (Vault.unfailing_leave .block))
    (.leave .block) points ?_
  exact onVault (Vault.unfailing_leave .block) (Sources.invariant_stores.leave .block)

/-- A visit that is refused is told at the place at hand. -/
theorem inScope (near : sources.Near place.file span) (handle : Handle) {body : Eval α}
    (points : Points sources place P body) :
    Points sources place P (Evaluator.inScope span handle body) := by
  have entering : Points sources place (fun _ => True)
      (Eval.onVaultAt span (Vault.enterNamed handle)) :=
    onVaultAt near (Vault.bare_enterNamed handle) (Sources.invariant_stores.enterNamed handle)
  refine bind entering fun _ _ => ensuring (.onVault Vault.unfailing_exitNamed) .exitNamed
    points ?_
  exact onVault Vault.unfailing_exitNamed Sources.invariant_stores.exitNamed

theorem declaring (name : String) :
    Points sources place (fun _ => True) (Eval.onVault (Vault.declare name)) :=
  onVault (Vault.unfailing_declare name) (Sources.invariant_stores.declare name)

theorem endingDeclaration (handle : Handle) (name : String) :
    Points sources place (fun _ => True) (Eval.onVault (Vault.endDeclaration handle name)) :=
  onVault (Vault.unfailing_endDeclaration handle name)
    (Sources.invariant_stores.endDeclaration handle name (.scope handle))

theorem inDeclaration (name : String) {body : Eval α} (points : Points sources place P body) :
    Points sources place P (Eval.inDeclaration name body) :=
  bind (declaring name) fun handle _ =>
    ensuring (.onVault (Vault.unfailing_endDeclaration handle name))
      (.endDeclaration handle name) points (endingDeclaration handle name)

/-- A scope that is declared points wherever its body does. -/
theorem declareScope {recursion : Recursion} {body : List Stmt} {P : Flow → Prop} (name : String)
    (isContext : Bool) (points : Points sources place P (recursion.execute body)) :
    Points sources place P (Evaluator.declareScope recursion name body isContext) := by
  refine bind (declaring name) fun handle _ => ?_
  have closing : Points sources place P (Eval.followedBy (recursion.execute body)
      (Eval.onVault (Vault.endDeclaration handle name))) := by
    intro context machine files stands
    refine .followedBy (.onVault (Vault.unfailing_endDeclaration handle name))
      (.endDeclaration handle name) (points context machine files stands)
      fun after standsAfter => ?_
    exact endingDeclaration handle name context after files standsAfter
  cases isContext with
  | false => exact closing
  | true => exact bind (define "this" (.scope handle)) fun _ _ => closing

theorem defineMethods (methods : List (String × Native)) :
    Points sources place (fun _ => True) (Evaluator.defineMethods methods) := by
  induction methods with
  | nil => exact result trivial
  | cons method methods inductionHypothesis =>
      exact bind (define method.1 (.native _)) fun _ _ => inductionHypothesis

/-- A box holds a value from the sources, and its methods are routines. -/
theorem inBox {value : Value} (kept : value.Keeps sources.Supplies) {body : Handle → Eval α}
    (points : ∀ box, Points sources place P (body box)) :
    Points sources place P (Evaluator.inBox value body) := by
  have entering : Points sources place (fun _ => True) (Eval.onVault Vault.enterBoxed) :=
    onVault (Vault.unfailing_enter .boxed) (Sources.invariant_stores.enter .boxed)
  refine bind entering fun box _ => bind (define _ kept) fun _ _ => ?_
  refine bind (defineMethods _) fun _ _ => ?_
  refine ensuring (.onVault (Vault.unfailing_leave .boxed)) (.leave .boxed) (points box) ?_
  exact onVault (Vault.unfailing_leave .boxed) (Sources.invariant_stores.leave .boxed)

end Eval.Points

end ScopeScript
