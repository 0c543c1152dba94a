import ScopeScript.Proofs.Course.Evaluation
import ScopeScript.Proofs.Evaluator.Nesting
import ScopeScript.Proofs.Isolation.Isolated

/-!
# Isolating computations

A declaration binds a name in whatever scope is innermost when it is executed, so a statement leads
from one isolated state to another only where that scope is young. An expression does so in every
state, because the statements it runs are in a block of their own. `Eval.Course.Isolates` says this
of computations in whose course no routine writes to a map, with one rule for each part that the
evaluator is made of.

What is run in a block of its own isolates from the very store that it finds, so it keeps all
bindings there are. Isolating computations do not only do so themselves: it is true of everything
that is run in their course, even if they come to no end of their own.
-/

namespace ScopeScript

/-- Whether a routine changes the entries of a map. -/
def Native.writesMap : Native → Bool
  | .mapSet | .mapDelete | .mapClear => true
  | _ => false

namespace Event

/-- Whether a routine was called that changes the entries of a map. -/
def writesMap : Event → Bool
  | .called native => native.writesMap
  | .yielded _ | .ran _ _ => false

/-- If something was run, then every record that it had found is still live with its bindings. -/
def KeepsBindings : Event → Prop
  | .ran found left => found.PersistsIn left
  | .called _ | .yielded _ => True

end Event

namespace Eval.Course

variable {α β : Type} {level : Level} {P : α → Prop} {Q : β → Prop}

/-- No routine is called that changes the entries of a map. -/
def Calm {computation : Eval α} (course : Course computation) (context : Context)
    (machine : Machine) : Prop :=
  ∀ event ∈ course.events context machine, event.writesMap = false

/-- If nothing in a course writes to a map, nothing at its beginning does. -/
theorem Calm.of_bind {first : Eval α} {next : α → Eval β} {course : Course first}
    {following : ∀ value, Course (next value)} {context : Context} {machine : Machine}
    (calm : (course.bind following).Calm context machine) : course.Calm context machine :=
  fun event member => calm event (List.mem_append_left _ member)

/-- The course of what follows a result is calm as well. -/
theorem Calm.of_bind_done {first : Eval α} {next : α → Eval β} {course : Course first}
    {following : ∀ value, Course (next value)} {context : Context} {machine middle : Machine}
    {value : α} (calm : (course.bind following).Calm context machine)
    (ran : first context machine = (.done value, middle)) :
    (following value).Calm context middle := by
  intro event member
  refine calm event (List.mem_append_right _ ?_)
  rwa [ran]

/-- What happens in the course of a computation and of what follows its result. -/
theorem forall_mem_events_bind {first : Eval α} {next : α → Eval β} {course : Course first}
    {following : ∀ value, Course (next value)} {context : Context} {machine : Machine}
    {R : Event → Prop} (earlier : ∀ event ∈ course.events context machine, R event)
    (later : ∀ {value middle}, first context machine = (.done value, middle) →
      ∀ event ∈ (following value).events context middle, R event) :
    ∀ event ∈ (course.bind following).events context machine, R event := by
  refine List.forall_mem_append.2 ⟨earlier, ?_⟩
  split
  · next ran => exact later ran
  · nofun

/-- If a computation comes to its own end, the state is isolated again and the result has a
property. In any case, whatever has been run in its course has kept all bindings. -/
structure Preserves {computation : Eval α} (course : Course computation) (before : Vault)
    (openings : List Opening) (P : α → Prop) (context : Context) (machine : Machine) : Prop where
  ends : (computation context machine).1.Returned →
    (computation context machine).2.Isolated before openings ∧
      (computation context machine).1.Gives P
  kept : ∀ event ∈ course.events context machine, event.KeepsBindings

namespace Preserves

variable {before : Vault} {openings : List Opening} {context : Context} {machine middle : Machine}

/-- Where nothing happens, only the end counts. -/
theorem quiet {computation : Eval α} {widens : computation.Widens} {quiet : computation.Quiet}
    (ends : (computation context machine).1.Returned →
      (computation context machine).2.Isolated before openings ∧
        (computation context machine).1.Gives P) :
    (Course.quiet widens quiet).Preserves before openings P context machine :=
  ⟨ends, nofun⟩

/-- Only what happens from the given state matters. -/
theorem congr {computation other : Eval α} {course : Course computation} {course' : Course other}
    {context' : Context} {machine' : Machine}
    (preserves : course.Preserves before openings P context machine)
    (same : other context' machine' = computation context machine)
    (events : course'.events context' machine' = course.events context machine) :
    course'.Preserves before openings P context' machine' := by
  obtain ⟨ends, kept⟩ := preserves
  rw [← same] at ends
  rw [← events] at kept
  exact ⟨ends, kept⟩

/-- What follows a result goes on with what is kept so far. -/
theorem bind_of_done {first : Eval α} {next : α → Eval β} {course : Course first}
    {following : ∀ value, Course (next value)} {value : α}
    (kept : ∀ event ∈ course.events context machine, event.KeepsBindings)
    (ran : first context machine = (.done value, middle))
    (rest : (following value).Preserves before openings Q context middle) :
    (course.bind following).Preserves before openings Q context machine where
  ends := by
    rw [Eval.bind_of_done ran]
    exact rest.ends
  kept := by
    refine forall_mem_events_bind kept fun done => ?_
    cases ran.symm.trans done
    exact rest.kept

/-- A failure ends the course in an isolated state. -/
theorem bind_of_failed {first : Eval α} {next : α → Eval β} {course : Course first}
    {following : ∀ value, Course (next value)} {diagnostic : Diagnostic}
    (kept : ∀ event ∈ course.events context machine, event.KeepsBindings)
    (ran : first context machine = (.failed diagnostic, middle))
    (isolated : middle.Isolated before openings) :
    (course.bind following).Preserves before openings Q context machine where
  ends _ := by
    rw [Eval.bind_of_failed ran]
    exact ⟨isolated, trivial⟩
  kept := forall_mem_events_bind kept fun done => nomatch ran.symm.trans done

/-- Nothing follows a computation that comes to no end of its own. -/
theorem bind_of_not_returned {first : Eval α} {next : α → Eval β} {course : Course first}
    {following : ∀ value, Course (next value)}
    (kept : ∀ event ∈ course.events context machine, event.KeepsBindings)
    (noEnd : ¬(first context machine).1.Returned) :
    (course.bind following).Preserves before openings Q context machine := by
  refine ⟨fun returned => ?_, forall_mem_events_bind kept fun done => ?_⟩
  · rw [bind_apply] at returned
    generalize first context machine = run at noEnd returned
    obtain ⟨outcome, middle⟩ := run
    cases outcome with
    | done value => exact absurd (.done value) noEnd
    | failed diagnostic => exact absurd (.failed diagnostic) noEnd
    | crashed crash => cases returned
    | endless => cases returned
  · rw [done] at noEnd
    exact absurd (.done _) noEnd

/-- What follows a result goes on from an isolated state. If the numbers of the slots fit at the
end, then they do at the end of the first part as well. -/
theorem bind {first : Eval α} {next : α → Eval β} {course : Course first}
    {following : ∀ value, Course (next value)}
    (fits : ((first >>= next) context machine).2.vault.Fits)
    (preserves : (first context machine).2.vault.Fits →
      course.Preserves before openings P context machine)
    (goesOn : ∀ {value middle}, first context machine = (.done value, middle) → P value →
      middle.Isolated before openings → (next value context middle).2.vault.Fits →
      (following value).Preserves before openings Q context middle) :
    (course.bind following).Preserves before openings Q context machine := by
  have fitsFirst : (first context machine).2.vault.Fits :=
    (Widens.after_first (fun value => (following value).widens) context machine).fits fits
  obtain ⟨ends, kept⟩ := preserves fitsFirst
  cases ran : first context machine with
  | mk outcome middle =>
      rw [ran] at ends
      cases outcome with
      | done value =>
          obtain ⟨isolated, gives⟩ := ends (.done value)
          rw [Eval.bind_of_done ran] at fits
          exact .bind_of_done kept ran (goesOn ran gives isolated fits)
      | failed diagnostic => exact .bind_of_failed kept ran (ends (.failed diagnostic)).1
      | crashed crash | endless =>
          refine .bind_of_not_returned kept ?_
          rw [ran]
          nofun

end Preserves

/-- If its course is calm and the numbers of the slots fit, a computation of a level leaves the
records of earlier stores untouched, and its result has a property. -/
def Isolates {computation : Eval α} (course : Course computation) (level : Level) (P : α → Prop) :
    Prop :=
  ∀ ⦃before context machine openings⦄, context.config.Steady → level.Binds before openings →
    machine.Isolated before openings → course.Calm context machine →
    (computation context machine).2.vault.Fits →
    course.Preserves before openings P context machine

namespace Isolates

/-- What isolates in every state does so where statements may be run. -/
theorem raise {computation : Eval α} {course : Course computation}
    (isolates : course.Isolates .expression P) : course.Isolates level P :=
  fun _ _ _ _ config _ => isolates config trivial

/-- What isolates wherever it is run keeps the bindings of all records that it finds. -/
theorem persists {computation : Eval α} {course : Course computation}
    (isolates : course.Isolates .expression P) {context : Context} {machine : Machine}
    {openings : List Opening} (config : context.config.Steady) (tidy : machine.Tidy openings)
    (steady : machine.Steady) (calm : course.Calm context machine)
    (fits : (computation context machine).2.vault.Fits)
    (returned : (computation context machine).1.Returned) :
    machine.vault.PersistsIn (computation context machine).2.vault :=
  ((isolates config trivial ⟨tidy, .refl _, steady⟩ calm fits).ends returned).1.untouched.persists

/-- What is run as a whole has kept all bindings when it has ended. -/
theorem recording {computation : Eval α} {course : Course computation}
    (isolates : course.Isolates .expression P) : course.recording.Isolates level P := by
  intro before context machine openings config _ isolated calm fits
  have calmInside : course.Calm context machine :=
    fun event member => calm event (List.mem_append_left _ member)
  obtain ⟨ends, kept⟩ := isolates config trivial isolated calmInside fits
  refine ⟨ends, List.forall_mem_append.2 ⟨kept, fun event member => ?_⟩⟩
  obtain ⟨returned, rfl⟩ := Event.mem_ofRun.1 member
  exact isolates.persists config isolated.tidy isolated.steady calmInside fits returned

/-- A computation that changes nothing but what lies beside scopes and calls. -/
theorem of_vault {computation : Eval α} {widens : computation.Widens} {quiet : computation.Quiet}
    (orderly : computation.Orderly)
    (same : ∀ context machine, (computation context machine).2.vault = machine.vault)
    (gives : ∀ {context machine}, context.config.Steady → machine.Steady →
      (computation context machine).1.Gives P) :
    (Course.quiet widens quiet).Isolates level P := by
  intro before context machine openings config _ isolated _ fits
  refine .quiet fun returned => ⟨?_, gives config isolated.steady⟩
  have tidy := (orderly.ends context machine openings isolated.tidy fits).tidy returned
  refine isolated.beside (same context machine) ?_ ?_
  · exact tidy.uncrashed.trans isolated.tidy.uncrashed.symm
  · rw [quiet context machine returned]
    exact isolated.steady.yielded

theorem result {value : α} (holds : P value) : (Course.result value).Isolates level P :=
  of_vault (closed_orderly.result .expression value) (fun _ _ => rfl) fun _ _ => holds

theorem failAt (span : Span) (kind : DiagnosticKind) (message : String) :
    (Course.failAt span kind message).Isolates level P :=
  of_vault (closed_orderly.failAt .expression span kind message) (fun _ _ => rfl) fun _ _ => trivial

theorem endless : (Course.endless : Course (Eval.endless : Eval α)).Isolates level P :=
  of_vault (closed_orderly.endless .expression) (fun _ _ => rfl) fun _ _ => trivial

theorem machine : Course.machine.Isolates level Machine.Steady :=
  of_vault (closed_orderly.machine .expression) (fun _ _ => rfl) fun _ steady => steady

theorem origin : Course.origin.Isolates level fun _ => True :=
  of_vault (closed_orderly.origin .expression) (fun _ _ => rfl) fun _ _ => trivial

/-- A change beside the store and the activations. -/
theorem update {change : Machine → Machine}
    {vault : ∀ machine : Machine, (change machine).vault = machine.vault}
    {same : ∀ machine : Machine, (change machine).activations = machine.activations}
    (firstCrash? : ∀ machine, (change machine).firstCrash? = machine.firstCrash?) :
    (Course.update vault same).Isolates level fun _ => True := by
  intro before context machine openings _ _ isolated _ _
  refine .quiet fun _ => ⟨isolated.beside (vault machine) (firstCrash? machine) ?_, trivial⟩
  exact (same machine).symm ▸ isolated.steady.yielded

/-- A query changes nothing, and what it finds is steady. -/
theorem queryAt (span : Span) {query : Vault → Except Diagnostic α}
    (gives : ∀ {vault value}, vault.Holds Value.Steady → query vault = .ok value → P value) :
    (Course.queryAt span query).Isolates level P := by
  refine of_vault (closed_orderly.queryAt .expression span query) (fun context machine => ?_)
    fun {context machine} _ steady => ?_
  · unfold Eval.queryAt
    split <;> rfl
  · unfold Eval.queryAt
    split
    · next found => exact gives steady.stored found
    · trivial

/-- A name is resolved to a steady value without any change. -/
theorem resolve (span : Span) (name : String) :
    (Course.onVaultAt span (Vault.widens_resolve name)).Isolates level
      fun found => found.2.Steady := by
  intro before context machine openings _ _ isolated _ _
  refine .quiet fun _ => ?_
  obtain ⟨outcome, resolved, returned⟩ := isolated.tidy.forest.resolve name
  cases outcome with
  | done found =>
      have holds := ((Vault.invariant_holds Value.Steady).resolve name machine.vault
        isolated.steady.stored).2 found (by rw [resolved])
      rw [onVaultAt_eq_of_done span context machine resolved]
      exact ⟨isolated, holds⟩
  | failed diagnostic =>
      rw [onVaultAt_eq_of_failed span context machine resolved]
      exact ⟨isolated, trivial⟩
  | crashed crash => cases returned
  | endless => cases returned

/-- A definition needs a young innermost scope and a steady value. -/
theorem define (name : String) {value : Value} (steady : value.Steady) :
    (Course.define name value).Isolates .statement fun _ => True := by
  intro before context machine openings _ binds isolated _ _
  unfold Course.define Course.onVault
  refine .quiet fun _ => ?_
  obtain ⟨bound, defined, kept⟩ := isolated.define binds name steady context
  rw [defined]
  exact ⟨kept, trivial⟩

/-- A yielded value goes to the innermost activation and nowhere else. -/
theorem yielding {value : Value} (steady : value.Steady) :
    (Course.yielding value).Isolates level fun _ => True := by
  intro before context machine openings _ _ isolated _ _
  refine ⟨fun _ => ⟨isolated.beside rfl rfl ?_, trivial⟩, ?_⟩
  · exact Evaluator.forall_yielded isolated.steady.yielded steady
  · exact List.forall_mem_singleton.2 trivial

/-- A calm course calls no routine that writes to a map. -/
theorem calling (native : Native) {computation : Eval α} {course : Course computation}
    (isolates : native.writesMap = false → course.Isolates level P) :
    (course.calling native).Isolates level P := by
  intro before context machine openings config binds isolated calm fits
  obtain ⟨silent, calmCall⟩ := List.forall_mem_cons.1 calm
  obtain ⟨ends, kept⟩ := isolates silent config binds isolated calmCall fits
  exact ⟨ends, List.forall_mem_cons.2 ⟨trivial, kept⟩⟩

/-- A sequence isolates if its parts do. -/
theorem bind {first : Eval α} {next : α → Eval β} {course : Course first}
    {following : ∀ value, Course (next value)} (firstIsolates : course.Isolates level P)
    (nextIsolates : ∀ value, P value → (following value).Isolates level Q) :
    (course.bind following).Isolates level Q := by
  intro before context machine openings config binds isolated calm fits
  refine .bind fits (firstIsolates config binds isolated calm.of_bind) ?_
  intro value middle ran holds kept fitsRest
  exact nextIsolates value holds config binds kept (calm.of_bind_done ran) fitsRest

theorem ite {condition : Prop} [Decidable condition] {first second : Eval α}
    {onTrue : Course first} {onFalse : Course second}
    (trueIsolates : condition → onTrue.Isolates level P)
    (falseIsolates : ¬condition → onFalse.Isolates level P) :
    (Course.ite condition onTrue onFalse).Isolates level P := by
  intro before context machine openings config binds isolated calm fits
  unfold Calm at calm
  by_cases holds : condition
  · have events : (Course.ite condition onTrue onFalse).events context machine =
        onTrue.events context machine := if_pos holds
    rw [events] at calm
    rw [if_pos holds] at fits
    exact (trueIsolates holds config binds isolated calm fits).congr (by rw [if_pos holds]) events
  · have events : (Course.ite condition onTrue onFalse).events context machine =
        onFalse.events context machine := if_neg holds
    rw [events] at calm
    rw [if_neg holds] at fits
    exact (falseIsolates holds config binds isolated calm fits).congr (by rw [if_neg holds]) events

/-- Where the code comes from is no matter of isolation. -/
theorem within (origin : Origin) {body : Eval α} {course : Course body}
    (isolates : course.Isolates level P) : (Course.within origin course).Isolates level P := by
  intro before context machine openings config binds isolated calm fits
  have preserves := @isolates before { context with origin } machine openings config binds
    isolated calm fits
  exact preserves.congr rfl rfl

/-! ## Brackets -/

/-- A body is evaluated inside a bracket that has been opened, and closing the bracket leads back
outside. The bracket may have a course in which less is visible than in that of the body. -/
theorem closing {body : Eval α} {atEnd : Eval Unit} {course : Course body} {whole : Eval α}
    {bracket : Course whole} (bodyIsolates : course.Isolates level P) (unfailing : atEnd.Unfailing)
    {before : Vault} {context : Context} {machine opened : Machine} {inner outer : List Opening}
    (config : context.config.Steady) (binds : level.Binds before inner)
    (isolated : opened.Isolated before inner) (calm : course.Calm context opened)
    (fits : (body context opened).2.vault.Fits)
    (leads : ∀ {after final : Machine}, after.Isolated before inner →
      atEnd context after = (.done (), final) → final.Isolated before outer)
    (same : (whole context machine).1.Returned →
      whole context machine = Eval.ensuring body atEnd context opened)
    (visible : ∀ event ∈ bracket.events context machine, event ∈ course.events context opened) :
    bracket.Preserves before outer P context machine := by
  obtain ⟨ends, kept⟩ := bodyIsolates config binds isolated calm fits
  refine ⟨fun returned => ?_, fun event member => kept event (visible event member)⟩
  have ran := same returned
  rw [ran] at returned ⊢
  obtain ⟨bodyReturned, ended⟩ := ensuring_of_returned unfailing returned
  obtain ⟨isolatedInside, gives⟩ := ends bodyReturned
  rw [ensuring_fst_of_returned unfailing returned]
  exact ⟨leads isolatedInside ended, gives⟩

/-- A bracket whose end is always run. -/
theorem ensuring {body : Eval α} {atEnd : Eval Unit} {course : Course body}
    (bodyIsolates : course.Isolates level P) (widens : atEnd.Widens)
    (unfailing : atEnd.Unfailing) {quiet : atEnd.Quiet} {before : Vault} {context : Context}
    {opened : Machine} {inner outer : List Opening} (config : context.config.Steady)
    (binds : level.Binds before inner) (isolated : opened.Isolated before inner)
    (calm : course.Calm context opened)
    (fits : (Eval.ensuring body atEnd context opened).2.vault.Fits)
    (leads : ∀ {after final : Machine}, after.Isolated before inner →
      atEnd context after = (.done (), final) → final.Isolated before outer) :
    (course.ensuring widens unfailing quiet).Preserves before outer P context opened :=
  closing bodyIsolates unfailing config binds isolated calm
    ((Widens.after_body widens context opened).fits fits) leads (fun _ => rfl) fun _ => id

/-- A bracket that a crash leaves open. -/
theorem followedBy {body : Eval α} {atEnd : Eval Unit} {course : Course body}
    (bodyIsolates : course.Isolates level P) (widens : atEnd.Widens)
    (unfailing : atEnd.Unfailing) {quiet : atEnd.Quiet} {before : Vault} {context : Context}
    {opened : Machine} {inner outer : List Opening} (config : context.config.Steady)
    (binds : level.Binds before inner) (isolated : opened.Isolated before inner)
    (calm : course.Calm context opened)
    (fits : (Eval.followedBy body atEnd context opened).2.vault.Fits)
    (leads : ∀ {after final : Machine}, after.Isolated before inner →
      atEnd context after = (.done (), final) → final.Isolated before outer) :
    (course.followedBy widens unfailing quiet).Preserves before outer P context opened :=
  closing bodyIsolates unfailing config binds isolated calm
    ((Widens.after_followed widens context opened).fits fits) leads
    (fun returned => followedBy_eq_ensuring (returned_of_followedBy returned) atEnd) fun _ => id

/-- What goes deeper isolates as it does on its own level. -/
theorem deeper (span : Span) {body : Eval α} {course : Course body}
    (bodyIsolates : course.Isolates level P) : (Course.deeper span course).Isolates level P := by
  intro before context machine openings config binds isolated calm fits
  by_cases exceeded : context.config.maxDepth < machine.depth + 1
  · have refused := show Eval.deeper span body context machine = _ by
      rw [Eval.deeper, if_pos exceeded]
    have nothing : (Course.deeper span course).events context machine = [] := if_pos exceeded
    refine ⟨?_, ?_⟩
    · rw [refused]
      exact fun _ => ⟨isolated, trivial⟩
    · rw [nothing]
      nofun
  · have ran := show Eval.deeper span body context machine = _ by
      rw [Eval.deeper, if_neg exceeded]
    have events : (Course.deeper span course).events context machine =
        course.events context { machine with depth := machine.depth + 1 } := if_neg exceeded
    have isolatedBody : Machine.Isolated before openings
        { machine with depth := machine.depth + 1 } :=
      isolated.beside rfl rfl isolated.steady.yielded
    have calmBody : course.Calm context { machine with depth := machine.depth + 1 } := by
      unfold Calm at calm
      rwa [events] at calm
    rw [ran] at fits
    have fitsBody := (Widens.after_body .surfacing context _).fits fits
    refine closing bodyIsolates (.update _) config binds isolatedBody calmBody fitsBody ?_
      (fun _ => ran) (events ▸ fun _ => id)
    rintro after final kept ⟨⟩
    exact kept.beside rfl rfl kept.steady.yielded

/-- Which file is on top is no matter of isolation. -/
theorem inFile (file : SourceFile) {body : Eval α} {course : Course body}
    (bodyIsolates : course.Isolates level P) : (Course.inFile file course).Isolates level P := by
  intro before context machine openings config binds isolated calm fits
  have leaving : (Eval.update fun machine =>
      { machine with files := machine.files.tail }).Widens := .update fun _ => rfl
  refine .bind_of_done nofun rfl (ensuring bodyIsolates leaving (.update _) config binds
    (isolated.beside rfl rfl isolated.steady.yielded) (calm.of_bind_done rfl) fits ?_)
  rintro after final kept ⟨⟩
  exact kept.beside rfl rfl kept.steady.yielded

/-- The body of a function is evaluated with an activation of its own. -/
theorem activated {body : Eval α} {course : Course body}
    (bodyIsolates : course.Isolates level P) : (Course.activated course).Isolates level P := by
  intro before context machine openings config binds isolated calm fits
  have calmBody : course.Calm context
      { machine with activations := [] :: machine.activations } := by
    intro event member
    cases event with
    | called native => exact calm _ (List.mem_filter.2 ⟨member, rfl⟩)
    | yielded value => rfl
    | ran found left => rfl
  have isolatedBody : Machine.Isolated before openings
      { machine with activations := [] :: machine.activations } :=
    isolated.beside rfl rfl
      (List.forall_mem_cons.2 ⟨List.forall_mem_nil _, isolated.steady.yielded⟩)
  have unfailing : (Eval.update fun machine =>
      { machine with activations := machine.activations.tail }).Unfailing := .update _
  have leaving : (Eval.update fun machine =>
      { machine with activations := machine.activations.tail }).Widens := .update fun _ => rfl
  unfold Evaluator.activated at fits
  rw [update_bind_apply] at fits
  have fitsBody := (Widens.after_body leaving context _).fits fits
  refine closing bodyIsolates unfailing config binds isolatedBody calmBody fitsBody ?_
    (fun _ => rfl) fun _ member => (List.mem_filter.1 member).1
  rintro after final kept ⟨⟩
  exact kept.beside rfl rfl fun values member =>
    kept.steady.yielded values (List.mem_of_mem_tail member)

/-- A block is young, whatever lies around it, so statements may be run inside. -/
theorem inBlock {body : Eval α} {course : Course body}
    (bodyIsolates : course.Isolates .statement P) : (Course.inBlock course).Isolates level P := by
  refine recording ?_
  intro before context machine openings config _ isolated calm fits
  obtain ⟨handle, opened, entered, inside⟩ := isolated.enter (.inl rfl) context
  unfold Eval.inBlock Vault.enterBlock at fits
  rw [Eval.bind_of_done entered] at fits
  have leaveWidens := Widens.leave .block
  obtain ⟨isolatedInside, young⟩ := inside ((course.widens.ensuring leaveWidens).fits fits)
  refine .bind_of_done nofun entered (ensuring bodyIsolates leaveWidens
    (.onVault (Vault.unfailing_leave .block)) config (Level.binds_cons _ young openings)
    isolatedInside (calm.of_bind_done entered) fits ?_)
  intro after final kept left
  exact kept.leave (.inl rfl) isolated.tidy.someOpen young left

/-- A scope that is visited is left again, whatever has been run inside. -/
theorem visiting {inner : Level} (span : Span) (handle : Handle) {body : Eval α}
    {course : Course body} (bodyIsolates : course.Isolates inner P) {before : Vault}
    {context : Context} {machine : Machine} {openings : List Opening}
    (config : context.config.Steady) (binds : inner.Binds before (.visit handle :: openings))
    (isolated : machine.Isolated before openings)
    (calm : (Course.inScope span handle course).Calm context machine)
    (fits : (Evaluator.inScope span handle body context machine).2.vault.Fits) :
    (Course.inScope span handle course).Preserves before openings P context machine := by
  rcases isolated.enterNamed span handle context with
    ⟨opened, entered, isolatedInside⟩ | ⟨diagnostic, refused⟩
  · unfold Evaluator.inScope at fits
    rw [Eval.bind_of_done entered] at fits
    refine .bind_of_done nofun entered (ensuring bodyIsolates .exitNamed
      (.onVault Vault.unfailing_exitNamed) config binds isolatedInside
      (calm.of_bind_done entered) fits ?_)
    intro after final kept left
    exact kept.exitNamed isolated.tidy.someOpen left
  · exact .bind_of_failed nofun refused isolated

/-- A scope that is visited need not be young, so only expressions may be evaluated inside. -/
theorem inScope (span : Span) (handle : Handle) {body : Eval α} {course : Course body}
    (bodyIsolates : course.Isolates .expression P) :
    (Course.inScope span handle course).Isolates level P := by
  intro before context machine openings config _ isolated calm fits
  exact visiting span handle bodyIsolates config trivial isolated calm fits

/-- A box is a young scope with a value and routines. -/
theorem inBox {value : Value} (steady : value.Steady) {body : Handle → Eval α}
    {course : ∀ box, Course (body box)} (bodyIsolates : ∀ box, (course box).Isolates .statement P) :
    (Course.inBox value course).Isolates level P := by
  intro before context machine openings config _ isolated calm fits
  obtain ⟨box, opened, entered, inside⟩ := isolated.enter (.inr rfl) context
  unfold Evaluator.inBox Vault.enterBoxed at fits
  rw [Eval.bind_of_done entered] at fits
  obtain ⟨isolatedInside, young⟩ := inside ((Widens.boxing value (course box).widens).fits fits)
  have binds : Level.statement.Binds before (.boxed box :: openings) :=
    Level.binds_cons _ young openings
  obtain ⟨holding, bound, isolatedHolding⟩ :=
    isolatedInside.define binds Native.boxedValue steady context
  obtain ⟨filled, methods, isolatedFilled⟩ :=
    isolatedHolding.defineMethods binds Native.boxedMethods context
  have calmBody : (course box).Calm context filled :=
    ((calm.of_bind_done entered).of_bind_done bound).of_bind_done methods
  rw [Eval.bind_of_done bound, Eval.bind_of_done methods] at fits
  refine .bind_of_done nofun entered (.bind_of_done nofun bound (.bind_of_done nofun methods
    (ensuring (bodyIsolates box) (.leave .boxed)
      (.onVault (Vault.unfailing_leave .boxed)) config binds isolatedFilled calmBody fits ?_)))
  intro after final kept left
  exact kept.leave (.inr rfl) isolated.tidy.someOpen young left

/-- A declared scope is young until it is bound. -/
theorem inDeclaration (name : String) {body : Eval α} {course : Course body}
    (bodyIsolates : course.Isolates .statement P) :
    (Course.inDeclaration name course).Isolates .statement P := by
  intro before context machine openings config binds isolated calm fits
  obtain ⟨handle, opened, declared, inside⟩ := isolated.declare name context
  unfold Eval.inDeclaration at fits
  rw [Eval.bind_of_done declared] at fits
  have endWidens := Widens.endDeclaration handle name
  obtain ⟨isolatedInside, young⟩ := inside ((course.widens.ensuring endWidens).fits fits)
  refine .bind_of_done nofun declared (ensuring bodyIsolates endWidens
    (.onVault (Vault.unfailing_endDeclaration handle name)) config
    (Level.binds_cons _ young openings) isolatedInside (calm.of_bind_done declared) fits ?_)
  intro after final kept ended
  exact kept.endDeclaration young isolated.tidy.someOpen binds ended

/-- The body of a declaration is run in a young scope, with or without a name for itself. -/
theorem declareScope {recursion : Recursion} {courses : recursion.Courses} {body : List Stmt}
    (name : String) (isContext : Bool)
    (bodyIsolates : (courses.execute body).Isolates .statement Flow.Steady) :
    (courses.declareScope name body isContext).Isolates .statement Flow.Steady := by
  intro before context machine openings config binds isolated calm fits
  obtain ⟨handle, opened, declared, inside⟩ := isolated.declare name context
  have calmInside := calm.of_bind_done declared
  unfold Evaluator.declareScope at fits
  rw [Eval.bind_of_done declared] at fits
  have endWidens := Widens.endDeclaration handle name
  have bodyWidens := (courses.execute body).widens.followedBy endWidens
  have ending {machine : Machine} (young : before.isLive handle = false)
      (isolatedInside : machine.Isolated before (.declaration handle :: openings))
      (calmBody : (courses.execute body).Calm context machine)
      (fits : (Eval.followedBy (recursion.execute body)
        (Eval.onVault (Vault.endDeclaration handle name)) context machine).2.vault.Fits) :
      (courses.declared handle name body).Preserves before openings Flow.Steady context
        machine := by
    refine followedBy bodyIsolates endWidens
      (.onVault (Vault.unfailing_endDeclaration handle name)) config
      (Level.binds_cons .statement young openings) isolatedInside calmBody fits ?_
    intro after final kept ended
    exact kept.endDeclaration young isolated.tidy.someOpen binds ended
  refine .bind_of_done nofun declared ?_
  cases isContext with
  | false =>
      obtain ⟨isolatedInside, young⟩ := inside (bodyWidens.fits fits)
      exact ending young isolatedInside calmInside fits
  | true =>
      have thisWidens := Widens.define "this" (.scope handle)
      obtain ⟨isolatedInside, young⟩ := inside ((thisWidens.bind fun _ => bodyWidens).fits fits)
      obtain ⟨bound, defined, isolatedBound⟩ := isolatedInside.define
        (Level.binds_cons .statement young openings) "this" (.scope handle) context
      rw [if_pos rfl, Eval.bind_of_done defined] at fits
      exact .bind_of_done nofun defined
        (ending young isolatedBound (calmInside.of_bind_done defined) fits)

/-- A new map is young, so its methods are bound in a young scope. -/
theorem callNewMap {recursion : Recursion} {courses : recursion.Courses}
    (preludeIsolates : (courses.execute Prelude.statements).Isolates .statement Flow.Steady)
    (site : CallSite) (values : List Value) :
    (courses.callNewMap site values).Isolates level Value.Steady := by
  refine ite (fun _ => failAt _ _ _) fun _ => ?_
  intro before context machine openings config _ isolated calm fits
  obtain ⟨owner, found⟩ := isolated.tidy.forest.owner isolated.tidy.someOpen
  have ranOwner := onVault_eq_of_done context machine found
  have calmOwned := calm.of_bind_done ranOwner
  rw [Eval.bind_of_done ranOwner] at fits
  refine .bind_of_done nofun ranOwner ?_
  refine .bind fits (fun fitsGrown =>
    .quiet fun _ => isolated.createOwned site.span owner "Map" context fitsGrown) ?_
  intro handle grown created young isolatedGrown fitsRest
  have calmGrown := calmOwned.of_bind_done created
  refine .bind fitsRest (fun fitsFilled =>
    .quiet fun _ => isolatedGrown.createOwned site.span handle "entries" context fitsFilled) ?_
  intro entries filled createdEntries _ isolatedFilled fitsBinding
  have calmFilled := calmGrown.of_bind_done createdEntries
  have boundIn {machine : Machine} (isolated : machine.Isolated before openings) (name : String)
      (named : name ≠ "") (scope : Handle) :
      (Course.onVault (Vault.widens_defineIn handle name (.scope scope))).Preserves before openings
        (fun _ => True) context machine :=
    .quiet fun _ => ⟨isolated.defineIn young named (.scope scope) context, Outcome.gives_any _⟩
  refine .bind fitsBinding (fun _ => boundIn isolatedFilled _ (by decide) handle) ?_
  intro _ selfBound boundSelf _ isolatedSelf fitsSelf
  have calmSelf := calmFilled.of_bind_done boundSelf
  refine .bind fitsSelf (fun _ => boundIn isolatedSelf _ (by decide) entries) ?_
  intro _ entriesBound boundEntries _ isolatedEntries fitsVisit
  refine visiting site.span handle ?_ config (Level.binds_cons .statement young openings)
    isolatedEntries (calmSelf.of_bind_done boundEntries) fitsVisit
  exact .bind (inFile _ (within _ preludeIsolates)) fun _ _ => result (Value.Keeps.scope handle)

end Isolates

end Eval.Course

end ScopeScript
