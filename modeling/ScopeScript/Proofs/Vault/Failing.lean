import ScopeScript.Proofs.Vault.Frames

/-!
# How operations on the store fail

An operation on the store fails if a name is unbound or a handle is stale, and its diagnostic says
that and nothing about the place in a source text (`Diagnostic.Bare`); the place is added by the
evaluator. The other operations do not fail at all.
-/

namespace ScopeScript

/-- A diagnostic of the store says what is missing, but not where. -/
structure Diagnostic.Bare (diagnostic : Diagnostic) : Prop where
  kind : diagnostic.kind = .unboundName ∨ diagnostic.kind = .staleHandle
  span : diagnostic.span = .null
  path : diagnostic.path = ""
  source : diagnostic.source = ""

/-- The diagnostics of a computation say what is missing, but not where. -/
def Run.Bare (computation : Run σ α) : Prop :=
  ∀ state diagnostic, (computation state).1 = .failed diagnostic → diagnostic.Bare

namespace Run

variable {σ α β : Type}

/-- What cannot fail gives no diagnostic that would have a place. -/
theorem Unfailing.bare {computation : Run σ α} (unfailing : computation.Unfailing) :
    computation.Bare :=
  fun state diagnostic failed => absurd failed (unfailing state diagnostic)

namespace Bare

theorem fail {diagnostic : Diagnostic} (bare : diagnostic.Bare) :
    (Run.fail diagnostic : Run σ α).Bare := by
  rintro state _ ⟨⟩
  exact bare

theorem orFail {found : Except Diagnostic α}
    (bare : ∀ diagnostic, found = .error diagnostic → diagnostic.Bare) :
    (Run.orFail found : Run σ α).Bare := by
  cases found with
  | ok value => exact Unfailing.bare (.result value)
  | error diagnostic => exact fail (bare diagnostic rfl)

/-- A sequence gives bare diagnostics if its parts do. -/
theorem bind {first : Run σ α} {next : α → Run σ β} (firstBare : first.Bare)
    (nextBare : ∀ value, (next value).Bare) : (first >>= next).Bare := by
  intro state diagnostic failed
  have bare := firstBare state
  rw [bind_apply] at failed
  generalize first state = ran at bare failed
  obtain ⟨outcome, middle⟩ := ran
  cases outcome with
  | done value => exact nextBare value middle diagnostic failed
  | failed other =>
      cases failed
      exact bare _ rfl
  | crashed crash => cases failed
  | endless => cases failed

end Bare

end Run

namespace Vault

/-- The diagnostics for handles are bare. -/
theorem bare_find {vault : Vault} {handle : Handle} {diagnostic : Diagnostic}
    (refused : vault.find handle = .error diagnostic) : diagnostic.Bare := by
  unfold find at refused
  split at refused
  · cases refused
  · split at refused
    · cases refused
      exact ⟨.inr rfl, rfl, rfl, rfl⟩
    · cases refused
      exact ⟨.inr rfl, rfl, rfl, rfl⟩

theorem bare_map_find {vault : Vault} {handle : Handle} {read : Record → α}
    {diagnostic : Diagnostic} (refused : (vault.find handle).map read = .error diagnostic) :
    diagnostic.Bare := by
  cases found : vault.find handle with
  | ok record =>
      rw [found] at refused
      cases refused
  | error other =>
      rw [found] at refused
      cases refused
      exact bare_find found

/-- What is wrong with a lookup is told by a bare diagnostic. -/
theorem bare_lookup {vault : Vault} {handle : Handle} {name : String} {diagnostic : Diagnostic}
    (refused : vault.lookup handle name = .error diagnostic) : diagnostic.Bare :=
  bare_map_find refused

theorem bare_bindings {vault : Vault} {handle : Handle} {diagnostic : Diagnostic}
    (refused : vault.bindings handle = .error diagnostic) : diagnostic.Bare :=
  bare_map_find refused

/-- An operation on a scope fails only if the scope does not exist. -/
theorem bare_finding (handle : Handle) {next : Record → Run Vault α}
    (unfailing : ∀ record, (next record).Unfailing) :
    (do next (← Run.orFail ((← Run.state).find handle)) : Run Vault α).Bare :=
  .bind (Run.Unfailing.bare .state) fun _ =>
    .bind (.orFail fun _ => bare_find) fun record => (unfailing record).bare

theorem unfailing_create (parent : Handle) (path : String) : (create parent path).Unfailing :=
  fun _ _ => nofun

theorem unfailing_innermost (name : String) : (innermost name).Unfailing :=
  fun vault => Run.Unfailing.orCrash _ vault

/-- That a name is unbound is told by a bare diagnostic. -/
theorem bare_resolve (name : String) : (resolve name).Bare := by
  refine .bind (unfailing_innermost name).bare fun found => ?_
  rcases found with _ | ⟨handle, binding⟩
  · exact .fail ⟨.inl rfl, rfl, rfl, rfl⟩
  · exact Run.Unfailing.bare (.result _)

theorem bare_defineIn (handle : Handle) (name : String) (value : Value) :
    (defineIn handle name value).Bare :=
  bare_finding handle fun _ => unfailing_rebind handle name value

theorem bare_eraseIn (handle : Handle) (name : String) : (eraseIn handle name).Bare :=
  .bind (Run.Unfailing.bare .state) fun _ => .bind (.orFail fun _ => bare_bindings) fun _ =>
    Run.Unfailing.bare (.bind (.update _) fun _ => .result _)

theorem bare_createOwned (owner : Handle) (name : String) : (createOwned owner name).Bare :=
  bare_finding owner fun _ =>
    .bind (unfailing_create _ _) fun _ => .bind (.update _) fun _ => .result _

theorem bare_enterNamed (handle : Handle) : (enterNamed handle).Bare :=
  bare_finding handle fun _ => .update _

theorem unfailing_unbind (name : String) : (unbind name).Unfailing := by
  refine .bind (unfailing_innermost name) fun found => ?_
  rcases found with _ | ⟨handle, binding⟩
  · exact .result false
  · exact .bind (.update _) fun _ => .result true

/-- Asking for the owner crashes if anything. -/
theorem unfailing_owner : owner.Unfailing := by
  refine .bind .state fun vault => ?_
  split
  · exact .result _
  · exact .bind .state fun _ => .bind (.orCrash _) fun _ => .result _

/-- Entering a block crashes if anything. -/
theorem unfailing_enter (kind : FrameKind) : (enter kind).Unfailing := by
  refine .bind .state fun vault => ?_
  split
  · exact .bind (unfailing_create _ _) fun _ => .bind (.update _) fun _ =>
      .bind (.update _) fun _ => .result _
  · refine .bind unfailing_current fun parent => .bind (unfailing_activeRecord parent) fun _ => ?_
    exact .bind (unfailing_create _ _) fun _ => .bind (.update _) fun _ =>
      .bind (.update _) fun _ => .result _

/-- Declaring a scope crashes if anything. -/
theorem unfailing_declare (name : String) : (declare name).Unfailing :=
  .bind unfailing_current fun parent => .bind (unfailing_activeRecord parent) fun _ =>
    .bind (unfailing_create _ _) fun _ => .bind (.update _) fun _ => .result _

end Vault

end ScopeScript
