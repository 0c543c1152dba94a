import ScopeScript.Proofs.Vault.Contents
import ScopeScript.Proofs.Vault.Operation

/-!
# Slots are never given back

A slot that has been freed stays in the store and waits to be used again. So no operation leaves
fewer slots than it finds, however it ends (`Operation.widens`), and a store whose slots have
fitting numbers has had them all the time before (`Widens.fits`). What is known of stores with
fitting numbers is therefore shown under the condition that they fit at the end.
-/

namespace ScopeScript

/-- A computation does not give slots back. -/
def Run.Widens (computation : Run Vault α) : Prop :=
  ∀ vault : Vault, vault.Widens (computation vault).2

/-- A computation that keeps the invariant whatever it starts from. -/
theorem Run.Widens.of_ensures {computation : Run Vault α} {P : α → Prop}
    (ensures : ∀ start : Vault, Run.Ensures start.Widens P computation) : computation.Widens :=
  fun vault => (ensures vault vault (.refl vault)).1

theorem Run.Widens.bind {first : Run Vault α} {next : α → Run Vault β}
    (firstWidens : first.Widens) (nextWidens : ∀ value, (next value).Widens) :
    (first >>= next).Widens := by
  intro vault
  have wide := firstWidens vault
  rw [Run.bind_apply]
  generalize first vault = ran at wide ⊢
  obtain ⟨outcome, middle⟩ := ran
  cases outcome with
  | done value => exact wide.trans (nextWidens value middle)
  | _ => exact wide

namespace Vault

variable {vault after : Vault}

/-- If the numbers fit after an operation, then they did before. -/
theorem fits_of_ran {operation : Run Vault α} (widens : operation.Widens) {outcome : Outcome α}
    (ran : operation vault = (outcome, after)) (fits : after.Fits) : vault.Fits := by
  have wide := widens vault
  rw [ran] at wide
  exact wide.fits fits

theorem widens_enter (kind : FrameKind) : (enter kind).Widens :=
  .of_ensures fun start => (invariant_widens start).enter kind

theorem widens_leave (kind : FrameKind) : (leave kind).Widens :=
  .of_ensures fun start => (invariant_widens start).leave kind

/-- Leaving a scope adds no slots either. -/
theorem fits_of_leave {kind : FrameKind} {handle : Handle} {below : FrameStack}
    (frames : vault.frames = ⟨kind, handle⟩ :: below)
    (left : leave kind vault = (.done (), after)) (fits : vault.Fits) : after.Fits := by
  rw [leave_of_cons frames, release] at left
  split at left
  case h_1 rest freed =>
    cases left
    have same := Vacates.size_slots_eq (releaseWithin_vacates freed)
    exact same.trans_le fits
  case h_2 => cases left

theorem widens_declare (name : String) : (declare name).Widens :=
  .of_ensures fun start => (invariant_widens start).declare name

theorem widens_endDeclaration (handle : Handle) (name : String) :
    (endDeclaration handle name).Widens :=
  .of_ensures fun start => (invariant_widens start).endDeclaration handle name trivial

theorem widens_createOwned (owner : Handle) (name : String) : (createOwned owner name).Widens :=
  .of_ensures fun start => (invariant_widens start).createOwned owner name

theorem widens_enterNamed (handle : Handle) : (enterNamed handle).Widens :=
  .of_ensures fun start => (invariant_widens start).enterNamed handle

theorem widens_exitNamed : exitNamed.Widens :=
  .of_ensures fun start => (invariant_widens start).exitNamed

theorem widens_unwind (depth : Int) : (unwind depth).Widens :=
  .of_ensures fun start => (invariant_widens start).unwind depth

theorem widens_owner : owner.Widens :=
  .of_ensures fun _ => ensures_owner

theorem widens_resolve (name : String) : (resolve name).Widens :=
  .of_ensures fun start => (invariant_widens start).resolve name

theorem widens_define (name : String) (value : Value) : (define name value).Widens :=
  .of_ensures fun start => (invariant_widens start).define name trivial

theorem widens_defineIn (handle : Handle) (name : String) (value : Value) :
    (defineIn handle name value).Widens :=
  .of_ensures fun start => (invariant_widens start).defineIn handle name trivial

theorem widens_unbind (name : String) : (unbind name).Widens :=
  .of_ensures fun start => (invariant_widens start).unbind name

theorem widens_eraseIn (handle : Handle) (name : String) : (eraseIn handle name).Widens :=
  .of_ensures fun start => (invariant_widens start).eraseIn handle name

theorem widens_clearIn (handle : Handle) : (clearIn handle).Widens :=
  .of_ensures fun start => (invariant_widens start).clearIn handle

theorem widens_write (reference : Reference) (value : Value) : (write reference value).Widens :=
  .of_ensures fun start => (invariant_widens start).write reference trivial

namespace Operation

theorem widens_handing {creation : Run Vault Handle} (widens : creation.Widens) :
    (handing creation).Widens := by
  intro vault
  have wide := widens vault
  rw [handing, Run.bind_apply]
  generalize creation vault = ran at wide ⊢
  obtain ⟨outcome, after⟩ := ran
  cases outcome <;> exact wide

theorem widens_quietly {computation : Run Vault α} (widens : computation.Widens) :
    (quietly computation).Widens := by
  intro vault
  rw [quietly_snd]
  exact widens vault

/-- No operation gives slots back. -/
theorem widens (operation : Operation) : operation.perform.Widens := by
  have asking {α : Type} (query : Vault → Except Diagnostic α) (start : Vault) :
      Run.Ensures start.Widens Run.Ensures.any (do Run.orFail (query (← Run.state))) :=
    .bind .state fun _ _ => .orFail fun _ _ => trivial
  cases operation with
  | enterBlock => exact widens_handing (widens_enter .block)
  | exitBlock => exact widens_quietly (widens_leave .block)
  | enterBoxed => exact widens_handing (widens_enter .boxed)
  | exitBoxed => exact widens_quietly (widens_leave .boxed)
  | declare name => exact widens_handing (widens_declare name)
  | endDeclaration handle name => exact widens_quietly (widens_endDeclaration handle name)
  | createOwned owner name => exact widens_handing (widens_createOwned owner name)
  | enterNamed handle => exact widens_quietly (widens_enterNamed handle)
  | exitNamed => exact widens_quietly widens_exitNamed
  | unwind depth =>
      exact widens_quietly (widens_unwind depth)
  | current => exact widens_quietly (.of_ensures fun _ => ensures_current)
  | global =>
      exact widens_quietly (.of_ensures fun _ => .bind .state fun _ _ =>
        .bind (.orCrash fun _ _ => trivial) fun _ _ => .result (P := Run.Ensures.any) trivial)
  | owner => exact widens_quietly widens_owner
  | resolve name => exact widens_quietly (widens_resolve name)
  | define name value => exact widens_quietly (widens_define name value)
  | defineIn handle name value => exact widens_quietly (widens_defineIn handle name value)
  | lookup handle name => exact widens_quietly (.of_ensures (asking (·.lookup handle name)))
  | bindings handle => exact widens_quietly (.of_ensures (asking (·.bindings handle)))
  | unbind name => exact widens_quietly (widens_unbind name)
  | erase handle name => exact widens_quietly (widens_eraseIn handle name)
  | clear handle =>
      exact widens_quietly (.of_ensures fun start =>
        .bind .state fun _ _ => .bind (.orFail fun _ _ => trivial) fun _ _ =>
          (invariant_widens start).clearIn handle)
  | assign reference value => exact widens_quietly (widens_write reference value)

end Operation

end Vault
end ScopeScript
