import ScopeScript.Proofs.Vault.Editing
import ScopeScript.Proofs.Vault.Operation

/-!
# Histories of the store

A history is a store together with the handles it has handed out. Here the operations may be called
in any order and with any handles, and a crash does not end the history; only operations that never
end are left out.

Whatever an operation does to the slots is made of three changes: a record is allocated and its
handle handed out, a live record is freed, or a record is changed in place (`Step.changes`). What
holds along these changes therefore holds along histories.
-/

namespace ScopeScript
namespace Vault

/-- A store and the handles it has handed out, newest first. -/
structure History where
  vault : Vault
  issued : List Handle

namespace History

/-- Nothing has happened. -/
def start : History := ⟨.empty, []⟩

/-- The handle that an outcome hands out, if it does. -/
def handed : Outcome (Option Handle) → List Handle
  | .done (some handle) => [handle]
  | _ => []

/-- The history after an operation. -/
def perform (history : History) (operation : Operation) : History :=
  ⟨(operation.perform history.vault).2,
    handed (operation.perform history.vault).1 ++ history.issued⟩

/-- An operation has been performed and has come to an end. -/
inductive Step : History → History → Prop
  | perform {history : History} (operation : Operation) :
      (operation.perform history.vault).1 ≠ .endless → Step history (history.perform operation)

/-- A history goes on to another one. -/
def Leads : History → History → Prop :=
  Relation.ReflTransGen Step

/-- What can happen to a store without a handle being handed out. -/
inductive Shift : Vault → Vault → Prop
  | vacate {vault : Vault} {handle : Handle} :
      vault.isLive handle = true → Shift vault (vault.vacate handle)
  | modify {vault : Vault} (handle : Handle) (change : Record → Record) :
      Shift vault (vault.modify handle change)
  | outside {vault after : Vault} : after.slots = vault.slots → after.free = vault.free →
      after.live = vault.live → Shift vault after

/-- What can happen to the slots at once. -/
inductive Change : History → History → Prop
  | allocate {vault : Vault} {issued : List Handle} (parent : Handle) (path : String) :
      Change ⟨vault, issued⟩
        ⟨(vault.allocate parent path).2, (vault.allocate parent path).1 :: issued⟩
  | shift {vault after : Vault} {issued : List Handle} :
      Shift vault after → Change ⟨vault, issued⟩ ⟨after, issued⟩

/-- Changes of the slots, one after the other. -/
def Changes : History → History → Prop :=
  Relation.ReflTransGen Change

/-- Steps of the store that hand nothing out are changes of its history. -/
theorem changes_of_shifts {vault after : Vault} (issued : List Handle)
    (shifts : Relation.ReflTransGen Shift vault after) :
    Changes ⟨vault, issued⟩ ⟨after, issued⟩ := by
  induction shifts with
  | refl => exact .refl
  | tail _ shift inductionHypothesis => exact .tail inductionHypothesis (.shift shift)

/-! ## Operations that hand out nothing -/

namespace Shift

/-- Edits of bindings shift nothing but records in place. -/
theorem of_edit {computation : Run Vault α} (steps : Run.Steps Edit computation) :
    Run.Steps Shift computation := by
  refine steps.mono fun before after edit => ?_
  cases edit with
  | modify handle _ _ => exact .modify handle _
  | cell => exact .outside rfl rfl rfl

/-- Freeing is a chain of steps that free one record each. -/
theorem release (handle : Handle) : Run.Steps Shift (Vault.release handle) := by
  intro vault ended
  cases freed : releaseWithin (vault.slots.size + 1) handle vault with
  | none => simp [Vault.release, freed] at ended
  | some rest =>
      rw [release_of_some freed]
      refine Relation.ReflTransGen.mono ?_ vault rest (releaseWithin_vacates freed)
      rintro before _ ⟨freedHandle, live, rfl⟩
      exact .vacate live

theorem push (kind : FrameKind) (handle : Handle) : Run.Steps Shift (Vault.push kind handle) :=
  .update fun _ => .outside rfl rfl rfl

theorem pop : Run.Steps Shift Vault.pop := by
  refine .bind .state fun vault => .bind (.orCrash _) ?_
  rintro ⟨frame, frames⟩
  exact .bind (.update fun _ => .outside rfl rfl rfl) fun _ => .result frame

/-- Leaving a block drops a frame and frees a record with all it owns. -/
theorem leave (kind : FrameKind) : Run.Steps Shift (Vault.leave kind) := by
  refine .bind pop fun frame => ?_
  split
  · exact release frame.record
  · exact .crash _

theorem dropFrame : Run.Steps Shift Vault.dropFrame := by
  refine .bind pop fun frame => ?_
  split
  · exact .result ()
  · exact release frame.record

theorem unwindWithin (depth : Int) (bound : Nat) :
    Run.Steps Shift (Vault.unwindWithin depth bound) := by
  induction bound with
  | zero => exact .result ()
  | succ bound inductionHypothesis =>
      refine .bind .state fun vault => ?_
      split
      · exact .bind dropFrame fun _ => inductionHypothesis
      · exact .result ()

/-- Unwinding leaves one frame after the other. -/
theorem unwind (depth : Int) : Run.Steps Shift (Vault.unwind depth) :=
  .bind .state fun vault => unwindWithin depth (vault.depth + 1)

/-- The end of a declaration drops a frame and edits the scope outside. -/
theorem endDeclaration (handle : Handle) (name : String) :
    Run.Steps Shift (Vault.endDeclaration handle name) := by
  refine .bind pop fun frame => ?_
  split
  · refine .bind (of_edit Edit.current) fun parent => ?_
    refine .bind (of_edit (Edit.activeRecord parent)) fun _ => ?_
    exact .bind (.update fun _ => .modify parent _) fun _ =>
      of_edit (Edit.rebind parent name (.scope handle))
  · exact .crash _

theorem enterNamed (handle : Handle) : Run.Steps Shift (Vault.enterNamed handle) :=
  .bind .state fun _ => .bind (.orFail _) fun _ => push .named handle

theorem exitNamed : Run.Steps Shift Vault.exitNamed := by
  refine .bind pop fun frame => ?_
  split
  · exact .result ()
  · exact .crash _

end Shift

end History

open History

/-! ## Computations that create a record -/

/-- A computation allocates one record and gives its handle, or leaves the store as it is. -/
def Creates (creation : Run Vault Handle) : Prop :=
  ∀ vault issued,
    (∃ handle after, creation vault = (.done handle, after) ∧
      Changes ⟨vault, issued⟩ ⟨after, handle :: issued⟩) ∨
    ∃ outcome, creation vault = (outcome, vault) ∧ ∀ handle, outcome ≠ .done handle

namespace Creates

/-- Entering a block hands out one new handle at most. -/
theorem enter (kind : FrameKind) : Creates (Vault.enter kind) := by
  intro vault issued
  cases frames : vault.frames with
  | nil =>
      obtain ⟨path, entered⟩ := enter_of_nil kind frames
      refine .inl ⟨_, _, entered, ?_⟩
      exact .tail (.single (.allocate .zero path)) (.shift (.outside rfl rfl rfl))
  | cons frame below =>
      cases found : vault.record? frame.record with
      | none =>
          obtain ⟨crash, crashed⟩ := enter_of_inactive kind frames found
          exact .inr ⟨_, crashed, by simp⟩
      | some record =>
          obtain ⟨path, entered⟩ := enter_of_cons kind frames found
          have allocated : Changes ⟨vault, issued⟩ _ := .single (.allocate frame.record path)
          refine .inl ⟨_, _, entered, ?_⟩
          exact .tail (.tail allocated (.shift (.modify frame.record _)))
            (.shift (.outside rfl rfl rfl))

/-- A declaration hands out one new handle at most. -/
theorem declare (name : String) : Creates (Vault.declare name) := by
  intro vault issued
  cases frames : vault.frames with
  | nil => exact .inr ⟨_, declare_of_nil name frames, by simp⟩
  | cons frame below =>
      cases found : vault.record? frame.record with
      | none =>
          obtain ⟨crash, crashed⟩ := declare_of_inactive name frames found
          exact .inr ⟨_, crashed, by simp⟩
      | some record =>
          obtain ⟨path, declared⟩ := declare_of_cons name frames found
          exact .inl ⟨_, _, declared,
            .tail (.single (.allocate frame.record path)) (.shift (.outside rfl rfl rfl))⟩

/-- Creating a scope hands out one new handle at most. -/
theorem createOwned (owner : Handle) (name : String) : Creates (Vault.createOwned owner name) := by
  intro vault issued
  cases found : vault.record? owner with
  | none =>
      obtain ⟨diagnostic, refused, _⟩ := find_of_none found
      exact .inr ⟨_, createOwned_of_none name refused, by simp⟩
  | some record =>
      obtain ⟨path, created⟩ := createOwned_of_some name found
      exact .inl ⟨_, _, created, .tail (.single (.allocate owner path)) (.shift (.modify owner _))⟩

end Creates

namespace History

/-- Where a computation ends it has changed slots and handed out the handle it gives. -/
def Recorded (computation : Run Vault (Option Handle)) : Prop :=
  ∀ vault issued, (computation vault).1 ≠ .endless →
    Changes ⟨vault, issued⟩ ⟨(computation vault).2, handed (computation vault).1 ++ issued⟩

/-- Operations that hand nothing out add nothing to the history. -/
theorem handed_quietly (computation : Run Vault α) (vault : Vault) :
    handed (Operation.quietly computation vault).1 = [] := by
  rw [Operation.quietly, Run.bind_apply]
  rcases computation vault with ⟨outcome, after⟩
  cases outcome <;> rfl

/-- What is made of steps is recorded without a handle. -/
theorem Recorded.quietly {computation : Run Vault α} (steps : Run.Steps Shift computation) :
    Recorded (Operation.quietly computation) := by
  intro vault issued ended
  have shifts := (Run.Steps.bind steps fun _ => .result none) vault ended
  rw [handed_quietly]
  exact changes_of_shifts issued shifts

/-- What hands out a new handle is recorded with it. -/
theorem Recorded.handing {creation : Run Vault Handle} (creates : Creates creation) :
    Recorded (Operation.handing creation) := by
  intro vault issued _
  rw [Operation.handing, Run.bind_apply]
  rcases creates vault issued with ⟨handle, after, created, changes⟩ | ⟨outcome, ended, notDone⟩
  · rw [created]
    exact changes
  · rw [ended]
    cases outcome with
    | done handle => exact absurd rfl (notDone handle)
    | failed diagnostic => exact .refl
    | crashed crash => exact .refl
    | endless => exact .refl

/-- Operations on bindings hand out nothing. -/
theorem Recorded.of_edits {operation : Operation} (edits : operation.edits = true) :
    Recorded operation.perform := by
  obtain ⟨_, _, isQuiet, steps⟩ := Operation.exists_edit edits
  rw [isQuiet]
  exact .quietly (Shift.of_edit steps)

/-- What any operation does is recorded in the history. -/
theorem Recorded.perform (operation : Operation) : Recorded operation.perform := by
  cases operation with
  | enterBlock => exact .handing (.enter .block)
  | exitBlock => exact .quietly (Shift.leave .block)
  | enterBoxed => exact .handing (.enter .boxed)
  | exitBoxed => exact .quietly (Shift.leave .boxed)
  | declare name => exact .handing (.declare name)
  | endDeclaration handle name => exact .quietly (Shift.endDeclaration handle name)
  | createOwned owner name => exact .handing (.createOwned owner name)
  | enterNamed handle => exact .quietly (Shift.enterNamed handle)
  | exitNamed => exact .quietly Shift.exitNamed
  | unwind depth => exact .quietly (Shift.unwind depth)
  | current | global | owner | resolve | define | defineIn | lookup | bindings | unbind | erase
  | clear | assign => exact .of_edits rfl

/-- Every step of a history is made of changes. -/
theorem Step.changes {before after : History} (step : Step before after) :
    Changes before after := by
  cases step with
  | perform operation ended => exact Recorded.perform operation before.vault before.issued ended

/-- Every run is made of changes. -/
theorem Leads.changes {before after : History} (leads : Leads before after) :
    Changes before after := by
  induction leads with
  | refl => exact .refl
  | tail _ step inductionHypothesis => exact inductionHypothesis.trans step.changes

end History

end Vault
end ScopeScript
