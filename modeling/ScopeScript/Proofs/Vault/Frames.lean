import ScopeScript.Proofs.Vault.Editing

/-!
# What the operations do to the frames

Entering a scope pushes one frame, leaving it pops this frame, and everything else leaves the
frames alone. These facts hold of every store, whether its records are live or not, as far as the
operations give a result. Exits and bindings in the innermost scope never end with a diagnostic.
-/

namespace ScopeScript
namespace Vault

variable {vault after : Vault}

/-! ## Entering -/

/-- A block is entered with a frame of its own, or there is no live scope to enter it in. -/
theorem enter_cases (kind : FrameKind) (vault : Vault) :
    (∃ handle after, enter kind vault = (.done handle, after) ∧
      after.frames = ⟨kind, handle⟩ :: vault.frames) ∨
    ∃ crash, enter kind vault = (.crashed crash, vault) := by
  cases frames : vault.frames with
  | nil =>
      obtain ⟨path, entered⟩ := enter_of_nil kind frames
      exact .inl ⟨_, _, entered, rfl⟩
  | cons frame below =>
      cases found : vault.record? frame.record with
      | none => exact .inr (enter_of_inactive kind frames found)
      | some record =>
          obtain ⟨path, entered⟩ := enter_of_cons kind frames found
          exact .inl ⟨_, _, entered, by rw [← frames]⟩

/-- A declaration puts one frame on top or crashes. -/
theorem declare_cases (name : String) (vault : Vault) :
    (∃ handle after, declare name vault = (.done handle, after) ∧
      after.frames = ⟨.named, handle⟩ :: vault.frames) ∨
    ∃ crash, declare name vault = (.crashed crash, vault) := by
  cases frames : vault.frames with
  | nil => exact .inr ⟨_, declare_of_nil name frames⟩
  | cons frame below =>
      cases found : vault.record? frame.record with
      | none => exact .inr (declare_of_inactive name frames found)
      | some record =>
          obtain ⟨path, declared⟩ := declare_of_cons name frames found
          exact .inl ⟨_, _, declared, by rw [← frames]⟩

/-- A visit puts one frame on top or is refused. -/
theorem enterNamed_cases (handle : Handle) (vault : Vault) :
    (∃ after, enterNamed handle vault = (.done (), after) ∧
      after.frames = ⟨.named, handle⟩ :: vault.frames) ∨
    ∃ diagnostic, enterNamed handle vault = (.failed diagnostic, vault) := by
  cases found : vault.record? handle with
  | none =>
      obtain ⟨diagnostic, refused, _⟩ := find_of_none found
      exact .inr ⟨diagnostic, enterNamed_of_none refused⟩
  | some record => exact .inl ⟨_, enterNamed_of_some found, rfl⟩

/-- Creating a scope leaves the frames as they are. -/
theorem createOwned_cases (owner : Handle) (name : String) (vault : Vault) :
    (∃ handle after, createOwned owner name vault = (.done handle, after) ∧
      after.frames = vault.frames) ∨
    ∃ diagnostic, createOwned owner name vault = (.failed diagnostic, vault) := by
  cases found : vault.record? owner with
  | none =>
      obtain ⟨diagnostic, refused, _⟩ := find_of_none found
      exact .inr ⟨diagnostic, createOwned_of_none name refused⟩
  | some record =>
      obtain ⟨path, created⟩ := createOwned_of_some name found
      exact .inl ⟨_, _, created, frames_allocate vault owner path⟩

/-! ## Leaving -/

/-- Freeing leaves the frames as they are. -/
theorem frames_of_release {handle : Handle} (freed : release handle vault = (.done (), after)) :
    after.frames = vault.frames := by
  cases rest : releaseWithin (vault.slots.size + 1) handle vault with
  | none => simp [release, rest] at freed
  | some remaining =>
      cases freed.symm.trans (release_of_some rest)
      exact Vacates.frames_eq (releaseWithin_vacates rest)

/-- Leaving drops the topmost frame. -/
theorem frames_of_leave {kind : FrameKind} {handle : Handle} {below : FrameStack}
    (frames : vault.frames = ⟨kind, handle⟩ :: below)
    (left : leave kind vault = (.done (), after)) : after.frames = below :=
  frames_of_release ((leave_of_cons frames).symm.trans left)

theorem frames_of_exitNamed {handle : Handle} {below : FrameStack}
    (frames : vault.frames = ⟨.named, handle⟩ :: below)
    (left : exitNamed vault = (.done (), after)) : after.frames = below := by
  cases left.symm.trans (exitNamed_of_cons frames)
  rfl

/-- A step leaves the frames alone. -/
def SameFrames (before after : Vault) : Prop :=
  after.frames = before.frames

/-- What is made of steps that keep the frames keeps them, unless it is endless. -/
theorem frames_of_steps {computation : Run Vault α} {outcome : Outcome α}
    (steps : Run.Steps SameFrames computation) (ran : computation vault = (outcome, after))
    (ended : outcome ≠ .endless) : after.frames = vault.frames := by
  have chain := steps vault
  rw [ran] at chain
  have reached : Relation.ReflTransGen SameFrames vault after := chain ended
  clear chain ran
  induction reached with
  | refl => rfl
  | tail _ same inductionHypothesis => exact same.trans inductionHypothesis

theorem sameFrames_of_edit {computation : Run Vault α} (steps : Run.Steps Edit computation) :
    Run.Steps SameFrames computation :=
  steps.mono fun _ _ edit => Edit.frames_eq (.single edit)

/-- The end of a declaration drops its frame. -/
theorem frames_of_endDeclaration {handle : Handle} {name : String} {below : FrameStack}
    (frames : vault.frames = ⟨.named, handle⟩ :: below)
    (ended : endDeclaration handle name vault = (.done (), after)) : after.frames = below := by
  let adoption : Run Vault Unit := do
    let parent ← current
    let _ ← activeRecord parent
    Run.update (·.modify parent fun record => { record with owned := record.owned ++ [handle] })
    rebind parent name (.scope handle)
  have steps : Run.Steps SameFrames adoption := by
    refine .bind (sameFrames_of_edit Edit.current) fun parent => ?_
    refine .bind (sameFrames_of_edit (Edit.activeRecord parent)) fun _ => ?_
    refine .bind (.update fun _ => rfl) fun _ => ?_
    exact sameFrames_of_edit (Edit.rebind parent name (.scope handle))
  have popped : endDeclaration handle name vault = adoption { vault with frames := below } := by
    rw [endDeclaration, Run.bind_of_done (pop_of_cons frames)]
    simp only [and_self, if_true]
    rfl
  exact frames_of_steps steps (popped.symm.trans ended) (by simp)

/-! ## What does not fail -/

theorem unfailing_current : current.Unfailing :=
  .bind .state fun _ => .bind (.orCrash _) fun frame => .result frame.record

theorem unfailing_activeRecord (handle : Handle) : (activeRecord handle).Unfailing :=
  .bind .state fun _ => .orCrash _

theorem unfailing_pop : pop.Unfailing := by
  refine .bind .state fun vault => .bind (.orCrash _) ?_
  rintro ⟨frame, frames⟩
  exact .bind (.update _) fun _ => .result frame

theorem unfailing_release (handle : Handle) : (release handle).Unfailing := by
  intro vault diagnostic
  unfold release
  split <;> simp

theorem unfailing_leave (kind : FrameKind) : (leave kind).Unfailing := by
  refine .bind unfailing_pop fun frame => ?_
  split
  · exact unfailing_release frame.record
  · exact .crash _

theorem unfailing_exitNamed : exitNamed.Unfailing := by
  refine .bind unfailing_pop fun frame => ?_
  split
  · exact .result ()
  · exact .crash _

theorem unfailing_freshCell : freshCell.Unfailing :=
  .bind .state fun vault => .bind (.update _) fun _ => .result vault.cells

/-- A definition does not fail, it crashes if anything. -/
theorem unfailing_define (name : String) (value : Value) : (define name value).Unfailing :=
  .bind unfailing_current fun handle => .bind (unfailing_activeRecord handle) fun _ =>
    .bind unfailing_freshCell fun _ => .update _

theorem unfailing_rebind (handle : Handle) (name : String) (value : Value) :
    (rebind handle name value).Unfailing := by
  unfold rebind
  split
  · exact .crash _
  · exact .bind unfailing_freshCell fun cell => .update _

/-- The end of a declaration does not fail, it crashes if anything. -/
theorem unfailing_endDeclaration (handle : Handle) (name : String) :
    (endDeclaration handle name).Unfailing := by
  refine .bind unfailing_pop fun frame => ?_
  split
  · refine .bind unfailing_current fun parent => ?_
    refine .bind (unfailing_activeRecord parent) fun _ => ?_
    exact .bind (.update _) fun _ => unfailing_rebind parent name (.scope handle)
  · exact .crash _

end Vault
end ScopeScript
