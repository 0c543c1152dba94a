import ScopeScript.Proofs.Vault.Bracketing
import ScopeScript.Proofs.Vault.History
import ScopeScript.Proofs.Vault.Postorder

/-!
# Reuse of slots

New records take the slots from the front of the free list, and operations that neither create nor
free a record leave the list alone. So the slots that leaving a block has freed are used again in
the reverse of the order in which it has freed them (`exitBlock_frees_tree`).
-/

namespace ScopeScript
namespace Vault

/-! ## Taking slots from the free list -/

/-- A new record is in the first free slot. -/
def Takes (vault : Vault) (handle : Handle) (after : Vault) : Prop :=
  vault.free = handle.index :: after.free ∨ vault.free = [] ∧ after.free = []

/-- A new record takes the slot that is first among the free ones. -/
theorem takes_allocate (vault : Vault) (parent : Handle) (path : String) :
    vault.Takes (vault.allocate parent path).1 (vault.allocate parent path).2 := by
  simp only [allocate]
  cases free : vault.free with
  | cons index rest =>
      rw [takeSlot_of_cons free]
      exact .inl free
  | nil =>
      rw [takeSlot_of_nil free]
      exact .inr ⟨free, free⟩

/-- A computation that creates a record takes a slot for it, and otherwise it does nothing. -/
def TakesSlot (creation : Run Vault Handle) : Prop :=
  ∀ vault,
    (∃ handle after, creation vault = (.done handle, after) ∧ vault.Takes handle after) ∨
    ∃ outcome, creation vault = (outcome, vault) ∧ ∀ handle, outcome ≠ .done handle

namespace TakesSlot

/-- Entering a block takes one slot. -/
theorem enter (kind : FrameKind) : TakesSlot (Vault.enter kind) := by
  intro vault
  cases frames : vault.frames with
  | nil =>
      obtain ⟨path, entered⟩ := enter_of_nil kind frames
      exact .inl ⟨_, _, entered, takes_allocate vault .zero path⟩
  | cons frame below =>
      cases found : vault.record? frame.record with
      | none =>
          obtain ⟨crash, crashed⟩ := enter_of_inactive kind frames found
          exact .inr ⟨_, crashed, by simp⟩
      | some record =>
          obtain ⟨path, entered⟩ := enter_of_cons kind frames found
          exact .inl ⟨_, _, entered, takes_allocate vault frame.record path⟩

/-- A declaration takes one slot. -/
theorem declare (name : String) : TakesSlot (Vault.declare name) := by
  intro vault
  cases frames : vault.frames with
  | nil => exact .inr ⟨_, declare_of_nil name frames, by simp⟩
  | cons frame below =>
      cases found : vault.record? frame.record with
      | none =>
          obtain ⟨crash, crashed⟩ := declare_of_inactive name frames found
          exact .inr ⟨_, crashed, by simp⟩
      | some record =>
          obtain ⟨path, declared⟩ := declare_of_cons name frames found
          exact .inl ⟨_, _, declared, takes_allocate vault frame.record path⟩

/-- Creating a scope takes one slot. -/
theorem createOwned (owner : Handle) (name : String) :
    TakesSlot (Vault.createOwned owner name) := by
  intro vault
  cases found : vault.record? owner with
  | none =>
      obtain ⟨diagnostic, refused, _⟩ := find_of_none found
      exact .inr ⟨_, createOwned_of_none name refused, by simp⟩
  | some record =>
      obtain ⟨path, created⟩ := createOwned_of_some name found
      exact .inl ⟨_, _, created, takes_allocate vault owner path⟩

end TakesSlot

/-- A step leaves the free list alone. -/
def SameFree (before after : Vault) : Prop :=
  after.free = before.free

namespace SameFree

/-- Steps that leave the free slots alone do so together. -/
theorem of_chain {vault after : Vault} (chain : Relation.ReflTransGen SameFree vault after) :
    after.free = vault.free := by
  induction chain with
  | refl => rfl
  | tail _ same inductionHypothesis => exact same.trans inductionHypothesis

/-- Edits leave the free slots alone. -/
theorem of_edit {computation : Run Vault α} (steps : Run.Steps Edit computation) :
    Run.Steps SameFree computation := by
  refine steps.mono fun before after edit => ?_
  cases edit <;> rfl

theorem pop : Run.Steps SameFree Vault.pop := by
  refine .bind .state fun vault => .bind (.orCrash _) ?_
  rintro ⟨frame, frames⟩
  exact .bind (.update fun _ => rfl) fun _ => .result frame

/-- The end of a declaration frees nothing. -/
theorem endDeclaration (handle : Handle) (name : String) :
    Run.Steps SameFree (Vault.endDeclaration handle name) := by
  refine .bind pop fun frame => ?_
  split
  · refine .bind (of_edit Edit.current) fun parent => ?_
    refine .bind (of_edit (Edit.activeRecord parent)) fun _ => ?_
    exact .bind (.update fun _ => rfl) fun _ => of_edit (Edit.rebind parent name (.scope handle))
  · exact .crash _

theorem enterNamed (handle : Handle) : Run.Steps SameFree (Vault.enterNamed handle) :=
  .bind .state fun _ => .bind (.orFail _) fun _ => .update fun _ => rfl

theorem exitNamed : Run.Steps SameFree Vault.exitNamed := by
  refine .bind pop fun frame => ?_
  split
  · exact .result ()
  · exact .crash _

end SameFree

/-! ## Histories -/

/-- Whether an operation can free records. -/
def Operation.frees : Operation → Bool
  | .exitBlock | .exitBoxed | .unwind _ => true
  | _ => false

namespace History

/-- Of the slots that were free, the first ones have been handed out and the rest is still free;
new slots come after them. -/
def Reuses (free : List UInt32) (history : History) : Prop :=
  (history.issued.reverse.map (·.index)) ++ history.vault.free = free ∨
    history.vault.free = [] ∧ free <+: history.issued.reverse.map (·.index)

theorem Reuses.start (vault : Vault) : Reuses vault.free ⟨vault, []⟩ := .inl rfl

/-- The slot that was freed last is reused next. -/
theorem Reuses.takes {free : List UInt32} {history : History} (reuses : Reuses free history)
    {handle : Handle} {after : Vault} (takes : history.vault.Takes handle after) :
    Reuses free ⟨after, handle :: history.issued⟩ := by
  unfold Reuses
  rw [List.reverse_cons, List.map_append, List.map_singleton]
  rcases takes with first | ⟨exhausted, stillExhausted⟩
  · rcases reuses with split | ⟨empty, _⟩
    · left
      rw [← split, first, List.append_assoc]
      rfl
    · rw [first] at empty
      cases empty
  · right
    refine ⟨stillExhausted, List.IsPrefix.trans ?_ (List.prefix_append _ _)⟩
    rcases reuses with split | ⟨_, covered⟩
    · rw [← split, exhausted, List.append_nil]
    · exact covered

/-- What takes no slot reuses none. -/
theorem Reuses.same {free : List UInt32} {history : History} (reuses : Reuses free history)
    {after : Vault} (same : after.free = history.vault.free) :
    Reuses free ⟨after, history.issued⟩ := by
  unfold Reuses
  rw [same]
  exact reuses

/-- The slots that have been handed out and those that were free are in the same order. -/
theorem Reuses.take_eq {free first : List UInt32} {history : History} (reuses : Reuses free history)
    (front : first <+: free) :
    (history.issued.reverse.map (·.index)).take first.length =
      first.take history.issued.length := by
  have sameOrder {left right whole : List UInt32} (leftFront : left <+: whole)
      (rightFront : right <+: whole) : left.take right.length = right.take left.length := by
    rcases List.prefix_or_prefix_of_prefix leftFront rightFront with inner | inner
    · rw [List.take_of_length_le inner.length_le, ← List.prefix_iff_eq_take.1 inner]
    · rw [List.take_of_length_le inner.length_le, ← List.prefix_iff_eq_take.1 inner]
  have length : (history.issued.reverse.map (·.index)).length = history.issued.length := by simp
  rw [← length]
  rcases reuses with split | ⟨_, covered⟩
  · exact sameOrder ⟨_, split⟩ front
  · exact sameOrder (List.prefix_rfl) (front.trans covered)

/-- Where a computation ends, its slots come from the free list. -/
def Reusing (computation : Run Vault (Option Handle)) : Prop :=
  ∀ free history, Reuses free history → (computation history.vault).1 ≠ .endless →
    Reuses free ⟨(computation history.vault).2,
      handed (computation history.vault).1 ++ history.issued⟩

theorem Reusing.handing {creation : Run Vault Handle} (takes : TakesSlot creation) :
    Reusing (Operation.handing creation) := by
  intro free history reuses _
  rw [Operation.handing, Run.bind_apply]
  rcases takes history.vault with ⟨handle, after, created, taken⟩ | ⟨outcome, ended, notDone⟩
  · rw [created]
    exact reuses.takes taken
  · rw [ended]
    cases outcome with
    | done handle => exact absurd rfl (notDone handle)
    | failed diagnostic => exact reuses
    | crashed crash => exact reuses
    | endless => exact reuses

theorem Reusing.quietly {computation : Run Vault α} (steps : Run.Steps SameFree computation) :
    Reusing (Operation.quietly computation) := by
  intro free history reuses ended
  have chain := (Run.Steps.bind steps fun _ => .result none) history.vault ended
  rw [handed_quietly]
  exact reuses.same (SameFree.of_chain chain)

/-- Operations on bindings take no slot. -/
theorem Reusing.of_edits {operation : Operation} (edits : operation.edits = true) :
    Reusing operation.perform := by
  obtain ⟨_, _, isQuiet, steps⟩ := Operation.exists_edit edits
  rw [isQuiet]
  exact .quietly (SameFree.of_edit steps)

/-- An operation that cannot free records hands out the first free slots. -/
theorem Reusing.perform {operation : Operation} (keeps : operation.frees = false) :
    Reusing operation.perform := by
  cases operation with
  | enterBlock => exact .handing (.enter .block)
  | exitBlock => cases keeps
  | enterBoxed => exact .handing (.enter .boxed)
  | exitBoxed => cases keeps
  | declare name => exact .handing (.declare name)
  | endDeclaration handle name => exact .quietly (SameFree.endDeclaration handle name)
  | createOwned owner name => exact .handing (.createOwned owner name)
  | enterNamed handle => exact .quietly (SameFree.enterNamed handle)
  | exitNamed => exact .quietly SameFree.exitNamed
  | unwind depth => cases keeps
  | current | global | owner | resolve | define | defineIn | lookup | bindings | unbind | erase
  | clear | assign => exact .of_edits rfl

/-- A history goes on without operations that can free records. -/
inductive Grows : History → History → Prop
  | start (history : History) : Grows history history
  | perform {first history : History} (operation : Operation) : Grows first history →
      operation.frees = false → (operation.perform history.vault).1 ≠ .endless →
      Grows first (history.perform operation)

/-- New records are put into the free slots in the order in which these stand. -/
theorem Grows.reuses {vault : Vault} {history : History} (grows : Grows ⟨vault, []⟩ history) :
    Reuses vault.free history := by
  induction grows with
  | start => exact .start vault
  | perform operation _ keeps ended inductionHypothesis =>
      exact Reusing.perform keeps _ _ inductionHypothesis ended

end History

/-! ## Leaving a block -/

/-- A handle whose record has been freed is refused as stale, and other handles find what they
found before. -/
theorem find_foldl_vacate {order : List Handle} (distinct : order.Nodup) {vault : Vault}
    (live : ∀ handle ∈ order, vault.isLive handle = true) (other : Handle) :
    (order.foldl vacate vault).find other =
      if other ∈ order then .error (staleHandle other) else vault.find other := by
  rw [find, record?_foldl_vacate distinct live, size_slots_foldl_vacate]
  by_cases member : other ∈ order
  · obtain ⟨record, found⟩ := isLive_iff_exists.1 (live other member)
    have inside := slot_lt_size_of_isLive (live other member)
    have notNull : other.isNull = false := by
      simpa [Handle.isNull] using (record?_eq_some_iff.1 found).1
    simp [member, notNull, inside]
  · simp only [member, if_false]
    rfl

/-- A block that is on top of the stack is left, provided that the numbers of the slots fit, and its
tree is freed: the records below it, each once. Their handles are stale afterwards, and all other
records are found as before. The slots come to the front of the free list, the last one freed first,
and in this order they are used again. -/
theorem exitBlock_frees_tree {outcomes : List (Outcome (Option Handle))}
    {openings : List Opening} {vault : Vault} (run : WellBracketed outcomes openings vault)
    (fits : vault.Fits) {handle : Handle} {below : FrameStack}
    (top : vault.frames = ⟨.block, handle⟩ :: below) :
    ∃ freed after, Vault.exitBlock vault = (.done (), after) ∧
      vault.Postorder [handle] freed ∧ freed.Nodup ∧
      (∀ other, other ∈ freed ↔ vault.Below handle other) ∧
      (∀ other, after.find other =
        if other ∈ freed then .error (staleHandle other) else vault.find other) ∧
      after.live + freed.length = vault.live ∧
      after.free = (freed.map (·.index)).reverse ++ vault.free ∧
      ∀ history, History.Grows ⟨after, []⟩ history →
        (history.issued.reverse.map (·.index)).take freed.length =
          ((freed.map (·.index)).reverse).take history.issued.length := by
  have forest := run.forest fits
  obtain ⟨rank, clock, rooted, _⟩ := forest.ranking
  have live : vault.isLive handle = true := forest.frame_live ⟨.block, handle⟩ (by simp [top])
  obtain ⟨freed, postorder⟩ := rooted.exists_postorder live
  have distinct := rooted.nodup_postorder postorder (List.pairwise_singleton _ handle)
  let popped : Vault := { vault with frames := below }
  have stillRooted : popped.Rooted (Opening.roots openings) rank clock := rooted.congr fun _ => rfl
  obtain ⟨after, released⟩ := exists_releaseWithin (fun edge => stillRooted.ranked edge) handle
  have freedEach : releaseEachWithin (popped.slots.size + 1) [handle] popped = some after :=
    releaseEachWithin_cons.2 ⟨after, released, rfl⟩
  have there : ∀ other ∈ freed, popped.record? other = vault.record? other := fun _ _ => rfl
  obtain rfl := releaseEachWithin_eq_foldl postorder distinct there freedEach
  have free := free_foldl_vacate freed popped
  refine ⟨freed, _, (leave_of_cons top).trans (release_of_some released), postorder, distinct,
    postorder.mem_iff_below, find_foldl_vacate distinct postorder.live, ?_, free, ?_⟩
  · rw [live_foldl_vacate]
    exact Nat.sub_add_cancel (forest.consistent.length_le_live distinct postorder.live)
  · intro history grows
    have front : (freed.map (·.index)).reverse <+: (freed.foldl vacate popped).free := by
      simp [free]
    simpa using grows.reuses.take_eq front

/-- A block with a declared scope that owns another one, and with a second scope of its own. After
it has been left, the next block is in its slot. -/
theorem nested_scopes_are_freed :
    ∃ outcomes openings vault freed after, WellBracketed outcomes openings vault ∧
      vault.frames = [⟨.block, ⟨0, 1⟩⟩] ∧ Vault.exitBlock vault = (.done (), after) ∧
      vault.Postorder [⟨0, 1⟩] freed ∧ freed.map (·.index) = [2, 1, 3, 0] ∧ after.live = 0 ∧
      ∃ history, History.Grows ⟨after, []⟩ history ∧
        (history.issued.reverse.map (·.index)).take 4 = [0] := by
  have entered := WellBracketed.start.next .enterBlock trivial
  have declared := entered.next (.declare "s") (List.cons_ne_nil _ _)
  have created := declared.next (.createOwned ⟨1, 1⟩ "Map") (List.cons_ne_nil _ _)
  have ended := created.next (.endDeclaration ⟨1, 1⟩ "s") ⟨by decide, _, rfl⟩
  have added := ended.next (.createOwned ⟨0, 1⟩ "t") (List.cons_ne_nil _ _)
  obtain ⟨freed, after, exited, postorder, _, _, _, _, free, reused⟩ :=
    exitBlock_frees_tree added (by decide) rfl
  obtain rfl : _ = after := congrArg Prod.snd exited
  have slots : (freed.map (·.index)).reverse = [0, 3, 1, 2] :=
    (List.append_nil _).symm.trans (free.symm.trans rfl)
  have count : freed.length = 4 := by simpa using congrArg List.length slots
  refine ⟨_, _, _, freed, _, added, rfl, exited, postorder, ?_, rfl, _,
    .perform .enterBlock (.start _) rfl nofun, ?_⟩
  · rw [← List.reverse_reverse (freed.map (·.index)), slots]
    rfl
  · rw [← count, reused _ (.perform .enterBlock (.start _) rfl nofun), slots]
    rfl

end Vault
end ScopeScript
