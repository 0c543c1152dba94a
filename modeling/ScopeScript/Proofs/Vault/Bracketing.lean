import Mathlib.Data.Set.Card
import ScopeScript.Proofs.Vault.Forest
import ScopeScript.Proofs.Vault.Operation
import ScopeScript.Proofs.Vault.Widening

/-!
# Well-bracketed runs

A run of operations is well bracketed if every exit closes the innermost opening in the way that
opening wants, and everything else happens while something is open. Handles are not restricted:
scopes may be visited, bound into and given new scopes through any handle, live or not.

In every state of such a run the live records form a forest whose roots are the open blocks, boxes
and declarations, as long as the numbers of the slots fit (`live_records_form_forest`). The
induction is over the run, with one case for each operation. Slots are not given back, so the
numbers that fit in a state have fitted in each state before.
-/

namespace ScopeScript
namespace Vault

/-- What a well-bracketed run may do next. -/
def Allowed (openings : List Opening) : Operation → Prop
  | .enterBlock | .enterBoxed => True
  | .exitBlock => ∃ handle outer, openings = .block handle :: outer
  | .exitBoxed => ∃ handle outer, openings = .boxed handle :: outer
  | .exitNamed => ∃ handle outer, openings = .visit handle :: outer
  | .endDeclaration handle name => name ≠ "" ∧ ∃ outer, openings = .declaration handle :: outer
  | .defineIn _ name _ => openings ≠ [] ∧ name ≠ ""
  | .unwind _ => False
  | _ => openings ≠ []

/-- The openings after an operation with the given outcome. -/
def follow (openings : List Opening) : Operation → Outcome (Option Handle) → List Opening
  | .enterBlock, .done (some handle) => .block handle :: openings
  | .enterBoxed, .done (some handle) => .boxed handle :: openings
  | .declare _, .done (some handle) => .declaration handle :: openings
  | .enterNamed handle, .done _ => .visit handle :: openings
  | .exitBlock, _ | .exitBoxed, _ | .exitNamed, _ | .endDeclaration _ _, _ => openings.tail
  | _, _ => openings

/-- The states of well-bracketed runs, with the outcomes so far, newest first, and the openings
that have not been closed, innermost first. -/
inductive WellBracketed : List (Outcome (Option Handle)) → List Opening → Vault → Prop
  | start : WellBracketed [] [] .empty
  | step {outcomes : List (Outcome (Option Handle))} {openings : List Opening}
      {vault after : Vault} {outcome : Outcome (Option Handle)} (operation : Operation) :
      WellBracketed outcomes openings vault → Allowed openings operation →
      operation.perform vault = (outcome, after) →
      WellBracketed (outcome :: outcomes) (follow openings operation outcome) after

theorem follow_of_edits {operation : Operation} (edits : operation.edits = true)
    (openings : List Opening) (outcome : Outcome (Option Handle)) :
    follow openings operation outcome = openings := by
  cases operation with
  | current | global | owner | resolve | define | defineIn | lookup | bindings | unbind | erase
  | clear | assign => rfl
  | _ => cases edits

/-- Where a scope is open, questions are answered or refused, and the store stays as it is. -/
theorem Forest.ask {vault : Vault} {openings : List Opening} (forest : vault.Forest openings)
    (someOpen : openings ≠ []) {operation : Operation} (asks : operation.asks = true) :
    ∃ outcome, operation.perform vault = (outcome, vault) ∧ outcome.Returned := by
  obtain ⟨frame, below, _, frames, _⟩ := forest.exists_current someOpen
  cases operation with
  | current => exact ⟨_, Operation.quietly_of_done (current_of_cons frames), .done _⟩
  | global => exact ⟨_, Operation.quietly_of_done (global_of_cons frames), .done _⟩
  | owner =>
      obtain ⟨handle, found⟩ := forest.owner someOpen
      exact ⟨_, Operation.quietly_of_done found, .done _⟩
  | resolve name =>
      obtain ⟨found, resolved, returned⟩ := forest.resolve name
      exact Operation.quietly_of_returned resolved returned
  | lookup handle name => exact Operation.quietly_query (·.lookup handle name) vault
  | bindings handle => exact Operation.quietly_query (·.bindings handle) vault
  | _ => cases asks

/-- An operation on bindings that is allowed returns and keeps the forest. -/
theorem Forest.edit {vault : Vault} {openings : List Opening} (forest : vault.Forest openings)
    {operation : Operation} (edits : operation.edits = true)
    (allowed : Allowed openings operation) :
    ∃ outcome after, operation.perform vault = (outcome, after) ∧ outcome.Returned ∧
      after.Forest (follow openings operation outcome) := by
  simp only [follow_of_edits edits]
  have asked (asks : operation.asks = true) (someOpen : openings ≠ []) :
      ∃ outcome after, operation.perform vault = (outcome, after) ∧ outcome.Returned ∧
        after.Forest openings := by
    obtain ⟨outcome, performed, answered⟩ := forest.ask someOpen asks
    exact ⟨outcome, vault, performed, answered, forest⟩
  cases operation with
  | current | global | owner | resolve | lookup | bindings => exact asked rfl allowed
  | define name value =>
      obtain ⟨after, defined, kept⟩ := forest.define allowed name value
      exact ⟨_, after, Operation.quietly_of_done defined, .done _, kept⟩
  | defineIn handle name value =>
      obtain ⟨found, after, defined, returned, kept⟩ := forest.defineIn handle value allowed.2
      obtain ⟨outcome, performed, answered⟩ := Operation.quietly_of_returned defined returned
      exact ⟨outcome, after, performed, answered, kept⟩
  | unbind name =>
      obtain ⟨removed, after, unbound, kept⟩ := forest.unbind name
      exact ⟨_, after, Operation.quietly_of_done unbound, .done _, kept⟩
  | erase handle name =>
      obtain ⟨found, after, erased, returned, kept⟩ := forest.eraseIn handle name
      obtain ⟨outcome, performed, answered⟩ := Operation.quietly_of_returned erased returned
      exact ⟨outcome, after, performed, answered, kept⟩
  | clear handle =>
      obtain ⟨after, cleared, kept⟩ := forest.clearIn handle
      cases found : vault.bindings handle with
      | ok table =>
          refine ⟨_, after, Operation.quietly_of_done (Eq.trans ?_ cleared), .done _, kept⟩
          simp [Run.bind_apply, found]
      | error diagnostic =>
          refine ⟨.failed diagnostic, vault, Operation.quietly_of_failed ?_, .failed _, forest⟩
          simp [Run.bind_apply, found]
  | assign reference value =>
      obtain ⟨after, written, kept⟩ := forest.write reference value
      exact ⟨_, after, Operation.quietly_of_done written, .done _, kept⟩
  | _ => cases edits

/-- An operation that is allowed returns, and keeps the forest as long as the numbers of the slots
fit. -/
theorem Forest.perform {vault : Vault} {openings : List Opening} (forest : vault.Forest openings)
    (operation : Operation) (allowed : Allowed openings operation) :
    ∃ outcome after, operation.perform vault = (outcome, after) ∧ outcome.Returned ∧
      (after.Fits → after.Forest (follow openings operation outcome)) := by
  cases operation with
  | enterBlock =>
      obtain ⟨handle, after, entered, kept⟩ := forest.enter (.inl rfl)
      exact ⟨_, after, Operation.handing_of_done entered, .done _, kept⟩
  | enterBoxed =>
      obtain ⟨handle, after, entered, kept⟩ := forest.enter (.inr rfl)
      exact ⟨_, after, Operation.handing_of_done entered, .done _, kept⟩
  | exitBlock =>
      obtain ⟨handle, outer, rfl⟩ := allowed
      obtain ⟨after, left, kept⟩ := Forest.leave (.inl rfl) forest
      exact ⟨_, after, Operation.quietly_of_done left, .done _, fun _ => kept⟩
  | exitBoxed =>
      obtain ⟨handle, outer, rfl⟩ := allowed
      obtain ⟨after, left, kept⟩ := Forest.leave (.inr rfl) forest
      exact ⟨_, after, Operation.quietly_of_done left, .done _, fun _ => kept⟩
  | declare name =>
      obtain ⟨handle, after, declared, kept⟩ := forest.declare allowed name
      exact ⟨_, after, Operation.handing_of_done declared, .done _, kept⟩
  | endDeclaration handle name =>
      obtain ⟨named, outer, rfl⟩ := allowed
      obtain ⟨after, ended, kept⟩ := forest.endDeclaration named
      exact ⟨_, after, Operation.quietly_of_done ended, .done _, fun _ => kept⟩
  | createOwned owner name =>
      rcases forest.createOwned owner name with ⟨handle, after, created, kept⟩ | ⟨_, refused⟩
      · exact ⟨_, after, Operation.handing_of_done created, .done _, kept⟩
      · exact ⟨_, vault, Operation.handing_of_failed refused, .failed _, fun _ => forest⟩
  | enterNamed handle =>
      rcases forest.enterNamed handle with ⟨after, entered, kept⟩ | ⟨diagnostic, refused⟩
      · exact ⟨_, after, Operation.quietly_of_done entered, .done _, fun _ => kept⟩
      · exact ⟨_, vault, Operation.quietly_of_failed refused, .failed _, fun _ => forest⟩
  | exitNamed =>
      obtain ⟨handle, outer, rfl⟩ := allowed
      obtain ⟨after, left, kept⟩ := forest.exitNamed
      exact ⟨_, after, Operation.quietly_of_done left, .done _, fun _ => kept⟩
  | unwind depth => exact allowed.elim
  | current | global | owner | resolve | define | defineIn | lookup | bindings | unbind | erase
  | clear | assign =>
      obtain ⟨outcome, after, performed, returned, kept⟩ := forest.edit rfl allowed
      exact ⟨outcome, after, performed, returned, fun _ => kept⟩

/-- The invariant holds in every state of a well-bracketed run whose slots have fitting numbers. -/
theorem WellBracketed.forest {outcomes : List (Outcome (Option Handle))}
    {openings : List Opening} {vault : Vault} (run : WellBracketed outcomes openings vault)
    (fits : vault.Fits) : vault.Forest openings := by
  induction run with
  | start => exact .empty
  | step operation _ allowed performed inductionHypothesis =>
      have forest := inductionHypothesis (fits_of_ran operation.widens performed fits)
      obtain ⟨_, _, performed', _, kept⟩ := forest.perform operation allowed
      cases performed.symm.trans performed'
      exact kept fits

/-- No operation of a well-bracketed run has crashed or has not ended. -/
theorem WellBracketed.returned {outcomes : List (Outcome (Option Handle))}
    {openings : List Opening} {vault : Vault} (run : WellBracketed outcomes openings vault)
    (fits : vault.Fits) : ∀ outcome ∈ outcomes, outcome.Returned := by
  induction run with
  | start => simp
  | step operation earlier allowed performed inductionHypothesis =>
      have fitted := fits_of_ran operation.widens performed fits
      obtain ⟨_, _, performed', returned, _⟩ := (earlier.forest fitted).perform operation allowed
      cases performed.symm.trans performed'
      intro outcome member
      rcases List.mem_cons.1 member with rfl | member
      · exact returned
      · exact inductionHypothesis fitted outcome member

theorem WellBracketed.next {outcomes : List (Outcome (Option Handle))} {openings : List Opening}
    {vault : Vault} (run : WellBracketed outcomes openings vault) (operation : Operation)
    (allowed : Allowed openings operation) :
    WellBracketed ((operation.perform vault).1 :: outcomes)
      (follow openings operation (operation.perform vault).1) (operation.perform vault).2 :=
  .step operation run allowed rfl

/-- A handle is the record of an active block or box. -/
def IsBlock (vault : Vault) (handle : Handle) : Prop :=
  ∃ frame ∈ vault.frames, frame.kind ≠ .named ∧ frame.record = handle

/-- A handle is listed as owned by a live record. -/
def IsOwned (vault : Vault) (handle : Handle) : Prop :=
  ∃ owner, vault.Owns owner handle

namespace Forest

variable {vault : Vault} {openings : List Opening}

theorem isBlock_iff (forest : vault.Forest openings) (handle : Handle) :
    vault.IsBlock handle ↔ .block handle ∈ openings ∨ .boxed handle ∈ openings := by
  unfold IsBlock
  rw [forest.frames]
  constructor
  · rintro ⟨_, member, blockKind, rfl⟩
    obtain ⟨opening, openingMember, rfl⟩ := List.mem_map.1 member
    cases opening with
    | block handle => exact .inl openingMember
    | boxed handle => exact .inr openingMember
    | declaration handle => exact absurd rfl blockKind
    | visit handle => exact absurd rfl blockKind
  · rintro (member | member)
    · exact ⟨_, List.mem_map_of_mem member, by simp [Opening.frame, Opening.kind], rfl⟩
    · exact ⟨_, List.mem_map_of_mem member, by simp [Opening.frame, Opening.kind], rfl⟩

theorem mem_roots_iff (forest : vault.Forest openings) (handle : Handle) :
    handle ∈ Opening.roots openings ↔ vault.IsBlock handle ∨ .declaration handle ∈ openings := by
  rw [forest.isBlock_iff, Opening.mem_roots]
  constructor
  · rintro ⟨opening, member, root, rfl⟩
    cases opening with
    | block handle => exact .inl (.inl member)
    | boxed handle => exact .inl (.inr member)
    | declaration handle => exact .inr member
    | visit handle => simp [Opening.isRoot] at root
  · rintro ((member | member) | member)
    all_goals exact ⟨_, member, rfl, rfl⟩

/-- Openings that keep the same record alive are the same. -/
theorem eq_of_record_eq (forest : vault.Forest openings) {first second : Opening}
    (firstMember : first ∈ openings) (secondMember : second ∈ openings)
    (firstRoot : first.isRoot = true) (secondRoot : second.isRoot = true)
    (same : first.record = second.record) : first = second := by
  obtain ⟨_, _, rooted, _⟩ := forest.ranking
  exact List.inj_on_of_nodup_map rooted.roots_nodup (List.mem_filter.2 ⟨firstMember, firstRoot⟩)
    (List.mem_filter.2 ⟨secondMember, secondRoot⟩) same

/-- A record is live for exactly the reasons the forest gives. -/
theorem isLive_iff (forest : vault.Forest openings) (handle : Handle) :
    vault.isLive handle = true ↔
      vault.IsBlock handle ∨ .declaration handle ∈ openings ∨ vault.IsOwned handle := by
  obtain ⟨_, _, rooted, _⟩ := forest.ranking
  rw [← or_assoc, ← forest.mem_roots_iff]
  constructor
  · exact rooted.reached
  · rintro (root | ⟨owner, edge⟩)
    · exact rooted.root_live handle root
    · exact rooted.owned_live edge

theorem not_isOwned_of_mem_roots (forest : vault.Forest openings) {handle : Handle}
    (root : handle ∈ Opening.roots openings) : ¬vault.IsOwned handle := by
  obtain ⟨_, _, rooted, _⟩ := forest.ranking
  rintro ⟨owner, edge⟩
  exact rooted.root_unowned handle root owner edge

theorem not_declaration_of_isBlock (forest : vault.Forest openings) {handle : Handle}
    (block : vault.IsBlock handle) : .declaration handle ∉ openings := by
  intro declared
  rcases (forest.isBlock_iff handle).1 block with member | member
  · have same := forest.eq_of_record_eq member declared rfl rfl rfl
    simp at same
  · have same := forest.eq_of_record_eq member declared rfl rfl rfl
    simp at same

/-- The count of live records is right. -/
theorem ncard_live (forest : vault.Forest openings) :
    {handle | vault.isLive handle = true}.ncard = vault.live := by
  obtain ⟨handles, nodup, members, count⟩ := forest.consistent.census
  have listed : {handle | vault.isLive handle = true} = (handles.toFinset : Set Handle) := by
    ext handle
    simp [members]
  rw [listed, Set.ncard_coe_finset, List.toFinset_card_of_nodup nodup, count]

/-- Without frames nothing is open, and so nothing is live. -/
theorem live_eq_zero_of_inactive (forest : vault.Forest openings) (inactive : vault.frames = []) :
    vault.live = 0 := by
  have closed : openings = [] := List.map_eq_nil_iff.1 (forest.frames.symm.trans inactive)
  subst closed
  exact forest.live_eq_zero_of_nil

end Forest

/-- In every state of a well-bracketed run whose slots have fitting numbers no operation has
crashed, the records of all frames are live, and the live records form a forest: they are the
records of blocks and boxes, those of open declarations and the owned ones; these are different
records, each owned one is listed once by one owner, and no record owns itself through others. The
number of live records is kept, and it is zero where no frame is left. -/
theorem live_records_form_forest {outcomes : List (Outcome (Option Handle))}
    {openings : List Opening} {vault : Vault} (run : WellBracketed outcomes openings vault)
    (fits : vault.Fits) :
    (∀ outcome ∈ outcomes, outcome.Returned) ∧
      (∀ frame ∈ vault.frames, vault.isLive frame.record = true) ∧
      (∀ handle, vault.isLive handle = true ↔
        vault.IsBlock handle ∨ .declaration handle ∈ openings ∨ vault.IsOwned handle) ∧
      (∀ handle, ¬(vault.IsBlock handle ∧ .declaration handle ∈ openings) ∧
        ¬(vault.IsBlock handle ∧ vault.IsOwned handle) ∧
        ¬(.declaration handle ∈ openings ∧ vault.IsOwned handle)) ∧
      (∀ owner record, vault.record? owner = some record → record.owned.Nodup) ∧
      (∀ owner other scope, vault.Owns owner scope → vault.Owns other scope → owner = other) ∧
      (∀ handle, ¬Relation.TransGen vault.Owns handle handle) ∧
      {handle | vault.isLive handle = true}.ncard = vault.live ∧
      (vault.frames = [] → vault.live = 0) := by
  have forest := run.forest fits
  obtain ⟨_, _, rooted, _⟩ := forest.ranking
  refine ⟨run.returned fits, forest.frame_live, forest.isLive_iff, fun handle => ⟨?_, ?_, ?_⟩, ?_,
    fun _ _ _ => rooted.owner_unique, rooted.not_transGen, forest.ncard_live,
    forest.live_eq_zero_of_inactive⟩
  · rintro ⟨block, declared⟩
    exact forest.not_declaration_of_isBlock block declared
  · rintro ⟨block, owned⟩
    exact forest.not_isOwned_of_mem_roots ((forest.mem_roots_iff handle).2 (.inl block)) owned
  · rintro ⟨declared, owned⟩
    exact forest.not_isOwned_of_mem_roots ((forest.mem_roots_iff handle).2 (.inr declared)) owned
  · intro owner record found
    exact rooted.owned_nodup (by rw [ownedBy?, found]; rfl)

/-- A block with a declaration under way, which has been given a scope and is visited from inside;
a stale handle was refused before. -/
theorem visited_declaration_forms_forest :
    ∃ outcomes openings vault, WellBracketed outcomes openings vault ∧
      outcomes.length = 5 ∧
      openings = [.visit ⟨1, 1⟩, .declaration ⟨1, 1⟩, .block ⟨0, 1⟩] ∧
      (∀ outcome ∈ outcomes, outcome.Returned) ∧
      {handle | vault.isLive handle = true}.ncard = 3 := by
  have entered := WellBracketed.start.next .enterBlock trivial
  have declared := entered.next (.declare "s") (List.cons_ne_nil _ _)
  have refused := declared.next (.createOwned ⟨1, 3⟩ "Map") (List.cons_ne_nil _ _)
  have created := refused.next (.createOwned ⟨1, 1⟩ "Map") (List.cons_ne_nil _ _)
  have visited := created.next (.enterNamed ⟨1, 1⟩) (List.cons_ne_nil _ _)
  obtain ⟨returned, _, _, _, _, _, _, counted, _⟩ := live_records_form_forest visited (by decide)
  exact ⟨_, _, _, visited, rfl, rfl, returned, counted.trans rfl⟩

end Vault
end ScopeScript
