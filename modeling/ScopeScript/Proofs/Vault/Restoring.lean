import ScopeScript.Proofs.Vault.Bracketing
import ScopeScript.Proofs.Vault.Snapshot
import ScopeScript.Proofs.Vault.Territory

/-!
# Blocks that restore the store

Between the opening of a block and its end a run may enter and leave blocks, boxes and declarations,
visit older scopes and create scopes, and slots are freed and used again in any order. As long as no
name is bound or unbound in a record that is older than the block, and no such record is given new
scopes, the end of the block gives back the live handles and the snapshot that were there before
(`block_restores_snapshot`).

What carries the induction is `Kept`: beyond the records that were opened since, the store is the
one before the block, and the older records still show the same faces. Values may be assigned to any
cell, because a snapshot shows names only.
-/

namespace ScopeScript
namespace Vault

/-- An operation neither binds or unbinds a name in a record of an earlier store nor gives such a
record a new scope. -/
def Spares (before vault : Vault) : Operation → Prop
  | .define _ _ => ∀ frame ∈ vault.frames.head?, before.isLive frame.record = false
  | .endDeclaration _ _ => ∀ frame ∈ vault.frames.tail.head?, before.isLive frame.record = false
  | .unbind name => ∀ handle binding,
      vault.bindingAlong name vault.frames = .ok (some (handle, binding)) →
        before.isLive handle = false
  | .defineIn handle _ _ | .erase handle _ | .clear handle | .createOwned handle _ =>
      before.isLive handle = false
  | _ => True

/-- The states of a well-bracketed run while a block is open that was entered in a given state, with
what has been opened since. -/
inductive DuringBlock (before : Vault) (outer : List Opening) (block : Handle) :
    List Opening → Vault → Prop
  | entered {vault : Vault} : enterBlock before = (.done block, vault) →
      DuringBlock before outer block [] vault
  | step {inner later : List Opening} {vault after : Vault} {outcome : Outcome (Option Handle)}
      (operation : Operation) : DuringBlock before outer block inner vault →
      Allowed (inner ++ .block block :: outer) operation → Spares before vault operation →
      operation.perform vault = (outcome, after) →
      follow (inner ++ .block block :: outer) operation outcome = later ++ .block block :: outer →
      DuringBlock before outer block later after

/-! ## What is kept -/

/-- Beyond some roots a store is the earlier one, and the earlier records show the same faces. -/
structure Kept (before : Vault) (roots : List Handle) (vault : Vault) : Prop where
  outside : vault.outside roots = before.outside []
  faces : ∀ handle, before.isLive handle = true → vault.face? handle = before.face? handle

namespace Kept

variable {before vault after : Vault} {roots : List Handle}

theorem ne_of_young {handle place : Handle} (old : before.isLive handle = true)
    (young : before.isLive place = false) : handle ≠ place := by
  rintro rfl
  rw [young] at old
  cases old

theorem ownedBy?_of_isLive (kept : before.Kept roots vault) {handle : Handle} {owned : List Handle}
    (held : before.ownedBy? handle = some owned) :
    vault.ownedBy? handle = some owned ∧ ¬vault.Reached roots handle := by
  rw [← mem_outside, kept.outside, mem_outside]
  exact ⟨held, by simp [Reached]⟩

theorem isLive (kept : before.Kept roots vault) {handle : Handle}
    (old : before.isLive handle = true) : vault.isLive handle = true := by
  obtain ⟨owned, held⟩ := isLive_iff_ownedBy?.1 old
  exact isLive_iff_ownedBy?.2 ⟨owned, (kept.ownedBy?_of_isLive held).1⟩

theorem not_reached (kept : before.Kept roots vault) {handle : Handle}
    (old : before.isLive handle = true) : ¬vault.Reached roots handle := by
  obtain ⟨owned, held⟩ := isLive_iff_ownedBy?.1 old
  exact (kept.ownedBy?_of_isLive held).2

/-- A record that is live and not of the earlier store is reached from the roots. -/
theorem reached (kept : before.Kept roots vault) {handle : Handle}
    (live : vault.isLive handle = true) (young : before.isLive handle = false) :
    vault.Reached roots handle := by
  by_contra unreached
  obtain ⟨owned, held⟩ := isLive_iff_ownedBy?.1 live
  have old : (handle, owned) ∈ before.outside [] := by
    rw [← kept.outside, mem_outside]
    exact ⟨held, unreached⟩
  have live : before.isLive handle = true := isLive_iff_ownedBy?.2 ⟨owned, (mem_outside.1 old).1⟩
  rw [young] at live
  cases live

theorem ne_of_isLive (kept : before.Kept roots vault) {handle fresh : Handle}
    (old : before.isLive handle = true) (missing : vault.record? fresh = none) :
    handle ≠ fresh := by
  rintro rfl
  obtain ⟨record, found⟩ := isLive_iff_exists.1 (kept.isLive old)
  cases missing.symm.trans found

/-- Faces change along with what they are compared with. -/
theorem trans (kept : before.Kept roots vault) {later : List Handle}
    (outside : after.outside later = vault.outside roots)
    (faces : ∀ handle, before.isLive handle = true → after.face? handle = vault.face? handle) :
    before.Kept later after :=
  ⟨outside.trans kept.outside, fun handle old => (faces handle old).trans (kept.faces handle old)⟩

/-- A record that is not of the earlier store is changed but for what it owns. -/
theorem modify (kept : before.Kept roots vault) {place : Handle}
    (live : vault.isLive place = true) (young : before.isLive place = false)
    {change : Record → Record} (same : ∀ record, (change record).owned = record.owned) :
    before.Kept roots (vault.modify place change) := by
  refine kept.trans (outside_congr (ownedBy?_modify_of_owned vault place change same) roots) ?_
  intro handle old
  exact face?_modify_of_ne live (ne_of_young old young) change

/-- Only the slots matter. -/
theorem congr (kept : before.Kept roots vault) (slots : after.slots = vault.slots) :
    before.Kept roots after := by
  have same : ∀ handle, after.record? handle = vault.record? handle := by
    simp [record?, slots]
  refine kept.trans (outside_congr (fun handle => ?_) roots) fun handle _ => ?_
  · rw [ownedBy?, same, ownedBy?]
  · rw [face?, same, face?]

theorem enter (kept : before.Kept roots vault) (consistent : vault.Consistent) {kind : FrameKind}
    {handle : Handle} (entered : Vault.enter kind vault = (.done handle, after))
    (fits : after.Fits) : before.Kept (handle :: roots) after := by
  have grown := consistent.grown_of_enter entered fits
  refine kept.trans (grown.outside_eq roots) fun other old => ?_
  exact consistent.face?_of_enter entered fits (kept.ne_of_isLive old grown.fresh)

theorem declare (kept : before.Kept roots vault) (consistent : vault.Consistent) {name : String}
    {handle : Handle} (declared : Vault.declare name vault = (.done handle, after))
    (fits : after.Fits) : before.Kept (handle :: roots) after := by
  have grown := consistent.grown_of_declare declared fits
  refine kept.trans (grown.outside_eq roots) fun other old => ?_
  exact consistent.face?_of_declare declared fits (kept.ne_of_isLive old grown.fresh)

theorem leave {handle : Handle} (kept : before.Kept (handle :: roots) vault) {kind : FrameKind}
    {below : FrameStack} (frames : vault.frames = ⟨kind, handle⟩ :: below)
    (left : Vault.leave kind vault = (.done (), after)) : before.Kept roots after := by
  refine kept.trans (outside_of_leave frames left roots) fun other old => ?_
  have beyond : ¬vault.Below handle other := by
    intro below
    exact kept.not_reached old (reached_cons.2 (.inl below))
  rw [leave_of_cons frames, release] at left
  split at left
  case h_1 rest freed =>
    cases left
    exact (releaseWithin_pruned freed).face?_eq beyond
  case h_2 => cases left

/-- The enclosing scope of a declaration that has ended is not of the earlier store. -/
theorem endDeclaration {handle : Handle} (kept : before.Kept (handle :: roots) vault)
    {name : String} (named : name ≠ "") {frame : Frame} {below : FrameStack}
    (frames : vault.frames = ⟨.named, handle⟩ :: frame :: below)
    (live : vault.isLive frame.record = true) (young : before.isLive frame.record = false)
    (inside : vault.Reached roots frame.record)
    (ended : Vault.endDeclaration handle name vault = (.done (), after)) :
    before.Kept roots after := by
  refine kept.trans (outside_of_endDeclaration frames live inside ended) fun other old => ?_
  have different := ne_of_young old young
  let adopted : Vault := { vault with frames := frame :: below }.modify frame.record fun record =>
    { record with owned := record.owned ++ [handle] }
  have adoptedLive : adopted.isLive frame.record = true := by
    rw [isLive_modify]
    exact live
  obtain ⟨record, found⟩ := isLive_iff_exists.1 live
  rw [endDeclaration_of_cons name frames found, rebind_of_ne _ _ named] at ended
  cases ended
  exact (face?_modify_of_ne adoptedLive different _).trans (face?_modify_of_ne live different _)

theorem createOwned (kept : before.Kept roots vault) (consistent : vault.Consistent)
    {owner handle : Handle} {name : String} (young : before.isLive owner = false)
    (created : Vault.createOwned owner name vault = (.done handle, after)) (fits : after.Fits) :
    before.Kept roots after := by
  cases found : vault.record? owner with
  | none =>
      obtain ⟨diagnostic, refused, _⟩ := find_of_none found
      cases created.symm.trans (createOwned_of_none name refused)
  | some record =>
      have inside := kept.reached (isLive_of_record? found) young
      refine kept.trans (outside_of_createOwned consistent fits inside created).1
        fun other old => ?_
      obtain ⟨path, done⟩ := createOwned_of_some name found
      cases created.symm.trans done
      have fitted : (vault.allocate owner path).2.Fits := fits_modify.1 fits
      have fresh := consistent.record?_allocate_fst fitted
      have ownerLive : (vault.allocate owner path).2.isLive owner = true :=
        (consistent.isLive_allocate fitted owner).2 (.inr (isLive_of_record? found))
      exact (face?_modify_of_ne ownerLive (ne_of_young old young) _).trans
        (consistent.face?_allocate owner path fitted (kept.ne_of_isLive old fresh))

/-- A name is bound in a record that is not of the earlier store. -/
theorem modifyFresh (kept : before.Kept roots vault) {place : Handle}
    (live : vault.isLive place = true) (young : before.isLive place = false)
    {change : Record → Record} (same : ∀ record, (change record).owned = record.owned) :
    before.Kept roots ({ vault with cells := vault.cells + 1 }.modify place change) := by
  have next : before.Kept roots { vault with cells := vault.cells + 1 } := kept.congr rfl
  exact next.modify live young same

theorem defineIn (kept : before.Kept roots vault) {handle : Handle} {name : String} (value : Value)
    (named : name ≠ "") (young : before.isLive handle = false) :
    before.Kept roots (Vault.defineIn handle name value vault).2 := by
  cases found : vault.record? handle with
  | none =>
      obtain ⟨diagnostic, refused, _⟩ := find_of_none found
      rwa [defineIn_of_none name value refused]
  | some record =>
      rw [defineIn_of_some name value found, rebind_of_ne handle value named]
      exact kept.modifyFresh (isLive_of_record? found) young
        fun record => record.owned_rebind name _

theorem unbind (kept : before.Kept roots vault) {name : String}
    (live : ∀ frame ∈ vault.frames, vault.isLive frame.record = true)
    (young : ∀ handle binding,
      vault.bindingAlong name vault.frames = .ok (some (handle, binding)) →
        before.isLive handle = false) :
    before.Kept roots (Vault.unbind name vault).2 := by
  obtain ⟨found?, searched, foundLive⟩ := bindingAlong_of_live name live
  have ran : Vault.innermost name vault = (.done found?, vault) := by
    simp [Vault.innermost, searched]
  rw [Vault.unbind, Run.bind_of_done ran]
  rcases found? with _ | ⟨handle, binding⟩
  · exact kept
  · exact kept.modify (foundLive handle binding rfl) (young handle binding searched)
      fun record => record.owned_erase name

/-- What is done after the bindings of a scope have been asked for. -/
theorem asking (kept : before.Kept roots vault) {handle : Handle} {next : Table → Run Vault α}
    (keeps : ∀ table, vault.isLive handle = true → before.Kept roots (next table vault).2) :
    before.Kept roots ((do
      let table ← Run.orFail ((← Run.state).bindings handle)
      next table : Run Vault α) vault).2 := by
  rw [Run.bind_of_done (Run.state_apply vault)]
  cases found : vault.record? handle with
  | none =>
      obtain ⟨diagnostic, refused, _⟩ := find_of_none found
      have missing : vault.bindings handle = .error diagnostic := by rw [bindings, refused]; rfl
      rw [missing]
      exact kept
  | some record =>
      have present : vault.bindings handle = .ok record.table := by
        rw [bindings, find_of_some found]; rfl
      rw [present]
      exact keeps record.table (isLive_of_record? found)

/-- Assignments are visible in no face. -/
theorem write (kept : before.Kept roots vault) (reference : Reference) (value : Value) :
    before.Kept roots (Vault.write reference value vault).2 := by
  rw [Vault.write, Run.update_apply]
  split
  · refine kept.trans (outside_congr (ownedBy?_modify_of_owned vault _ _ ?_) roots) ?_
    · exact fun record => record.owned_write reference.name reference.cell value
    · exact fun handle _ => face?_modify_of_face vault reference.handle _
        (fun record => record.face_write reference.name reference.cell value) handle
  · exact kept

end Kept

/-! ## Runs -/

section

variable {before vault after : Vault} {outer inner later : List Opening} {block : Handle}

/-- The records that have been opened together with a block and since. -/
def openedSince (block : Handle) (inner : List Opening) : List Handle :=
  Opening.roots (inner ++ [.block block])

theorem openedSince_cons_of_isRoot {opening : Opening} (root : opening.isRoot = true) :
    openedSince block (opening :: inner) = opening.record :: openedSince block inner :=
  Opening.roots_cons_of_isRoot root _

theorem openedSince_cons_visit (handle : Handle) :
    openedSince block (.visit handle :: inner) = openedSince block inner := rfl

/-- As long as a block stays open, an exit closes something that was opened inside of it. -/
theorem eq_cons_of_closed {opening : Opening} {rest : List Opening}
    (shape : inner ++ .block block :: outer = opening :: rest)
    (stays : (inner ++ .block block :: outer).tail = later ++ .block block :: outer) :
    inner = opening :: later := by
  rw [shape, List.tail_cons] at stays
  rw [stays, ← List.cons_append] at shape
  exact List.append_cancel_right shape

/-- What has been opened inside of a block is added to what was opened before. -/
theorem Kept.opened {opening : Opening}
    (kept : before.Kept (opening.record :: openedSince block inner) vault)
    (root : opening.isRoot = true)
    (stays : opening :: (inner ++ .block block :: outer) = later ++ .block block :: outer) :
    before.Kept (openedSince block later) vault := by
  rw [← List.cons_append] at stays
  rwa [← List.append_cancel_right stays, openedSince_cons_of_isRoot root]

/-- The scope in which something was opened is older, so it is no part of its tree. -/
theorem Forest.not_below_next {opening next : Opening} {rest : List Opening}
    (forest : vault.Forest (opening :: next :: rest)) (root : opening.isRoot = true) :
    ¬vault.Below opening.record next.record := by
  obtain ⟨rank, clock, rooted, older⟩ := forest.ranking
  intro chain
  have younger := (List.pairwise_cons.1 older).1 next List.mem_cons_self root
  have noYounger := rooted.rank_le_of_below chain
  omega

/-- A declaration that was begun inside of a block has ended there. -/
theorem Kept.ended {handle : Handle} {name : String} (named : name ≠ "")
    (kept : before.Kept (openedSince block (.declaration handle :: inner)) vault)
    (forest : vault.Forest (.declaration handle :: inner ++ .block block :: outer))
    (spares : Spares before vault (.endDeclaration handle name))
    (ended : Vault.endDeclaration handle name vault = (.done (), after)) :
    before.Kept (openedSince block inner) after := by
  rw [openedSince_cons_of_isRoot rfl] at kept
  obtain ⟨next, rest, shape⟩ : ∃ next rest, inner ++ .block block :: outer = next :: rest :=
    List.exists_cons_of_ne_nil (by simp)
  rw [List.cons_append, shape] at forest
  have live : vault.isLive next.record = true := forest.active next (by simp)
  have young : before.isLive next.record = false :=
    spares next.frame (by rw [forest.frames]; rfl)
  refine kept.endDeclaration named forest.frames live young ?_ ended
  exact (reached_cons.1 (kept.reached live young)).resolve_left (forest.not_below_next rfl)

/-- An operation on bindings that spares the earlier records keeps what they show. -/
theorem Kept.edit {roots : List Handle} {openings : List Opening} (kept : before.Kept roots vault)
    (forest : vault.Forest openings) (someOpen : openings ≠ []) {operation : Operation}
    (edits : operation.edits = true) (allowed : Allowed openings operation)
    (spares : Spares before vault operation) :
    before.Kept roots (operation.perform vault).2 := by
  have asked (asks : operation.asks = true) : before.Kept roots (operation.perform vault).2 := by
    obtain ⟨_, performed, _⟩ := forest.ask someOpen asks
    rwa [performed]
  cases operation with
  | current | global | owner | resolve | lookup | bindings => exact asked rfl
  | define name value =>
      obtain ⟨frame, below, record, frames, found⟩ := forest.exists_current someOpen
      rw [Operation.perform, Operation.quietly_snd, define_of_cons name value frames found]
      have young : before.isLive frame.record = false := spares frame (by rw [frames]; rfl)
      exact kept.modifyFresh (isLive_of_record? found) young fun record =>
        record.owned_define name _
  | defineIn handle name value =>
      rw [Operation.perform, Operation.quietly_snd]
      exact kept.defineIn value allowed.2 spares
  | unbind name =>
      rw [Operation.perform, Operation.quietly_snd]
      exact kept.unbind forest.frame_live spares
  | erase handle name =>
      rw [Operation.perform, Operation.quietly_snd]
      exact kept.asking fun table live =>
        kept.modify live spares fun record => record.owned_erase name
  | clear handle =>
      rw [Operation.perform, Operation.quietly_snd]
      exact kept.asking fun table live => kept.modify live spares fun _ => rfl
  | assign reference value =>
      rw [Operation.perform, Operation.quietly_snd]
      exact kept.write reference value
  | _ => cases edits

/-- An operation during which a block stays open keeps what is beyond it. -/
theorem Kept.perform (kept : before.Kept (openedSince block inner) vault)
    (forest : vault.Forest (inner ++ .block block :: outer)) (operation : Operation)
    (allowed : Allowed (inner ++ .block block :: outer) operation)
    (spares : Spares before vault operation)
    (stays : follow (inner ++ .block block :: outer) operation (operation.perform vault).1 =
      later ++ .block block :: outer)
    (fits : (operation.perform vault).2.Fits) :
    before.Kept (openedSince block later) (operation.perform vault).2 := by
  have someOpen : inner ++ .block block :: outer ≠ [] := by simp
  have edited (edits : operation.edits = true) :
      before.Kept (openedSince block later) (operation.perform vault).2 := by
    rw [follow_of_edits edits] at stays
    obtain rfl := List.append_cancel_right stays
    exact kept.edit forest someOpen edits allowed spares
  cases operation with
  | enterBlock =>
      obtain ⟨handle, entered, ran, _⟩ := forest.enter (.inl rfl)
      have performed : Operation.enterBlock.perform vault = _ := Operation.handing_of_done ran
      rw [performed] at stays fits ⊢
      exact (kept.enter forest.consistent ran fits).opened rfl stays
  | enterBoxed =>
      obtain ⟨handle, entered, ran, _⟩ := forest.enter (.inr rfl)
      have performed : Operation.enterBoxed.perform vault = _ := Operation.handing_of_done ran
      rw [performed] at stays fits ⊢
      exact (kept.enter forest.consistent ran fits).opened rfl stays
  | declare name =>
      obtain ⟨handle, declared, ran, _⟩ := forest.declare someOpen name
      rw [Operation.perform, Operation.handing_of_done ran] at stays fits ⊢
      exact (kept.declare forest.consistent ran fits).opened rfl stays
  | enterNamed handle =>
      cases held : vault.record? handle with
      | some visited =>
          have performed : (Operation.enterNamed handle).perform vault = _ :=
            Operation.quietly_of_done (enterNamed_of_some held)
          rw [performed] at stays ⊢
          have opened : .visit handle :: inner = later := List.append_cancel_right stays
          rw [← opened, openedSince_cons_visit]
          exact kept.congr rfl
      | none =>
          obtain ⟨diagnostic, refused, _⟩ := find_of_none held
          have performed : (Operation.enterNamed handle).perform vault = _ :=
            Operation.quietly_of_failed (enterNamed_of_none refused)
          rw [performed] at stays ⊢
          rwa [← List.append_cancel_right stays]
  | exitBlock =>
      obtain ⟨handle, _, shape⟩ := allowed
      obtain rfl := eq_cons_of_closed shape stays
      obtain ⟨_, left, _⟩ := Forest.leave (.inl rfl) forest
      have performed : Operation.exitBlock.perform vault = _ := Operation.quietly_of_done left
      rw [performed]
      exact kept.leave forest.frames left
  | exitBoxed =>
      obtain ⟨handle, _, shape⟩ := allowed
      obtain rfl := eq_cons_of_closed shape stays
      obtain ⟨_, left, _⟩ := Forest.leave (.inr rfl) forest
      have performed : Operation.exitBoxed.perform vault = _ := Operation.quietly_of_done left
      rw [performed]
      exact kept.leave forest.frames left
  | exitNamed =>
      obtain ⟨handle, _, shape⟩ := allowed
      obtain rfl := eq_cons_of_closed shape stays
      obtain ⟨_, left, _⟩ := forest.exitNamed
      rw [Operation.perform, Operation.quietly_of_done left]
      cases left.symm.trans (exitNamed_of_cons forest.frames)
      exact kept.congr rfl
  | endDeclaration handle name =>
      obtain ⟨named, _, shape⟩ := allowed
      obtain rfl := eq_cons_of_closed shape stays
      obtain ⟨_, ended, _⟩ := forest.endDeclaration named
      rw [Operation.perform, Operation.quietly_of_done ended]
      exact kept.ended named forest spares ended
  | createOwned owner name =>
      obtain rfl := List.append_cancel_right stays
      rcases forest.createOwned owner name with ⟨handle, _, created, _⟩ | ⟨_, refused⟩
      · rw [Operation.perform, Operation.handing_of_done created] at fits ⊢
        exact kept.createOwned forest.consistent spares created fits
      · rwa [Operation.perform, Operation.handing_of_failed refused]
  | unwind depth => exact allowed.elim
  | current | global | owner | resolve | define | defineIn | lookup | bindings | unbind | erase
  | clear | assign => exact edited rfl

/-- The numbers of the slots have fitted before a block if they do while it is open. -/
theorem DuringBlock.fits_before (during : DuringBlock before outer block inner vault)
    (fits : vault.Fits) : before.Fits := by
  induction during with
  | entered entered => exact fits_of_ran (widens_enter .block) entered fits
  | step operation _ _ _ performed _ inductionHypothesis =>
      exact inductionHypothesis (fits_of_ran operation.widens performed fits)

/-- While a block is open, the store is a forest and beyond the block what it was. -/
theorem DuringBlock.forest_kept (forest : before.Forest outer)
    (during : DuringBlock before outer block inner vault) (fits : vault.Fits) :
    vault.Forest (inner ++ .block block :: outer) ∧
      before.Kept (openedSince block inner) vault := by
  induction during with
  | entered entered =>
      obtain ⟨handle, vault, ran, opened⟩ := forest.enter (.inl rfl)
      cases entered.symm.trans ran
      have kept : before.Kept [] before := ⟨rfl, fun _ _ => rfl⟩
      exact ⟨opened fits, kept.enter forest.consistent ran fits⟩
  | step operation _ allowed spares performed stays inductionHypothesis =>
      obtain ⟨innerForest, kept⟩ :=
        inductionHypothesis (fits_of_ran operation.widens performed fits)
      obtain ⟨outcome, after, ran, _, afterForest⟩ := innerForest.perform operation allowed
      cases performed.symm.trans ran
      have afterKept := kept.perform innerForest operation allowed spares (by rwa [performed])
        (by rwa [performed])
      rw [performed] at afterKept
      exact ⟨stays ▸ afterForest fits, afterKept⟩

end

theorem DuringBlock.next {before vault : Vault} {outer inner later : List Opening} {block : Handle}
    (during : DuringBlock before outer block inner vault) (operation : Operation)
    (allowed : Allowed (inner ++ .block block :: outer) operation)
    (spares : Spares before vault operation)
    (stays : follow (inner ++ .block block :: outer) operation (operation.perform vault).1 =
      later ++ .block block :: outer) :
    DuringBlock before outer block later (operation.perform vault).2 :=
  .step operation during allowed spares rfl stays

/-- A block that is opened in a well-bracketed run gives the store back as it was found, if nothing
in between binds or unbinds names in older records or gives them new scopes, and the numbers of the
slots fit: the block can be left, and then the same handles are live and the snapshot and the
fingerprint are the same. -/
theorem block_restores_snapshot {outcomes : List (Outcome (Option Handle))}
    {outer : List Opening} {before vault : Vault} {block : Handle}
    (run : WellBracketed outcomes outer before)
    (during : DuringBlock before outer block [] vault) (fits : vault.Fits) :
    ∃ after, exitBlock vault = (.done (), after) ∧
      (∀ handle, after.isLive handle = before.isLive handle) ∧
      after.snapshot = before.snapshot ∧ after.fingerprint = before.fingerprint := by
  have fitsBefore := during.fits_before fits
  have forestBefore := run.forest fitsBefore
  obtain ⟨forest, kept⟩ := during.forest_kept forestBefore fits
  obtain ⟨after, left, afterForest⟩ := Forest.leave (.inl rfl) forest
  have restored : before.Kept [] after := kept.leave forest.frames left
  have owned := ownedBy?_eq_of_outside restored.outside
  have live := isLive_eq_of_ownedBy? owned
  have faces : ∀ handle, after.face? handle = before.face? handle := by
    intro handle
    cases old : before.isLive handle with
    | true => exact restored.faces handle old
    | false =>
        have gone := (live handle).trans old
        rw [isLive_eq_isSome_face?, Option.isSome_eq_false_iff, Option.isNone_iff_eq_none]
          at old gone
        rw [old, gone]
  have fitsAfter := fits_of_leave forest.frames left fits
  have snapshot :=
    snapshot_eq forestBefore.consistent fitsBefore afterForest.consistent fitsAfter owned faces
  exact ⟨after, left, live, snapshot, by rw [fingerprint, snapshot, fingerprint]⟩

/-- A store with an open block that owns a named scope. -/
def furnished : Vault :=
  ((Operation.endDeclaration ⟨1, 1⟩ "s").perform
    ((Operation.declare "s").perform (Operation.enterBlock.perform .empty).2).2).2

/-- While a block is open an older scope is visited, a block is entered and left inside of it, and
its slot is used again for a new scope in which a name is bound. -/
theorem visiting_block_restores_snapshot :
    ∃ vault after, furnished.isLive ⟨1, 1⟩ = true ∧ vault.isLive ⟨3, 3⟩ = true ∧
      exitBlock vault = (.done (), after) ∧ after.isLive ⟨3, 3⟩ = false ∧
      after.snapshot = furnished.snapshot := by
  have opened := WellBracketed.start.next .enterBlock trivial
  have declared := opened.next (.declare "s") (List.cons_ne_nil _ _)
  have run := declared.next (.endDeclaration ⟨1, 1⟩ "s") ⟨by decide, [.block ⟨0, 1⟩], rfl⟩
  have entered : DuringBlock furnished [.block ⟨0, 1⟩] ⟨2, 1⟩ [] (enterBlock furnished).2 :=
    .entered rfl
  have visited : DuringBlock furnished [.block ⟨0, 1⟩] ⟨2, 1⟩ [.visit ⟨1, 1⟩] _ :=
    entered.next (.enterNamed ⟨1, 1⟩) (by simp [Allowed]) trivial rfl
  have nested : DuringBlock furnished [.block ⟨0, 1⟩] ⟨2, 1⟩ [.block ⟨3, 1⟩, .visit ⟨1, 1⟩] _ :=
    visited.next .enterBlock trivial trivial rfl
  have left : DuringBlock furnished [.block ⟨0, 1⟩] ⟨2, 1⟩ [.visit ⟨1, 1⟩] _ :=
    nested.next .exitBlock ⟨_, _, rfl⟩ trivial rfl
  have returned : DuringBlock furnished [.block ⟨0, 1⟩] ⟨2, 1⟩ [] _ :=
    left.next .exitNamed ⟨_, _, rfl⟩ trivial rfl
  have created : DuringBlock furnished [.block ⟨0, 1⟩] ⟨2, 1⟩ [] _ :=
    returned.next (.createOwned ⟨2, 1⟩ "Map") (by simp [Allowed]) rfl rfl
  have bound : DuringBlock furnished [.block ⟨0, 1⟩] ⟨2, 1⟩ [] _ :=
    created.next (.defineIn ⟨3, 3⟩ "x" (.bool true)) (by simp [Allowed]) rfl rfl
  obtain ⟨after, exited, live, snapshot, -⟩ := block_restores_snapshot run bound (by decide)
  exact ⟨_, after, rfl, rfl, exited, live _, snapshot⟩

end Vault
end ScopeScript
