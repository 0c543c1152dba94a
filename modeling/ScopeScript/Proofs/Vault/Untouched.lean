import ScopeScript.Proofs.Vault.Forest
import ScopeScript.Proofs.Vault.Writing

/-!
# Stores whose records are untouched

While a program runs, the store is compared with the one at some earlier time. The records of that
time are untouched if they are still live with the same bindings and have not been handed over to
another owner. Whatever is created later may be bound to, handed over and freed at will: a record
that is freed takes along only what it owns, and an old record is never below a young one
(`Untouched.not_below`).
-/

namespace ScopeScript
namespace Vault

/-- Every record that is live in one store is live in another one as well, and it binds the same
names to the same values there. -/
def PersistsIn (found left : Vault) : Prop :=
  ∀ handle table, found.bindings handle = .ok table → left.bindings handle = .ok table

/-- The records of an earlier store have kept their bindings and their owners. -/
structure Untouched (before vault : Vault) : Prop where
  tables : ∀ {handle}, before.isLive handle = true → vault.table? handle = before.table? handle
  owners : ∀ {owner scope}, before.isLive scope = true → vault.Owns owner scope →
    before.Owns owner scope

theorem isLive_iff_table? {vault : Vault} {handle : Handle} :
    vault.isLive handle = true ↔ ∃ table, vault.table? handle = some table := by
  simp [isLive_iff_exists, table?]

theorem bindings_of_table? {vault : Vault} {handle : Handle} {table : Table}
    (found : vault.table? handle = some table) : vault.bindings handle = .ok table := by
  obtain ⟨record, live, rfl⟩ := exists_record_of_table? found
  rw [bindings, find_of_some live]
  rfl

theorem table?_of_bindings {vault : Vault} {handle : Handle} {table : Table}
    (found : vault.bindings handle = .ok table) : vault.table? handle = some table := by
  cases live : vault.record? handle with
  | none =>
      obtain ⟨diagnostic, refused, _⟩ := find_of_none live
      rw [bindings, refused] at found
      cases found
  | some record =>
      rw [bindings, find_of_some live] at found
      cases found
      rw [table?, live]
      rfl

namespace Untouched

variable {before vault after : Vault}

theorem refl (vault : Vault) : vault.Untouched vault :=
  ⟨fun _ => rfl, fun _ owns => owns⟩

theorem isLive (untouched : before.Untouched vault) {handle : Handle}
    (old : before.isLive handle = true) : vault.isLive handle = true := by
  obtain ⟨table, found⟩ := isLive_iff_table?.1 old
  exact isLive_iff_table?.2 ⟨table, (untouched.tables old).trans found⟩

/-- A record that is not live was not live before. -/
theorem young (untouched : before.Untouched vault) {handle : Handle}
    (missing : vault.record? handle = none) : before.isLive handle = false := by
  by_contra old
  obtain ⟨record, found⟩ := isLive_iff_exists.1 (untouched.isLive (Bool.not_eq_false _ ▸ old))
  cases missing.symm.trans found

theorem persists (untouched : before.Untouched vault) : before.PersistsIn vault := by
  intro handle table bound
  have found := table?_of_bindings bound
  exact bindings_of_table? ((untouched.tables (isLive_iff_table?.2 ⟨table, found⟩)).trans found)

/-- The store goes on changing. -/
theorem trans (untouched : before.Untouched vault)
    (tables : ∀ {handle}, before.isLive handle = true → after.table? handle = vault.table? handle)
    (owners : ∀ {owner scope}, before.isLive scope = true → after.Owns owner scope →
      vault.Owns owner scope) : before.Untouched after :=
  ⟨fun old => (tables old).trans (untouched.tables old),
    fun old owns => untouched.owners old (owners old owns)⟩

/-- Only the slots matter. -/
theorem congr (untouched : before.Untouched vault) (slots : after.slots = vault.slots) :
    before.Untouched after := by
  have same : ∀ handle, after.record? handle = vault.record? handle := by
    simp [record?, slots]
  refine untouched.trans (fun {handle} _ => ?_) fun {owner scope} _ owns => ?_
  · rw [table?, same, table?]
  · rwa [Owns, same] at owns

theorem ne_of_young {handle place : Handle} (old : before.isLive handle = true)
    (young : before.isLive place = false) : handle ≠ place := by
  rintro rfl
  rw [young] at old
  cases old

/-- A young record is changed; it may get hold of another young one. -/
theorem modify (untouched : before.Untouched vault) {place : Handle} {record : Record}
    (found : vault.record? place = some record) (young : before.isLive place = false)
    {change : Record → Record}
    (owned : ∀ scope ∈ (change record).owned, scope ∈ record.owned ∨ before.isLive scope = false) :
    before.Untouched (vault.modify place change) := by
  refine untouched.trans (fun {handle} old => ?_) fun {owner scope} old owns => ?_
  · rw [table?, record?_modify found, if_neg (ne_of_young old young), table?]
  · obtain ⟨changed, held, member⟩ := owns
    rw [record?_modify found] at held
    split at held
    · next same =>
      cases held
      rcases owned scope member with earlier | notOld
      · exact ⟨record, same ▸ found, earlier⟩
      · cases old.symm.trans notOld
    · exact ⟨changed, held, member⟩

/-- A young record is given a binding with a new cell. -/
theorem modifyFresh (untouched : before.Untouched vault) {place : Handle} {record : Record}
    (found : vault.record? place = some record) (young : before.isLive place = false)
    {change : Record → Record} (owned : ∀ record, (change record).owned = record.owned) :
    before.Untouched ({ vault with cells := vault.cells + 1 }.modify place change) := by
  have counted : before.Untouched { vault with cells := vault.cells + 1 } := untouched.congr rfl
  refine counted.modify found young fun scope member => .inl ?_
  rwa [owned] at member

/-! ## Creating records -/

theorem allocate (untouched : before.Untouched vault) (consistent : vault.Consistent)
    {parent : Handle} {path : String} (fits : (vault.allocate parent path).2.Fits) :
    before.Untouched (vault.allocate parent path).2 := by
  have grown := consistent.grown_allocate fits
  refine untouched.trans (fun {handle} old => ?_) fun {owner scope} _ owns => ?_
  · have different := ne_of_young old (untouched.young grown.fresh)
    rw [table?, consistent.record?_allocate fits, if_neg different, table?]
  · exact (grown.owns_iff owner scope).1 owns

/-- The parent of a new record is changed, but neither its bindings nor what it owns of old. -/
theorem allocateIn (untouched : before.Untouched vault) (consistent : vault.Consistent)
    {parent : Handle} {record : Record} (found : vault.record? parent = some record)
    {path : String} (fits : (vault.allocate parent path).2.Fits) {change : Record → Record}
    (same : (change record).table = record.table)
    (owned : ∀ scope ∈ (change record).owned,
      scope ∈ record.owned ∨ scope = (vault.allocate parent path).1) :
    before.Untouched ((vault.allocate parent path).2.modify parent change) := by
  have fresh := consistent.record?_allocate_fst fits
  have older : parent ≠ (vault.allocate parent path).1 := by
    intro isNew
    rw [isNew, fresh] at found
    cases found
  have stillFound : (vault.allocate parent path).2.record? parent = some record := by
    rw [consistent.record?_allocate fits, if_neg older, found]
  refine untouched.trans (fun {handle} old => ?_) fun {owner scope} old owns => ?_
  · have different := ne_of_young old (untouched.young fresh)
    rw [table?_allocate consistent found fits same, if_neg different]
  · obtain ⟨changed, held, member⟩ := owns
    rw [record?_modify stillFound] at held
    split at held
    · next isParent =>
      cases held
      refine ⟨record, isParent ▸ found, (owned scope member).resolve_right ?_⟩
      exact ne_of_young old (untouched.young fresh)
    · exact ((consistent.grown_allocate fits).owns_iff owner scope).1 ⟨changed, held, member⟩

theorem enter (untouched : before.Untouched vault) {openings : List Opening}
    (forest : vault.Forest openings) (someOpen : openings ≠ []) {kind : FrameKind}
    {handle : Handle} (entered : Vault.enter kind vault = (.done handle, after))
    (fits : after.Fits) :
    before.Untouched after ∧ before.isLive handle = false := by
  obtain ⟨frame, below, record, frames, found⟩ := forest.exists_current someOpen
  obtain ⟨path, done⟩ := enter_of_cons kind frames found
  have fresh := (forest.consistent.grown_of_enter entered fits).fresh
  cases entered.symm.trans done
  refine ⟨?_, untouched.young fresh⟩
  exact (untouched.allocateIn forest.consistent found (fits_modify.1 fits) rfl fun _ => .inl).congr
    rfl

theorem declare (untouched : before.Untouched vault) {openings : List Opening}
    (forest : vault.Forest openings) (someOpen : openings ≠ []) {name : String}
    {handle : Handle} (declared : Vault.declare name vault = (.done handle, after))
    (fits : after.Fits) :
    before.Untouched after ∧ before.isLive handle = false := by
  obtain ⟨frame, below, record, frames, found⟩ := forest.exists_current someOpen
  obtain ⟨path, done⟩ := declare_of_cons name frames found
  have fresh := (forest.consistent.grown_of_declare declared fits).fresh
  cases declared.symm.trans done
  have fitted : (vault.allocate frame.record path).2.Fits := fits
  exact ⟨(untouched.allocate forest.consistent fitted).congr rfl, untouched.young fresh⟩

theorem createOwned (untouched : before.Untouched vault) (consistent : vault.Consistent)
    {owner handle : Handle} {name : String}
    (created : Vault.createOwned owner name vault = (.done handle, after)) (fits : after.Fits) :
    before.Untouched after ∧ before.isLive handle = false := by
  cases found : vault.record? owner with
  | none =>
      obtain ⟨diagnostic, refused, _⟩ := find_of_none found
      cases created.symm.trans (createOwned_of_none name refused)
  | some record =>
      obtain ⟨path, done⟩ := createOwned_of_some name found
      cases created.symm.trans done
      have fitted := fits_modify.1 fits
      refine ⟨untouched.allocateIn consistent found fitted rfl fun scope member => ?_,
        untouched.young (consistent.record?_allocate_fst fitted)⟩
      simpa using member

/-! ## Bindings -/

theorem define (untouched : before.Untouched vault) {frame : Frame} {below : FrameStack}
    (frames : vault.frames = frame :: below) (live : vault.isLive frame.record = true)
    (young : before.isLive frame.record = false) (name : String) (value : Value) :
    before.Untouched (Vault.define name value vault).2 := by
  obtain ⟨record, found⟩ := isLive_iff_exists.1 live
  rw [define_of_cons name value frames found]
  exact untouched.modifyFresh found young fun record => record.owned_define name _

theorem defineIn (untouched : before.Untouched vault) {handle : Handle}
    (young : before.isLive handle = false) {name : String} (named : name ≠ "") (value : Value) :
    before.Untouched (Vault.defineIn handle name value vault).2 := by
  cases found : vault.record? handle with
  | none =>
      obtain ⟨diagnostic, refused, _⟩ := find_of_none found
      rwa [defineIn_of_none name value refused]
  | some record =>
      rw [defineIn_of_some name value found, rebind_of_ne handle value named]
      exact untouched.modifyFresh found young fun record => record.owned_rebind name _

/-! ## Leaving -/

/-- What is owned by a young record is young. -/
theorem not_below (untouched : before.Untouched vault) {root handle : Handle}
    (young : before.isLive root = false) (old : before.isLive handle = true) :
    ¬vault.Below root handle := by
  intro chain
  induction chain with
  | refl => cases young.symm.trans old
  | tail _ owns inductionHypothesis =>
      exact inductionHypothesis (untouched.owners old owns).owner_live

theorem leave (untouched : before.Untouched vault) {kind : FrameKind} {handle : Handle}
    {below : FrameStack} (frames : vault.frames = ⟨kind, handle⟩ :: below)
    (young : before.isLive handle = false)
    (left : Vault.leave kind vault = (.done (), after)) : before.Untouched after := by
  rw [leave_of_cons frames, release] at left
  split at left
  case h_1 rest freed =>
    cases left
    have pruned := releaseWithin_pruned freed
    have popped : before.Untouched { vault with frames := below } := untouched.congr rfl
    refine popped.trans (fun {scope} old => ?_) fun {owner scope} _ owns => ?_
    · have kept := popped.not_below young old
      rw [table?, table?]
      congr 1
      apply Option.ext
      intro record
      rw [pruned scope record]
      exact and_iff_left kept
    · exact ((pruned.owns_iff owner scope).1 owns).1
  case h_2 => cases left

/-- A young scope is handed over to the young one around it and bound there. -/
theorem endDeclaration (untouched : before.Untouched vault) {handle : Handle}
    (young : before.isLive handle = false) {name : String} {frame : Frame} {below : FrameStack}
    (frames : vault.frames = ⟨.named, handle⟩ :: frame :: below)
    (live : vault.isLive frame.record = true) (youngOuter : before.isLive frame.record = false)
    (ended : Vault.endDeclaration handle name vault = (.done (), after)) :
    before.Untouched after := by
  obtain ⟨record, found⟩ := isLive_iff_exists.1 live
  let popped : Vault := { vault with frames := frame :: below }
  let adopting (record : Record) : Record := { record with owned := record.owned ++ [handle] }
  have stillFound : popped.record? frame.record = some record := found
  have adopted : before.Untouched (popped.modify frame.record adopting) := by
    have untouchedPopped : before.Untouched popped := untouched.congr rfl
    refine untouchedPopped.modify stillFound youngOuter fun scope member => ?_
    rcases List.mem_append.1 member with earlier | new
    · exact .inl earlier
    · exact .inr (List.mem_singleton.1 new ▸ young)
  have adopter : (popped.modify frame.record adopting).record? frame.record =
      some (adopting record) := by
    rw [record?_modify stillFound, if_pos rfl]
  rw [endDeclaration_of_cons name frames found] at ended
  by_cases named : name = ""
  · rw [named, rebind_empty] at ended
    cases ended
  · rw [rebind_of_ne _ _ named] at ended
    cases ended
    exact adopted.modifyFresh adopter youngOuter fun record => record.owned_rebind name _

end Untouched

end Vault
end ScopeScript
