import ScopeScript.Proofs.Vault.Effect

/-!
# What the values in a store have in common

A store holds values in the tables of its records and in the cells that have lost their name. If all
of them have a property, an operation keeps this as long as the value it is given has the property.
Invariants of this kind (`Vault.Invariant`) are kept by all operations in every store, however the
operation ends; it is shown by following the text of the operation (`Run.Ensures`).
-/

namespace ScopeScript

/-- The values that are bound in a table have a property. -/
def Table.Holds (Q : Value → Prop) (table : Table) : Prop :=
  ∀ entry ∈ table.entries, Q entry.2.value

namespace Table.Holds

variable {Q : Value → Prop} {table : Table}

theorem empty : Table.empty.Holds Q := nofun

/-- What is bound to a name in such a table has the property. -/
theorem find? (holds : table.Holds Q) {name : String} {binding : Binding}
    (found : table.find? name = some binding) : Q binding.value := by
  obtain ⟨entry, member, rfl⟩ := Option.map_eq_some_iff.1 found
  exact holds entry (List.mem_of_find?_eq_some member)

/-- Taking a name away leaves a table of such values. -/
theorem erase (holds : table.Holds Q) (name : String) : (table.erase name).Holds Q :=
  fun entry member => holds entry (List.mem_filter.1 member).1

/-- Binding a name to such a value leaves a table of such values. -/
theorem insert (holds : table.Holds Q) (name : String) {binding : Binding}
    (holdsValue : Q binding.value) : (table.insert name binding).Holds Q := by
  intro entry member
  rcases List.mem_cons.1 member with rfl | earlier
  · exact holdsValue
  · exact holds.erase name entry earlier

/-- The values of such a table, in the order of their names, have the property. -/
theorem values (holds : table.Holds Q) : ∀ value ∈ table.values, Q value := by
  intro value member
  obtain ⟨name, _, found⟩ := List.mem_filterMap.1 member
  obtain ⟨binding, bound, rfl⟩ := Option.map_eq_some_iff.1 found
  exact holds.find? bound

end Table.Holds

/-- The values that a record binds or still remembers have a property. -/
structure Record.Holds (Q : Value → Prop) (record : Record) : Prop where
  table : record.table.Holds Q
  detached : ∀ binding ∈ record.detached, Q binding.value

namespace Record.Holds

variable {Q : Value → Prop} {record : Record}

/-- A cell that loses its name keeps its value. -/
theorem detach (holds : record.Holds Q) (name : String) : (record.detach name).Holds Q := by
  unfold Record.detach
  split
  · next binding found =>
    exact ⟨holds.table, List.forall_mem_cons.2 ⟨holds.table.find? found, holds.detached⟩⟩
  · exact holds

/-- Binding a name to a new cell with such a value keeps the property. -/
theorem define (holds : record.Holds Q) (name : String) {binding : Binding}
    (holdsValue : Q binding.value) : (record.define name binding).Holds Q :=
  ⟨(holds.detach name).table.insert name holdsValue, (holds.detach name).detached⟩

/-- Changing what a name is bound to into such a value keeps the property. -/
theorem rebind (holds : record.Holds Q) (name : String) {binding : Binding}
    (holdsValue : Q binding.value) : (record.rebind name binding).Holds Q := by
  unfold Record.rebind
  split
  · exact ⟨holds.table.insert name holdsValue, holds.detached⟩
  · exact ⟨holds.table.insert name holdsValue, holds.detached⟩

theorem erase (holds : record.Holds Q) (name : String) : (record.erase name).Holds Q :=
  ⟨(holds.detach name).table.erase name, (holds.detach name).detached⟩

/-- Clearing a record moves its values to the cells without names. -/
theorem clear (holds : record.Holds Q) : record.clear.Holds Q := by
  refine ⟨.empty, List.forall_mem_append.2 ⟨?_, holds.detached⟩⟩
  intro binding member
  obtain ⟨entry, entryMember, rfl⟩ := List.mem_map.1 member
  exact holds.table entry entryMember

/-- What is read from a cell that has lost its name has the property, and so has the empty value
that is read where there is none. -/
theorem detachedValue (holds : record.Holds Q) (none : Q .none) (cell : Nat) :
    Q (Record.read.detachedValue record cell) := by
  unfold Record.read.detachedValue
  cases found : record.detached.find? (·.cell == cell) with
  | none => exact none
  | some binding => exact holds.detached binding (List.mem_of_find?_eq_some found)

/-- What is read from a cell of such a record has the property. -/
theorem read (holds : record.Holds Q) (none : Q .none) (name : String) (cell : Nat) :
    Q (record.read name cell) := by
  unfold Record.read
  split
  · next binding found =>
    split
    · exact holds.table.find? found
    · exact holds.detachedValue none cell
  · exact holds.detachedValue none cell

/-- The cells without names have the property after one of them has been written to. -/
theorem updated (holds : record.Holds Q) (cell : Nat) {value : Value} (holdsValue : Q value) :
    ∀ binding ∈ Record.write.updated record cell value, Q binding.value := by
  intro binding member
  obtain ⟨old, oldMember, rfl⟩ := List.mem_map.1 member
  split
  · exact holdsValue
  · exact holds.detached old oldMember

/-- Writing such a value to a cell keeps the property. -/
theorem write (holds : record.Holds Q) (name : String) (cell : Nat) {value : Value}
    (holdsValue : Q value) : (record.write name cell value).Holds Q := by
  unfold Record.write
  split
  · split
    · exact ⟨holds.table.insert name holdsValue, holds.detached⟩
    · exact ⟨holds.table, holds.updated cell holdsValue⟩
  · exact ⟨holds.table, holds.updated cell holdsValue⟩

end Record.Holds

/-- The values in a store have a property. -/
def Vault.Holds (Q : Value → Prop) (vault : Vault) : Prop :=
  ∀ place record, vault.recordAt place = some record → record.Holds Q

namespace Vault.Holds

variable {Q : Value → Prop} {vault : Vault}

theorem empty : Vault.empty.Holds Q := nofun

/-- Every store holds nothing but values. -/
theorem any : vault.Holds fun _ => True :=
  fun _ _ _ => ⟨fun _ _ => trivial, fun _ _ => trivial⟩

/-- The records of such a store hold such values. -/
theorem record? (holds : vault.Holds Q) {handle : Handle} {record : Record}
    (found : vault.record? handle = some record) : record.Holds Q :=
  holds handle.slot record (record?_eq_some_iff.1 found).2.2

/-- The bindings of a scope in such a store are such values. -/
theorem bindings (holds : vault.Holds Q) {handle : Handle} {table : Table}
    (found : vault.bindings handle = .ok table) : table.Holds Q := by
  cases live : vault.record? handle with
  | none =>
      obtain ⟨_, refused, _⟩ := find_of_none live
      rw [Vault.bindings, refused] at found
      cases found
  | some record =>
      rw [Vault.bindings, find_of_some live] at found
      cases found
      exact (holds.record? live).table

/-- What is found under a name of a scope has the property. -/
theorem lookup (holds : vault.Holds Q) {handle : Handle} {name : String} {binding : Binding}
    (found : vault.lookup handle name = .ok (some binding)) : Q binding.value := by
  cases live : vault.record? handle with
  | none =>
      obtain ⟨_, refused, _⟩ := find_of_none live
      rw [Vault.lookup, refused] at found
      cases found
  | some record =>
      rw [Vault.lookup, find_of_some live] at found
      exact (holds.record? live).table.find? (Except.ok.inj found)

/-- What is read through a reference has the property. -/
theorem read (holds : vault.Holds Q) (none : Q .none) (reference : Reference) :
    Q (vault.read reference) := by
  unfold Vault.read
  split
  · next record found => exact (holds.record? found).read none reference.name reference.cell
  · exact none

/-- A binding that has been found holds a value with the property. -/
theorem bindingAlong (holds : vault.Holds Q) {name : String} {frames : FrameStack}
    {handle : Handle} {binding : Binding}
    (found : vault.bindingAlong name frames = .ok (some (handle, binding))) :
    Q binding.value := by
  induction frames with
  | nil => cases found
  | cons frame frames inductionHypothesis =>
      cases live : vault.record? frame.record with
      | none =>
          obtain ⟨_, refused⟩ := findActive_of_none live
          rw [Vault.bindingAlong, refused] at found
          cases found
      | some record =>
          rw [Vault.bindingAlong, findActive_of_some live] at found
          dsimp only at found
          split at found
          · next bound =>
            cases found
            exact (holds.record? live).table.find? bound
          · exact inductionHypothesis found

/-- A change of one record that keeps the property of its values keeps it for the store. -/
theorem modify (holds : vault.Holds Q) (handle : Handle) {change : Record → Record}
    (kept : ∀ record : Record, record.Holds Q → (change record).Holds Q) :
    (vault.modify handle change).Holds Q := by
  intro place record held
  rw [recordAt_modify] at held
  split at held
  · obtain ⟨old, oldHeld, rfl⟩ := Option.map_eq_some_iff.1 held
    exact kept old (holds place old oldHeld)
  · exact holds place record held

/-- Freeing leaves such a store, since slots are only emptied. -/
theorem vacates (holds : vault.Holds Q) {rest : Vault}
    (freed : Relation.ReflTransGen Vacates vault rest) : rest.Holds Q := by
  induction freed with
  | refl => exact holds
  | tail _ last inductionHypothesis =>
      obtain ⟨handle, _, rfl⟩ := last
      intro place record held
      rw [recordAt_vacate] at held
      split at held
      · cases held
      · exact inductionHypothesis place record held

/-- A new record holds nothing, so the store is as it was in this respect. -/
theorem allocate (holds : vault.Holds Q) (parent : Handle) (path : String) :
    (vault.allocate parent path).2.Holds Q := by
  have new : Record.Holds Q { path, parent } := ⟨.empty, nofun⟩
  intro place record held
  rw [recordAt, Vault.allocate, Array.getElem?_setIfInBounds] at held
  split at held
  · split at held
    · exact Option.some.inj held ▸ new
    · cases held
  · exact holds place record ((recordAt_takeSlot vault place).symm.trans held)

end Vault.Holds

/-! ## Operations -/

/-- A computation keeps an invariant of the state, and its result has a property. -/
def Run.Ensures (invariant : σ → Prop) (P : α → Prop) (computation : Run σ α) : Prop :=
  ∀ state, invariant state →
    invariant (computation state).2 ∧ ∀ value, (computation state).1 = .done value → P value

namespace Run.Ensures

variable {σ α β : Type} {invariant : σ → Prop} {P : α → Prop} {Q : β → Prop}

/-- Nothing is said about a result. -/
abbrev any (_ : α) : Prop := True

/-- A result that has the property is ensured together with the invariant. -/
theorem result {value : α} (holds : P value) : Ensures invariant P (pure value : Run σ α) := by
  intro state kept
  refine ⟨kept, ?_⟩
  rintro _ ⟨⟩
  exact holds

/-- The state satisfies the invariant, and asking for it does not change it. -/
theorem state : Ensures invariant invariant (Run.state : Run σ σ) := by
  intro state kept
  refine ⟨kept, ?_⟩
  rintro _ ⟨⟩
  exact kept

/-- A change that keeps the invariant. -/
theorem update {change : σ → σ} (changed : ∀ state, invariant state → invariant (change state)) :
    Ensures invariant any (Run.update change) :=
  fun state kept => ⟨changed state kept, fun _ _ => trivial⟩

theorem fail (diagnostic : Diagnostic) : Ensures invariant P (Run.fail diagnostic : Run σ α) :=
  fun _ kept => ⟨kept, nofun⟩

theorem crash (crash : Crash) : Ensures invariant P (Run.crash crash : Run σ α) :=
  fun _ kept => ⟨kept, nofun⟩

/-- What crashes if there is no value ensures what holds of the value. -/
theorem orCrash {found : Except Crash α} (holds : ∀ value, found = .ok value → P value) :
    Ensures invariant P (Run.orCrash found : Run σ α) := by
  cases found with
  | ok value => exact result (holds value rfl)
  | error reason => exact crash reason

/-- What fails if there is no value ensures what holds of the value. -/
theorem orFail {found : Except Diagnostic α} (holds : ∀ value, found = .ok value → P value) :
    Ensures invariant P (Run.orFail found : Run σ α) := by
  cases found with
  | ok value => exact result (holds value rfl)
  | error diagnostic => exact fail diagnostic

/-- The property of the first result may be used for what follows it. -/
theorem bind {first : Run σ α} {next : α → Run σ β} (firstEnsures : Ensures invariant P first)
    (nextEnsures : ∀ value, P value → Ensures invariant Q (next value)) :
    Ensures invariant Q (first >>= next) := by
  intro state kept
  have ensured := firstEnsures state kept
  rw [bind_apply]
  generalize first state = ran at ensured ⊢
  obtain ⟨outcome, middle⟩ := ran
  obtain ⟨keptMiddle, holds⟩ := ensured
  cases outcome with
  | done value => exact nextEnsures value (holds value rfl) middle keptMiddle
  | failed diagnostic => exact ⟨keptMiddle, nofun⟩
  | crashed crash => exact ⟨keptMiddle, nofun⟩
  | endless => exact ⟨keptMiddle, nofun⟩

end Run.Ensures

namespace Vault

/-- An invariant of stores that the basic changes keep as long as the values in the store have a
property. It does not depend on frames and counters. -/
structure Invariant (I : Vault → Prop) (Q : Value → Prop) : Prop where
  holds : ∀ {vault}, I vault → vault.Holds Q
  congr : ∀ {vault after}, I vault → after.slots = vault.slots → after.free = vault.free →
    after.live = vault.live → I after
  modify : ∀ {vault} (handle) {change : Record → Record}, I vault →
    (∀ record : Record, record.Holds Q → (change record).Holds Q) → I (vault.modify handle change)
  allocate : ∀ {vault} (parent path), I vault → I (vault.allocate parent path).2
  vacates : ∀ {vault rest}, I vault → Relation.ReflTransGen Vacates vault rest → I rest

/-- That the values have a property is an invariant. -/
theorem invariant_holds (Q : Value → Prop) : Invariant (Holds Q) Q where
  holds := id
  congr holds slots _ _ place record held := holds place record (by rwa [recordAt, slots] at held)
  modify handle _ holds kept := Holds.modify holds handle kept
  allocate parent path holds := holds.allocate parent path
  vacates holds freed := holds.vacates freed

/-- That the store is consistent as well, as long as the numbers of its slots fit, is an
invariant. -/
theorem Invariant.consistent {I : Vault → Prop} {Q : Value → Prop} (invariant : Invariant I Q) :
    Invariant (fun vault => (vault.Fits → vault.Consistent) ∧ I vault) Q where
  holds kept := invariant.holds kept.2
  congr kept slots free live := by
    refine ⟨fun fits => (kept.1 ?_).congr slots free live, invariant.congr kept.2 slots free live⟩
    rwa [Fits, slots] at fits
  modify handle change kept changed := by
    refine ⟨fun fits => (kept.1 ?_).modify handle change, invariant.modify handle kept.2 changed⟩
    rwa [Fits, size_slots_modify] at fits
  allocate {vault} parent path kept := by
    refine ⟨fun fits => (kept.1 ?_).allocate fits, invariant.allocate parent path kept.2⟩
    exact (widens_allocate vault parent path).fits fits
  vacates kept freed := by
    refine ⟨fun fits => Vacates.consistent freed (kept.1 ?_), invariant.vacates kept.2 freed⟩
    rwa [Fits, Vacates.size_slots_eq freed] at fits

/-- That slots are not given back is an invariant. -/
theorem invariant_widens (start : Vault) : Invariant start.Widens fun _ => True where
  holds _ := .any
  congr widens slots _ _ := by rwa [Widens, slots]
  modify handle _ widens _ := by rwa [Widens, size_slots_modify]
  allocate {vault} parent path widens := widens.trans (widens_allocate vault parent path)
  vacates widens freed := by rwa [Widens, Vacates.size_slots_eq freed]

open Run.Ensures (any)

/-- Asking for the innermost scope changes nothing. -/
theorem ensures_current {I : Vault → Prop} : Run.Ensures I any current :=
  .bind .state fun _ _ => .bind (.orCrash fun _ _ => trivial) fun _ _ => .result trivial

theorem ensures_activeRecord {I : Vault → Prop} (handle : Handle) :
    Run.Ensures I any (activeRecord handle) :=
  .bind .state fun _ _ => .orCrash fun _ _ => trivial

/-- Asking for the owner of new scopes changes nothing. -/
theorem ensures_owner {I : Vault → Prop} : Run.Ensures I any owner := by
  refine .bind .state fun vault _ => ?_
  split
  · exact .result trivial
  · exact .bind .state fun _ _ => .bind (.orCrash fun _ _ => trivial) fun _ _ => .result trivial

namespace Invariant

variable {I : Vault → Prop} {Q : Value → Prop} (invariant : Invariant I Q)

include invariant

/-- A change beside slots, free slots and the count of live records. -/
theorem outside {change : Vault → Vault} (slots : ∀ vault, (change vault).slots = vault.slots)
    (free : ∀ vault, (change vault).free = vault.free)
    (live : ∀ vault, (change vault).live = vault.live) :
    Run.Ensures I any (Run.update change) :=
  .update fun vault kept => invariant.congr kept (slots vault) (free vault) (live vault)

/-- A change of one record that keeps the property of its values. -/
theorem changing (handle : Handle) {change : Record → Record}
    (kept : ∀ record : Record, record.Holds Q → (change record).Holds Q) :
    Run.Ensures I any (Run.update (·.modify handle change)) :=
  .update fun _ keptBefore => invariant.modify handle keptBefore kept

theorem push (kind : FrameKind) (handle : Handle) : Run.Ensures I any (Vault.push kind handle) :=
  invariant.outside (fun _ => rfl) (fun _ => rfl) fun _ => rfl

theorem pop : Run.Ensures I any Vault.pop :=
  .bind .state fun _ _ => .bind (.orCrash fun _ _ => trivial) fun _ _ =>
    .bind (invariant.outside (fun _ => rfl) (fun _ => rfl) fun _ => rfl) fun _ _ => .result trivial

/-- A new record without bindings is put into a slot. -/
theorem create (parent : Handle) (path : String) : Run.Ensures I any (Vault.create parent path) :=
  fun _ kept => ⟨invariant.allocate parent path kept, fun _ _ => trivial⟩

/-- Freeing a scope with all it owns keeps every invariant. -/
theorem release (handle : Handle) : Run.Ensures I any (Vault.release handle) := by
  intro vault kept
  refine ⟨?_, fun _ _ => trivial⟩
  unfold Vault.release
  split
  · next rest freed => exact invariant.vacates kept (releaseWithin_vacates freed)
  · exact kept

/-! ### Bindings -/

theorem freshCell : Run.Ensures I any Vault.freshCell :=
  .bind .state fun _ _ =>
    .bind (invariant.outside (fun _ => rfl) (fun _ => rfl) fun _ => rfl) fun _ _ => .result trivial

theorem rebind (handle : Handle) (name : String) {value : Value} (holds : Q value) :
    Run.Ensures I any (Vault.rebind handle name value) := by
  unfold Vault.rebind
  split
  · exact .crash _
  · exact .bind invariant.freshCell fun _ _ =>
      invariant.changing handle fun _ kept => kept.rebind name holds

/-- What is found for a name along the frames has the property. -/
theorem innermost (name : String) :
    Run.Ensures I (fun found => ∀ handle binding, found = some (handle, binding) →
      Q binding.value) (Vault.innermost name) := by
  intro vault kept
  refine Run.Ensures.orCrash ?_ vault kept
  rintro _ found handle binding rfl
  exact (invariant.holds kept).bindingAlong found

/-- The value that a name is resolved to has the property. -/
theorem resolve (name : String) :
    Run.Ensures I (fun found => Q found.2) (Vault.resolve name) := by
  refine .bind (invariant.innermost name) fun found holds => ?_
  rcases found with _ | ⟨handle, binding⟩
  · exact .fail _
  · exact .result (holds handle binding rfl)

/-- A new binding in the innermost scope needs a value with the property. -/
theorem define (name : String) {value : Value} (holds : Q value) :
    Run.Ensures I any (Vault.define name value) :=
  .bind ensures_current fun handle _ => .bind (ensures_activeRecord handle) fun _ _ =>
    .bind invariant.freshCell fun _ _ =>
      invariant.changing handle fun _ kept => kept.define name holds

/-- A binding in some scope needs a value with the property. -/
theorem defineIn (handle : Handle) (name : String) {value : Value} (holds : Q value) :
    Run.Ensures I any (Vault.defineIn handle name value) :=
  .bind .state fun _ _ => .bind (.orFail fun _ _ => trivial) fun _ _ =>
    invariant.rebind handle name holds

theorem unbind (name : String) : Run.Ensures I any (Vault.unbind name) := by
  refine .bind (invariant.innermost name) fun found _ => ?_
  rcases found with _ | ⟨handle, binding⟩
  · exact .result trivial
  · exact .bind (invariant.changing handle fun _ kept => kept.erase name) fun _ _ =>
      .result trivial

theorem eraseIn (handle : Handle) (name : String) :
    Run.Ensures I any (Vault.eraseIn handle name) :=
  .bind .state fun _ _ => .bind (.orFail fun _ _ => trivial) fun _ _ =>
    .bind (invariant.changing handle fun _ kept => kept.erase name) fun _ _ => .result trivial

theorem clearIn (handle : Handle) : Run.Ensures I any (Vault.clearIn handle) :=
  invariant.changing handle fun _ kept => kept.clear

/-- An assignment needs a value with the property. -/
theorem write (reference : Reference) {value : Value} (holds : Q value) :
    Run.Ensures I any (Vault.write reference value) := by
  refine .update fun vault kept => ?_
  split
  · exact invariant.modify reference.handle kept fun _ held => held.write reference.name _ holds
  · exact kept

/-! ### Entering and leaving -/

/-- Entering a block keeps every invariant. -/
theorem enter (kind : FrameKind) : Run.Ensures I any (Vault.enter kind) := by
  refine .bind .state fun vault _ => ?_
  split
  · refine .bind (invariant.create _ _) fun handle _ => ?_
    refine .bind (invariant.outside (fun _ => rfl) (fun _ => rfl) fun _ => rfl) fun _ _ => ?_
    exact .bind (invariant.push kind handle) fun _ _ => .result trivial
  · refine .bind ensures_current fun parent _ => ?_
    refine .bind (ensures_activeRecord parent) fun record _ => ?_
    refine .bind (invariant.create _ _) fun handle _ => ?_
    refine .bind (invariant.changing parent fun _ kept => ⟨kept.table, kept.detached⟩) fun _ _ => ?_
    exact .bind (invariant.push kind handle) fun _ _ => .result trivial

/-- Leaving a block keeps every invariant. -/
theorem leave (kind : FrameKind) : Run.Ensures I any (Vault.leave kind) := by
  refine .bind invariant.pop fun frame _ => ?_
  split
  · exact invariant.release frame.record
  · exact .crash _

theorem declare (name : String) : Run.Ensures I any (Vault.declare name) :=
  .bind ensures_current fun parent _ => .bind (ensures_activeRecord parent) fun _ _ =>
    .bind (invariant.create _ _) fun handle _ =>
      .bind (invariant.push .named handle) fun _ _ => .result trivial

/-- The end of a declaration binds the declared scope, which needs the property. -/
theorem endDeclaration (handle : Handle) (name : String) (holds : Q (.scope handle)) :
    Run.Ensures I any (Vault.endDeclaration handle name) := by
  refine .bind invariant.pop fun frame _ => ?_
  split
  · refine .bind ensures_current fun parent _ => ?_
    refine .bind (ensures_activeRecord parent) fun _ _ => ?_
    refine .bind (invariant.changing parent fun _ kept => ⟨kept.table, kept.detached⟩) fun _ _ => ?_
    exact invariant.rebind parent name holds
  · exact .crash _

/-- Creating a scope for an owner keeps every invariant. -/
theorem createOwned (owner : Handle) (name : String) :
    Run.Ensures I any (Vault.createOwned owner name) :=
  .bind .state fun _ _ => .bind (.orFail fun _ _ => trivial) fun _ _ =>
    .bind (invariant.create _ _) fun _ _ =>
      .bind (invariant.changing owner fun _ kept => ⟨kept.table, kept.detached⟩) fun _ _ =>
        .result trivial

theorem enterNamed (handle : Handle) : Run.Ensures I any (Vault.enterNamed handle) :=
  .bind .state fun _ _ => .bind (.orFail fun _ _ => trivial) fun _ _ => invariant.push .named handle

theorem exitNamed : Run.Ensures I any Vault.exitNamed := by
  refine .bind invariant.pop fun frame _ => ?_
  split
  · exact .result trivial
  · exact .crash _

theorem dropFrame : Run.Ensures I any Vault.dropFrame := by
  refine .bind invariant.pop fun frame _ => ?_
  split
  · exact .result trivial
  · exact invariant.release frame.record

theorem unwindWithin (depth : Int) (bound : Nat) :
    Run.Ensures I any (Vault.unwindWithin depth bound) := by
  induction bound with
  | zero => exact .result trivial
  | succ bound inductionHypothesis =>
      refine .bind .state fun vault _ => ?_
      split
      · exact .bind invariant.dropFrame fun _ _ => inductionHypothesis
      · exact .result trivial

/-- Unwinding leaves frames one by one, so it keeps every invariant. -/
theorem unwind (depth : Int) : Run.Ensures I any (Vault.unwind depth) :=
  .bind .state fun vault _ => invariant.unwindWithin depth (vault.depth + 1)

end Invariant

end Vault

end ScopeScript
