import Mathlib.Data.Finset.Card
import Mathlib.Data.List.Nodup
import ScopeScript.Vault.Basic

/-!
# The slots of the scope store

A slot is seen through two functions of its number: the generation it has reached and the record
it holds. A slot that was never used counts as one of generation zero without a record, so a slot
that is used again and a slot that is new are the same case.

Allocating, freeing and changing a record are point updates of these two functions. `Consistent`
says that the list of free slots, the count of live records and the parity of the generations agree
with what the slots hold; the three primitive changes of the store keep it.
-/

namespace ScopeScript

/-- A slot is used by one record at a time, so slot and generation tell handles apart. -/
theorem Handle.eq_of_slot_eq {first second : Handle} (sameSlot : first.slot = second.slot)
    (sameGeneration : first.generation = second.generation) : first = second := by
  rcases first with ⟨index, generation⟩
  rcases second with ⟨index', generation'⟩
  cases UInt32.toNat_inj.1 sameSlot
  cases sameGeneration
  rfl

namespace Vault

/-- The numbers of all slots fit into 32 bits. Since slots are never given back, a store that fits
has fitted in every state before. -/
def Fits (vault : Vault) : Prop :=
  vault.slots.size ≤ UInt32.size

instance (vault : Vault) : Decidable vault.Fits :=
  inferInstanceAs (Decidable (_ ≤ _))

/-- No slot has been given back. -/
def Widens (before after : Vault) : Prop :=
  before.slots.size ≤ after.slots.size

namespace Widens

variable {before middle after : Vault}

theorem refl (vault : Vault) : vault.Widens vault :=
  Nat.le_refl _

theorem trans (first : before.Widens middle) (second : middle.Widens after) :
    before.Widens after :=
  Nat.le_trans first second

/-- If the numbers fit after a change that gives no slots back, they did before. -/
theorem fits (widens : before.Widens after) (fits : after.Fits) : before.Fits :=
  Nat.le_trans widens fits

end Widens

/-- The generation a slot has reached. -/
def generationAt (vault : Vault) (place : Nat) : UInt32 :=
  (vault.slots[place]?.map (·.generation)).getD 0

/-- The record in a slot. -/
def recordAt (vault : Vault) (place : Nat) : Option Record :=
  vault.slots[place]?.bind (·.record?)

/-- The handle of a slot with the generation it has reached. -/
def handleAt (vault : Vault) (place : Nat) : Handle :=
  ⟨.ofNat place, vault.generationAt place⟩

/-- Where the numbers fit, the handle of a slot refers to this slot. -/
theorem slot_handleAt {vault : Vault} (fits : vault.Fits) {place : Nat}
    (inside : place < vault.slots.size) : (vault.handleAt place).slot = place :=
  UInt32.toNat_ofNat_of_lt' (inside.trans_le fits)

/-- Only a slot that exists holds a record. -/
theorem lt_size_of_recordAt {vault : Vault} {place : Nat} {record : Record}
    (held : vault.recordAt place = some record) : place < vault.slots.size := by
  by_contra beyond
  rw [recordAt, Array.getElem?_eq_none (Nat.le_of_not_lt beyond)] at held
  cases held

/-- A handle denotes what its slot holds, provided that the slot is of the handle's generation. -/
theorem record?_eq_some_iff {vault : Vault} {handle : Handle} {record : Record} :
    vault.record? handle = some record ↔
      handle.generation ≠ 0 ∧ vault.generationAt handle.slot = handle.generation ∧
        vault.recordAt handle.slot = some record := by
  unfold record? generationAt recordAt Handle.isNull
  cases held : vault.slots[handle.slot]? with
  | none => simp
  | some slot => by_cases same : slot.generation = handle.generation <;> simp [same]

/-- A handle is live if it denotes a record. -/
theorem isLive_iff_exists {vault : Vault} {handle : Handle} :
    vault.isLive handle = true ↔ ∃ record, vault.record? handle = some record :=
  Option.isSome_iff_exists

theorem isLive_of_record? {vault : Vault} {handle : Handle} {record : Record}
    (found : vault.record? handle = some record) : vault.isLive handle = true :=
  isLive_iff_exists.2 ⟨record, found⟩

/-- Live handles with the same slot are the same. -/
theorem eq_of_isLive_of_slot_eq {vault : Vault} {first second : Handle}
    (firstLive : vault.isLive first = true) (secondLive : vault.isLive second = true)
    (sameSlot : first.slot = second.slot) : first = second := by
  obtain ⟨_, found⟩ := isLive_iff_exists.1 firstLive
  obtain ⟨_, found'⟩ := isLive_iff_exists.1 secondLive
  obtain ⟨_, reached, _⟩ := record?_eq_some_iff.1 found
  obtain ⟨_, reached', _⟩ := record?_eq_some_iff.1 found'
  refine Handle.eq_of_slot_eq sameSlot ?_
  rw [← reached, ← reached', sameSlot]

/-- The slot of a live handle exists. -/
theorem slot_lt_size_of_isLive {vault : Vault} {handle : Handle}
    (live : vault.isLive handle = true) : handle.slot < vault.slots.size := by
  obtain ⟨record, found⟩ := isLive_iff_exists.1 live
  exact lt_size_of_recordAt (record?_eq_some_iff.1 found).2.2

/-- There are no more live handles than slots. -/
theorem length_le_size_of_nodup {vault : Vault} {handles : List Handle}
    (nodup : handles.Nodup) (live : ∀ handle ∈ handles, vault.isLive handle = true) :
    handles.length ≤ vault.slots.size := by
  have slotsNodup : (handles.map (·.slot)).Nodup :=
    nodup.map_on fun first firstMember second secondMember =>
      eq_of_isLive_of_slot_eq (live first firstMember) (live second secondMember)
  have within : (handles.map (·.slot)).toFinset ⊆ Finset.range vault.slots.size := by
    intro place member
    obtain ⟨handle, handleMember, rfl⟩ := List.mem_map.1 (List.mem_toFinset.1 member)
    exact Finset.mem_range.2 (slot_lt_size_of_isLive (live handle handleMember))
  have bound := Finset.card_le_card within
  rwa [List.toFinset_card_of_nodup slotsNodup, List.length_map, Finset.card_range] at bound

/-! ## The three primitive changes -/

@[simp] theorem frames_modify (vault : Vault) (handle : Handle) (change : Record → Record) :
    (vault.modify handle change).frames = vault.frames := rfl

@[simp] theorem size_slots_modify (vault : Vault) (handle : Handle) (change : Record → Record) :
    (vault.modify handle change).slots.size = vault.slots.size := by
  simp [modify]

/-- Changing a record adds no slots. -/
theorem fits_modify {vault : Vault} {handle : Handle} {change : Record → Record} :
    (vault.modify handle change).Fits ↔ vault.Fits := by
  rw [Fits, size_slots_modify, Fits]

@[simp] theorem generationAt_modify (vault : Vault) (handle : Handle) (change : Record → Record)
    (place : Nat) : (vault.modify handle change).generationAt place = vault.generationAt place := by
  unfold generationAt modify
  simp only [Array.getElem?_modify]
  split
  · cases vault.slots[place]? <;> rfl
  · rfl

/-- A change of a record is seen in its slot only. -/
theorem recordAt_modify (vault : Vault) (handle : Handle) (change : Record → Record)
    (place : Nat) :
    (vault.modify handle change).recordAt place =
      if place = handle.slot then (vault.recordAt place).map change else vault.recordAt place := by
  unfold recordAt modify
  simp only [Array.getElem?_modify]
  by_cases same : handle.slot = place
  · subst same
    cases vault.slots[handle.slot]? <;> simp
  · simp [same, Ne.symm same]

@[simp] theorem size_slots_vacate (vault : Vault) (handle : Handle) :
    (vault.vacate handle).slots.size = vault.slots.size := by
  simp [vacate]

/-- Freeing empties one slot and no other. -/
theorem recordAt_vacate (vault : Vault) (handle : Handle) (place : Nat) :
    (vault.vacate handle).recordAt place =
      if place = handle.slot then none else vault.recordAt place := by
  unfold recordAt vacate
  simp only [Array.getElem?_modify]
  by_cases same : handle.slot = place
  · subst same
    cases vault.slots[handle.slot]? <;> simp
  · simp [same, Ne.symm same]

/-- Freeing moves the generation of its slot on by one. -/
theorem generationAt_vacate {vault : Vault} {handle : Handle}
    (live : vault.isLive handle = true) (place : Nat) :
    (vault.vacate handle).generationAt place =
      if place = handle.slot then vault.generationAt place + 1 else vault.generationAt place := by
  unfold generationAt vacate
  simp only [Array.getElem?_modify]
  by_cases same : handle.slot = place
  · subst same
    simp [slot_lt_size_of_isLive live]
  · simp [same, Ne.symm same]

/-- A live handle denotes the changed record afterwards, and no other handle notices. -/
theorem record?_modify {vault : Vault} {handle : Handle} {record : Record}
    (found : vault.record? handle = some record) (change : Record → Record) (other : Handle) :
    (vault.modify handle change).record? other =
      if other = handle then some (change record) else vault.record? other := by
  have held := record?_eq_some_iff.1 found
  apply Option.ext
  intro result
  by_cases same : other = handle
  · subst same
    simp [record?_eq_some_iff, recordAt_modify, held]
  · by_cases sameSlot : other.slot = handle.slot
    · have otherGeneration : vault.generationAt other.slot ≠ other.generation := by
        rw [sameSlot, held.2.1]
        intro sameGeneration
        exact same (Handle.eq_of_slot_eq sameSlot sameGeneration.symm)
      simp [record?_eq_some_iff, same, otherGeneration]
    · simp [record?_eq_some_iff, recordAt_modify, same, sameSlot]

/-- What a change keeps in every record is the same behind every handle. -/
theorem map_record?_modify (vault : Vault) (handle : Handle) {change : Record → Record}
    {part : Record → β} (same : ∀ record, part (change record) = part record) (other : Handle) :
    ((vault.modify handle change).record? other).map part = (vault.record? other).map part := by
  apply Option.ext
  intro value
  simp only [Option.map_eq_some_iff, record?_eq_some_iff, generationAt_modify, recordAt_modify]
  split
  · cases vault.recordAt other.slot <;> simp [same]
  · rfl

/-- Freeing a slot takes away what it holds and nothing else. -/
theorem record?_vacate_eq_some_iff {vault : Vault} {handle other : Handle} {record : Record} :
    (vault.vacate handle).record? other = some record ↔
      other.slot ≠ handle.slot ∧ vault.record? other = some record := by
  rw [record?_eq_some_iff, record?_eq_some_iff, recordAt_vacate]
  by_cases same : other.slot = handle.slot
  · simp [same]
  · simp [generationAt, vacate, Array.getElem?_modify, same, Ne.symm same]

/-- Freeing takes away what a live handle denotes, and no other handle notices. -/
theorem record?_vacate {vault : Vault} {handle : Handle} (live : vault.isLive handle = true)
    (other : Handle) :
    (vault.vacate handle).record? other =
      if other = handle then none else vault.record? other := by
  apply Option.ext
  intro result
  rw [record?_vacate_eq_some_iff]
  by_cases same : other = handle
  · simp [same]
  · rw [if_neg same]
    refine and_iff_right_of_imp fun found sameSlot => ?_
    exact same (eq_of_isLive_of_slot_eq (isLive_of_record? found) live sameSlot)

/-! ### New records -/

theorem takeSlot_of_cons {vault : Vault} {index : UInt32} {rest : List UInt32}
    (free : vault.free = index :: rest) :
    vault.takeSlot = (index, { vault with free := rest }) := by
  simp [takeSlot, free]

/-- Where no slot is free, one is added, and its number is the count of the slots before, cut to 32
bits. -/
theorem takeSlot_of_nil {vault : Vault} (free : vault.free = []) :
    vault.takeSlot =
      (.ofNat vault.slots.size, { vault with slots := vault.slots.push ⟨0, none⟩ }) := by
  simp [takeSlot, free]

/-- A slot that is added has not been used, so nobody notices. -/
theorem generationAt_takeSlot (vault : Vault) (place : Nat) :
    vault.takeSlot.2.generationAt place = vault.generationAt place := by
  cases free : vault.free with
  | cons index rest => rw [takeSlot_of_cons free, generationAt, generationAt]
  | nil =>
      rw [takeSlot_of_nil free, generationAt, generationAt, Array.getElem?_push]
      by_cases new : place = vault.slots.size <;> simp [new]

/-- The slot that is added holds nothing. -/
theorem recordAt_takeSlot (vault : Vault) (place : Nat) :
    vault.takeSlot.2.recordAt place = vault.recordAt place := by
  cases free : vault.free with
  | cons index rest => rw [takeSlot_of_cons free, recordAt, recordAt]
  | nil =>
      rw [takeSlot_of_nil free, recordAt, recordAt, Array.getElem?_push]
      by_cases new : place = vault.slots.size <;> simp [new]

theorem size_slots_allocate (vault : Vault) (parent : Handle) (path : String) :
    (vault.allocate parent path).2.slots.size = vault.takeSlot.2.slots.size := by
  simp [allocate]

/-- A new record gives no slots back. -/
theorem widens_allocate (vault : Vault) (parent : Handle) (path : String) :
    vault.Widens (vault.allocate parent path).2 := by
  rw [Widens, size_slots_allocate]
  cases free : vault.free with
  | cons index rest => rw [takeSlot_of_cons free]
  | nil => simp [takeSlot_of_nil free]

@[simp] theorem frames_allocate (vault : Vault) (parent : Handle) (path : String) :
    (vault.allocate parent path).2.frames = vault.frames := by
  simp only [allocate]
  unfold takeSlot
  split <;> rfl

theorem free_allocate (vault : Vault) (parent : Handle) (path : String) :
    (vault.allocate parent path).2.free = vault.free.tail := by
  simp only [allocate]
  cases free : vault.free with
  | cons index rest => rw [takeSlot_of_cons free, List.tail_cons]
  | nil => rw [takeSlot_of_nil free, List.tail_nil, free]

theorem live_allocate (vault : Vault) (parent : Handle) (path : String) :
    (vault.allocate parent path).2.live = vault.live + 1 := by
  simp only [allocate]
  unfold takeSlot
  split <;> rfl

/-- A new record moves the generation of its slot on by one. -/
theorem generation_allocate (vault : Vault) (parent : Handle) (path : String) :
    (vault.allocate parent path).1.generation =
      vault.generationAt (vault.allocate parent path).1.slot + 1 := by
  rw [← generationAt_takeSlot]
  rfl

/-! ## Consistent stores -/

/-- What the store keeps beside its slots agrees with them. -/
structure Consistent (vault : Vault) : Prop where
  /-- No slot is free twice. -/
  free_nodup : vault.free.Nodup
  /-- The free slots are those that have been used and hold nothing. -/
  mem_free : ∀ index : UInt32, index ∈ vault.free ↔
    index.toNat < vault.slots.size ∧ vault.recordAt index.toNat = none
  /-- Slots that hold a record have odd generations, and the others even ones. -/
  parity : ∀ place, (vault.recordAt place).isSome = true ↔
    (vault.generationAt place).toNat % 2 = 1
  /-- The live records can be listed, and their number is kept. -/
  census : ∃ handles : List Handle, handles.Nodup ∧
    (∀ handle, handle ∈ handles ↔ vault.isLive handle = true) ∧ handles.length = vault.live

theorem Consistent.empty : Consistent .empty where
  free_nodup := List.nodup_nil
  mem_free index := by simp [Vault.empty]
  parity place := by simp [Vault.empty, recordAt, generationAt]
  census := ⟨[], List.nodup_nil, by simp [Vault.empty, isLive, record?], rfl⟩

/-- Only the slots, the free slots and the count of live records matter. -/
theorem Consistent.congr {vault other : Vault} (consistent : vault.Consistent)
    (slots : other.slots = vault.slots) (free : other.free = vault.free)
    (live : other.live = vault.live) : other.Consistent := by
  rcases vault with ⟨_, _, frames, roots, _, cells⟩
  rcases other with ⟨_, _, frames', roots', _, cells'⟩
  cases slots
  cases free
  cases live
  exact ⟨consistent.free_nodup, consistent.mem_free, consistent.parity, consistent.census⟩

namespace Consistent

variable {vault : Vault}

/-- The slot that is taken exists. -/
theorem takeSlot_lt_size (consistent : vault.Consistent) :
    vault.takeSlot.1.toNat < vault.takeSlot.2.slots.size := by
  cases free : vault.free with
  | cons index rest =>
      rw [takeSlot_of_cons free]
      exact ((consistent.mem_free index).1 (by simp [free])).1
  | nil =>
      rw [takeSlot_of_nil free, UInt32.toNat_ofNat', Array.size_push]
      exact Nat.lt_succ_of_le (Nat.mod_le _ _)

/-- It holds nothing, unless there are so many slots that its number has been cut. -/
theorem recordAt_takeSlot_fst (consistent : vault.Consistent) (fits : vault.takeSlot.2.Fits) :
    vault.recordAt vault.takeSlot.1.toNat = none := by
  cases free : vault.free with
  | cons index rest =>
      rw [takeSlot_of_cons free]
      exact ((consistent.mem_free index).1 (by simp [free])).2
  | nil =>
      rw [takeSlot_of_nil free, Fits, Array.size_push] at fits
      rw [takeSlot_of_nil free, UInt32.toNat_ofNat', Nat.mod_eq_of_lt (Nat.lt_of_succ_le fits)]
      simp [recordAt]

/-- A record is put where there was none. -/
theorem recordAt_allocate_slot (consistent : vault.Consistent) {parent : Handle} {path : String}
    (fits : (vault.allocate parent path).2.Fits) :
    vault.recordAt (vault.allocate parent path).1.slot = none := by
  refine consistent.recordAt_takeSlot_fst ?_
  rwa [Fits, size_slots_allocate] at fits

theorem slots_allocate (consistent : vault.Consistent) (parent : Handle) (path : String)
    (place : Nat) :
    (vault.allocate parent path).2.slots[place]? =
      if place = (vault.allocate parent path).1.slot then
        some ⟨(vault.allocate parent path).1.generation, some { path, parent }⟩
      else vault.takeSlot.2.slots[place]? := by
  have inside := consistent.takeSlot_lt_size
  by_cases same : place = (vault.allocate parent path).1.slot
  · rw [if_pos same, same]
    exact Array.getElem?_setIfInBounds_self_of_lt inside
  · rw [if_neg same]
    exact Array.getElem?_setIfInBounds_ne (Ne.symm same)

/-- A new record is found in its slot, and every other slot holds what it held. -/
theorem recordAt_allocate (consistent : vault.Consistent) (parent : Handle) (path : String)
    (place : Nat) :
    (vault.allocate parent path).2.recordAt place =
      if place = (vault.allocate parent path).1.slot then some { path, parent }
      else vault.recordAt place := by
  rw [← recordAt_takeSlot vault, recordAt, recordAt, consistent.slots_allocate]
  split <;> rfl

/-- The generation of a new record's slot is that of its handle, and the others are as before. -/
theorem generationAt_allocate (consistent : vault.Consistent) (parent : Handle) (path : String)
    (place : Nat) :
    (vault.allocate parent path).2.generationAt place =
      if place = (vault.allocate parent path).1.slot then
        (vault.allocate parent path).1.generation
      else vault.generationAt place := by
  rw [← generationAt_takeSlot vault, generationAt, generationAt, consistent.slots_allocate]
  split <;> rfl

variable {parent : Handle} {path : String}

/-- A handle just handed out denoted nothing before. -/
theorem record?_allocate_fst (consistent : vault.Consistent)
    (fits : (vault.allocate parent path).2.Fits) :
    vault.record? (vault.allocate parent path).1 = none := by
  apply Option.eq_none_iff_forall_ne_some.2
  intro record found
  have held := (record?_eq_some_iff.1 found).2.2
  rw [consistent.recordAt_allocate_slot fits] at held
  simp at held

/-- Handles that are handed out have odd generations. -/
theorem generation_allocate_odd (consistent : vault.Consistent)
    (fits : (vault.allocate parent path).2.Fits) :
    (vault.allocate parent path).1.generation.toNat % 2 = 1 := by
  have even := (consistent.parity (vault.allocate parent path).1.slot).not
  rw [consistent.recordAt_allocate_slot fits] at even
  rw [generation_allocate, UInt32.toNat_add]
  simp at even ⊢
  omega

/-- The new handle denotes the new record, and no other handle notices. -/
theorem record?_allocate (consistent : vault.Consistent)
    (fits : (vault.allocate parent path).2.Fits) (other : Handle) :
    (vault.allocate parent path).2.record? other =
      if other = (vault.allocate parent path).1 then some { path, parent }
      else vault.record? other := by
  have nonzero : (vault.allocate parent path).1.generation ≠ 0 := by
    intro zero
    have odd := consistent.generation_allocate_odd fits
    rw [zero] at odd
    simp at odd
  apply Option.ext
  intro result
  by_cases same : other = (vault.allocate parent path).1
  · simp [record?_eq_some_iff, consistent.recordAt_allocate, consistent.generationAt_allocate,
      same, nonzero]
  · by_cases sameSlot : other.slot = (vault.allocate parent path).1.slot
    · have otherGeneration :
          (vault.allocate parent path).1.generation ≠ other.generation :=
        fun sameGeneration => same (Handle.eq_of_slot_eq sameSlot sameGeneration.symm)
      simp [record?_eq_some_iff, consistent.recordAt_allocate,
        consistent.generationAt_allocate, same, sameSlot, otherGeneration,
        consistent.recordAt_allocate_slot fits]
    · simp [record?_eq_some_iff, consistent.recordAt_allocate, consistent.generationAt_allocate,
        same, sameSlot]

/-- Exactly the new handle comes to be live. -/
theorem isLive_allocate (consistent : vault.Consistent)
    (fits : (vault.allocate parent path).2.Fits) (other : Handle) :
    (vault.allocate parent path).2.isLive other = true ↔
      other = (vault.allocate parent path).1 ∨ vault.isLive other = true := by
  rw [isLive, consistent.record?_allocate fits]
  by_cases same : other = (vault.allocate parent path).1
  · simp [same]
  · simp [same, isLive]

end Consistent

/-- Exactly the freed handle ceases to be live. -/
theorem isLive_vacate {vault : Vault} {handle : Handle} (live : vault.isLive handle = true)
    (other : Handle) :
    (vault.vacate handle).isLive other = true ↔ other ≠ handle ∧ vault.isLive other = true := by
  rw [isLive, record?_vacate live]
  by_cases same : other = handle
  · simp [same]
  · simp [same, isLive]

/-- Changing a record neither frees nor creates anything. -/
theorem isLive_modify (vault : Vault) (handle : Handle) (change : Record → Record)
    (other : Handle) : (vault.modify handle change).isLive other = vault.isLive other := by
  rw [Bool.eq_iff_iff, isLive_iff_exists, isLive_iff_exists]
  simp only [record?_eq_some_iff, generationAt_modify, recordAt_modify]
  split
  · cases vault.recordAt other.slot <;> simp
  · rfl

namespace Consistent

variable {vault : Vault} {parent : Handle} {path : String}

/-- Changing a record keeps the store consistent. -/
theorem modify (consistent : vault.Consistent) (handle : Handle) (change : Record → Record) :
    (vault.modify handle change).Consistent where
  free_nodup := consistent.free_nodup
  mem_free index := by
    have sameFree := consistent.mem_free index
    rw [size_slots_modify, recordAt_modify]
    change index ∈ vault.free ↔ _
    split
    · simpa using sameFree
    · exact sameFree
  parity place := by
    rw [generationAt_modify, recordAt_modify, ← consistent.parity place]
    split
    · simp
    · rfl
  census := by
    obtain ⟨handles, nodup, members, count⟩ := consistent.census
    refine ⟨handles, nodup, ?_, count⟩
    intro other
    rw [isLive_modify]
    exact members other

/-- Freeing a live record keeps the store consistent. -/
theorem vacate (consistent : vault.Consistent) {handle : Handle}
    (live : vault.isLive handle = true) : (vault.vacate handle).Consistent where
  free_nodup := by
    refine List.nodup_cons.2 ⟨?_, consistent.free_nodup⟩
    intro member
    obtain ⟨record, found⟩ := isLive_iff_exists.1 live
    have held := (record?_eq_some_iff.1 found).2.2
    rw [Handle.slot, ((consistent.mem_free _).1 member).2] at held
    simp at held
  mem_free index := by
    have sameFree := consistent.mem_free index
    have bound := slot_lt_size_of_isLive live
    rw [size_slots_vacate, recordAt_vacate]
    change index ∈ handle.index :: vault.free ↔ _
    by_cases same : index = handle.index
    · subst same
      simpa [Handle.slot] using bound
    · have otherSlot : index.toNat ≠ handle.slot := fun equal => same (UInt32.toNat_inj.1 equal)
      simp [same, otherSlot, sameFree]
  parity place := by
    have held := consistent.parity place
    rw [generationAt_vacate live, recordAt_vacate]
    by_cases same : place = handle.slot
    · obtain ⟨record, found⟩ := isLive_iff_exists.1 live
      rw [same, (record?_eq_some_iff.1 found).2.2] at held
      simp only [same, if_true, UInt32.toNat_add]
      simp at held ⊢
      omega
    · simpa [same] using held
  census := by
    obtain ⟨handles, nodup, members, count⟩ := consistent.census
    refine ⟨handles.erase handle, nodup.erase handle, ?_, ?_⟩
    · intro other
      rw [nodup.mem_erase_iff, isLive_vacate live, members]
    · rw [List.length_erase_of_mem ((members handle).2 live), count]
      rfl

/-- That the numbers fit matters: once all of them are in use, the next record takes the place of
the one in the first slot. -/
theorem recordAt_zero_of_full (consistent : vault.Consistent) (free : vault.free = [])
    (full : vault.slots.size = UInt32.size) :
    (vault.allocate parent path).2.recordAt 0 = some { path, parent } := by
  have slot : (vault.allocate parent path).1.slot = vault.takeSlot.1.toNat := rfl
  rw [consistent.recordAt_allocate, slot, takeSlot_of_nil free, full]
  rfl

/-- The free slots are again those that hold nothing. -/
theorem mem_free_allocate (consistent : vault.Consistent)
    (fits : (vault.allocate parent path).2.Fits) (index : UInt32) :
    index ∈ (vault.allocate parent path).2.free ↔
      index.toNat < (vault.allocate parent path).2.slots.size ∧
        (vault.allocate parent path).2.recordAt index.toNat = none := by
  have sameFree := consistent.mem_free index
  have nodup := consistent.free_nodup
  have slot : (vault.allocate parent path).1.slot = vault.takeSlot.1.toNat := rfl
  rw [free_allocate, consistent.recordAt_allocate, size_slots_allocate, slot]
  rw [Fits, size_slots_allocate] at fits
  cases free : vault.free with
  | cons next rest =>
      rw [free] at sameFree nodup
      rw [takeSlot_of_cons free, List.tail_cons]
      by_cases same : index = next
      · simp [same, (List.nodup_cons.1 nodup).1]
      · have otherSlot : index.toNat ≠ next.toNat := fun equal => same (UInt32.toNat_inj.1 equal)
        simpa [same, otherSlot] using sameFree
  | nil =>
      rw [free] at sameFree
      rw [takeSlot_of_nil free, Array.size_push] at fits
      rw [takeSlot_of_nil free, UInt32.toNat_ofNat', Nat.mod_eq_of_lt (Nat.lt_of_succ_le fits)]
      by_cases same : index.toNat = vault.slots.size
      · simp [same]
      · have beyond : index.toNat < vault.slots.size + 1 ↔ index.toNat < vault.slots.size := by
          omega
        simpa [same, beyond] using sameFree

/-- There are no more live handles than are counted. -/
theorem length_le_live (consistent : vault.Consistent) {handles : List Handle}
    (distinct : handles.Nodup) (live : ∀ handle ∈ handles, vault.isLive handle = true) :
    handles.length ≤ vault.live := by
  obtain ⟨all, _, members, count⟩ := consistent.census
  rw [← count]
  exact (distinct.subperm fun handle member => (members handle).2 (live handle member)).length_le

/-- A record in a slot is denoted by the handle with the generation of the slot. -/
theorem record?_handleAt (consistent : vault.Consistent) (fits : vault.Fits) {place : Nat}
    {record : Record} (held : vault.recordAt place = some record) :
    vault.record? (vault.handleAt place) = some record := by
  have slot := slot_handleAt fits (lt_size_of_recordAt held)
  refine record?_eq_some_iff.2 ⟨fun zero => ?_, ?_, ?_⟩
  · have odd := (consistent.parity place).1 (held ▸ rfl)
    rw [show vault.generationAt place = 0 from zero] at odd
    cases odd
  · rw [slot]
    rfl
  · rw [slot, held]

/-- Where no slot is free, every slot holds a live record. -/
theorem size_slots_le_live (consistent : vault.Consistent) (fits : vault.Fits)
    (full : vault.free = []) : vault.slots.size ≤ vault.live := by
  have live (place : Nat) (inside : place < vault.slots.size) :
      vault.isLive (vault.handleAt place) = true := by
    cases held : vault.recordAt place with
    | some record => exact isLive_of_record? (consistent.record?_handleAt fits held)
    | none =>
        have number : (UInt32.ofNat place).toNat = place := slot_handleAt fits inside
        have isFree := (consistent.mem_free (.ofNat place)).2
          ⟨number.symm ▸ inside, number.symm ▸ held⟩
        rw [full] at isFree
        cases isFree
  have distinct : ((List.range vault.slots.size).map vault.handleAt).Nodup := by
    refine List.nodup_range.map_on fun first firstInside second secondInside same => ?_
    rw [← slot_handleAt fits (List.mem_range.1 firstInside),
      ← slot_handleAt fits (List.mem_range.1 secondInside), same]
  have bound := consistent.length_le_live distinct fun other member => by
    obtain ⟨place, inside, rfl⟩ := List.mem_map.1 member
    exact live place (List.mem_range.1 inside)
  simpa using bound

/-- A record can be created as long as not all numbers are taken by live records. -/
theorem fits_allocate (consistent : vault.Consistent) (fits : vault.Fits)
    (room : vault.live < UInt32.size) : (vault.allocate parent path).2.Fits := by
  rw [Fits, size_slots_allocate]
  cases free : vault.free with
  | cons index rest =>
      rw [takeSlot_of_cons free]
      exact fits
  | nil =>
      rw [takeSlot_of_nil free, Array.size_push]
      exact (consistent.size_slots_le_live fits free).trans_lt room

/-- Creating a record keeps the store consistent as long as the numbers of the slots fit. -/
theorem allocate (consistent : vault.Consistent) (fits : (vault.allocate parent path).2.Fits) :
    (vault.allocate parent path).2.Consistent where
  free_nodup := by
    rw [free_allocate]
    exact consistent.free_nodup.tail
  mem_free := consistent.mem_free_allocate fits
  parity place := by
    rw [consistent.recordAt_allocate, consistent.generationAt_allocate]
    split
    · simp [consistent.generation_allocate_odd fits]
    · exact consistent.parity place
  census := by
    obtain ⟨handles, nodup, members, count⟩ := consistent.census
    refine ⟨(vault.allocate parent path).1 :: handles, ?_, ?_, ?_⟩
    · refine List.nodup_cons.2 ⟨?_, nodup⟩
      rw [members, isLive, consistent.record?_allocate_fst fits]
      simp
    · intro other
      rw [List.mem_cons, members, consistent.isLive_allocate fits]
    · rw [List.length_cons, count, live_allocate]

end Consistent

end Vault
end ScopeScript
