import Mathlib.Algebra.Group.Nat.Defs
import ScopeScript.Proofs.Vault.History

/-!
# Handles are never used again

The generation of a slot counts how often the slot has been filled and emptied, up to the width of
the word. `Accounted` states this against the handles that have been handed out: a slot that was
used `n` times is at generation `2 * n`, or one below while it holds a record, and the handle of the
`n`-th use carries the generation `2 * n - 1`.

While no slot is used `2 ^ 31` times the words do not run over. So handles differ, and a handle
whose record has been freed is not live again, because the count of its slot never goes back
(`stale_handles_stay_stale`).
-/

namespace ScopeScript
namespace Vault
namespace History

/-- How often a slot has been used. -/
def uses (issued : List Handle) (place : Nat) : Nat :=
  issued.countP (·.slot == place)

@[simp] theorem uses_nil (place : Nat) : uses [] place = 0 := rfl

/-- A handle that is issued is one more use of its slot. -/
theorem uses_cons (handle : Handle) (issued : List Handle) (place : Nat) :
    uses (handle :: issued) place = uses issued place + if place = handle.slot then 1 else 0 := by
  by_cases same : place = handle.slot
  · simp [uses, same]
  · simp [uses, same, Ne.symm same]

/-- Handles carry the number of their use of the slot. -/
def Numbered : List Handle → Prop
  | [] => True
  | handle :: earlier =>
      handle.generation.toNat = (2 * uses earlier handle.slot + 1) % 2 ^ 32 ∧ Numbered earlier

namespace Numbered

/-- Handles of a slot are numbered below the count of its uses. -/
theorem exists_use {issued : List Handle} (numbered : Numbered issued) {handle : Handle}
    (member : handle ∈ issued) :
    ∃ use < uses issued handle.slot, handle.generation.toNat = (2 * use + 1) % 2 ^ 32 := by
  induction issued with
  | nil => simp at member
  | cons newest earlier inductionHypothesis =>
      rw [uses_cons]
      rcases List.mem_cons.1 member with rfl | older
      · exact ⟨uses earlier handle.slot, by simp, numbered.1⟩
      · obtain ⟨use, below, generation⟩ := inductionHypothesis numbered.2 older
        exact ⟨use, Nat.lt_add_right _ below, generation⟩

/-- Handles that are issued have odd generations. -/
theorem odd {issued : List Handle} (numbered : Numbered issued) {handle : Handle}
    (member : handle ∈ issued) : handle.generation.toNat % 2 = 1 := by
  obtain ⟨use, _, generation⟩ := numbered.exists_use member
  omega

/-- Numbers that do not run over tell the handles apart. -/
theorem nodup {issued : List Handle} (numbered : Numbered issued)
    (seldom : ∀ place, uses issued place < 2 ^ 31) : issued.Nodup := by
  induction issued with
  | nil => exact List.nodup_nil
  | cons newest earlier inductionHypothesis =>
      have below : ∀ place, uses earlier place ≤ uses (newest :: earlier) place := by
        intro place
        rw [uses_cons]
        exact Nat.le_add_right _ _
      refine List.nodup_cons.2
        ⟨?_, inductionHypothesis numbered.2 fun place => (below place).trans_lt (seldom place)⟩
      intro again
      obtain ⟨use, earlierUse, generation⟩ := numbered.2.exists_use again
      have newestGeneration := numbered.1
      have few := (below newest.slot).trans_lt (seldom newest.slot)
      omega

end Numbered

/-- Whether a slot holds a record, as a number. -/
def held (vault : Vault) (place : Nat) : Nat :=
  if (vault.recordAt place).isSome then 1 else 0

/-- Changing a record neither fills nor empties a slot. -/
theorem held_modify (vault : Vault) (handle : Handle) (change : Record → Record) (place : Nat) :
    held (vault.modify handle change) place = held vault place := by
  unfold held
  rw [recordAt_modify]
  split <;> simp

/-- Freeing empties the slot of the handle. -/
theorem held_vacate (vault : Vault) (handle : Handle) (place : Nat) :
    held (vault.vacate handle) place = if place = handle.slot then 0 else held vault place := by
  unfold held
  rw [recordAt_vacate]
  split <;> simp

/-- The slot of a live handle is taken. -/
theorem held_of_isLive {vault : Vault} {handle : Handle} (live : vault.isLive handle = true) :
    held vault handle.slot = 1 := by
  obtain ⟨record, found⟩ := isLive_iff_exists.1 live
  simp [held, (record?_eq_some_iff.1 found).2.2]

/-- Exactly the slot of the new handle comes to be taken. -/
theorem held_allocate {vault : Vault} (consistent : vault.Consistent) (parent : Handle)
    (path : String) (place : Nat) :
    held (vault.allocate parent path).2 place =
      if place = (vault.allocate parent path).1.slot then 1 else held vault place := by
  unfold held
  rw [consistent.recordAt_allocate]
  split <;> simp

/-- The slot of a new record was empty before. -/
theorem held_allocate_slot {vault : Vault} (consistent : vault.Consistent) {parent : Handle}
    {path : String} (fits : (vault.allocate parent path).2.Fits) :
    held vault (vault.allocate parent path).1.slot = 0 := by
  simp [held, consistent.recordAt_allocate_slot fits]

/-- How often a slot has been filled or emptied. -/
def turns (history : History) (place : Nat) : Nat :=
  2 * uses history.issued place - held history.vault place

/-- The generations agree with the handles that have been handed out. -/
structure Accounted (history : History) : Prop where
  consistent : history.vault.Consistent
  numbered : Numbered history.issued
  /-- A slot has the generation of its uses, less one while it holds a record. -/
  generation : ∀ place,
    ((history.vault.generationAt place).toNat + held history.vault place) % 2 ^ 32 =
      2 * uses history.issued place % 2 ^ 32
  live_issued : ∀ handle, history.vault.isLive handle = true → handle ∈ history.issued

namespace Accounted

/-- No handle has been issued at the beginning. -/
theorem start : Accounted start where
  consistent := .empty
  numbered := trivial
  generation place := by simp [History.start, Vault.empty, generationAt, held, recordAt]
  live_issued handle live := by simp [History.start, Vault.empty, isLive, record?] at live

variable {vault : Vault} {issued : List Handle}

/-- Changing a record needs no account. -/
theorem modify (accounted : Accounted ⟨vault, issued⟩) (handle : Handle)
    (change : Record → Record) : Accounted ⟨vault.modify handle change, issued⟩ where
  consistent := accounted.consistent.modify handle change
  numbered := accounted.numbered
  generation place := by
    rw [generationAt_modify, held_modify]
    exact accounted.generation place
  live_issued other live := accounted.live_issued other (by rwa [isLive_modify] at live)

/-- What does not concern the slots needs no account. -/
theorem outside (accounted : Accounted ⟨vault, issued⟩) {after : Vault}
    (slots : after.slots = vault.slots) (free : after.free = vault.free)
    (live : after.live = vault.live) : Accounted ⟨after, issued⟩ where
  consistent := accounted.consistent.congr slots free live
  numbered := accounted.numbered
  generation place := by
    simp only [generationAt, held, recordAt, slots]
    exact accounted.generation place
  live_issued handle alive := accounted.live_issued handle (by
    simpa only [isLive, record?, slots] using alive)

/-- A freed record has turned its slot on once more. -/
theorem vacate (accounted : Accounted ⟨vault, issued⟩) {handle : Handle}
    (live : vault.isLive handle = true) : Accounted ⟨vault.vacate handle, issued⟩ where
  consistent := accounted.consistent.vacate live
  numbered := accounted.numbered
  generation place := by
    have before := accounted.generation place
    rw [generationAt_vacate live, held_vacate]
    by_cases same : place = handle.slot
    · -- The record of the slot gives way to one more generation.
      simp only [same, held_of_isLive live] at before
      simp only [same, if_true, UInt32.toNat_add, UInt32.toNat_one]
      omega
    · simpa only [same, if_false] using before
  live_issued other alive := accounted.live_issued other ((isLive_vacate live other).1 alive).2

/-- A new handle is accounted for, as long as the numbers of the slots fit. -/
theorem allocate (accounted : Accounted ⟨vault, issued⟩) {parent : Handle} {path : String}
    (fits : (vault.allocate parent path).2.Fits) :
    Accounted ⟨(vault.allocate parent path).2, (vault.allocate parent path).1 :: issued⟩ := by
  have consistent := accounted.consistent
  have reached : (vault.allocate parent path).1.generation.toNat =
      (2 * uses issued (vault.allocate parent path).1.slot + 1) % 2 ^ 32 := by
    have before := accounted.generation (vault.allocate parent path).1.slot
    simp only [held_allocate_slot consistent fits] at before
    rw [generation_allocate, UInt32.toNat_add, UInt32.toNat_one]
    omega
  refine ⟨consistent.allocate fits, ⟨reached, accounted.numbered⟩, ?_, ?_⟩
  · intro place
    have before := accounted.generation place
    simp only [held_allocate consistent, consistent.generationAt_allocate, uses_cons]
    by_cases same : place = (vault.allocate parent path).1.slot
    · simp only [same, if_true, reached]
      omega
    · simpa only [same, if_false, Nat.add_zero] using before
  · intro other alive
    rcases (consistent.isLive_allocate fits other).1 alive with rfl | earlier
    · exact List.mem_cons_self
    · exact List.mem_cons_of_mem _ (accounted.live_issued other earlier)

end Accounted

namespace Change

variable {before after : History}

/-- Slots are not given back. -/
theorem widens (change : Change before after) : before.vault.Widens after.vault := by
  cases change with
  | allocate parent path => exact widens_allocate _ parent path
  | shift shift =>
      cases shift with
      | vacate live => exact (size_slots_vacate _ _).ge
      | modify handle change => exact (size_slots_modify _ handle change).ge
      | outside slots free live => exact (congrArg Array.size slots).ge

/-- Each change keeps the account. -/
theorem accounted (change : Change before after) (fits : after.vault.Fits)
    (accounted : Accounted before) : Accounted after := by
  cases change with
  | allocate parent path => exact accounted.allocate fits
  | shift shift =>
      cases shift with
      | vacate live => exact accounted.vacate live
      | modify handle change => exact accounted.modify handle change
      | outside slots free live => exact accounted.outside slots free live

/-- Handles that were issued remain issued. -/
theorem issued_subset (change : Change before after) : before.issued ⊆ after.issued := by
  cases change with
  | allocate parent path => exact List.subset_cons_self _ _
  | shift shift => exact List.Subset.refl _

/-- The count of a slot never goes back. -/
theorem turns_le (change : Change before after) (fits : after.vault.Fits)
    (accounted : Accounted before) (place : Nat) : before.turns place ≤ after.turns place := by
  cases change with
  | @allocate vault issued parent path =>
      have vacant := held_allocate_slot accounted.consistent fits
      simp only [turns, uses_cons, held_allocate accounted.consistent]
      by_cases same : place = (vault.allocate parent path).1.slot
      · simp only [same, vacant, if_true]
        omega
      · simp [same]
  | shift shift =>
      cases shift with
      | vacate live =>
          simp only [turns, held_vacate]
          split <;> omega
      | modify handle change => simp only [turns, held_modify, Nat.le_refl]
      | outside slots free live =>
          simp only [turns, held, recordAt, slots]
          exact Nat.le_refl _

end Change

namespace Changes

variable {before after : History}

/-- No change gives slots back. -/
theorem widens (changes : Changes before after) : before.vault.Widens after.vault := by
  induction changes with
  | refl => exact .refl _
  | tail _ change inductionHypothesis => exact inductionHypothesis.trans change.widens

/-- A run keeps the account as long as the numbers of the slots fit at its end. -/
theorem accounted (changes : Changes before after) (fits : after.vault.Fits)
    (accounted : Accounted before) : Accounted after := by
  induction changes with
  | refl => exact accounted
  | tail _ change inductionHypothesis =>
      exact change.accounted fits (inductionHypothesis (change.widens.fits fits))

theorem issued_subset (changes : Changes before after) : before.issued ⊆ after.issued := by
  induction changes with
  | refl => exact List.Subset.refl _
  | tail _ change inductionHypothesis =>
      exact List.Subset.trans inductionHypothesis change.issued_subset

/-- Slots only turn on. -/
theorem turns_le (changes : Changes before after) (fits : after.vault.Fits)
    (accounted : Accounted before) (place : Nat) : before.turns place ≤ after.turns place := by
  induction changes with
  | refl => exact Nat.le_refl _
  | tail earlier change inductionHypothesis =>
      have fitted := change.widens.fits fits
      have middle := Changes.accounted earlier fitted accounted
      exact (inductionHypothesis fitted).trans (change.turns_le fits middle place)

end Changes

/-- A live handle has the number of the latest use of its slot. -/
theorem Accounted.generation_of_isLive {history : History} (accounted : Accounted history)
    {handle : Handle} (live : history.vault.isLive handle = true) :
    (handle.generation.toNat + 1) % 2 ^ 32 =
      2 * uses history.issued handle.slot % 2 ^ 32 := by
  obtain ⟨record, found⟩ := isLive_iff_exists.1 live
  have reached := accounted.generation handle.slot
  rwa [(record?_eq_some_iff.1 found).2.1, held_of_isLive live] at reached

/-- In a slot that holds a record, a handle of the slot's generation is live. -/
theorem Accounted.isLive_of_held {history : History} (accounted : Accounted history)
    {handle : Handle} (filled : held history.vault handle.slot = 1)
    (same : history.vault.generationAt handle.slot = handle.generation) :
    history.vault.isLive handle = true := by
  unfold held at filled
  split at filled
  case isTrue present =>
    obtain ⟨record, kept⟩ := Option.isSome_iff_exists.1 present
    have odd := (accounted.consistent.parity handle.slot).1 present
    refine isLive_of_record? (record?_eq_some_iff.2 ⟨?_, same, kept⟩)
    intro zero
    rw [same, zero] at odd
    simp at odd
  case isFalse => simp at filled

/-- A handle that was handed out and is not live is not live later either. -/
theorem Accounted.not_isLive_later {earlier later : History} (accounted : Accounted earlier)
    (changes : Changes earlier later) (fits : later.vault.Fits)
    (seldom : ∀ place, uses later.issued place < 2 ^ 31)
    {handle : Handle} (member : handle ∈ earlier.issued)
    (stale : earlier.vault.isLive handle = false) : later.vault.isLive handle = false := by
  rw [Bool.eq_false_iff]
  intro live
  obtain ⟨use, below, generation⟩ := accounted.numbered.exists_use member
  have latest := (changes.accounted fits accounted).generation_of_isLive live
  have forward := changes.turns_le fits accounted handle.slot
  have reached := accounted.generation handle.slot
  have few := seldom handle.slot
  have laterHeld := held_of_isLive live
  simp only [turns, laterHeld] at forward
  -- The slot has not been used again in between, so it has held the same record all the time.
  have filled : held earlier.vault handle.slot = 1 := by
    have atMostOne : held earlier.vault handle.slot ≤ 1 := by
      unfold held
      split <;> simp
    omega
  have same : earlier.vault.generationAt handle.slot = handle.generation := by
    apply UInt32.toNat_inj.1
    have bound := (earlier.vault.generationAt handle.slot).toNat_lt
    rw [filled] at reached
    omega
  rw [accounted.isLive_of_held filled same] at stale
  contradiction

end History

/-- A handle that is not live is refused as stale by all operations that take one, and the store
stays as it is. -/
theorem refused_of_not_isLive {vault : Vault} {handle : Handle}
    (stale : vault.isLive handle = false) :
    ∃ diagnostic : Diagnostic, diagnostic.kind = .staleHandle ∧
      enterNamed handle vault = (.failed diagnostic, vault) ∧
      (∀ name value, defineIn handle name value vault = (.failed diagnostic, vault)) ∧
      (∀ name, createOwned handle name vault = (.failed diagnostic, vault)) ∧
      (∀ name, vault.lookup handle name = .error diagnostic) ∧
      vault.bindings handle = .error diagnostic := by
  have missing : vault.record? handle = none := by
    simpa [isLive] using stale
  obtain ⟨diagnostic, refused, kind⟩ := find_of_none missing
  refine ⟨diagnostic, kind, enterNamed_of_none refused, fun name value => ?_, fun name => ?_,
    fun name => ?_, ?_⟩
  · exact defineIn_of_none name value refused
  · exact createOwned_of_none name refused
  · rw [lookup, refused]
    rfl
  · rw [bindings, refused]
    rfl

/-- However a store is used, as long as no slot is used `2 ^ 31` times and the numbers of the slots
fit: the handles it hands out differ, are not null and have odd generations; a handle is not live
again once its record has been freed; and handles that are null, out of range or were never handed
out are not live. All handles that are not live are refused as stale, and the store stays as it is.
-/
theorem stale_handles_stay_stale {first second third : History}
    (begun : History.start.Leads first) (freed : first.Leads second)
    (continued : second.Leads third)
    (seldom : ∀ place, History.uses third.issued place < 2 ^ 31) (fits : third.vault.Fits) :
    third.issued.Nodup ∧
      (∀ handle ∈ third.issued, handle ≠ .zero ∧ handle.generation.toNat % 2 = 1) ∧
      (∀ handle, first.vault.isLive handle = true → second.vault.isLive handle = false →
        third.vault.isLive handle = false) ∧
      (∀ handle, handle.isNull = true ∨ third.vault.slots.size ≤ handle.slot ∨
        handle ∉ third.issued → third.vault.isLive handle = false) ∧
      ∀ handle, third.vault.isLive handle = false →
        ∃ diagnostic : Diagnostic, diagnostic.kind = .staleHandle ∧
          enterNamed handle third.vault = (.failed diagnostic, third.vault) ∧
          (∀ name value,
            defineIn handle name value third.vault = (.failed diagnostic, third.vault)) ∧
          (∀ name, createOwned handle name third.vault = (.failed diagnostic, third.vault)) ∧
          (∀ name, third.vault.lookup handle name = .error diagnostic) ∧
          third.vault.bindings handle = .error diagnostic := by
  have secondFits := continued.changes.widens.fits fits
  have firstAccounted := begun.changes.accounted (freed.changes.widens.fits secondFits) .start
  have secondAccounted := freed.changes.accounted secondFits firstAccounted
  have accounted := continued.changes.accounted fits secondAccounted
  refine ⟨accounted.numbered.nodup seldom, ?_, ?_, ?_, fun handle => refused_of_not_isLive⟩
  · intro handle member
    have odd := accounted.numbered.odd member
    refine ⟨?_, odd⟩
    rintro rfl
    simp [Handle.zero] at odd
  · intro handle live stale
    have member := freed.changes.issued_subset (firstAccounted.live_issued handle live)
    exact secondAccounted.not_isLive_later continued.changes fits seldom member stale
  · intro handle invalid
    rw [Bool.eq_false_iff]
    intro live
    rcases invalid with null | beyond | unissued
    · simp [isLive, record?, null] at live
    · exact absurd (slot_lt_size_of_isLive live) (Nat.not_lt.2 beyond)
    · exact unissued (accounted.live_issued handle live)

/-- A block is left and another one entered in its slot: the handle of the first block stays
stale. -/
theorem left_block_stays_stale :
    ∃ first second third : History,
      History.start.Leads first ∧ first.Leads second ∧ second.Leads third ∧
      (∀ place, History.uses third.issued place < 2 ^ 31) ∧
      third.issued = [⟨0, 3⟩, ⟨0, 1⟩] ∧ third.vault.isLive ⟨0, 3⟩ = true ∧
      third.vault.isLive ⟨0, 1⟩ = false := by
  let first := History.start.perform .enterBlock
  let second := first.perform .exitBlock
  have entered : History.start.Leads first := .single (.perform .enterBlock (by rintro ⟨⟩))
  have left : first.Leads second := .single (.perform .exitBlock (by rintro ⟨⟩))
  have again : second.Leads (second.perform .enterBlock) :=
    .single (.perform .enterBlock (by rintro ⟨⟩))
  have seldom : ∀ place, History.uses [⟨0, 3⟩, ⟨0, 1⟩] place < 2 ^ 31 := by
    intro place
    have short : History.uses [⟨0, 3⟩, ⟨0, 1⟩] place ≤ 2 := List.countP_le_length
    omega
  obtain ⟨_, _, stays, _⟩ := stale_handles_stay_stale entered left again seldom (by decide)
  exact ⟨_, _, _, entered, left, again, seldom, rfl, rfl, stays ⟨0, 1⟩ rfl rfl⟩

end Vault
end ScopeScript
