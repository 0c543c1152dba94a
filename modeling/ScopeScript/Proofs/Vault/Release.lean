import Mathlib.Logic.Relation
import ScopeScript.Proofs.Vault.Slots

/-!
# Freeing a record with everything it owns

Freeing a record frees what it owns first. Here this is compared with the relation of owning: a
record is freed exactly if a chain of owners leads to it, and the rest of the store is left as it
was (`releaseWithin_pruned`).

Freeing ends if the owners can be ranked, whatever the numbers are (`exists_releaseWithin`), and
conversely no record that was freed can have owned itself (`not_transGen_of_releaseWithin`). The
second fact holds of every store, and because of it each record is live at the moment it is freed
(`releaseWithin_vacates`).
-/

namespace ScopeScript
namespace Vault

/-- A live record lists a scope as its own. -/
def Owns (vault : Vault) (owner scope : Handle) : Prop :=
  ∃ record, vault.record? owner = some record ∧ scope ∈ record.owned

/-- A chain of owners, possibly empty, leads from a scope to another one. -/
def Below (vault : Vault) : Handle → Handle → Prop :=
  Relation.ReflTransGen vault.Owns

/-- A store is left over from another one that has lost some of its records. -/
def Pruned (vault : Vault) (gone : Handle → Prop) (rest : Vault) : Prop :=
  ∀ handle record, rest.record? handle = some record ↔
    vault.record? handle = some record ∧ ¬gone handle

/-- A record is freed while it is live. -/
def Vacates (vault rest : Vault) : Prop :=
  ∃ handle, vault.isLive handle = true ∧ rest = vault.vacate handle

/-- Free scopes in turn, each with everything it owns. -/
def releaseEachWithin (bound : Nat) (scopes : List Handle) (vault : Vault) : Option Vault :=
  scopes.foldlM (fun vault scope => releaseWithin bound scope vault) vault

theorem releaseEachWithin_cons {bound : Nat} {scope : Handle} {scopes : List Handle}
    {vault rest : Vault} :
    releaseEachWithin bound (scope :: scopes) vault = some rest ↔
      ∃ middle, releaseWithin bound scope vault = some middle ∧
        releaseEachWithin bound scopes middle = some rest :=
  Option.bind_eq_some_iff

theorem releaseWithin_succ_of_none {bound : Nat} {handle : Handle} {vault : Vault}
    (missing : vault.record? handle = none) :
    releaseWithin (bound + 1) handle vault = some vault := by
  rw [releaseWithin, missing]

theorem releaseWithin_succ_of_some {bound : Nat} {handle : Handle} {vault rest : Vault}
    {record : Record} (found : vault.record? handle = some record) :
    releaseWithin (bound + 1) handle vault = some rest ↔
      ∃ middle, releaseEachWithin bound record.owned vault = some middle ∧
        middle.vacate handle = rest := by
  rw [releaseWithin, found]
  exact Option.map_eq_some_iff

theorem below_iff {vault : Vault} {handle other : Handle} {record : Record}
    (found : vault.record? handle = some record) :
    vault.Below handle other ↔
      other = handle ∨ ∃ scope ∈ record.owned, vault.Below scope other := by
  rw [Below, Relation.ReflTransGen.cases_head_iff]
  refine or_congr eq_comm ?_
  constructor
  · rintro ⟨scope, ⟨record', found', member⟩, chain⟩
    cases Option.some.inj (found.symm.trans found')
    exact ⟨scope, member, chain⟩
  · rintro ⟨scope, member, chain⟩
    exact ⟨scope, ⟨record, found, member⟩, chain⟩

namespace Pruned

variable {vault rest : Vault} {gone : Handle → Prop}

theorem isLive_iff (pruned : vault.Pruned gone rest) (handle : Handle) :
    rest.isLive handle = true ↔ vault.isLive handle = true ∧ ¬gone handle := by
  simp only [isLive_iff_exists, pruned handle, exists_and_right]

theorem owns_iff (pruned : vault.Pruned gone rest) (owner scope : Handle) :
    rest.Owns owner scope ↔ vault.Owns owner scope ∧ ¬gone owner := by
  unfold Owns
  constructor
  · rintro ⟨record, found, member⟩
    exact ⟨⟨record, ((pruned owner record).1 found).1, member⟩, ((pruned owner record).1 found).2⟩
  · rintro ⟨⟨record, found, member⟩, kept⟩
    exact ⟨record, (pruned owner record).2 ⟨found, kept⟩, member⟩

theorem below_of_below (pruned : vault.Pruned gone rest) {handle other : Handle}
    (chain : rest.Below handle other) : vault.Below handle other :=
  Relation.ReflTransGen.mono (fun owner scope owns => ((pruned.owns_iff owner scope).1 owns).1)
    handle other chain

/-- A chain of owners is still there if its end is and only whole chains have been lost. -/
theorem below_of_not_gone (pruned : vault.Pruned gone rest)
    (closed : ∀ {owner scope}, gone owner → vault.Owns owner scope → gone scope)
    {handle other : Handle} (chain : vault.Below handle other) (kept : ¬gone other) :
    rest.Below handle other := by
  induction chain with
  | refl => exact .refl
  | tail earlier owns inductionHypothesis =>
      have ownerKept := fun lost => kept (closed lost owns)
      exact .tail (inductionHypothesis ownerKept) ((pruned.owns_iff _ _).2 ⟨owns, ownerKept⟩)

end Pruned

/-- Freeing scopes in turn loses what is below one of them. -/
private theorem releaseEachWithin_pruned {bound : Nat}
    (one : ∀ {handle : Handle} {vault rest : Vault},
      releaseWithin bound handle vault = some rest → vault.Pruned (vault.Below handle) rest)
    (scopes : List Handle) {vault rest : Vault}
    (freed : releaseEachWithin bound scopes vault = some rest) :
    vault.Pruned (fun handle => ∃ scope ∈ scopes, vault.Below scope handle) rest := by
  induction scopes generalizing vault with
  | nil =>
      cases freed
      intro handle record
      simp
  | cons scope scopes inductionHypothesis =>
      obtain ⟨middle, freedOne, freedRest⟩ := releaseEachWithin_cons.1 freed
      have first := one freedOne
      have later := inductionHypothesis freedRest
      intro handle record
      rw [later handle record, first handle record, and_assoc]
      refine and_congr_right fun _ => ?_
      simp only [List.exists_mem_cons_iff, not_or]
      refine and_congr_right fun kept => not_congr ?_
      -- What is not below the first scope is below a later one before exactly if it is after.
      constructor
      · rintro ⟨other, member, chain⟩
        exact ⟨other, member, first.below_of_below chain⟩
      · rintro ⟨other, member, chain⟩
        exact ⟨other, member, first.below_of_not_gone (fun lost owns => .tail lost owns) chain kept⟩

/-- Freeing a record loses what is below it and nothing else. -/
theorem releaseWithin_pruned {bound : Nat} {handle : Handle} {vault rest : Vault}
    (freed : releaseWithin bound handle vault = some rest) :
    vault.Pruned (vault.Below handle) rest := by
  induction bound generalizing handle vault rest with
  | zero => simp [releaseWithin] at freed
  | succ bound inductionHypothesis =>
      cases found : vault.record? handle with
      | none =>
          rw [releaseWithin_succ_of_none found] at freed
          cases freed
          intro other record
          refine (and_iff_left_of_imp fun otherFound chain => ?_).symm
          rcases Relation.ReflTransGen.cases_head chain with same | ⟨_, ⟨_, found', _⟩, _⟩
          · rw [← same, found] at otherFound
            simp at otherFound
          · rw [found] at found'
            simp at found'
      | some record =>
          obtain ⟨middle, freedOwned, rfl⟩ := (releaseWithin_succ_of_some found).1 freed
          have owned := releaseEachWithin_pruned inductionHypothesis record.owned freedOwned
          intro other result
          rw [record?_vacate_eq_some_iff, owned other result, below_iff found, not_or]
          constructor
          · rintro ⟨otherSlot, otherFound, kept⟩
            exact ⟨otherFound, fun same => otherSlot (congrArg _ same), kept⟩
          · rintro ⟨otherFound, different, kept⟩
            refine ⟨fun sameSlot => different ?_, otherFound, kept⟩
            exact eq_of_isLive_of_slot_eq (isLive_of_record? otherFound)
              (isLive_of_record? found) sameSlot

/-- If the scopes of one owner could be freed in turn, none of them leads back to the owner. -/
private theorem not_below_of_releaseEachWithin {bound : Nat}
    (one : ∀ {handle : Handle} {vault rest : Vault},
      releaseWithin bound handle vault = some rest → ¬Relation.TransGen vault.Owns handle handle)
    (scopes : List Handle) {owner : Handle} {vault rest : Vault}
    (owned : ∀ scope ∈ scopes, vault.Owns owner scope)
    (freed : releaseEachWithin bound scopes vault = some rest) :
    ∀ scope ∈ scopes, ¬vault.Below scope owner := by
  induction scopes generalizing vault with
  | nil => simp
  | cons first scopes inductionHypothesis =>
      obtain ⟨middle, freedFirst, freedRest⟩ := releaseEachWithin_cons.1 freed
      have firstNot : ¬vault.Below first owner := fun chain =>
        one freedFirst (.tail' chain (owned first List.mem_cons_self))
      have pruned := releaseWithin_pruned freedFirst
      have ownedLater : ∀ scope ∈ scopes, middle.Owns owner scope := fun scope member =>
        (pruned.owns_iff owner scope).2 ⟨owned scope (List.mem_cons_of_mem _ member), firstNot⟩
      intro scope member chain
      rcases List.mem_cons.1 member with rfl | later
      · exact firstNot chain
      · exact inductionHypothesis ownedLater freedRest scope later
          (pruned.below_of_not_gone (fun lost owns => .tail lost owns) chain firstNot)

/-- Freeing a record that owns itself, directly or not, would not end. -/
theorem not_transGen_of_releaseWithin {bound : Nat} {handle : Handle} {vault rest : Vault}
    (freed : releaseWithin bound handle vault = some rest) :
    ¬Relation.TransGen vault.Owns handle handle := by
  induction bound generalizing handle vault rest with
  | zero => simp [releaseWithin] at freed
  | succ bound inductionHypothesis =>
      intro cycle
      obtain ⟨scope, ⟨record, found, member⟩, chain⟩ := Relation.TransGen.head'_iff.1 cycle
      obtain ⟨middle, freedOwned, _⟩ := (releaseWithin_succ_of_some found).1 freed
      exact not_below_of_releaseEachWithin inductionHypothesis record.owned
        (fun other otherMember => ⟨record, found, otherMember⟩) freedOwned scope member chain

private theorem releaseEachWithin_vacates {bound : Nat}
    (one : ∀ {handle : Handle} {vault rest : Vault},
      releaseWithin bound handle vault = some rest → Relation.ReflTransGen Vacates vault rest)
    (scopes : List Handle) {vault rest : Vault}
    (freed : releaseEachWithin bound scopes vault = some rest) :
    Relation.ReflTransGen Vacates vault rest := by
  induction scopes generalizing vault with
  | nil =>
      cases freed
      exact .refl
  | cons scope scopes inductionHypothesis =>
      obtain ⟨middle, freedOne, freedRest⟩ := releaseEachWithin_cons.1 freed
      exact (one freedOne).trans (inductionHypothesis freedRest)

/-- Freeing a record is a sequence of steps that free one live record each. -/
theorem releaseWithin_vacates {bound : Nat} {handle : Handle} {vault rest : Vault}
    (freed : releaseWithin bound handle vault = some rest) :
    Relation.ReflTransGen Vacates vault rest := by
  induction bound generalizing handle vault rest with
  | zero => simp [releaseWithin] at freed
  | succ bound inductionHypothesis =>
      have noCycle := not_transGen_of_releaseWithin freed
      cases found : vault.record? handle with
      | none =>
          rw [releaseWithin_succ_of_none found] at freed
          cases freed
          exact .refl
      | some record =>
          obtain ⟨middle, freedOwned, rfl⟩ := (releaseWithin_succ_of_some found).1 freed
          have stillLive : middle.isLive handle = true := by
            rw [(releaseEachWithin_pruned releaseWithin_pruned record.owned freedOwned).isLive_iff]
            refine ⟨isLive_of_record? found, ?_⟩
            rintro ⟨scope, member, chain⟩
            exact noCycle (.head' ⟨record, found, member⟩ chain)
          exact .tail (releaseEachWithin_vacates inductionHypothesis record.owned freedOwned)
            ⟨handle, stillLive, rfl⟩

private theorem exists_releaseEachWithin {whole : Vault} {bound : Nat} (scopes : List Handle)
    (one : ∀ scope ∈ scopes, ∀ vault : Vault,
      (∀ {other record}, vault.record? other = some record → whole.record? other = some record) →
        ∃ rest, releaseWithin bound scope vault = some rest)
    (vault : Vault)
    (part : ∀ {other record}, vault.record? other = some record →
      whole.record? other = some record) :
    ∃ rest, releaseEachWithin bound scopes vault = some rest := by
  induction scopes generalizing vault with
  | nil => exact ⟨vault, rfl⟩
  | cons scope scopes inductionHypothesis =>
      obtain ⟨middle, freedOne⟩ := one scope List.mem_cons_self vault part
      have middlePart : ∀ {other record}, middle.record? other = some record →
          whole.record? other = some record := fun {other record} found =>
        part ((releaseWithin_pruned freedOne other record).1 found).1
      obtain ⟨rest, freedRest⟩ := inductionHypothesis
        (fun other member => one other (List.mem_cons_of_mem _ member)) middle middlePart
      exact ⟨rest, releaseEachWithin_cons.2 ⟨middle, freedOne, freedRest⟩⟩

/-- Freeing ends where owners can be ranked below what they own. The trail lists the owners that
are being freed; it cannot be longer than there are slots. -/
private theorem exists_releaseWithin_of_trail {whole : Vault} {rank : Handle → Nat}
    (ranked : ∀ {owner scope}, whole.Owns owner scope → rank owner < rank scope)
    (bound : Nat) (handle : Handle) (trail : List Handle) (vault : Vault)
    (part : ∀ {other record}, vault.record? other = some record →
      whole.record? other = some record)
    (nodup : trail.Nodup)
    (older : ∀ other ∈ trail, whole.isLive other = true ∧ rank other < rank handle)
    (enough : whole.slots.size < trail.length + bound) :
    ∃ rest, releaseWithin bound handle vault = some rest := by
  induction bound generalizing handle trail vault with
  | zero =>
      have short := length_le_size_of_nodup nodup fun other member => (older other member).1
      omega
  | succ bound inductionHypothesis =>
      cases found : vault.record? handle with
      | none => exact ⟨vault, releaseWithin_succ_of_none found⟩
      | some record =>
          have trailNodup : (handle :: trail).Nodup :=
            List.nodup_cons.2 ⟨fun member => (older handle member).2.false, nodup⟩
          have onTrail : ∀ scope ∈ record.owned, ∀ other ∈ handle :: trail,
              whole.isLive other = true ∧ rank other < rank scope := by
            intro scope member other otherMember
            have younger : rank handle < rank scope := ranked ⟨record, part found, member⟩
            rcases List.mem_cons.1 otherMember with rfl | earlier
            · exact ⟨isLive_of_record? (part found), younger⟩
            · exact ⟨(older other earlier).1, (older other earlier).2.trans younger⟩
          obtain ⟨rest, freed⟩ := exists_releaseEachWithin record.owned
            (fun scope member vault part => inductionHypothesis scope (handle :: trail) vault part
              trailNodup (onTrail scope member) (by simp; omega)) vault part
          exact ⟨rest.vacate handle, (releaseWithin_succ_of_some found).2 ⟨rest, freed, rfl⟩⟩

/-- Freeing ends in every store whose owners can be ranked. -/
theorem exists_releaseWithin {vault : Vault} {rank : Handle → Nat}
    (ranked : ∀ {owner scope}, vault.Owns owner scope → rank owner < rank scope)
    (handle : Handle) :
    ∃ rest, releaseWithin (vault.slots.size + 1) handle vault = some rest :=
  exists_releaseWithin_of_trail ranked (vault.slots.size + 1) handle [] vault id List.nodup_nil
    (by simp) (by simp)

/-! ## What freeing leaves alone -/

theorem Vacates.frames_eq {vault rest : Vault} (freed : Relation.ReflTransGen Vacates vault rest) :
    rest.frames = vault.frames := by
  induction freed with
  | refl => rfl
  | tail _ last inductionHypothesis =>
      obtain ⟨handle, _, rfl⟩ := last
      exact inductionHypothesis

/-- A slot that is freed stays in the store. -/
theorem Vacates.size_slots_eq {vault rest : Vault}
    (freed : Relation.ReflTransGen Vacates vault rest) : rest.slots.size = vault.slots.size := by
  induction freed with
  | refl => rfl
  | tail _ last inductionHypothesis =>
      obtain ⟨handle, _, rfl⟩ := last
      rw [size_slots_vacate, inductionHypothesis]

theorem Vacates.consistent {vault rest : Vault} (freed : Relation.ReflTransGen Vacates vault rest)
    (consistent : vault.Consistent) : rest.Consistent := by
  induction freed with
  | refl => exact consistent
  | tail _ last inductionHypothesis =>
      obtain ⟨handle, live, rfl⟩ := last
      exact inductionHypothesis.vacate live

end Vault
end ScopeScript
