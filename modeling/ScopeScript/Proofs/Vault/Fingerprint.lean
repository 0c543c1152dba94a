import Mathlib.Data.List.Permutation
import ScopeScript.Proofs.Vault.Bracketing
import ScopeScript.Proofs.Vault.Snapshot

/-!
# What a fingerprint depends on

A snapshot lists what is shown of the live records by path, and records with equal paths in the
order of their slots. So two stores have the same snapshot exactly if, for every path, the records
of this path show the same in the order of their slots (`snapshot_eq_iff`). Where live records of
one path show the same, the order of the slots does not matter, and the fingerprint depends on the
live records only (`fingerprint_of_live_records`). Records of one path that differ are told apart
by their slots (`fingerprint_shows_slots`).
-/

namespace ScopeScript

/-! ## Sorting by a key -/

section

variable {α κ : Type} [LinearOrder κ] {key : α → κ} {values others : List α}

/-- Sorting leaves values that are in any order anyway in the order in which they are. -/
theorem filter_mergeSort {le : α → α → Bool} (trans : ∀ a b c, le a b → le b c → le a c)
    (total : ∀ a b, le a b || le b a) {keep : α → Bool}
    (alike : ∀ a b, keep a → keep b → le a b) (values : List α) :
    (values.mergeSort le).filter keep = values.filter keep := by
  have ordered : (values.filter keep).Pairwise fun a b => le a b :=
    List.pairwise_of_forall_mem_list fun a isFirst b isSecond =>
      alike a b (List.mem_filter.1 isFirst).2 (List.mem_filter.1 isSecond).2
  have kept : (values.filter keep).Sublist ((values.mergeSort le).filter keep) := by
    have inside := (List.sublist_mergeSort trans total ordered List.filter_sublist).filter keep
    simpa only [List.filter_filter, Bool.and_self] using inside
  exact (kept.eq_of_length ((List.mergeSort_perm values le).filter keep).length_eq.symm).symm

/-- The first value of a sorted list has a key that is below that of any value found by its key. -/
theorem key_le_of_filter_eq {first other : α}
    (sorted : (first :: values).Pairwise fun a b => key a ≤ key b)
    (same : (first :: values).filter (key · = key other) =
      (other :: others).filter (key · = key other)) : key first ≤ key other := by
  have member : other ∈ (first :: values).filter (key · = key other) := by
    rw [same]
    simp
  rcases List.mem_cons.1 (List.mem_filter.1 member).1 with rfl | later
  · exact le_rfl
  · exact List.rel_of_pairwise_cons sorted later

/-- A list that is sorted by a key is determined by the lists of its values with equal keys. -/
theorem eq_of_filter_key_eq (sorted : values.Pairwise fun a b => key a ≤ key b)
    (otherSorted : others.Pairwise fun a b => key a ≤ key b)
    (same : ∀ wanted, values.filter (key · = wanted) = others.filter (key · = wanted)) :
    values = others := by
  induction values generalizing others with
  | nil =>
      refine (List.eq_nil_iff_forall_not_mem.2 fun other member => ?_).symm
      have found : other ∈ others.filter (key · = key other) := by simpa using member
      rw [← same (key other)] at found
      cases found
  | cons first values inductionHypothesis =>
      cases others with
      | nil => simpa using same (key first)
      | cons other others =>
          -- Both first values have the least key, so they are found first under it.
          have sameKey : key first = key other :=
            le_antisymm (key_le_of_filter_eq sorted (same _))
              (key_le_of_filter_eq otherSorted (same _).symm)
          have front := same (key first)
          simp only [List.filter_cons, sameKey, decide_true, if_true, List.cons.injEq] at front
          refine congrArg₂ List.cons front.1
            (inductionHypothesis sorted.tail otherSorted.tail fun wanted => ?_)
          have wantedSame := same wanted
          simp only [List.filter_cons, sameKey] at wantedSame
          split at wantedSame
          · exact (List.cons.inj wantedSame).2
          · exact wantedSame

end

namespace Vault

/-- What is shown of the live records, in the order of their slots. -/
def descriptions (vault : Vault) : List RecordInfo :=
  vault.slots.toList.filterMap fun slot => slot.record?.map vault.describe

/-- What is shown of the live records with a path, in the order of their slots. -/
def descriptionsAt (vault : Vault) (path : String) : List RecordInfo :=
  vault.descriptions.filter (·.path = path)

variable {vault other : Vault}

/-- Whether what is shown first comes first by its path. -/
def pathLE (left right : RecordInfo) : Bool :=
  Table.textLE left.path right.path

theorem pathLE_iff {left right : RecordInfo} : pathLE left right = true ↔ left.path ≤ right.path :=
  Table.textLE_iff.trans Text.byteLE_iff_le

theorem pathLE_trans (first second third : RecordInfo) (below : pathLE first second)
    (above : pathLE second third) : pathLE first third :=
  pathLE_iff.2 (le_trans (pathLE_iff.1 below) (pathLE_iff.1 above))

theorem pathLE_total (left right : RecordInfo) : pathLE left right || pathLE right left := by
  simpa only [Bool.or_eq_true, pathLE_iff] using le_total left.path right.path

theorem pairwise_snapshot (vault : Vault) :
    vault.snapshot.Pairwise fun left right => left.path ≤ right.path :=
  (List.pairwise_mergeSort pathLE_trans pathLE_total _).imp pathLE_iff.1

/-- A snapshot lists records of one path in the order of their slots. -/
theorem filter_snapshot (vault : Vault) (path : String) :
    vault.snapshot.filter (·.path = path) = vault.descriptionsAt path := by
  refine filter_mergeSort pathLE_trans pathLE_total (fun left right isLeft isRight => ?_) _
  rw [decide_eq_true_eq] at isLeft isRight
  exact pathLE_iff.2 (isLeft.trans isRight.symm).le

/-- Snapshots are the same exactly if the records of each path show the same in the order of their
slots. -/
theorem snapshot_eq_iff :
    vault.snapshot = other.snapshot ↔
      ∀ path, vault.descriptionsAt path = other.descriptionsAt path := by
  simp only [← filter_snapshot]
  exact ⟨fun same path => by rw [same],
    eq_of_filter_key_eq vault.pairwise_snapshot other.pairwise_snapshot⟩

theorem fingerprint_of_snapshot (same : vault.snapshot = other.snapshot) :
    vault.fingerprint = other.fingerprint := by
  rw [fingerprint, same, fingerprint]

/-- The records of a path show the same. -/
def AlikeAt (vault : Vault) (path : String) : Prop :=
  ∀ first ∈ vault.descriptionsAt path, ∀ second ∈ vault.descriptionsAt path, first = second

theorem eq_of_perm_of_alike {infos others : List RecordInfo} (same : infos.Perm others)
    (alike : ∀ first ∈ infos, ∀ second ∈ infos, first = second) : infos = others := by
  cases infos with
  | nil => exact same.nil_eq
  | cons info infos =>
      have copies : info :: infos = List.replicate (infos.length + 1) info :=
        List.eq_replicate_iff.2 ⟨rfl, fun other member => alike other member info (by simp)⟩
      rw [copies] at same ⊢
      exact (List.perm_replicate.1 same.symm).symm

theorem alikeAt_of_path_injective (injective : ∀ first ∈ vault.descriptions,
    ∀ second ∈ vault.descriptions, first.path = second.path → first = second) (path : String) :
    vault.AlikeAt path := by
  intro first isFirst second isSecond
  simp only [descriptionsAt, List.mem_filter, decide_eq_true_eq] at isFirst isSecond
  exact injective first isFirst.1 second isSecond.1 (isFirst.2.trans isSecond.2.symm)

/-- Two stores whose live records show the same, in any order and in any slots, have the same
snapshot exactly if for every path either the records of this path show the same, or they stand in
the same order in both stores; and then they have the same fingerprint. -/
theorem fingerprint_of_live_records (same : vault.descriptions.Perm other.descriptions) :
    (vault.snapshot = other.snapshot ↔
      ∀ path, vault.AlikeAt path ∨ vault.descriptionsAt path = other.descriptionsAt path) ∧
    ((∀ path, vault.AlikeAt path ∨ vault.descriptionsAt path = other.descriptionsAt path) →
      vault.fingerprint = other.fingerprint) := by
  have sufficient
      (ordered : ∀ path, vault.AlikeAt path ∨
        vault.descriptionsAt path = other.descriptionsAt path) :
      vault.snapshot = other.snapshot := by
    refine snapshot_eq_iff.2 fun path => ?_
    rcases ordered path with alike | inOrder
    · exact eq_of_perm_of_alike (same.filter _) alike
    · exact inOrder
  exact ⟨⟨fun equal path => .inr (snapshot_eq_iff.1 equal path), sufficient⟩,
    fun ordered => fingerprint_of_snapshot (sufficient ordered)⟩

/-- What operations leave of a store. -/
def leftBy (operations : List Operation) : Vault :=
  operations.foldl (fun vault operation => (operation.perform vault).2) .empty

/-- Three scopes in slots that have not been used before. -/
def inNewSlots : List Operation :=
  [.enterBlock, .createOwned ⟨0, 1⟩ "p", .createOwned ⟨0, 1⟩ "q", .createOwned ⟨0, 1⟩ "p"]

/-- The same scopes in the slots of an inner block and its scopes, last freed first. -/
def inOldSlots : List Operation :=
  [.enterBlock, .enterBlock, .createOwned ⟨1, 1⟩ "z", .createOwned ⟨1, 1⟩ "z", .exitBlock,
    .createOwned ⟨0, 1⟩ "p", .createOwned ⟨0, 1⟩ "q", .createOwned ⟨0, 1⟩ "p"]

theorem descriptions_inNewSlots : (leftBy inNewSlots).descriptions =
    [⟨"$0", [], ["$0.p$0", "$0.q$0", "$0.p$0"]⟩, ⟨"$0.p$0", [], []⟩, ⟨"$0.q$0", [], []⟩,
      ⟨"$0.p$0", [], []⟩] := by
  cbv

theorem descriptions_inOldSlots : (leftBy inOldSlots).descriptions =
    [⟨"$0", [], ["$0.p$0", "$0.q$0", "$0.p$0"]⟩, ⟨"$0.p$0", [], []⟩, ⟨"$0.p$0", [], []⟩,
      ⟨"$0.q$0", [], []⟩] := by
  cbv

/-- Two scopes that share a path and show the same, and a third one, in different slots. -/
theorem fingerprint_of_scopes_in_old_slots :
    (leftBy inNewSlots).descriptions.Perm (leftBy inOldSlots).descriptions ∧
      (leftBy inNewSlots).descriptions ≠ (leftBy inOldSlots).descriptions ∧
      (∀ path, (leftBy inNewSlots).AlikeAt path) ∧
      (leftBy inNewSlots).fingerprint = (leftBy inOldSlots).fingerprint := by
  have same : (leftBy inNewSlots).descriptions.Perm (leftBy inOldSlots).descriptions := by
    rw [descriptions_inNewSlots, descriptions_inOldSlots]
    decide
  have alike : ∀ path, (leftBy inNewSlots).AlikeAt path := alikeAt_of_path_injective (by
    rw [descriptions_inNewSlots]
    decide)
  refine ⟨same, ?_, alike, (fingerprint_of_live_records same).2 fun path => .inl (alike path)⟩
  rw [descriptions_inNewSlots, descriptions_inOldSlots]
  decide

/-- Two scopes of one name, of which the first binds `x` and the second `y`. -/
def twins : List Operation :=
  [.enterBlock, .declare "a", .define "x" .none, .endDeclaration ⟨1, 1⟩ "a",
    .declare "a", .define "y" .none, .endDeclaration ⟨2, 1⟩ "a"]

/-- The two scopes are visited one after the other and exchange their names. -/
def exchange : List Operation :=
  [.enterNamed ⟨1, 1⟩, .unbind "x", .define "y" .none, .exitNamed,
    .enterNamed ⟨2, 1⟩, .unbind "y", .define "x" .none, .exitNamed]

theorem snapshot_twins : (leftBy twins).snapshot =
    [⟨"$0", ["a"], ["$0.a$0", "$0.a$0"]⟩, ⟨"$0.a$0", ["x"], []⟩, ⟨"$0.a$0", ["y"], []⟩] := by
  cbv

theorem snapshot_exchange : (leftBy (twins ++ exchange)).snapshot =
    [⟨"$0", ["a"], ["$0.a$0", "$0.a$0"]⟩, ⟨"$0.a$0", ["y"], []⟩, ⟨"$0.a$0", ["x"], []⟩] := by
  cbv

theorem wellBracketed_twins :
    ∃ outcomes, WellBracketed outcomes [.block ⟨0, 1⟩] (leftBy twins) := by
  have entered := WellBracketed.start.next .enterBlock trivial
  have declared := entered.next (.declare "a") (List.cons_ne_nil _ _)
  have bound := declared.next (.define "x" .none) (List.cons_ne_nil _ _)
  have first := bound.next (.endDeclaration ⟨1, 1⟩ "a") ⟨by decide, [.block ⟨0, 1⟩], rfl⟩
  have declaredAgain := first.next (.declare "a") (List.cons_ne_nil _ _)
  have boundAgain := declaredAgain.next (.define "y" .none) (List.cons_ne_nil _ _)
  exact ⟨_, boundAgain.next (.endDeclaration ⟨2, 1⟩ "a") ⟨by decide, [.block ⟨0, 1⟩], rfl⟩⟩

theorem wellBracketed_exchange :
    ∃ outcomes, WellBracketed outcomes [.block ⟨0, 1⟩] (leftBy (twins ++ exchange)) := by
  obtain ⟨_, opened⟩ := wellBracketed_twins
  have visited := opened.next (.enterNamed ⟨1, 1⟩) (List.cons_ne_nil _ _)
  have unbound := visited.next (.unbind "x") (List.cons_ne_nil _ _)
  have bound := unbound.next (.define "y" .none) (List.cons_ne_nil _ _)
  have left := bound.next .exitNamed ⟨⟨1, 1⟩, [.block ⟨0, 1⟩], rfl⟩
  have visitedAgain := left.next (.enterNamed ⟨2, 1⟩) (List.cons_ne_nil _ _)
  have unboundAgain := visitedAgain.next (.unbind "y") (List.cons_ne_nil _ _)
  have boundAgain := unboundAgain.next (.define "x" .none) (List.cons_ne_nil _ _)
  exact ⟨_, boundAgain.next .exitNamed ⟨⟨2, 1⟩, [.block ⟨0, 1⟩], rfl⟩⟩

/-- Two well-bracketed runs leave live records that show the same, and different fingerprints: of
two scopes with one path the one in the lower slot is listed first. -/
theorem fingerprint_shows_slots :
    (∃ outcomes openings, WellBracketed outcomes openings (leftBy twins)) ∧
      (∃ outcomes openings, WellBracketed outcomes openings (leftBy (twins ++ exchange))) ∧
      (leftBy twins).descriptions.Perm (leftBy (twins ++ exchange)).descriptions ∧
      (leftBy twins).fingerprint ≠ (leftBy (twins ++ exchange)).fingerprint := by
  obtain ⟨_, opened⟩ := wellBracketed_twins
  obtain ⟨_, exchanged⟩ := wellBracketed_exchange
  refine ⟨⟨_, _, opened⟩, ⟨_, _, exchanged⟩, ?_, ?_⟩
  · have same : (leftBy twins).snapshot.Perm (leftBy (twins ++ exchange)).snapshot := by
      rw [snapshot_twins, snapshot_exchange]
      decide
    exact (List.mergeSort_perm _ _).symm.trans (same.trans (List.mergeSort_perm _ _))
  · rw [fingerprint, fingerprint, snapshot_twins, snapshot_exchange]
    decide +kernel

end Vault
end ScopeScript
