import ScopeScript.Proofs.Map.Finite
import ScopeScript.Proofs.Vault.Rooted
import ScopeScript.Vault.Snapshot

/-!
# What a snapshot depends on

A snapshot shows the path of each live record, the names it binds and the paths of what it owns, in
the order of the slots before it is sorted. The path and the names are the `face` of a record. Two
stores in which every handle denotes a record with the same face, owning the same scopes, have the
same snapshot (`snapshot_eq`), however many slots have been used and freed in the meantime.
-/

namespace ScopeScript

/-- What a record shows apart from what it owns: its path and the names it binds. -/
def Record.face (record : Record) : String × List String :=
  (record.path, record.table.names)

namespace Vault

variable {vault after : Vault}

/-- The face of a live record. -/
def face? (vault : Vault) (handle : Handle) : Option (String × List String) :=
  (vault.record? handle).map (·.face)

theorem isLive_eq_isSome_face? (handle : Handle) :
    vault.isLive handle = (vault.face? handle).isSome := by
  simp [isLive, face?]

/-! ## Changes of records -/

/-- A change that leaves all faces alone. -/
theorem face?_modify_of_face (vault : Vault) (handle : Handle) (change : Record → Record)
    (same : ∀ record, (change record).face = record.face) (other : Handle) :
    (vault.modify handle change).face? other = vault.face? other :=
  map_record?_modify vault handle same other

/-- A change of one live record leaves the faces of the others alone. -/
theorem face?_modify_of_ne {handle other : Handle} (live : vault.isLive handle = true)
    (different : other ≠ handle) (change : Record → Record) :
    (vault.modify handle change).face? other = vault.face? other := by
  obtain ⟨record, found⟩ := isLive_iff_exists.1 live
  rw [face?, record?_modify found, if_neg different, face?]

theorem Consistent.face?_allocate (consistent : vault.Consistent) (parent : Handle) (path : String)
    (fits : (vault.allocate parent path).2.Fits) {other : Handle}
    (different : other ≠ (vault.allocate parent path).1) :
    (vault.allocate parent path).2.face? other = vault.face? other := by
  rw [face?, consistent.record?_allocate fits, if_neg different, face?]

/-- Entering a block adds a record and counts it in the enclosing one. -/
theorem Consistent.face?_of_enter (consistent : vault.Consistent) {kind : FrameKind}
    {handle other : Handle} (entered : enter kind vault = (.done handle, after)) (fits : after.Fits)
    (different : other ≠ handle) : after.face? other = vault.face? other := by
  cases frames : vault.frames with
  | nil =>
      obtain ⟨path, created⟩ := enter_of_nil kind frames
      cases entered.symm.trans created
      exact consistent.face?_allocate _ _ fits different
  | cons frame below =>
      cases found : vault.record? frame.record with
      | none =>
          obtain ⟨crash, crashed⟩ := enter_of_inactive kind frames found
          cases entered.symm.trans crashed
      | some record =>
          obtain ⟨path, created⟩ := enter_of_cons kind frames found
          cases entered.symm.trans created
          refine Eq.trans ?_
            (consistent.face?_allocate frame.record path (fits_modify.1 fits) different)
          exact face?_modify_of_face (vault.allocate frame.record path).2 frame.record
            (fun record => { record with blocks := record.blocks + 1 }) (fun _ => rfl) other

theorem Consistent.face?_of_declare (consistent : vault.Consistent) {name : String}
    {handle other : Handle} (declared : declare name vault = (.done handle, after))
    (fits : after.Fits) (different : other ≠ handle) : after.face? other = vault.face? other := by
  cases frames : vault.frames with
  | nil => cases declared.symm.trans (declare_of_nil name frames)
  | cons frame below =>
      cases found : vault.record? frame.record with
      | none =>
          obtain ⟨crash, crashed⟩ := declare_of_inactive name frames found
          cases declared.symm.trans crashed
      | some record =>
          obtain ⟨path, created⟩ := declare_of_cons name frames found
          cases declared.symm.trans created
          exact consistent.face?_allocate _ _ fits different

/-- Freeing a tree leaves the faces beyond it alone. -/
theorem Pruned.face?_eq {gone : Handle → Prop} (pruned : vault.Pruned gone after) {handle : Handle}
    (kept : ¬gone handle) : after.face? handle = vault.face? handle := by
  have same : after.record? handle = vault.record? handle := by
    apply Option.ext
    intro record
    rw [pruned handle record]
    exact and_iff_left kept
  rw [face?, same, face?]

end Vault

/-- A name that is bound already is bound again to another cell. -/
theorem Table.names_insert_of_bound {table : Table} {name : String}
    (bound : (table.find? name).isSome = true) (binding : Binding) :
    (table.insert name binding).names = table.names := by
  rw [isSome_find?, decide_eq_true_iff] at bound
  have keys : (table.insert name binding).contents.keys = table.contents.keys := by
    ext other
    rw [contents_insert, Finmap.mem_keys, Finmap.mem_keys, Finmap.mem_insert]
    exact or_iff_right_of_imp fun same => same ▸ bound
  rw [names_eq, names_eq, FiniteMap.sortedKeys, FiniteMap.sortedKeys, keys]

/-- Assigning to a cell binds no name and takes none away. -/
theorem Record.face_write (record : Record) (name : String) (cell : Nat) (value : Value) :
    (record.write name cell value).face = record.face := by
  unfold write
  split
  · rename_i binding found
    split
    · refine Prod.ext rfl (Table.names_insert_of_bound ?_ _)
      rw [found]
      rfl
    · rfl
  · rfl

/-! ## Snapshots -/

namespace Vault

variable {before after : Vault}

/-- Lists that show the same in each place, as far as they show something there. -/
theorem filterMap_eq_of_getElem? {first second : α → Option β} {values others : List α}
    (same : ∀ place : Nat, values[place]?.bind first = others[place]?.bind second) :
    values.filterMap first = others.filterMap second := by
  induction values generalizing others with
  | nil =>
      symm
      rw [List.filterMap_nil, List.filterMap_eq_nil_iff]
      intro value member
      obtain ⟨place, found⟩ := List.getElem?_of_mem member
      simpa [found] using (same place).symm
  | cons value values inductionHypothesis =>
      cases others with
      | nil =>
          rw [List.filterMap_nil, List.filterMap_eq_nil_iff]
          intro other member
          obtain ⟨place, found⟩ := List.getElem?_of_mem member
          simpa [found] using same place
      | cons other others =>
          have front : first value = second other := by simpa using same 0
          have rest := inductionHypothesis fun place => by simpa using same (place + 1)
          rw [List.filterMap_cons, List.filterMap_cons, front, rest]

/-- What is shown of the record of a handle. -/
def shown? (vault : Vault) (handle : Handle) : Option RecordInfo :=
  (vault.record? handle).map vault.describe

theorem Consistent.describe_recordAt (consistent : before.Consistent) (fits : before.Fits)
    (same : ∀ handle, after.shown? handle = before.shown? handle) {place : Nat} {info : RecordInfo}
    (shown : (before.recordAt place).map before.describe = some info) :
    (after.recordAt place).map after.describe = some info := by
  obtain ⟨record, held, rfl⟩ := Option.map_eq_some_iff.1 shown
  have found := consistent.record?_handleAt fits held
  have shownAfter := same (before.handleAt place)
  rw [shown?, shown?, found] at shownAfter
  obtain ⟨recordAfter, foundAfter, described⟩ := Option.map_eq_some_iff.1 shownAfter
  have heldAfter := (record?_eq_some_iff.1 foundAfter).2.2
  rw [slot_handleAt fits (lt_size_of_recordAt held)] at heldAfter
  rw [heldAfter, Option.map_some, described]

/-- What is shown of a record depends on its face, on what it owns and on the paths of that. -/
theorem shown?_eq (owned : ∀ handle, after.ownedBy? handle = before.ownedBy? handle)
    (faces : ∀ handle, after.face? handle = before.face? handle) (handle : Handle) :
    after.shown? handle = before.shown? handle := by
  have paths : after.path = before.path := by
    funext other
    have face := faces other
    unfold face? at face
    unfold path
    cases held : before.record? other with
    | none =>
        rw [held, Option.map_none, Option.map_eq_none_iff] at face
        rw [face]
    | some record =>
        rw [held] at face
        obtain ⟨recordAfter, found, same⟩ := Option.map_eq_some_iff.1 face
        rw [found]
        exact congrArg Prod.fst same
  have face := faces handle
  have own := owned handle
  unfold face? at face
  unfold ownedBy? at own
  unfold shown?
  cases held : before.record? handle with
  | none =>
      rw [held, Option.map_none, Option.map_eq_none_iff] at face
      rw [face]
      rfl
  | some record =>
      rw [held] at face own
      obtain ⟨recordAfter, found, same⟩ := Option.map_eq_some_iff.1 face
      rw [found] at own ⊢
      have sameOwned : recordAfter.owned = record.owned := Option.some.inj own
      have samePath : recordAfter.path = record.path := congrArg Prod.fst same
      have sameNames : recordAfter.table.names = record.table.names := congrArg Prod.snd same
      simp only [Option.map_some, describe, sameOwned, samePath, sameNames, paths]

/-- Stores with the same faces and the same owners have the same snapshot. -/
theorem snapshot_eq (consistent : before.Consistent) (fits : before.Fits)
    (afterConsistent : after.Consistent) (afterFits : after.Fits)
    (owned : ∀ handle, after.ownedBy? handle = before.ownedBy? handle)
    (faces : ∀ handle, after.face? handle = before.face? handle) :
    after.snapshot = before.snapshot := by
  have same := shown?_eq owned faces
  have slots : ∀ place, (after.recordAt place).map after.describe =
      (before.recordAt place).map before.describe := by
    intro place
    apply Option.ext
    intro info
    constructor
    · exact afterConsistent.describe_recordAt afterFits fun handle => (same handle).symm
    · exact consistent.describe_recordAt fits same
  unfold snapshot
  congr 1
  refine filterMap_eq_of_getElem? fun place => ?_
  have shown := slots place
  simp only [recordAt, Option.map_bind, ← Array.getElem?_toList] at shown
  exact shown

end Vault
end ScopeScript
