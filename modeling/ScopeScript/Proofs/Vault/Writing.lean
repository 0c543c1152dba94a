import ScopeScript.Proofs.Vault.Editing
import ScopeScript.Proofs.Vault.Rooted

/-!
# Writing to one scope

`Writes` says that the table of a scope is replaced and that nothing else can be noticed by looking
names up and by entering and leaving scopes. `Sees` says what a name stands for; it depends on the
tables of the active scopes only. A block that is entered and left again leaves no trace in either
(`enterBlock_opens`, `exitBlock_of_owned`).
-/

namespace ScopeScript
namespace Vault

/-- The bindings of a live scope. -/
def table? (vault : Vault) (handle : Handle) : Option Table :=
  (vault.record? handle).map (·.table)

/-- What has bindings is a live record. -/
theorem exists_record_of_table? {vault : Vault} {handle : Handle} {table : Table}
    (found : vault.table? handle = some table) :
    ∃ record, vault.record? handle = some record ∧ record.table = table :=
  Option.map_eq_some_iff.1 found

/-- A consistent store whose slots have fitting numbers. -/
structure Sound (vault : Vault) : Prop where
  consistent : vault.Consistent
  fits : vault.Fits

namespace Sound

variable {vault : Vault}

/-- Only the slots, the free slots and the count of live records matter. -/
theorem congr (sound : vault.Sound) {other : Vault} (slots : other.slots = vault.slots)
    (free : other.free = vault.free) (live : other.live = vault.live) : other.Sound where
  consistent := sound.consistent.congr slots free live
  fits := by
    rw [Fits, slots]
    exact sound.fits

/-- A change of a record keeps the store sound. -/
theorem modify (sound : vault.Sound) (handle : Handle) (change : Record → Record) :
    (vault.modify handle change).Sound :=
  ⟨sound.consistent.modify handle change, fits_modify.2 sound.fits⟩

/-- A new record keeps the store sound if not all numbers are taken by live ones. -/
theorem allocate (sound : vault.Sound) (room : vault.live < UInt32.size) (parent : Handle)
    (path : String) : (vault.allocate parent path).2.Sound :=
  have fits := sound.consistent.fits_allocate sound.fits room
  ⟨sound.consistent.allocate fits, fits⟩

/-- Freeing a record keeps the store sound. -/
theorem vacate (sound : vault.Sound) {handle : Handle} (live : vault.isLive handle = true) :
    (vault.vacate handle).Sound where
  consistent := sound.consistent.vacate live
  fits := by
    rw [Fits, size_slots_vacate]
    exact sound.fits

end Sound

/-- The table of a scope is another one; otherwise scopes, frames and owners are as before. -/
structure Writes (before : Vault) (handle : Handle) (table : Table) (after : Vault) : Prop where
  frames : after.frames = before.frames
  tables : ∀ other, after.table? other = if other = handle then some table else before.table? other
  owned : ∀ other, after.ownedBy? other = before.ownedBy? other
  live : after.live = before.live
  sound : before.Sound → after.Sound

namespace Writes

variable {before middle after : Vault} {handle : Handle} {table later : Table}

/-- Nothing has been written yet. -/
theorem refl (found : before.table? handle = some table) : before.Writes handle table before where
  frames := rfl
  tables other := by
    split
    · next same => rw [same, found]
    · rfl
  owned _ := rfl
  live := rfl
  sound := id

/-- Writing twice to one scope leaves what was written last. -/
theorem trans (first : before.Writes handle table middle)
    (second : middle.Writes handle later after) : before.Writes handle later after where
  frames := second.frames.trans first.frames
  tables other := by
    rw [second.tables, first.tables]
    split <;> rfl
  owned other := (second.owned other).trans (first.owned other)
  live := second.live.trans first.live
  sound := second.sound ∘ first.sound

/-- What is written does not depend on which scopes are active. -/
theorem reframe (writes : before.Writes handle table after) (frames : FrameStack) :
    { before with frames }.Writes handle table { after with frames } where
  frames := rfl
  tables := writes.tables
  owned := writes.owned
  live := writes.live
  sound sound := (writes.sound (sound.congr rfl rfl rfl)).congr rfl rfl rfl

/-- The scope that was written to has the new bindings. -/
theorem self (writes : before.Writes handle table after) : after.table? handle = some table := by
  rw [writes.tables, if_pos rfl]

/-- All other scopes have the bindings that they had. -/
theorem other (writes : before.Writes handle table after) {other : Handle}
    (different : other ≠ handle) : after.table? other = before.table? other := by
  rw [writes.tables, if_neg different]

end Writes

/-- A change of a record in place writes its table. -/
theorem writes_modify {vault : Vault} {handle : Handle} {record : Record}
    (found : vault.record? handle = some record) (cells : Nat) (change : Record → Record)
    (owned : (change record).owned = record.owned) :
    vault.Writes handle (change record).table ({ vault with cells }.modify handle change) := by
  let counted : Vault := { vault with cells }
  have live : counted.record? handle = some record := found
  refine ⟨rfl, fun other => ?_, fun other => ?_, rfl, fun sound => ?_⟩
  · rw [table?, record?_modify live]
    split <;> rfl
  · rw [ownedBy?_modify live]
    split
    · next same =>
      rw [same, owned, ownedBy?, found]
      rfl
    · rfl
  · have same : counted.Sound := sound.congr rfl rfl rfl
    exact same.modify handle change

/-! ## Names -/

/-- The value bound to a name in a scope. -/
def valueIn? (vault : Vault) (handle : Handle) (name : String) : Option Value :=
  (vault.table? handle).bind fun table => (table.find? name).map (·.value)

/-- A name stands for a value where the given frames are active. -/
def Sees (vault : Vault) (frames : FrameStack) (name : String) (value : Value) : Prop :=
  ∃ handle cell, vault.bindingAlong name frames = .ok (some (handle, ⟨cell, value⟩))

section

variable {vault other : Vault} {frame : Frame} {frames : FrameStack} {name : String}
  {value : Value} {table : Table}

/-- A name that has a value is bound to some cell. -/
theorem exists_table_of_valueIn? {handle : Handle}
    (bound : vault.valueIn? handle name = some value) :
    ∃ table cell, vault.table? handle = some table ∧ table.find? name = some ⟨cell, value⟩ := by
  obtain ⟨table, found, rest⟩ := Option.bind_eq_some_iff.1 bound
  obtain ⟨⟨cell, _⟩, entry, rfl⟩ := Option.map_eq_some_iff.1 rest
  exact ⟨table, cell, found, entry⟩

/-- The innermost frame is searched first. -/
theorem bindingAlong_cons (found : vault.table? frame.record = some table) :
    vault.bindingAlong name (frame :: frames) =
      match table.find? name with
      | some binding => .ok (some (frame.record, binding))
      | none => vault.bindingAlong name frames := by
  obtain ⟨record, live, rfl⟩ := exists_record_of_table? found
  cases entry : record.table.find? name <;>
    simp only [bindingAlong, findActive_of_some live, entry]

/-- What the innermost scope binds is seen. -/
theorem sees_cons_of_bound (bound : vault.valueIn? frame.record name = some value) :
    vault.Sees (frame :: frames) name value := by
  obtain ⟨table, cell, found, entry⟩ := exists_table_of_valueIn? bound
  exact ⟨frame.record, cell, by rw [bindingAlong_cons found, entry]⟩

/-- What the innermost scope does not bind is seen if it is further out. -/
theorem sees_cons_of_unbound (found : vault.table? frame.record = some table)
    (unbound : table.find? name = none) (sees : vault.Sees frames name value) :
    vault.Sees (frame :: frames) name value := by
  obtain ⟨handle, cell, along⟩ := sees
  exact ⟨handle, cell, by rw [bindingAlong_cons found, unbound, along]⟩

/-- A name that is found is bound in the innermost of the scopes, or found further out. -/
theorem cases_of_bindingAlong_cons {handle : Handle} {binding : Binding}
    (along : vault.bindingAlong name (frame :: frames) = .ok (some (handle, binding))) :
    ∃ table, vault.table? frame.record = some table ∧
      ((table.find? name = some binding ∧ handle = frame.record) ∨
        (table.find? name = none ∧
          vault.bindingAlong name frames = .ok (some (handle, binding)))) := by
  cases found : vault.table? frame.record with
  | none =>
      obtain ⟨reason, refused⟩ := findActive_of_none (Option.map_eq_none_iff.1 found)
      rw [bindingAlong, refused] at along
      cases along
  | some table =>
      rw [bindingAlong_cons found] at along
      cases entry : table.find? name with
      | some bound =>
          rw [entry] at along
          cases along
          exact ⟨table, rfl, .inl ⟨entry, rfl⟩⟩
      | none =>
          rw [entry] at along
          exact ⟨table, rfl, .inr ⟨entry, along⟩⟩

/-- Only the bindings of the active scopes count. -/
theorem Sees.congr (sees : vault.Sees frames name value)
    (kept : ∀ frame ∈ frames, ∀ table, vault.table? frame.record = some table →
      other.table? frame.record = some table) : other.Sees frames name value := by
  obtain ⟨handle, cell, along⟩ := sees
  refine ⟨handle, cell, ?_⟩
  induction frames with
  | nil => exact along
  | cons frame frames inductionHypothesis =>
      have keptRest := fun below member => kept below (List.mem_cons_of_mem frame member)
      obtain ⟨table, found, ⟨entry, rfl⟩ | ⟨entry, rest⟩⟩ := cases_of_bindingAlong_cons along
      · rw [bindingAlong_cons (kept frame List.mem_cons_self table found), entry]
      · rw [bindingAlong_cons (kept frame List.mem_cons_self table found), entry]
        exact inductionHypothesis keptRest rest

/-- A name that is seen is resolved to its value. -/
theorem resolve_of_sees (sees : vault.Sees vault.frames name value) :
    ∃ reference, resolve name vault = (.done (reference, value), vault) := by
  obtain ⟨handle, cell, along⟩ := sees
  refine ⟨⟨handle, name, cell⟩, ?_⟩
  have found : innermost name vault = (.done (some (handle, ⟨cell, value⟩)), vault) := by
    rw [innermost, along]
    rfl
  exact Run.bind_of_done found _

/-- A name stands for one value only. -/
theorem Sees.unique {second : Value} (sees : vault.Sees frames name value)
    (alike : vault.Sees frames name second) : value = second := by
  obtain ⟨_, _, along⟩ := sees
  obtain ⟨_, _, alongAlike⟩ := alike
  rw [along] at alongAlike
  cases alongAlike
  rfl

end

/-! ## Cells -/

section

variable {vault after : Vault} {frames : FrameStack} {name : String} {value new : Value}
  {reference : Reference} {handle : Handle} {binding : Binding} {table : Table}

/-- A binding is found in the table of the scope it is found with. -/
theorem table?_of_bindingAlong
    (along : vault.bindingAlong name frames = .ok (some (handle, binding))) :
    ∃ table, vault.table? handle = some table ∧ table.find? name = some binding := by
  induction frames with
  | nil => cases along
  | cons frame frames inductionHypothesis =>
      obtain ⟨table, found, ⟨entry, rfl⟩ | ⟨_, rest⟩⟩ := cases_of_bindingAlong_cons along
      · exact ⟨table, found, entry⟩
      · exact inductionHypothesis rest

/-- A new value in the cell that a name stands for is what the name stands for then. -/
theorem sees_of_writes (along : vault.bindingAlong name frames = .ok (some (handle, binding)))
    (writes : vault.Writes handle (table.insert name ⟨binding.cell, new⟩) after) :
    after.Sees frames name new := by
  induction frames with
  | nil => cases along
  | cons frame frames inductionHypothesis =>
      obtain ⟨front, found, ⟨_, rfl⟩ | ⟨entry, rest⟩⟩ := cases_of_bindingAlong_cons along
      · refine sees_cons_of_bound ?_
        rw [valueIn?, writes.self, Option.bind_some, Table.find?_insert_self]
        rfl
      · have further : frame.record ≠ handle := by
          rintro rfl
          obtain ⟨_, foundAgain, bound⟩ := table?_of_bindingAlong rest
          rw [found] at foundAgain
          cases foundAgain
          rw [entry] at bound
          cases bound
        exact sees_cons_of_unbound ((writes.other further).trans found) entry
          (inductionHypothesis rest)

/-- A reference belongs to the scope in which the name was found. -/
theorem bindingAlong_of_resolve (found : resolve name vault = (.done (reference, value), after)) :
    after = vault ∧ reference.name = name ∧
      vault.bindingAlong name vault.frames =
        .ok (some (reference.handle, ⟨reference.cell, value⟩)) := by
  rw [resolve, Run.bind_apply, innermost] at found
  cases along : vault.bindingAlong name vault.frames with
  | error crash =>
      rw [along] at found
      cases found
  | ok bound? =>
      rw [along] at found
      cases bound? with
      | none => cases found
      | some bound =>
          cases found
          exact ⟨rfl, rfl, rfl⟩

/-- What was resolved can be read through the reference. -/
theorem read_of_resolve (found : resolve name vault = (.done (reference, value), after)) :
    vault.read reference = value := by
  obtain ⟨-, rfl, along⟩ := bindingAlong_of_resolve found
  obtain ⟨table, tableIs, entry⟩ := table?_of_bindingAlong along
  obtain ⟨record, live, rfl⟩ := exists_record_of_table? tableIs
  simp only [read, live, Record.read, entry, if_pos]

/-- Writing to the cell that a name stands for gives the name a new value. -/
theorem write_of_resolve (found : resolve name vault = (.done (reference, value), after))
    (new : Value) :
    ∃ written, write reference new vault = (.done (), written) ∧
      written.Sees written.frames name new := by
  obtain ⟨-, rfl, along⟩ := bindingAlong_of_resolve found
  obtain ⟨table, tableIs, entry⟩ := table?_of_bindingAlong along
  obtain ⟨record, live, rfl⟩ := exists_record_of_table? tableIs
  have writes := writes_modify live vault.cells
    (·.write reference.name reference.cell new) (record.owned_write reference.name _ new)
  have changed : (record.write reference.name reference.cell new).table =
      record.table.insert reference.name ⟨reference.cell, new⟩ := by
    simp only [Record.write, entry, if_pos]
  rw [changed] at writes
  have isLive : vault.isLive reference.handle = true := isLive_of_record? live
  refine ⟨vault.modify reference.handle (·.write reference.name reference.cell new), ?_,
    sees_of_writes along writes⟩
  rw [write, Run.update_apply, if_pos isLive]

end

/-! ## Blocks -/

variable {vault : Vault} {block : Handle} {table : Table}

/-- A new scope without bindings inside another one, which is changed beside its bindings. -/
theorem table?_allocate (consistent : vault.Consistent) {parent : Handle} {record : Record}
    (found : vault.record? parent = some record) {path : String}
    (fits : (vault.allocate parent path).2.Fits) {change : Record → Record}
    (same : (change record).table = record.table) (other : Handle) :
    ((vault.allocate parent path).2.modify parent change).table? other =
      if other = (vault.allocate parent path).1 then some .empty else vault.table? other := by
  have kept := consistent.record?_allocate fits
  have older : parent ≠ (vault.allocate parent path).1 := by
    intro isNew
    rw [isNew, consistent.record?_allocate_fst fits] at found
    cases found
  have stillFound := (kept parent).trans ((if_neg older).trans found)
  rw [table?, record?_modify stillFound]
  by_cases isParent : other = parent
  · rw [if_pos isParent, if_neg (isParent ▸ older), isParent, table?, found, Option.map_some,
      same, Option.map_some]
  · rw [if_neg isParent, kept]
    split <;> rfl

/-- A block without bindings has been entered. -/
structure Opened (before : Vault) (block : Handle) (after : Vault) : Prop where
  frames : after.frames = ⟨.block, block⟩ :: before.frames
  fresh : before.record? block = none
  tables : ∀ other, after.table? other =
    if other = block then some .empty else before.table? other
  owned : ∀ other, after.ownedBy? other = if other = block then some [] else before.ownedBy? other
  live : after.live = before.live + 1
  sound : after.Sound

/-- A block is opened as long as not all numbers are taken by live records. -/
theorem enterBlock_opens {frame : Frame} {below : FrameStack} (sound : vault.Sound)
    (room : vault.live < UInt32.size) (frames : vault.frames = frame :: below)
    (live : vault.table? frame.record = some table) :
    ∃ block after, enterBlock vault = (.done block, after) ∧ vault.Opened block after := by
  obtain ⟨record, found, _⟩ := exists_record_of_table? live
  obtain ⟨path, entered⟩ := enter_of_cons .block frames found
  have allocated := sound.allocate room frame.record path
  have grown := sound.consistent.grown_of_enter entered (fits_modify.2 allocated.fits)
  refine ⟨_, _, entered, rfl, grown.fresh, ?_, grown.same, live_allocate vault frame.record path,
    (allocated.modify _ _).congr rfl rfl rfl⟩
  exact table?_allocate sound.consistent found allocated.fits rfl

/-- A scope without bindings has been created. -/
structure Created (before : Vault) (scope : Handle) (after : Vault) : Prop where
  frames : after.frames = before.frames
  fresh : before.table? scope = none
  tables : ∀ other, after.table? other =
    if other = scope then some .empty else before.table? other
  live : after.live = before.live + 1
  sound : after.Sound

/-- A scope is created as long as not all numbers are taken by live records. -/
theorem createOwned_creates {owner : Handle} (sound : vault.Sound)
    (room : vault.live < UInt32.size) (live : vault.table? owner = some table) (name : String) :
    ∃ scope after, createOwned owner name vault = (.done scope, after) ∧
      vault.Created scope after := by
  obtain ⟨record, found, _⟩ := exists_record_of_table? live
  obtain ⟨path, created⟩ := createOwned_of_some name found
  have allocated := sound.allocate room owner path
  refine ⟨_, _, created, frames_allocate vault owner path, ?_, ?_, live_allocate vault owner path,
    allocated.modify _ _⟩
  · rw [table?, sound.consistent.record?_allocate_fst allocated.fits]
    rfl
  · exact table?_allocate sound.consistent found allocated.fits rfl

/-- The owner of new scopes is live where all frames are. -/
theorem owner_live {frame : Frame} {below : FrameStack} (frames : vault.frames = frame :: below)
    (live : ∀ frame ∈ vault.frames, vault.isLive frame.record = true) :
    ∃ handle table, owner vault = (.done handle, vault) ∧ vault.table? handle = some table := by
  have found (frame : Frame) (member : frame ∈ vault.frames) :
      ∃ table, vault.table? frame.record = some table := by
    obtain ⟨record, found⟩ := isLive_iff_exists.1 (live frame member)
    exact ⟨record.table, by rw [table?, found]; rfl⟩
  rw [owner, Run.bind_of_done (Run.state_apply vault)]
  cases block : FrameStack.findKind? vault.frames .block with
  | some frame =>
      obtain ⟨table, tableFound⟩ := found frame (List.mem_of_find?_eq_some block)
      exact ⟨frame.record, table, rfl, tableFound⟩
  | none =>
      have lowest : (frame :: below).getLast (by simp) ∈ vault.frames := by
        rw [frames]
        exact List.getLast_mem _
      obtain ⟨table, tableFound⟩ := found _ lowest
      exact ⟨_, table, global_of_cons frames, tableFound⟩

/-- A block that owns nothing is left, and its bindings are gone. -/
theorem exitBlock_of_owned {below : FrameStack} (frames : vault.frames = ⟨.block, block⟩ :: below)
    (owned : vault.ownedBy? block = some []) (sound : vault.Sound) :
    ∃ after, exitBlock vault = (.done (), after) ∧ after.frames = below ∧
      (∀ other, after.table? other = if other = block then none else vault.table? other) ∧
      (∀ other, after.ownedBy? other = if other = block then none else vault.ownedBy? other) ∧
      after.live = vault.live - 1 ∧ after.Sound := by
  let popped : Vault := { vault with frames := below }
  obtain ⟨record, found, nothing⟩ := Option.map_eq_some_iff.1 owned
  have stillFound : popped.record? block = some record := found
  have live : popped.isLive block = true := isLive_of_record? stillFound
  have freed : releaseWithin (popped.slots.size + 1) block popped = some (popped.vacate block) := by
    refine (releaseWithin_succ_of_some stillFound).2 ⟨popped, ?_, rfl⟩
    rw [nothing]
    rfl
  refine ⟨popped.vacate block, ?_, rfl, fun other => ?_, fun other => ?_, rfl, ?_⟩
  · exact (leave_of_cons frames).trans (release_of_some freed)
  · rw [table?, record?_vacate live]
    split <;> rfl
  · rw [ownedBy?, record?_vacate live]
    split <;> rfl
  · have same : popped.Sound := sound.congr rfl rfl rfl
    exact same.vacate live

/-- All that a block leaves behind is what was written to an older scope while it was open. -/
theorem exitBlock_writes {before opened filled ended : Vault} {block entries : Handle}
    {bindings table earlier : Table} (opens : before.Opened block opened)
    (fills : opened.Writes block bindings filled) (writes : filled.Writes entries table ended)
    (stored : before.table? entries = some earlier) :
    ∃ left, exitBlock ended = (.done (), left) ∧ before.Writes entries table left := by
  have fresh : before.table? block = none := by
    rw [table?, opens.fresh]
    rfl
  have different : entries ≠ block := by
    rintro rfl
    cases stored.symm.trans fresh
  have owned (other : Handle) :
      ended.ownedBy? other = if other = block then some [] else before.ownedBy? other := by
    rw [writes.owned, fills.owned, opens.owned]
  obtain ⟨left, exited, leftFrames, leftTables, leftOwned, leftLive, leftSound⟩ :=
    exitBlock_of_owned ((writes.frames.trans fills.frames).trans opens.frames)
      ((owned block).trans (if_pos rfl)) (writes.sound (fills.sound opens.sound))
  refine ⟨left, exited, leftFrames, fun other => ?_, fun other => ?_, ?_, fun _ => leftSound⟩
  · rw [leftTables, writes.tables, fills.tables, opens.tables]
    by_cases isBlock : other = block
    · rw [if_pos isBlock, if_neg (isBlock ▸ different.symm), isBlock, fresh]
    · simp only [if_neg isBlock]
  · rw [leftOwned, owned]
    by_cases isBlock : other = block
    · rw [if_pos isBlock, isBlock, ownedBy?, opens.fresh]
      rfl
    · simp only [if_neg isBlock]
  · rw [leftLive, writes.live, fills.live, opens.live, Nat.add_sub_cancel]

/-- A definition writes one binding to the innermost scope. -/
theorem define_writes {frame : Frame} {below : FrameStack} (frames : vault.frames = frame :: below)
    (live : vault.table? frame.record = some table) (name : String) (value : Value) :
    ∃ cell after, define name value vault = (.done (), after) ∧
      vault.Writes frame.record (table.insert name ⟨cell, value⟩) after := by
  obtain ⟨record, found, rfl⟩ := exists_record_of_table? live
  have inserted (binding : Binding) : (record.define name binding).table =
      record.table.insert name binding := by
    unfold Record.define Record.detach
    split <;> rfl
  refine ⟨vault.cells, _, define_of_cons name value frames found, ?_⟩
  have written := writes_modify found (vault.cells + 1) (·.define name ⟨vault.cells, value⟩)
    (record.owned_define name _)
  rwa [inserted] at written

end Vault
end ScopeScript
