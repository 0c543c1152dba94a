import ScopeScript.Proofs.Computation
import ScopeScript.Proofs.Vault.Release

/-!
# What the operations of the store do

One equation for each way in which an operation of the store can go, with the store it leaves. The
conditions are on the innermost frames and on the records that handles denote; together they cover
all stores.
-/

namespace ScopeScript
namespace Vault

variable {vault : Vault}

/-! ## Handles and frames -/

theorem find_of_some {handle : Handle} {record : Record}
    (found : vault.record? handle = some record) : vault.find handle = .ok record := by
  rw [find, found]

/-- A handle that is not live is refused as stale, whatever the reason. -/
theorem find_of_none {handle : Handle} (missing : vault.record? handle = none) :
    ∃ diagnostic, vault.find handle = .error diagnostic ∧ diagnostic.kind = .staleHandle := by
  rw [find, missing]
  by_cases invalid : (handle.isNull || decide (vault.slots.size ≤ handle.slot)) = true
  · exact ⟨invalidHandle handle, by simp only [invalid, if_true], rfl⟩
  · exact ⟨staleHandle handle, by simp only [invalid]; rfl, rfl⟩

theorem findActive_of_some {handle : Handle} {record : Record}
    (found : vault.record? handle = some record) : vault.findActive handle = .ok record := by
  rw [findActive, find_of_some found]

theorem findActive_of_none {handle : Handle} (missing : vault.record? handle = none) :
    ∃ reason, vault.findActive handle = .error (.inactiveRecord reason) := by
  obtain ⟨diagnostic, refused, _⟩ := find_of_none missing
  exact ⟨diagnostic.text, by rw [findActive, refused]⟩

theorem activeRecord_of_some {handle : Handle} {record : Record}
    (found : vault.record? handle = some record) :
    activeRecord handle vault = (.done record, vault) := by
  simp [activeRecord, Run.bind_apply, findActive_of_some found]

theorem activeRecord_of_none {handle : Handle} (missing : vault.record? handle = none) :
    ∃ crash, activeRecord handle vault = (.crashed crash, vault) := by
  obtain ⟨reason, refused⟩ := findActive_of_none missing
  exact ⟨.inactiveRecord reason, by simp [activeRecord, Run.bind_apply, refused]⟩

/-- The innermost scope is the record of the topmost frame. -/
theorem current_of_cons {frame : Frame} {below : FrameStack}
    (frames : vault.frames = frame :: below) : current vault = (.done frame.record, vault) := by
  simp [current, Run.bind_apply, frames, FrameStack.current]

theorem current_of_nil (frames : vault.frames = []) :
    current vault = (.crashed .noCurrentFrame, vault) := by
  simp [current, Run.bind_apply, frames, FrameStack.current]

/-- The global scope is the record of the frame that was entered first. -/
theorem global_of_cons {frame : Frame} {below : FrameStack}
    (frames : vault.frames = frame :: below) :
    global vault = (.done ((frame :: below).getLast (by simp)).record, vault) := by
  simp [global, Run.bind_apply, frames, FrameStack.globals,
    List.getLast?_eq_some_getLast (List.cons_ne_nil frame below)]

theorem pop_of_cons {frame : Frame} {below : FrameStack}
    (frames : vault.frames = frame :: below) :
    pop vault = (.done frame, { vault with frames := below }) := by
  simp [pop, Run.bind_apply, frames, FrameStack.pop]

/-- Freeing ends in the store that the recursion ends in. -/
theorem release_of_some {handle : Handle} {rest : Vault}
    (freed : releaseWithin (vault.slots.size + 1) handle vault = some rest) :
    release handle vault = (.done (), rest) := by
  rw [release, freed]

/-! ## Entering and leaving -/

/-- The outermost block is the next root, and its path says which one. -/
theorem enter_root (kind : FrameKind) (frames : vault.frames = []) {path : String}
    (isPath : path = "$" ++ toString vault.roots) :
    enter kind vault =
      (.done (vault.allocate .zero path).1,
        { (vault.allocate .zero path).2 with
          roots := (vault.allocate .zero path).2.roots + 1
          frames := [⟨kind, (vault.allocate .zero path).1⟩] }) := by
  simp [enter, Run.bind_apply, frames, create, push, isPath]

/-- The first block is entered as a root of its own, with the zero handle as its parent. -/
theorem enter_of_nil (kind : FrameKind) (frames : vault.frames = []) :
    ∃ path, enter kind vault =
      (.done (vault.allocate .zero path).1,
        { (vault.allocate .zero path).2 with
          roots := (vault.allocate .zero path).2.roots + 1
          frames := [⟨kind, (vault.allocate .zero path).1⟩] }) :=
  ⟨_, enter_root kind frames rfl⟩

/-- The path of a block counts the blocks of the enclosing scope before it. -/
theorem enter_inside (kind : FrameKind) {frame : Frame} {below : FrameStack} {record : Record}
    (frames : vault.frames = frame :: below)
    (found : vault.record? frame.record = some record) {path : String}
    (isPath : path = record.path ++ "$" ++ toString record.blocks) :
    enter kind vault =
      (.done (vault.allocate frame.record path).1,
        { (vault.allocate frame.record path).2.modify frame.record
            (fun record => { record with blocks := record.blocks + 1 }) with
          frames := ⟨kind, (vault.allocate frame.record path).1⟩ :: vault.frames }) := by
  simp [enter, Run.bind_apply, frames, current_of_cons frames, activeRecord_of_some found, create,
    push, isPath]

/-- A block is entered by a new record below that of the topmost frame, which counts its blocks. -/
theorem enter_of_cons (kind : FrameKind) {frame : Frame} {below : FrameStack} {record : Record}
    (frames : vault.frames = frame :: below)
    (found : vault.record? frame.record = some record) :
    ∃ path, enter kind vault =
      (.done (vault.allocate frame.record path).1,
        { (vault.allocate frame.record path).2.modify frame.record
            (fun record => { record with blocks := record.blocks + 1 }) with
          frames := ⟨kind, (vault.allocate frame.record path).1⟩ :: vault.frames }) :=
  ⟨_, enter_inside kind frames found rfl⟩

/-- No block is entered where the record of the topmost frame is not live. -/
theorem enter_of_inactive (kind : FrameKind) {frame : Frame} {below : FrameStack}
    (frames : vault.frames = frame :: below) (missing : vault.record? frame.record = none) :
    ∃ crash, enter kind vault = (.crashed crash, vault) := by
  obtain ⟨crash, refused⟩ := activeRecord_of_none missing
  exact ⟨crash, by simp [enter, Run.bind_apply, frames, current_of_cons frames, refused]⟩

/-- Leaving a block frees its record after its frame has been dropped. -/
theorem leave_of_cons {kind : FrameKind} {handle : Handle} {below : FrameStack}
    (frames : vault.frames = ⟨kind, handle⟩ :: below) :
    leave kind vault = release handle { vault with frames := below } := by
  simp [leave, Run.bind_apply, pop_of_cons frames]

/-- A declaration creates a record whose path goes on from that of the topmost frame. -/
theorem declare_inside (name : String) {frame : Frame} {below : FrameStack} {record : Record}
    (frames : vault.frames = frame :: below)
    (found : vault.record? frame.record = some record) {path : String}
    (isPath : path = memberPath record.path name) :
    declare name vault =
      (.done (vault.allocate frame.record path).1,
        { (vault.allocate frame.record path).2 with
          frames := ⟨.named, (vault.allocate frame.record path).1⟩ :: vault.frames }) := by
  simp [declare, Run.bind_apply, current_of_cons frames, activeRecord_of_some found, create, push,
    isPath]

theorem declare_of_cons (name : String) {frame : Frame} {below : FrameStack} {record : Record}
    (frames : vault.frames = frame :: below)
    (found : vault.record? frame.record = some record) :
    ∃ path, declare name vault =
      (.done (vault.allocate frame.record path).1,
        { (vault.allocate frame.record path).2 with
          frames := ⟨.named, (vault.allocate frame.record path).1⟩ :: vault.frames }) :=
  ⟨_, declare_inside name frames found rfl⟩

/-- Nothing is declared where the record of the topmost frame is not live. -/
theorem declare_of_inactive (name : String) {frame : Frame} {below : FrameStack}
    (frames : vault.frames = frame :: below) (missing : vault.record? frame.record = none) :
    ∃ crash, declare name vault = (.crashed crash, vault) := by
  obtain ⟨crash, refused⟩ := activeRecord_of_none missing
  exact ⟨crash, by simp [declare, Run.bind_apply, current_of_cons frames, refused]⟩

theorem declare_of_nil (name : String) (frames : vault.frames = []) :
    declare name vault = (.crashed .noCurrentFrame, vault) := by
  simp [declare, Run.bind_apply, current_of_nil frames]

/-- A scope that is created for an owner is owned from the start, and its path goes on from that of
the owner. -/
theorem createOwned_inside (name : String) {owner : Handle} {record : Record}
    (found : vault.record? owner = some record) {path : String}
    (isPath : path = memberPath record.path name) :
    createOwned owner name vault =
      (.done (vault.allocate owner path).1,
        (vault.allocate owner path).2.modify owner fun record =>
          { record with owned := record.owned ++ [(vault.allocate owner path).1] }) := by
  simp [createOwned, Run.bind_apply, find_of_some found, create, isPath]

theorem createOwned_of_some (name : String) {owner : Handle} {record : Record}
    (found : vault.record? owner = some record) :
    ∃ path, createOwned owner name vault =
      (.done (vault.allocate owner path).1,
        (vault.allocate owner path).2.modify owner fun record =>
          { record with owned := record.owned ++ [(vault.allocate owner path).1] }) :=
  ⟨_, createOwned_inside name found rfl⟩

/-- Nothing is created for an owner that is not live. -/
theorem createOwned_of_none (name : String) {owner : Handle} {diagnostic : Diagnostic}
    (refused : vault.find owner = .error diagnostic) :
    createOwned owner name vault = (.failed diagnostic, vault) := by
  simp [createOwned, Run.bind_apply, refused]

/-- A visit puts the frame of a live scope on top. -/
theorem enterNamed_of_some {handle : Handle} {record : Record}
    (found : vault.record? handle = some record) :
    enterNamed handle vault =
      (.done (), { vault with frames := ⟨.named, handle⟩ :: vault.frames }) := by
  simp [enterNamed, Run.bind_apply, find_of_some found, push]

/-- A scope that is not live cannot be visited. -/
theorem enterNamed_of_none {handle : Handle} {diagnostic : Diagnostic}
    (refused : vault.find handle = .error diagnostic) :
    enterNamed handle vault = (.failed diagnostic, vault) := by
  simp [enterNamed, Run.bind_apply, refused]

/-- The end of a visit drops its frame and nothing else. -/
theorem exitNamed_of_cons {handle : Handle} {below : FrameStack}
    (frames : vault.frames = ⟨.named, handle⟩ :: below) :
    exitNamed vault = (.done (), { vault with frames := below }) := by
  simp [exitNamed, Run.bind_apply, pop_of_cons frames]

/-! ## Bindings -/

/-- A binding with a name is made with a new cell. -/
theorem rebind_of_ne (handle : Handle) {name : String} (value : Value) (named : name ≠ "") :
    rebind handle name value vault =
      (.done (), { vault with cells := vault.cells + 1 }.modify handle
        fun record => record.rebind name ⟨vault.cells, value⟩) := by
  simp [rebind, Run.bind_apply, freshCell, named]

/-- The empty name cannot be bound. -/
theorem rebind_empty (handle : Handle) (value : Value) :
    rebind handle "" value vault = (.crashed .namelessBinding, vault) := rfl

/-- The end of a declaration hands the declared scope over to the scope outside and binds it there.
-/
theorem endDeclaration_of_cons {handle : Handle} {frame : Frame} {below : FrameStack}
    {record : Record} (name : String)
    (frames : vault.frames = ⟨.named, handle⟩ :: frame :: below)
    (found : vault.record? frame.record = some record) :
    endDeclaration handle name vault =
      rebind frame.record name (.scope handle)
        ({ vault with frames := frame :: below }.modify frame.record fun record =>
          { record with owned := record.owned ++ [handle] }) := by
  let popped : Vault := { vault with frames := frame :: below }
  have currentFound : current popped = (.done frame.record, popped) := current_of_cons rfl
  have recordFound : activeRecord frame.record popped = (.done record, popped) :=
    activeRecord_of_some found
  simp [endDeclaration, Run.bind_apply, pop_of_cons frames, popped, currentFound, recordFound]

/-- A definition binds a name to a new cell in the record of the topmost frame. -/
theorem define_of_cons (name : String) (value : Value) {frame : Frame} {below : FrameStack}
    {record : Record} (frames : vault.frames = frame :: below)
    (found : vault.record? frame.record = some record) :
    define name value vault =
      (.done (), { vault with cells := vault.cells + 1 }.modify frame.record
        fun record => record.define name ⟨vault.cells, value⟩) := by
  simp [define, Run.bind_apply, current_of_cons frames, activeRecord_of_some found, freshCell]

/-- A live scope is bound in as the innermost one is when a declaration ends. -/
theorem defineIn_of_some {handle : Handle} {record : Record} (name : String) (value : Value)
    (found : vault.record? handle = some record) :
    defineIn handle name value vault = rebind handle name value vault := by
  simp [defineIn, Run.bind_apply, find_of_some found]

/-- Nothing is bound in a scope that is not live. -/
theorem defineIn_of_none {handle : Handle} {diagnostic : Diagnostic} (name : String)
    (value : Value) (refused : vault.find handle = .error diagnostic) :
    defineIn handle name value vault = (.failed diagnostic, vault) := by
  simp [defineIn, Run.bind_apply, refused]

/-- Among live frames the search for a name finds a binding of one of them, or nothing. -/
theorem bindingAlong_of_live (name : String) {frames : FrameStack}
    (live : ∀ frame ∈ frames, vault.isLive frame.record = true) :
    ∃ found, vault.bindingAlong name frames = .ok found ∧
      ∀ handle binding, found = some (handle, binding) → vault.isLive handle = true := by
  induction frames with
  | nil => exact ⟨none, rfl, by simp⟩
  | cons frame frames inductionHypothesis =>
      obtain ⟨record, found⟩ := isLive_iff_exists.1 (live frame List.mem_cons_self)
      rw [bindingAlong, findActive_of_some found]
      cases bound : record.table.find? name with
      | some binding =>
          refine ⟨some (frame.record, binding), by simp only [bound], ?_⟩
          rintro handle binding' ⟨⟩
          exact isLive_of_record? found
      | none =>
          simp only [bound]
          exact inductionHypothesis fun other member => live other (List.mem_cons_of_mem _ member)

end Vault
end ScopeScript
