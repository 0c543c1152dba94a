import ScopeScript.Outcome
import ScopeScript.Vault.Table

/-!
# The scope store

The store keeps scope records in numbered slots. Allocating and freeing a slot each move its
generation on by one, so that a handle to a freed record is recognised however often its slot is
used again. Freed slots are used again last-in, first-out. Slots are never given back, and their
numbers are 32-bit words: after `2 ^ 32` of them, a new record would take the slot of another one.

A record binds names and owns named scopes. Leaving a block frees its record and, before it, all
scopes it owns, depth first; nothing else frees records. Names are resolved along the stack of
active frames from the innermost one outwards.
-/

namespace ScopeScript

/-- The bindings of a scope and the scopes it owns. -/
structure Record where
  path : String
  parent : Handle
  table : Table := .empty
  owned : List Handle := []
  blocks : Nat := 0
  /-- Cells that have lost their name; an assignment under way may still refer to them. -/
  detached : List Binding := []
  deriving Inhabited

namespace Record

/-- Remember the cell a name is about to lose. -/
def detach (record : Record) (name : String) : Record :=
  match record.table.find? name with
  | some binding => { record with detached := binding :: record.detached }
  | none => record

/-- Bind a name to a new cell. -/
def define (record : Record) (name : String) (binding : Binding) : Record :=
  let record := record.detach name
  { record with table := record.table.insert name binding }

/-- Change the value of the cell a name is bound to, or bind it to a new cell. -/
def rebind (record : Record) (name : String) (binding : Binding) : Record :=
  match record.table.find? name with
  | some old =>
      { record with table := record.table.insert name { old with value := binding.value } }
  | none => { record with table := record.table.insert name binding }

/-- Remove a name. -/
def erase (record : Record) (name : String) : Record :=
  let record := record.detach name
  { record with table := record.table.erase name }

/-- Remove all names. -/
def clear (record : Record) : Record :=
  { record with
    table := .empty
    detached := record.table.entries.map (·.2) ++ record.detached }

/-- The value of a cell that was found under a name. -/
def read (record : Record) (name : String) (cell : Nat) : Value :=
  match record.table.find? name with
  | some binding =>
      if binding.cell = cell then binding.value else detachedValue
  | none => detachedValue
where
  /-- The value of the cell among those that have lost their name. -/
  detachedValue : Value :=
    ((record.detached.find? (·.cell == cell)).map (·.value)).getD .none

/-- Change the value of a cell that was found under a name. -/
def write (record : Record) (name : String) (cell : Nat) (value : Value) : Record :=
  match record.table.find? name with
  | some binding =>
      if binding.cell = cell then
        { record with table := record.table.insert name { binding with value } }
      else
        { record with detached := updated }
  | none => { record with detached := updated }
where
  /-- The cells that have lost their name, with the new value in place. -/
  updated : List Binding :=
    record.detached.map fun binding =>
      if binding.cell = cell then { binding with value } else binding

end Record

/-- A place for a record. -/
structure Slot where
  generation : UInt32
  record? : Option Record
  deriving Inhabited

/-- The scope store. -/
structure Vault where
  slots : Array Slot := #[]
  free : List UInt32 := []
  frames : FrameStack := []
  roots : Nat := 0
  live : Nat := 0
  cells : Nat := 0
  deriving Inhabited

/-- A cell that name resolution has found. -/
structure Reference where
  handle : Handle
  name : String
  cell : Nat
  deriving DecidableEq, Repr, Inhabited

namespace Vault

/-- The store without records. -/
def empty : Vault := {}

/-- Diagnostic for a handle that can never have been valid. -/
def invalidHandle (handle : Handle) : Diagnostic where
  kind := .staleHandle
  span := .null
  message := "invalid scope handle " ++ handle.text

/-- Diagnostic for a handle whose record has been freed. -/
def staleHandle (handle : Handle) : Diagnostic where
  kind := .staleHandle
  span := .null
  message := "scope " ++ handle.text ++ " does not exist any more"

/-- Diagnostic for a name without a binding. -/
def unboundName (name : String) : Diagnostic where
  kind := .unboundName
  span := .null
  message := "`" ++ name ++ "` is not defined"

/-- The record a handle denotes. -/
def record? (vault : Vault) (handle : Handle) : Option Record :=
  if handle.isNull then
    none
  else
    match vault.slots[handle.slot]? with
    | some slot => if slot.generation = handle.generation then slot.record? else none
    | none => none

/-- The record a handle denotes, or why it denotes none. -/
def find (vault : Vault) (handle : Handle) : Except Diagnostic Record :=
  match vault.record? handle with
  | some record => .ok record
  | none =>
      if handle.isNull || vault.slots.size ≤ handle.slot then .error (invalidHandle handle)
      else .error (staleHandle handle)

/-- Whether a handle denotes a record. -/
def isLive (vault : Vault) (handle : Handle) : Bool :=
  (vault.record? handle).isSome

/-- The path of a scope, for display. -/
def path (vault : Vault) (handle : Handle) : String :=
  match vault.record? handle with
  | some record => record.path
  | none => "<stale " ++ handle.text ++ ">"

/-- Number of active frames. -/
def depth (vault : Vault) : Nat :=
  vault.frames.length

/-- Change the record in the slot of a handle. -/
def modify (vault : Vault) (handle : Handle) (change : Record → Record) : Vault :=
  { vault with
    slots := vault.slots.modify handle.slot fun slot =>
      { slot with record? := slot.record?.map change } }

/-- Take the slot that was freed last or, if there is none, add a new one. -/
def takeSlot (vault : Vault) : UInt32 × Vault :=
  match vault.free with
  | index :: free => (index, { vault with free })
  | [] => (vault.slots.size, { vault with slots := vault.slots.push ⟨0, none⟩ })

/-- Put a new record without bindings into a slot. -/
def allocate (vault : Vault) (parent : Handle) (path : String) : Handle × Vault :=
  let (index, vault) := vault.takeSlot
  let generation := ((vault.slots[index.toNat]?).map (·.generation)).getD 0 + 1
  (⟨index, generation⟩,
    { vault with
      slots := vault.slots.setIfInBounds index.toNat ⟨generation, some { path, parent }⟩
      live := vault.live + 1 })

/-- Free the slot of a handle. -/
def vacate (vault : Vault) (handle : Handle) : Vault :=
  { vault with
    slots := vault.slots.modify handle.slot fun slot => ⟨slot.generation + 1, none⟩
    free := handle.index :: vault.free
    live := vault.live - 1 }

/-- Free a record after everything it owns, depth first; handles that are not live are skipped.
The first argument bounds the depth. -/
def releaseWithin : Nat → Handle → Vault → Option Vault
  | 0, _, _ => none
  | bound + 1, handle, vault =>
      match vault.record? handle with
      | none => some vault
      | some record =>
          (record.owned.foldlM (fun vault child => releaseWithin bound child vault) vault).map
            (·.vacate handle)

/-- Free a record and everything it owns. A chain of owners that is longer than the number of
slots runs in a circle, and then freeing never ends. -/
def release (handle : Handle) : Run Vault Unit := fun vault =>
  match releaseWithin (vault.slots.size + 1) handle vault with
  | some vault => (.done (), vault)
  | none => (.endless, vault)

/-- The record of an active scope. It is a crash if there is none. -/
def findActive (vault : Vault) (handle : Handle) : Except Crash Record :=
  match vault.find handle with
  | .ok record => .ok record
  | .error diagnostic => .error (.inactiveRecord diagnostic.text)

/-- The record of an active scope. -/
def activeRecord (handle : Handle) : Run Vault Record := do
  Run.orCrash ((← Run.state).findActive handle)

/-- The innermost active scope. -/
def current : Run Vault Handle := do
  return (← Run.orCrash (FrameStack.current (← Run.state).frames)).record

/-- The outermost active scope. -/
def global : Run Vault Handle := do
  return (← Run.orCrash (FrameStack.globals (← Run.state).frames)).record

/-- The innermost active block, which owns what native routines create. -/
def owner : Run Vault Handle := do
  match FrameStack.findKind? (← Run.state).frames .block with
  | some frame => return frame.record
  | none => global

/-- Make a scope the innermost one. -/
def push (kind : FrameKind) (handle : Handle) : Run Vault Unit :=
  Run.update fun vault => { vault with frames := ⟨kind, handle⟩ :: vault.frames }

/-- Take the innermost frame from the stack. -/
def pop : Run Vault Frame := do
  let (frame, frames) ← Run.orCrash (FrameStack.pop (← Run.state).frames)
  Run.update fun vault => { vault with frames }
  return frame

/-- Allocate a record. -/
def create (parent : Handle) (path : String) : Run Vault Handle := fun vault =>
  let (handle, vault) := vault.allocate parent path
  (.done handle, vault)

/-- Enter a new block with the given kind of frame. -/
def enter (kind : FrameKind) : Run Vault Handle := do
  let vault ← Run.state
  if vault.frames.isEmpty then
    let handle ← create .zero ("$" ++ toString vault.roots)
    Run.update fun vault => { vault with roots := vault.roots + 1 }
    push kind handle
    return handle
  else
    let parent ← current
    let record ← activeRecord parent
    let handle ← create parent (record.path ++ "$" ++ toString record.blocks)
    Run.update (·.modify parent fun record => { record with blocks := record.blocks + 1 })
    push kind handle
    return handle

/-- Leave the innermost block, which must have the given kind of frame, and free it. -/
def leave (kind : FrameKind) : Run Vault Unit := do
  let frame ← pop
  if frame.kind = kind then
    release frame.record
  else
    Run.crash (.wrongExit frame.kind kind)

/-- Enter a new block. -/
def enterBlock : Run Vault Handle := enter .block

/-- Leave the innermost block. -/
def exitBlock : Run Vault Unit := leave .block

/-- Enter a new box for a value that is no scope. -/
def enterBoxed : Run Vault Handle := enter .boxed

/-- Leave the innermost box. -/
def exitBoxed : Run Vault Unit := leave .boxed

/-- Leave the innermost frame, whatever its kind, and free it unless it is a named scope. -/
def dropFrame : Run Vault Unit := do
  let frame ← pop
  if frame.kind = .named then
    return ()
  else
    release frame.record

/-- Leave frames until at most `depth` are left; the second argument bounds their number. -/
def unwindWithin (depth : Int) : Nat → Run Vault Unit
  | 0 => return ()
  | bound + 1 => do
      if depth < (← Run.state).depth then
        dropFrame
        unwindWithin depth bound

/-- Leave frames until at most `depth` are left. -/
def unwind (depth : Int) : Run Vault Unit := do
  unwindWithin depth ((← Run.state).depth + 1)

/-- The path of a named scope inside a scope. -/
def memberPath (path name : String) : String :=
  path ++ "." ++ name ++ "$0"

/-- Create a named scope inside the innermost one and enter it. -/
def declare (name : String) : Run Vault Handle := do
  let parent ← current
  let record ← activeRecord parent
  let handle ← create parent (memberPath record.path name)
  push .named handle
  return handle

/-- A cell number that has not been used. -/
def freshCell : Run Vault Nat := do
  let cell := (← Run.state).cells
  Run.update fun vault => { vault with cells := vault.cells + 1 }
  return cell

/-- Bind a name in a record, keeping the cell it is bound to. A name must not be empty. -/
def rebind (handle : Handle) (name : String) (value : Value) : Run Vault Unit := do
  if name = "" then
    Run.crash .namelessBinding
  else
    let cell ← freshCell
    Run.update (·.modify handle fun record => record.rebind name ⟨cell, value⟩)

/-- Leave a declared scope. The enclosing scope owns it from now on and binds its name. -/
def endDeclaration (handle : Handle) (name : String) : Run Vault Unit := do
  let frame ← pop
  if frame.kind = .named ∧ frame.record = handle then
    let parent ← current
    let _ ← activeRecord parent
    Run.update (·.modify parent fun record => { record with owned := record.owned ++ [handle] })
    rebind parent name (.scope handle)
  else
    Run.crash (.wrongDeclaration handle frame)

/-- Create a named scope owned by a given scope, without entering or binding it. -/
def createOwned (owner : Handle) (name : String) : Run Vault Handle := do
  let record ← Run.orFail ((← Run.state).find owner)
  let handle ← create owner (memberPath record.path name)
  Run.update (·.modify owner fun record => { record with owned := record.owned ++ [handle] })
  return handle

/-- Enter an existing scope. -/
def enterNamed (handle : Handle) : Run Vault Unit := do
  let _ ← Run.orFail ((← Run.state).find handle)
  push .named handle

/-- Leave a scope that was entered by its handle. -/
def exitNamed : Run Vault Unit := do
  let frame ← pop
  if frame.kind = .named then
    return ()
  else
    Run.crash (.wrongExit frame.kind .named)

/-- The innermost binding of a name among the scopes of the given frames, with its scope. -/
def bindingAlong (vault : Vault) (name : String) :
    FrameStack → Except Crash (Option (Handle × Binding))
  | [] => .ok none
  | frame :: rest =>
      match vault.findActive frame.record with
      | .error crash => .error crash
      | .ok record =>
          match record.table.find? name with
          | some binding => .ok (some (frame.record, binding))
          | none => vault.bindingAlong name rest

/-- The innermost binding of a name in the active scopes, with its scope. -/
def innermost (name : String) : Run Vault (Option (Handle × Binding)) := fun vault =>
  Run.orCrash (vault.bindingAlong name vault.frames) vault

/-- Find the innermost binding of a name. -/
def resolve (name : String) : Run Vault (Reference × Value) := do
  match ← innermost name with
  | some (handle, binding) => return (⟨handle, name, binding.cell⟩, binding.value)
  | none => Run.fail (unboundName name)

/-- Bind a name to a new cell in the innermost scope. -/
def define (name : String) (value : Value) : Run Vault Unit := do
  let handle ← current
  let _ ← activeRecord handle
  let cell ← freshCell
  Run.update (·.modify handle fun record => record.define name ⟨cell, value⟩)

/-- Bind a name in a given scope, keeping the cell it is bound to. -/
def defineIn (handle : Handle) (name : String) (value : Value) : Run Vault Unit := do
  let _ ← Run.orFail ((← Run.state).find handle)
  rebind handle name value

/-- The binding of a name in a given scope only. -/
def lookup (vault : Vault) (handle : Handle) (name : String) :
    Except Diagnostic (Option Binding) :=
  (vault.find handle).map (·.table.find? name)

/-- The bindings of a given scope. -/
def bindings (vault : Vault) (handle : Handle) : Except Diagnostic Table :=
  (vault.find handle).map (·.table)

/-- Remove the innermost binding of a name; tells whether there was one. -/
def unbind (name : String) : Run Vault Bool := do
  match ← innermost name with
  | some (handle, _) =>
      Run.update (·.modify handle (·.erase name))
      return true
  | none => return false

/-- Remove the binding of a name from a live scope; tells whether there was one. -/
def eraseIn (handle : Handle) (name : String) : Run Vault Bool := do
  let table ← Run.orFail ((← Run.state).bindings handle)
  Run.update (·.modify handle (·.erase name))
  return (table.find? name).isSome

/-- Remove all bindings of a scope. -/
def clearIn (handle : Handle) : Run Vault Unit :=
  Run.update (·.modify handle (·.clear))

/-- The value of a cell. -/
def read (vault : Vault) (reference : Reference) : Value :=
  match vault.record? reference.handle with
  | some record => record.read reference.name reference.cell
  | none => .none

/-- Change the value of a cell. -/
def write (reference : Reference) (value : Value) : Run Vault Unit :=
  Run.update fun vault =>
    if vault.isLive reference.handle then
      vault.modify reference.handle (·.write reference.name reference.cell value)
    else
      vault

end Vault

end ScopeScript
