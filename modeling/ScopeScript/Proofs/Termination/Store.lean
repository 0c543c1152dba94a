import ScopeScript.Proofs.Termination.LoopFree
import ScopeScript.Proofs.Vault.Contents

/-!
# Stores without loops

A store is free of loops if all values are that its records bind or still remember. This is an
invariant of the kind that all operations keep, as long as the value they are given is free of
loops; and what an operation gives is free of loops.
-/

namespace ScopeScript

/-- The values that are bound in a table are free of loops. -/
def Table.LoopFree (table : Table) : Prop :=
  ∀ entry ∈ table.entries, entry.2.value.LoopFree

namespace Table.LoopFree

variable {table : Table}

theorem find? (free : table.LoopFree) {name : String} {binding : Binding}
    (found : table.find? name = some binding) : binding.value.LoopFree :=
  Table.Holds.find? free found

theorem values (free : table.LoopFree) : ∀ value ∈ table.values, value.LoopFree :=
  Table.Holds.values free

end Table.LoopFree

/-- The values that a record binds or still remembers are free of loops. -/
structure Record.LoopFree (record : Record) : Prop where
  table : record.table.LoopFree
  detached : ∀ binding ∈ record.detached, binding.value.LoopFree

/-- The values in a store are free of loops. -/
def Vault.LoopFree (vault : Vault) : Prop :=
  ∀ place record, vault.recordAt place = some record → record.LoopFree

/-- A store is loop-free if its values are. -/
theorem Vault.loopFree_eq : Vault.LoopFree = Vault.Holds Value.LoopFree := by
  funext vault
  apply propext
  constructor
  · intro free place record held
    exact ⟨(free place record held).table, (free place record held).detached⟩
  · intro holds place record held
    exact ⟨(holds place record held).table, (holds place record held).detached⟩

namespace Vault.LoopFree

variable {vault : Vault}

/-- The bindings of a scope are loop-free. -/
theorem bindings (free : vault.LoopFree) {handle : Handle} {table : Table}
    (found : vault.bindings handle = .ok table) : table.LoopFree := by
  rw [loopFree_eq] at free
  exact free.bindings found

/-- What is found under a name has no loops. -/
theorem lookup (free : vault.LoopFree) {handle : Handle} {name : String} {binding : Binding}
    (found : vault.lookup handle name = .ok (some binding)) : binding.value.LoopFree := by
  rw [loopFree_eq] at free
  exact free.lookup found

/-- What is read through a reference has no loops. -/
theorem read (free : vault.LoopFree) (reference : Reference) :
    (vault.read reference).LoopFree := by
  rw [loopFree_eq] at free
  exact free.read .none reference

end Vault.LoopFree

namespace Vault

/-- That a store is loop-free is an invariant. -/
theorem invariant_loopFree : Invariant LoopFree Value.LoopFree := by
  rw [loopFree_eq]
  exact invariant_holds Value.LoopFree

/-- An operation keeps a store free of loops, and its result has a property. -/
abbrev Harmless (P : α → Prop) (operation : Run Vault α) : Prop :=
  Run.Ensures LoopFree P operation

namespace Harmless

/-- Nothing is said about a result. -/
abbrev any (_ : α) : Prop := True

/-- What a name is resolved to has no loops. -/
theorem resolve (name : String) :
    Harmless (fun found => found.2.LoopFree) (Vault.resolve name) :=
  invariant_loopFree.resolve name

/-- Only loop-free values may be bound. -/
theorem define (name : String) {value : Value} (free : value.LoopFree) :
    Harmless any (Vault.define name value) :=
  invariant_loopFree.define name free

/-- The same in any scope. -/
theorem defineIn (handle : Handle) (name : String) {value : Value} (free : value.LoopFree) :
    Harmless any (Vault.defineIn handle name value) :=
  invariant_loopFree.defineIn handle name free

theorem unbind (name : String) : Harmless any (Vault.unbind name) :=
  invariant_loopFree.unbind name

theorem eraseIn (handle : Handle) (name : String) : Harmless any (Vault.eraseIn handle name) :=
  invariant_loopFree.eraseIn handle name

theorem clearIn (handle : Handle) : Harmless any (Vault.clearIn handle) :=
  invariant_loopFree.clearIn handle

/-- Only loop-free values may be assigned. -/
theorem write (reference : Reference) {value : Value} (free : value.LoopFree) :
    Harmless any (Vault.write reference value) :=
  invariant_loopFree.write reference free

theorem enter (kind : FrameKind) : Harmless any (Vault.enter kind) :=
  invariant_loopFree.enter kind

theorem leave (kind : FrameKind) : Harmless any (Vault.leave kind) :=
  invariant_loopFree.leave kind

theorem declare (name : String) : Harmless any (Vault.declare name) :=
  invariant_loopFree.declare name

/-- A declared scope has no loops of its own, so it may be bound. -/
theorem endDeclaration (handle : Handle) (name : String) :
    Harmless any (Vault.endDeclaration handle name) :=
  invariant_loopFree.endDeclaration handle name (.scope handle)

theorem createOwned (owner : Handle) (name : String) :
    Harmless any (Vault.createOwned owner name) :=
  invariant_loopFree.createOwned owner name

theorem enterNamed (handle : Handle) : Harmless any (Vault.enterNamed handle) :=
  invariant_loopFree.enterNamed handle

theorem exitNamed : Harmless any Vault.exitNamed :=
  invariant_loopFree.exitNamed

end Harmless

end Vault

end ScopeScript
