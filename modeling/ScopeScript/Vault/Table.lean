import ScopeScript.Value
import ScopeScript.Vault.Frame

/-!
# Tables of bindings

A binding is a cell with a value. Cells are numbered so that an assignment which has found its
target before it computes the new value writes to that very cell and not to one that has taken
its name in the meantime.

A table binds names to cells, each name at most once. It is seen through `Table.find?`; the order
of its entries means nothing, and names are listed in increasing order, byte by byte.
-/

namespace ScopeScript

/-- A numbered cell with its value. -/
structure Binding where
  cell : Nat
  value : Value
  deriving Inhabited

/-- Bindings by name. -/
structure Table where
  entries : List (String × Binding)
  /-- No name is bound twice. -/
  nodup : (entries.map (·.1)).Nodup

namespace Table

/-- The table without bindings. -/
def empty : Table := ⟨[], .nil⟩

instance : Inhabited Table := ⟨empty⟩

/-- The binding of a name. -/
def find? (table : Table) (name : String) : Option Binding :=
  (table.entries.find? (·.1 == name)).map (·.2)

/-- Remove the binding of a name. -/
def erase (table : Table) (name : String) : Table :=
  ⟨table.entries.filter (·.1 != name), table.nodup.sublist (List.filter_sublist.map _)⟩

theorem not_mem_names_erase (table : Table) (name : String) :
    name ∉ (table.erase name).entries.map (·.1) := by
  simp [erase]

/-- Bind a name, replacing its binding. -/
def insert (table : Table) (name : String) (binding : Binding) : Table :=
  ⟨(name, binding) :: (table.erase name).entries,
    List.nodup_cons.2 ⟨table.not_mem_names_erase name, (table.erase name).nodup⟩⟩

/-- Number of bound names. -/
def size (table : Table) : Nat :=
  table.entries.length

/-- Whether a text comes before another one or equals it. -/
def textLE (left right : String) : Bool :=
  !decide (right < left)

/-- The bound names in increasing order. -/
def names (table : Table) : List String :=
  (table.entries.map (·.1)).mergeSort textLE

/-- The bound values in the order of their names. -/
def values (table : Table) : List Value :=
  table.names.filterMap fun name => (table.find? name).map (·.value)

/-- Bind a name to a new cell without a value; the empty name stays unbound. Also gives the new
binding and the one it replaces. -/
def declare (table : Table) (name : String) (cell : Nat) :
    Table × Option Binding × Option Binding :=
  if name = "" then
    (table, none, none)
  else
    let binding : Binding := ⟨cell, .none⟩
    (table.insert name binding, some binding, table.find? name)

/-- The binding of a name, made if there is none; the empty name has none. Also tells whether the
name was bound before. -/
def findOrDeclare (table : Table) (name : String) (cell : Nat) :
    Table × Option Binding × Bool :=
  if name = "" then
    (table, none, false)
  else
    match table.find? name with
    | some binding => (table, some binding, true)
    | none =>
        let (table, binding?, _) := table.declare name cell
        (table, binding?, false)

/-- Change the value of a bound name. -/
def assign (table : Table) (name : String) (value : Value) : Except Crash Table :=
  match table.find? name with
  | some binding => .ok (table.insert name { binding with value })
  | none => .error .namelessBinding

/-- Written form of a bound name and its value. -/
def entryText (name : String) (value : Value) : String :=
  "<tag '" ++ name ++ "'=" ++ value.toText ++ ">"

@[simp] theorem find?_empty (name : String) : empty.find? name = none := rfl

theorem find?_erase_self (table : Table) (name : String) :
    (table.erase name).find? name = none := by
  simp [find?, erase, List.find?_filter]

theorem find?_erase_of_ne (table : Table) {name other : String} (different : other ≠ name) :
    (table.erase name).find? other = table.find? other := by
  have same : (fun entry : String × Binding => decide ((entry.1 != name) = true ∧
      (entry.1 == other) = true)) = fun entry => entry.1 == other := by
    funext entry
    by_cases equal : entry.1 = other
    · simp [equal, different]
    · simp [equal]
  simp only [find?, erase, List.find?_filter, same]

@[simp] theorem find?_insert_self (table : Table) (name : String) (binding : Binding) :
    (table.insert name binding).find? name = some binding := by
  simp [find?, insert]

theorem find?_insert_of_ne (table : Table) (binding : Binding) {name other : String}
    (different : other ≠ name) :
    (table.insert name binding).find? other = table.find? other := by
  have skipped : (name == other) = false := by simpa using different.symm
  simp only [insert, find?, List.find?_cons, skipped]
  exact find?_erase_of_ne table different

end Table

end ScopeScript
