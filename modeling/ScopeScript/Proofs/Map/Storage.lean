import ScopeScript.Proofs.Evaluator.Writing
import ScopeScript.Proofs.Map.Finite

/-!
# The storage of maps

The routines that keep the entries of a map work on the bindings of one scope. Each of them does
what the operation of finite maps does, for the finite map that the table of the scope stands for
(`MapCall.callStorage`).
-/

namespace ScopeScript

namespace Vault

theorem defineIn_writes {vault : Vault} {handle : Handle} {table : Table}
    (found : vault.table? handle = some table) {name : String} (named : name ≠ "")
    (value : Value) :
    ∃ table' after, defineIn handle name value vault = (.done (), after) ∧
      vault.Writes handle table' after ∧ table'.contents = table.contents.insert name value := by
  obtain ⟨record, live, rfl⟩ := exists_record_of_table? found
  let binding : Binding := ⟨vault.cells, value⟩
  refine ⟨_, _, ?_, writes_modify live (vault.cells + 1) (·.rebind name binding)
    (record.owned_rebind name binding), ?_⟩
  · rw [defineIn_of_some name value live, rebind_of_ne handle value named]
  · unfold Record.rebind
    split <;> rw [Table.contents_insert]

theorem eraseIn_writes {vault : Vault} {handle : Handle} {table : Table}
    (found : vault.table? handle = some table) (name : String) :
    ∃ after, eraseIn handle name vault = (.done (table.find? name).isSome, after) ∧
      vault.Writes handle (table.erase name) after := by
  obtain ⟨record, live, rfl⟩ := exists_record_of_table? found
  have erased : (record.erase name).table = record.table.erase name := by
    unfold Record.erase Record.detach
    split <;> rfl
  refine ⟨_, ?_, erased ▸ writes_modify live vault.cells (·.erase name) (record.owned_erase name)⟩
  simp [eraseIn, Run.bind_apply, bindings, find_of_some live, Except.map]

theorem clearIn_writes {vault : Vault} {handle : Handle} {table : Table}
    (found : vault.table? handle = some table) :
    ∃ after, clearIn handle vault = (.done (), after) ∧ vault.Writes handle .empty after := by
  obtain ⟨record, live, rfl⟩ := exists_record_of_table? found
  exact ⟨_, rfl, writes_modify live vault.cells (·.clear) rfl⟩

end Vault

/-- A call of a method of a map. -/
inductive MapCall
  | set (key value : Value)
  | get (key : Value)
  | delete (key : Value)
  | has (key : Value)
  | keys
  | values
  | clear
  | length

namespace MapCall

/-- The signature of the method. -/
def signature : MapCall → Signature
  | set _ _ => ⟨"set", ["key", "value"], false⟩
  | get _ => ⟨"get", ["key"], true⟩
  | delete _ => ⟨"del", ["key"], true⟩
  | has _ => ⟨"has", ["key"], true⟩
  | keys => ⟨"keys", [], true⟩
  | values => ⟨"values", [], true⟩
  | clear => ⟨"clear", [], false⟩
  | length => ⟨"len", [], true⟩

/-- The name of the method. -/
def method (call : MapCall) : String :=
  call.signature.name

/-- The routine that does the work. -/
def routine : MapCall → Native
  | set _ _ => .mapSet
  | get _ => .mapGet
  | delete _ => .mapDelete
  | has _ => .mapHas
  | keys => .mapKeys
  | values => .mapValues
  | clear => .mapClear
  | length => .mapLength

/-- The arguments of the call. -/
def arguments : MapCall → List Value
  | set key value => [key, value]
  | get key | delete key | has key => [key]
  | keys | values | clear | length => []

/-- What a finite map answers. Keys are compared by their written form. -/
def answer (map : FiniteMap) : MapCall → Value
  | set _ _ | clear => .none
  | get key => (map.lookup key.toText).getD .none
  | delete key | has key => .bool (decide (key.toText ∈ map))
  | keys => .sequence (map.sortedKeys.map .text)
  | values => .sequence map.sortedValues
  | length => .number (Float.ofNat map.keys.card)

/-- What a finite map is afterwards. -/
def effect (map : FiniteMap) : MapCall → FiniteMap
  | set key value => map.insert key.toText value
  | delete key => map.erase key.toText
  | clear => ∅
  | get _ | has _ | keys | values | length => map

/-- Nothing is to be filed under the empty text. -/
def Named : MapCall → Prop
  | set key _ => key.toText ≠ ""
  | _ => True

instance (call : MapCall) : Decidable call.Named :=
  match call with
  | set key _ => inferInstanceAs (Decidable (key.toText ≠ ""))
  | get _ | delete _ | has _ | keys | values | clear | length => inferInstanceAs (Decidable True)

/-- A storage routine does to a scope what the call does to a finite map. -/
theorem callStorage (call : MapCall) (named : call.Named) (site : CallSite) (context : Context)
    {machine : Machine} {entries : Handle} {table : Table}
    (found : machine.vault.table? entries = some table) :
    ∃ table' after,
      call.routine.callStorage site (.scope entries :: call.arguments) context machine =
        (.done (call.answer table.contents), after) ∧
      machine.Writes entries table' after ∧ table'.contents = call.effect table.contents := by
  obtain ⟨record, live, rfl⟩ := Vault.exists_record_of_table? found
  have bindings : machine.vault.bindings entries = .ok record.table := by
    rw [Vault.bindings, Vault.find_of_some live]
    rfl
  have queried (next : Table → Eval Value) :
      (Eval.queryAt site.span (·.bindings entries) >>= next) context machine =
        next record.table context machine := by
    rw [Eval.bind_apply, Eval.queryAt, bindings]
  have unchanged := Machine.Writes.refl found
  cases call with
  | set key value =>
      obtain ⟨table', vault, ran, writes, contents⟩ := Vault.defineIn_writes found named value
      refine ⟨table', _, (queried _).trans ?_, .of_vault writes, contents⟩
      exact Eval.bind_of_done (Eval.onVaultAt_eq_of_done site.span context machine ran) _
  | get key =>
      refine ⟨_, _, (queried _).trans ?_, unchanged, rfl⟩
      simp only [answer, Table.lookup_contents]
      rfl
  | delete key =>
      obtain ⟨vault, ran, writes⟩ := Vault.eraseIn_writes found key.toText
      refine ⟨_, _, (queried _).trans ?_, .of_vault writes, Table.contents_erase _ _⟩
      simp only [answer, ← Table.isSome_find?]
      exact Eval.bind_of_done (Eval.onVaultAt_eq_of_done site.span context machine ran) _
  | has key =>
      refine ⟨_, _, (queried _).trans ?_, unchanged, rfl⟩
      simp only [answer, ← Table.isSome_find?]
      rfl
  | keys =>
      refine ⟨_, _, (queried _).trans ?_, unchanged, rfl⟩
      simp only [answer, ← Table.names_eq]
      rfl
  | values =>
      refine ⟨_, _, (queried _).trans ?_, unchanged, rfl⟩
      simp only [answer, ← Table.values_eq]
      rfl
  | clear =>
      obtain ⟨vault, ran, writes⟩ := Vault.clearIn_writes found
      refine ⟨_, _, (queried _).trans ?_, .of_vault writes, Table.contents_empty⟩
      exact Eval.bind_of_done (Eval.onVault_eq_of_done context machine ran) _
  | length =>
      refine ⟨_, _, (queried _).trans ?_, unchanged, rfl⟩
      simp only [answer, ← Table.size_eq_card]
      rfl

end MapCall

end ScopeScript
