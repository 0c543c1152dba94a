import ScopeScript.Proofs.Evaluator.Closure
import ScopeScript.Proofs.Vault.Writing

/-!
# Evaluations that write to one scope

What reading a name, entering a scope and calling a function do, where all goes well. A call runs in
a block of its own, which binds the parameters and is gone afterwards. So a function whose body
writes to one scope does nothing else (`Evaluator.callFunction_writes`).
-/

namespace ScopeScript

/-- Whether reading a binding that holds a value evaluates something. -/
def Value.isFormula : Value → Bool
  | .formula _ => true
  | _ => false

/-- The table of a scope is another one; beside the store only the value of the last expression
statement may have changed. -/
structure Machine.Writes (before : Machine) (handle : Handle) (table : Table) (after : Machine) :
    Prop where
  vault : before.vault.Writes handle table after.vault
  beside : after = { before with vault := after.vault, last := after.last }

namespace Machine.Writes

variable {before : Machine} {handle : Handle} {table : Table}

theorem refl (found : before.vault.table? handle = some table) :
    before.Writes handle table before :=
  ⟨.refl found, rfl⟩

theorem of_vault {vault : Vault} (writes : before.vault.Writes handle table vault) :
    before.Writes handle table { before with vault } :=
  ⟨writes, rfl⟩

end Machine.Writes

namespace Evaluator

variable {recursion : Recursion} {context : Context} {machine after : Machine} {name : String}
  {value : Value} {handle : Handle} {table : Table}

theorem lookup_of_sees (sees : machine.vault.Sees machine.vault.frames name value)
    (plain : value.isFormula = false) (span : Span) :
    lookup recursion span name context machine = (.done value, machine) := by
  obtain ⟨reference, found⟩ := Vault.resolve_of_sees sees
  refine (Eval.bind_of_done (Eval.onVaultAt_eq_of_done span context machine found) _).trans ?_
  cases value with
  | formula content => cases plain
  | _ => rfl

end Evaluator

/-- The state in which a scope has been entered. -/
def Machine.visiting (machine : Machine) (handle : Handle) : Machine :=
  { machine with
    vault := { machine.vault with frames := ⟨.named, handle⟩ :: machine.vault.frames } }

namespace Evaluator

variable {recursion : Recursion} {context : Context} {machine after : Machine} {name : String}
  {value : Value} {handle entries : Handle} {table visited : Table}

theorem inScope_of_done {body : Eval α} {value : α} {below : FrameStack}
    (live : machine.vault.table? handle = some visited)
    (ran : body context (machine.visiting handle) = (.done value, after))
    (frames : after.vault.frames = ⟨.named, handle⟩ :: below) (span : Span) :
    inScope span handle body context machine =
      (.done value, { after with vault := { after.vault with frames := below } }) := by
  obtain ⟨record, found, _⟩ := Vault.exists_record_of_table? live
  have entered := Eval.onVaultAt_eq_of_done span context machine
    (Vault.enterNamed_of_some found)
  refine (Eval.bind_of_done entered _).trans ?_
  exact Eval.ensuring_of_done ran
    (Eval.onVault_eq_of_done context after (Vault.exitNamed_of_cons frames))

theorem inScope_writes {body : Eval α} {value : α}
    (live : machine.vault.table? handle = some visited)
    (ran : body context (machine.visiting handle) = (.done value, after))
    (writes : (machine.visiting handle).Writes entries table after) (span : Span) :
    ∃ left, inScope span handle body context machine = (.done value, left) ∧
      machine.Writes entries table left := by
  refine ⟨_, inScope_of_done live ran writes.vault.frames span, ?_, ?_⟩
  · exact writes.vault.reframe machine.vault.frames
  · rw [writes.beside]
    rfl

theorem property_of_bound (bound : machine.vault.valueIn? handle name = some value)
    (plain : value.isFormula = false) (span : Span) :
    property recursion span (.scope handle) name context machine = (.done value, machine) := by
  obtain ⟨visited, _, live, _⟩ := Vault.exists_table_of_valueIn? bound
  have sees : (machine.visiting handle).vault.Sees (machine.visiting handle).vault.frames name
      value := Vault.sees_cons_of_bound bound
  exact inScope_of_done live (lookup_of_sees sees plain span) rfl span

end Evaluator

/-! ## Calls -/

namespace Evaluator

variable {recursion : Recursion} {context : Context} {machine after : Machine} {table : Table}

/-- Parameters stand for arguments in a table, and no other name is bound there. -/
structure Binds (names : List String) (values : List Value) (table : Table) : Prop where
  bound : List.Forall₂ (fun name value => ∃ cell, table.find? name = some ⟨cell, value⟩)
    names values
  unbound : ∀ name ∉ names, table.find? name = none

theorem bindParameters_writes (context : Context) (machine : Machine) {names : List String}
    {values : List Value} {frame : Frame} {below : FrameStack} (nodup : names.Nodup)
    (arity : values.length = names.length)
    (frames : machine.vault.frames = frame :: below)
    (live : machine.vault.table? frame.record = some table) :
    ∃ table' vault, bindParameters names values context machine = (.done (), { machine with vault })
      ∧ machine.vault.Writes frame.record table' vault ∧
      List.Forall₂ (fun name value => ∃ cell, table'.find? name = some ⟨cell, value⟩) names values ∧
      ∀ name ∉ names, table'.find? name = table.find? name := by
  induction names generalizing values machine table with
  | nil =>
      cases List.length_eq_zero_iff.1 arity
      exact ⟨table, machine.vault, rfl, .refl live, .nil, fun _ _ => rfl⟩
  | cons name names inductionHypothesis =>
      obtain ⟨value, values, rfl⟩ := List.exists_cons_of_length_eq_add_one arity
      obtain ⟨fresh, rest⟩ := List.nodup_cons.1 nodup
      obtain ⟨cell, defined, ran, first⟩ := Vault.define_writes frames live name value
      obtain ⟨table', vault, bound, writes, found, kept⟩ :=
        inductionHypothesis { machine with vault := defined } rest (Nat.succ.inj arity)
          (first.frames.trans frames) first.self
      refine ⟨table', vault, ?_, first.trans writes, .cons ⟨cell, ?_⟩ found, fun other absent => ?_⟩
      · exact (Eval.bind_of_done (Eval.onVault_eq_of_done context machine ran) _).trans bound
      · rw [kept name fresh, Table.find?_insert_self]
      · rw [List.mem_cons, not_or] at absent
        rw [kept other absent.2, Table.find?_insert_of_ne table _ absent.1]

end Evaluator

/-- A function has been called: its block is the innermost frame and binds the parameters. -/
structure Machine.Called (before : Machine) (names : List String) (values : List Value)
    (block : Handle) (bindings : Table) (called : Machine) : Prop where
  frames : called.vault.frames = ⟨.block, block⟩ :: before.vault.frames
  fresh : before.vault.table? block = none
  tables : ∀ other, called.vault.table? other =
    if other = block then some bindings else before.vault.table? other
  binds : Evaluator.Binds names values bindings
  activations : called.activations = [] :: before.activations

/-- The parameters have been bound in a new block. -/
theorem Machine.Called.of_fills {machine : Machine} {names : List String} {values : List Value}
    {block : Handle} {opened filled : Vault} {bindings : Table}
    (opens : machine.vault.Opened block opened) (fills : opened.Writes block bindings filled)
    (binds : Evaluator.Binds names values bindings) :
    machine.Called names values block bindings
      { machine with
        depth := machine.depth + 1
        vault := filled
        activations := [] :: machine.activations } where
  frames := fills.frames.trans opens.frames
  fresh := by
    rw [Vault.table?, opens.fresh]
    rfl
  tables other := by
    refine (fills.tables other).trans ?_
    split
    · rfl
    · next different => exact (opens.tables other).trans (if_neg different)
  binds := binds
  activations := rfl

namespace Evaluator

variable {recursion : Recursion} {context : Context}

theorem executeStep_singleton {recursion : Recursion} {statement : Stmt} {flow : Flow}
    {after : Machine} (ran : executeOne recursion statement context machine = (.done flow, after)) :
    executeStep recursion [statement] context machine = (.done flow, after) := by
  refine (Eval.bind_of_done ran _).trans ?_
  cases flow <;> rfl

/-- A call gives the result of its body if its block is entered, its parameters are bound, the body
comes to its end, and the block is left. -/
theorem callFunction_of_done {machine opened filled ended : Machine} {function : Function}
    {values : List Value} {block : Handle} {flow : Flow} {answer : Value} {left : Vault}
    (site : CallSite) (arity : values.length = function.parameters.length)
    (shallow : machine.depth < context.config.maxDepth)
    (entered : Eval.onVault Vault.enterBlock context { machine with depth := machine.depth + 1 } =
      (.done block, opened))
    (bound : bindParameters function.parameters values context opened = (.done (), filled))
    (ran : recursion.execute function.body { context with origin := function.origin }
      { filled with activations := [] :: filled.activations } = (.done flow, ended))
    (result : resultOfBody flow context ended = (.done answer, ended))
    (exited : Vault.exitBlock ended.vault = (.done (), left)) :
    callFunction recursion site function values context machine =
      (.done answer, { ended with
        depth := ended.depth - 1, activations := ended.activations.tail, vault := left }) := by
  let body : Eval Value := do
    let flow ← Eval.within function.origin (recursion.execute function.body)
    resultOfBody flow
  let popped : Machine := { ended with activations := ended.activations.tail }
  have ranWithin : Eval.within function.origin (recursion.execute function.body) context
      { filled with activations := [] :: filled.activations } = (.done flow, ended) := ran
  have ranBody : body context { filled with activations := [] :: filled.activations } =
      (.done answer, ended) := (Eval.bind_of_done ranWithin _).trans result
  have ranActivated : activated body context filled = (.done answer, popped) := by
    rw [activated, Eval.update_bind_apply]
    exact Eval.ensuring_of_done ranBody rfl
  have ranBlock := Eval.ensuring_of_done
    ((Eval.bind_of_done bound fun _ => activated body).trans ranActivated)
    (Eval.onVault_eq_of_done context popped exited)
  rw [callFunction, if_pos arity, Eval.deeper, if_neg (by omega)]
  exact Eval.ensuring_of_done ((Eval.bind_of_done entered _).trans ranBlock) rfl

/-- A function whose body changes one scope that was there before changes that scope. -/
theorem callFunction_writes (machine : Machine) (site : CallSite) (function : Function)
    (values : List Value) {frame : Frame} {below : FrameStack} {visited earlier : Table}
    {entries : Handle} {answer : Value} {Written : Table → Prop}
    (distinct : function.parameters.Nodup) (arity : values.length = function.parameters.length)
    (shallow : machine.depth < context.config.maxDepth) (sound : machine.vault.Sound)
    (room : machine.vault.live < UInt32.size)
    (frames : machine.vault.frames = frame :: below)
    (live : machine.vault.table? frame.record = some visited)
    (stored : machine.vault.table? entries = some earlier)
    (ran : ∀ block bindings called,
      machine.Called function.parameters values block bindings called →
      ∃ flow table after,
        recursion.execute function.body { context with origin := function.origin } called =
          (.done flow, after) ∧
        (∀ context, resultOfBody flow context after = (.done answer, after)) ∧
        called.Writes entries table after ∧ Written table) :
    ∃ table after,
      callFunction recursion site function values context machine = (.done answer, after) ∧
      machine.Writes entries table after ∧ Written table := by
  let deep : Machine := { machine with depth := machine.depth + 1 }
  obtain ⟨block, opened, entered, opens⟩ := Vault.enterBlock_opens sound room frames live
  have empty : opened.table? block = some .empty := by rw [opens.tables, if_pos rfl]
  obtain ⟨bindings, filled, bound, fills, found, kept⟩ :=
    bindParameters_writes context { deep with vault := opened } distinct arity opens.frames empty
  have binds : Binds function.parameters values bindings :=
    ⟨found, fun name absent => (kept name absent).trans (Table.find?_empty name)⟩
  obtain ⟨flow, table, after, executed, result, writes, written⟩ :=
    ran block bindings _ (.of_fills opens fills binds)
  obtain ⟨left, exited, wrote⟩ := Vault.exitBlock_writes opens fills writes.vault stored
  refine ⟨table, { machine with vault := left, last := after.last }, ?_, ⟨wrote, rfl⟩, written⟩
  have called := callFunction_of_done site arity shallow
    (Eval.onVault_eq_of_done context deep entered) bound executed (result context) exited
  rw [called, writes.beside]
  rfl

end Evaluator

namespace Machine.Called

variable {before called : Machine} {names : List String} {values : List Value}
  {block handle : Handle} {bindings table : Table}

/-- What was live before a call is as it was. -/
theorem table? (isCalled : before.Called names values block bindings called)
    (live : before.vault.table? handle = some table) :
    called.vault.table? handle = some table := by
  have older : handle ≠ block := by
    rintro rfl
    rw [isCalled.fresh] at live
    cases live
  rw [isCalled.tables, if_neg older, live]

theorem valueIn? (isCalled : before.Called names values block bindings called) {name : String}
    {value : Value} (bound : before.vault.valueIn? handle name = some value) :
    called.vault.valueIn? handle name = some value := by
  obtain ⟨table, cell, found, entry⟩ := Vault.exists_table_of_valueIn? bound
  rw [Vault.valueIn?, isCalled.table? found, Option.bind_some, entry]
  rfl

/-- A name that is not a parameter stands for what it stood for at the call. -/
theorem sees_outer (isCalled : before.Called names values block bindings called) {name : String}
    {value : Value} (outer : name ∉ names)
    (sees : before.vault.Sees before.vault.frames name value) :
    called.vault.Sees called.vault.frames name value := by
  have kept := sees.congr fun frame _ table live => isCalled.table? live
  have ownTable : called.vault.table? block = some bindings := by
    rw [isCalled.tables, if_pos rfl]
  rw [isCalled.frames]
  exact Vault.sees_cons_of_unbound ownTable (isCalled.binds.unbound name outer) kept

/-- A parameter stands for its argument. -/
theorem sees_parameters (isCalled : before.Called names values block bindings called) :
    List.Forall₂ (called.vault.Sees called.vault.frames) names values := by
  have ownTable : called.vault.table? block = some bindings := by
    rw [isCalled.tables, if_pos rfl]
  rw [isCalled.frames]
  refine isCalled.binds.bound.imp fun name value ⟨cell, entry⟩ => ?_
  refine Vault.sees_cons_of_bound ?_
  rw [Vault.valueIn?, ownTable, Option.bind_some, entry]
  rfl

end Machine.Called

end ScopeScript
