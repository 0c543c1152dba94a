import ScopeScript.Proofs.Map.Methods

/-!
# Maps in a store

Several maps live in one store. `Vault.HoldsMaps` says what calls of their methods rely on: the
routines are visible, the maps bind what they were given, and each has a scope of its own for its
entries. Writing to the entries of a map keeps all this, and a new map joins the others
(`Vault.HoldsMaps.newMap`).
-/

namespace ScopeScript

/-- The finite map that a scope stands for; that of a scope that is not live is empty. -/
def Vault.contents (vault : Vault) (handle : Handle) : FiniteMap :=
  (vault.table? handle).elim ∅ Table.contents

/-- Maps in a store. Each of them has a scope of its own for its entries, which is not active and
is no other part of what calls rely on. -/
structure Vault.HoldsMaps {ι : Type} (vault : Vault) (std hashmap : Handle)
    (maps entries : ι → Handle) : Prop where
  stocked : vault.Stocked std hashmap
  isMap : ∀ index, vault.IsMap (maps index) (entries index)
  distinct : Function.Injective entries
  inactive : ∀ index, ∀ frame ∈ vault.frames, frame.record ≠ entries index
  noMap : ∀ index other, maps other ≠ entries index
  noRoutine : ∀ index, std ≠ entries index ∧ hashmap ≠ entries index

namespace Vault

variable {ι : Type} {before after : Vault} {std hashmap : Handle} {maps entries : ι → Handle}
  {table : Table}

theorem Writes.valueIn?_eq {handle scope : Handle} (writes : before.Writes handle table after)
    (different : scope ≠ handle) (name : String) :
    after.valueIn? scope name = before.valueIn? scope name := by
  rw [valueIn?, writes.other different, valueIn?]

theorem Writes.contents_eq {handle scope : Handle} (writes : before.Writes handle table after)
    (different : scope ≠ handle) : after.contents scope = before.contents scope := by
  rw [contents, writes.other different, contents]

theorem Writes.contents_self {handle : Handle} (writes : before.Writes handle table after) :
    after.contents handle = table.contents := by
  rw [contents, writes.self, Option.elim_some]

/-- A map whose entries change is still a map, and so are the others. -/
theorem HoldsMaps.writes {index : ι} (holds : before.HoldsMaps std hashmap maps entries)
    (writes : before.Writes (entries index) table after) :
    after.HoldsMaps std hashmap maps entries where
  stocked := by
    obtain ⟨stdApart, hashmapApart⟩ := holds.noRoutine index
    refine ⟨?_, ?_, fun routine member => ?_⟩
    · rw [writes.frames]
      refine holds.stocked.visible.congr fun frame member table found => ?_
      rw [writes.other (holds.inactive index frame member), found]
    · rw [writes.valueIn?_eq stdApart, holds.stocked.part]
    · rw [writes.valueIn?_eq hashmapApart, holds.stocked.routines routine member]
  isMap other := by
    have isMap := holds.isMap other
    have apart := holds.noMap index other
    refine ⟨fun method member => ?_, ?_, ?_, ?_⟩
    · rw [writes.valueIn?_eq apart, isMap.methods method member]
    · rw [writes.valueIn?_eq apart, isMap.bound]
    · rw [writes.valueIn?_eq apart, isMap.unhidden]
    · obtain ⟨stored, found⟩ := isMap.stored
      rw [writes.tables]
      split
      · exact ⟨table, rfl⟩
      · exact ⟨stored, found⟩
  distinct := holds.distinct
  inactive := writes.frames ▸ holds.inactive
  noMap := holds.noMap
  noRoutine := holds.noRoutine

end Vault

/-! ## Creating a map -/

namespace Vault

variable {ι : Type} {before after : Vault} {std hashmap map stored : Handle}
  {maps entries : ι → Handle} {table : Table}

/-- Two scopes are new, the first with the given bindings and the second without any. -/
structure Gains (before : Vault) (map entries : Handle) (table : Table) (after : Vault) : Prop where
  frames : after.frames = before.frames
  freshMap : before.table? map = none
  freshEntries : before.table? entries = none
  different : map ≠ entries
  tables : ∀ other, after.table? other =
    if other = map then some table else if other = entries then some .empty
    else before.table? other
  live : after.live = before.live + 2
  sound : after.Sound

namespace Gains

/-- What is live already is not new. -/
theorem ne_of_live (gains : before.Gains map stored table after) {scope : Handle}
    {bindings : Table} (live : before.table? scope = some bindings) :
    scope ≠ map ∧ scope ≠ stored := by
  constructor
  · rintro rfl
    exact nomatch gains.freshMap.symm.trans live
  · rintro rfl
    exact nomatch gains.freshEntries.symm.trans live

theorem table?_of_live (gains : before.Gains map stored table after) {scope : Handle}
    {bindings : Table} (live : before.table? scope = some bindings) :
    after.table? scope = before.table? scope := by
  obtain ⟨notMap, notEntries⟩ := gains.ne_of_live live
  rw [gains.tables, if_neg notMap, if_neg notEntries]

theorem valueIn?_of_live (gains : before.Gains map stored table after) {scope : Handle}
    {bindings : Table} (live : before.table? scope = some bindings) (name : String) :
    after.valueIn? scope name = before.valueIn? scope name := by
  rw [valueIn?, gains.table?_of_live live, valueIn?]

theorem valueIn?_of_some (gains : before.Gains map stored table after) {scope : Handle}
    {name : String} {value : Value} (bound : before.valueIn? scope name = some value) :
    after.valueIn? scope name = some value := by
  obtain ⟨bindings, _, live, _⟩ := exists_table_of_valueIn? bound
  rw [gains.valueIn?_of_live live, bound]

end Gains

end Vault

namespace Evaluator

variable {recursion : Recursion}

/-- Declaring functions binds their names in the innermost scope. -/
theorem executeStep_declarations (context : Context) (machine : Machine) {statements : List Stmt}
    (functions : ∀ statement ∈ statements, statement.isFunction = true) :
    executeStep recursion statements context machine =
      (do
        let declared := statements.filterMap (Stmt.declared? context.origin)
        bindParameters (declared.map Function.name) (declared.map Value.function)
        return Flow.proceed) context machine := by
  induction statements generalizing machine with
  | nil => rfl
  | cons statement statements inductionHypothesis =>
      obtain ⟨isFunction, rest⟩ := List.forall_mem_cons.1 functions
      cases statement with
      | function span name parameters body isAsync =>
          let value : Value := .function ⟨context.origin, span, name, parameters, body, isAsync⟩
          have declared : executeOne recursion (.function span name parameters body isAsync)
              context machine = (do Eval.define name value; return Flow.proceed) context machine :=
            rfl
          rw [executeStep, Eval.bind_apply, declared]
          simp only [List.filterMap_cons, Stmt.declared?, List.map_cons, bindParameters,
            Eval.bind_apply]
          cases defined : Eval.define name value context machine with
          | mk outcome after =>
              cases outcome with
              | done => exact inductionHypothesis after rest
              | failed => rfl
              | crashed => rfl
              | endless => rfl
      | _ => cases isFunction

end Evaluator

/-- The bindings of a new map. -/
structure Table.Furnished (table : Table) (entries : Handle) : Prop where
  methods : List.Forall₂ (fun name value => ∃ cell, table.find? name = some ⟨cell, value⟩)
    (Prelude.methods.map Function.name) (Prelude.methods.map Value.function)
  entries : ∃ cell, table.find? "entries" = some ⟨cell, .scope entries⟩
  unhidden : table.find? "std" = none

namespace Evaluator

/-- The prelude binds the methods in the innermost scope. -/
theorem execute_prelude (fuel : Nat) (context : Context) (machine : Machine) {frame : Frame}
    {below : FrameStack} {table : Table} (frames : machine.vault.frames = frame :: below)
    (live : machine.vault.table? frame.record = some table) :
    ∃ table' after,
      Eval.inFile ⟨Prelude.path, Prelude.source⟩ (Eval.within Prelude.origin
        ((recursion (fuel + 1)).execute Prelude.statements)) context machine =
          (.done .proceed, after) ∧
      machine.Writes frame.record table' after ∧
      List.Forall₂ (fun name value => ∃ cell, table'.find? name = some ⟨cell, value⟩)
        (Prelude.methods.map Function.name) (Prelude.methods.map Value.function) ∧
      ∀ name ∉ Prelude.methods.map Function.name, table'.find? name = table.find? name := by
  have nodup : (Prelude.methods.map Function.name).Nodup := by
    rw [Prelude.names_methods]
    decide
  let reading : Machine :=
    { machine with files := ⟨Prelude.path, Prelude.source⟩ :: machine.files }
  let inPrelude : Context := { context with origin := Prelude.origin }
  have arity : (Prelude.methods.map Value.function).length =
      (Prelude.methods.map Function.name).length := by
    rw [List.length_map, List.length_map]
  obtain ⟨table', vault, bound, writes, found, kept⟩ :=
    bindParameters_writes inPrelude reading nodup arity frames live
  refine ⟨table', { machine with vault }, ?_, .of_vault writes, found, kept⟩
  have executed : Eval.within Prelude.origin ((recursion (fuel + 1)).execute Prelude.statements)
      context reading = (.done .proceed, { reading with vault }) := by
    refine (executeStep_declarations inPrelude reading Prelude.statements_isFunction).trans ?_
    exact Eval.bind_of_done bound _
  rw [Eval.inFile, Eval.update_bind_apply]
  exact Eval.ensuring_of_done executed rfl

end Evaluator

/-- What the methods are added to binds the entries and does not bind `std`. -/
theorem Table.furnished_of_kept {before table : Table} {map entries : Handle}
    (contents : before.contents =
      (Table.empty.contents.insert "this" (.scope map)).insert "entries" (.scope entries))
    (found : List.Forall₂ (fun name value => ∃ cell, table.find? name = some ⟨cell, value⟩)
      (Prelude.methods.map Function.name) (Prelude.methods.map Value.function))
    (kept : ∀ name ∉ Prelude.methods.map Function.name, table.find? name = before.find? name) :
    table.Furnished entries := by
  rw [Prelude.names_methods] at kept
  refine ⟨found, ?_, ?_⟩
  · have bound := before.lookup_contents "entries"
    rw [contents, Finmap.lookup_insert] at bound
    obtain ⟨⟨cell, _⟩, entry, rfl⟩ := Option.map_eq_some_iff.1 bound.symm
    exact ⟨cell, (kept "entries" (by decide)).trans entry⟩
  · have unbound := before.lookup_contents "std"
    rw [contents, Finmap.lookup_insert_of_ne _ (by decide),
      Finmap.lookup_insert_of_ne _ (by decide), Table.lookup_contents, Table.find?_empty] at unbound
    exact (kept "std" (by decide)).trans (Option.map_eq_none_iff.1 unbound.symm)

/-- The constructor of maps creates a furnished scope and a scope for its entries. -/
theorem Native.callNewMap_gains (fuel : Nat) (site : CallSite) (context : Context)
    (machine : Machine) {frame : Frame} {below : FrameStack}
    (sound : machine.vault.Sound) (room : machine.vault.live + 1 < UInt32.size)
    (active : ∀ frame ∈ machine.vault.frames, machine.vault.isLive frame.record = true)
    (frames : machine.vault.frames = frame :: below) :
    ∃ map entries table after,
      callNewMap (Evaluator.recursion (fuel + 1)) site [] context machine =
        (.done (.scope map), after) ∧
      machine.vault.Gains map entries table after.vault ∧ table.Furnished entries ∧
      after = { machine with vault := after.vault, last := after.last } := by
  obtain ⟨owner, ownerTable, owns, ownerLive⟩ := Vault.owner_live frames active
  obtain ⟨map, first, createdMap, creates⟩ :=
    Vault.createOwned_creates sound (Nat.lt_of_succ_lt room) ownerLive "Map"
  have mapLive : first.table? map = some .empty := by rw [creates.tables, if_pos rfl]
  obtain ⟨entries, second, createdEntries, createsEntries⟩ :=
    Vault.createOwned_creates creates.sound (creates.live.trans_lt room) mapLive "entries"
  have different : map ≠ entries := by
    rintro rfl
    exact nomatch createsEntries.fresh.symm.trans mapLive
  have mapStillLive : second.table? map = some .empty := by
    rw [createsEntries.tables, if_neg different, mapLive]
  obtain ⟨_, third, definedThis, writesThis, bare⟩ :=
    Vault.defineIn_writes mapStillLive (by decide : "this" ≠ "") (.scope map)
  obtain ⟨own, fourth, definedEntries, writesEntries, contents⟩ :=
    Vault.defineIn_writes writesThis.self (by decide : "entries" ≠ "") (.scope entries)
  let store (vault : Vault) : Machine := { machine with vault }
  obtain ⟨table, _, executed, writes, found, kept⟩ := Evaluator.execute_prelude fuel context
    ((store fourth).visiting map) rfl writesEntries.self
  obtain ⟨after, ran, written⟩ := Evaluator.inScope_writes writesEntries.self
    (Eval.bind_of_done executed fun _ => pure (Value.scope map)) writes site.span
  refine ⟨map, entries, table, after, ?_, ⟨?_, creates.fresh, ?_, different, fun other => ?_, ?_,
    written.vault.sound (writesEntries.sound (writesThis.sound createsEntries.sound))⟩, ?_,
    written.beside⟩
  · refine (Eval.bind_of_done (Eval.onVault_eq_of_done context machine owns) _).trans ?_
    refine (Eval.bind_of_done (Eval.onVaultAt_eq_of_done site.span context machine
      createdMap) _).trans ?_
    refine (Eval.bind_of_done (Eval.onVaultAt_eq_of_done site.span context (store first)
      createdEntries) _).trans ?_
    refine (Eval.bind_of_done (Eval.onVault_eq_of_done context (store second)
      definedThis) _).trans ?_
    refine (Eval.bind_of_done (Eval.onVault_eq_of_done context (store third)
      definedEntries) _).trans ?_
    exact ran
  · exact written.vault.frames.trans (writesEntries.frames.trans (writesThis.frames.trans
      (createsEntries.frames.trans creates.frames)))
  · rw [← createsEntries.fresh, creates.tables, if_neg different.symm]
  · rw [written.vault.tables]
    split
    · rfl
    · next notMap =>
      rw [writesEntries.other notMap, writesThis.other notMap, createsEntries.tables,
        creates.tables, if_neg notMap]
  · exact written.vault.live.trans (writesEntries.live.trans (writesThis.live.trans
      (createsEntries.live.trans (congrArg (· + 1) creates.live))))
  · exact Table.furnished_of_kept (bare ▸ contents) found kept

namespace Vault

variable {ι : Type} {before after : Vault} {std hashmap map stored : Handle}
  {maps entries : ι → Handle} {table : Table}

/-- A furnished scope is a map. -/
theorem Gains.isMap (gains : before.Gains map stored table after)
    (furnished : table.Furnished stored) : after.IsMap map stored := by
  have own : after.table? map = some table := by rw [gains.tables, if_pos rfl]
  have bound {name : String} {cell : Nat} {value : Value}
      (entry : table.find? name = some ⟨cell, value⟩) : after.valueIn? map name = some value := by
    rw [valueIn?, own, Option.bind_some, entry]
    rfl
  refine ⟨fun method member => ?_, ?_, ?_, .empty, ?_⟩
  · have methods := furnished.methods
    rw [List.forall₂_map_left_iff, List.forall₂_map_right_iff, List.forall₂_same] at methods
    obtain ⟨cell, entry⟩ := methods method member
    exact bound entry
  · obtain ⟨cell, entry⟩ := furnished.entries
    exact bound entry
  · rw [valueIn?, own, Option.bind_some, furnished.unhidden]
    rfl
  · rw [gains.tables, if_neg gains.different.symm, if_pos rfl]

theorem Stocked.gains (stocked : before.Stocked std hashmap)
    (gains : before.Gains map stored table after) : after.Stocked std hashmap where
  visible := by
    rw [gains.frames]
    refine stocked.visible.congr fun frame _ bindings live => ?_
    rw [gains.table?_of_live live, live]
  part := gains.valueIn?_of_some stocked.part
  routines routine member := gains.valueIn?_of_some (stocked.routines routine member)

theorem IsMap.gains {other content : Handle} (isMap : before.IsMap other content)
    (gains : before.Gains map stored table after) : after.IsMap other content := by
  obtain ⟨_, _, live, _⟩ := exists_table_of_valueIn? isMap.bound
  refine ⟨fun method member => ?_, gains.valueIn?_of_some isMap.bound, ?_, ?_⟩
  · exact gains.valueIn?_of_some (isMap.methods method member)
  · rw [gains.valueIn?_of_live live, isMap.unhidden]
  · obtain ⟨bindings, found⟩ := isMap.stored
    exact ⟨bindings, (gains.table?_of_live found).trans found⟩

/-- A new map joins those that are there. -/
theorem HoldsMaps.gains (holds : before.HoldsMaps std hashmap maps entries)
    (active : ∀ frame ∈ before.frames, before.isLive frame.record = true)
    (gains : before.Gains map stored table after) (furnished : table.Furnished stored) :
    after.HoldsMaps std hashmap (fun index => Option.elim index map maps)
      (fun index => Option.elim index stored entries) := by
  have oldEntries (index : ι) : entries index ≠ map ∧ entries index ≠ stored := by
    obtain ⟨_, live⟩ := (holds.isMap index).stored
    exact gains.ne_of_live live
  have old {scope : Handle} {name : String} {value : Value}
      (bound : before.valueIn? scope name = some value) : scope ≠ map ∧ scope ≠ stored := by
    obtain ⟨_, _, live, _⟩ := exists_table_of_valueIn? bound
    exact gains.ne_of_live live
  refine ⟨holds.stocked.gains gains, ?_, ?_, ?_, ?_, ?_⟩
  · rintro (_ | index)
    · exact gains.isMap furnished
    · exact (holds.isMap index).gains gains
  · rintro (_ | index) (_ | other) same
    · rfl
    · exact absurd same.symm (oldEntries other).2
    · exact absurd same (oldEntries index).2
    · exact congrArg some (holds.distinct same)
  · rw [gains.frames]
    rintro (_ | index) frame member
    · obtain ⟨record, found⟩ := isLive_iff_exists.1 (active frame member)
      have live : before.table? frame.record = some record.table := by
        rw [table?, found]
        rfl
      exact (gains.ne_of_live live).2
    · exact holds.inactive index frame member
  · rintro (_ | index) (_ | other)
    · exact gains.different
    · exact (old (holds.isMap other).bound).2
    · exact (oldEntries index).1.symm
    · exact holds.noMap index other
  · rintro (_ | index)
    · exact ⟨(old holds.stocked.part).2, (old (holds.stocked.routines _ (List.mem_cons_self))).2⟩
    · exact holds.noRoutine index

/-- A new map is empty, and the others are as they were. -/
theorem HoldsMaps.contents_gains (holds : before.HoldsMaps std hashmap maps entries)
    (gains : before.Gains map stored table after) :
    after.contents ∘ (fun index => Option.elim index stored entries) =
      fun index => Option.elim index ∅ (before.contents ∘ entries) := by
  funext index
  cases index with
  | none =>
      have empty : after.table? stored = some .empty := by
        rw [gains.tables, if_neg gains.different.symm, if_pos rfl]
      change after.contents stored = ∅
      rw [contents, empty, Option.elim_some, Table.contents_empty]
  | some index =>
      obtain ⟨_, live⟩ := (holds.isMap index).stored
      change after.contents (entries index) = before.contents (entries index)
      rw [contents, gains.table?_of_live live, contents]

end Vault

end ScopeScript
