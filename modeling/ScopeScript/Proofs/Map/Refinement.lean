import ScopeScript.Proofs.Interpreter.Lifetime
import ScopeScript.Proofs.Map.Instances

/-!
# Maps refine finite maps

Any number of maps, called in any order, answer as so many finite maps do that know nothing of each
other (`maps_refine_finite_maps`). One call changes the table of the entries of its map and nothing
else (`MapCall.callMember`), so the conditions under which calls work hold again afterwards, and a
sequence of calls follows by induction.
-/

namespace ScopeScript

/-- A call of a method of one of several maps, and where it stands. -/
structure MapRequest (ι : Type) where
  target : ι
  call : MapCall
  span : Span
  callSpan : Span

/-- Call methods of maps one after the other. -/
def Evaluator.callMaps (recursion : Recursion) (maps : ι → Handle) :
    List (MapRequest ι) → Eval (List Value)
  | [] => return []
  | request :: rest => do
      let value ← callMember recursion request.span (.scope (maps request.target))
        ⟨request.callSpan, request.call.method⟩ request.call.arguments
      let values ← callMaps recursion maps rest
      return value :: values

/-- What independent finite maps answer to requests, and what they are afterwards. -/
def FiniteMap.serve [DecidableEq ι] (contents : ι → FiniteMap) :
    List (MapRequest ι) → List Value × (ι → FiniteMap)
  | [] => ([], contents)
  | request :: rest =>
      let map := contents request.target
      let served := serve (Function.update contents request.target (request.call.effect map)) rest
      (request.call.answer map :: served.1, served.2)

/-- What requests to maps leave alone. -/
structure Machine.Serves {ι : Type} (before : Machine) (entries : ι → Handle)
    (requests : List (MapRequest ι)) (after : Machine) : Prop where
  beside : after = { before with vault := after.vault, last := after.last }
  frames : after.vault.frames = before.vault.frames
  tables : ∀ handle, (∀ request ∈ requests, handle ≠ entries request.target) →
    after.vault.table? handle = before.vault.table? handle
  live : after.vault.live = before.vault.live

namespace Evaluator

variable {ι : Type} {context : Context} {std hashmap : Handle} {maps entries : ι → Handle}

theorem callMaps_serves [DecidableEq ι] (fuel : Nat) {openings : List Opening} {machine : Machine}
    (requests : List (MapRequest ι)) (proper : ∀ request ∈ requests, request.call.Proper)
    (tidy : machine.Tidy openings) (fits : machine.vault.Fits)
    (room : machine.vault.live < UInt32.size) (shallow : machine.depth < context.config.maxDepth)
    (holds : machine.vault.HoldsMaps std hashmap maps entries) :
    ∃ after, callMaps (Evaluator.recursion (fuel + 4)) maps requests context machine =
        (.done (FiniteMap.serve (machine.vault.contents ∘ entries) requests).1, after) ∧
      after.vault.HoldsMaps std hashmap maps entries ∧
      after.vault.contents ∘ entries =
        (FiniteMap.serve (machine.vault.contents ∘ entries) requests).2 ∧
      machine.Serves entries requests after ∧ after.Tidy openings ∧ after.vault.Fits := by
  induction requests generalizing machine with
  | nil => exact ⟨machine, rfl, holds, rfl, ⟨rfl, rfl, fun _ _ => rfl, rfl⟩, tidy, fits⟩
  | cons request requests inductionHypothesis =>
      obtain ⟨first, rest⟩ := List.forall_mem_cons.1 proper
      obtain ⟨table, found⟩ := (holds.isMap request.target).stored
      have current : machine.vault.contents (entries request.target) = table.contents := by
        rw [Vault.contents, found, Option.elim_some]
      obtain ⟨table', middle, ran, writes, written⟩ := request.call.callMember first fuel
        request.span request.callSpan ⟨tidy.forest.consistent, fits⟩ room shallow holds.stocked
        (holds.isMap request.target) found
      have fitsAfter := (writes.vault.sound ⟨tidy.forest.consistent, fits⟩).fits
      have roomAfter := writes.vault.live.trans_lt room
      have tidyAfter : middle.Tidy openings := by
        have orderly := Eval.closed_orderly.callMember (Eval.closed_orderly.recursion (fuel + 4))
          request.span (.scope (maps request.target)) ⟨request.callSpan, request.call.method⟩
          request.call.arguments
        have ends := orderly.ends context machine openings tidy
        rw [ran] at ends
        exact ends fitsAfter
      have shallowAfter : middle.depth < context.config.maxDepth := by
        rw [writes.beside]
        exact shallow
      have updated : middle.vault.contents ∘ entries =
          Function.update (machine.vault.contents ∘ entries) request.target
            (request.call.effect table.contents) := by
        funext index
        by_cases isTarget : index = request.target
        · subst isTarget
          rw [Function.update_self, Function.comp_apply, writes.vault.contents_self, written]
        · have apart := holds.distinct.ne isTarget
          rw [Function.update_of_ne isTarget, Function.comp_apply,
            writes.vault.contents_eq apart, Function.comp_apply]
      obtain ⟨after, ranRest, holdsAfter, contentsAfter, serves, tidyEnd⟩ :=
        inductionHypothesis rest tidyAfter fitsAfter roomAfter shallowAfter
          (holds.writes writes.vault)
      rw [updated] at ranRest contentsAfter
      simp only [FiniteMap.serve, Function.comp_apply, current]
      refine ⟨after, ?_, holdsAfter, contentsAfter, ⟨?_, ?_, fun handle apart => ?_,
        serves.live.trans writes.vault.live⟩, tidyEnd⟩
      · exact (Eval.bind_of_done ran _).trans (Eval.bind_of_done ranRest _)
      · rw [serves.beside, writes.beside]
      · exact serves.frames.trans writes.vault.frames
      · obtain ⟨notFirst, notRest⟩ := List.forall_mem_cons.1 apart
        rw [serves.tables handle notRest, writes.vault.other notFirst]

/-- The constructor adds an empty map to those that are there. -/
theorem callNewMap_holds (fuel : Nat) (site : CallSite) (context : Context)
    {openings : List Opening} {machine : Machine} (tidy : machine.Tidy openings)
    (fits : machine.vault.Fits) (room : machine.vault.live + 1 < UInt32.size)
    (holds : machine.vault.HoldsMaps std hashmap maps entries) :
    ∃ map stored after,
      Native.newMap.call (Evaluator.recursion (fuel + 1)) site [] context machine =
        (.done (.scope map), after) ∧
      after.vault.HoldsMaps std hashmap (fun index => Option.elim index map maps)
        (fun index => Option.elim index stored entries) ∧
      after.vault.contents ∘ (fun index => Option.elim index stored entries) =
        (fun index => Option.elim index ∅ (machine.vault.contents ∘ entries)) ∧
      after.vault.frames = machine.vault.frames ∧
      after = { machine with vault := after.vault, last := after.last } ∧ after.Tidy openings ∧
      after.vault.Fits ∧ after.vault.live = machine.vault.live + 2 := by
  obtain ⟨frame, below, _, frames, _⟩ := tidy.forest.exists_current tidy.someOpen
  have active := tidy.forest.frame_live
  obtain ⟨map, stored, table, after, ran, gains, furnished, beside⟩ :=
    Native.callNewMap_gains fuel site context machine ⟨tidy.forest.consistent, fits⟩ room active
      frames
  have orderly := Eval.closed_orderly.callNewMap (Eval.closed_orderly.recursion (fuel + 1)) site []
  have ends := orderly.ends context machine openings tidy
  rw [ran] at ends
  exact ⟨map, stored, after, ran, holds.gains active gains furnished, holds.contents_gains gains,
    gains.frames, beside, ends gains.sound.fits, gains.sound.fits, gains.live⟩

/-- In every tidy state that holds maps (all states that can come up are tidy, by
`Machine.Reachable.tidy`), every sequence of calls of their methods succeeds and answers what
independent finite maps answer, keyed by the written forms of the keys. Afterwards the maps stand
for what the finite maps have become, and everything else is as before: the frames, the bindings of
all scopes but the entries of the maps that were called, the number of live records, and the state
beside the store except for the value of the last expression statement. The state is again tidy and
holds the maps, and so is the state after the constructor has added an empty map to them. A call
needs the number of one slot and the constructor those of two. -/
theorem maps_refine_finite_maps [DecidableEq ι] {openings : List Opening} {machine : Machine}
    (tidy : machine.Tidy openings) (holds : machine.vault.HoldsMaps std hashmap maps entries)
    (fits : machine.vault.Fits) (shallow : machine.depth < context.config.maxDepth) (fuel : Nat) :
    (machine.vault.live < UInt32.size →
      ∀ requests : List (MapRequest ι), (∀ request ∈ requests, request.call.Proper) →
      ∃ after, callMaps (Evaluator.recursion (fuel + 4)) maps requests context machine =
          (.done (FiniteMap.serve (machine.vault.contents ∘ entries) requests).1, after) ∧
        after.vault.HoldsMaps std hashmap maps entries ∧
        after.vault.contents ∘ entries =
          (FiniteMap.serve (machine.vault.contents ∘ entries) requests).2 ∧
        machine.Serves entries requests after ∧ after.Tidy openings ∧ after.vault.Fits) ∧
    (machine.vault.live + 1 < UInt32.size → ∀ site, ∃ map stored after,
      Native.newMap.call (Evaluator.recursion (fuel + 4)) site [] context machine =
        (.done (.scope map), after) ∧
      after.vault.HoldsMaps std hashmap (fun index => Option.elim index map maps)
        (fun index => Option.elim index stored entries) ∧
      after.vault.contents ∘ (fun index => Option.elim index stored entries) =
        (fun index => Option.elim index ∅ (machine.vault.contents ∘ entries)) ∧
      after.vault.frames = machine.vault.frames ∧
      after = { machine with vault := after.vault, last := after.last } ∧ after.Tidy openings ∧
      after.vault.Fits ∧ after.vault.live = machine.vault.live + 2) :=
  ⟨fun room requests proper => callMaps_serves fuel requests proper tidy fits room shallow holds,
    fun room site => callNewMap_holds (fuel + 3) site context tidy fits room holds⟩

end Evaluator

/-! ## The maps of a new session -/

/-- Whether two values are the same scope or the same routine. -/
def Value.isSame : Value → Value → Bool
  | .scope left, .scope right => left == right
  | .native left, .native right => left == right
  | _, _ => false

theorem Value.eq_of_isSame {left right : Value} (same : left.isSame right = true) :
    left = right := by
  unfold isSame at same
  split at same
  · exact congrArg Value.scope (beq_iff_eq.1 same)
  · exact congrArg Value.native (beq_iff_eq.1 same)
  · cases same

theorem Vault.valueIn?_of_any {vault : Vault} {handle : Handle} {name : String} {value : Value}
    (same : (vault.valueIn? handle name).any (·.isSame value) = true) :
    vault.valueIn? handle name = some value := by
  cases found : vault.valueIn? handle name with
  | none =>
      rw [found] at same
      cases same
  | some bound =>
      rw [found] at same
      exact congrArg some (Value.eq_of_isSame same)

namespace Interpreter

/-- The standard scope and the scope of the routines for maps in a new session. -/
theorem freshVault_stocked : freshVault.Stocked ⟨1, 1⟩ ⟨3, 1⟩ where
  visible := by
    rw [frames_freshVault]
    exact Vault.sees_cons_of_bound (Vault.valueIn?_of_any (by decide +kernel))
  part := Vault.valueIn?_of_any (by decide +kernel)
  routines := by
    have checked : ∀ routine ∈ Native.mapRoutines,
        (freshVault.valueIn? ⟨3, 1⟩ routine.1).any (·.isSame routine.2.value) = true := by
      decide +kernel
    exact fun routine member => Vault.valueIn?_of_any (checked routine member)

/-- A new session knows the routines and holds no maps. -/
theorem start_holdsMaps (interpreter : Interpreter) (path source : String)
    (none : Empty → Handle) :
    (interpreter.start path source).machine.vault.HoldsMaps ⟨1, 1⟩ ⟨3, 1⟩ none none := by
  simp only [start]
  exact ⟨freshVault_stocked, nofun, nofun, nofun, nofun, nofun⟩

end Interpreter

namespace Evaluator

open Interpreter (bare inputPath globalFrame)

/-- Two values that are written alike are keys of one of two maps. -/
def collidingRequests : List (MapRequest (Option (Option Empty))) :=
  [⟨none, .set (.bool true) .none, .null, .null⟩,
    ⟨none, .set (.text "true") (.bool false), .null, .null⟩,
    ⟨none, .get (.bool true), .null, .null⟩, ⟨some none, .has (.bool true), .null, .null⟩]

/-- In a session with two new maps, the second of two keys that are written alike replaces the
first, and the other map stays empty. -/
theorem maps_refine_finite_maps_collision :
    ∃ machine maps entries after, machine.Tidy [.block globalFrame.record] ∧
      machine.vault.HoldsMaps ⟨1, 1⟩ ⟨3, 1⟩ maps entries ∧
      callMaps (Evaluator.recursion 4) maps collidingRequests ⟨bare.config, 0⟩ machine =
        (.done [.none, .none, .bool false, .bool false], after) := by
  let context : Context := ⟨bare.config, 0⟩
  have session : (bare.start inputPath "").machine.Reachable [.block globalFrame.record] :=
    .session (.start bare inputPath "")
  have noMaps := bare.start_holdsMaps inputPath "" Empty.elim
  have atStart : (bare.start inputPath "").machine.depth < context.config.maxDepth := by
    decide +kernel
  have fits : (bare.start inputPath "").machine.vault.Fits := by decide +kernel
  have records : (bare.start inputPath "").machine.vault.live = 5 := by decide +kernel
  obtain ⟨_, _, first, _, oneMap, contentsFirst, _, beside, tidyFirst, fitsFirst, liveFirst⟩ :=
    (maps_refine_finite_maps (session.tidy fits) noMaps fits atStart 0).2 (by rw [records]; decide)
      ⟨.null, "new"⟩
  have atFirst : first.depth < context.config.maxDepth := by
    rw [beside]
    exact atStart
  rw [records] at liveFirst
  obtain ⟨_, _, second, _, twoMaps, contents, _, beside, tidy, fitsSecond, liveSecond⟩ :=
    (maps_refine_finite_maps tidyFirst oneMap fitsFirst atFirst 0).2 (by rw [liveFirst]; decide)
      ⟨.null, "new"⟩
  have atSecond : second.depth < context.config.maxDepth := by
    rw [beside]
    exact atFirst
  have proper : ∀ request ∈ collidingRequests, request.call.Proper := by decide +kernel
  rw [liveFirst] at liveSecond
  obtain ⟨after, ran, _⟩ := (maps_refine_finite_maps tidy twoMaps fitsSecond atSecond 0).1
    (by rw [liveSecond]; decide) collidingRequests proper
  refine ⟨second, _, _, after, tidy, twoMaps, ran.trans ?_⟩
  rw [contents, contentsFirst]
  have alike : Value.toText (.text "true") = "true" := by decide
  have found (map : FiniteMap) : (map.insert "true" (.bool false)).lookup
      (Value.toText (.bool true)) = some (.bool false) := Finmap.lookup_insert map
  simp [collidingRequests, FiniteMap.serve, MapCall.answer, MapCall.effect, alike, found,
    Finmap.notMem_empty]

end Evaluator

/-! ## What the conditions are for -/

namespace Interpreter

/-- A formula is handed over as a key. -/
def formulaKey : String :=
  "scope s \x7b let x := \"a\"; \x7d let m = Map.new(); " ++
    "m.set(std.hashmap.get(s, \"x\"), true); println(m.keys());"

/-- A formula is handed over as a value. -/
def formulaValue : String :=
  "scope s \x7b let x := \"a\"; \x7d let m = Map.new(); " ++
    "m.set(\"k\", std.hashmap.get(s, \"x\")); println(m.get(\"k\"));"

/-- A map is given a binding that hides the routines from its methods. -/
def hiddenRoutines : String :=
  "let m = Map.new(); m.std = true; m.set(\"a\", true);"

/-- A map is changed while the scope of its entries is active. -/
def activeEntries : String :=
  "let x = false; let m = Map.new(); fn g() \x7b m.set(\"x\", true); return x; \x7d " ++
    "m.set(\"g\", g); println(m.entries.g());"

/-- What a program prints. -/
def printed (source : String) : String :=
  (runWithin 60 bare inputPath source).2.machine.output

/-- A formula is filed under what it evaluates to and not under its written form, and where it is a
value, what it evaluates to is filed; a map that binds `std` cannot be used; and what is set in a
map is bound for the caller while the entries are active. -/
theorem maps_fall_short_of_finite_maps :
    printed formulaKey = "[\"a\"]\n" ∧
      printed formulaValue = "a\n" ∧
      Value.toText (.formula ⟨1, .text .null "a"⟩) = "\"a\"" ∧
      (runWithin 60 bare inputPath hiddenRoutines).1.kind? = some .unboundName ∧
      printed activeEntries = "true\n" := by
  decide +kernel

end Interpreter

end ScopeScript
