import ScopeScript.Proofs.Interpreter.Teardown
import ScopeScript.Proofs.Termination.Evaluation

/-!
# Programs without loops come to an end

The limit on the nesting makes programs end in which neither `while` nor `loop` occurs
(`loop_free_runs_end`), with functions that call each other, formulas that refer to themselves and
files that import each other included. As long as the numbers of the slots fit, there are two ways
to end but with a result or a diagnostic: a binding without a name is attempted, or an operator
never gives its result.
-/

namespace ScopeScript

theorem Vault.LoopFree.freshVault : Interpreter.freshVault.LoopFree :=
  invariant_loopFree.freshVault .native .scope nofun

namespace Interpreter

/-- An operator keeps a run busy whose result never comes. -/
def KeptBusy (ran : Outcome Value × Interpreter) : Prop :=
  ran.1 = .endless ∧ ∃ operator left right,
    ran.2.machine.stuckOn? = some (operator, left, right) ∧
      BinaryOperator.result? operator left right = none

/-- How a run may come out for good: with a result or a diagnostic, by the crash of a binding
without a name, or kept busy by an operator. -/
def ComesOut (ran : Outcome Value × Interpreter) : Prop :=
  ran.1.Returned ∨ cause? ran = some .namelessBinding ∨ KeptBusy ran

theorem ComesOut.stop {outcome : Outcome Value} {interpreter : Interpreter}
    (comesOut : ComesOut (outcome, interpreter)) : ComesOut (outcome, interpreter.stop) := by
  have sameOperator : interpreter.stop.machine.stuckOn? = interpreter.machine.stuckOn? := by
    unfold Interpreter.stop
    split <;> rfl
  unfold ComesOut KeptBusy at comesOut ⊢
  rwa [cause?_stop, sameOperator]

theorem settles_evalBody (budget : Nat) (origin : Origin) {program : Program}
    (free : program.LoopFree) :
    Eval.Settles budget (fun _ => True) fun fuel => evalBody fuel origin program := by
  refine .bind (.within origin (.execute (Evaluator.ready budget) free)) fun flow _ => ?_
  cases flow with
  | thrown value span => exact .uncaught value span
  | result value => exact .result trivial
  | _ => exact .bind .machine fun _ _ => .result trivial

/-- A program without loops comes out the same for all sufficient amounts of fuel. -/
theorem AtRest.comesOut {interpreter : Interpreter} (rest : interpreter.AtRest)
    (files : interpreter.config.LoopFree) (stored : interpreter.machine.vault.LoopFree)
    {program : Program} (free : program.LoopFree) :
    ∃ enough result, (∀ fuel, enough ≤ fuel → interpreter.evalWithin fuel program = result) ∧
      (result.2.machine.vault.Fits → ComesOut result) := by
  let begun : Machine :=
    { interpreter.machine with parses := interpreter.machine.parses + 1, last := .none, depth := 0 }
  have yielded : ∀ values ∈ begun.activations, ∀ value ∈ values, value.LoopFree := by
    rw [show begun.activations = [] from rest.idle]
    nofun
  obtain ⟨scope, forest⟩ : ∃ scope, begun.vault.Fits → begun.vault.Forest [.block scope] := by
    by_cases fits : begun.vault.Fits
    · obtain ⟨scope, tidy⟩ := rest.tidy fits
      exact ⟨scope, fun _ => tidy.forest⟩
    · exact ⟨globalFrame.record, fun fitted => absurd fitted fits⟩
  have calm : begun.Calm [.block scope] := ⟨List.cons_ne_nil _ _, forest, stored, yielded⟩
  obtain ⟨outcome, after, eventually, settled⟩ :=
    settles_evalBody interpreter.config.maxDepth begun.parses free ⟨interpreter.config, 0⟩ begun
      [.block scope] files calm (Nat.le_add_left _ _)
  obtain ⟨enough, same⟩ := Filter.eventually_atTop.1 eventually
  have ran (fuel : Nat) (more : enough ≤ fuel) : interpreter.evalWithin fuel program =
      (outcome, { interpreter with machine := after }) := by
    have executed := (evalProgram_apply fuel program ⟨interpreter.config, 0⟩ _).trans
      (same fuel more)
    rw [evalWithin_of_started rest.started, executed]
  refine ⟨enough, _, ran, fun fits => ?_⟩
  obtain ⟨_, ends⟩ := rest.ends enough program (by rwa [ran enough le_rfl])
  have causes := ends.rootCause?
  rw [ran enough le_rfl] at causes
  cases outcome with
  | done value => exact .inl (.done value)
  | failed diagnostic => exact .inl (.failed diagnostic)
  | crashed crash =>
      refine .inr (.inl (causes.resolve_left ?_))
      simp [Machine.rootCause?]
  | endless =>
      -- Either an operator hangs, or what is done at the end of a computation that crashed.
      rcases settled fits with stuck | crashed
      · exact .inr (.inr ⟨rfl, stuck⟩)
      · refine .inr (.inl (causes.resolve_left ?_))
        exact Option.isSome_iff_ne_none.1 crashed

/-- Programs without loops come to an end. Let neither `while` nor `loop` occur in a program nor in
any file that can be imported, whatever nesting is allowed. Then there is an amount of fuel from
which on the run is always the same one. If its slots have fitting numbers, it has come out: with a
result or a diagnostic, unless a binding without a name was attempted or an operator never gives its
result. After a result or a diagnostic the store is then torn down without a crash. -/
theorem loop_free_runs_end (interpreter : Interpreter) (path source : String)
    (files : interpreter.config.LoopFree)
    (free : ∀ program, Program.parse path source = .ok program → program.LoopFree) :
    ∃ enough result,
      (∀ fuel, enough ≤ fuel → interpreter.runWithin fuel path source = result) ∧
        (result.2.machine.vault.Fits → ComesOut result ∧
          (result.1.Returned → ∀ program, Program.parse path source = .ok program →
            (Vault.unwind 0
              ((interpreter.start path source).evalWithin enough program).2.machine.vault).1 =
                .done ())) := by
  cases parsed : Program.parse path source with
  | error diagnostic =>
      refine ⟨0, (.failed diagnostic, interpreter), fun fuel _ => ?_, fun _ =>
        ⟨.inl (.failed diagnostic), nofun⟩⟩
      rw [runWithin, parsed]
  | ok program =>
      have rest := AtRest.start interpreter path source
      have stored : (interpreter.start path source).machine.vault.LoopFree := by
        dsimp only [start]
        exact .freshVault
      obtain ⟨enough, ⟨outcome, after⟩, ran, comesOut⟩ :=
        rest.comesOut files stored (free program parsed)
      refine ⟨enough, (outcome, after.stop), fun fuel more => ?_, fun fits => ?_⟩
      · rw [runWithin_of_parse parsed, ran fuel more]
      · have fitsRun : after.machine.vault.Fits := (widens_stop after).fits fits
        refine ⟨(comesOut fitsRun).stop, ?_⟩
        rintro returned _ ⟨⟩
        have same := ran enough le_rfl
        have rested := rest.eval enough program (by rwa [same])
        rw [same] at rested ⊢
        exact (rested.unwind fitsRun).1

/-- What a parser accepts is free of loops if a check says so. -/
theorem loopFree_of_parse {path source : String} {program : Program}
    (checked : (Program.parse path source).toOption.all
      (fun program => Stmt.areLoopFree program.body) = true)
    (parsed : Program.parse path source = .ok program) : program.LoopFree := by
  rw [parsed] at checked
  exact checked

/-- An interpreter that finds only a file that imports itself. -/
def cyclic : Interpreter :=
  new ⟨3, false, fun path =>
    if path = "cycle.syms" then .ok "import \"cycle\";" else .error .missing⟩

theorem loopFree_cyclic : cyclic.config.LoopFree := by
  intro path text program found
  simp only [cyclic, new] at found
  split at found
  · next same =>
    obtain rfl := Except.ok.inj found
    subst same
    exact loopFree_of_parse (by decide +kernel)
  · cases found

/-- The text of a program with a function that calls itself, a file that imports itself and a
formula that refers to itself. -/
def cyclicText : String :=
  "fn f(x) return f(x); let y := y; for z in [1, 2] \x7b f(z); \x7d " ++
    "import \"cycle\"; y;"

/-- A program that is cyclic in several ways comes to an end. With a fuel of forty it meets the
limit in the function, and the numbers of its slots fit. -/
theorem cyclic_runs_end :
    (cyclic.runWithin 40 inputPath cyclicText).1.kind? = some .depthExceeded ∧
      (cyclic.runWithin 40 inputPath cyclicText).2.machine.vault.Fits ∧
      ∃ enough result,
        (∀ fuel, enough ≤ fuel → cyclic.runWithin fuel inputPath cyclicText = result) ∧
          (result.2.machine.vault.Fits → ComesOut result) := by
  have free : ∀ program, Program.parse inputPath cyclicText = .ok program → program.LoopFree :=
    fun _ => loopFree_of_parse (by decide +kernel)
  obtain ⟨enough, result, ran, comesOut⟩ :=
    loop_free_runs_end cyclic inputPath cyclicText loopFree_cyclic free
  exact ⟨by decide +kernel, by decide +kernel, enough, result, ran, fun fits => (comesOut fits).1⟩

/-- The text of a program that puts a value under the empty key. -/
def emptyKeyText : String := "let m = Map.new(); m.set(\"\", 1);"

/-- The empty key is no name, and a program without loops that uses it crashes. -/
theorem emptyKey_crashes :
    bare.config.LoopFree ∧
      (∀ program, Program.parse inputPath emptyKeyText = .ok program → program.LoopFree) ∧
      cause? (bare.runWithin 40 inputPath emptyKeyText) = some .namelessBinding :=
  ⟨nofun, fun _ => loopFree_of_parse (by decide +kernel), by decide +kernel⟩

end Interpreter
end ScopeScript
