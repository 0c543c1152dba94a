import ScopeScript.Proofs.Interpreter.Yielding
import ScopeScript.Proofs.Map.Storage

/-!
# Targets that the right side changes

The right side of an assignment may change the target. A compound assignment to a name or to a
member of a scope works on the value that is there when the right side has been evaluated. An
assignment to an element works on the sequence that was read at the very beginning, and binds a
changed copy of it: what the key and the right side did to other elements is undone
(`updates_during_assignments`).
-/

namespace ScopeScript

/-- The value that an assignment stores: that of the right side, or what a compound operator makes
of the value that is stored already and that one. -/
def AssignOperator.stored? (operator : AssignOperator) (old right : Value) : Option Value :=
  match operator.binary? with
  | none => some right
  | some binary => binary.result? old right

/-! ## Parts of computations -/

namespace Eval

variable {α β : Type} {context : Context} {machine after : Machine} {value : β}

/-- A computation with a result has parts with a result. -/
theorem exists_of_bind {first : Eval α} {next : α → Eval β}
    (ran : (first >>= next) context machine = (.done value, after)) :
    ∃ found middle, first context machine = (.done found, middle) ∧
      next found context middle = (.done value, after) := by
  rw [bind_apply] at ran
  generalize first context machine = firstRan at ran
  obtain ⟨outcome, middle⟩ := firstRan
  cases outcome with
  | done found => exact ⟨found, middle, rfl, ran⟩
  | _ => cases ran

theorem exists_of_onVault {operation : Run Vault β}
    (ran : onVault operation context machine = (.done value, after)) :
    ∃ vault, operation machine.vault = (.done value, vault) ∧
      after = { machine with vault := vault } := by
  obtain ⟨gave, left⟩ := Prod.mk.inj ran
  exact ⟨_, Prod.ext gave rfl, left.symm⟩

theorem exists_of_onVaultAt {span : Span} {operation : Run Vault β}
    (ran : onVaultAt span operation context machine = (.done value, after)) :
    ∃ vault, operation machine.vault = (.done value, vault) ∧
      after = { machine with vault := vault } := by
  refine exists_of_onVault (?_ : onVault operation context machine = _)
  rw [onVaultAt] at ran
  generalize onVault operation context machine = ended at ran ⊢
  obtain ⟨outcome, left⟩ := ended
  cases outcome with
  | failed diagnostic => cases ran
  | _ => exact ran

end Eval

namespace Evaluator

variable {recursion : Recursion} {operator : AssignOperator} {right : Expr} {context : Context}
  {machine after evaluated : Machine} {old rightValue value : Value} {name : String} {flow : Flow}

/-! ## The new value -/

theorem applyBinary_of_some {binary : BinaryOperator}
    (result : binary.result? old rightValue = some value) :
    applyBinary binary old rightValue context machine = (.done value, machine) := by
  rw [applyBinary, result]
  rfl

/-- The old value is asked for when the right side has been evaluated. -/
theorem newValue_of_done {current : Eval Value} (evaluating : operator ≠ .formula)
    (rightIs : recursion.evaluate right context machine = (.done rightValue, evaluated))
    (currentIs : current context evaluated = (.done old, evaluated))
    (stores : operator.stored? old rightValue = some value) :
    newValue recursion operator right current context machine = (.done value, evaluated) := by
  unfold newValue
  split
  · exact absurd rfl evaluating
  · rw [Eval.bind_of_done rightIs]
    unfold AssignOperator.stored? at stores
    cases isCompound : operator.binary? with
    | none =>
        rw [isCompound] at stores
        cases stores
        rfl
    | some binary =>
        rw [isCompound] at stores
        exact (Eval.bind_of_done currentIs _).trans (applyBinary_of_some stores)

theorem evaluate_of_sees (fuel : Nat) (sees : machine.vault.Sees machine.vault.frames name value)
    (plain : value.isFormula = false) (span : Span) :
    evaluate (fuel + 1) (.name span name) context machine = (.done value, machine) :=
  lookup_of_sees sees plain span

/-- What an assignment with a known old value gives comes from the right side. -/
theorem exists_of_newValue (evaluating : operator ≠ .formula)
    (ran : newValue recursion operator right (pure old) context machine = (.done value, after)) :
    ∃ rightValue, recursion.evaluate right context machine = (.done rightValue, after) ∧
      operator.stored? old rightValue = some value := by
  unfold newValue at ran
  split at ran
  · exact absurd rfl evaluating
  · obtain ⟨rightValue, evaluated, rightIs, rest⟩ := Eval.exists_of_bind ran
    unfold AssignOperator.stored?
    cases isCompound : operator.binary? with
    | none =>
        rw [isCompound] at rest
        cases rest
        exact ⟨_, rightIs, rfl⟩
    | some binary =>
        rw [isCompound] at rest
        obtain ⟨found, middle, isOld, applied⟩ := Eval.exists_of_bind rest
        cases isOld
        unfold applyBinary at applied
        cases result : binary.result? old rightValue with
        | none =>
            rw [result] at applied
            obtain ⟨_, _, _, stuck⟩ := Eval.exists_of_bind applied
            cases stuck
        | some value =>
            rw [result] at applied
            cases applied
            exact ⟨rightValue, rightIs, result⟩

/-! ## Elements -/

theorem position?_lt {key : Value} {length index : Nat}
    (selects : position? key length = some index) : index < length := by
  unfold position? at selects
  split at selects
  · split at selects
    · cases selects
    · dsimp only at selects
      split at selects
      · cases selects
        omega
      · cases selects
  · cases selects

/-- An element assignment that completes has read the sequence first. -/
theorem exists_of_assignElement {target : Expr} {nameSpan : Span} {items : List Value} {key : Value}
    (evaluating : operator ≠ .formula)
    (ran : assignElement recursion target (.name nameSpan name) items key operator right context
      machine = (.done (), after)) :
    ∃ index rightValue evaluated old value, position? key items.length = some index ∧
      recursion.evaluate right context machine = (.done rightValue, evaluated) ∧
      items[index]? = some old ∧ operator.stored? old rightValue = some value ∧
      after.vault.Sees after.vault.frames name (.sequence (items.set index value)) := by
  unfold assignElement at ran
  cases selects : position? key items.length with
  | none =>
      rw [selects] at ran
      cases ran
  | some index =>
      rw [selects] at ran
      have bound : index < items.length := position?_lt selects
      obtain ⟨value, evaluated, gives, rest⟩ := Eval.exists_of_bind ran
      rw [List.getElem?_eq_getElem bound] at gives
      obtain ⟨rightValue, rightIs, stores⟩ := exists_of_newValue evaluating gives
      obtain ⟨⟨reference, held⟩, resolved, found, wrote⟩ := Eval.exists_of_bind rest
      obtain ⟨vault, resolves, rfl⟩ := Eval.exists_of_onVaultAt found
      obtain ⟨rfl, -, -⟩ := Vault.bindingAlong_of_resolve resolves
      obtain ⟨written, writes, rfl⟩ := Eval.exists_of_onVault wrote
      obtain ⟨written', writes', sees⟩ :=
        Vault.write_of_resolve resolves (.sequence (items.set index value))
      rw [show Vault.write _ _ _ = _ from writes] at writes'
      cases writes'
      exact ⟨index, rightValue, evaluated, items[index], value, rfl, rightIs,
        List.getElem?_eq_getElem bound, stores, sees⟩

/-- Replacing an element in two sequences gives the same if they agree everywhere else. -/
theorem set_eq_set_iff {current items : List Value} {index : Nat} {wanted value : Value}
    (inCurrent : index < current.length) (inItems : index < items.length) :
    current.set index wanted = items.set index value ↔
      (∀ position ≠ index, current[position]? = items[position]?) ∧ wanted = value := by
  constructor
  · intro same
    have alike (position : Nat) :
        (current.set index wanted)[position]? = (items.set index value)[position]? := by rw [same]
    refine ⟨fun position other => ?_, ?_⟩
    · simpa only [List.getElem?_set_ne other.symm] using alike position
    · simpa [inCurrent, inItems] using alike index
  · rintro ⟨beside, rfl⟩
    refine List.ext_getElem? fun position => ?_
    by_cases here : position = index
    · simp [here, inCurrent, inItems]
    · rw [List.getElem?_set_ne (Ne.symm here), List.getElem?_set_ne (Ne.symm here),
        beside position here]

/-- An assignment to an element of the sequence that a name stands for has gone through. The key and
then the right side have been evaluated, and the name stands for the sequence it stood for before,
with a new element computed from its old one there.

That is the sequence which the name stands for after the right side, updated with a new element
computed from what is there then, exactly if the two sequences agree everywhere else and the two new
elements are the same. -/
def UpdatesElement (fuel : Nat) (context : Context) (machine : Machine) (name : String)
    (items : List Value) (key : Expr) (operator : AssignOperator) (right : Expr)
    (after : Machine) : Prop :=
  ∃ keyValue keyed index rightValue evaluated old value,
    evaluate fuel key context machine = (.done keyValue, keyed) ∧
    position? keyValue items.length = some index ∧
    evaluate fuel right context keyed = (.done rightValue, evaluated) ∧
    items[index]? = some old ∧ operator.stored? old rightValue = some value ∧
    after.vault.Sees after.vault.frames name (.sequence (items.set index value)) ∧
    ∀ current present wanted,
      evaluated.vault.Sees evaluated.vault.frames name (.sequence current) →
      current[index]? = some present → operator.stored? present rightValue = some wanted →
      (after.vault.Sees after.vault.frames name (.sequence (current.set index wanted)) ↔
        (∀ position ≠ index, current[position]? = items[position]?) ∧ wanted = value)

theorem updatesElement_of_done {span targetSpan nameSpan : Span} {key : Expr} {items : List Value}
    (fuel : Nat) (evaluating : operator ≠ .formula)
    (sees : machine.vault.Sees machine.vault.frames name (.sequence items))
    (ran : executeOne (Evaluator.recursion fuel)
      (.assign span (.index targetSpan (.name nameSpan name) key) operator right) context machine =
        (.done flow, after)) :
    UpdatesElement fuel context machine name items key operator right after := by
  obtain ⟨⟨⟩, assigned, assigns, proceeds⟩ := Eval.exists_of_bind ran
  cases proceeds
  obtain ⟨object, found, objectIs, rest⟩ := Eval.exists_of_bind assigns
  obtain ⟨keyValue, keyed, keyIs, stores⟩ := Eval.exists_of_bind rest
  cases fuel with
  | zero => cases objectIs
  | succ fuel =>
      have isSequence := (evaluate_of_sees fuel sees rfl nameSpan).symm.trans objectIs
      cases isSequence
      obtain ⟨index, rightValue, evaluated, old, value, selects, rightIs, isOld, result, left⟩ :=
        exists_of_assignElement evaluating stores
      refine ⟨keyValue, keyed, index, rightValue, evaluated, old, value, keyIs, selects, rightIs,
        isOld, result, left, fun current present wanted _ isPresent _ => ?_⟩
      have inCurrent : index < current.length := (List.getElem?_eq_some_iff.1 isPresent).1
      rw [← set_eq_set_iff inCurrent (position?_lt selects)]
      constructor
      · intro kept
        exact Value.sequence.inj (kept.unique left)
      · intro same
        rwa [same]

end Evaluator

/-! ## Names and members -/

/-- The cell that a name stands for. -/
def Vault.cellOf? (vault : Vault) (name : String) : Option (Handle × Nat) :=
  match vault.bindingAlong name vault.frames with
  | .ok (some (handle, binding)) => some (handle, binding.cell)
  | _ => none

theorem Vault.resolve_of_cellOf? {vault : Vault} {name : String} {handle : Handle} {cell : Nat}
    (found : vault.cellOf? name = some (handle, cell)) :
    ∃ value, resolve name vault = (.done (⟨handle, name, cell⟩, value), vault) := by
  unfold cellOf? at found
  split at found
  · next binding along =>
    cases found
    refine ⟨binding.value, ?_⟩
    rw [resolve, Run.bind_apply, innermost, along]
    rfl
  · cases found

namespace Evaluator

variable {recursion : Recursion} {operator : AssignOperator} {right : Expr} {context : Context}
  {machine evaluated : Machine} {old rightValue value : Value} {name : String}

/-- An assignment to a name works on the value that is in its cell in the end. -/
theorem assignName_of_sees {span nameSpan : Span} {cell : Handle × Nat}
    (evaluating : operator ≠ .formula) (cellIs : machine.vault.cellOf? name = some cell)
    (rightIs : recursion.evaluate right context machine = (.done rightValue, evaluated))
    (cellStays : evaluated.vault.cellOf? name = some cell)
    (sees : evaluated.vault.Sees evaluated.vault.frames name old)
    (plain : old.isFormula = false) (stores : operator.stored? old rightValue = some value) :
    ∃ after, executeOne recursion (.assign span (.name nameSpan name) operator right) context
        machine = (.done .proceed, after) ∧ after.vault.Sees after.vault.frames name value := by
  obtain ⟨first, resolved⟩ := Vault.resolve_of_cellOf? cellIs
  obtain ⟨last, resolvedAgain⟩ := Vault.resolve_of_cellOf? cellStays
  obtain ⟨_, _, along⟩ := Vault.bindingAlong_of_resolve resolvedAgain
  obtain rfl : last = old := Vault.Sees.unique ⟨_, _, along⟩ sees
  obtain ⟨written, writes, seesValue⟩ := Vault.write_of_resolve resolvedAgain value
  refine ⟨{ evaluated with vault := written }, ?_, seesValue⟩
  have held : dereference recursion nameSpan (evaluated.vault.read ⟨cell.1, name, cell.2⟩) context
      evaluated = (.done last, evaluated) := by
    rw [Vault.read_of_resolve resolvedAgain]
    cases last with
    | formula content => cases plain
    | _ => rfl
  have found := Eval.onVaultAt_eq_of_done nameSpan context machine resolved
  have assigned : assign recursion (.name nameSpan name) operator right context machine =
      (.done (), { evaluated with vault := written }) := by
    have gives : newValue recursion operator right
        (do dereference recursion nameSpan ((← Eval.machine).vault.read ⟨cell.1, name, cell.2⟩))
        context machine = (.done value, evaluated) :=
      newValue_of_done evaluating rightIs held stores
    refine (Eval.bind_of_done found _).trans ((Eval.bind_of_done gives _).trans ?_)
    exact Eval.onVault_eq_of_done context evaluated writes
  exact Eval.bind_of_done assigned _

/-- An assignment to a member of a scope works on the value that is bound there in the end. -/
theorem assignBinding_of_bound {span targetSpan memberSpan : Span} {object : Expr}
    {handle : Handle} {found : Machine}
    (evaluating : operator ≠ .formula) (named : name ≠ "")
    (objectIs : recursion.evaluate object context machine = (.done (.scope handle), found))
    (rightIs : recursion.evaluate right context found = (.done rightValue, evaluated))
    (bound : evaluated.vault.valueIn? handle name = some old)
    (plain : old.isFormula = false) (stores : operator.stored? old rightValue = some value) :
    ∃ after, executeOne recursion (.assign span (.member targetSpan object memberSpan name) operator
        right) context machine = (.done .proceed, after) ∧
      after.vault.valueIn? handle name = some value := by
  obtain ⟨table, cell, tableIs, entry⟩ := Vault.exists_table_of_valueIn? bound
  obtain ⟨table', vault, defined, writes, contents⟩ := Vault.defineIn_writes tableIs named value
  have stored : (table'.find? name).map (·.value) = some value := by
    rw [← Table.lookup_contents, contents]
    simp
  have found? : Eval.queryAt targetSpan (·.lookup handle name) context evaluated =
      (.done (some ⟨cell, old⟩), evaluated) := by
    obtain ⟨record, live, rfl⟩ := Vault.exists_record_of_table? tableIs
    rw [Eval.queryAt, Vault.lookup, Vault.find_of_some live, ← entry]
    rfl
  have assigned : assign recursion (.member targetSpan object memberSpan name) operator right
      context machine = (.done (), { evaluated with vault := vault }) := by
    rw [assign, Eval.bind_of_done objectIs]
    refine (Eval.bind_of_done (newValue_of_done evaluating rightIs ?_ stores) _).trans ?_
    · rw [Eval.bind_of_done found?]
      exact property_of_bound bound plain targetSpan
    · exact Eval.onVaultAt_eq_of_done targetSpan context evaluated defined
  refine ⟨{ evaluated with vault := vault }, Eval.bind_of_done assigned _, ?_⟩
  rw [Vault.valueIn?, show Vault.table? _ handle = _ from writes.self]
  exact stored

end Evaluator

namespace Interpreter

open Evaluator

/-- Updates of the target by the right side of an assignment. An assignment to an element that goes
through loses those of the other elements, and a compound one also that of the element itself. A
compound assignment to a name or to a member works on the value that is there when the right side
has been evaluated. -/
theorem updates_during_assignments (fuel : Nat) (context : Context) (machine : Machine)
    {operator : AssignOperator} (evaluating : operator ≠ .formula) (right : Expr) :
    (∀ span targetSpan nameSpan name key items flow after,
      machine.vault.Sees machine.vault.frames name (.sequence items) →
      executeOne (recursion fuel)
          (.assign span (.index targetSpan (.name nameSpan name) key) operator right) context
          machine = (.done flow, after) →
      UpdatesElement fuel context machine name items key operator right after) ∧
    (∀ span nameSpan name cell rightValue evaluated present value,
      machine.vault.cellOf? name = some cell →
      evaluate fuel right context machine = (.done rightValue, evaluated) →
      evaluated.vault.cellOf? name = some cell →
      evaluated.vault.Sees evaluated.vault.frames name present → present.isFormula = false →
      operator.stored? present rightValue = some value →
      ∃ after, executeOne (recursion fuel) (.assign span (.name nameSpan name) operator right)
          context machine = (.done .proceed, after) ∧
        after.vault.Sees after.vault.frames name value) ∧
    ∀ span targetSpan memberSpan object handle found name rightValue evaluated present value,
      name ≠ "" → evaluate fuel object context machine = (.done (.scope handle), found) →
      evaluate fuel right context found = (.done rightValue, evaluated) →
      evaluated.vault.valueIn? handle name = some present → present.isFormula = false →
      operator.stored? present rightValue = some value →
      ∃ after, executeOne (recursion fuel)
          (.assign span (.member targetSpan object memberSpan name) operator right) context
          machine = (.done .proceed, after) ∧
        after.vault.valueIn? handle name = some value := by
  refine ⟨?_, ?_, ?_⟩
  · intro span targetSpan nameSpan name key items flow after sees ran
    exact updatesElement_of_done fuel evaluating sees ran
  · intro span nameSpan name cell rightValue evaluated present value cellIs rightIs cellStays
      sees plain stores
    exact assignName_of_sees evaluating cellIs rightIs cellStays sees plain stores
  · intro span targetSpan memberSpan object handle found name rightValue evaluated present value
      named objectIs rightIs bound plain stores
    exact assignBinding_of_bound evaluating named objectIs rightIs bound plain stores

/-- An assignment of a text. -/
def assigningText (target : Expr) (text : String) : Stmt :=
  .assign .null target .value (.text .null text)

/-- A name as an expression. -/
def named (name : String) : Expr := .name .null name

/-- An element of the sequence `xs`. -/
def element (index : Float) : Expr := .index .null (named "xs") (.number .null index)

/-- The member `x` of the scope `s`. -/
def member : Expr := .member .null (named "s") .null "x"

/-- A call of the function `f`. -/
def callOfF : Expr := .call .null "f" .null []

/-- A sequence, a scope and a name that stands for a text, and a function that changes them all. -/
def changing : Program :=
  ⟨.null, [.declare .null "xs" (.sequence .null [.text .null "a", .text .null "b"]) false,
    .declare .null "t" (.text .null "a") false,
    .scope .null "s" [.declare .null "x" (.text .null "a") false],
    .function .null "f" []
      [assigningText (element 0) "c", assigningText (element 1) "d", assigningText (named "t") "c",
        assigningText member "c", .returns .null (some (.text .null "e"))] false]⟩

/-- The state in which the function can be called. -/
@[irreducible] def ready : Machine := ((bare.start inputPath "").evalWithin 12 changing).2.machine

/-- The state in which the function has been called. -/
@[irreducible] def changed : Machine := (evaluate 12 callOfF ⟨bare.config, 0⟩ ready).2

/-- The value that a name stands for. -/
def standing? (machine : Machine) (name : String) : Option Value :=
  match machine.vault.bindingAlong name machine.vault.frames with
  | .ok (some (_, binding)) => some binding.value
  | _ => none

theorem sees_of_standing? {machine : Machine} {name : String} {value : Value}
    (stands : standing? machine name = some value) :
    machine.vault.Sees machine.vault.frames name value := by
  unfold standing? at stands
  split at stands
  · next handle binding along =>
    cases stands
    exact ⟨handle, binding.cell, along⟩
  · cases stands

/-- A value that is read as a content is made of this content. -/
theorem eq_some_of_bind {α : Type} {read : Value → Option α} {make : α → Value}
    (reads : ∀ {value content}, read value = some content → value = make content)
    {value? : Option Value} {content : α} (isRead : value?.bind read = some content) :
    value? = some (make content) := by
  obtain ⟨value, rfl, found⟩ := Option.bind_eq_some_iff.1 isRead
  rw [reads found]

/-- The text that a value is. -/
def text? : Value → Option String
  | .text text => some text
  | _ => none

theorem eq_text_of_text? {value : Value} {text : String} (isText : text? value = some text) :
    value = .text text := by
  unfold text? at isText
  split at isText
  · cases isText
    rfl
  · cases isText

/-- The scope that a value is. -/
def scopeOf? : Value → Option Handle
  | .scope handle => some handle
  | _ => none

theorem eq_scope_of_scopeOf? {value : Value} {handle : Handle}
    (isScope : scopeOf? value = some handle) : value = .scope handle := by
  unfold scopeOf? at isScope
  split at isScope
  · cases isScope
    rfl
  · cases isScope

theorem eq_map_of_texts? {items : List Value} {texts : List String}
    (areTexts : texts? (.sequence items) = some texts) : items = texts.map .text := by
  induction items generalizing texts with
  | nil =>
      cases areTexts
      rfl
  | cons item items inductionHypothesis =>
      simp only [texts?, List.mapM_cons] at areTexts
      obtain ⟨text, isText, rest⟩ := Option.bind_eq_some_iff.1 areTexts
      obtain ⟨others, areOthers, joined⟩ := Option.bind_eq_some_iff.1 rest
      cases joined
      split at isText
      · cases isText
        rw [inductionHypothesis areOthers, List.map_cons]
      · cases isText

theorem eq_sequence_of_texts? {value : Value} {texts : List String}
    (areTexts : texts? value = some texts) : value = .sequence (texts.map .text) := by
  cases value with
  | sequence items => rw [eq_map_of_texts? areTexts]
  | _ => cases areTexts

/-- The value that a computation has given. -/
def value? : Outcome Value → Option Value
  | .done value => some value
  | _ => none

theorem eq_done_of_value? {ran : Outcome Value × Machine} {value : Value}
    (gave : value? ran.1 = some value) : ran = (.done value, ran.2) := by
  obtain ⟨outcome, after⟩ := ran
  unfold value? at gave
  split at gave
  · next same => cases gave; exact congrArg (·, after) same
  · cases gave

theorem exists_ran_of_isAtEnd {ran : Outcome Flow × Machine} (atEnd : isAtEnd ran.1 = true) :
    ∃ flow after, ran = (.done flow, after) := by
  obtain ⟨flow, completed, _⟩ := exists_flow_of_isAtEnd atEnd
  exact ⟨flow, ran.2, Prod.ext completed rfl⟩

theorem callOfF_changes :
    evaluate 12 callOfF ⟨bare.config, 0⟩ ready = (.done (.text "e"), changed) := by
  rw [changed]
  exact eq_done_of_value? (eq_some_of_bind eq_text_of_text? (by decide +kernel))

/-- The function changes what each kind of target holds, which compound assignments to the name and
to the member do not lose. -/
theorem changing_updates_targets :
    (∃ flow after, executeOne (recursion 12) (.assign .null (element 0) .add callOfF)
        ⟨bare.config, 0⟩ ready = (.done flow, after) ∧
      UpdatesElement 12 ⟨bare.config, 0⟩ ready "xs" [.text "a", .text "b"] (.number .null 0) .add
        callOfF after) ∧
    (∃ after, executeOne (recursion 12) (.assign .null (named "t") .add callOfF)
        ⟨bare.config, 0⟩ ready = (.done .proceed, after) ∧
      after.vault.Sees after.vault.frames "t" (.text "ce")) ∧
    ∃ after, executeOne (recursion 12) (.assign .null member .add callOfF)
        ⟨bare.config, 0⟩ ready = (.done .proceed, after) ∧
      after.vault.valueIn? ⟨5, 1⟩ "x" = some (.text "ce") := by
  obtain ⟨elements, names, members⟩ := updates_during_assignments 12 ⟨bare.config, 0⟩ ready
    (show AssignOperator.add ≠ .formula by decide) callOfF
  refine ⟨?_, ?_, ?_⟩
  · have sees : ready.vault.Sees ready.vault.frames "xs" (.sequence [.text "a", .text "b"]) :=
      sees_of_standing? (eq_some_of_bind eq_sequence_of_texts?
        (by decide +kernel : _ = some ["a", "b"]))
    have atEnd : isAtEnd (executeOne (recursion 12) (.assign .null (element 0) .add callOfF)
        ⟨bare.config, 0⟩ ready).1 = true := by decide +kernel
    obtain ⟨flow, after, ran⟩ := exists_ran_of_isAtEnd atEnd
    exact ⟨flow, after, ran, elements .null .null .null "xs" _ _ flow after sees ran⟩
  · have cell : ready.vault.cellOf? "t" = some (⟨0, 1⟩, 30) := by decide +kernel
    have cellStays : changed.vault.cellOf? "t" = some (⟨0, 1⟩, 30) := by decide +kernel
    have sees : changed.vault.Sees changed.vault.frames "t" (.text "c") :=
      sees_of_standing? (eq_some_of_bind eq_text_of_text? (by decide +kernel))
    exact names .null .null "t" _ _ changed _ _ cell callOfF_changes cellStays sees rfl rfl
  · have sees : ready.vault.Sees ready.vault.frames "s" (.scope ⟨5, 1⟩) :=
      sees_of_standing? (eq_some_of_bind eq_scope_of_scopeOf? (by decide +kernel))
    have object : evaluate 12 (named "s") ⟨bare.config, 0⟩ ready = (.done (.scope ⟨5, 1⟩), ready) :=
      evaluate_of_sees 11 sees rfl .null
    have bound : changed.vault.valueIn? ⟨5, 1⟩ "x" = some (.text "c") :=
      eq_some_of_bind eq_text_of_text? (by decide +kernel)
    exact members .null .null .null (named "s") _ ready "x" _ changed _ _ (by decide) object
      callOfF_changes bound rfl rfl

theorem exists_ran_of_texts {ran : Outcome Flow × Machine} {name : String}
    {texts wanted : List String} (atEnd : isAtEnd ran.1 = true)
    (stands : (standing? ran.2 name).bind texts? = some texts) (other : wanted ≠ texts) :
    ∃ flow after, ran = (.done flow, after) ∧
      ¬ after.vault.Sees after.vault.frames name (.sequence (wanted.map .text)) := by
  obtain ⟨flow, after, rfl⟩ := exists_ran_of_isAtEnd atEnd
  refine ⟨flow, after, rfl, fun sees => ?_⟩
  have found := sees_of_standing? (eq_some_of_bind eq_sequence_of_texts? stands)
  have same := Value.sequence.inj (sees.unique found)
  exact other (List.map_injective_iff.2 (fun _ _ => Value.text.inj) same)

/-- The element assignments go through, but the sequence that the function has left behind is not
updated: the change of the second element is lost, and the compound one works on the text that the
function has replaced. -/
theorem element_assignments_undo_changes :
    evaluate 12 callOfF ⟨bare.config, 0⟩ ready = (.done (.text "e"), changed) ∧
      changed.vault.Sees changed.vault.frames "xs" (.sequence [.text "c", .text "d"]) ∧
      (∃ flow after, executeOne (recursion 12) (.assign .null (element 0) .value callOfF)
          ⟨bare.config, 0⟩ ready = (.done flow, after) ∧
        ¬ after.vault.Sees after.vault.frames "xs" (.sequence [.text "e", .text "d"])) ∧
      ∃ flow after, executeOne (recursion 12) (.assign .null (element 0) .add callOfF)
          ⟨bare.config, 0⟩ ready = (.done flow, after) ∧
        ¬ after.vault.Sees after.vault.frames "xs" (.sequence [.text "ce", .text "d"]) := by
  refine ⟨callOfF_changes, ?_, ?_, ?_⟩
  · exact sees_of_standing? (eq_some_of_bind eq_sequence_of_texts?
      (by decide +kernel : _ = some ["c", "d"]))
  · have stands : (standing? (executeOne (recursion 12) (.assign .null (element 0) .value callOfF)
        ⟨bare.config, 0⟩ ready).2 "xs").bind texts? = some ["e", "b"] := by decide +kernel
    exact exists_ran_of_texts (by decide +kernel) stands (show ["e", "d"] ≠ _ by decide)
  · have stands : (standing? (executeOne (recursion 12) (.assign .null (element 0) .add callOfF)
        ⟨bare.config, 0⟩ ready).2 "xs").bind texts? = some ["ae", "b"] := by decide +kernel
    exact exists_ran_of_texts (by decide +kernel) stands (show ["ce", "d"] ≠ _ by decide)

end Interpreter
end ScopeScript
