import ScopeScript.Proofs.Vault.Effect

/-!
# Operations on bindings

Operations that look names up or change bindings edit records in place: they neither allocate nor
free a record, they leave alone where a record belongs and which scopes it owns, and they do not
touch the frames. This holds in every store, also where they fail or crash.
-/

namespace ScopeScript

namespace Record

@[simp] theorem owned_detach (record : Record) (name : String) :
    (record.detach name).owned = record.owned := by
  unfold detach
  split <;> rfl

/-- A binding changes nothing about what is owned. -/
theorem owned_define (record : Record) (name : String) (binding : Binding) :
    (record.define name binding).owned = record.owned :=
  owned_detach record name

theorem owned_rebind (record : Record) (name : String) (binding : Binding) :
    (record.rebind name binding).owned = record.owned := by
  unfold rebind
  split <;> rfl

/-- Taking a name away changes nothing about what is owned. -/
theorem owned_erase (record : Record) (name : String) :
    (record.erase name).owned = record.owned :=
  owned_detach record name

/-- An assignment changes nothing about what is owned. -/
theorem owned_write (record : Record) (name : String) (cell : Nat) (value : Value) :
    (record.write name cell value).owned = record.owned := by
  unfold write
  split
  · split <;> rfl
  · rfl

/-- Where a record belongs: the scope it has been made in, and its path. -/
def lineage (record : Record) : Handle × String :=
  (record.parent, record.path)

@[simp] theorem lineage_detach (record : Record) (name : String) :
    (record.detach name).lineage = record.lineage := by
  unfold detach
  split <;> rfl

/-- A binding changes neither path nor parent. -/
theorem lineage_define (record : Record) (name : String) (binding : Binding) :
    (record.define name binding).lineage = record.lineage :=
  lineage_detach record name

theorem lineage_rebind (record : Record) (name : String) (binding : Binding) :
    (record.rebind name binding).lineage = record.lineage := by
  unfold rebind
  split <;> rfl

theorem lineage_erase (record : Record) (name : String) :
    (record.erase name).lineage = record.lineage :=
  lineage_detach record name

/-- An assignment changes neither path nor parent. -/
theorem lineage_write (record : Record) (name : String) (cell : Nat) (value : Value) :
    (record.write name cell value).lineage = record.lineage := by
  unfold write
  split
  · split <;> rfl
  · rfl

end Record

namespace Vault

/-- A record is changed in place, but not where it belongs nor what it owns, or a cell number is
used up. -/
inductive Edit : Vault → Vault → Prop
  | modify {vault : Vault} (handle : Handle) {change : Record → Record} :
      (∀ record, (change record).owned = record.owned) →
      (∀ record, (change record).lineage = record.lineage) → Edit vault (vault.modify handle change)
  | cell {vault : Vault} : Edit vault { vault with cells := vault.cells + 1 }

namespace Edit

/-- Edits leave the frames alone. -/
theorem frames_eq {vault after : Vault} (edits : Relation.ReflTransGen Edit vault after) :
    after.frames = vault.frames := by
  induction edits with
  | refl => rfl
  | tail _ edit inductionHypothesis => cases edit <;> exact inductionHypothesis

theorem current : Run.Steps Edit Vault.current :=
  .bind .state fun _ => .bind (.orCrash _) fun frame => .result frame.record

theorem global : Run.Steps Edit Vault.global :=
  .bind .state fun _ => .bind (.orCrash _) fun frame => .result frame.record

theorem owner : Run.Steps Edit Vault.owner := by
  refine .bind .state fun vault => ?_
  split
  · exact .result _
  · exact global

theorem activeRecord (handle : Handle) : Run.Steps Edit (Vault.activeRecord handle) :=
  .bind .state fun _ => .orCrash _

theorem freshCell : Run.Steps Edit Vault.freshCell :=
  .bind .state fun vault => .bind (.update fun _ => .cell) fun _ => .result vault.cells

/-- A name is bound by taking a new cell and changing one record. -/
theorem rebind (handle : Handle) (name : String) (value : Value) :
    Run.Steps Edit (Vault.rebind handle name value) := by
  unfold Vault.rebind
  split
  · exact .crash _
  · refine .bind freshCell fun cell => .update fun _ => .modify handle ?_ ?_
    · exact fun record => record.owned_rebind name ⟨cell, value⟩
    · exact fun record => record.lineage_rebind name ⟨cell, value⟩

theorem innermost (name : String) : Run.Steps Edit (Vault.innermost name) :=
  fun vault ended => Run.Steps.orCrash (vault.bindingAlong name vault.frames) vault ended

/-- Resolving a name changes nothing. -/
theorem resolve (name : String) : Run.Steps Edit (Vault.resolve name) := by
  refine .bind (innermost name) fun found => ?_
  split
  · exact .result _
  · exact .fail _

/-- A definition edits the record of the topmost frame. -/
theorem define (name : String) (value : Value) : Run.Steps Edit (Vault.define name value) := by
  refine .bind current fun handle => .bind (activeRecord handle) fun _ => ?_
  refine .bind freshCell fun cell => .update fun _ => .modify handle ?_ ?_
  · exact fun record => record.owned_define name ⟨cell, value⟩
  · exact fun record => record.lineage_define name ⟨cell, value⟩

/-- A binding in some scope edits its record. -/
theorem defineIn (handle : Handle) (name : String) (value : Value) :
    Run.Steps Edit (Vault.defineIn handle name value) :=
  .bind .state fun _ => .bind (.orFail _) fun _ => rebind handle name value

/-- Unbinding a name edits the record in which it was found. -/
theorem unbind (name : String) : Run.Steps Edit (Vault.unbind name) := by
  refine .bind (innermost name) fun found => ?_
  split
  · exact .bind (.update fun _ => .modify _ (·.owned_erase name) (·.lineage_erase name)) fun _ =>
      .result true
  · exact .result false

theorem eraseIn (handle : Handle) (name : String) : Run.Steps Edit (Vault.eraseIn handle name) :=
  .bind .state fun _ => .bind (.orFail _) fun _ =>
    .bind (.update fun _ => .modify handle (·.owned_erase name) (·.lineage_erase name)) fun _ =>
      .result _

theorem clearIn (handle : Handle) : Run.Steps Edit (Vault.clearIn handle) :=
  .update fun _ => .modify handle (fun _ => rfl) fun _ => rfl

/-- An assignment edits the record that its reference points to. -/
theorem write (reference : Reference) (value : Value) :
    Run.Steps Edit (Vault.write reference value) := by
  intro vault _
  simp only [Vault.write, Run.update_apply]
  split
  · exact .single (.modify reference.handle
      (fun record => record.owned_write reference.name _ value)
      fun record => record.lineage_write reference.name _ value)
  · exact .refl

end Edit

end Vault
end ScopeScript
