import Mathlib.Data.Finmap
import Mathlib.Data.Finset.Sort
import ScopeScript.Proofs.Text.Order
import ScopeScript.Vault.Table

/-!
# Tables as finite maps

What a table is for: its contents are a finite map from names to values, in which neither cells nor
the order of the entries occur. Binding and removing names are the operations of finite maps, and
what a table tells of itself (its names in order, its values, its size) is read off its contents.
-/

namespace ScopeScript

/-- Finite maps from texts to values. -/
abbrev FiniteMap := Finmap fun _ : String => Value

namespace FiniteMap

/-- The keys in increasing order, byte by byte. -/
def sortedKeys (map : FiniteMap) : List String :=
  map.keys.sort Text.ByteLE

/-- The values in the order of their keys. -/
def sortedValues (map : FiniteMap) : List Value :=
  map.sortedKeys.filterMap map.lookup

end FiniteMap

namespace Table

/-- The finite map from the bound names to their values. -/
def contents (table : Table) : FiniteMap :=
  (table.entries.map fun entry => (⟨entry.1, entry.2.value⟩ : Sigma fun _ => Value)).toFinmap

@[simp] theorem lookup_contents (table : Table) (name : String) :
    table.contents.lookup name = (table.find? name).map (·.value) := by
  rw [contents, Finmap.dlookup_list_toFinmap, find?]
  induction table.entries with
  | nil => rfl
  | cons entry entries inductionHypothesis =>
      obtain ⟨other, binding⟩ := entry
      by_cases same : other = name
      · subst same
        simp
      · rw [List.map_cons, List.dlookup_cons_ne _ _ (Ne.symm same), inductionHypothesis]
        simp [same]

theorem contents_empty : empty.contents = ∅ := rfl

theorem contents_insert (table : Table) (name : String) (binding : Binding) :
    (table.insert name binding).contents = table.contents.insert name binding.value := by
  apply Finmap.ext_lookup
  intro other
  by_cases same : other = name
  · subst same
    simp
  · rw [Finmap.lookup_insert_of_ne _ same, lookup_contents, lookup_contents,
      find?_insert_of_ne table binding same]

theorem contents_erase (table : Table) (name : String) :
    (table.erase name).contents = table.contents.erase name := by
  apply Finmap.ext_lookup
  intro other
  by_cases same : other = name
  · subst same
    rw [Finmap.lookup_erase, lookup_contents, find?_erase_self]
    rfl
  · rw [Finmap.lookup_erase_ne same, lookup_contents, lookup_contents,
      find?_erase_of_ne table same]

theorem isSome_find? (table : Table) (name : String) :
    (table.find? name).isSome = decide (name ∈ table.contents) := by
  rw [Bool.eq_iff_iff, decide_eq_true_iff, ← Finmap.lookup_isSome, lookup_contents,
    Option.isSome_map]

theorem keys_contents (table : Table) :
    table.contents.keys = (table.entries.map (·.1)).toFinset := by
  ext name
  rw [Finmap.mem_keys, ← Finmap.lookup_isSome, lookup_contents, Option.isSome_map, find?,
    Option.isSome_map, List.find?_isSome]
  simp

theorem size_eq_card (table : Table) : table.size = table.contents.keys.card := by
  rw [keys_contents, List.toFinset_card_of_nodup table.nodup, List.length_map, size]

theorem textLE_iff {left right : String} : textLE left right = true ↔ Text.ByteLE left right := by
  rw [textLE, Bool.not_eq_true', decide_eq_false_iff_not, Text.byteLE_iff_le, not_lt]

theorem names_eq (table : Table) : table.names = table.contents.sortedKeys := by
  have sorted : table.names.Pairwise Text.ByteLE := by
    refine (List.pairwise_mergeSort ?_ ?_ _).imp textLE_iff.1
    · intro a b c
      simp only [textLE_iff]
      exact IsTrans.trans a b c
    · intro a b
      simp only [Bool.or_eq_true, textLE_iff]
      exact Std.Total.total a b
  have permuted : table.names.Perm (table.entries.map (·.1)) := List.mergeSort_perm _ _
  have nodup : table.names.Nodup := permuted.nodup_iff.2 table.nodup
  rw [FiniteMap.sortedKeys, keys_contents, ← List.toFinset_eq_of_perm _ _ permuted]
  exact ((List.toFinset_sort _ nodup).2 sorted).symm

theorem values_eq (table : Table) : table.values = table.contents.sortedValues := by
  rw [values, FiniteMap.sortedValues, names_eq]
  simp only [lookup_contents]

end Table

end ScopeScript
