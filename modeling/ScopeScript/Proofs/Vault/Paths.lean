import Mathlib.Data.String.Basic
import Mathlib.Order.Interval.Finset.Nat
import ScopeScript.Vault.Basic

/-!
# Paths of nested scopes

The path of a scope extends the path of the scope it is in by a part with a single `$`, which is
behind a dot and a name, or at once. Every path ends with a `$` and digits. Dots and `$` come before
digits, so what stands between a path and the path of a scope inside it, in the order of texts, has
more signs than the first one: `$0$10` comes behind everything that is inside `$0$1`. In a sorted
list of paths the nearest path in front that has fewer signs is therefore the one of the enclosing
scope (`exists_nearest`).
-/

namespace ScopeScript
namespace Vault

/-- Number of signs that separate levels. -/
def signs (path : String) : ℕ :=
  path.toList.count '$'

/-- A path ends with a sign and digits. -/
def Numbered (path : String) : Prop :=
  ∃ front digits, path.toList = front ++ '$' :: digits ∧ ∀ c ∈ digits, c.isDigit = true

/-- The path of a scope that is directly inside a scope of another path. -/
structure ChildPath (parent path : String) : Prop where
  numbered : Numbered path
  extends_parent : ∃ lead rest, path.toList = parent.toList ++ lead :: rest ∧
    (lead = '$' ∨ lead = '.') ∧ (lead :: rest).count '$' = 1

/-! ## Paths of new scopes -/

theorem isDigit_of_mem_toString {number : ℕ} {c : Char} (member : c ∈ (toString number).toList) :
    c.isDigit = true :=
  Nat.isDigit_of_mem_toDigits (b := 10) (by decide) (by decide) (by simpa using member)

theorem count_toString (number : ℕ) : (toString number).toList.count '$' = 0 := by
  refine List.count_eq_zero.2 fun member => ?_
  have digit := isDigit_of_mem_toString member
  revert digit
  decide

theorem numbered_append (front : String) (number : ℕ) :
    Numbered (front ++ "$" ++ toString number) :=
  ⟨front.toList, (toString number).toList, by simp, fun _ => isDigit_of_mem_toString⟩

theorem Numbered.signs_pos {path : String} (numbered : Numbered path) : 0 < signs path := by
  obtain ⟨front, digits, split, -⟩ := numbered
  simp [signs, split]

theorem signs_root (number : ℕ) : signs ("$" ++ toString number) = 1 := by
  rw [signs, String.toList_append, List.count_append, count_toString]
  rfl

theorem childPath_block (parent : String) (number : ℕ) :
    ChildPath parent (parent ++ "$" ++ toString number) where
  numbered := numbered_append parent number
  extends_parent := ⟨'$', (toString number).toList, by simp, .inl rfl, by
    rw [List.count_cons_self, count_toString]⟩

theorem childPath_member (parent : String) {name : String} (plain : '$' ∉ name.toList) :
    ChildPath parent (memberPath parent name) where
  numbered := ⟨(parent ++ "." ++ name).toList, ['0'], by simp [memberPath], fun _ digit =>
    List.mem_singleton.1 digit ▸ rfl⟩
  extends_parent := ⟨'.', name.toList ++ ['$', '0'], by simp [memberPath], .inr rfl, by
    simp [List.count_eq_zero.2 plain]⟩

namespace ChildPath

variable {parent path : String}

theorem signs_eq (child : ChildPath parent path) : signs path = signs parent + 1 := by
  obtain ⟨lead, rest, extension, -, single⟩ := child.extends_parent
  rw [signs, extension, List.count_append, single, signs]

theorem length_lt (child : ChildPath parent path) :
    parent.toList.length < path.toList.length := by
  obtain ⟨lead, rest, extension, -⟩ := child.extends_parent
  rw [extension]
  simp

end ChildPath

/-! ## Between a path and a path inside it -/

/-- What is between a list and an extension of it extends it too. -/
theorem append_of_between {front other rest : List Char} (above : ¬other < front)
    (below : ¬front ++ rest < other) : ∃ tail, other = front ++ tail ∧ ¬rest < tail := by
  induction front generalizing other with
  | nil => exact ⟨other, rfl, below⟩
  | cons first front inductionHypothesis =>
      cases other with
      | nil => exact absurd (List.nil_lt_cons first front) above
      | cons next other =>
          rw [List.cons_lt_cons_iff, not_or, not_and] at above
          rw [List.cons_append, List.cons_lt_cons_iff, not_or, not_and] at below
          obtain rfl : next = first := le_antisymm (not_lt.1 below.1) (not_lt.1 above.1)
          obtain ⟨tail, rfl, least⟩ := inductionHypothesis (above.2 rfl) (below.2 rfl)
          exact ⟨tail, rfl, least⟩

/-- A part of a numbered path that does not begin with a digit has a sign, if it reaches the end. -/
theorem count_pos_of_numbered {path : String} (numbered : Numbered path) {front tail : List Char}
    {c : Char} (split : path.toList = front ++ c :: tail) (notDigit : c.isDigit = false) :
    0 < (c :: tail).count '$' := by
  obtain ⟨before, digits, number, areDigits⟩ := numbered
  refine List.count_pos_iff.2 ?_
  rcases List.append_eq_append_iff.1 (split.symm.trans number) with
    ⟨middle, _, reached⟩ | ⟨middle, _, reached⟩
  · rw [reached]
    simp
  · cases middle with
    | nil =>
        rw [← show '$' :: digits = c :: tail from reached]
        exact List.mem_cons_self
    | cons sign middle =>
        have last : c ∈ digits := by
          rw [(List.cons.inj reached).2]
          simp
        rw [areDigits c last] at notDigit
        cases notDigit

theorem isDigit_eq_false_of_le {c : Char} (small : c ≤ '.') : c.isDigit = false := by
  rw [Bool.eq_false_iff]
  intro digit
  have large : '0' ≤ c := by
    rw [Char.isDigit, Bool.and_eq_true] at digit
    exact of_decide_eq_true digit.1
  exact absurd (large.trans small) (by decide)

/-- Between a path and a path directly inside it there are only paths with as many signs. -/
theorem ChildPath.signs_le_of_between {parent path other : String} (child : ChildPath parent path)
    (numbered : Numbered other) (above : parent ≤ other) (below : other ≤ path)
    (different : other ≠ parent) : signs path ≤ signs other := by
  obtain ⟨lead, rest, extension, isLead, -⟩ := child.extends_parent
  have notAbove : ¬other.toList < parent.toList := fun less =>
    above.not_gt (String.lt_iff_toList_lt.2 less)
  have notBelow : ¬parent.toList ++ lead :: rest < other.toList := fun less =>
    below.not_gt (String.lt_iff_toList_lt.2 (extension ▸ less))
  obtain ⟨tail, otherExtension, least⟩ := append_of_between notAbove notBelow
  cases tail with
  | nil => exact absurd (String.toList_inj.1 (by simpa using otherExtension)) different
  | cons c tail =>
      have notDigit : c.isDigit = false := by
        rw [List.cons_lt_cons_iff, not_or] at least
        have small : c ≤ lead := not_lt.1 least.1
        exact isDigit_eq_false_of_le (small.trans (by rcases isLead with rfl | rfl <;> decide))
      rw [child.signs_eq, signs, signs, otherExtension, List.count_append]
      exact Nat.add_le_add_left (count_pos_of_numbered numbered otherExtension notDigit) _

theorem ChildPath.lt {parent path : String} (child : ChildPath parent path) : parent < path := by
  obtain ⟨lead, rest, extension, -⟩ := child.extends_parent
  rw [String.lt_iff_toList_lt, extension]
  simpa using List.append_left_lt (List.nil_lt_cons lead rest)

/-! ## Sorted lists of paths -/

theorem le_of_getElem? {paths : List String} (sorted : paths.Pairwise (· ≤ ·)) {first second : ℕ}
    {lower upper : String} (lowerFound : paths[first]? = some lower)
    (upperFound : paths[second]? = some upper) (before : first ≤ second) : lower ≤ upper := by
  rcases before.eq_or_lt with rfl | before
  · exact (Option.some.inj (lowerFound.symm.trans upperFound)).le
  · obtain ⟨_, rfl⟩ := List.getElem?_eq_some_iff.1 lowerFound
    obtain ⟨_, rfl⟩ := List.getElem?_eq_some_iff.1 upperFound
    exact List.pairwise_iff_getElem.1 sorted _ _ _ _ before

/-- In a sorted list of paths, the last place in front of a path with the path of the enclosing
scope has fewer signs, by one, and the places in between have not. -/
theorem exists_nearest {paths : List String} (sorted : paths.Pairwise (· ≤ ·))
    (numbered : ∀ path ∈ paths, Numbered path) {parent path : String} {place : ℕ}
    (found : paths[place]? = some path) (child : ChildPath parent path) (member : parent ∈ paths) :
    ∃ above < place, paths[above]? = some parent ∧ ∀ between, above < between → between < place →
      ∀ other, paths[between]? = some other → signs path ≤ signs other := by
  obtain ⟨first, firstFound⟩ := List.getElem?_of_mem member
  have inFront : first < place := by
    by_contra behind
    exact child.lt.not_ge (le_of_getElem? sorted found firstFound (not_lt.1 behind))
  let above := Nat.findGreatest (fun place => paths[place]? = some parent) (place - 1)
  have aboveLe : above ≤ place - 1 := Nat.findGreatest_le _
  have aboveFound : paths[above]? = some parent :=
    Nat.findGreatest_spec (P := fun place => paths[place]? = some parent)
      (Nat.le_sub_one_of_lt inFront) firstFound
  refine ⟨above, by omega, aboveFound, fun between behind before other otherFound => ?_⟩
  have different : other ≠ parent := by
    rintro rfl
    exact Nat.findGreatest_is_greatest behind (Nat.le_sub_one_of_lt before) otherFound
  exact child.signs_le_of_between (numbered other (List.mem_of_getElem? otherFound))
    (le_of_getElem? sorted aboveFound otherFound behind.le)
    (le_of_getElem? sorted otherFound found before.le) different

end Vault
end ScopeScript
