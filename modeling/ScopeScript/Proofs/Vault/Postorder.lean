import ScopeScript.Proofs.Vault.Rooted

/-!
# The order of freeing

A record is freed after the trees of the scopes it owns, and these are freed in the order in which
it lists them. `Postorder` lists trees in this order. In a forest every live record has such a
list, which names what is below the record once each, and freeing the record frees the list from
the front (`releaseEachWithin_eq_foldl`).
-/

namespace ScopeScript
namespace Vault

/-- The records of the trees of some scopes, one tree after the other. In a tree the trees of the
scopes that its record owns come first, and the record itself comes last. -/
inductive Postorder (vault : Vault) : List Handle → List Handle → Prop
  | nil : Postorder vault [] []
  | cons {scope : Handle} {record : Record} {scopes below rest : List Handle} :
      vault.record? scope = some record → Postorder vault record.owned below →
      Postorder vault scopes rest → Postorder vault (scope :: scopes) (below ++ scope :: rest)

namespace Postorder

variable {vault : Vault} {scopes order : List Handle}

/-- Listed is what is below one of the scopes. -/
theorem mem_iff (postorder : vault.Postorder scopes order) (other : Handle) :
    other ∈ order ↔ ∃ scope ∈ scopes, vault.Below scope other := by
  induction postorder with
  | nil => simp
  | cons found _ _ belowHypothesis restHypothesis =>
      rw [List.mem_append, List.mem_cons, belowHypothesis, restHypothesis,
        List.exists_mem_cons_iff, below_iff found, ← or_assoc, or_comm (a := ∃ _ ∈ _, _)]

theorem mem_iff_below {handle : Handle} (postorder : vault.Postorder [handle] order)
    (other : Handle) : other ∈ order ↔ vault.Below handle other := by
  simp [postorder.mem_iff]

theorem live (postorder : vault.Postorder scopes order) :
    ∀ handle ∈ order, vault.isLive handle = true := by
  induction postorder with
  | nil => simp
  | cons found _ _ belowHypothesis restHypothesis =>
      simp only [List.mem_append, List.mem_cons]
      rintro handle (member | rfl | member)
      · exact belowHypothesis handle member
      · exact isLive_of_record? found
      · exact restHypothesis handle member

theorem append {others rest : List Handle} (postorder : vault.Postorder scopes order)
    (next : vault.Postorder others rest) : vault.Postorder (scopes ++ others) (order ++ rest) := by
  induction postorder with
  | nil => exact next
  | cons found below _ _ restHypothesis =>
      rw [List.append_assoc, List.cons_append, List.cons_append]
      exact .cons found below restHypothesis

end Postorder

/-! ## Trees of a forest -/

namespace Rooted

variable {vault : Vault} {roots : List Handle} {rank : Handle → Nat} {clock : Nat}

/-- Every live record can be listed with what is below it. The induction goes from the youngest
records to the oldest. -/
theorem exists_postorder (rooted : vault.Rooted roots rank clock) {handle : Handle}
    (live : vault.isLive handle = true) : ∃ order, vault.Postorder [handle] order := by
  induction youth : clock - rank handle using Nat.strong_induction_on generalizing handle with
  | _ _ inductionHypothesis =>
      obtain ⟨record, found⟩ := isLive_iff_exists.1 live
      have each (scopes : List Handle) (owned : ∀ scope ∈ scopes, vault.Owns handle scope) :
          ∃ order, vault.Postorder scopes order := by
        induction scopes with
        | nil => exact ⟨[], .nil⟩
        | cons scope scopes scopesHypothesis =>
            have edge := owned scope List.mem_cons_self
            have older := rooted.ranked edge
            have aged := rooted.aged (rooted.owned_live edge)
            obtain ⟨order, first⟩ := inductionHypothesis (clock - rank scope) (by omega)
              (rooted.owned_live edge) rfl
            obtain ⟨orders, later⟩ := scopesHypothesis fun other member =>
              owned other (List.mem_cons_of_mem _ member)
            exact ⟨order ++ orders, first.append later⟩
      obtain ⟨order, below⟩ := each record.owned fun scope member => ⟨record, found, member⟩
      exact ⟨order ++ [handle], .cons found below .nil⟩

/-- Of two records above the same one, one is above the other. -/
theorem below_total (rooted : vault.Rooted roots rank clock) {first second other : Handle}
    (firstChain : vault.Below first other) (secondChain : vault.Below second other) :
    vault.Below first second ∨ vault.Below second first := by
  have unique : Relator.RightUnique (Function.swap vault.Owns) :=
    fun _ _ _ edge otherEdge => rooted.owner_unique edge otherEdge
  have climbs := Relation.ReflTransGen.total_of_right_unique unique
    (Relation.reflTransGen_swap.2 firstChain) (Relation.reflTransGen_swap.2 secondChain)
  exact (climbs.imp Relation.reflTransGen_swap.1 Relation.reflTransGen_swap.1).symm

/-- What one owner owns is not below another thing it owns. -/
theorem not_below_of_owns (rooted : vault.Rooted roots rank clock) {owner upper lower : Handle}
    (upperEdge : vault.Owns owner upper) (lowerEdge : vault.Owns owner lower)
    (different : upper ≠ lower) : ¬vault.Below upper lower := by
  intro chain
  rcases Relation.ReflTransGen.cases_tail chain with same | ⟨last, earlier, edge⟩
  · exact different same.symm
  · -- The last owner on the way down is the common one, which would be below itself.
    obtain rfl := rooted.owner_unique edge lowerEdge
    exact rooted.not_transGen _ (.head' upperEdge earlier)

/-- Scopes have nothing below them in common. -/
def Apart (vault : Vault) (first second : Handle) : Prop :=
  ∀ other, vault.Below first other → ¬vault.Below second other

theorem apart_owned (rooted : vault.Rooted roots rank clock) {owner : Handle} {record : Record}
    (found : vault.record? owner = some record) : record.owned.Pairwise (Apart vault) := by
  have distinct : record.owned.Nodup := rooted.owned_nodup (by rw [ownedBy?, found]; rfl)
  refine distinct.imp_of_mem fun {first second} firstMember secondMember different => ?_
  have firstEdge : vault.Owns owner first := ⟨record, found, firstMember⟩
  have secondEdge : vault.Owns owner second := ⟨record, found, secondMember⟩
  intro other firstChain secondChain
  rcases rooted.below_total firstChain secondChain with chain | chain
  · exact rooted.not_below_of_owns firstEdge secondEdge different chain
  · exact rooted.not_below_of_owns secondEdge firstEdge different.symm chain

/-- No record is listed twice. -/
theorem nodup_postorder (rooted : vault.Rooted roots rank clock) {scopes order : List Handle}
    (postorder : vault.Postorder scopes order) (apart : scopes.Pairwise (Apart vault)) :
    order.Nodup := by
  induction postorder with
  | nil => exact .nil
  | @cons scope record scopes below rest found belowOrder restOrder belowHypothesis
      restHypothesis =>
      obtain ⟨scopeApart, scopesApart⟩ := List.pairwise_cons.1 apart
      have restApart : ∀ handle ∈ rest, ¬vault.Below scope handle := by
        intro handle member chain
        obtain ⟨other, otherMember, otherChain⟩ := (restOrder.mem_iff handle).1 member
        exact scopeApart other otherMember handle chain otherChain
      have belowScope : ∀ handle ∈ below, Relation.TransGen vault.Owns scope handle := by
        intro handle member
        obtain ⟨other, owned, chain⟩ := (belowOrder.mem_iff handle).1 member
        exact .head' ⟨record, found, owned⟩ chain
      refine List.nodup_append.2 ⟨belowHypothesis (rooted.apart_owned found), ?_, ?_⟩
      · exact List.nodup_cons.2 ⟨fun member => restApart scope member .refl,
          restHypothesis scopesApart⟩
      · rintro handle belowMember _ restMember rfl
        rcases List.mem_cons.1 restMember with rfl | restMember
        · exact rooted.not_transGen _ (belowScope _ belowMember)
        · exact restApart handle restMember (belowScope handle belowMember).to_reflTransGen

end Rooted

/-! ## Freeing a list -/

/-- Freeing records in turn takes them away and leaves the others. -/
theorem record?_foldl_vacate {order : List Handle} (distinct : order.Nodup) {vault : Vault}
    (live : ∀ handle ∈ order, vault.isLive handle = true) (other : Handle) :
    (order.foldl vacate vault).record? other =
      if other ∈ order then none else vault.record? other := by
  induction order generalizing vault with
  | nil => simp
  | cons handle order inductionHypothesis =>
      obtain ⟨absent, distinct⟩ := List.nodup_cons.1 distinct
      have handleLive := live handle List.mem_cons_self
      have stillLive : ∀ next ∈ order, (vault.vacate handle).isLive next = true := by
        intro next member
        refine (isLive_vacate handleLive next).2 ⟨?_, live next (List.mem_cons_of_mem _ member)⟩
        rintro rfl
        exact absent member
      rw [List.foldl_cons, inductionHypothesis distinct stillLive, record?_vacate handleLive]
      by_cases same : other = handle
      · simp [same]
      · simp [same]

theorem free_foldl_vacate (order : List Handle) (vault : Vault) :
    (order.foldl vacate vault).free = (order.map (·.index)).reverse ++ vault.free := by
  induction order generalizing vault with
  | nil => rfl
  | cons handle order inductionHypothesis =>
      rw [List.foldl_cons, inductionHypothesis, List.map_cons, List.reverse_cons,
        List.append_assoc]
      rfl

theorem live_foldl_vacate (order : List Handle) (vault : Vault) :
    (order.foldl vacate vault).live = vault.live - order.length := by
  induction order generalizing vault with
  | nil => rfl
  | cons handle order inductionHypothesis =>
      rw [List.foldl_cons, inductionHypothesis, List.length_cons, Nat.add_comm, ← Nat.sub_sub]
      rfl

theorem size_slots_foldl_vacate (order : List Handle) (vault : Vault) :
    (order.foldl vacate vault).slots.size = vault.slots.size := by
  induction order generalizing vault with
  | nil => rfl
  | cons handle order inductionHypothesis =>
      rw [List.foldl_cons, inductionHypothesis, size_slots_vacate]

/-- Freeing scopes frees their list from the front. The store may have lost records of the forest
that are not on the list. -/
theorem releaseEachWithin_eq_foldl {whole : Vault} {scopes order : List Handle}
    (postorder : whole.Postorder scopes order) (distinct : order.Nodup) {bound : Nat}
    {vault rest : Vault} (there : ∀ other ∈ order, vault.record? other = whole.record? other)
    (freed : releaseEachWithin bound scopes vault = some rest) :
    rest = order.foldl vacate vault := by
  induction postorder generalizing bound vault rest with
  | nil =>
      cases freed
      rfl
  | @cons scope record scopes below others found belowOrder othersOrder belowHypothesis
      othersHypothesis =>
      rw [List.append_cons] at distinct there ⊢
      obtain ⟨firstDistinct, othersDistinct, disjoint⟩ := List.nodup_append.1 distinct
      simp only [List.mem_append, List.mem_singleton] at there
      obtain ⟨middle, freedScope, freedOthers⟩ := releaseEachWithin_cons.1 freed
      have scopeFound : vault.record? scope = some record :=
        (there scope (.inl (.inr rfl))).trans found
      have isMiddle : middle = (below ++ [scope]).foldl vacate vault := by
        cases bound with
        | zero => cases freedScope
        | succ bound =>
            obtain ⟨before, freedBelow, rfl⟩ :=
              (releaseWithin_succ_of_some scopeFound).1 freedScope
            obtain rfl := belowHypothesis (List.nodup_append.1 firstDistinct).1
              (fun other member => there other (.inl (.inl member))) freedBelow
            rw [List.foldl_append]
            rfl
      have firstLive : ∀ handle ∈ below ++ [scope], vault.isLive handle = true := by
        intro handle member
        rw [isLive, there handle (.inl (by simpa using member))]
        exact (Postorder.cons found belowOrder .nil).live handle member
      rw [List.foldl_append, ← isMiddle]
      refine othersHypothesis othersDistinct (fun other member => ?_) freedOthers
      have kept : other ∉ below ++ [scope] := fun first => disjoint other first other member rfl
      rw [isMiddle, record?_foldl_vacate firstDistinct firstLive, if_neg kept,
        there other (.inr member)]

end Vault
end ScopeScript
