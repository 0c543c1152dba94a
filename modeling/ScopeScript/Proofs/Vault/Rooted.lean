import ScopeScript.Proofs.Vault.Effect

/-!
# The forest of owners

The live records form a forest: every record is either a root or owned by exactly one live record.
`Rooted` states this for a list of roots. That there are no cycles is shown by a ranking of the
records by the time of their allocation: owners are older than what they own. Three changes keep
the forest: a new record becomes a root, a root is adopted by an older record, and a root is freed
with its tree.
-/

namespace ScopeScript
namespace Vault

/-- The scopes a live record owns. -/
def ownedBy? (vault : Vault) (handle : Handle) : Option (List Handle) :=
  (vault.record? handle).map (·.owned)

theorem owns_iff {vault : Vault} {owner scope : Handle} :
    vault.Owns owner scope ↔ ∃ owned, vault.ownedBy? owner = some owned ∧ scope ∈ owned := by
  simp [Owns, ownedBy?]

theorem isLive_iff_ownedBy? {vault : Vault} {handle : Handle} :
    vault.isLive handle = true ↔ ∃ owned, vault.ownedBy? handle = some owned := by
  simp [isLive_iff_exists, ownedBy?]

theorem ownedBy?_eq_none {vault : Vault} {handle : Handle} :
    vault.ownedBy? handle = none ↔ vault.record? handle = none := by
  simp [ownedBy?]

theorem ownedBy?_modify_of_owned (vault : Vault) (handle : Handle) (change : Record → Record)
    (same : ∀ record, (change record).owned = record.owned) (other : Handle) :
    (vault.modify handle change).ownedBy? other = vault.ownedBy? other :=
  map_record?_modify vault handle same other

theorem ownedBy?_modify {vault : Vault} {handle : Handle} {record : Record}
    (found : vault.record? handle = some record) (change : Record → Record) (other : Handle) :
    (vault.modify handle change).ownedBy? other =
      if other = handle then some (change record).owned else vault.ownedBy? other := by
  rw [ownedBy?, record?_modify found]
  split <;> rfl

theorem ownedBy?_allocate {vault : Vault} (consistent : vault.Consistent) {parent : Handle}
    {path : String} (fits : (vault.allocate parent path).2.Fits) (other : Handle) :
    (vault.allocate parent path).2.ownedBy? other =
      if other = (vault.allocate parent path).1 then some [] else vault.ownedBy? other := by
  rw [ownedBy?, consistent.record?_allocate fits]
  split <;> rfl

/-- A record that owns nothing has been added. -/
structure Grown (vault : Vault) (handle : Handle) (after : Vault) : Prop where
  fresh : vault.record? handle = none
  same : ∀ other, after.ownedBy? other =
    if other = handle then some [] else vault.ownedBy? other

theorem Consistent.grown_allocate {vault : Vault} (consistent : vault.Consistent)
    {parent : Handle} {path : String} (fits : (vault.allocate parent path).2.Fits) :
    vault.Grown (vault.allocate parent path).1 (vault.allocate parent path).2 :=
  ⟨consistent.record?_allocate_fst fits, ownedBy?_allocate consistent fits⟩

/-- The new record neither owns something nor is owned. -/
theorem Grown.owns_iff {vault after : Vault} {handle : Handle} (grown : vault.Grown handle after)
    (owner scope : Handle) : after.Owns owner scope ↔ vault.Owns owner scope := by
  rw [Vault.owns_iff, Vault.owns_iff, grown.same]
  by_cases new : owner = handle <;> simp [new, ownedBy?_eq_none.2 grown.fresh]

/-- Entering a block adds its record. -/
theorem Consistent.grown_of_enter {vault after : Vault} {handle : Handle}
    (consistent : vault.Consistent) {kind : FrameKind}
    (entered : enter kind vault = (.done handle, after)) (fits : after.Fits) :
    vault.Grown handle after := by
  cases frames : vault.frames with
  | nil =>
      obtain ⟨path, created⟩ := enter_of_nil kind frames
      cases entered.symm.trans created
      have fitted : (vault.allocate .zero path).2.Fits := fits
      have grown := consistent.grown_allocate fitted
      exact ⟨grown.fresh, grown.same⟩
  | cons frame below =>
      cases found : vault.record? frame.record with
      | none =>
          obtain ⟨crash, crashed⟩ := enter_of_inactive kind frames found
          cases entered.symm.trans crashed
      | some record =>
          obtain ⟨path, created⟩ := enter_of_cons kind frames found
          cases entered.symm.trans created
          have grown := consistent.grown_allocate (fits_modify.1 fits)
          -- That the enclosing record counts its blocks is no change of what it owns.
          refine ⟨grown.fresh, fun other => Eq.trans ?_ (grown.same other)⟩
          exact ownedBy?_modify_of_owned (vault.allocate frame.record path).2 frame.record
            (fun record => { record with blocks := record.blocks + 1 }) (fun _ => rfl) other

/-- A declaration adds its record. -/
theorem Consistent.grown_of_declare {vault after : Vault} {handle : Handle}
    (consistent : vault.Consistent) {name : String}
    (declared : declare name vault = (.done handle, after)) (fits : after.Fits) :
    vault.Grown handle after := by
  cases frames : vault.frames with
  | nil => cases declared.symm.trans (declare_of_nil name frames)
  | cons frame below =>
      cases found : vault.record? frame.record with
      | none =>
          obtain ⟨crash, crashed⟩ := declare_of_inactive name frames found
          cases declared.symm.trans crashed
      | some record =>
          obtain ⟨path, created⟩ := declare_of_cons name frames found
          cases declared.symm.trans created
          have fitted : (vault.allocate frame.record path).2.Fits := fits
          have grown := consistent.grown_allocate fitted
          exact ⟨grown.fresh, grown.same⟩

/-- Only live records own something. -/
theorem Owns.owner_live {vault : Vault} {owner scope : Handle} (edge : vault.Owns owner scope) :
    vault.isLive owner = true := by
  obtain ⟨record, found, _⟩ := edge
  exact isLive_of_record? found

/-- The live records form a forest with the given roots, ranked by age. -/
structure Rooted (vault : Vault) (roots : List Handle) (rank : Handle → Nat) (clock : Nat) :
    Prop where
  roots_nodup : roots.Nodup
  root_live : ∀ root ∈ roots, vault.isLive root = true
  root_unowned : ∀ root ∈ roots, ∀ owner, ¬vault.Owns owner root
  owned_live : ∀ {owner scope}, vault.Owns owner scope → vault.isLive scope = true
  owned_nodup : ∀ {owner owned}, vault.ownedBy? owner = some owned → owned.Nodup
  owner_unique : ∀ {owner other scope}, vault.Owns owner scope → vault.Owns other scope →
    owner = other
  reached : ∀ {handle}, vault.isLive handle = true →
    handle ∈ roots ∨ ∃ owner, vault.Owns owner handle
  ranked : ∀ {owner scope}, vault.Owns owner scope → rank owner < rank scope
  aged : ∀ {handle}, vault.isLive handle = true → rank handle < clock

namespace Rooted

variable {vault after : Vault} {roots : List Handle} {rank : Handle → Nat} {clock : Nat}

theorem empty : Rooted .empty [] (fun _ => 0) 0 := by
  have nothing : ∀ handle, (Vault.empty).record? handle = none := by
    intro handle
    simp [Vault.empty, record?]
  have dead : ∀ {handle}, ¬(Vault.empty).isLive handle = true := by
    intro handle
    simp [isLive, nothing]
  have free : ∀ {owner scope}, ¬(Vault.empty).Owns owner scope := by
    rintro owner scope ⟨record, found, _⟩
    simp [nothing] at found
  exact
    { roots_nodup := List.nodup_nil
      root_live := by simp
      root_unowned := by simp
      owned_live := fun owns => absurd owns free
      owned_nodup := fun found => by simp [ownedBy?, nothing] at found
      owner_unique := fun owns => absurd owns free
      reached := fun live => absurd live dead
      ranked := fun owns => absurd owns free
      aged := fun live => absurd live dead }

/-- Only who is live and who owns whom matters. -/
theorem congr (rooted : vault.Rooted roots rank clock)
    (same : ∀ handle, after.ownedBy? handle = vault.ownedBy? handle) :
    after.Rooted roots rank clock := by
  have owns : ∀ {owner scope}, after.Owns owner scope ↔ vault.Owns owner scope := by
    simp [owns_iff, same]
  have live : ∀ {handle}, after.isLive handle = true ↔ vault.isLive handle = true := by
    simp [isLive_iff_ownedBy?, same]
  exact
    { roots_nodup := rooted.roots_nodup
      root_live := fun root member => live.2 (rooted.root_live root member)
      root_unowned := fun root member owner => fun edge =>
        rooted.root_unowned root member owner (owns.1 edge)
      owned_live := fun edge => live.2 (rooted.owned_live (owns.1 edge))
      owned_nodup := fun found => rooted.owned_nodup (same _ ▸ found)
      owner_unique := fun edge other => rooted.owner_unique (owns.1 edge) (owns.1 other)
      reached := fun alive => (rooted.reached (live.1 alive)).imp_right fun ⟨owner, edge⟩ =>
        ⟨owner, owns.2 edge⟩
      ranked := fun edge => rooted.ranked (owns.1 edge)
      aged := fun alive => rooted.aged (live.1 alive) }

/-- A new record is a root. -/
theorem create (rooted : vault.Rooted roots rank clock) {handle : Handle}
    (grown : vault.Grown handle after) :
    after.Rooted (handle :: roots) (Function.update rank handle clock) (clock + 1) := by
  have same := grown.same
  have dead : ¬vault.isLive handle = true := by simp [isLive, grown.fresh]
  have live : ∀ {other}, after.isLive other = true ↔
      other = handle ∨ vault.isLive other = true := by
    intro other
    by_cases new : other = handle <;> simp [isLive_iff_ownedBy?, same, new]
  have owns : ∀ {owner scope}, after.Owns owner scope ↔ vault.Owns owner scope :=
    grown.owns_iff _ _
  have sameRank : ∀ {other}, vault.isLive other = true →
      Function.update rank handle clock other = rank other := by
    intro other alive
    have different : other ≠ handle := by
      rintro rfl
      exact dead alive
    exact Function.update_of_ne different clock rank
  exact
    { roots_nodup := List.nodup_cons.2
        ⟨fun member => dead (rooted.root_live handle member), rooted.roots_nodup⟩
      root_live := fun root member => live.2
        ((List.mem_cons.1 member).imp_right (rooted.root_live root))
      root_unowned := by
        intro root member owner edge
        rcases List.mem_cons.1 member with rfl | older
        · exact dead (rooted.owned_live (owns.1 edge))
        · exact rooted.root_unowned root older owner (owns.1 edge)
      owned_live := fun edge => live.2 (.inr (rooted.owned_live (owns.1 edge)))
      owned_nodup := by
        intro owner owned found
        rw [same] at found
        split at found
        · cases found
          exact List.nodup_nil
        · exact rooted.owned_nodup found
      owner_unique := fun edge other => rooted.owner_unique (owns.1 edge) (owns.1 other)
      reached := by
        intro other alive
        rcases live.1 alive with rfl | old
        · exact .inl List.mem_cons_self
        · rcases rooted.reached old with member | ⟨owner, edge⟩
          · exact .inl (List.mem_cons_of_mem _ member)
          · exact .inr ⟨owner, owns.2 edge⟩
      ranked := by
        intro owner scope edge
        rw [sameRank (owns.1 edge).owner_live, sameRank (rooted.owned_live (owns.1 edge))]
        exact rooted.ranked (owns.1 edge)
      aged := by
        intro other alive
        rcases live.1 alive with rfl | old
        · simp
        · rw [sameRank old]
          exact Nat.lt_succ_of_lt (rooted.aged old) }

/-- An older record takes over a root. -/
theorem adopt {root owner : Handle} {owned : List Handle}
    (rooted : vault.Rooted (root :: roots) rank clock)
    (found : vault.ownedBy? owner = some owned) (older : rank owner < rank root)
    (same : ∀ other, after.ownedBy? other =
      if other = owner then some (owned ++ [root]) else vault.ownedBy? other) :
    after.Rooted roots rank clock := by
  have rootLive := rooted.root_live root List.mem_cons_self
  have rootUnowned := rooted.root_unowned root List.mem_cons_self
  have live : ∀ {other}, after.isLive other = true ↔ vault.isLive other = true := by
    intro other
    by_cases self : other = owner <;> simp [isLive_iff_ownedBy?, same, self, found]
  have owns : ∀ {other scope}, after.Owns other scope ↔
      vault.Owns other scope ∨ other = owner ∧ scope = root := by
    intro other scope
    by_cases self : other = owner <;> simp [owns_iff, same, self, found]
  exact
    { roots_nodup := (List.nodup_cons.1 rooted.roots_nodup).2
      root_live := fun other member =>
        live.2 (rooted.root_live other (List.mem_cons_of_mem _ member))
      root_unowned := by
        intro other member parent edge
        rcases owns.1 edge with old | ⟨_, rfl⟩
        · exact rooted.root_unowned other (List.mem_cons_of_mem _ member) parent old
        · exact (List.nodup_cons.1 rooted.roots_nodup).1 member
      owned_live := by
        intro parent scope edge
        rcases owns.1 edge with old | ⟨_, rfl⟩
        · exact live.2 (rooted.owned_live old)
        · exact live.2 rootLive
      owned_nodup := by
        intro parent scopes held
        rw [same] at held
        split at held
        · cases held
          have absent : root ∉ owned := fun member =>
            rootUnowned owner (owns_iff.2 ⟨owned, found, member⟩)
          rw [List.nodup_append_comm]
          exact List.nodup_cons.2 ⟨absent, rooted.owned_nodup found⟩
        · exact rooted.owned_nodup held
      owner_unique := by
        intro parent other scope edge otherEdge
        rcases owns.1 edge with old | ⟨rfl, rfl⟩
        · rcases owns.1 otherEdge with old' | ⟨_, rfl⟩
          · exact rooted.owner_unique old old'
          · exact absurd old (rootUnowned parent)
        · rcases owns.1 otherEdge with old' | ⟨rfl, _⟩
          · exact absurd old' (rootUnowned other)
          · rfl
      reached := by
        intro other alive
        rcases rooted.reached (live.1 alive) with member | ⟨parent, edge⟩
        · rcases List.mem_cons.1 member with rfl | member
          · exact .inr ⟨owner, owns.2 (.inr ⟨rfl, rfl⟩)⟩
          · exact .inl member
        · exact .inr ⟨parent, owns.2 (.inl edge)⟩
      ranked := by
        intro parent scope edge
        rcases owns.1 edge with old | ⟨rfl, rfl⟩
        · exact rooted.ranked old
        · exact older
      aged := fun alive => rooted.aged (live.1 alive) }

/-- The rank of what a chain of owners leads to is not smaller. -/
theorem rank_le_of_below (rooted : vault.Rooted roots rank clock) {handle other : Handle}
    (chain : vault.Below handle other) : rank handle ≤ rank other := by
  induction chain with
  | refl => exact Nat.le_refl _
  | tail _ edge inductionHypothesis =>
      exact inductionHypothesis.trans (Nat.le_of_lt (rooted.ranked edge))

/-- A root is freed with its tree. -/
theorem free {root : Handle} (rooted : vault.Rooted (root :: roots) rank clock)
    (pruned : vault.Pruned (vault.Below root) after) : after.Rooted roots rank clock := by
  have rootUnowned := rooted.root_unowned root List.mem_cons_self
  have ownerBelow : ∀ {owner scope}, vault.Owns owner scope → vault.Below root scope →
      vault.Below root owner := by
    intro owner scope edge chain
    rcases Relation.ReflTransGen.cases_tail chain with rfl | ⟨other, otherChain, otherEdge⟩
    · exact absurd edge (rootUnowned owner)
    · exact rooted.owner_unique otherEdge edge ▸ otherChain
  exact
    { roots_nodup := (List.nodup_cons.1 rooted.roots_nodup).2
      root_live := by
        intro other member
        have otherRoot := List.mem_cons_of_mem root member
        refine (pruned.isLive_iff other).2 ⟨rooted.root_live other otherRoot, fun chain => ?_⟩
        rcases Relation.ReflTransGen.cases_tail chain with rfl | ⟨owner, _, edge⟩
        · exact (List.nodup_cons.1 rooted.roots_nodup).1 member
        · exact rooted.root_unowned other otherRoot owner edge
      root_unowned := fun other member owner edge =>
        rooted.root_unowned other (List.mem_cons_of_mem _ member) owner
          ((pruned.owns_iff owner other).1 edge).1
      owned_live := by
        intro owner scope edge
        obtain ⟨old, kept⟩ := (pruned.owns_iff owner scope).1 edge
        exact (pruned.isLive_iff scope).2
          ⟨rooted.owned_live old, fun chain => kept (ownerBelow old chain)⟩
      owned_nodup := by
        intro owner owned found
        obtain ⟨record, held, rfl⟩ := Option.map_eq_some_iff.1 found
        exact rooted.owned_nodup
          (Option.map_eq_some_iff.2 ⟨record, ((pruned owner record).1 held).1, rfl⟩)
      owner_unique := fun edge other =>
        rooted.owner_unique ((pruned.owns_iff _ _).1 edge).1 ((pruned.owns_iff _ _).1 other).1
      reached := by
        intro other alive
        obtain ⟨old, kept⟩ := (pruned.isLive_iff other).1 alive
        rcases rooted.reached old with member | ⟨owner, edge⟩
        · rcases List.mem_cons.1 member with rfl | member
          · exact absurd .refl kept
          · exact .inl member
        · exact .inr ⟨owner, (pruned.owns_iff owner other).2 ⟨edge, fun chain =>
            kept (.tail chain edge)⟩⟩
      ranked := fun edge => rooted.ranked ((pruned.owns_iff _ _).1 edge).1
      aged := fun alive => rooted.aged ((pruned.isLive_iff _).1 alive).1 }

/-- No record owns itself, directly or through others. -/
theorem not_transGen (rooted : vault.Rooted roots rank clock) (handle : Handle) :
    ¬Relation.TransGen vault.Owns handle handle := by
  intro cycle
  obtain ⟨scope, edge, chain⟩ := Relation.TransGen.head'_iff.1 cycle
  exact Nat.lt_irrefl _ ((rooted.ranked edge).trans_le (rooted.rank_le_of_below chain))

/-- Without roots nothing is live. -/
theorem not_isLive_of_nil (rooted : vault.Rooted [] rank clock) (handle : Handle) :
    vault.isLive handle = false := by
  induction age : rank handle using Nat.strong_induction_on generalizing handle with
  | _ _ inductionHypothesis =>
      by_contra alive
      have live : vault.isLive handle = true := by simpa using alive
      rcases rooted.reached live with member | ⟨owner, edge⟩
      · simp at member
      · have ownerDead := inductionHypothesis (rank owner) (age ▸ rooted.ranked edge) owner rfl
        rw [edge.owner_live] at ownerDead
        simp at ownerDead

end Rooted

end Vault
end ScopeScript
