import Mathlib.Data.Set.Defs
import ScopeScript.Proofs.Vault.Forest

/-!
# What lies outside of the innermost block

Scopes that are created while a block is the innermost one become part of its tree, directly or
through boxes and declarations that are still open above it. The roots of these trees are the
`territory` of the openings. A visit of an existing scope adds nothing to it, so nothing may be
created inside of a scope that is only visited.

`outside` is the part of the store that lies beyond some roots: the records that no chain of owners
reaches from there, with what they own. Adding a root, adopting it into a tree that is reached
already and freeing it with its tree all leave the outside as it is. So a block that is left gives
the store back as it was found.
-/

namespace ScopeScript

/-- The records whose trees take up new scopes: those of the innermost block and of the boxes and
declarations above it. -/
def Opening.territory : List Opening → List Handle
  | [] => []
  | .block handle :: _ => [handle]
  | .visit _ :: rest => territory rest
  | .boxed handle :: rest | .declaration handle :: rest => handle :: territory rest

namespace Opening

/-- The innermost block belongs to the territory. -/
theorem mem_territory_of_findKind? {openings : List Opening} {frame : Frame}
    (found : FrameStack.findKind? (openings.map Opening.frame) .block = some frame) :
    frame.record ∈ territory openings := by
  induction openings with
  | nil => cases found
  | cons opening openings inductionHypothesis =>
      cases opening with
      | block handle =>
          cases found
          exact List.mem_cons_self
      | visit handle => exact inductionHypothesis found
      | boxed handle => exact List.mem_cons_of_mem _ (inductionHypothesis found)
      | declaration handle => exact List.mem_cons_of_mem _ (inductionHypothesis found)

/-- Without a block the outermost box belongs to the territory. -/
theorem getLast_mem_territory {openings : List Opening} {lowest : Opening}
    (missing : FrameStack.findKind? (openings.map Opening.frame) .block = none)
    (last : openings.getLast? = some lowest) (unnamed : lowest.kind ≠ .named) :
    lowest.record ∈ territory openings := by
  induction openings with
  | nil => cases last
  | cons opening openings inductionHypothesis =>
      cases opening with
      | block handle => cases missing
      | visit handle =>
          rcases openings with _ | ⟨next, rest⟩
          · cases last
            exact absurd rfl unnamed
          · exact inductionHypothesis missing (by simpa using last)
      | boxed handle =>
          rcases openings with _ | ⟨next, rest⟩
          · cases last
            exact List.mem_cons_self
          · exact List.mem_cons_of_mem _ (inductionHypothesis missing (by simpa using last))
      | declaration handle =>
          rcases openings with _ | ⟨next, rest⟩
          · cases last
            exact absurd rfl unnamed
          · exact List.mem_cons_of_mem _ (inductionHypothesis missing (by simpa using last))

/-- What an opening keeps alive belongs to the territory as long as it is the innermost one. -/
theorem record_mem_territory {opening : Opening} (root : opening.isRoot = true)
    (openings : List Opening) : opening.record ∈ territory (opening :: openings) := by
  cases opening with
  | visit handle => cases root
  | _ => exact List.mem_cons_self

end Opening

namespace Vault

variable {vault after : Vault} {roots : List Handle}

/-- A chain of owners, possibly empty, leads from one of the roots to a scope. -/
def Reached (vault : Vault) (roots : List Handle) (handle : Handle) : Prop :=
  ∃ root ∈ roots, vault.Below root handle

/-- The live records that are not reached from some roots, each with what it owns. -/
def outside (vault : Vault) (roots : List Handle) : Set (Handle × List Handle) :=
  {entry | vault.ownedBy? entry.1 = some entry.2 ∧ ¬vault.Reached roots entry.1}

theorem mem_outside {handle : Handle} {owned : List Handle} :
    (handle, owned) ∈ vault.outside roots ↔
      vault.ownedBy? handle = some owned ∧ ¬vault.Reached roots handle := Iff.rfl

theorem reached_cons {root handle : Handle} :
    vault.Reached (root :: roots) handle ↔
      vault.Below root handle ∨ vault.Reached roots handle := by
  simp [Reached]

theorem reached_of_mem {root : Handle} (member : root ∈ roots) : vault.Reached roots root :=
  ⟨root, member, .refl⟩

theorem Reached.owned {owner scope : Handle} (reached : vault.Reached roots owner)
    (edge : vault.Owns owner scope) : vault.Reached roots scope := by
  obtain ⟨root, member, chain⟩ := reached
  exact ⟨root, member, .tail chain edge⟩

theorem Reached.mono {handle : Handle}
    (more : ∀ {owner scope}, vault.Owns owner scope → after.Owns owner scope)
    (reached : vault.Reached roots handle) : after.Reached roots handle := by
  obtain ⟨root, member, chain⟩ := reached
  exact ⟨root, member, Relation.ReflTransGen.mono (fun _ _ edge => more edge) _ _ chain⟩

theorem reached_congr (same : ∀ {owner scope}, after.Owns owner scope ↔ vault.Owns owner scope)
    (handle : Handle) : after.Reached roots handle ↔ vault.Reached roots handle :=
  ⟨.mono same.1, .mono same.2⟩

/-- Only who owns whom matters. -/
theorem outside_congr (same : ∀ handle, after.ownedBy? handle = vault.ownedBy? handle)
    (roots : List Handle) : after.outside roots = vault.outside roots := by
  have owns : ∀ {owner scope}, after.Owns owner scope ↔ vault.Owns owner scope := by
    simp [owns_iff, same]
  ext ⟨handle, owned⟩
  rw [mem_outside, mem_outside, same, reached_congr owns]

/-- If nothing is reached, everything that is live is outside. -/
theorem ownedBy?_eq_of_outside (same : after.outside [] = vault.outside []) (handle : Handle) :
    after.ownedBy? handle = vault.ownedBy? handle := by
  apply Option.ext
  intro owned
  have unreached : ∀ store : Vault, ¬store.Reached [] handle := by simp [Reached]
  have member : (handle, owned) ∈ after.outside [] ↔ (handle, owned) ∈ vault.outside [] := by
    rw [same]
  simpa only [mem_outside, unreached, not_false_eq_true, and_true] using member

theorem isLive_eq_of_ownedBy? (same : ∀ handle, after.ownedBy? handle = vault.ownedBy? handle)
    (handle : Handle) : after.isLive handle = vault.isLive handle := by
  rw [Bool.eq_iff_iff, isLive_iff_ownedBy?, isLive_iff_ownedBy?, same]

/-- A new root is outside of nothing. -/
theorem Grown.outside_eq {handle : Handle} (grown : vault.Grown handle after)
    (roots : List Handle) : after.outside (handle :: roots) = vault.outside roots := by
  have alone : ∀ other, vault.Below handle other ↔ other = handle := by
    intro other
    refine ⟨fun chain => ?_, fun same => same ▸ .refl⟩
    rcases Relation.ReflTransGen.cases_head chain with same | ⟨_, ⟨_, found, _⟩, _⟩
    · exact same.symm
    · rw [grown.fresh] at found
      cases found
  ext ⟨other, owned⟩
  rw [mem_outside, mem_outside, grown.same, reached_congr (grown.owns_iff _ _), reached_cons,
    alone]
  by_cases new : other = handle
  · simp [new, ownedBy?_eq_none.2 grown.fresh]
  · simp [new]

/-- A root that an inner record takes over is still not outside. -/
theorem outside_of_adopted {root owner : Handle} {scopes : List Handle}
    (found : vault.ownedBy? owner = some scopes)
    (same : ∀ other, after.ownedBy? other =
      if other = owner then some (scopes ++ [root]) else vault.ownedBy? other)
    (inside : vault.Reached roots owner) : after.outside roots = vault.outside (root :: roots) := by
  have owns : ∀ {other scope}, after.Owns other scope ↔
      vault.Owns other scope ∨ other = owner ∧ scope = root := by
    intro other scope
    by_cases self : other = owner <;> simp [owns_iff, same, self, found]
  have rootReached : after.Reached roots root :=
    (inside.mono fun edge => owns.2 (.inl edge)).owned (owns.2 (.inr ⟨rfl, rfl⟩))
  have reached : ∀ handle, after.Reached roots handle ↔ vault.Reached (root :: roots) handle := by
    intro handle
    rw [reached_cons]
    constructor
    · rintro ⟨start, member, chain⟩
      induction chain with
      | refl => exact .inr (reached_of_mem member)
      | tail _ edge inductionHypothesis =>
          rcases owns.1 edge with old | ⟨_, rfl⟩
          · exact inductionHypothesis.imp (.tail · old) (·.owned old)
          · exact .inl .refl
    · rintro (chain | inside)
      · induction chain with
        | refl => exact rootReached
        | tail _ edge inductionHypothesis => exact inductionHypothesis.owned (owns.2 (.inl edge))
      · exact inside.mono fun edge => owns.2 (.inl edge)
  ext ⟨handle, owned⟩
  rw [mem_outside, mem_outside, reached, same]
  -- The owner itself is reached, so only the others count.
  refine and_congr_left fun unreached => ?_
  have other : handle ≠ owner := by
    rintro rfl
    exact unreached (reached_cons.2 (.inr inside))
  rw [if_neg other]

/-- Freeing a root with its tree leaves the outside. -/
theorem Pruned.outside_eq {root : Handle} (pruned : vault.Pruned (vault.Below root) after)
    (roots : List Handle) : after.outside roots = vault.outside (root :: roots) := by
  have ownedBy? : ∀ handle owned, after.ownedBy? handle = some owned ↔
      vault.ownedBy? handle = some owned ∧ ¬vault.Below root handle := by
    intro handle owned
    simp only [Vault.ownedBy?, Option.map_eq_some_iff, pruned handle, and_right_comm,
      exists_and_right]
  ext ⟨handle, owned⟩
  rw [mem_outside, mem_outside, ownedBy?, reached_cons, not_or, and_assoc]
  refine and_congr_right fun _ => and_congr_right fun kept => not_congr ?_
  constructor
  · rintro ⟨start, member, chain⟩
    exact ⟨start, member, pruned.below_of_below chain⟩
  · rintro ⟨start, member, chain⟩
    exact ⟨start, member, pruned.below_of_not_gone (fun lost edge => .tail lost edge) chain kept⟩

/-! ## Operations -/

theorem Edit.ownedBy?_eq (edits : Relation.ReflTransGen Edit vault after) (handle : Handle) :
    after.ownedBy? handle = vault.ownedBy? handle := by
  induction edits with
  | refl => rfl
  | tail _ edit inductionHypothesis =>
      refine Eq.trans ?_ inductionHypothesis
      cases edit with
      | modify place same _ => exact ownedBy?_modify_of_owned _ place _ same handle
      | cell => rfl

/-- Leaving a block or a box frees it with its tree. -/
theorem outside_of_leave {kind : FrameKind} {handle : Handle} {below : FrameStack}
    (frames : vault.frames = ⟨kind, handle⟩ :: below)
    (left : leave kind vault = (.done (), after)) (roots : List Handle) :
    after.outside roots = vault.outside (handle :: roots) := by
  rw [leave_of_cons frames, release] at left
  split at left
  case h_1 rest freed =>
    cases left
    have pruned := (releaseWithin_pruned freed).outside_eq roots
    exact pruned.trans (outside_congr (fun _ => rfl) _)
  case h_2 => cases left

/-- A visit neither creates nor frees anything. -/
theorem outside_of_enterNamed {handle : Handle}
    (entered : enterNamed handle vault = (.done (), after)) (roots : List Handle) :
    after.outside roots = vault.outside roots := by
  cases found : vault.record? handle with
  | none =>
      obtain ⟨diagnostic, refused, _⟩ := find_of_none found
      cases entered.symm.trans (enterNamed_of_none refused)
  | some record =>
      cases entered.symm.trans (enterNamed_of_some found)
      exact outside_congr (fun _ => rfl) _

theorem outside_of_exitNamed {handle : Handle} {below : FrameStack}
    (frames : vault.frames = ⟨.named, handle⟩ :: below)
    (left : exitNamed vault = (.done (), after)) (roots : List Handle) :
    after.outside roots = vault.outside roots := by
  cases left.symm.trans (exitNamed_of_cons frames)
  exact outside_congr (fun _ => rfl) _

/-- A declaration that has ended is part of the enclosing scope. -/
theorem outside_of_endDeclaration {handle : Handle} {name : String} {frame : Frame}
    {below : FrameStack} (frames : vault.frames = ⟨.named, handle⟩ :: frame :: below)
    (live : vault.isLive frame.record = true) (inside : vault.Reached roots frame.record)
    (ended : endDeclaration handle name vault = (.done (), after)) :
    after.outside roots = vault.outside (handle :: roots) := by
  obtain ⟨record, found⟩ := isLive_iff_exists.1 live
  let popped : Vault := { vault with frames := frame :: below }
  let adopting : Record → Record := fun record => { record with owned := record.owned ++ [handle] }
  have poppedFound : popped.record? frame.record = some record := found
  have held : popped.ownedBy? frame.record = some record.owned := by
    rw [ownedBy?, poppedFound]
    rfl
  rw [endDeclaration_of_cons name frames found] at ended
  have edits := Edit.rebind frame.record name (.scope handle)
    (popped.modify frame.record adopting)
  rw [show Vault.rebind frame.record name (.scope handle) (popped.modify frame.record adopting) =
    (.done (), after) from ended] at edits
  calc after.outside roots
      = (popped.modify frame.record adopting).outside roots :=
        outside_congr (Edit.ownedBy?_eq (edits (by simp))) roots
    _ = popped.outside (handle :: roots) :=
        outside_of_adopted held (ownedBy?_modify poppedFound adopting) inside
    _ = vault.outside (handle :: roots) := outside_congr (fun _ => rfl) _

/-- A scope that is created inside of what is reached leaves the outside as it is, and is reached
itself. -/
theorem outside_of_createOwned (consistent : vault.Consistent) (fits : after.Fits)
    {owner handle : Handle} {name : String} (inside : vault.Reached roots owner)
    (created : createOwned owner name vault = (.done handle, after)) :
    after.outside roots = vault.outside roots ∧ after.Reached roots handle := by
  cases found : vault.record? owner with
  | none =>
      obtain ⟨diagnostic, refused, _⟩ := find_of_none found
      cases created.symm.trans (createOwned_of_none name refused)
  | some record =>
      obtain ⟨path, done⟩ := createOwned_of_some name found
      cases created.symm.trans done
      have fitted : (vault.allocate owner path).2.Fits := fits_modify.1 fits
      have grown := consistent.grown_allocate fitted
      have insideGrown : (vault.allocate owner path).2.Reached roots owner :=
        inside.mono (grown.owns_iff _ _).2
      have different : owner ≠ (vault.allocate owner path).1 := by
        rintro same
        have fresh := grown.fresh
        rw [← same, found] at fresh
        cases fresh
      have grownFound : (vault.allocate owner path).2.record? owner = some record := by
        rw [consistent.record?_allocate fitted, if_neg different, found]
      have owned := ownedBy?_modify grownFound fun record =>
        { record with owned := record.owned ++ [(vault.allocate owner path).1] }
      refine ⟨?_, ?_⟩
      · refine (outside_of_adopted ?_ owned insideGrown).trans (grown.outside_eq roots)
        rw [ownedBy?, grownFound]
        rfl
      · refine (insideGrown.mono ?_).owned (owns_iff.2 ⟨_, (owned owner).trans (if_pos rfl), ?_⟩)
        · intro other scope edge
          obtain ⟨scopes, held, member⟩ := owns_iff.1 edge
          refine owns_iff.2 ?_
          rw [owned]
          split
          case isTrue self =>
            rw [self, ownedBy?, grownFound] at held
            cases held
            exact ⟨_, rfl, List.mem_append_left _ member⟩
          case isFalse => exact ⟨scopes, held, member⟩
        · exact List.mem_append_right _ List.mem_cons_self

/-- What owns the scopes that native routines create belongs to the territory. -/
theorem Forest.owner_mem_territory {openings : List Opening} (forest : vault.Forest openings)
    {handle : Handle} (found : Vault.owner vault = (.done handle, after)) :
    handle ∈ Opening.territory openings := by
  rw [Vault.owner, Run.bind_of_done (Run.state_apply vault), forest.frames] at found
  cases block : FrameStack.findKind? (openings.map Opening.frame) .block with
  | some frame =>
      rw [block] at found
      cases found
      exact Opening.mem_territory_of_findKind? block
  | none =>
      rw [block] at found
      cases last : openings.getLast? with
      | none =>
          simp [Vault.global, Run.bind_apply, forest.frames, FrameStack.globals, last] at found
      | some lowest =>
          simp [Vault.global, Run.bind_apply, forest.frames, FrameStack.globals, last] at found
          rw [← found.1]
          exact Opening.getLast_mem_territory block last (forest.grounded lowest last)

end Vault
end ScopeScript
