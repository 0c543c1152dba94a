import ScopeScript.Proofs.Vault.Bracketing
import ScopeScript.Proofs.Vault.Paths
import ScopeScript.Proofs.Vault.Territory

/-!
# Scopes inside scopes

Every record but the outermost one belongs to another one, the scope it has been made in. In a
well-bracketed run this scope is live as long as the record is: a block is left before the scope it
has been entered in, and what is owned belongs to its owner. `Nested` is the invariant behind this,
with the paths that go with it; it needs names without the sign that separates levels.
-/

namespace ScopeScript
namespace Vault

/-! ## Where records belong -/

/-- Where a live record belongs. -/
def lineage? (vault : Vault) (handle : Handle) : Option (Handle × String) :=
  (vault.record? handle).map (·.lineage)

/-- A live record has been made in another live one, and its path says so. -/
def Inside (vault : Vault) (parent scope : Handle) : Prop :=
  ∃ grandparent outerPath path, vault.lineage? parent = some (grandparent, outerPath) ∧
    vault.lineage? scope = some (parent, path) ∧ ChildPath outerPath path

/-- Records that are live in both stores belong where they did. -/
def KeepsLineages (vault after : Vault) : Prop :=
  ∀ handle, vault.isLive handle = true → after.isLive handle = true →
    after.lineage? handle = vault.lineage? handle

variable {vault after : Vault}

/-- What has a parent and a path is live. -/
theorem isLive_of_lineage? {handle parent : Handle} {path : String}
    (found : vault.lineage? handle = some (parent, path)) : vault.isLive handle = true := by
  obtain ⟨record, recordFound, _⟩ := Option.map_eq_some_iff.1 found
  exact isLive_of_record? recordFound

/-- A scope stays inside another one as long as both are live. -/
theorem Inside.keep {parent scope : Handle} (inside : vault.Inside parent scope)
    (keeps : vault.KeepsLineages after) (parentLive : after.isLive parent = true)
    (scopeLive : after.isLive scope = true) : after.Inside parent scope := by
  obtain ⟨grandparent, outerPath, path, outer, inner, child⟩ := inside
  refine ⟨grandparent, outerPath, path, ?_, ?_, child⟩
  · rw [keeps parent (isLive_of_lineage? outer) parentLive, outer]
  · rw [keeps scope (isLive_of_lineage? inner) scopeLive, inner]

/-- Paths and parents do not change with bindings. -/
theorem lineage?_modify (vault : Vault) (handle : Handle) (change : Record → Record)
    (same : ∀ record, (change record).lineage = record.lineage) (other : Handle) :
    (vault.modify handle change).lineage? other = vault.lineage? other :=
  map_record?_modify vault handle same other

/-- Edits leave the paths and parents alone. -/
theorem Edit.lineage?_eq (edits : Relation.ReflTransGen Edit vault after) (handle : Handle) :
    after.lineage? handle = vault.lineage? handle := by
  induction edits with
  | refl => rfl
  | tail _ edit inductionHypothesis =>
      refine Eq.trans ?_ inductionHypothesis
      cases edit with
      | modify place _ same => exact lineage?_modify _ place _ same handle
      | cell => rfl

/-- Edits leave the forest as it is. -/
theorem Forest.of_edits {openings : List Opening} (forest : vault.Forest openings)
    (edits : Relation.ReflTransGen Edit vault after) : after.Forest openings := by
  induction edits with
  | refl => exact forest
  | tail _ edit inductionHypothesis =>
      cases edit with
      | modify handle owned _ => exact inductionHypothesis.modify handle owned
      | cell =>
          exact inductionHypothesis.congr (inductionHypothesis.consistent.congr rfl rfl rfl) rfl
            fun _ => rfl

/-- Freeing leaves the paths and parents of the other records alone. -/
theorem Pruned.keepsLineages {gone : Handle → Prop} (pruned : vault.Pruned gone after) :
    vault.KeepsLineages after := by
  intro handle _ live
  obtain ⟨record, found⟩ := isLive_iff_exists.1 live
  rw [lineage?, lineage?, found, ((pruned handle record).1 found).1]

/-- The new record has the path and the parent that it was created with. -/
theorem Consistent.lineage?_allocate (consistent : vault.Consistent) {parent : Handle}
    {path : String} (fits : (vault.allocate parent path).2.Fits) (other : Handle) :
    (vault.allocate parent path).2.lineage? other =
      if other = (vault.allocate parent path).1 then some (parent, path)
      else vault.lineage? other := by
  rw [lineage?, consistent.record?_allocate fits]
  split <;> rfl

/-- Allocating a record leaves those that are live alone. -/
theorem Consistent.lineage?_allocate_of_isLive (consistent : vault.Consistent) {parent : Handle}
    {path : String} (fits : (vault.allocate parent path).2.Fits) {handle : Handle}
    (live : vault.isLive handle = true) :
    (vault.allocate parent path).2.lineage? handle = vault.lineage? handle := by
  have different : handle ≠ (vault.allocate parent path).1 := by
    rintro rfl
    rw [isLive, consistent.record?_allocate_fst fits] at live
    cases live
  rw [consistent.lineage?_allocate fits, if_neg different]

/-- A new record is inside the one it has been made in. -/
theorem Consistent.inside_allocate (consistent : vault.Consistent) {parent : Handle}
    {record : Record} (found : vault.record? parent = some record) {path : String}
    (child : ChildPath record.path path) (fits : (vault.allocate parent path).2.Fits)
    (same : ∀ handle, after.lineage? handle = (vault.allocate parent path).2.lineage? handle) :
    after.Inside parent (vault.allocate parent path).1 := by
  refine ⟨record.parent, record.path, path, ?_, ?_, child⟩
  · rw [same, consistent.lineage?_allocate_of_isLive fits (isLive_of_record? found), lineage?,
      found]
    rfl
  · rw [same, consistent.lineage?_allocate fits, if_pos rfl]

/-! ## The invariant -/

/-- Owned scopes are inside their owners, the records of blocks, boxes and declarations are inside
the record of the frame below, and the outermost record has the path of a root. -/
structure Nested (vault : Vault) (openings : List Opening) : Prop where
  owned : ∀ {owner scope}, vault.Owns owner scope → vault.Inside owner scope
  stacked : openings.IsChain fun upper lower =>
    upper.isRoot = true → vault.Inside lower.record upper.record
  grounded : ∀ lowest, openings.getLast? = some lowest →
    ∃ (parent : Handle) (number : ℕ),
      vault.lineage? lowest.record = some (parent, "$" ++ toString number)

namespace Nested

variable {openings others : List Opening}

theorem empty : Nested .empty [] where
  owned := by
    rintro owner scope ⟨record, found, _⟩
    simp [Vault.empty, record?] at found
  stacked := .nil
  grounded := by simp

/-- What is nested with a scope open is nested without it. -/
theorem tail {opening : Opening} (nested : vault.Nested (opening :: openings)) :
    vault.Nested openings where
  owned := nested.owned
  stacked := nested.stacked.tail
  grounded lowest last := nested.grounded lowest (by rw [List.getLast?_cons, last]; rfl)

/-- The invariant is kept where live records belong where they did, and where what is owned newly
is inside its owner. -/
theorem keep (nested : vault.Nested openings) (forest : after.Forest others)
    (still : openings ⊆ others) (keeps : vault.KeepsLineages after)
    (owns : ∀ {owner scope}, after.Owns owner scope →
      vault.Owns owner scope ∨ after.Inside owner scope) : after.Nested openings where
  owned := by
    obtain ⟨_, _, rooted, _⟩ := forest.ranking
    intro owner scope edge
    rcases owns edge with old | new
    · exact (nested.owned old).keep keeps edge.owner_live (rooted.owned_live edge)
    · exact new
  stacked := nested.stacked.imp_of_mem_imp fun upper lower upperMember lowerMember inside root =>
    (inside root).keep keeps (forest.active lower (still lowerMember))
      (forest.active upper (still upperMember))
  grounded := by
    intro lowest last
    obtain ⟨parent, number, found⟩ := nested.grounded lowest last
    have member := List.mem_of_getLast? last
    refine ⟨parent, number, ?_⟩
    rw [keeps _ (isLive_of_lineage? found) (forest.active lowest (still member)), found]

/-- A new opening, with a record inside the record of the frame below or with a root of its own. -/
theorem push (nested : vault.Nested openings) {opening : Opening}
    (inside : opening.isRoot = true → ∀ lower ∈ openings.head?,
      vault.Inside lower.record opening.record)
    (ground : openings = [] → ∃ (parent : Handle) (number : ℕ),
      vault.lineage? opening.record = some (parent, "$" ++ toString number)) :
    vault.Nested (opening :: openings) where
  owned := nested.owned
  stacked := List.isChain_cons.2 ⟨fun lower member root => inside root lower member, nested.stacked⟩
  grounded := by
    intro lowest last
    cases openings with
    | nil =>
        cases last
        exact ground rfl
    | cons next rest => exact nested.grounded lowest (by simpa using last)

/-- Edits leave the nesting as it is. -/
theorem of_edits (nested : vault.Nested openings) (forest : vault.Forest openings)
    (edits : Relation.ReflTransGen Edit vault after) : after.Nested openings := by
  refine nested.keep (forest.of_edits edits) (List.Subset.refl _)
    (fun handle _ _ => Edit.lineage?_eq edits handle) fun edge => .inl ?_
  rw [Vault.owns_iff] at edge ⊢
  rwa [Edit.ownedBy?_eq edits] at edge

end Nested

/-- What an operation on bindings has done is edits. -/
theorem edits_of_perform {operation : Operation} (edits : operation.edits = true)
    {outcome : Outcome (Option Handle)} (performed : operation.perform vault = (outcome, after))
    (returned : outcome.Returned) : Relation.ReflTransGen Edit vault after := by
  obtain ⟨_, computation, isQuiet, steps⟩ := Operation.exists_edit edits
  have quiet : Run.Steps Edit (Operation.quietly computation) := .bind steps fun _ => .result none
  have chain := quiet vault
  rw [← isQuiet, performed] at chain
  exact chain returned.ne_endless

/-! ## Operations -/

/-- Adopting a scope adds one owner and no other. -/
theorem owns_adopt {owner : Handle} (live : vault.isLive owner = true) (handle : Handle)
    {parent scope : Handle} :
    (vault.modify owner fun record => { record with owned := record.owned ++ [handle] }).Owns
        parent scope ↔ vault.Owns parent scope ∨ parent = owner ∧ scope = handle := by
  obtain ⟨record, found⟩ := isLive_iff_exists.1 live
  rw [owns_iff, owns_iff, ownedBy?_modify found]
  by_cases self : parent = owner
  · simp [self, ownedBy?, found]
  · simp [self]

namespace Nested

variable {openings : List Opening}

/-- A block is entered inside of the scope that was innermost. -/
theorem enter (nested : vault.Nested openings) (forest : vault.Forest openings) {kind : FrameKind}
    {handle : Handle} (entered : Vault.enter kind vault = (.done handle, after))
    (forestAfter : after.Forest (.entered kind handle :: openings)) (fits : after.Fits) :
    after.Nested (.entered kind handle :: openings) := by
  have grown := forest.consistent.grown_of_enter entered fits
  have kept (keeps : vault.KeepsLineages after) : after.Nested openings :=
    nested.keep forestAfter (List.subset_cons_self _ _) keeps fun edge =>
      .inl ((grown.owns_iff _ _).1 edge)
  cases openings with
  | nil =>
      cases entered.symm.trans (enter_root kind forest.frames rfl)
      have fitted : (vault.allocate .zero ("$" ++ toString vault.roots)).2.Fits := fits
      refine (kept fun other live _ =>
        forest.consistent.lineage?_allocate_of_isLive fitted live).push (by simp) fun _ => ?_
      refine ⟨.zero, vault.roots, ?_⟩
      rw [Opening.record_entered]
      exact (forest.consistent.lineage?_allocate fitted _).trans (if_pos rfl)
  | cons opening rest =>
      obtain ⟨record, found⟩ := isLive_iff_exists.1 (forest.active opening List.mem_cons_self)
      cases entered.symm.trans (enter_inside kind forest.frames found rfl)
      -- That the enclosing record counts its blocks does not change where it belongs.
      have same (other : Handle) := lineage?_modify
        (vault.allocate opening.record (record.path ++ "$" ++ toString record.blocks)).2
        opening.record (fun record => { record with blocks := record.blocks + 1 })
        (fun _ => rfl) other
      have fitted := fits_modify.1 fits
      refine (kept fun other live _ => (same other).trans
        (forest.consistent.lineage?_allocate_of_isLive fitted live)).push
        (fun _ lower member => ?_) (by simp)
      cases member
      rw [Opening.record_entered]
      exact forest.consistent.inside_allocate found (childPath_block _ _) fitted same

/-- A scope is declared inside of the innermost one. -/
theorem declare (nested : vault.Nested openings) (forest : vault.Forest openings)
    (someOpen : openings ≠ []) {name : String} (plain : '$' ∉ name.toList) {handle : Handle}
    (declared : Vault.declare name vault = (.done handle, after))
    (forestAfter : after.Forest (.declaration handle :: openings)) (fits : after.Fits) :
    after.Nested (.declaration handle :: openings) := by
  have grown := forest.consistent.grown_of_declare declared fits
  obtain ⟨opening, rest, rfl⟩ := List.exists_cons_of_ne_nil someOpen
  obtain ⟨record, found⟩ := isLive_iff_exists.1 (forest.active opening List.mem_cons_self)
  cases declared.symm.trans (declare_inside name forest.frames found rfl)
  have fitted : (vault.allocate opening.record (memberPath record.path name)).2.Fits := fits
  refine (nested.keep forestAfter (List.subset_cons_self _ _)
    (fun other live _ => forest.consistent.lineage?_allocate_of_isLive fitted live) fun edge =>
      .inl ((grown.owns_iff _ _).1 edge)).push (fun _ lower member => ?_) (by simp)
  cases member
  exact forest.consistent.inside_allocate found (childPath_member _ plain) fitted fun _ => rfl

/-- A scope is created inside of its owner. -/
theorem createOwned (nested : vault.Nested openings) (forest : vault.Forest openings)
    {owner : Handle} {name : String} (plain : '$' ∉ name.toList) {handle : Handle}
    (created : Vault.createOwned owner name vault = (.done handle, after))
    (forestAfter : after.Forest openings) (fits : after.Fits) : after.Nested openings := by
  cases found : vault.record? owner with
  | none =>
      obtain ⟨diagnostic, refused, _⟩ := find_of_none found
      cases created.symm.trans (createOwned_of_none name refused)
  | some record =>
      obtain ⟨path, isPath⟩ : ∃ path, path = memberPath record.path name := ⟨_, rfl⟩
      cases created.symm.trans (createOwned_inside name found isPath)
      have live := isLive_of_record? found
      have fitted := fits_modify.1 fits
      have grown := forest.consistent.grown_allocate fitted
      have same (other : Handle) := lineage?_modify (vault.allocate owner path).2 owner
        (fun record => { record with owned := record.owned ++ [(vault.allocate owner path).1] })
        (fun _ => rfl) other
      have stillLive := (forest.consistent.isLive_allocate fitted owner).2 (.inr live)
      refine nested.keep forestAfter (List.Subset.refl _) (fun other live _ => (same other).trans
        (forest.consistent.lineage?_allocate_of_isLive fitted live)) fun {parent scope} edge => ?_
      rcases (owns_adopt stillLive _).1 edge with old | ⟨rfl, rfl⟩
      · exact .inl ((grown.owns_iff _ _).1 old)
      · exact .inr (forest.consistent.inside_allocate found (isPath ▸ childPath_member _ plain)
          fitted same)

/-- A block or box is left with its tree; what stays belongs where it did. -/
theorem leave {opening : Opening} (nested : vault.Nested (opening :: openings)) {kind : FrameKind}
    {handle : Handle} {below : FrameStack} (frames : vault.frames = ⟨kind, handle⟩ :: below)
    (left : Vault.leave kind vault = (.done (), after)) (forestAfter : after.Forest openings) :
    after.Nested openings := by
  rw [leave_of_cons frames, release] at left
  split at left
  case h_1 rest freed =>
    cases left
    have pruned := releaseWithin_pruned freed
    exact nested.tail.keep forestAfter (List.Subset.refl _) pruned.keepsLineages
      fun edge => .inl ((pruned.owns_iff _ _).1 edge).1
  case h_2 => cases left

/-- A declared scope is bound and owned where it was declared. -/
theorem endDeclaration {handle : Handle} {name : String}
    (nested : vault.Nested (.declaration handle :: openings))
    (forest : vault.Forest (.declaration handle :: openings))
    (ended : Vault.endDeclaration handle name vault = (.done (), after))
    (forestAfter : after.Forest openings) : after.Nested openings := by
  rcases openings with _ | ⟨outer, rest⟩
  · exact absurd rfl (forest.grounded (.declaration handle) rfl)
  · obtain ⟨record, found⟩ := isLive_iff_exists.1
      (forest.active outer (List.mem_cons_of_mem _ List.mem_cons_self))
    obtain ⟨popped, isPopped⟩ : ∃ popped : Vault,
        popped = { vault with frames := (outer :: rest).map Opening.frame } := ⟨_, rfl⟩
    obtain ⟨adopted, isAdopted⟩ : ∃ adopted : Vault,
        adopted = popped.modify outer.record fun record =>
          { record with owned := record.owned ++ [handle] } := ⟨_, rfl⟩
    have bound : Vault.rebind outer.record name (.scope handle) adopted = (.done (), after) := by
      rw [isAdopted, isPopped, ← ended]
      exact (endDeclaration_of_cons name forest.frames found).symm
    have edits := Edit.rebind outer.record name (.scope handle) adopted
    rw [bound] at edits
    have same (other : Handle) : after.lineage? other = vault.lineage? other := by
      rw [Edit.lineage?_eq (edits (by simp)), isAdopted, isPopped]
      exact lineage?_modify _ outer.record _ (by exact fun _ => rfl) other
    have owns (parent scope : Handle) : after.Owns parent scope ↔ adopted.Owns parent scope := by
      rw [owns_iff, owns_iff, Edit.ownedBy?_eq (edits (by simp))]
    refine nested.tail.keep forestAfter (List.Subset.refl _) (fun other _ _ => same other)
      fun {parent scope} edge => ?_
    rw [owns, isAdopted, owns_adopt (by rw [isPopped]; exact isLive_of_record? found)] at edge
    rcases edge with old | ⟨rfl, rfl⟩
    · rw [isPopped] at old
      exact .inl old
    · right
      simp only [Inside, same]
      exact (List.isChain_cons_cons.1 nested.stacked).1 rfl

/-- Going into a scope again does not change where anything belongs. -/
theorem enterNamed {handle : Handle} (nested : vault.Nested openings)
    (forest : vault.Forest openings) (entered : Vault.enterNamed handle vault = (.done (), after))
    (forestAfter : after.Forest (.visit handle :: openings)) :
    after.Nested (.visit handle :: openings) := by
  cases found : vault.record? handle with
  | none =>
      obtain ⟨diagnostic, refused, _⟩ := find_of_none found
      cases entered.symm.trans (enterNamed_of_none refused)
  | some record =>
      cases entered.symm.trans (enterNamed_of_some found)
      have kept := nested.keep forestAfter (List.subset_cons_self _ _) (fun _ _ _ => rfl) .inl
      refine kept.push nofun fun noneOpen => ?_
      subst noneOpen
      exact absurd (isLive_of_record? found) (by simp [forest.not_isLive_of_nil])

/-- The end of a visit takes nothing out of its place. -/
theorem exitNamed {handle : Handle} (nested : vault.Nested (.visit handle :: openings))
    (forest : vault.Forest (.visit handle :: openings))
    (left : Vault.exitNamed vault = (.done (), after)) (forestAfter : after.Forest openings) :
    after.Nested openings := by
  cases left.symm.trans (exitNamed_of_cons forest.frames)
  exact nested.tail.keep forestAfter (List.Subset.refl _) (fun _ _ _ => rfl) .inl

end Nested

/-! ## Live records -/

/-- An opening is the outermost one or has another one directly below it. -/
theorem getLast?_or_exists_of_isChain {below : Opening → Opening → Prop} {openings : List Opening}
    (chain : openings.IsChain below) {opening : Opening} (member : opening ∈ openings) :
    openings.getLast? = some opening ∨ ∃ lower, below opening lower := by
  induction openings with
  | nil => cases member
  | cons upper rest inductionHypothesis =>
      cases rest with
      | nil =>
          obtain rfl := List.mem_singleton.1 member
          exact .inl rfl
      | cons lower rest =>
          obtain ⟨first, others⟩ := List.isChain_cons_cons.1 chain
          rcases List.mem_cons.1 member with rfl | later
          · exact .inr ⟨lower, first⟩
          · rw [List.getLast?_cons_cons]
            exact inductionHypothesis others later

namespace Nested

variable {openings : List Opening}

/-- A live record is the one of the outermost opening or inside another live one. -/
theorem outermost_or_inside (nested : vault.Nested openings) (forest : vault.Forest openings)
    {handle : Handle} (live : vault.isLive handle = true) :
    (∃ lowest, openings.getLast? = some lowest ∧ lowest.record = handle) ∨
      ∃ parent, vault.Inside parent handle := by
  obtain ⟨_, _, rooted, _⟩ := forest.ranking
  rcases rooted.reached live with root | ⟨owner, edge⟩
  · obtain ⟨opening, member, isRoot, rfl⟩ := Opening.mem_roots.1 root
    rcases getLast?_or_exists_of_isChain nested.stacked member with last | ⟨lower, inside⟩
    · exact .inl ⟨opening, last, rfl⟩
    · exact .inr ⟨lower.record, inside isRoot⟩
  · exact .inr ⟨owner, nested.owned edge⟩

/-- Every path begins with the sign and a number. -/
theorem numbered (nested : vault.Nested openings) (forest : vault.Forest openings)
    {handle parent : Handle} {path : String}
    (found : vault.lineage? handle = some (parent, path)) : Numbered path := by
  rcases nested.outermost_or_inside forest (isLive_of_lineage? found) with
    ⟨lowest, last, rfl⟩ | ⟨enclosing, _, _, _, _, inner, child⟩
  · obtain ⟨_, number, root⟩ := nested.grounded lowest last
    cases found.symm.trans root
    simpa using numbered_append "" number
  · cases found.symm.trans inner
    exact child.numbered

/-- The path of the outermost record comes before all others. The induction is on the length of
paths, which grows inwards. -/
theorem outermost_lt (nested : vault.Nested openings) (forest : vault.Forest openings)
    {lowest : Opening} (last : openings.getLast? = some lowest) {base : Handle} {outermost : String}
    (root : vault.lineage? lowest.record = some (base, outermost)) {handle parent : Handle}
    {path : String} (found : vault.lineage? handle = some (parent, path))
    (different : handle ≠ lowest.record) : outermost < path := by
  induction size : path.toList.length using Nat.strong_induction_on
    generalizing handle parent path with
  | h size inductionHypothesis =>
      rcases nested.outermost_or_inside forest (isLive_of_lineage? found) with
        ⟨other, otherLast, isOther⟩ | ⟨enclosing, _, outerPath, _, outer, inner, child⟩
      · cases last.symm.trans otherLast
        exact absurd isOther.symm different
      · cases found.symm.trans inner
        by_cases reached : parent = lowest.record
        · subst reached
          cases root.symm.trans outer
          exact child.lt
        · exact (inductionHypothesis _ (size ▸ child.length_lt) outer reached rfl).trans child.lt

end Nested

/-! ## Runs -/

/-- An exit or the end of a declaration closes what has been opened last, in the way it wants.
Unwinding is left out: where it is in order, exits do the same. -/
def Closing (openings : List Opening) : Operation → Prop
  | .exitBlock => ∃ handle outer, openings = .block handle :: outer
  | .exitBoxed => ∃ handle outer, openings = .boxed handle :: outer
  | .exitNamed => ∃ handle outer, openings = .visit handle :: outer
  | .endDeclaration handle _ => ∃ outer, openings = .declaration handle :: outer
  | .unwind _ => False
  | _ => True

/-- Scopes are named without the sign that separates levels. -/
def Operation.NamesWithoutSign : Operation → Prop
  | .declare name | .createOwned _ name => '$' ∉ name.toList
  | _ => True

/-- The states of runs that close what they have opened and name scopes without the sign that
separates levels. Operations may be refused, but none of them crashes. -/
inductive WellNamed : List Opening → Vault → Prop
  | start : WellNamed [] .empty
  | step {openings : List Opening} {vault after : Vault} {outcome : Outcome (Option Handle)}
      (operation : Operation) :
      WellNamed openings vault → Closing openings operation → operation.NamesWithoutSign →
      operation.perform vault = (outcome, after) → outcome.Returned →
      WellNamed (follow openings operation outcome) after

/-- Declaring a scope needs a scope to declare it in. -/
theorem Forest.ne_nil_of_declare {openings : List Opening} (forest : vault.Forest openings)
    {name : String} {outcome : Outcome (Option Handle)}
    (performed : (Operation.declare name).perform vault = (outcome, after))
    (returned : outcome.Returned) : openings ≠ [] := by
  rintro rfl
  simp [Operation.perform, Operation.handing, Vault.declare, Run.bind_apply,
    current_of_nil forest.frames] at performed
  rw [← performed.1] at returned
  cases returned

/-- A declaration without a name does not end. -/
theorem Forest.named_of_endDeclaration {handle : Handle} {outer : List Opening}
    (forest : vault.Forest (.declaration handle :: outer)) {name : String}
    {outcome : Outcome (Option Handle)}
    (performed : (Operation.endDeclaration handle name).perform vault = (outcome, after))
    (returned : outcome.Returned) : name ≠ "" := by
  rintro rfl
  rcases outer with _ | ⟨enclosing, rest⟩
  · exact absurd rfl (forest.grounded (.declaration handle) rfl)
  · obtain ⟨record, found⟩ := isLive_iff_exists.1
      (forest.active enclosing (List.mem_cons_of_mem _ List.mem_cons_self))
    have crashed : Vault.endDeclaration handle "" vault = (.crashed .namelessBinding, _) :=
      (endDeclaration_of_cons "" forest.frames found).trans (rebind_empty _ _)
    simp [Operation.perform, Operation.quietly, Run.bind_apply, crashed] at performed
    rw [← performed.1] at returned
    cases returned

/-- Every operation keeps the forest and the invariant, as long as the numbers of the slots fit. -/
theorem Nested.perform {openings : List Opening} (nested : vault.Nested openings)
    (forest : vault.Forest openings) (operation : Operation) (closing : Closing openings operation)
    (plain : operation.NamesWithoutSign) {outcome : Outcome (Option Handle)}
    (performed : operation.perform vault = (outcome, after)) (returned : outcome.Returned)
    (fits : after.Fits) :
    after.Forest (follow openings operation outcome) ∧
      after.Nested (follow openings operation outcome) := by
  cases operation with
  | enterBlock =>
      obtain ⟨handle, middle, entered, forestAfter⟩ := forest.enter (.inl rfl)
      cases performed.symm.trans (Operation.handing_of_done entered)
      exact ⟨forestAfter fits, nested.enter forest entered (forestAfter fits) fits⟩
  | enterBoxed =>
      obtain ⟨handle, middle, entered, forestAfter⟩ := forest.enter (.inr rfl)
      cases performed.symm.trans (Operation.handing_of_done entered)
      exact ⟨forestAfter fits, nested.enter forest entered (forestAfter fits) fits⟩
  | exitBlock =>
      obtain ⟨handle, outer, rfl⟩ := closing
      obtain ⟨middle, left, forestAfter⟩ := Forest.leave (.inl rfl) forest
      cases performed.symm.trans (Operation.quietly_of_done left)
      exact ⟨forestAfter, nested.leave forest.frames left forestAfter⟩
  | exitBoxed =>
      obtain ⟨handle, outer, rfl⟩ := closing
      obtain ⟨middle, left, forestAfter⟩ := Forest.leave (.inr rfl) forest
      cases performed.symm.trans (Operation.quietly_of_done left)
      exact ⟨forestAfter, nested.leave forest.frames left forestAfter⟩
  | declare name =>
      have someOpen := forest.ne_nil_of_declare performed returned
      obtain ⟨handle, middle, declared, forestAfter⟩ := forest.declare someOpen name
      cases performed.symm.trans (Operation.handing_of_done declared)
      have kept := forestAfter fits
      exact ⟨kept, nested.declare forest someOpen plain declared kept fits⟩
  | endDeclaration handle name =>
      obtain ⟨outer, rfl⟩ := closing
      have named := forest.named_of_endDeclaration performed returned
      obtain ⟨middle, ended, forestAfter⟩ := forest.endDeclaration named
      cases performed.symm.trans (Operation.quietly_of_done ended)
      exact ⟨forestAfter, nested.endDeclaration forest ended forestAfter⟩
  | createOwned owner name =>
      rcases forest.createOwned owner name with
        ⟨handle, middle, created, forestAfter⟩ | ⟨_, refused⟩
      · cases performed.symm.trans (Operation.handing_of_done created)
        have kept := forestAfter fits
        exact ⟨kept, nested.createOwned forest plain created kept fits⟩
      · cases performed.symm.trans (Operation.handing_of_failed refused)
        exact ⟨forest, nested⟩
  | enterNamed handle =>
      rcases forest.enterNamed handle with ⟨middle, entered, forestAfter⟩ | ⟨_, refused⟩
      · cases performed.symm.trans (Operation.quietly_of_done entered)
        exact ⟨forestAfter, nested.enterNamed forest entered forestAfter⟩
      · cases performed.symm.trans (Operation.quietly_of_failed refused)
        exact ⟨forest, nested⟩
  | exitNamed =>
      obtain ⟨handle, outer, rfl⟩ := closing
      obtain ⟨middle, left, forestAfter⟩ := forest.exitNamed
      cases performed.symm.trans (Operation.quietly_of_done left)
      exact ⟨forestAfter, nested.exitNamed forest left forestAfter⟩
  | unwind depth => exact closing.elim
  | current | global | owner | resolve | define | defineIn | lookup | bindings | unbind | erase
  | clear | assign =>
      have edits := edits_of_perform rfl performed returned
      rw [follow_of_edits rfl]
      exact ⟨forest.of_edits edits, nested.of_edits forest edits⟩

/-- The invariants hold in every state of a run whose slots have fitting numbers. -/
theorem WellNamed.invariants {openings : List Opening} (run : WellNamed openings vault)
    (fits : vault.Fits) :
    vault.Forest openings ∧ vault.Nested openings := by
  induction run with
  | start => exact ⟨.empty, .empty⟩
  | step operation _ closing plain performed returned inductionHypothesis =>
      obtain ⟨forest, nested⟩ :=
        inductionHypothesis (fits_of_ran operation.widens performed fits)
      exact nested.perform forest operation closing plain performed returned fits

/-- A further operation in a run with names that have no sign. -/
theorem WellNamed.next {openings : List Opening} (run : WellNamed openings vault)
    (operation : Operation) (closing : Closing openings operation)
    (plain : operation.NamesWithoutSign) (returned : (operation.perform vault).1.Returned) :
    WellNamed (follow openings operation (operation.perform vault).1) (operation.perform vault).2 :=
  .step operation run closing plain rfl returned

end Vault
end ScopeScript
