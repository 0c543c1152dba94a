import ScopeScript.Proofs.Vault.Editing
import ScopeScript.Proofs.Vault.Rooted

/-!
# The forest and the stack of frames

The roots of the forest come from the stack of frames. A block, a box and a declaration under way
keep their record alive themselves, while a frame that visits an existing scope does not. `Opening`
tells the four apart, which the frames alone do not.

`Forest` ties the forest to the openings that have not been closed. Every root is younger than all
records of the frames below it, so closing an opening never takes away the record of a frame that
stays. Each operation of the store keeps the invariant, for the openings it leaves behind, and none
of them crashes in such a store unless it is to bind the empty name.
-/

namespace ScopeScript

/-- How the record of a frame came to be active. -/
inductive Opening
  | block (handle : Handle)
  | boxed (handle : Handle)
  | declaration (handle : Handle)
  | visit (handle : Handle)
  deriving DecidableEq, Repr

namespace Opening

/-- The record of an opening. -/
def record : Opening → Handle
  | block handle | boxed handle | declaration handle | visit handle => handle

/-- The kind of frame an opening pushes. -/
def kind : Opening → FrameKind
  | block _ => .block
  | boxed _ => .boxed
  | declaration _ | visit _ => .named

/-- The frame of an opening. -/
def frame (opening : Opening) : Frame :=
  ⟨opening.kind, opening.record⟩

/-- Whether an opening keeps its record alive. -/
def isRoot : Opening → Bool
  | visit _ => false
  | _ => true

/-- A block or a box that has been entered. -/
def entered (kind : FrameKind) (handle : Handle) : Opening :=
  if kind = .boxed then boxed handle else block handle

/-- The records that openings keep alive. -/
def roots (openings : List Opening) : List Handle :=
  (openings.filter (·.isRoot)).map (·.record)

/-- The roots are the records of the frames that are no visits. -/
theorem mem_roots {openings : List Opening} {handle : Handle} :
    handle ∈ roots openings ↔ ∃ opening ∈ openings, opening.isRoot = true ∧
      opening.record = handle := by
  simp [roots, and_assoc]

theorem roots_cons_of_isRoot {opening : Opening} (root : opening.isRoot = true)
    (openings : List Opening) : roots (opening :: openings) = opening.record :: roots openings := by
  simp [roots, root]

@[simp] theorem record_entered (kind : FrameKind) (handle : Handle) :
    (entered kind handle).record = handle := by
  unfold entered
  split <;> rfl

@[simp] theorem isRoot_entered (kind : FrameKind) (handle : Handle) :
    (entered kind handle).isRoot = true := by
  unfold entered
  split <;> rfl

theorem kind_entered {kind : FrameKind} (isBlock : kind = .block ∨ kind = .boxed)
    (handle : Handle) : (entered kind handle).kind = kind := by
  rcases isBlock with rfl | rfl <;> rfl

end Opening

namespace Vault

/-- The live records form a forest whose roots are the records that the openings keep. -/
structure Forest (vault : Vault) (openings : List Opening) : Prop where
  consistent : vault.Consistent
  frames : vault.frames = openings.map Opening.frame
  active : ∀ opening ∈ openings, vault.isLive opening.record = true
  /-- The outermost opening is a block or a box. -/
  grounded : ∀ lowest, openings.getLast? = some lowest → lowest.kind ≠ .named
  /-- Roots are younger than what lies below them on the stack. -/
  ranking : ∃ rank clock, vault.Rooted (Opening.roots openings) rank clock ∧
    openings.Pairwise fun upper lower =>
      upper.isRoot = true → rank lower.record < rank upper.record

namespace Forest

variable {vault after : Vault} {openings : List Opening}

theorem empty : Forest .empty [] where
  consistent := .empty
  frames := rfl
  active := by simp
  grounded := by simp
  ranking := ⟨_, _, .empty, .nil⟩

/-- Only the frames and who owns whom matter. -/
theorem congr (forest : vault.Forest openings) (consistent : after.Consistent)
    (frames : after.frames = vault.frames)
    (same : ∀ handle, after.ownedBy? handle = vault.ownedBy? handle) : after.Forest openings where
  consistent := consistent
  frames := frames.trans forest.frames
  active opening member := by
    rw [isLive_iff_ownedBy?, same, ← isLive_iff_ownedBy?]
    exact forest.active opening member
  grounded := forest.grounded
  ranking := by
    obtain ⟨rank, clock, rooted, older⟩ := forest.ranking
    exact ⟨rank, clock, rooted.congr same, older⟩

/-- The record of every frame is live. -/
theorem frame_live (forest : vault.Forest openings) :
    ∀ frame ∈ vault.frames, vault.isLive frame.record = true := by
  intro frame member
  rw [forest.frames] at member
  obtain ⟨opening, openingMember, rfl⟩ := List.mem_map.1 member
  exact forest.active opening openingMember

/-- While something is open there is an innermost frame with a live record. -/
theorem exists_current (forest : vault.Forest openings) (someOpen : openings ≠ []) :
    ∃ frame below record, vault.frames = frame :: below ∧
      vault.record? frame.record = some record := by
  rcases openings with _ | ⟨opening, rest⟩
  · contradiction
  · obtain ⟨record, found⟩ := isLive_iff_exists.1 (forest.active opening List.mem_cons_self)
    exact ⟨opening.frame, rest.map Opening.frame, record, forest.frames, found⟩

/-- Nothing is live once everything has been closed. -/
theorem not_isLive_of_nil (forest : vault.Forest []) (handle : Handle) :
    vault.isLive handle = false := by
  obtain ⟨_, _, rooted, _⟩ := forest.ranking
  exact rooted.not_isLive_of_nil handle

/-- Where nothing is open, nothing is live. -/
theorem live_eq_zero_of_nil (forest : vault.Forest []) : vault.live = 0 := by
  obtain ⟨handles, _, members, count⟩ := forest.consistent.census
  rcases handles with _ | ⟨handle, rest⟩
  · exact count.symm
  · have live := (members handle).1 List.mem_cons_self
    rw [forest.not_isLive_of_nil] at live
    simp at live

/-! ## Changes of bindings -/

/-- A change of a record that leaves alone what it owns keeps the forest. -/
theorem modify (forest : vault.Forest openings) (handle : Handle) {change : Record → Record}
    (same : ∀ record, (change record).owned = record.owned) :
    (vault.modify handle change).Forest openings :=
  forest.congr (forest.consistent.modify handle change) rfl fun other =>
    ownedBy?_modify_of_owned vault handle change same other

/-- A cell number is used up and a record changed as before. -/
theorem modify_fresh (forest : vault.Forest openings) (handle : Handle)
    {change : Record → Record} (same : ∀ record, (change record).owned = record.owned) :
    ({ vault with cells := vault.cells + 1 }.modify handle change).Forest openings := by
  have next : ({ vault with cells := vault.cells + 1 } : Vault).Forest openings :=
    forest.congr (forest.consistent.congr rfl rfl rfl) rfl fun _ => rfl
  exact next.modify handle same

/-- A definition succeeds and keeps the forest. -/
theorem define (forest : vault.Forest openings) (someOpen : openings ≠ []) (name : String)
    (value : Value) :
    ∃ after, Vault.define name value vault = (.done (), after) ∧ after.Forest openings := by
  obtain ⟨frame, below, record, frames, found⟩ := forest.exists_current someOpen
  exact ⟨_, define_of_cons name value frames found,
    forest.modify_fresh frame.record fun record => record.owned_define name _⟩

/-- Binding a name in some scope keeps the forest. -/
theorem rebind (forest : vault.Forest openings) (handle : Handle) {name : String} (value : Value)
    (named : name ≠ "") :
    ∃ after, Vault.rebind handle name value vault = (.done (), after) ∧ after.Forest openings :=
  ⟨_, rebind_of_ne handle value named,
    forest.modify_fresh handle fun record => record.owned_rebind name _⟩

/-- A binding of a given scope is made, or its handle is refused. -/
theorem defineIn (forest : vault.Forest openings) (handle : Handle) {name : String}
    (value : Value) (named : name ≠ "") :
    ∃ outcome after, Vault.defineIn handle name value vault = (outcome, after) ∧
      outcome.Returned ∧ after.Forest openings := by
  cases found : vault.record? handle with
  | some record =>
      obtain ⟨after, bound, kept⟩ := forest.rebind handle value named
      exact ⟨.done (), after, (defineIn_of_some name value found).trans bound, .done _, kept⟩
  | none =>
      obtain ⟨diagnostic, refused, _⟩ := find_of_none found
      exact ⟨.failed diagnostic, vault, defineIn_of_none name value refused, .failed _, forest⟩

/-- The search for a name comes to an end without a crash. -/
theorem innermost (forest : vault.Forest openings) (name : String) :
    ∃ found, Vault.innermost name vault = (.done found, vault) := by
  obtain ⟨found, searched, _⟩ := bindingAlong_of_live name forest.frame_live
  exact ⟨found, by simp [Vault.innermost, searched]⟩

/-- Resolving a name ends with a value or a diagnostic. -/
theorem resolve (forest : vault.Forest openings) (name : String) :
    ∃ outcome, Vault.resolve name vault = (outcome, vault) ∧ outcome.Returned := by
  obtain ⟨found, searched⟩ := forest.innermost name
  rcases found with _ | ⟨handle, binding⟩
  · exact ⟨.failed (unboundName name), by simp [Vault.resolve, Run.bind_apply, searched], .failed _⟩
  · exact ⟨.done (⟨handle, name, binding.cell⟩, binding.value),
      by simp [Vault.resolve, Run.bind_apply, searched], .done _⟩

/-- Unbinding a name keeps the forest. -/
theorem unbind (forest : vault.Forest openings) (name : String) :
    ∃ removed after, Vault.unbind name vault = (.done removed, after) ∧
      after.Forest openings := by
  obtain ⟨found, searched⟩ := forest.innermost name
  rcases found with _ | ⟨handle, binding⟩
  · exact ⟨false, vault, by simp [Vault.unbind, Run.bind_apply, searched], forest⟩
  · exact ⟨true, _, by simp [Vault.unbind, Run.bind_apply, searched],
      forest.modify handle fun record => record.owned_erase name⟩

/-- Taking a name out of a scope keeps the forest or is refused. -/
theorem eraseIn (forest : vault.Forest openings) (handle : Handle) (name : String) :
    ∃ outcome after, Vault.eraseIn handle name vault = (outcome, after) ∧
      outcome.Returned ∧ after.Forest openings := by
  cases found : vault.bindings handle with
  | ok table =>
      exact ⟨.done (table.find? name).isSome, _,
        by simp [Vault.eraseIn, Run.bind_apply, found], .done _,
        forest.modify handle fun record => record.owned_erase name⟩
  | error diagnostic =>
      exact ⟨.failed diagnostic, vault, by simp [Vault.eraseIn, Run.bind_apply, found], .failed _,
        forest⟩

theorem clearIn (forest : vault.Forest openings) (handle : Handle) :
    ∃ after, Vault.clearIn handle vault = (.done (), after) ∧ after.Forest openings :=
  ⟨_, rfl, forest.modify handle fun _ => rfl⟩

/-- An assignment keeps the forest. -/
theorem write (forest : vault.Forest openings) (reference : Reference) (value : Value) :
    ∃ after, Vault.write reference value vault = (.done (), after) ∧ after.Forest openings := by
  refine ⟨_, rfl, ?_⟩
  beta_reduce
  split
  · exact forest.modify reference.handle fun record => record.owned_write reference.name _ value
  · exact forest

/-- There is always an owner for new scopes. -/
theorem owner (forest : vault.Forest openings) (someOpen : openings ≠ []) :
    ∃ handle, Vault.owner vault = (.done handle, vault) := by
  obtain ⟨frame, below, _, frames, _⟩ := forest.exists_current someOpen
  cases found : FrameStack.findKind? vault.frames .block with
  | some block => exact ⟨block.record, by simp [Vault.owner, Run.bind_apply, found]⟩
  | none =>
      exact ⟨_, by
        rw [Vault.owner, Run.bind_of_done (Run.state_apply vault), found]
        exact global_of_cons frames⟩

/-! ## Entering and leaving -/

/-- Openings do not notice that a record which is none of theirs is ranked. -/
theorem older_update {rank : Handle → Nat} {handle : Handle} (clock : Nat)
    (different : ∀ opening ∈ openings, opening.record ≠ handle)
    (older : openings.Pairwise fun upper lower =>
      upper.isRoot = true → rank lower.record < rank upper.record) :
    openings.Pairwise fun upper lower => upper.isRoot = true →
      Function.update rank handle clock lower.record <
        Function.update rank handle clock upper.record := by
  refine older.imp_of_mem ?_
  intro upper lower upperMember lowerMember ordered upperRoot
  rw [Function.update_of_ne (different lower lowerMember),
    Function.update_of_ne (different upper upperMember)]
  exact ordered upperRoot

/-- A record that does not exist yet is none of the open ones. -/
theorem record_ne_of_fresh (forest : vault.Forest openings) {handle : Handle}
    (fresh : vault.record? handle = none) : ∀ opening ∈ openings, opening.record ≠ handle := by
  intro opening member equal
  have live := forest.active opening member
  rw [equal, isLive, fresh] at live
  simp at live

/-- A new record whose opening keeps it alive. -/
theorem push_root (forest : vault.Forest openings) {opening : Opening}
    (root : opening.isRoot = true) (ground : openings = [] → opening.kind ≠ .named)
    (grown : vault.Grown opening.record after) (consistent : after.Consistent)
    (frames : after.frames = opening.frame :: vault.frames) :
    after.Forest (opening :: openings) := by
  obtain ⟨rank, clock, rooted, older⟩ := forest.ranking
  have same := grown.same
  have different := forest.record_ne_of_fresh grown.fresh
  refine ⟨consistent, ?_, ?_, ?_, Function.update rank opening.record clock, clock + 1, ?_, ?_⟩
  · rw [frames, forest.frames, List.map_cons]
  · intro lower member
    rcases List.mem_cons.1 member with rfl | member
    · exact isLive_iff_ownedBy?.2 ⟨[], by simp [same]⟩
    · rw [isLive_iff_ownedBy?, same, if_neg (different lower member), ← isLive_iff_ownedBy?]
      exact forest.active lower member
  · intro lowest last
    rcases openings with _ | ⟨next, rest⟩
    · cases last
      exact ground rfl
    · exact forest.grounded lowest (by simpa using last)
  · rw [Opening.roots_cons_of_isRoot root]
    exact rooted.create grown
  · -- The new record gets the highest rank, and the ranks of the others stay.
    refine List.pairwise_cons.2 ⟨?_, older_update clock different older⟩
    intro lower member _
    rw [Function.update_of_ne (different lower member), Function.update_self]
    exact rooted.aged (forest.active lower member)

/-- A new block or box is entered. -/
theorem enter (forest : vault.Forest openings) {kind : FrameKind}
    (isBlock : kind = .block ∨ kind = .boxed) :
    ∃ handle after, Vault.enter kind vault = (.done handle, after) ∧
      (after.Fits → after.Forest (.entered kind handle :: openings)) := by
  have ground : ∀ handle, (Opening.entered kind handle).kind ≠ .named := by
    rcases isBlock with rfl | rfl <;> simp [Opening.entered, Opening.kind]
  have frame : ∀ handle, (Opening.entered kind handle).frame = ⟨kind, handle⟩ := by
    intro handle
    rw [Opening.frame, Opening.kind_entered isBlock, Opening.record_entered]
  have opened : ∀ {handle after}, Vault.enter kind vault = (.done handle, after) → after.Fits →
      after.Consistent → after.frames = ⟨kind, handle⟩ :: vault.frames →
      after.Forest (.entered kind handle :: openings) := by
    intro handle after entered fits consistent frames
    refine forest.push_root (Opening.isRoot_entered _ _) (fun _ => ground _) ?_ consistent ?_
    · rw [Opening.record_entered]
      exact forest.consistent.grown_of_enter entered fits
    · rw [frames, frame]
  cases openings with
  | nil =>
      obtain ⟨path, entered⟩ := enter_of_nil kind forest.frames
      refine ⟨_, _, entered, fun fits => ?_⟩
      have fitted : (vault.allocate .zero path).2.Fits := fits
      have consistent := forest.consistent.allocate fitted
      refine opened entered fits (consistent.congr rfl rfl rfl) ?_
      simp [forest.frames]
  | cons opening rest =>
      obtain ⟨top, below, record, frames, found⟩ := forest.exists_current (List.cons_ne_nil _ _)
      obtain ⟨path, entered⟩ := enter_of_cons kind frames found
      refine ⟨_, _, entered, fun fits => ?_⟩
      have consistent := (forest.consistent.allocate (fits_modify.1 fits)).modify top.record
        fun record => { record with blocks := record.blocks + 1 }
      exact opened entered fits (consistent.congr rfl rfl rfl) rfl

/-- A named scope is declared inside the innermost scope. -/
theorem declare (forest : vault.Forest openings) (someOpen : openings ≠ []) (name : String) :
    ∃ handle after, Vault.declare name vault = (.done handle, after) ∧
      (after.Fits → after.Forest (.declaration handle :: openings)) := by
  obtain ⟨top, below, record, frames, found⟩ := forest.exists_current someOpen
  obtain ⟨path, declared⟩ := declare_of_cons name frames found
  refine ⟨_, _, declared, fun fits => ?_⟩
  have fitted : (vault.allocate top.record path).2.Fits := fits
  exact forest.push_root rfl (fun nothing => absurd nothing someOpen)
    (forest.consistent.grown_of_declare declared fits)
    ((forest.consistent.allocate fitted).congr rfl rfl rfl) rfl

/-- An existing scope is visited, or its handle is refused. -/
theorem enterNamed (forest : vault.Forest openings) (handle : Handle) :
    (∃ after, Vault.enterNamed handle vault = (.done (), after) ∧
      after.Forest (.visit handle :: openings)) ∨
    ∃ diagnostic, Vault.enterNamed handle vault = (.failed diagnostic, vault) := by
  cases found : vault.record? handle with
  | none =>
      obtain ⟨diagnostic, refused, _⟩ := find_of_none found
      exact .inr ⟨diagnostic, enterNamed_of_none refused⟩
  | some record =>
      have live := isLive_of_record? found
      refine .inl ⟨_, enterNamed_of_some found, forest.consistent.congr rfl rfl rfl, ?_, ?_, ?_, ?_⟩
      · simp only [forest.frames, List.map_cons]
        rfl
      · intro opening member
        rcases List.mem_cons.1 member with rfl | member
        · exact live
        · exact forest.active opening member
      · intro lowest last
        rcases openings with _ | ⟨next, rest⟩
        · rw [forest.not_isLive_of_nil] at live
          simp at live
        · exact forest.grounded lowest (by simpa using last)
      · obtain ⟨rank, clock, rooted, older⟩ := forest.ranking
        exact ⟨rank, clock, rooted.congr fun _ => rfl, List.pairwise_cons.2 ⟨by
          intro lower _ visitIsRoot
          simp [Opening.isRoot] at visitIsRoot, older⟩⟩

/-- The lowest frame is no visit and no declaration. -/
theorem grounded_tail {opening : Opening} (forest : vault.Forest (opening :: openings)) :
    ∀ lowest, openings.getLast? = some lowest → lowest.kind ≠ .named := by
  intro lowest last
  refine forest.grounded lowest ?_
  rw [List.getLast?_cons, last]
  rfl

/-- A visit ends without further effect. -/
theorem exitNamed {handle : Handle} (forest : vault.Forest (.visit handle :: openings)) :
    ∃ after, Vault.exitNamed vault = (.done (), after) ∧ after.Forest openings := by
  refine ⟨_, exitNamed_of_cons forest.frames, forest.consistent.congr rfl rfl rfl, rfl,
    fun opening member => forest.active opening (List.mem_cons_of_mem _ member),
    forest.grounded_tail, ?_⟩
  obtain ⟨rank, clock, rooted, older⟩ := forest.ranking
  exact ⟨rank, clock, rooted.congr fun _ => rfl, (List.pairwise_cons.1 older).2⟩

/-- Leaving a block or a box frees its tree and nothing that is still active. -/
theorem leave {kind : FrameKind} (isBlock : kind = .block ∨ kind = .boxed) {handle : Handle}
    (forest : vault.Forest (.entered kind handle :: openings)) :
    ∃ after, Vault.leave kind vault = (.done (), after) ∧ after.Forest openings := by
  obtain ⟨rank, clock, rooted, older⟩ := forest.ranking
  rw [Opening.roots_cons_of_isRoot (Opening.isRoot_entered kind handle),
    Opening.record_entered] at rooted
  have frames : vault.frames = ⟨kind, handle⟩ :: openings.map Opening.frame := by
    rw [forest.frames, List.map_cons, Opening.frame, Opening.kind_entered isBlock,
      Opening.record_entered]
  let popped : Vault := { vault with frames := openings.map Opening.frame }
  have poppedRooted : popped.Rooted (handle :: Opening.roots openings) rank clock :=
    rooted.congr fun _ => rfl
  obtain ⟨after, freed⟩ := exists_releaseWithin (fun edge => poppedRooted.ranked edge) handle
  have pruned := releaseWithin_pruned freed
  have vacated := releaseWithin_vacates freed
  refine ⟨after, (leave_of_cons frames).trans (release_of_some freed), ?_, ?_, ?_,
    forest.grounded_tail, rank, clock, poppedRooted.free pruned, (List.pairwise_cons.1 older).2⟩
  · exact Vacates.consistent vacated (forest.consistent.congr rfl rfl rfl)
  · exact Vacates.frames_eq vacated
  · intro opening member
    refine (pruned.isLive_iff opening.record).2
      ⟨forest.active opening (List.mem_cons_of_mem _ member), fun chain => ?_⟩
    have younger := (List.pairwise_cons.1 older).1 opening member (Opening.isRoot_entered _ _)
    rw [Opening.record_entered] at younger
    exact Nat.lt_irrefl _ (younger.trans_le (poppedRooted.rank_le_of_below chain))

/-- The scope around a declaration takes it over; only then its name is bound. -/
theorem endDeclaration_eq_rebind {handle : Handle}
    (forest : vault.Forest (.declaration handle :: openings)) (name : String) :
    ∃ parent after, Vault.endDeclaration handle name vault =
        Vault.rebind parent name (.scope handle) after ∧ after.Forest openings := by
  obtain ⟨rank, clock, rooted, older⟩ := forest.ranking
  rcases openings with _ | ⟨outer, rest⟩
  · exact absurd rfl (forest.grounded (.declaration handle) rfl)
  · obtain ⟨record, found⟩ := isLive_iff_exists.1
      (forest.active outer (List.mem_cons_of_mem _ List.mem_cons_self))
    let popped : Vault := { vault with frames := (outer :: rest).map Opening.frame }
    let adopting : Record → Record := fun record =>
      { record with owned := record.owned ++ [handle] }
    have poppedFound : popped.record? outer.record = some record := found
    have poppedRooted : popped.Rooted (handle :: Opening.roots (outer :: rest)) rank clock :=
      rooted.congr fun _ => rfl
    have younger : rank outer.record < rank handle :=
      (List.pairwise_cons.1 older).1 outer List.mem_cons_self rfl
    have consistent : popped.Consistent := forest.consistent.congr rfl rfl rfl
    refine ⟨outer.record, popped.modify outer.record adopting,
      endDeclaration_of_cons name forest.frames found, consistent.modify _ _, rfl, ?_,
      forest.grounded_tail, rank, clock, ?_, (List.pairwise_cons.1 older).2⟩
    · intro opening member
      rw [isLive_modify]
      exact forest.active opening (List.mem_cons_of_mem _ member)
    · exact poppedRooted.adopt (by rw [ownedBy?, poppedFound]; rfl) younger
        (ownedBy?_modify poppedFound adopting)

/-- The end of a declaration with a name. -/
theorem endDeclaration {handle : Handle} {name : String}
    (forest : vault.Forest (.declaration handle :: openings)) (named : name ≠ "") :
    ∃ after, Vault.endDeclaration handle name vault = (.done (), after) ∧
      after.Forest openings := by
  obtain ⟨parent, adopted, ended, kept⟩ := forest.endDeclaration_eq_rebind name
  obtain ⟨after, bound, keptAfter⟩ := kept.rebind parent (.scope handle) named
  exact ⟨after, ended.trans bound, keptAfter⟩

/-- A scope is created inside a live one, or the handle of the owner is refused. -/
theorem createOwned (forest : vault.Forest openings) (owner : Handle) (name : String) :
    (∃ handle after, Vault.createOwned owner name vault = (.done handle, after) ∧
      (after.Fits → after.Forest openings)) ∨
    ∃ diagnostic, Vault.createOwned owner name vault = (.failed diagnostic, vault) := by
  cases found : vault.record? owner with
  | none =>
      obtain ⟨diagnostic, refused, _⟩ := find_of_none found
      exact .inr ⟨diagnostic, createOwned_of_none name refused⟩
  | some record =>
      left
      obtain ⟨rank, clock, rooted, older⟩ := forest.ranking
      obtain ⟨path, created⟩ := createOwned_of_some name found
      refine ⟨_, _, created, fun fits => ?_⟩
      rw [fits_modify] at fits
      have growth := forest.consistent.grown_allocate fits
      have consistent := forest.consistent.allocate fits
      have frames := frames_allocate vault owner path
      have kept := forest.consistent.record?_allocate fits owner
      generalize vault.allocate owner path = allocation at growth consistent frames kept ⊢
      obtain ⟨handle, grown⟩ := allocation
      have different : owner ≠ handle := by
        rintro rfl
        simp [growth.fresh] at found
      have grownFound : grown.record? owner = some record := by
        simpa [different, found] using kept
      let adopting : Record → Record := fun record =>
        { record with owned := record.owned ++ [handle] }
      refine ⟨consistent.modify _ _, frames.trans forest.frames, ?_,
        forest.grounded, Function.update rank handle clock, clock + 1, ?_,
        older_update clock (forest.record_ne_of_fresh growth.fresh) older⟩
      · intro opening member
        rw [isLive_modify, isLive_iff_ownedBy?, growth.same,
          if_neg (forest.record_ne_of_fresh growth.fresh opening member), ← isLive_iff_ownedBy?]
        exact forest.active opening member
      · refine (rooted.create growth).adopt ?_ ?_ (ownedBy?_modify grownFound adopting)
        · rw [ownedBy?, grownFound]
          rfl
        · rw [Function.update_of_ne different, Function.update_self]
          exact rooted.aged (isLive_of_record? found)

end Forest
end Vault
end ScopeScript
