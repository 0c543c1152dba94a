import ScopeScript.Proofs.Vault.Fingerprint
import ScopeScript.Proofs.Vault.Nested
import ScopeScript.Session.Tree

/-!
# The outline of the live scopes

The outline of a snapshot has one line for each live record, in the order of paths, and a line is as
deep as its path has signs. Parents of records are not consulted. Where scopes have been named
without the sign that separates levels, the outline shows all the same what is inside what: the
outermost record comes first, and the nearest line in front of another one that is less deep shows
the path of the parent (`outline_shows_nesting`), also where paths repeat.
-/

namespace ScopeScript

/-- The nearest line in front of a line that is less deep. -/
structure NearestAbove (lines : List LeveledText) (above place : ℕ) : Prop where
  before : above < place
  higher : ∃ upper lower, lines[above]? = some upper ∧ lines[place]? = some lower ∧
    upper.level < lower.level
  nearest : ∀ between, above < between → between < place → ∀ line lower,
    lines[between]? = some line → lines[place]? = some lower → lower.level ≤ line.level

/-- A line shows a record by its path, behind which stand the names that the record binds, if there
are any. -/
def LeveledText.Shows (line : LeveledText) (record : Record) : Prop :=
  line.text = if record.table.names = [] then record.path
    else record.path ++ "  " ++ " ".intercalate record.table.names

namespace Vault

variable {vault : Vault} {openings : List Opening}

/-! ## Lines and scopes -/

/-- The live records with their handles, in the order of their slots. -/
def residents (vault : Vault) : List (Handle × Record) :=
  vault.slots.toList.zipIdx.filterMap fun (slot, place) =>
    slot.record?.map fun record => (vault.handleAt place, record)

theorem Consistent.mem_residents (consistent : vault.Consistent) (fits : vault.Fits)
    (handle : Handle) (record : Record) :
    (handle, record) ∈ vault.residents ↔ vault.record? handle = some record := by
  rw [residents, List.mem_filterMap]
  constructor
  · rintro ⟨⟨slot, place⟩, member, resident⟩
    obtain ⟨held, isHeld, same⟩ := Option.map_eq_some_iff.1 resident
    cases same
    have found : vault.slots[place]? = some slot := by
      simpa using List.mem_zipIdx_iff_getElem?.1 member
    exact consistent.record?_handleAt fits (by simp [recordAt, found, isHeld])
  · intro found
    obtain ⟨-, generation, held⟩ := record?_eq_some_iff.1 found
    obtain ⟨slot, isSlot, isHeld⟩ := Option.bind_eq_some_iff.1 held
    refine ⟨(slot, handle.slot), List.mem_zipIdx_iff_getElem?.2 (by simpa using isSlot), ?_⟩
    have reached : vault.handleAt handle.slot = handle := by
      rw [handleAt, generation, Handle.slot, UInt32.ofNat_toNat]
    simp [isHeld, reached]

/-- Records in different slots have different handles. -/
theorem nodup_residents (fits : vault.Fits) : (vault.residents.map (·.1)).Nodup := by
  have inside {slot : Slot} {place : ℕ} (member : (slot, place) ∈ vault.slots.toList.zipIdx) :
      (vault.handleAt place).slot = place :=
    slot_handleAt fits (by simpa using (List.mem_zipIdx member).2.1)
  rw [residents, List.map_filterMap]
  refine List.pairwise_filterMap.2 ((List.pairwise_map.1
    (List.nodup_zipIdx_map_snd vault.slots.toList)).imp_of_mem ?_)
  intro former latter isFormer isLatter different _ first _ second same
  simp only [Option.map_map, Option.map_eq_some_iff] at first second
  obtain ⟨_, _, rfl⟩ := first
  obtain ⟨_, _, rfl⟩ := second
  exact different ((inside isFormer).symm.trans ((congrArg Handle.slot same).trans
    (inside isLatter)))

theorem map_describe_residents (vault : Vault) :
    vault.residents.map (fun resident => vault.describe resident.2) = vault.descriptions := by
  conv_rhs => rw [descriptions, ← List.zipIdx_map_fst 0 vault.slots.toList, List.filterMap_map]
  rw [residents, List.map_filterMap]
  refine List.filterMap_congr fun _ _ => ?_
  simp only [Option.map_map]
  rfl

/-- The live scopes in the order in which a snapshot shows them. -/
structure Listed (vault : Vault) (scopes : List Handle) : Prop where
  nodup : scopes.Nodup
  mem_iff : ∀ handle, handle ∈ scopes ↔ vault.isLive handle = true
  shown : scopes.map vault.shown? = vault.snapshot.map some

/-- The live scopes can be listed in the order of the snapshot. -/
theorem Consistent.exists_listed (consistent : vault.Consistent) (fits : vault.Fits) :
    ∃ scopes, vault.Listed scopes := by
  let before (left right : Handle × Record) : Bool :=
    pathLE (vault.describe left.2) (vault.describe right.2)
  have sorted : (vault.residents.mergeSort before).map (fun resident => vault.describe resident.2) =
      vault.snapshot := by
    rw [List.map_mergeSort (s := pathLE) fun _ _ _ _ => rfl, map_describe_residents]
    rfl
  have same := List.mergeSort_perm vault.residents before
  refine ⟨(vault.residents.mergeSort before).map (·.1), ?_, fun handle => ?_, ?_⟩
  · exact (same.map _).nodup_iff.2 (nodup_residents fits)
  · rw [(same.map _).mem_iff, isLive_iff_exists]
    simp [consistent.mem_residents fits]
  · rw [← sorted, List.map_map, List.map_map]
    refine List.map_congr_left fun ⟨handle, record⟩ member => ?_
    have found := (consistent.mem_residents fits handle record).1 (same.mem_iff.1 member)
    simp [shown?, found]

/-- The paths of the live records in increasing order. -/
def sortedPaths (vault : Vault) : List String :=
  vault.snapshot.map (·.path)

theorem pairwise_sortedPaths (vault : Vault) : vault.sortedPaths.Pairwise (· ≤ ·) :=
  List.pairwise_map.2 vault.pairwise_snapshot

/-- A line of the outline is as deep as its path has signs. -/
theorem outline_getElem? (vault : Vault) {place : ℕ} {line : LeveledText} :
    (RecordInfo.outline vault.snapshot)[place]? = some line →
      ∃ path, vault.sortedPaths[place]? = some path ∧ line.level = (signs path : ℤ) - 1 := by
  intro found
  rw [RecordInfo.outline, List.getElem?_map] at found
  obtain ⟨info, isInfo, rfl⟩ := Option.map_eq_some_iff.1 found
  exact ⟨info.path, by rw [sortedPaths, List.getElem?_map, isInfo]; rfl, rfl⟩

theorem exists_outline_getElem? (vault : Vault) {place : ℕ} {path : String}
    (found : vault.sortedPaths[place]? = some path) :
    ∃ line, (RecordInfo.outline vault.snapshot)[place]? = some line ∧
      line.level = (signs path : ℤ) - 1 := by
  rw [sortedPaths, List.getElem?_map] at found
  obtain ⟨info, isInfo, rfl⟩ := Option.map_eq_some_iff.1 found
  exact ⟨_, by rw [RecordInfo.outline, List.getElem?_map, isInfo]; rfl, rfl⟩

namespace Listed

variable {scopes : List Handle}

/-- What stands at a place of the snapshot is shown of the scope at this place. -/
theorem getElem?_shown (listed : vault.Listed scopes) (place : ℕ) :
    scopes[place]?.map vault.shown? = vault.snapshot[place]?.map some := by
  rw [← List.getElem?_map, listed.shown, List.getElem?_map]

theorem length_outline (listed : vault.Listed scopes) :
    (RecordInfo.outline vault.snapshot).length = scopes.length := by
  have same := congrArg List.length listed.shown
  rw [List.length_map, List.length_map] at same
  rw [RecordInfo.outline, List.length_map, same]

/-- The line at the place of a scope shows its record. -/
theorem exists_line (listed : vault.Listed scopes) {place : ℕ} {scope : Handle}
    (isScope : scopes[place]? = some scope) :
    ∃ record line, vault.record? scope = some record ∧
      (RecordInfo.outline vault.snapshot)[place]? = some line ∧ line.Shows record := by
  have shown := listed.getElem?_shown place
  rw [isScope, Option.map_some] at shown
  obtain ⟨info, isInfo, described⟩ := Option.map_eq_some_iff.1 shown.symm
  obtain ⟨record, isRecord, rfl⟩ := Option.map_eq_some_iff.1 described.symm
  refine ⟨record, _, isRecord, by rw [RecordInfo.outline, List.getElem?_map, isInfo]; rfl, ?_⟩
  simp [LeveledText.Shows, describe]

theorem exists_lineage? (listed : vault.Listed scopes) {place : ℕ} {path : String}
    (found : vault.sortedPaths[place]? = some path) :
    ∃ scope parent, scopes[place]? = some scope ∧ vault.lineage? scope = some (parent, path) := by
  rw [sortedPaths, List.getElem?_map] at found
  obtain ⟨info, isInfo, rfl⟩ := Option.map_eq_some_iff.1 found
  have shown := listed.getElem?_shown place
  rw [isInfo] at shown
  obtain ⟨scope, isScope, described⟩ := Option.map_eq_some_iff.1 shown
  obtain ⟨record, isRecord, rfl⟩ := Option.map_eq_some_iff.1 described
  exact ⟨scope, record.parent, isScope, by rw [lineage?, isRecord]; rfl⟩

theorem exists_getElem? (listed : vault.Listed scopes) {scope parent : Handle} {path : String}
    (found : vault.lineage? scope = some (parent, path)) :
    ∃ place : ℕ, scopes[place]? = some scope ∧ vault.sortedPaths[place]? = some path := by
  obtain ⟨record, isRecord, same⟩ := Option.map_eq_some_iff.1 found
  obtain ⟨place, isScope⟩ :=
    List.getElem?_of_mem ((listed.mem_iff scope).2 (isLive_of_lineage? found))
  have shown := listed.getElem?_shown place
  rw [isScope, Option.map_some, shown?, isRecord] at shown
  obtain ⟨info, isInfo, described⟩ := Option.map_eq_some_iff.1 shown.symm
  cases described
  cases same
  exact ⟨place, isScope, by rw [sortedPaths, List.getElem?_map, isInfo]; rfl⟩

theorem numbered (listed : vault.Listed scopes) (nested : vault.Nested openings)
    (forest : vault.Forest openings) : ∀ path ∈ vault.sortedPaths, Numbered path := by
  intro path member
  obtain ⟨place, found⟩ := List.getElem?_of_mem member
  obtain ⟨_, _, _, lineage⟩ := listed.exists_lineage? found
  exact nested.numbered forest lineage

/-- The outermost record comes first. -/
theorem getElem?_zero (listed : vault.Listed scopes) (nested : vault.Nested openings)
    (forest : vault.Forest openings) {lowest : Opening} (last : openings.getLast? = some lowest) :
    scopes[0]? = some lowest.record := by
  obtain ⟨base, number, root⟩ := nested.grounded lowest last
  obtain ⟨place, -, pathFound⟩ := listed.exists_getElem? root
  obtain ⟨inside, -⟩ := List.getElem?_eq_some_iff.1 pathFound
  have firstFound := List.getElem?_eq_getElem (Nat.zero_lt_of_lt inside)
  obtain ⟨scope, _, scopeFound, lineage⟩ := listed.exists_lineage? firstFound
  rw [scopeFound]
  by_contra different
  exact (nested.outermost_lt forest last root lineage (by simpa using different)).not_ge
    (le_of_getElem? vault.pairwise_sortedPaths firstFound pathFound (Nat.zero_le place))

/-- In front of the line of a scope that is inside another one stands the line of this one, and
in between there are only lines that are as deep. -/
theorem exists_above (listed : vault.Listed scopes) (nested : vault.Nested openings)
    (forest : vault.Forest openings) {place : ℕ} {path outerPath : String}
    (found : vault.sortedPaths[place]? = some path) {parent grandparent : Handle}
    (outer : vault.lineage? parent = some (grandparent, outerPath))
    (child : ChildPath outerPath path) :
    ∃ above, NearestAbove (RecordInfo.outline vault.snapshot) above place ∧
      vault.sortedPaths[above]? = some outerPath := by
  obtain ⟨_, _, outerFound⟩ := listed.exists_getElem? outer
  obtain ⟨above, before, aboveFound, nearest⟩ := exists_nearest vault.pairwise_sortedPaths
    (listed.numbered nested forest) found child (List.mem_of_getElem? outerFound)
  obtain ⟨lower, lowerFound, lowerLevel⟩ := vault.exists_outline_getElem? found
  obtain ⟨upper, upperFound, upperLevel⟩ := vault.exists_outline_getElem? aboveFound
  have deeper := child.signs_eq
  refine ⟨above, ⟨before, ⟨upper, lower, upperFound, lowerFound, by omega⟩, ?_⟩, aboveFound⟩
  intro between behind front line other isLine isLower
  obtain ⟨linePath, linePathFound, level⟩ := vault.outline_getElem? isLine
  have deep := nearest between behind front linePath linePathFound
  cases lowerFound.symm.trans isLower
  omega

/-- The line of the outermost record is not indented. -/
theorem level_zero (listed : vault.Listed scopes) (nested : vault.Nested openings)
    (forest : vault.Forest openings) {lowest : Opening} (last : openings.getLast? = some lowest)
    {line : LeveledText} (isLine : (RecordInfo.outline vault.snapshot)[0]? = some line) :
    line.level = 0 := by
  obtain ⟨path, pathFound, level⟩ := vault.outline_getElem? isLine
  obtain ⟨scope, parent, scopeFound, lineage⟩ := listed.exists_lineage? pathFound
  cases (listed.getElem?_zero nested forest last).symm.trans scopeFound
  obtain ⟨_, number, root⟩ := nested.grounded lowest last
  cases lineage.symm.trans root
  rw [level, signs_root]
  rfl

/-- Every other line is indented, and is below the line of the enclosing scope. -/
theorem exists_upper (listed : vault.Listed scopes) (nested : vault.Nested openings)
    (forest : vault.Forest openings) {lowest : Opening} (last : openings.getLast? = some lowest)
    {place : ℕ} {line : LeveledText}
    (isLine : (RecordInfo.outline vault.snapshot)[place]? = some line) (notFirst : place ≠ 0) :
    0 < line.level ∧ ∃ scope record enclosing above upper upperScope upperRecord,
      scopes[place]? = some scope ∧ vault.record? scope = some record ∧
      vault.record? record.parent = some enclosing ∧
      NearestAbove (RecordInfo.outline vault.snapshot) above place ∧
      (RecordInfo.outline vault.snapshot)[above]? = some upper ∧
      upper.level + 1 = line.level ∧
      scopes[above]? = some upperScope ∧ vault.record? upperScope = some upperRecord ∧
      upper.Shows upperRecord ∧ upperRecord.path = enclosing.path := by
  obtain ⟨path, pathFound, level⟩ := vault.outline_getElem? isLine
  obtain ⟨scope, parent, scopeFound, lineage⟩ := listed.exists_lineage? pathFound
  have different : scope ≠ lowest.record := by
    rintro rfl
    have first := listed.getElem?_zero nested forest last
    obtain ⟨inside, -⟩ := List.getElem?_eq_some_iff.1 scopeFound
    exact notFirst ((List.getElem?_inj inside listed.nodup).1 (scopeFound.trans first.symm))
  obtain ⟨_, isLast, same⟩ | ⟨_, grandparent, outerPath, _, outer, inner, child⟩ :=
    nested.outermost_or_inside forest (isLive_of_lineage? lineage)
  · cases last.symm.trans isLast
    exact absurd same.symm different
  cases lineage.symm.trans inner
  obtain ⟨above, nearest, aboveFound⟩ := listed.exists_above nested forest pathFound outer child
  obtain ⟨record, isRecord, sameLineage⟩ := Option.map_eq_some_iff.1 lineage
  obtain ⟨enclosing, isEnclosing, sameOuter⟩ := Option.map_eq_some_iff.1 outer
  obtain ⟨upperScope, _, upperIsScope, upperLineage⟩ := listed.exists_lineage? aboveFound
  obtain ⟨upperRecord, upper, upperIsRecord, upperFound, shows⟩ := listed.exists_line upperIsScope
  obtain ⟨_, samePath, upperLevel⟩ := vault.outline_getElem? upperFound
  cases aboveFound.symm.trans samePath
  rw [lineage?, upperIsRecord] at upperLineage
  have deeper := child.signs_eq
  have positive := (nested.numbered forest outer).signs_pos
  cases sameLineage
  cases sameOuter
  exact ⟨by omega, scope, record, enclosing, above, upper, upperScope, upperRecord, scopeFound,
    isRecord, isEnclosing, nearest, upperFound, by omega, upperIsScope, upperIsRecord, shows,
    congrArg Prod.snd (Option.some.inj upperLineage)⟩

end Listed

/-- As long as the numbers of the slots fit, the outline of a snapshot has one line for each live
scope, which shows its record. The line of the outermost scope comes first, and it alone is of level
0. The nearest line in front of another one that is less deep is so by one, and the record it shows
has the path of the parent. -/
theorem outline_shows_nesting (run : WellNamed openings vault) (fits : vault.Fits)
    (someLive : 0 < vault.live) :
    (∃ scopes, vault.Listed scopes) ∧ ∀ scopes : List Handle, vault.Listed scopes →
      (RecordInfo.outline vault.snapshot).length = scopes.length ∧
      (∀ (place : ℕ) scope, scopes[place]? = some scope → ∃ record,
        ∃ line : LeveledText, vault.record? scope = some record ∧
        (RecordInfo.outline vault.snapshot)[place]? = some line ∧ line.Shows record) ∧
      (∃ outermost record, ∃ first : LeveledText, vault.frames.getLast? = some outermost ∧
        scopes.head? = some outermost.record ∧ vault.record? outermost.record = some record ∧
        (RecordInfo.outline vault.snapshot).head? = some first ∧ first.Shows record) ∧
      ∀ place line, (RecordInfo.outline vault.snapshot)[place]? = some line →
        (line.level = 0 ↔ place = 0) ∧
        (place ≠ 0 → ∃ scope record enclosing above upper upperScope upperRecord,
          scopes[place]? = some scope ∧ vault.record? scope = some record ∧
          vault.record? record.parent = some enclosing ∧
          NearestAbove (RecordInfo.outline vault.snapshot) above place ∧
          (RecordInfo.outline vault.snapshot)[above]? = some upper ∧
          upper.level + 1 = line.level ∧
          scopes[above]? = some upperScope ∧ vault.record? upperScope = some upperRecord ∧
          upper.Shows upperRecord ∧ upperRecord.path = enclosing.path) := by
  obtain ⟨forest, nested⟩ := run.invariants fits
  have someOpen : openings ≠ [] := by
    rintro rfl
    exact someLive.ne' forest.live_eq_zero_of_nil
  have last := List.getLast?_eq_some_getLast someOpen
  refine ⟨forest.consistent.exists_listed fits, fun scopes listed =>
    ⟨listed.length_outline, fun _ _ => listed.exists_line, ?_, fun place line isLine => ?_⟩⟩
  · have isFirst := listed.getElem?_zero nested forest last
    obtain ⟨record, first, isRecord, firstFound, shows⟩ := listed.exists_line isFirst
    refine ⟨(openings.getLast someOpen).frame, record, first, ?_, ?_, isRecord, ?_, shows⟩
    · rw [forest.frames, List.getLast?_map, last]
      rfl
    · rw [List.head?_eq_getElem?, isFirst]
      rfl
    · rw [List.head?_eq_getElem?, firstFound]
  by_cases isFirst : place = 0
  · subst isFirst
    exact ⟨iff_of_true (listed.level_zero nested forest last isLine) rfl, absurd rfl⟩
  · obtain ⟨indented, upper⟩ := listed.exists_upper nested forest last isLine isFirst
    exact ⟨iff_of_false indented.ne' isFirst, fun _ => upper⟩

/-- Two scopes of one name in a block, of which the second one owns another scope. -/
def namesakes : List Operation :=
  [.enterBlock, .declare "m", .endDeclaration ⟨1, 1⟩ "m",
    .declare "m", .createOwned ⟨2, 1⟩ "s", .endDeclaration ⟨2, 1⟩ "m"]

theorem outline_namesakes : RecordInfo.outline (leftBy namesakes).snapshot =
    [⟨0, "$0  m"⟩, ⟨1, "$0.m$0"⟩, ⟨1, "$0.m$0"⟩, ⟨2, "$0.m$0.s$0"⟩] := by
  cbv

theorem wellNamed_namesakes : WellNamed [.block ⟨0, 1⟩] (leftBy namesakes) := by
  have plain : '$' ∉ "m".toList := by decide
  have plainToo : '$' ∉ "s".toList := by decide
  have entered := WellNamed.start.next .enterBlock trivial trivial (.done _)
  have declared := entered.next (.declare "m") trivial plain (.done _)
  have ended := declared.next (.endDeclaration ⟨1, 1⟩ "m") ⟨_, rfl⟩ trivial (.done _)
  have declaredAgain := ended.next (.declare "m") trivial plain (.done _)
  have created := declaredAgain.next (.createOwned ⟨2, 1⟩ "s") trivial plainToo (.done _)
  exact created.next (.endDeclaration ⟨2, 1⟩ "m") ⟨_, rfl⟩ trivial (.done _)

/-- The last line is below one of two lines with the same path. -/
theorem outline_of_namesakes_shows_nesting :
    ∃ openings vault scopes record enclosing, WellNamed openings vault ∧ 0 < vault.live ∧
      vault.Listed scopes ∧ scopes.length = 4 ∧ scopes[3]?.bind vault.record? = some record ∧
      vault.record? record.parent = some enclosing ∧ ∃ above upper upperRecord,
        NearestAbove (RecordInfo.outline vault.snapshot) above 3 ∧
        (RecordInfo.outline vault.snapshot)[above]? = some upper ∧
        upper.Shows upperRecord ∧ upperRecord.path = enclosing.path := by
  have someLive : 0 < (leftBy namesakes).live := by decide
  obtain ⟨⟨scopes, listed⟩, shows⟩ := outline_shows_nesting wellNamed_namesakes (by decide) someLive
  obtain ⟨length, -, -, lines⟩ := shows scopes listed
  have isLine : (RecordInfo.outline (leftBy namesakes).snapshot)[3]? = some ⟨2, "$0.m$0.s$0"⟩ := by
    rw [outline_namesakes]
    rfl
  obtain ⟨scope, record, enclosing, above, upper, _, upperRecord, isScope, isRecord, isParent,
    nearest, isUpper, _, _, _, shown, same⟩ := (lines 3 _ isLine).2 (by decide)
  refine ⟨_, _, scopes, record, enclosing, wellNamed_namesakes, someLive, listed, ?_, ?_, isParent,
    above, upper, upperRecord, nearest, isUpper, shown, same⟩
  · rw [← length, outline_namesakes]
    rfl
  · rw [isScope, Option.bind_some, isRecord]

end Vault
end ScopeScript
