import PmWs.Book.Complement

/-!
# When a book takes a snapshot's levels

Prices in the unit interval have complements, distinct coordinates do not
collide. A snapshot of such levels is never refused for its levels, and where it
commits the book rests exactly on them.
-/

open MachineInt Fallible Std

namespace PmWs

/-! ## Taking the levels -/

/-- Complementable levels at distinct coordinates are all taken, each at its coordinate. -/
theorem collectLevels_ok {levels : List Level} {held : PhysicalLevels}
    (hcomplement : ∀ level ∈ levels, ∃ complement, complementPrice level.price = .ok complement)
    (hdistinct : (levels.map Level.coordinate).Nodup) (hfresh : ∀ level ∈ levels, level.coordinate ∉ held) :
    ∃ next, collectLevels levels held = .ok next ∧ ∀ coordinate quantity, next[coordinate]? = some quantity ↔
      held[coordinate]? = some quantity ∨ levelAt coordinate quantity ∈ levels := by
  induction levels generalizing held with
  | nil => exact ⟨held, rfl, by simp⟩
  | cons level levels ih =>
    obtain ⟨⟨complement, hprice⟩, hcomplement⟩ := List.forall_mem_cons.1 hcomplement
    obtain ⟨hnew, hfresh⟩ := List.forall_mem_cons.1 hfresh
    obtain ⟨hother, hdistinct⟩ := List.nodup_cons.1 hdistinct
    have hfresh' : ∀ later ∈ levels, later.coordinate ∉ held.insert level.coordinate level.quantity := by
      intro later hlater hmem
      rcases ExtTreeMap.mem_insert.1 hmem with heq | hmem
      · rw [LawfulEqCmp.eq_of_compare heq] at hother
        exact hother (List.mem_map_of_mem hlater)
      · exact hfresh later hlater hmem
    obtain ⟨next, hnext, hheld⟩ := ih hcomplement hdistinct hfresh'
    refine ⟨next, ?_, fun coordinate quantity => ?_⟩
    · unfold collectLevels
      rw [hprice, mapError_ok, ok_bind, if_neg hnew]
      exact hnext
    · rw [hheld, ExtTreeMap.getElem?_insert, List.mem_cons]
      split
      · next heq =>
        cases LawfulEqCmp.eq_of_compare heq
        have hnone : held[level.coordinate]? = none := ExtTreeMap.getElem?_eq_none hnew
        have hlevel : levelAt level.coordinate quantity = level ↔ some level.quantity = some quantity :=
          ⟨fun heq => congrArg some (congrArg Level.quantity heq).symm, by rintro ⟨⟩; rfl⟩
        rw [hnone, hlevel, or_iff_right (a := none = some quantity) (by simp)]
      · next hne =>
        have hnot : levelAt coordinate quantity ≠ level := by
          rintro rfl
          exact hne ReflCmp.compare_self
        rw [or_iff_right hnot]

/-- What a book rests on, where it holds each of some levels at its coordinate. -/
theorem publish_levels {book : OrderBook} {levels : List Level} (hdistinct : (levels.map Level.coordinate).Nodup)
    (hlevels : ∀ coordinate quantity, book.levels[coordinate]? = some quantity ↔ levelAt coordinate quantity ∈ levels) :
    book.publish.levels.Perm levels ∧
      book.publish.levels.Pairwise fun a b => Coordinate.cmp a.coordinate b.coordinate = .lt := by
  have hordered : book.publish.levels.Pairwise fun a b => Coordinate.cmp a.coordinate b.coordinate = .lt :=
    List.pairwise_map.2 ExtTreeMap.ordered_keys_toList
  refine ⟨(List.perm_ext_iff_of_nodup ?_ (.of_map _ hdistinct)).2 fun level => ?_, hordered⟩
  · refine hordered.imp fun {a b} hlt => ?_
    rintro rfl
    exact absurd (hlt.symm.trans ReflCmp.compare_self) nofun
  · change level ∈ book.levels.toList.map _ ↔ _
    rw [List.mem_map]
    constructor
    · rintro ⟨⟨coordinate, quantity⟩, hmem, rfl⟩
      exact (hlevels coordinate quantity).1 (ExtTreeMap.mem_toList_iff_getElem?_eq_some.1 hmem)
    · intro hmem
      exact ⟨(level.coordinate, level.quantity),
        ExtTreeMap.mem_toList_iff_getElem?_eq_some.2 ((hlevels _ _).2 hmem), rfl⟩

/-! ## What else can refuse a snapshot -/

/-- The refusals that come after a snapshot's levels have been taken. -/
def BookError.pastLevels : BookError → Bool
  | .counterOverflow | .continuity _ | .provenance _ | .mutation _ => true
  | _ => false

theorem recordChanges_error {make : Provenance → Option Level → Option Level → Except ObservationError BookMutation}
    {rebased : Except DescriptorError Provenance} {epoch firstPosition : Nat} {changes : List LevelChange}
    {mutations : List MutationRecord} {e : BookError}
    (h : recordChanges make rebased epoch firstPosition changes mutations = .error e) : e.pastLevels = true := by
  induction changes generalizing mutations with
  | nil => cases h
  | cons change changes ih =>
    unfold recordChanges at h
    split at h
    · exact ih h
    · simp only [bind_eq_error, orError_eq_error, mapError_eq_error] at h
      obtain ⟨-, rfl⟩ | ⟨_, -, ⟨_, -, rfl⟩ | ⟨_, -, ⟨_, -, rfl⟩ | ⟨_, -, h⟩⟩⟩ := h
      · rfl
      · rfl
      · rfl
      · exact ih h

theorem OrderBook.applySnapshot_error {self : OrderBook} {candidate : Candidate} {levels : BoundedLevels}
    {next : PhysicalLevels} {e : BookError} (hmarket : candidate.provenance.market = self.market)
    (hop : candidate.operation = .snapshot levels) (hnext : collectLevels levels.levels ∅ = .ok next)
    (h : self.applySnapshot candidate = .error e) : e.pastLevels = true := by
  unfold applySnapshot at h
  rw [if_neg (not_not.2 hmarket), hop] at h
  dsimp only at h
  rw [hnext, ok_bind] at h
  simp only [bind_eq_error, orError_eq_error] at h
  obtain ⟨-, rfl⟩ | ⟨_, -, ⟨-, rfl⟩ | ⟨_, -, hstream | ⟨continuity, -, h⟩⟩⟩ := h
  · rfl
  · rfl
  · unfold continueStream at hstream
    split at hstream
    · obtain ⟨_, -, rfl⟩ := mapError_eq_error.1 hstream
      rfl
    · cases hstream
  · split at h
    · cases h
      rfl
    · simp only [bind_eq_error, mapError_eq_error] at h
      obtain hmutations | ⟨_, -, ⟨_, -, rfl⟩ | ⟨_, -, ⟨_, -, rfl⟩ | ⟨_, -, h⟩⟩⟩ := h
      · unfold snapshotMutations at hmutations
        split at hmutations
        · cases hmutations
        · exact recordChanges_error hmutations
      · rfl
      · rfl
      · cases h

/-- A snapshot of complementable levels at distinct coordinates is never refused for its levels, and where it commits
the book rests on exactly those levels, in order. -/
theorem OrderBook.applySnapshot_levels {self : OrderBook} {candidate : Candidate} {levels : BoundedLevels}
    (hmarket : candidate.provenance.market = self.market) (hop : candidate.operation = .snapshot levels)
    (hcomplement : ∀ level ∈ levels.levels, ∃ complement, complementPrice level.price = .ok complement)
    (hdistinct : (levels.levels.map Level.coordinate).Nodup) :
    (∀ e, self.applySnapshot candidate = .error e → e.pastLevels = true) ∧
    ∀ self' commit, self.applySnapshot candidate = .ok (self', commit) →
      self'.publish.levels.Perm levels.levels ∧
        self'.publish.levels.Pairwise fun a b => Coordinate.cmp a.coordinate b.coordinate = .lt := by
  obtain ⟨next, hnext, hheld⟩ := collectLevels_ok hcomplement hdistinct fun _ _ => ExtTreeMap.not_mem_empty
  refine ⟨fun e h => applySnapshot_error hmarket hop hnext h, fun self' commit h => ?_⟩
  obtain ⟨levels', next', -, hop', hnext', -, hstep⟩ := applySnapshot_ok h
  cases hop.symm.trans hop'
  cases hnext.symm.trans hnext'
  have hlevels : self'.levels = next := by cases hstep <;> rfl
  refine publish_levels hdistinct fun coordinate quantity => ?_
  rw [hlevels, hheld]
  simp

end PmWs
