import PmWs.Book

/-!
# What a book call can do

One inversion lemma per call. A snapshot commits in one of four ways: as a
recovery base, as the first base, as a checkpoint of a delta-built book, or as
a derived diff. Every later fact about books is a case analysis over these.
-/

open MachineInt Fallible Std

namespace PmWs

/-- Every record of a commit carries the commit's epoch. -/
theorem recordChanges_epoch
    {make : Provenance → Option Level → Option Level → Except ObservationError BookMutation}
    {rebased : Except DescriptorError Provenance} {epoch first : Nat} {changes : List LevelChange}
    {acc records : List MutationRecord} (h : recordChanges make rebased epoch first changes acc = .ok records)
    (hacc : ∀ r ∈ acc, r.cursor.epoch = epoch) : ∀ r ∈ records, r.cursor.epoch = epoch := by
  induction changes generalizing acc with
  | nil =>
    cases h
    exact hacc
  | cons change rest ih =>
    unfold recordChanges at h
    split at h
    · exact ih h hacc
    · simp only [bind_eq_ok, orError_eq_ok, mapError_eq_ok] at h
      obtain ⟨position, -, provenance, -, mutation, -, h⟩ := h
      apply ih h
      intro r hr
      rcases List.mem_append.1 hr with hr | hr
      · exact hacc r hr
      · rw [List.mem_singleton.1 hr]

namespace OrderBook

/-- The book a commit leaves, apart from the counters only its own path moves. -/
def accepted (self : OrderBook) (levels : PhysicalLevels) (continuity : MutationContinuity) (provenance : Provenance) :
    OrderBook :=
  { self with
    levels, continuity, revision := self.revision + 1, authority := .live, provenance := some provenance }

section
variable (self : OrderBook) (next : PhysicalLevels)

/-- The four ways a snapshot with level map `next` commits. -/
inductive SnapshotStep : OrderBook → BookCommit → Prop
  | recoveryBase {provenance : Provenance} {syncDivergences : Nat} {divergence : Option SyncDivergence}
      (broken : self.continuity.isLost = true ∨ self.diverges next = true)
      (reported : divergence.isSome = self.diverges next) :
      SnapshotStep
        { self.accepted next (.intact (self.continuity.epoch + 1) 0) provenance with
          deltasSinceSnapshot := 0, syncDivergences := syncDivergences }
        ⟨self.revision + 1, self.continuity.epoch + 1, true, divergence, []⟩
  | firstBase {provenance : Provenance} {epoch position : Nat}
      (intact : self.continuity = .intact epoch position) (unbased : self.provenance = none)
      (agrees : self.diverges next = false) :
      SnapshotStep
        { self.accepted next (.intact epoch position) provenance with deltasSinceSnapshot := 0 }
        ⟨self.revision + 1, epoch, false, none, []⟩
  | checkpoint {provenance : Provenance} {epoch position : Nat}
      (intact : self.continuity = .intact epoch position) (rail : self.deltaRail = true)
      (agrees : economicallyEqual self.levels next = true) :
      SnapshotStep
        { self.accepted next (.intact epoch position) provenance with deltasSinceSnapshot := 0 }
        ⟨self.revision + 1, epoch, false, none, []⟩
  | diff {provenance source : Provenance} {epoch position : Nat} {mutations : List MutationRecord}
      (intact : self.continuity = .intact epoch position) (based : self.provenance.isSome = true)
      (rail : self.deltaRail = false)
      (derived : deriveMutations self.levels next source (self.revision + 1) epoch position = .ok mutations)
      (fits : position + mutations.length ≤ u64Max) :
      SnapshotStep
        { self.accepted next (.intact epoch (position + mutations.length)) provenance with deltasSinceSnapshot := 0 }
        ⟨self.revision + 1, epoch, false, none, mutations⟩

end

theorem brokenBy_epoch (self : OrderBook) (next : PhysicalLevels) :
    (self.brokenBy next).epoch = self.continuity.epoch := by
  unfold brokenBy
  split <;> simp

theorem brokenBy_isLost {self : OrderBook} {next : PhysicalLevels} :
    (self.brokenBy next).isLost = true ↔ self.continuity.isLost = true ∨ self.diverges next = true := by
  unfold brokenBy
  split <;> simp_all

/-- A snapshot that commits was for this market, collected its levels, and took one of the four ways. -/
theorem applySnapshot_ok {self self' : OrderBook} {candidate : Candidate} {commit : BookCommit}
    (h : self.applySnapshot candidate = .ok (self', commit)) :
    ∃ levels next, candidate.provenance.market = self.market ∧ candidate.operation = .snapshot levels ∧
      collectLevels levels.levels ∅ = .ok next ∧ self.revision + 1 ≤ u64Max ∧
      SnapshotStep self next self' commit := by
  unfold applySnapshot at h
  rw [ite_error_eq_ok, not_not] at h
  obtain ⟨hmarket, h⟩ := h
  split at h
  · cases h
  · next levels hop =>
    simp only [bind_eq_ok, orError_eq_ok, checkedAdd_eq_some] at h
    obtain ⟨next, hnext, revision, ⟨hrev, rfl⟩, sync, hsync, continuity, hcont, h⟩ := h
    refine ⟨levels, next, hmarket, hop, hnext, hrev, ?_⟩
    split at h
    · cases h
    · next epoch position =>
      simp only [bind_eq_ok, mapError_eq_ok] at h
      obtain ⟨mutations, hmut, provenance, -, advanced, hadv, h⟩ := h
      obtain ⟨_, _, heq, hfits, rfl⟩ := MutationContinuity.advanced_ok hadv
      cases heq
      cases h
      unfold continueStream at hcont
      unfold snapshotMutations at hmut
      cases hbroken : (self.brokenBy next).isLost with
      | true =>
        simp only [hbroken, ↓reduceIte, mapError_eq_ok, Bool.true_or, Except.ok.injEq] at hcont hmut
        obtain ⟨-, -, heq⟩ := MutationContinuity.recovered_ok hcont
        cases hmut
        cases heq
        rw [brokenBy_epoch]
        exact .recoveryBase (brokenBy_isLost.1 hbroken) (by split <;> simp_all)
      | false =>
        have hnot : ¬ (self.continuity.isLost = true ∨ self.diverges next = true) := by
          rw [← brokenBy_isLost, hbroken]
          decide
        simp only [not_or, Bool.not_eq_true] at hnot
        have hstream : self.continuity = .intact epoch position := by
          simpa [brokenBy, hnot.1, hnot.2] using hcont
        simp only [hnot.2, Bool.false_eq_true, ↓reduceIte, Option.some.injEq] at hsync ⊢
        subst hsync
        simp only [hbroken, Bool.false_or] at hmut
        split at hmut
        · next hcase =>
          cases hmut
          simp only [Bool.or_eq_true, Option.isNone_iff_eq_none] at hcase
          rcases hcase with hbase | hrail
          · exact .firstBase hstream hbase hnot.2
          · exact .checkpoint hstream hrail (by simpa [diverges, hrail, hnot.1] using hnot.2)
        · next hcase =>
          simp only [Bool.or_eq_true, not_or, Bool.not_eq_true, Option.isNone_eq_false_iff] at hcase
          exact .diff hstream hcase.1 hcase.2 hmut hfits

/-- A delta that commits found an established base and an intact stream. -/
theorem applySourceDelta_ok {self self' : OrderBook} {candidate : Candidate} {commit : BookCommit}
    (h : self.applySourceDelta candidate = .ok (self', commit)) :
    ∃ levels staged epoch position provenance mutations deltas, candidate.provenance.market = self.market ∧
      candidate.operation = .sourceDelta levels ∧ self.provenance.isSome = true ∧
      self.continuity = .intact epoch position ∧ stageDelta levels.levels [] = .ok staged ∧
      self.revision + 1 ≤ u64Max ∧
      recordChanges BookMutation.sourceReported
        (rebaseProvenance candidate.provenance (self.revision + 1) epoch .sourceReportedDiff) epoch position
        (deltaChanges self.levels staged) [] = .ok mutations ∧
      position + mutations.length ≤ u64Max ∧
      self' = { self.accepted (applyStaged self.levels staged) (.intact epoch (position + mutations.length)) provenance with
                deltaRail := true, deltasSinceSnapshot := deltas } ∧
      commit = ⟨self.revision + 1, epoch, false, none, mutations⟩ := by
  unfold applySourceDelta at h
  rw [ite_error_eq_ok, not_not] at h
  obtain ⟨hmarket, h⟩ := h
  split at h
  · cases h
  · next levels hop =>
    simp only [ite_error_eq_ok] at h
    obtain ⟨-, hbase, h⟩ := h
    split at h
    · cases h
    · next epoch position hcont =>
      simp only [bind_eq_ok, orError_eq_ok, checkedAdd_eq_some, mapError_eq_ok] at h
      obtain ⟨staged, hstaged, _, ⟨hrev, rfl⟩, mutations, hmut, deltas, -, provenance, -, advanced, hadv, h⟩ := h
      rw [hcont] at hadv
      obtain ⟨_, _, heq, hfits, rfl⟩ := MutationContinuity.advanced_ok hadv
      cases heq
      cases h
      exact ⟨levels, staged, epoch, position, provenance, mutations, deltas, hmarket, hop,
        Option.isSome_iff_ne_none.2 hbase, hcont, hstaged, hrev, hmut, hfits, rfl, rfl⟩

theorem unsubscribe_ok {self self' : OrderBook} {changed : Bool} (h : self.unsubscribe = .ok (self', changed)) :
    (changed = false ∧ self' = self) ∨
      (changed = true ∧ self.revision + 1 ≤ u64Max ∧
        self' = { self with revision := self.revision + 1, authority := .unsubscribed }) := by
  unfold unsubscribe at h
  split at h
  · cases h
    exact .inl ⟨rfl, rfl⟩
  · simp only [bind_eq_ok, orError_eq_ok, checkedAdd_eq_some] at h
    obtain ⟨_, ⟨hrev, rfl⟩, h⟩ := h
    cases h
    exact .inr ⟨rfl, hrev, rfl⟩

theorem reportContinuityLoss_ok {self self' : OrderBook} {c : ContinuityReason} {a : AuthorityReason} {changed : Bool}
    (h : self.reportContinuityLoss c a = .ok (self', changed)) :
    (changed = false ∧ self' = self ∧ self.continuity.isLost = true ∧ self.authority = .stale a) ∨
      (changed = true ∧ self.revision + 1 ≤ u64Max ∧
        self' = { self with
                  revision := self.revision + 1, continuity := self.continuity.markLost c, authority := .stale a }) := by
  unfold reportContinuityLoss at h
  split at h
  · next hsame =>
    cases h
    exact .inl ⟨rfl, rfl, by rw [← hsame.1]; simp, hsame.2.symm⟩
  · simp only [bind_eq_ok, orError_eq_ok, checkedAdd_eq_some] at h
    obtain ⟨_, ⟨hrev, rfl⟩, h⟩ := h
    cases h
    exact .inr ⟨rfl, hrev, rfl⟩

theorem noteStreamEvent_ok {self self' : OrderBook} {cursor : MutationCursor}
    (h : self.noteStreamEvent = .ok (self', cursor)) :
    ∃ epoch position, self.continuity = .intact epoch position ∧ position + 1 ≤ u64Max ∧ cursor = ⟨epoch, position⟩ ∧
      self' = { self with continuity := .intact epoch (position + 1) } := by
  unfold noteStreamEvent at h
  split at h
  · cases h
  · next epoch position hcont =>
    simp only [bind_eq_ok, mapError_eq_ok] at h
    obtain ⟨advanced, hadv, h⟩ := h
    rw [hcont] at hadv
    obtain ⟨_, _, heq, hfits, rfl⟩ := MutationContinuity.advanced_ok hadv
    cases heq
    cases h
    exact ⟨epoch, position, hcont, hfits, rfl, rfl⟩

end OrderBook

end PmWs
