import PmWs.Book.Steps
import PmWs.Limitless

/-!
# What the rails do to a book

Both rails only apply snapshots, report losses, forward resolutions and
unsubscribe. None of these takes a stream back: its epoch never falls, and a
lost stream resumes under a higher one.
-/

open MachineInt Fallible

namespace PmWs

namespace OrderBook

/-- The stream of `b'` continues, breaks or recovers the stream of `b`. -/
structure Advances (b b' : OrderBook) : Prop where
  epoch_le : b.continuity.epoch ≤ b'.continuity.epoch
  revision_le : b.revision ≤ b'.revision
  lost : b.continuity.isLost = true → b'.continuity.isLost = true ∨ b.continuity.epoch < b'.continuity.epoch

/-- The stream moved forward within its epoch and no level changed. -/
structure Holds (b b' : OrderBook) : Prop extends b.Advances b' where
  levels : b'.levels = b.levels
  market : b'.market = b.market
  epoch : b'.continuity.epoch = b.continuity.epoch
  live : b'.authority = .live → b.authority = .live

/-- No snapshot continues the stream within its epoch: it is lost, or its revisions are spent. -/
def Halted (b : OrderBook) : Prop := b.continuity.isLost = true ∨ u64Max ≤ b.revision

/-- The last report on the book stands: it is lost and not live, or its revisions are spent. -/
def Ceased (b : OrderBook) : Prop := (b.continuity.isLost = true ∧ b.authority ≠ .live) ∨ u64Max ≤ b.revision

variable {a b c b' : OrderBook}

theorem Advances.refl (b : OrderBook) : b.Advances b := ⟨Nat.le_refl _, Nat.le_refl _, .inl⟩

theorem Advances.trans (h₁ : a.Advances b) (h₂ : b.Advances c) : a.Advances c where
  epoch_le := h₁.epoch_le.trans h₂.epoch_le
  revision_le := h₁.revision_le.trans h₂.revision_le
  lost hl := by
    rcases h₁.lost hl with hb | hlt
    · rcases h₂.lost hb with hc | hlt
      · exact .inl hc
      · exact .inr (h₁.epoch_le.trans_lt hlt)
    · exact .inr (hlt.trans_le h₂.epoch_le)

theorem Holds.refl (b : OrderBook) : b.Holds b := ⟨.refl b, rfl, rfl, rfl, id⟩

theorem Holds.trans (h₁ : a.Holds b) (h₂ : b.Holds c) : a.Holds c :=
  ⟨h₁.toAdvances.trans h₂.toAdvances, h₂.levels.trans h₁.levels, h₂.market.trans h₁.market, h₂.epoch.trans h₁.epoch,
    fun h => h₁.live (h₂.live h)⟩

/-- Nothing short of a snapshot takes a book out of it. -/
theorem Ceased.holds (h : b.Ceased) (hb : b.Holds b') : b'.Ceased := by
  rcases h with ⟨hlost, hstale⟩ | hspent
  · rcases hb.lost hlost with hl | hlt
    · exact .inl ⟨hl, fun h => hstale (hb.live h)⟩
    · exact absurd hb.epoch (Nat.ne_of_gt hlt)
  · exact .inr (hspent.trans hb.revision_le)

theorem Ceased.spent (h : b.Ceased) (hlive : b.authority = .live) : u64Max ≤ b.revision :=
  h.resolve_left fun hstale => hstale.2 hlive

/-! ## Snapshots -/

section
variable {candidate : Candidate} {commit : BookCommit}

theorem Advances.applySnapshot (h : b.applySnapshot candidate = .ok (b', commit)) : b.Advances b' := by
  obtain ⟨_, _, -, -, -, -, step⟩ := applySnapshot_ok h
  cases step with
  | recoveryBase => exact ⟨by simp [accepted], by simp [accepted], fun _ => .inr (by simp [accepted])⟩
  | firstBase hc => exact ⟨by simp [accepted, hc], by simp [accepted], fun hl => by simp [hc] at hl⟩
  | checkpoint hc => exact ⟨by simp [accepted, hc], by simp [accepted], fun hl => by simp [hc] at hl⟩
  | diff hc => exact ⟨by simp [accepted, hc], by simp [accepted], fun hl => by simp [hc] at hl⟩

theorem applySnapshot_intact (h : b.applySnapshot candidate = .ok (b', commit)) : b'.continuity.isLost = false := by
  obtain ⟨_, _, -, -, -, -, step⟩ := applySnapshot_ok h
  cases step <;> simp [accepted]

theorem applySnapshot_revision (h : b.applySnapshot candidate = .ok (b', commit)) :
    b'.revision = b.revision + 1 ∧ b.revision + 1 ≤ u64Max := by
  obtain ⟨_, _, -, -, -, hrevision, step⟩ := applySnapshot_ok h
  refine ⟨?_, hrevision⟩
  cases step <;> rfl

theorem applySnapshot_market (h : b.applySnapshot candidate = .ok (b', commit)) : b'.market = b.market := by
  obtain ⟨_, _, -, -, -, -, step⟩ := applySnapshot_ok h
  cases step <;> rfl

/-- What a snapshot commits is live. -/
theorem applySnapshot_authority (h : b.applySnapshot candidate = .ok (b', commit)) : b'.authority = .live := by
  obtain ⟨_, _, -, -, -, -, step⟩ := applySnapshot_ok h
  cases step <;> rfl

/-- Whatever is applied after a stream halted is applied at a higher epoch. -/
theorem Halted.applySnapshot_epoch (ha : a.Halted) (hab : a.Advances b)
    (h : b.applySnapshot candidate = .ok (b', commit)) : a.continuity.epoch < b'.continuity.epoch := by
  rcases ha with hlost | hspent
  · rcases (hab.trans (.applySnapshot h)).lost hlost with hl | hlt
    · simp [applySnapshot_intact h] at hl
    · exact hlt
  · have hrevision := (applySnapshot_revision h).2
    have hle := hab.revision_le
    omega

end

/-! ## Losses, resolutions and unsubscribing -/

theorem Holds.reportContinuityLoss {continuity : ContinuityReason} {authority : AuthorityReason} {changed : Bool}
    (h : b.reportContinuityLoss continuity authority = .ok (b', changed)) : b.Holds b' := by
  rcases reportContinuityLoss_ok h with ⟨-, rfl, -⟩ | ⟨-, -, rfl⟩
  · exact .refl _
  · exact ⟨⟨by simp, by simp, fun _ => .inl (by simp)⟩, rfl, rfl, by simp, fun h => by simp at h⟩

theorem Holds.afterLoss (b : OrderBook) (continuity : ContinuityReason) (authority : AuthorityReason) :
    b.Holds (b.afterLoss continuity authority) := by
  unfold OrderBook.afterLoss
  split
  · rename_i h
    exact .reportContinuityLoss h
  · exact .refl b

/-- A loss report is refused only by a book whose revisions are spent. -/
theorem reportContinuityLoss_error {continuity : ContinuityReason} {authority : AuthorityReason} {error : BookError}
    (h : b.reportContinuityLoss continuity authority = .error error) : u64Max ≤ b.revision := by
  simp only [OrderBook.reportContinuityLoss] at h
  split at h
  · cases h
  · by_contra hfits
    have hadd : checkedAdd b.revision 1 = some (b.revision + 1) := checkedAdd_eq_some.2 ⟨by omega, rfl⟩
    simp [hadd, orError, bind, Except.bind] at h

/-- A book after a loss report: its stream is lost and it is stale for the reason given, or the report was refused. -/
theorem afterLoss_cases (b : OrderBook) (continuity : ContinuityReason) (authority : AuthorityReason) :
    ((b.afterLoss continuity authority).continuity.isLost = true ∧
        (b.afterLoss continuity authority).authority = .stale authority) ∨
      (b.afterLoss continuity authority = b ∧ u64Max ≤ b.revision) := by
  unfold OrderBook.afterLoss
  cases h : b.reportContinuityLoss continuity authority with
  | ok reported =>
    rcases reportContinuityLoss_ok h with ⟨-, heq, hlost, hstale⟩ | ⟨-, -, heq⟩
    · exact .inl (by simpa [heq] using ⟨hlost, hstale⟩)
    · exact .inl (by simp [heq])
  | error _ => exact .inr ⟨rfl, reportContinuityLoss_error h⟩

/-- Only a spent book is not lost and stale after a loss report. -/
theorem afterLoss_ceased (b : OrderBook) (continuity : ContinuityReason) (authority : AuthorityReason) :
    (b.afterLoss continuity authority).Ceased := by
  rcases b.afterLoss_cases continuity authority with ⟨hlost, hstale⟩ | ⟨heq, hspent⟩
  · exact .inl ⟨hlost, by simp [hstale]⟩
  · exact .inr (hspent.trans_eq (congrArg OrderBook.revision heq.symm))

theorem Holds.noteStreamEvent {cursor : MutationCursor} (h : b.noteStreamEvent = .ok (b', cursor)) : b.Holds b' := by
  obtain ⟨epoch, position, hc, -, -, rfl⟩ := noteStreamEvent_ok h
  exact ⟨⟨by simp [hc], Nat.le_refl _, fun hl => by simp [hc] at hl⟩, rfl, rfl, by simp [hc], id⟩

theorem Holds.unsubscribe {changed : Bool} (h : b.unsubscribe = .ok (b', changed)) : b.Holds b' := by
  rcases unsubscribe_ok h with ⟨-, rfl⟩ | ⟨-, -, rfl⟩
  · exact .refl _
  · exact ⟨⟨Nat.le_refl _, by simp, .inl⟩, rfl, rfl, rfl, fun h => by simp at h⟩

end OrderBook

end PmWs
