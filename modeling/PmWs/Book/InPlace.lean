import PmWs.Lib.Transactions
import PmWs.Book

/-!
# The book's calls in place

The five calls as the source writes them: on the book itself, one assignment
after another, with an early return wherever something fails. Each leaves what
the call of `PmWs.Book` returns, and the book it found when that one fails.
-/

open MachineInt Fallible Transactions

namespace PmWs

/-- A call on a book it may change. -/
abbrev BookM := EStateM BookError OrderBook

namespace BookM

def applySnapshot (candidate : Candidate) : BookM BookCommit := do
  let source := candidate.provenance
  check fun self => if source.market ≠ self.market then .error .marketMismatch else .ok ()
  match candidate.operation with
  | .sourceDelta _ => throw .unsupportedCandidateOperation
  | .snapshot levels =>
    let next ← check fun _ => collectLevels levels.levels ∅
    let revision ← check fun self => orError (checkedAdd self.revision 1) .counterOverflow
    let self ← get
    let syncDivergences ← check fun self =>
      orError (if self.diverges next then checkedAdd self.syncDivergences 1 else some self.syncDivergences) .counterOverflow
    let continuity ← check fun self => OrderBook.continueStream (self.brokenBy next)
    match continuity with
    | .lost _ _ => throw (.continuity .invalidTransition)
    | .intact epoch nextPosition =>
      let mutations ← check fun self => self.snapshotMutations next source revision epoch nextPosition
      let provenance ← check fun _ => (rebaseProvenance source revision epoch .latestState).mapError .provenance
      let advanced ← check fun _ => (continuity.advanced mutations.length).mapError .continuity
      update fun self => { self with continuity := advanced }
      update fun self => { self with levels := next }
      update fun self => { self with revision }
      update fun self => { self with authority := .live }
      update fun self => { self with provenance := some provenance }
      update fun self => { self with deltasSinceSnapshot := 0 }
      update fun self => { self with syncDivergences }
      return { revision, epoch, recoveryBase := (self.brokenBy next).isLost,
               divergence := if self.diverges next then some ⟨self.deltasSinceSnapshot⟩ else none, mutations }

def applySourceDelta (candidate : Candidate) : BookM BookCommit := do
  let source := candidate.provenance
  check fun self => if source.market ≠ self.market then .error .marketMismatch else .ok ()
  match candidate.operation with
  | .snapshot _ => throw .unsupportedCandidateOperation
  | .sourceDelta levels =>
    check fun _ => if levels.levels = [] then .error .emptyDelta else .ok ()
    check fun self => if self.provenance = none then .error .noEstablishedBase else .ok ()
    match (← get).continuity with
    | .lost _ _ => throw .continuityLost
    | .intact epoch nextPosition =>
      let staged ← check fun _ => stageDelta levels.levels []
      let revision ← check fun self => orError (checkedAdd self.revision 1) .counterOverflow
      let mutations ← check fun self =>
        recordChanges BookMutation.sourceReported (rebaseProvenance source revision epoch .sourceReportedDiff) epoch
          nextPosition (deltaChanges self.levels staged) []
      let deltasSinceSnapshot ← check fun self => orError (checkedAdd self.deltasSinceSnapshot 1) .counterOverflow
      let provenance ← check fun _ => (rebaseProvenance source revision epoch .latestState).mapError .provenance
      let advanced ← check fun self => (self.continuity.advanced mutations.length).mapError .continuity
      update fun self => { self with levels := OrderBook.applyStaged self.levels staged }
      update fun self => { self with continuity := advanced }
      update fun self => { self with revision }
      update fun self => { self with authority := .live }
      update fun self => { self with provenance := some provenance }
      update fun self => { self with deltaRail := true }
      update fun self => { self with deltasSinceSnapshot }
      return { revision, epoch, recoveryBase := false, divergence := none, mutations }

def unsubscribe : BookM Bool := do
  if (← get).authority = .unsubscribed then return false
  let revision ← check fun self => orError (checkedAdd self.revision 1) .counterOverflow
  update fun self => { self with revision }
  update fun self => { self with authority := .unsubscribed }
  return true

def reportContinuityLoss (continuity : ContinuityReason) (authority : AuthorityReason) : BookM Bool := do
  let self ← get
  let nextContinuity := self.continuity.markLost continuity
  let nextAuthority := AuthorityState.stale authority
  if nextContinuity = self.continuity ∧ nextAuthority = self.authority then return false
  let revision ← check fun self => orError (checkedAdd self.revision 1) .counterOverflow
  update fun self => { self with revision }
  update fun self => { self with continuity := nextContinuity }
  update fun self => { self with authority := nextAuthority }
  return true

def noteStreamEvent : BookM MutationCursor := do
  match (← get).continuity with
  | .lost _ _ => throw .continuityLost
  | .intact epoch nextPosition =>
    let advanced ← check fun self => (self.continuity.advanced 1).mapError .continuity
    update fun self => { self with continuity := advanced }
    return ⟨epoch, nextPosition⟩

/-! ## What they leave -/

variable (self : OrderBook)

theorem applySnapshot_settle (candidate : Candidate) :
    applySnapshot candidate self = settle (self.applySnapshot candidate) self := by
  unfold applySnapshot OrderBook.applySnapshot
  refine refuse_bind_settle ?_
  cases candidate.operation with
  | sourceDelta levels => rfl
  | snapshot levels =>
    refine check_bind_settle fun next => ?_
    refine check_bind_settle fun revision => ?_
    rw [get_bind]
    refine check_bind_settle fun syncDivergences => ?_
    refine check_bind_settle fun continuity => ?_
    cases continuity with
    | lost epoch reason => rfl
    | intact epoch nextPosition =>
      refine check_bind_settle fun mutations => ?_
      refine check_bind_settle fun provenance => ?_
      exact check_bind_settle fun advanced => rfl

theorem applySourceDelta_settle (candidate : Candidate) :
    applySourceDelta candidate self = settle (self.applySourceDelta candidate) self := by
  unfold applySourceDelta OrderBook.applySourceDelta
  refine refuse_bind_settle ?_
  cases candidate.operation with
  | snapshot levels => rfl
  | sourceDelta levels =>
    refine refuse_bind_settle (refuse_bind_settle ?_)
    rw [get_bind]
    cases hcontinuity : self.continuity with
    | lost epoch reason => rfl
    | intact epoch nextPosition =>
      refine check_bind_settle fun staged => ?_
      refine check_bind_settle fun revision => ?_
      refine check_bind_settle fun mutations => ?_
      refine check_bind_settle fun deltasSinceSnapshot => ?_
      refine check_bind_settle fun provenance => ?_
      rw [← hcontinuity]
      exact check_bind_settle fun advanced => rfl

theorem unsubscribe_settle : unsubscribe self = settle self.unsubscribe self := by
  unfold unsubscribe OrderBook.unsubscribe
  rw [get_bind]
  split
  · rfl
  · exact check_bind_settle fun revision => rfl

theorem reportContinuityLoss_settle (continuity : ContinuityReason) (authority : AuthorityReason) :
    reportContinuityLoss continuity authority self = settle (self.reportContinuityLoss continuity authority) self := by
  unfold reportContinuityLoss OrderBook.reportContinuityLoss
  rw [get_bind]
  split
  · rfl
  · exact check_bind_settle fun revision => rfl

theorem noteStreamEvent_settle : noteStreamEvent self = settle self.noteStreamEvent self := by
  unfold noteStreamEvent OrderBook.noteStreamEvent
  rw [get_bind]
  cases hcontinuity : self.continuity with
  | lost epoch reason => rfl
  | intact epoch nextPosition =>
    dsimp only
    rw [← hcontinuity]
    exact check_bind_settle fun advanced => rfl

end BookM

end PmWs
