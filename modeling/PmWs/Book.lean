import PmWs.Lib.Fallible
import PmWs.Lib.Replay
import PmWs.Observation

/-!
# The authoritative order book

One writer, one level map. A snapshot, a source delta or an explicit loss
report changes the book or is refused whole; a refused call returns no book, so
the caller keeps the one it had.
-/

open MachineInt Fallible Std

namespace PmWs

abbrev PhysicalLevels := ExtTreeMap Coordinate Quantity Coordinate.cmp

/-! ## Keys -/

/-- Two keys are one where their sides are and their prices are one number. -/
theorem Coordinate.cmp_eq_iff (a b : Coordinate) :
    a.cmp b = .eq ↔ a.1 = b.1 ∧ a.2.value.toRat = b.2.value.toRat := by
  refine ⟨fun h => ?_, fun ⟨hside, hprice⟩ => ?_⟩
  · obtain rfl := LawfulEqCmp.eq_of_compare h
    exact ⟨rfl, rfl⟩
  · obtain rfl : a = b := Prod.ext hside (Price.ext_value (ExactDecimal.toRat_inj hprice))
    exact ReflCmp.compare_self

/-- The comparison orders any two coefficients and scales as the rationals they stand for. On normalized decimals that
is a total order whose equality is theirs, so a level map holds one entry for each side and exact price. -/
theorem decimal_order_exact :
    (∀ a b : DecimalParts, a.cmp b =
      compare ((a.coefficient : ℚ) * 10 ^ (-(a.scale : Int))) ((b.coefficient : ℚ) * 10 ^ (-(b.scale : Int)))) ∧
    (∀ a b : ExactDecimal, a.cmp b = a.parts.cmp b.parts ∧ a.cmp b = (b.cmp a).swap ∧ (a.cmp b = .eq ↔ a = b)) ∧
    (∀ a b c : ExactDecimal, (a.cmp b).isLE = true ∧ (b.cmp c).isLE = true → (a.cmp c).isLE = true) ∧
    ∀ (levels : PhysicalLevels) (key other : Coordinate) (quantity : Quantity), (levels.insert key quantity)[other]? =
      if key.1 = other.1 ∧ key.2.value.toRat = other.2.value.toRat then some quantity else levels[other]? := by
  have hrat (d : DecimalParts) : d.toRat = (d.coefficient : ℚ) * 10 ^ (-(d.scale : Int)) := by
    rw [zpow_neg, zpow_natCast, ← div_eq_mul_inv]
    rfl
  refine ⟨fun a b => ?_, fun a b => ⟨rfl, ?_, ?_⟩, fun a b c h => ?_, fun levels key other quantity => ?_⟩
  · rw [a.cmp_eq, hrat, hrat]
  · exact OrientedCmp.eq_swap
  · exact LawfulEqCmp.compare_eq_iff_eq
  · exact TransCmp.isLE_trans h.1 h.2
  · rw [ExtTreeMap.getElem?_insert]
    simp only [Coordinate.cmp_eq_iff]

/-- The least `i128` against one step above it at a scale no alignment reaches. -/
example : DecimalParts.cmp ⟨-2 ^ 127, 0, by decide, by decide⟩ ⟨-2 ^ 127 + 1, 40, by decide, by decide⟩ = .lt := by
  decide

/-! ## Complementary prices -/

/-- The representation grammar for locally derived prices. -/
def normalizedGrammar : DecimalGrammar :=
  { maxScale := u16Max, maxDigits := 39, allowExponent := false, allowNegative := false, maxLexemeBytes := 128,
    maxExponentDigits := 5, maxExponentMagnitude := 99999 }

example : DecimalGrammar.new u16Max 39 false false = .ok normalizedGrammar := rfl

def unitPrice : ExactDecimal := ⟨1, 0, by decide, Nat.zero_le _, by decide⟩

example : ExactDecimal.parse ['1'] normalizedGrammar = .ok unitPrice := by decide

/-- `1 - price` under the normalized grammar, or why it is not representable there. -/
def complementPrice (price : Price) : Except DecimalError Price := do
  let value ← price.value.complement unitPrice normalizedGrammar
  Price.parse value.canonical normalizedGrammar

/-! ## Commits -/

inductive BookError where
  | marketMismatch
  | unsupportedCandidateOperation
  | duplicateLevelCoordinate
  | emptyDelta
  | noEstablishedBase
  | continuityLost
  | capacityOutOfRange
  | counterOverflow
  | continuity (error : ReplicaError)
  | provenance (error : DescriptorError)
  | mutation (error : ObservationError)
  | nonComplementablePrice (error : DecimalError)
  | complement (error : DecimalError)
  deriving DecidableEq, Repr

structure MutationRecord where
  cursor : MutationCursor
  mutation : BookMutation

/-- A sync snapshot that disagreed with a delta-built book. -/
structure SyncDivergence where
  deltasInvalidated : Nat
  deriving DecidableEq, Repr

structure BookCommit where
  revision : Nat
  epoch : Nat
  recoveryBase : Bool
  divergence : Option SyncDivergence
  mutations : List MutationRecord

structure OrderBook where
  market : MarketRef
  levels : PhysicalLevels
  authority : AuthorityState
  continuity : MutationContinuity
  revision : Nat
  provenance : Option Provenance
  deltaRail : Bool
  deltasSinceSnapshot : Nat
  syncDivergences : Nat
  deriving DecidableEq

/-- An empty book awaiting its first snapshot. -/
def OrderBook.new (market : MarketRef) : OrderBook :=
  { market, levels := ∅, authority := .synchronizing, continuity := .intact 0 0, revision := 0, provenance := none,
    deltaRail := false, deltasSinceSnapshot := 0, syncDivergences := 0 }

/-! ## Level maps -/

/-- The entries that rest liquidity: exact-zero quantities excluded. -/
def resting (levels : PhysicalLevels) : List (Coordinate × Quantity) := levels.toList.filter fun entry => !entry.2.isZero

def economicallyEqual (left right : PhysicalLevels) : Bool := resting left = resting right

/-- The level map of a complete snapshot: every price complementable, no coordinate twice. -/
def collectLevels : List Level → PhysicalLevels → Except BookError PhysicalLevels
  | [], next => .ok next
  | level :: rest, next => do
    let _ ← (complementPrice level.price).mapError .nonComplementablePrice
    if level.coordinate ∈ next then .error .duplicateLevelCoordinate
    else collectLevels rest (next.insert level.coordinate level.quantity)

/-! ## Provenance of a commit -/

inductive Rebase where
  | latestState
  | sourceReportedDiff
  | derivedDiff
  deriving DecidableEq, Repr

def derivedFamily : String := "derived.snapshot-diff"

/-- Rebases venue-native provenance onto the book's revision and epoch. Only a derived diff is relabelled. -/
def rebaseProvenance (source : Provenance) (revision epoch : Nat) (kind : Rebase) : Except DescriptorError Provenance := do
  let relabelled : ProvenanceInput :=
    match kind with
    | .latestState | .sourceReportedDiff => source.toProvenanceInput
    | .derivedDiff =>
      { source.toProvenanceInput with
        nativeFamily := derivedFamily, sourceTimestamp := none, sourceEvidence := .empty,
        representation := .normalized, origin := .locallyDerived .snapshotDiff }
  let evidence ← BoundedSourceEvidence.new relabelled.sourceEvidence.values relabelled.sourceEvidence.values.length
  Provenance.new { relabelled with sourceEvidence := evidence, localRevision := revision, continuityEpoch := epoch }

/-! ## Emitting mutations -/

abbrev LevelChange := Replay.Change Coordinate Quantity

/-- The level a change puts at its coordinate. -/
def levelAt (coordinate : Coordinate) (quantity : Quantity) : Level := ⟨coordinate.1, coordinate.2, quantity⟩

/-- Records the changes whose value really changes, numbered from `firstPosition`, each built by `make` under the
rebased provenance. -/
def recordChanges (make : Provenance → Option Level → Option Level → Except ObservationError BookMutation)
    (rebased : Except DescriptorError Provenance) (epoch firstPosition : Nat) :
    List LevelChange → List MutationRecord → Except BookError (List MutationRecord)
  | [], mutations => .ok mutations
  | change :: rest, mutations =>
    if change.before = change.after then recordChanges make rebased epoch firstPosition rest mutations
    else do
      let position ← orError (checkedAdd firstPosition mutations.length) .counterOverflow
      let provenance ← rebased.mapError .provenance
      let level := levelAt change.key
      let mutation ← (make provenance (change.before.map level) (change.after.map level)).mapError .mutation
      recordChanges make rebased epoch firstPosition rest (mutations ++ [⟨⟨epoch, position⟩, mutation⟩])

/-- The changes between two level maps, in ascending coordinate order. -/
def snapshotChanges (previous next : PhysicalLevels) : List LevelChange :=
  (previous ∪ next).keys.map fun coordinate => ⟨coordinate, previous[coordinate]?, next[coordinate]?⟩

def deriveMutations (previous next : PhysicalLevels) (source : Provenance) (revision epoch firstPosition : Nat) :
    Except BookError (List MutationRecord) :=
  recordChanges BookMutation.snapshotDiff (rebaseProvenance source revision epoch .derivedDiff) epoch firstPosition
    (snapshotChanges previous next) []

/-- A delta's coordinates with the quantity they rest at: zero removes the coordinate. -/
def stageDelta : List Level → List Coordinate → Except BookError (List (Coordinate × Option Quantity))
  | [], _ => .ok []
  | level :: rest, seen => do
    let _ ← (complementPrice level.price).mapError .nonComplementablePrice
    if level.coordinate ∈ seen then .error .duplicateLevelCoordinate
    else do
      let staged ← stageDelta rest (level.coordinate :: seen)
      .ok ((level.coordinate, if level.quantity.isZero then none else some level.quantity) :: staged)

def deltaChanges (levels : PhysicalLevels) (staged : List (Coordinate × Option Quantity)) : List LevelChange :=
  staged.map fun entry => ⟨entry.1, levels[entry.1]?, entry.2⟩

namespace OrderBook

/-! ## The five calls -/

/-- Whether a snapshot contradicts the book the source deltas built. -/
def diverges (self : OrderBook) (next : PhysicalLevels) : Bool :=
  self.deltaRail && !self.continuity.isLost && !economicallyEqual self.levels next

/-- The stream a snapshot finds: a divergence breaks it first. -/
def brokenBy (self : OrderBook) (next : PhysicalLevels) : MutationContinuity :=
  if self.diverges next then self.continuity.markLost .syncDivergence else self.continuity

/-- A broken stream is recovered into a new epoch, an intact one continues. -/
def continueStream (broken : MutationContinuity) : Except BookError MutationContinuity :=
  if broken.isLost then (broken.recovered 0).mapError .continuity else .ok broken

/-- A base emits nothing, and neither does a checkpoint of a delta rail. -/
def snapshotMutations (self : OrderBook) (next : PhysicalLevels) (source : Provenance)
    (revision epoch nextPosition : Nat) : Except BookError (List MutationRecord) :=
  if (self.brokenBy next).isLost || self.provenance.isNone || self.deltaRail then .ok []
  else deriveMutations self.levels next source revision epoch nextPosition

def applySnapshot (self : OrderBook) (candidate : Candidate) : Except BookError (OrderBook × BookCommit) :=
  if candidate.provenance.market ≠ self.market then .error .marketMismatch
  else match candidate.operation with
  | .sourceDelta _ => .error .unsupportedCandidateOperation
  | .snapshot levels => do
    let next ← collectLevels levels.levels ∅
    let revision ← orError (checkedAdd self.revision 1) .counterOverflow
    let syncDivergences ←
      orError (if self.diverges next then checkedAdd self.syncDivergences 1 else some self.syncDivergences) .counterOverflow
    let continuity ← continueStream (self.brokenBy next)
    match continuity with
    | .lost _ _ => .error (.continuity .invalidTransition)
    | .intact epoch nextPosition =>
      let mutations ← self.snapshotMutations next candidate.provenance revision epoch nextPosition
      let provenance ← (rebaseProvenance candidate.provenance revision epoch .latestState).mapError .provenance
      let advanced ← (continuity.advanced mutations.length).mapError .continuity
      .ok ({ self with
              levels := next, continuity := advanced, revision := revision, authority := .live,
              provenance := some provenance, deltasSinceSnapshot := 0, syncDivergences := syncDivergences },
           { revision, epoch, recoveryBase := (self.brokenBy next).isLost,
             divergence := if self.diverges next then some ⟨self.deltasSinceSnapshot⟩ else none, mutations })

/-- The level map with every staged coordinate set or removed. -/
def applyStaged (levels : PhysicalLevels) (staged : List (Coordinate × Option Quantity)) : PhysicalLevels :=
  staged.foldl
    (fun levels entry =>
      match entry.2 with
      | some quantity => levels.insert entry.1 quantity
      | none => levels.erase entry.1)
    levels

def applySourceDelta (self : OrderBook) (candidate : Candidate) : Except BookError (OrderBook × BookCommit) :=
  if candidate.provenance.market ≠ self.market then .error .marketMismatch
  else match candidate.operation with
  | .snapshot _ => .error .unsupportedCandidateOperation
  | .sourceDelta levels =>
    if levels.levels = [] then .error .emptyDelta
    else if self.provenance = none then .error .noEstablishedBase
    else match self.continuity with
    | .lost _ _ => .error .continuityLost
    | .intact epoch nextPosition => do
      let staged ← stageDelta levels.levels []
      let revision ← orError (checkedAdd self.revision 1) .counterOverflow
      let mutations ←
        recordChanges BookMutation.sourceReported
          (rebaseProvenance candidate.provenance revision epoch .sourceReportedDiff) epoch nextPosition
          (deltaChanges self.levels staged) []
      let deltasSinceSnapshot ← orError (checkedAdd self.deltasSinceSnapshot 1) .counterOverflow
      let provenance ← (rebaseProvenance candidate.provenance revision epoch .latestState).mapError .provenance
      let advanced ← (self.continuity.advanced mutations.length).mapError .continuity
      .ok ({ self with
              levels := applyStaged self.levels staged, continuity := advanced, revision := revision,
              authority := .live, provenance := some provenance, deltaRail := true,
              deltasSinceSnapshot := deltasSinceSnapshot },
           { revision, epoch, recoveryBase := false, divergence := none, mutations })

/-- Ends the book's life as a subscribed market. Reports whether anything changed. -/
def unsubscribe (self : OrderBook) : Except BookError (OrderBook × Bool) :=
  if self.authority = .unsubscribed then .ok (self, false)
  else do
    let revision ← orError (checkedAdd self.revision 1) .counterOverflow
    .ok ({ self with revision := revision, authority := .unsubscribed }, true)

/-- Records evidence that the mutation stream broke. A repeated identical report changes nothing. -/
def reportContinuityLoss (self : OrderBook) (continuity : ContinuityReason) (authority : AuthorityReason) :
    Except BookError (OrderBook × Bool) :=
  if self.continuity.markLost continuity = self.continuity ∧ AuthorityState.stale authority = self.authority then
    .ok (self, false)
  else do
    let revision ← orError (checkedAdd self.revision 1) .counterOverflow
    .ok ({ self with
            revision := revision, continuity := self.continuity.markLost continuity, authority := .stale authority }, true)

/-- Allocates the next stream position for an event that changes no level. -/
def noteStreamEvent (self : OrderBook) : Except BookError (OrderBook × MutationCursor) :=
  match self.continuity with
  | .lost _ _ => .error .continuityLost
  | .intact epoch nextPosition => do
    let advanced ← (self.continuity.advanced 1).mapError .continuity
    .ok ({ self with continuity := advanced }, ⟨epoch, nextPosition⟩)

end OrderBook

end PmWs
