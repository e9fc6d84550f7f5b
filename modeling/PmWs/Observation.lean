import Mathlib.Data.Prod.Lex
import PmWs.Numeric.Lexeme
import PmWs.State

/-!
# What a venue reported

Market identity, provenance, levels, candidates and level changes. Each type
carries the checks of its constructor as fields, so a value that exists has
passed them.
-/

open MachineInt

namespace PmWs

/-! ## Identity -/

/-- A non-empty text of at most `max` bytes: every native identifier of the crate. -/
structure NativeText (max : Nat) where
  value : String
  nonempty : value ≠ ""
  size_le : value.utf8ByteSize ≤ max
  deriving DecidableEq

def NativeText.new (max : Nat) (value : String) : Option (NativeText max) :=
  if h : value ≠ "" ∧ value.utf8ByteSize ≤ max then some ⟨value, h.1, h.2⟩ else none

abbrev Venue := NativeText 128
abbrev NativeIdentifierKind := NativeText 128
abbrev SourceTimestamp := NativeText 256
abbrev SourceEvidenceValue := NativeText 1024
abbrev SourceFieldPath := NativeText 256
abbrev OriginalDecimalLexeme := NativeText 256

structure NativeMarketKey where
  kind : NativeIdentifierKind
  value : NativeText 1024
  deriving DecidableEq

structure MarketRef where
  venue : Venue
  key : NativeMarketKey
  deriving DecidableEq

inductive NativeOutcomeKind where
  | token
  | side
  | venueDefined
  deriving DecidableEq, Repr

inductive NativeOutcome where
  | text (kind : NativeOutcomeKind) (value : NativeText 1024)
  | index (value : UInt16)
  deriving DecidableEq

structure ConnectionIdentity where
  value : NativeText 256
  generation : Nat
  deriving DecidableEq

/-- The venue this crate's adapter speaks for. -/
def limitlessVenue : Venue := ⟨"limitless", by decide, by decide⟩

/-- `NativeIdentifierKind::slug`. -/
def slugKind : NativeIdentifierKind := ⟨"slug", by decide, by decide⟩

/-- The reference of a market known by its slug, when the slug is a valid native identifier. -/
def marketOfSlug (slug : String) : Option MarketRef :=
  (NativeText.new 1024 slug).map fun value => ⟨limitlessVenue, slugKind, value⟩

/-! ## Provenance -/

inductive Representation where
  | venueNative
  | normalized
  deriving DecidableEq, Repr

inductive Derivation where
  | snapshotDiff
  deriving DecidableEq, Repr

inductive Origin where
  | sourceReported
  | normalizedFromSource
  | locallyDerived (derivation : Derivation)
  deriving DecidableEq, Repr

inductive ReplicaRole where
  | publishingPrimary
  | hotStandby
  | recovery
  deriving DecidableEq, Repr

inductive SourceEvidence where
  | sequence (value : SourceEvidenceValue)
  | version (value : SourceEvidenceValue)
  | checksum (value : SourceEvidenceValue)
  | hash (value : SourceEvidenceValue)
  | eventId (value : SourceEvidenceValue)
  | numericLexeme (field : SourceFieldPath) (lexeme : OriginalDecimalLexeme)
  deriving DecidableEq

inductive DescriptorError where
  | invalidSourceEvidence
  | capacityExceeded
  deriving DecidableEq, Repr

def maxSourceEvidence : Nat := 64

/-- The evidence list of one provenance, bounded by its capacity. -/
structure BoundedSourceEvidence where
  values : List SourceEvidence
  capacity : Nat
  capacity_le : capacity ≤ maxSourceEvidence
  length_le : values.length ≤ capacity
  deriving DecidableEq

def BoundedSourceEvidence.empty : BoundedSourceEvidence := ⟨[], 0, by decide, by decide⟩

def BoundedSourceEvidence.new (values : List SourceEvidence) (capacity : Nat) :
    Except DescriptorError BoundedSourceEvidence :=
  if h : capacity ≤ maxSourceEvidence ∧ values.length ≤ capacity then .ok ⟨values, capacity, h.1, h.2⟩
  else .error .capacityExceeded

structure ProvenanceInput where
  market : MarketRef
  outcome : Option NativeOutcome
  nativeFamily : String
  sourceTimestamp : Option SourceTimestamp
  sourceEvidence : BoundedSourceEvidence
  daemonGeneration : Nat
  connection : ConnectionIdentity
  subscriptionGeneration : Nat
  receivePosition : Nat
  commitPosition : Nat
  localReceiveTime : Nat
  localCommitTime : Nat
  replica : ReplicaRole
  representation : Representation
  origin : Origin
  localRevision : Nat
  continuityEpoch : Nat
  deriving DecidableEq

/-- Which representation each origin is labelled with. -/
def Origin.pairs : Representation → Origin → Bool
  | .venueNative, .sourceReported => true
  | .normalized, .normalizedFromSource => true
  | .normalized, .locallyDerived _ => true
  | _, _ => false

/-- The checks of `Provenance::new`. An evidence value's own length is already bounded by its type. -/
def ProvenanceInput.wellFormed (input : ProvenanceInput) : Bool :=
  input.nativeFamily ≠ "" && input.nativeFamily.utf8ByteSize ≤ 256 &&
    input.receivePosition ≤ input.commitPosition && input.localReceiveTime ≤ input.localCommitTime &&
    Origin.pairs input.representation input.origin

structure Provenance extends ProvenanceInput where
  valid : toProvenanceInput.wellFormed = true
  deriving DecidableEq

def Provenance.new (input : ProvenanceInput) : Except DescriptorError Provenance :=
  if h : input.wellFormed = true then .ok ⟨input, h⟩ else .error .invalidSourceEvidence

/-! ## Levels and candidates -/

inductive Side where
  | bid
  | ask
  deriving DecidableEq, Repr

def Side.rank : Side → Nat
  | .bid => 0
  | .ask => 1

structure Level where
  side : Side
  price : Price
  quantity : Quantity
  deriving DecidableEq

/-- The key of the level map. -/
abbrev Coordinate := Side × Price

def Level.coordinate (level : Level) : Coordinate := (level.side, level.price)

/-- `(side, price)` order: every bid before every ask, each side ascending by price. -/
def Coordinate.cmp (a b : Coordinate) : Ordering := (compare a.1.rank b.1.rank).then (a.2.cmp b.2)

theorem Coordinate.cmp_eq_compareLex :
    Coordinate.cmp = compareLex (compareOn fun c => c.1.rank) (compareOn fun c => c.2.value.toRat) := by
  funext a b
  simp only [Coordinate.cmp, compareLex, compareOn, Price.cmp, ExactDecimal.cmp_eq]

instance : Std.TransCmp Coordinate.cmp := Coordinate.cmp_eq_compareLex ▸ inferInstance

instance : Std.LawfulEqCmp Coordinate.cmp where
  eq_of_compare {a b} h := by
    simp only [Coordinate.cmp, Ordering.then_eq_eq, Price.cmp] at h
    have hside : a.1 = b.1 := by
      have := h.1
      cases ha : a.1 <;> cases hb : b.1 <;> simp_all [Side.rank]
    exact Prod.ext hside (Price.ext_value (Std.LawfulEqCmp.eq_of_compare h.2))

inductive ObservationError where
  | capacityZero
  | capacityExceeded
  | invalidOrigin
  | emptyMutation
  | mismatchedMutationCoordinate
  | emptyLabel
  | labelTooLong
  deriving DecidableEq, Repr

structure LevelCapacity where
  value : Nat
  pos : 0 < value
  deriving DecidableEq

structure BoundedLevels where
  levels : List Level
  capacity : LevelCapacity
  length_le : levels.length ≤ capacity.value
  deriving DecidableEq

def BoundedLevels.new (levels : List Level) (capacity : LevelCapacity) : Except ObservationError BoundedLevels :=
  if h : levels.length ≤ capacity.value then .ok ⟨levels, capacity, h⟩ else .error .capacityExceeded

inductive CandidateOperation where
  | snapshot (levels : BoundedLevels)
  | sourceDelta (levels : BoundedLevels)
  deriving DecidableEq

/-- Which provenance each operation accepts. -/
def CandidateOperation.admits (provenance : Provenance) : CandidateOperation → Bool
  | .snapshot _ => match provenance.origin with
    | .locallyDerived _ => false
    | _ => true
  | .sourceDelta _ => provenance.representation = .venueNative && provenance.origin = .sourceReported

structure Candidate where
  provenance : Provenance
  operation : CandidateOperation
  admitted : operation.admits provenance = true
  deriving DecidableEq

def Candidate.snapshot (provenance : Provenance) (levels : BoundedLevels) : Except ObservationError Candidate :=
  if h : (CandidateOperation.snapshot levels).admits provenance = true then .ok ⟨provenance, .snapshot levels, h⟩
  else .error .invalidOrigin

/-! ## Level changes -/

/-- One level change: some side of it is present, and both sides name one coordinate. -/
structure BookMutation where
  provenance : Provenance
  old : Option Level
  replacement : Option Level
  nonempty : old ≠ none ∨ replacement ≠ none
  sameCoordinate : ∀ o ∈ old, ∀ r ∈ replacement, o.coordinate = r.coordinate

def BookMutation.coordinateChange (provenance : Provenance) (old replacement : Option Level) :
    Except ObservationError BookMutation :=
  if hn : old ≠ none ∨ replacement ≠ none then
    if hc : ∀ o ∈ old, ∀ r ∈ replacement, o.coordinate = r.coordinate then
      .ok ⟨provenance, old, replacement, hn, hc⟩
    else .error .mismatchedMutationCoordinate
  else .error .emptyMutation

def BookMutation.snapshotDiff (provenance : Provenance) (old replacement : Option Level) :
    Except ObservationError BookMutation :=
  if provenance.origin = .locallyDerived .snapshotDiff ∧ provenance.representation = .normalized then
    coordinateChange provenance old replacement
  else .error .invalidOrigin

def BookMutation.sourceReported (provenance : Provenance) (old replacement : Option Level) :
    Except ObservationError BookMutation :=
  if provenance.origin = .sourceReported then coordinateChange provenance old replacement
  else .error .invalidOrigin

/-- The coordinate a level change is about: the one both its sides name. -/
def BookMutation.coordinate (mutation : BookMutation) : Coordinate :=
  ((mutation.replacement.or mutation.old).get (by
    rcases mutation.nonempty with h | h <;> simp [Option.isSome_iff_ne_none, h])).coordinate

theorem BookMutation.coordinateChange_ok {p : Provenance} {old new : Option Level} {m : BookMutation}
    (h : coordinateChange p old new = .ok m) : m.old = old ∧ m.replacement = new := by
  unfold coordinateChange at h
  split at h
  · split at h
    · cases h; exact ⟨rfl, rfl⟩
    · cases h
  · cases h

theorem BookMutation.snapshotDiff_ok {p : Provenance} {old new : Option Level} {m : BookMutation}
    (h : snapshotDiff p old new = .ok m) : m.old = old ∧ m.replacement = new := by
  unfold snapshotDiff at h
  split at h
  · exact coordinateChange_ok h
  · cases h

theorem BookMutation.sourceReported_ok {p : Provenance} {old new : Option Level} {m : BookMutation}
    (h : sourceReported p old new = .ok m) : m.old = old ∧ m.replacement = new := by
  unfold sourceReported at h
  split at h
  · exact coordinateChange_ok h
  · cases h

/-! ## Resolutions -/

abbrev NativeLabel := NativeText 1024
abbrev NativeDeliveryPath := NativeText 256

inductive DeliveryPath where
  | marketFeed
  | lifecycleFeed
  | resolutionFeed
  | otherNativePath (path : NativeDeliveryPath)
  deriving DecidableEq

/-- A venue-reported resolution. A locally derived provenance cannot carry one. -/
structure MarketResolution where
  provenance : Provenance
  winner : NativeOutcome
  nativeLabel : NativeLabel
  deliveryPath : DeliveryPath
  winningIndex : UInt32
  resolutionDate : SourceTimestamp
  reported : ∀ derivation, provenance.origin ≠ .locallyDerived derivation

/-! ## A market to evaluate on -/

def exampleMarket : MarketRef := ⟨limitlessVenue, slugKind, "btc-up", by decide, by decide⟩

def exampleProvenance : Provenance :=
  { market := exampleMarket, outcome := none, nativeFamily := "orderbookUpdate", sourceTimestamp := none,
    sourceEvidence := .empty, daemonGeneration := 1,
    connection := ⟨⟨"ws.limitless.exchange", by decide, by decide⟩, 1⟩, subscriptionGeneration := 1,
    receivePosition := 1, commitPosition := 1, localReceiveTime := 0, localCommitTime := 0,
    replica := .publishingPrimary, representation := .venueNative, origin := .sourceReported, localRevision := 0,
    continuityEpoch := 0, valid := by decide }

instance neZeroNine : NeZero 9 := ⟨by decide⟩

instance neZeroThousand : NeZero 1000 := ⟨by decide⟩

/-- A level at `tenths / 10`. -/
def exampleLevel (side : Side) (tenths : Fin 9) (size : Fin 1000) : Level :=
  ⟨side,
    ⟨⟨tenths.val + 1, 1, by have := tenths.isLt; constructor <;> omega, by decide,
      by have := tenths.isLt; omega⟩, by simp; omega⟩,
    ⟨⟨size.val, 0, by have := size.isLt; constructor <;> omega, Nat.zero_le _, by simp⟩, by simp⟩⟩

def exampleCapacity : LevelCapacity := ⟨8, by decide⟩

def exampleSnapshot (levels : List Level) (fits : levels.length ≤ 8) : Candidate :=
  ⟨exampleProvenance, .snapshot ⟨levels, exampleCapacity, fits⟩, by rfl⟩

end PmWs
