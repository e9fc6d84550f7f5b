import PmWs.Dedup
import PmWs.Shm.Writer

/-!
# What a Limitless connection reports

The decoded events of the venue's market feed, the notices a connection task
hands to whoever runs it, why a connection ends, and what an event becomes in
the venue-agnostic vocabulary: a dedup key, a snapshot candidate, a resolution.
-/

open MachineInt Fallible

namespace PmWs

/-! ## Events -/

/-- A complete book as the venue reported it. `timestamp` and `version` are uninterpreted lexemes. -/
structure OrderbookUpdate where
  marketSlug : String
  tokenId : Option String
  bids : List (Price × Quantity)
  asks : List (Price × Quantity)
  timestamp : String
  version : Option String

structure MarketResolved where
  slug : String
  marketType : String
  winningOutcome : String
  winningIndex : UInt32
  resolutionDate : String

inductive LimitlessEvent where
  | orderbookUpdate (update : OrderbookUpdate)
  | marketResolved (resolved : MarketResolved)
  | unknown (name : String)

def orderbookUpdateEvent : String := "orderbookUpdate"
def marketResolvedEvent : String := "marketResolved"

/-- The venue's version field orders one connection-session's frames, by observation. -/
def orderbookUpdateDedupKey : DedupKeyDeclaration := ⟨"limitless", orderbookUpdateEvent, "version", .sessionMonotone⟩

/-- The one name every connection of this feed goes by. -/
def connectionName : NativeText 256 := ⟨"limitless-markets", by decide, by decide⟩

/-- When a frame was read and when it is being committed, on the run's own clock. -/
structure FrameTimes where
  receivedAt : Nat
  committedAt : Nat

namespace OrderbookUpdate

def dedupKey (self : OrderbookUpdate) : Except DedupKeyError (Option DedupKey) :=
  match self.version with
  | none => .ok none
  | some version => (DedupKey.parseExactInteger version).map some

/-- The key both rails judge an arrival by: a key that does not parse is no key. -/
def arrivalKey (self : OrderbookUpdate) : Option DedupKey := self.dedupKey.toOption.join

def versionEvidence (self : OrderbookUpdate) : Except DescriptorError (Option SourceEvidence) :=
  match self.version with
  | none => .ok none
  | some version => (orError (NativeText.new 1024 version) .invalidSourceEvidence).map fun value => some (.version value)

/-- Every bid, then every ask, in the venue's order. -/
def levels (self : OrderbookUpdate) : List Level :=
  (self.bids.map fun entry => ⟨.bid, entry.1, entry.2⟩) ++ self.asks.map fun entry => ⟨.ask, entry.1, entry.2⟩

def snapshotCandidate (self : OrderbookUpdate) (provenance : Provenance) (capacity : LevelCapacity) :
    Except ObservationError Candidate :=
  if provenance.representation = .venueNative ∧ provenance.origin = .sourceReported then do
    let bounded ← BoundedLevels.new self.levels capacity
    Candidate.snapshot provenance bounded
  else .error .invalidOrigin

/-- The outcome the venue's token names. -/
def outcome (self : OrderbookUpdate) : Except DescriptorError (Option NativeOutcome) :=
  match self.tokenId with
  | none => .ok none
  | some token => (orError (NativeText.new 1024 token) .invalidSourceEvidence).map fun value => some (.text .token value)

def sourceEvidence (self : OrderbookUpdate) : Except DescriptorError BoundedSourceEvidence := do
  match ← self.versionEvidence with
  | some evidence => BoundedSourceEvidence.new [evidence] 1
  | none => BoundedSourceEvidence.new [] 0

/-- The provenance both rails stamp an update with. The book rebases its revision and epoch on commit. -/
def provenance (self : OrderbookUpdate) (market : MarketRef) (daemonGeneration position : Nat) (times : FrameTimes)
    (generation subscription : Nat) (replica : ReplicaRole) : Except DescriptorError Provenance := do
  let outcome ← self.outcome
  let sourceEvidence ← self.sourceEvidence
  let timestamp ← orError (NativeText.new 256 self.timestamp) .invalidSourceEvidence
  Provenance.new
    { market, outcome, nativeFamily := orderbookUpdateEvent, sourceTimestamp := some timestamp, sourceEvidence,
      daemonGeneration, connection := ⟨connectionName, generation⟩, subscriptionGeneration := subscription,
      receivePosition := position, commitPosition := position, localReceiveTime := times.receivedAt,
      localCommitTime := times.committedAt, replica, representation := .venueNative, origin := .sourceReported,
      localRevision := 0, continuityEpoch := 0 }

end OrderbookUpdate

/-- The observation both rails record a venue resolution as, when its texts fit the vocabulary. -/
def MarketResolved.resolution (self : MarketResolved) (market : MarketRef) (book : OrderBook)
    (daemonGeneration position : Nat) (times : FrameTimes) (generation subscription : Nat) (replica : ReplicaRole) :
    Option MarketResolution := do
  let winner ← NativeText.new 1024 self.winningOutcome
  let nativeLabel ← NativeText.new 1024 self.marketType
  let resolutionDate ← NativeText.new 256 self.resolutionDate
  let input : ProvenanceInput :=
    { market, outcome := none, nativeFamily := marketResolvedEvent,
      sourceTimestamp := some resolutionDate, sourceEvidence := .empty, daemonGeneration,
      connection := ⟨connectionName, generation⟩, subscriptionGeneration := subscription,
      receivePosition := position, commitPosition := position, localReceiveTime := times.receivedAt,
      localCommitTime := times.committedAt, replica, representation := .venueNative, origin := .sourceReported,
      localRevision := book.revision, continuityEpoch := book.continuity.epoch }
  if valid : input.wellFormed = true then
    some ⟨⟨input, valid⟩, .text .venueDefined winner, nativeLabel, .marketFeed, self.winningIndex, resolutionDate,
      fun _ h => by cases h⟩
  else none

/-- Whether the fixed cells of a segment's event slot carry the report verbatim. -/
def resolutionFitsTheRing (resolution : MarketResolution) : Bool :=
  (resolution.winner.textValue.any fun outcome => outcome.utf8ByteSize ≤ resOutcomeCapacity) &&
    resolution.nativeLabel.value.utf8ByteSize ≤ resTypeCapacity &&
    resolution.resolutionDate.value.utf8ByteSize ≤ resDateCapacity

/-! ## Notices -/

/-- What one connection has to say to whoever runs it. -/
inductive ConnectionNote where
  | ready (heartbeatDeadline subscription observedAt : Nat)
  | heartbeat (observedAt : Nat)
  | resubscribed (subscription : Nat)
  | event (event : LimitlessEvent) (times : FrameTimes) (subscription : Nat)
  | decodeFailure (bookRelevant : Bool)
  | overload (dropped : Nat)

inductive TerminalFrameReason where
  | engineIoClose
  | namespaceDisconnect
  | namespaceConnectError
  deriving DecidableEq, Repr

inductive ConnectionEndReason where
  | connectFailed
  | connectTimedOut
  | handshakeFailed
  | handshakeTimedOut
  | subscribeFailed
  | socketClosed
  | readFailed
  | writeFailed
  | terminal (reason : TerminalFrameReason)
  | captureFailed
  | noticeUndeliverable
  | resubscribeTimedOut
  | subscriptionReplaced
  | heartbeatTimeout
  | taskFailed
  deriving DecidableEq, Repr

/-- How a closed connection is reported to a book. -/
def endReasonMapping (reason : ConnectionEndReason) : ContinuityReason × AuthorityReason :=
  (.reconnect,
    match reason with
    | .terminal .namespaceDisconnect | .terminal .namespaceConnectError | .resubscribeTimedOut
    | .subscriptionReplaced => .subscriptionLost
    | .captureFailed | .taskFailed => .localLoss
    | .noticeUndeliverable => .overload
    | _ => .disconnect)

/-! ## Slots and liveness -/

/-- A connection role: the publishing one, or one of the others. -/
inductive Slot where
  | primary
  | standby (index : Nat)
  deriving DecidableEq, Repr

namespace Slot

def role : Slot → ReplicaRole
  | primary => .publishingPrimary
  | standby _ => .hotStandby

/-- The role's place in the socket order. -/
def index : Slot → Nat
  | primary => 0
  | standby index => index + 1

def fromIndex : Nat → Slot
  | 0 => primary
  | index + 1 => standby index

end Slot

/-- One look at the clock and at the connection tasks: the instant, and which generations' tasks have finished. -/
structure Look where
  now : Nat
  finished : Nat → Bool

/-- The last key each connection generation handed over for each market. Nothing in either rail reads it. -/
abbrev KeyLog := Nat → String → Option Nat

def KeyLog.note (self : KeyLog) (generation : Nat) (update : OrderbookUpdate) : KeyLog := fun g slug =>
  if g = generation ∧ slug = update.marketSlug then (update.arrivalKey.bind (·.asInteger)).or (self g slug)
  else self g slug

/-- The update's key is an integer, not below the last one its generation handed over for the market. -/
def KeyLog.Ascends (self : KeyLog) (generation : Nat) (update : OrderbookUpdate) : Prop :=
  ∃ key, update.arrivalKey = some (.integer key) ∧ ∀ last ∈ self generation update.marketSlug, last ≤ key

instance (log : KeyLog) (generation : Nat) (update : OrderbookUpdate) : Decidable (log.Ascends generation update) :=
  match h : update.arrivalKey with
  | none | some (.lexeme _) => isFalse fun ⟨_, hkey, _⟩ => by simp [h] at hkey
  | some (.integer key) =>
    decidable_of_iff (∀ last ∈ log generation update.marketSlug, last ≤ key)
      ⟨fun hall => ⟨key, h, hall⟩, fun ⟨_, hkey, hall⟩ => by
        rw [h] at hkey
        cases hkey
        exact hall⟩

/-- Under ascending keys, a generation that stands at a key stays there. -/
theorem KeyLog.stands_note {log : KeyLog} {generation g key last : Nat} {slug : String} {update : OrderbookUpdate}
    (ha : log.Ascends generation update) (h : log g slug = some last) (hle : key ≤ last) :
    ∃ last', log.note generation update g slug = some last' ∧ key ≤ last' := by
  unfold KeyLog.note
  split
  · rename_i heq
    obtain ⟨rfl, rfl⟩ := heq
    obtain ⟨k, hk, hall⟩ := ha
    exact ⟨k, by simp [hk], hle.trans (hall last h)⟩
  · exact ⟨last, h, hle⟩

/-! ## Agreement -/

inductive DivergenceReason where
  | contentMismatch
  | continuityMismatch
  deriving DecidableEq, Repr

/-- The comparison verdict for a standby whose connection is alive. -/
inductive StandbyState where
  | agreeing
  | divergent (reason : DivergenceReason)
  deriving DecidableEq, Repr

/-- Same market, and level by level the same side, price and size by exact value. -/
def PublishedBook.economicallyEqual (left right : PublishedBook) : Bool :=
  left.market = right.market && left.levels.length = right.levels.length &&
    (left.levels.zip right.levels).all fun pair =>
      pair.1.side = pair.2.side && pair.1.price.cmp pair.2.price = .eq &&
        pair.1.quantity.value.cmp pair.2.quantity.value = .eq

def agreement (shadow : OrderBook) (published : PublishedBook) : StandbyState :=
  if shadow.authority ≠ .live then .divergent .continuityMismatch
  else if shadow.publish.economicallyEqual published then .agreeing
  else .divergent .contentMismatch

/-- Why a refused promotion costs the book its authority. -/
def refusalReason (verdict : StandbyState) (ended : ConnectionEndReason) : AuthorityReason :=
  match verdict with
  | .divergent .contentMismatch => .replicaDivergence
  | _ => (endReasonMapping ended).2

/-- The book after a loss report. A report the book refuses is only counted. -/
def OrderBook.afterLoss (self : OrderBook) (continuity : ContinuityReason) (authority : AuthorityReason) : OrderBook :=
  match self.reportContinuityLoss continuity authority with
  | .ok (book, _) => book
  | .error _ => self

end PmWs
