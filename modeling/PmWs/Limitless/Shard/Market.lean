import PmWs.Limitless.Shard.Segment
import PmWs.Pool

/-!
# One market of a shard

A market's entry holds its published book, its gate and what its recovery has
come to. It remembers the set version it was installed at, so that a connection
never feeds an entry it did not subscribe. Every pass of the shard over its
markets is a function of one entry, saying also what is published of it.
-/

open MachineInt

namespace PmWs

/-! ## Markets -/

inductive MarketRejection where
  | invalidIdentifier
  | capacityExceeded
  | deliveryUnavailable
  deriving DecidableEq, Repr

inductive SubscriptionState where
  | desired
  | subscribing
  | established
  | removing
  deriving DecidableEq, Repr

inductive MarketStatus where
  | rejected (rejection : MarketRejection)
  | accepted
  | reconciling
  | live
  | stale (reason : AuthorityReason)
  | removed
  deriving DecidableEq, Repr

def MarketStatus.isRejected : MarketStatus → Bool
  | rejected _ => true
  | _ => false

structure MarketOutcome where
  slug : String
  status : MarketStatus
  deriving DecidableEq, Repr

inductive InstallRefusal where
  | identity
  | delivery (error : WriterError)
  | streamNotRebased
  | resumeUnavailable
  deriving DecidableEq, Repr

def InstallRefusal.rejection : InstallRefusal → MarketRejection
  | identity => .invalidIdentifier
  | delivery _ | streamNotRebased | resumeUnavailable => .deliveryUnavailable

def InstallRefusal.ofSegment : SegmentRefusal → InstallRefusal
  | .writer error => delivery error
  | .streamNotRebased => streamNotRebased

/-- The bit of a socket position in a set of sockets. -/
def socketBit (socket : Nat) : BitVec 8 := 1#8 <<< socket

/-- One market of the shard. `socketsAtPublished` is the set of sockets whose session has delivered the key the market's
gate published last. -/
structure MarketEntry where
  market : MarketRef
  book : OrderBook
  desired : Bool
  subscription : SubscriptionState
  subscribedFrom : Option Nat
  dialled : Bool
  baseAccepted : Bool
  basedThisGeneration : Bool
  recoveryAttempts : Nat
  unavailableReported : Bool
  installedVersion : Nat
  latestResolution : Option MarketResolution
  gate : Option PoolGate
  socketsAtPublished : BitVec 8

/-- What one pass over the markets does with an entry: whether its state is published, and its agreement retired. -/
structure Visit where
  entry : MarketEntry
  published : Bool
  retired : Bool

namespace MarketEntry

def installed (market : MarketRef) (book : OrderBook) (version : Nat) : MarketEntry where
  market := market
  book := book
  desired := true
  subscription := .desired
  subscribedFrom := none
  dialled := false
  baseAccepted := false
  basedThisGeneration := false
  recoveryAttempts := 0
  unavailableReported := false
  installedVersion := version
  latestResolution := none
  gate := none
  socketsAtPublished := 0#8

variable (self : MarketEntry)

/-- The set a connection dialled already had this entry in it. -/
def claimedBy (dialledSetVersion : Nat) : Bool := self.installedVersion ≤ dialledSetVersion

def live : Bool := self.book.authority = .live

def carried : Bool := self.subscribedFrom.isSome || self.dialled

def terminal : Bool := self.unavailableReported

def lostBase : MarketEntry := { self with basedThisGeneration := false }

def needsRecovery : Bool := self.desired && self.baseAccepted && !self.live

def status : MarketStatus :=
  if !self.desired then .removed
  else
    match self.book.authority with
    | .live => .live
    | .stale reason => .stale reason
    | _ => .reconciling

def standsAt (socket : Nat) : Bool := self.socketsAtPublished &&& socketBit socket != 0#8

/-- `note_pool_position`: whether the session on `socket` has reached the published key. -/
def notePosition (socket : Nat) (reached : Bool) : MarketEntry :=
  { self with
    socketsAtPublished :=
      if reached then self.socketsAtPublished ||| socketBit socket else self.socketsAtPublished &&& ~~~socketBit socket }

/-- The session on `socket` published `key`: it alone has reached it. -/
def notePublished (socket : Nat) (key : Option DedupKey) : MarketEntry :=
  { self with
    gate := match key with
      | some key => self.gate.map (·.committed socket key)
      | none => self.gate
    socketsAtPublished := socketBit socket }

/-- The session on `socket` redelivered the published key as a recovery base. -/
def noteRecovered (socket : Nat) : MarketEntry :=
  notePosition { self with gate := self.gate.map (·.recovered socket) } socket true

/-- A loss report to the market's book, and whether it changed the book. A report the book refuses is only counted. -/
def reportContinuityLoss (continuity : ContinuityReason) (authority : AuthorityReason) : MarketEntry × Bool :=
  match self.book.reportContinuityLoss continuity authority with
  | .ok (book, changed) => ({ self with book }, changed)
  | .error _ => (self, false)

/-- The book a market is closed with. -/
def closedBook : OrderBook :=
  match self.book.unsubscribe with
  | .ok (book, _) => book
  | .error _ => self.book

/-- A snapshot the book accepts is the market's base. -/
def applySnapshot (candidate : Candidate) : Option (MarketEntry × BookCommit) :=
  match self.book.applySnapshot candidate with
  | .ok (book, commit) =>
    some ({ self with
            book, baseAccepted := true, basedThisGeneration := true, recoveryAttempts := 0, unavailableReported := false
            subscription := if self.desired then .established else self.subscription }, commit)
  | .error _ => none

/-- The publishing connection is gone: nothing carries the market. -/
def leaveConnection : MarketEntry :=
  { self with subscribedFrom := none, dialled := false, subscription := .desired }

/-- A generation ended: it counts against the market unless it produced a base. -/
def spendAttempt : MarketEntry :=
  { self with
    recoveryAttempts := if self.basedThisGeneration then 0 else min (self.recoveryAttempts + 1) u32Max
    basedThisGeneration := false }

/-- The loss a market is owed once its generation ended. The last attempt makes it terminal. -/
def reportEnd (attempts : Nat) (continuity : ContinuityReason) (authority : AuthorityReason) : MarketEntry × Bool :=
  let exhausted := attempts ≤ self.recoveryAttempts
  let reported := if exhausted ∨ self.terminal then .recoveryBaseUnavailable else authority
  let lost := self.reportContinuityLoss continuity reported
  ({ lost.1 with unavailableReported := exhausted || lost.1.unavailableReported }, lost.2)

/-- Ends the market's generation: a market that had a base, or has spent its attempts, is owed a loss. -/
def endGeneration (attempts : Nat) (continuity : ContinuityReason) (authority : AuthorityReason) : Visit :=
  let spent := self.spendAttempt
  if spent.baseAccepted ∨ attempts ≤ spent.recoveryAttempts then
    let lost := spent.reportEnd attempts continuity authority
    ⟨lost.1, lost.2, true⟩
  else ⟨spent, false, false⟩

end MarketEntry

/-- An entry a pass leaves as it is. -/
def Visit.keep (entry : MarketEntry) : Visit := ⟨entry, false, false⟩

def shadowVerdict (entry : MarketEntry) (shadow : Option OrderBook) : StandbyState :=
  match shadow with
  | some shadow => agreement shadow entry.book.publish
  | none => .divergent .continuityMismatch

def promotable (entry : MarketEntry) (verdict : StandbyState) : Bool :=
  entry.desired && entry.baseAccepted && entry.live && verdict = .agreeing

def isMarketSlug (slug : String) : Bool := (marketOfSlug slug).isSome

/-! ## Passes over the markets -/

namespace MarketEntry

/-- A withdrawn licence leaves the market to the publishing connection, if that one has reached the published key. -/
def handBack (running : Option Nat) (self : MarketEntry) : Visit :=
  let carried := running.isSome && self.subscribedFrom = running
  if carried && self.standsAt Slot.primary.index then .keep self
  else if !self.baseAccepted || self.terminal then .keep self
  else
    let lost := self.lostBase.reportContinuityLoss .reconnect (if carried then .orderingUnknown else .subscriptionLost)
    ⟨lost.1, lost.2, true⟩

/-- A pool's session ended: a market that no surviving session carries loses its coverage. -/
def loseCoverage (publishing : Bool) (survivors : List (List String)) (attempts : Nat) (continuity : ContinuityReason)
    (authority : AuthorityReason) (slug : String) (self : MarketEntry) : Visit :=
  let left := if publishing then self.leaveConnection else self
  if survivors.any (·.contains slug) then .keep left else left.endGeneration attempts continuity authority

/-- The shard's rail lost something: every market with a base does. -/
def loseShard (continuity : ContinuityReason) (authority : AuthorityReason) (self : MarketEntry) : Visit :=
  if !self.baseAccepted then .keep self
  else if self.lostBase.terminal then .keep self.lostBase
  else
    let lost := self.lostBase.reportContinuityLoss continuity authority
    ⟨lost.1, lost.2, false⟩

/-- Another connection now publishes: a market whose shadow there agrees goes on, any other loses its base. -/
def promote (generation dialledSetVersion : Nat) (carried : List String) (shadow : Option OrderBook)
    (ended : ConnectionEndReason) (lossy : Bool) (attempts : Nat) (slug : String) (self : MarketEntry) : Visit :=
  let verdict := shadowVerdict self shadow
  let subscribed := carried.contains slug && self.claimedBy dialledSetVersion
  let moved := { self with dialled := false, subscribedFrom := if subscribed then some generation else none }
  if !lossy && promotable self verdict then
    .keep
      { moved with
        basedThisGeneration := true, recoveryAttempts := 0, unavailableReported := false
        subscription := if self.desired && subscribed then .established else .desired }
  else
    let refused := { moved with subscription := if self.desired && subscribed then .subscribing else .desired }
    { refused.endGeneration attempts .reconnect (if lossy then .overload else refusalReason verdict ended) with
      retired := true }

end MarketEntry

end PmWs
