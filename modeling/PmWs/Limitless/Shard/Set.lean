import PmWs.Limitless.Shard.Market

/-!
# A shard and its set of markets

The state of a shard, and the commands that change which markets it holds. A
removed market that a connection still carries waits until that connection is
gone. Markets are kept by slug, and every pass over them is in slug order.
-/

open MachineInt Fallible

namespace PmWs

/-! ## State -/

/-- A running connection: the set it dialled, and the version that set had. -/
structure Shard.ActiveConnection where
  generation : Nat
  markets : List String
  dialledSetVersion : Nat
  heartbeatDeadline : Option Nat
  lastHeartbeat : Option Nat
  established : Bool
  producedBase : Bool
  deriving DecidableEq, Repr

namespace Shard.ActiveConnection

def spawned (generation : Nat) (markets : List String) (version : Nat) : ActiveConnection :=
  ⟨generation, markets, version, none, none, false, false⟩

def heartbeatExpiry (self : ActiveConnection) : Option Nat :=
  match self.lastHeartbeat, self.heartbeatDeadline with
  | some last, some deadline => some (last + deadline)
  | _, _ => none

def isViable (self : ActiveConnection) (look : Look) : Bool :=
  !look.finished self.generation && self.heartbeatExpiry.all fun expiry => look.now < expiry

end Shard.ActiveConnection

/-- A connection role: its connection, the version being dialled, and the version the wire has. -/
structure ConnectionSlot where
  active : Option Shard.ActiveConnection
  dialledVersion : Option Nat
  wireVersion : Nat
  deriving DecidableEq, Repr

def ConnectionSlot.default : ConnectionSlot := ⟨none, none, 0⟩

/-- A standby role, with a shadow book a market and the markets whose shadow agrees with the published book. -/
structure Shard.Standby where
  slot : ConnectionSlot
  shadows : Std.ExtTreeMap String OrderBook
  agreeing : Std.ExtTreeSet String

namespace Shard.Standby

def default : Standby := ⟨.default, ∅, ∅⟩

/-- Forgets every shadow. -/
def clear (self : Standby) : Standby := { self with shadows := ∅, agreeing := ∅ }

/-- Forgets one market's shadow. -/
def dropShadow (self : Standby) (slug : String) : Standby :=
  { self with shadows := self.shadows.erase slug, agreeing := self.agreeing.erase slug }

end Shard.Standby

inductive Redundancy where
  | unlicensed (semantics : DedupKeySemantics)
  | pooled (declaration : DedupKeyDeclaration) (sockets : Nat) (degraded : Option PoolDegradeReason)
  deriving DecidableEq

namespace Redundancy

def licensed (declaration : DedupKeyDeclaration) (sockets : Nat) : Redundancy :=
  match PoolGate.new declaration sockets with
  | .ok _ => pooled declaration sockets none
  | .error (.keyOrdersNothing semantics) => unlicensed semantics
  | .error .socketCountOutOfRange => unlicensed declaration.semantics

def armed : Redundancy → Bool
  | pooled _ _ none => true
  | _ => false

end Redundancy

/-- One request to the publishing connection to send its set again. -/
inductive Reissue where
  | idle
  | pending (due : Nat)
  | requested (due : Nat)
  | awaiting (due : Nat)
  | unreachable
  deriving DecidableEq, Repr

def Reissue.wakeAt : Reissue → Option Nat
  | idle | unreachable => none
  | pending due | requested due | awaiting due => some due

structure ShardConfig where
  markets : List String
  ingestCapacity : Nat
  controlCapacity : Nat
  observerCapacity : Nat
  levelCapacity : Nat
  maxMarkets : Nat
  replicas : Nat
  dedupKey : DedupKeyDeclaration
  resubscribeWindow : Nat
  maxRecoveryAttempts : Nat
  daemonGeneration : Nat
  dailyAttemptBudget : Nat
  minCommandIntervalMs : Nat

inductive ShardError where
  | market
  | levelCapacity
  | observerCapacity
  | ingestCapacityZero
  | controlCapacityZero
  | recoveryAttemptsZero
  | replicasOutOfRange
  | marketCapacityExceeded
  | dailyAttemptBudgetTooLarge
  | commandIntervalTooLarge
  | segment (error : WriterError)
  deriving DecidableEq, Repr

/-- The order a pass takes the markets in. The source keeps them in a hash map, so any is possible. -/
abbrev MarketOrder := (markets : Std.ExtTreeMap String MarketEntry) →
  { entries : List (String × MarketEntry) // entries.Perm markets.toList }

structure Shard where
  config : ShardConfig
  order : MarketOrder
  levelCapacity : LevelCapacity
  markets : Std.ExtTreeMap String MarketEntry
  retired : Std.ExtTreeMap String OrderBook
  segment : Option ShardSegment
  primary : ConnectionSlot
  standbys : List Shard.Standby
  redundancy : Option Redundancy
  poolSessionsEnded : BitVec 8
  nextGeneration : Nat
  reissue : Reissue
  desiredVersion : Nat
  recovering : Nat
  desiredCount : Nat
  removing : List String
  railLossLatched : Bool
  position : Nat
  shadowPosition : Nat

/-- The places that look at the clock and the connection tasks. -/
inductive Shard.Reading where
  | survivors
  | publishing
  | switch (index : Nat)

abbrev Shard.Clock := Shard.Reading → Look

namespace Shard

def maxShardMarkets : Nat := 32768
def maxRemovingMarkets : Nat := 64
def maxReplicas : Nat := 4
def maxObserverCapacity : Nat := 1048576
def worstCaseAttemptCeiling : Nat := 1000000
def maxCommandIntervalMs : Nat := 60000

/-! ## Slots -/

variable (self : Shard)

def slot : Slot → Option ConnectionSlot
  | .primary => some self.primary
  | .standby index => self.standbys[index]?.map (·.slot)

def active (slot : Slot) : Option ActiveConnection := (self.slot slot).bind (·.active)

/-- `slot_mut`: changes a role, if the shard has it. -/
def updateSlot (slot : Slot) (f : ConnectionSlot → ConnectionSlot) : Shard :=
  match slot with
  | .primary => { self with primary := f self.primary }
  | .standby index => { self with standbys := self.standbys.modify index fun s => { s with slot := f s.slot } }

def updateActive (slot : Slot) (f : ActiveConnection → ActiveConnection) : Shard :=
  self.updateSlot slot fun state => { state with active := state.active.map f }

/-- Takes the connection out of its role. -/
def takeActive (slot : Slot) : Shard := self.updateSlot slot fun state => { state with active := none }

def updateStandby (index : Nat) (f : Standby → Standby) : Shard :=
  { self with standbys := self.standbys.modify index f }

def slots : List Slot := .primary :: (List.range self.standbys.length).map .standby

def slotOf (generation : Nat) : Option Slot :=
  self.slots.find? fun slot => (self.active slot).any (·.generation = generation)

def poolArmed : Bool := self.redundancy.any (·.armed)

def poolLicence : Option (DedupKeyDeclaration × Nat) :=
  match self.redundancy with
  | some (.pooled declaration sockets none) => some (declaration, sockets)
  | _ => none

def updateMarket (slug : String) (f : MarketEntry → MarketEntry) : Shard :=
  { self with markets := self.markets.modify slug f }

def updateMarkets (f : String → MarketEntry → MarketEntry) : Shard :=
  { self with markets := self.markets.map f }

def recountRecovering : Shard :=
  { self with recovering := self.markets.toList.countP fun entry => entry.2.needsRecovery }

/-- `mutate_market`: stores a changed entry, and keeps the number of markets that are owed a base. -/
def mutateMarket (slug : String) (before after : MarketEntry) : Shard :=
  { self with
    markets := self.markets.insert slug after
    recovering :=
      if !before.needsRecovery && after.needsRecovery then saturatingAdd self.recovering 1
      else if before.needsRecovery && !after.needsRecovery then saturatingSub self.recovering 1
      else self.recovering }

/-! ## Agreement -/

def refreshShadowAgreement (index : Nat) (slug : String) : Shard :=
  self.updateStandby index fun standby =>
    if self.markets[slug]?.any fun entry => promotable entry (shadowVerdict entry standby.shadows[slug]?) then
      { standby with agreeing := standby.agreeing.insert slug }
    else { standby with agreeing := standby.agreeing.erase slug }

def refreshAgreement (slug : String) : Shard :=
  (List.range self.standbys.length).foldl (fun self index => self.refreshShadowAgreement index slug) self

def retireAgreement (slug : String) : Shard :=
  { self with standbys := self.standbys.map fun s => { s with agreeing := s.agreeing.erase slug } }

def retireAllAgreement : Shard :=
  { self with standbys := self.standbys.map fun s => { s with agreeing := ∅ } }

/-! ## The segment -/

def publishSegmentState (slug : String) : Shard :=
  match self.segment, self.markets[slug]? with
  | some segment, some entry => { self with segment := some (segment.publishState slug entry.book.publish) }
  | _, _ => self

def publishSegmentCommit (slug : String) (commit : BookCommit) : Shard :=
  match self.segment, self.markets[slug]? with
  | some segment, some entry => { self with segment := some (segment.publishCommit slug commit entry.book.publish) }
  | _, _ => self

/-- One pass over every market, in any order: the changed entries are stored, those whose book changed are published,
and the agreement of those that lost their base is retired. -/
def visitMarkets (visit : String → MarketEntry → Visit) : Shard :=
  { self with
    markets := self.markets.map fun slug entry => (visit slug entry).entry
    segment := self.segment.map fun segment =>
      (self.order self.markets).1.foldl (fun segment (slug, entry) =>
        if (visit slug entry).published then segment.publishState slug (visit slug entry).entry.book.publish
        else segment) segment
    standbys := self.standbys.map fun standby =>
      { standby with
        agreeing := standby.agreeing.filter fun slug => !self.markets[slug]?.any fun entry => (visit slug entry).retired } }

/-! ## Adding and removing markets -/

def resume (retired : OrderBook) : Except InstallRefusal OrderBook :=
  ((retired.reportContinuityLoss .reconnect .subscriptionLost).map Prod.fst).mapError fun _ => .resumeUnavailable

/-- The book of a market about to be installed: the one it was closed with, or a new one. -/
def bookFor (slug : String) (market : MarketRef) : Except InstallRefusal OrderBook :=
  match self.retired[slug]? with
  | some retired => resume retired
  | none => .ok (.new market)

/-- What the segment makes of a market about to be installed. -/
def installSegment (segment : Option ShardSegment) (slug : String) (book : OrderBook) :
    Option ShardSegment × Except InstallRefusal Unit :=
  match segment with
  | none => (none, .ok ())
  | some segment =>
    let installed := segment.install slug book.publish
    (some installed.1, installed.2.mapError .ofSegment)

/-- Installs a market, and what refused it otherwise. A retired book that was taken out is not put back. -/
def install (slug : String) : Shard × Except InstallRefusal Unit :=
  match marketOfSlug slug with
  | none => (self, .error .identity)
  | some market =>
    let taken := { self with retired := self.retired.erase slug }
    match self.bookFor slug market with
    | .error refusal => (taken, .error refusal)
    | .ok book =>
      let segment := installSegment self.segment slug book
      match segment.2 with
      | .error refusal => ({ taken with segment := segment.1 }, .error refusal)
      | .ok () =>
        let version := saturatingAdd self.desiredVersion 1
        ({ taken with
            segment := segment.1
            desiredCount := saturatingAdd self.desiredCount 1
            desiredVersion := version
            markets := self.markets.insert slug (.installed market book version) }, .ok ())

def installable (slug : String) : Except InstallRefusal Unit :=
  match self.segment with
  | none => .ok ()
  | some segment => (segment.installable slug).mapError .ofSegment

/-- Closes a market. With a segment its book is kept, so that a later market of the slug resumes its stream. -/
def close (slug : String) : Shard :=
  match self.markets[slug]? with
  | none => self
  | some entry =>
    { self with
      markets := self.markets.erase slug
      segment := self.segment.map (·.retire slug entry.closedBook.publish)
      retired := if self.segment.isSome then self.retired.insert slug entry.closedBook else self.retired
      desiredCount := if entry.desired then saturatingSub self.desiredCount 1 else self.desiredCount
      removing := self.removing.filter (· ≠ slug)
      standbys := self.standbys.map (·.dropShadow slug) }

def removedSlugs : List String :=
  (self.order self.markets).1.filterMap fun (slug, entry) => if entry.desired then none else some slug

/-- Closes every market no longer wanted. -/
def closeRemoved : Shard := self.removedSlugs.foldl close self

def statusOf : Except InstallRefusal Unit → MarketStatus
  | .ok () => .accepted
  | .error refusal => .rejected refusal.rejection

def addMarket (slug : String) : Shard × MarketStatus :=
  let capacity := self.config.maxMarkets
  match self.markets[slug]? with
  | some entry =>
    if entry.desired then (self, entry.status)
    else if capacity ≤ self.desiredCount then (self, .rejected .capacityExceeded)
    else
      match self.installable slug with
      | .error refusal => (self, .rejected refusal.rejection)
      | .ok () =>
        let installed := (self.close slug).install slug
        (installed.1, statusOf installed.2)
  | none =>
    if capacity ≤ self.desiredCount ∨ saturatingAdd capacity maxRemovingMarkets ≤ self.markets.size then
      (self, .rejected .capacityExceeded)
    else
      let installed := self.install slug
      (installed.1, statusOf installed.2)

/-- Runs a command on each slug in order, and collects the outcomes. -/
def eachMarket (command : Shard → String → Shard × MarketStatus) (self : Shard) :
    List String → Shard × List MarketOutcome
  | [] => (self, [])
  | slug :: rest =>
    let first := command self slug
    let others := eachMarket command first.1 rest
    (others.1, ⟨slug, first.2⟩ :: others.2)

def addMarkets (slugs : List String) : Shard × List MarketOutcome :=
  let added := self.eachMarket addMarket slugs
  (added.1.recountRecovering, added.2)

/-- Closes the oldest removed markets while more than `maxRemovingMarkets` wait. -/
def evictRemoved (self : Shard) : Nat → Shard
  | 0 => self
  | fuel + 1 =>
    match self.removing with
    | [] => self
    | evicted :: rest =>
      if maxRemovingMarkets < self.removing.length then
        ({ self with removing := rest }.close evicted).evictRemoved fuel
      else self

/-- Queues a removed market until its connection is gone. Each eviction shortens the queue. -/
def enqueueRemoval (slug : String) : Shard :=
  let queued := { self with removing := self.removing.filter (· ≠ slug) ++ [slug] }
  queued.evictRemoved queued.removing.length

/-- Takes a market out of the set. The source adds up the version moves of a command and makes them at its end. -/
def removeMarket (slug : String) : Shard × MarketStatus :=
  if !isMarketSlug slug then (self, .rejected .invalidIdentifier)
  else
    match self.markets[slug]? with
    | none => (self, .removed)
    | some entry =>
      if entry.desired then
        let removing := { entry with desired := false, subscription := .removing }
        let unwanted :=
          { self with
            markets := self.markets.insert slug removing
            desiredVersion := saturatingAdd self.desiredVersion 1
            desiredCount := saturatingSub self.desiredCount 1 }.retireAgreement slug
        (if removing.carried then unwanted.enqueueRemoval slug else unwanted.close slug, .removed)
      else (self, .removed)

def removeMarkets (slugs : List String) : Shard × List MarketOutcome :=
  let removed := self.eachMarket removeMarket slugs
  (removed.1.recountRecovering, removed.2)

def desiredSlugs : List String :=
  self.markets.toList.filterMap fun entry => if entry.2.desired then some entry.1 else none

/-! ## Construction -/

def installConfigured (self : Shard) : List String → Except ShardError Shard
  | [] => .ok self
  | slug :: rest =>
    if self.markets.contains slug then self.installConfigured rest
    else if self.config.maxMarkets ≤ self.desiredCount then .error .marketCapacityExceeded
    else
      match self.install slug with
      | (installed, .ok ()) => installed.installConfigured rest
      | (_, .error .identity) => .error .market
      | (_, .error (.delivery error)) => .error (.segment error)
      | (_, .error .streamNotRebased) | (_, .error .resumeUnavailable) => .error (.segment .marketAlreadyInstalled)

/-- A shard over a validated configuration, before its configured markets are installed. -/
def empty (config : ShardConfig) (levelCapacity : LevelCapacity) (order : MarketOrder) : Shard where
  config := { config with maxMarkets := min config.maxMarkets maxShardMarkets }
  levelCapacity := levelCapacity
  order := order
  markets := ∅
  retired := ∅
  segment := none
  primary := .default
  standbys := List.replicate (config.replicas - 1) .default
  redundancy := if 1 < config.replicas then some (.licensed config.dedupKey config.replicas) else none
  poolSessionsEnded := 0#8
  nextGeneration := 1
  reissue := .idle
  desiredVersion := 0
  recovering := 0
  desiredCount := 0
  removing := []
  railLossLatched := false
  position := 0
  shadowPosition := 0

def new (config : ShardConfig) (order : MarketOrder) : Except ShardError Shard :=
  if config.maxRecoveryAttempts = 0 then .error .recoveryAttemptsZero
  else if worstCaseAttemptCeiling < config.dailyAttemptBudget then .error .dailyAttemptBudgetTooLarge
  else if maxCommandIntervalMs < config.minCommandIntervalMs then .error .commandIntervalTooLarge
  else if config.ingestCapacity = 0 then .error .ingestCapacityZero
  else if config.controlCapacity = 0 then .error .controlCapacityZero
  else if config.replicas = 0 ∨ maxReplicas < config.replicas then .error .replicasOutOfRange
  else if hlevels : config.levelCapacity = 0 then .error .levelCapacity
  else if config.observerCapacity = 0 ∨ maxObserverCapacity < config.observerCapacity then .error .observerCapacity
  else (empty config ⟨config.levelCapacity, Nat.pos_of_ne_zero hlevels⟩ order).installConfigured config.markets

/-- Installs every market of a list into a segment, in order. -/
def installAll (segment : ShardSegment) : List (String × MarketEntry) → Except WriterError ShardSegment
  | [] => .ok segment
  | (slug, entry) :: rest =>
    match segment.install slug entry.book.publish with
    | (installed, .ok ()) => installAll installed rest
    | (_, .error refusal) => .error refusal.writerError

def publishInto (segment : ShardSegment) : Except WriterError Shard :=
  if self.segment.isSome then .error .segmentAlreadyInstalled
  else (installAll segment self.markets.toList).map fun segment => { self with segment := some segment }

end Shard

end PmWs
