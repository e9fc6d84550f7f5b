import PmWs.Limitless.Shard.Set

/-!
# The shard

One writer for the books of a set of markets, over one publishing connection
and its standbys. With a licensed dedup key the standbys are a pool: each
market has a gate of its own, and one licence covers them all. Markets are
added and removed while it runs. A market's entry remembers which set version
it was installed at, and a connection which version it dialled, so that a
connection never feeds an entry it did not subscribe.
-/

open MachineInt Fallible

namespace PmWs

namespace Shard

/-! ## Dialling -/

variable (self : Shard)

/-- A dial of the publishing role carries every wanted market. -/
def markDialled : Slot → Shard
  | .primary => self.updateMarkets fun _ entry => { entry with dialled := entry.desired }
  | .standby _ => self

/-- Starts a connection in an empty role, over the set as it is now. -/
def spawnSlot (slot : Slot) : Shard :=
  if self.desiredCount = 0 ∨ (self.slot slot).all (·.active.isSome) then self
  else
    { self.markDialled slot with nextGeneration := saturatingAdd self.nextGeneration 1 }.updateSlot slot fun state =>
      { state with
        dialledVersion := some self.desiredVersion
        active := some (.spawned self.nextGeneration self.desiredSlugs self.desiredVersion) }

/-- The connection now in the publishing role carries an entry it dialled. -/
def subscribe (connection : ActiveConnection) (subscription : MarketEntry → SubscriptionState) (self : MarketEntry) :
    MarketEntry :=
  if self.claimedBy connection.dialledSetVersion then
    { self with
      dialled := false, subscribedFrom := some connection.generation
      subscription := if self.desired then subscription self else self.subscription }
  else self

/-- Lets a connection carry every market of its set. -/
def carry (connection : ActiveConnection) (subscription : MarketEntry → SubscriptionState) : Shard :=
  connection.markets.foldl (fun self slug => self.updateMarket slug (subscribe connection subscription)) self

/-- Only a connection in the publishing role carries the set it dialled. -/
def carryDialled (connection : ActiveConnection) : Slot → Shard
  | .primary => self.carry connection fun _ => .subscribing
  | .standby _ => self

/-- A dial came through. -/
def settleDial (slot : Slot) : Shard :=
  match (self.slot slot).bind (·.dialledVersion) with
  | none => self
  | some version =>
    let settled := self.updateSlot slot fun state => { state with dialledVersion := none }
    match self.active slot with
    | none => settled
    | some connection =>
      (settled.carryDialled connection slot).updateSlot slot fun state => { state with wireVersion := version }

def dialCarriesCurrentEntries (dialledSetVersion : Nat) : Bool :=
  self.markets.toList.all fun entry => !entry.2.desired || entry.2.installedVersion ≤ dialledSetVersion

/-! ## Losses -/

def reportMarketLoss (slug : String) (continuity : ContinuityReason) (authority : AuthorityReason) : Shard :=
  match self.markets[slug]? with
  | none => self.refreshAgreement slug
  | some entry =>
    let lost := if entry.terminal then (entry.lostBase, false) else entry.lostBase.reportContinuityLoss continuity authority
    let reported := self.mutateMarket slug entry lost.1
    (if lost.2 then reported.publishSegmentState slug else reported).refreshAgreement slug

def reportShardLoss (continuity : ContinuityReason) (authority : AuthorityReason) : Shard :=
  if self.railLossLatched then self
  else
    ({ self with railLossLatched := true }.visitMarkets fun _ => MarketEntry.loseShard continuity authority)
      |>.retireAllAgreement.recountRecovering

/-- Every socket of an armed pool feeds the published books; otherwise only the publishing role does. -/
def reportRailLoss (slot : Slot) (continuity : ContinuityReason) (authority : AuthorityReason) : Shard :=
  match slot with
  | .primary => self.reportShardLoss continuity authority
  | .standby index =>
    (if self.poolArmed then self.reportShardLoss continuity authority else self).updateStandby index (·.clear)

/-! ## Applying -/

def provenanceRole (slot : Slot) : ReplicaRole :=
  if self.poolArmed then .publishingPrimary else slot.role

/-- The candidate of one update, or nothing where its provenance or its levels are refused. -/
def candidateOf (slot : Slot) (market : MarketRef) (update : OrderbookUpdate) (position : Nat)
    (times : FrameTimes) (subscription : Nat) : Option Candidate :=
  let generation := ((self.active slot).map (·.generation)).getD 0
  match update.provenance market self.config.daemonGeneration position times generation subscription
      (self.provenanceRole slot) with
  | .error _ => none
  | .ok provenance => (update.snapshotCandidate provenance self.levelCapacity).toOption

def applyShadowCandidate (index : Nat) (slug : String) (market : MarketRef) (candidate : Candidate) : Shard :=
  match self.standbys[index]? with
  | none => self
  | some standby =>
    (self.updateStandby index fun s =>
      match (standby.shadows[slug]?.getD (.new market)).applySnapshot candidate with
      | .ok (shadow, _) => { s with shadows := s.shadows.insert slug shadow }
      | .error _ => { s with shadows := s.shadows.erase slug }).refreshShadowAgreement index slug

/-- A role that is also a standby keeps its own shadow current. -/
def shadowPooled (slot : Slot) (slug : String) (market : MarketRef) (candidate : Candidate) : Shard :=
  match slot with
  | .primary => self
  | .standby index => self.applyShadowCandidate index slug market candidate

/-- Applies a snapshot to a market's published book. `settle` is what the caller notes in the entry of a commit. -/
def applyAuthoritative (slot : Slot) (slug : String) (candidate : Candidate)
    (settle : MarketEntry → MarketEntry) : Shard :=
  match self.markets[slug]? with
  | none => self.refreshAgreement slug
  | some entry =>
    match entry.applySnapshot candidate with
    | none => (self.reportMarketLoss slug .localLoss .localLoss).refreshAgreement slug
    | some (applied, commit) =>
      ((({ self.mutateMarket slug entry applied with railLossLatched := false }.updateActive slot fun c =>
        { c with producedBase := true }).updateMarket slug settle).publishSegmentCommit slug commit)
        |>.refreshAgreement slug

def publishPooled (slot : Slot) (slug : String) (market : MarketRef) (candidate : Candidate)
    (key : Option DedupKey) : Shard :=
  (self.shadowPooled slot slug market candidate).applyAuthoritative slot slug candidate fun entry =>
    entry.notePublished slot.index key

/-- Installs a redelivery of the published key as the stale book's recovery base. -/
def recoverPooled (slot : Slot) (slug : String) (market : MarketRef) (candidate : Candidate) : Shard :=
  (self.shadowPooled slot slug market candidate).applyAuthoritative slot slug candidate fun entry =>
    entry.noteRecovered slot.index

/-! ## Withdrawing the licence -/

def newPoolGate (declaration : DedupKeyDeclaration) (sockets : Nat) : Option PoolGate :=
  (PoolGate.new declaration sockets).toOption.map fun gate =>
    (List.range sockets).foldl (fun gate socket =>
      if self.poolSessionsEnded &&& socketBit socket != 0#8 then gate.retireSocket socket else gate) gate

def handBackToPublishingSlot : Shard :=
  let running := (self.primary.active.filter (·.established)).map (·.generation)
  (self.visitMarkets fun _ => MarketEntry.handBack running).recountRecovering

def withdrawLicence (reason : PoolDegradeReason) : Shard :=
  match self.redundancy with
  | some (.pooled declaration sockets none) =>
    ({ self with redundancy := some (.pooled declaration sockets (some reason)) }.updateMarkets fun _ entry =>
      { entry with gate := none }).handBackToPublishingSlot
  | _ => self

/-! ## Updates -/

/-- The connection in a role is subscribed to the market, as the set it dialled had it. -/
def poolCarries (slot : Slot) (slug : String) (entry : MarketEntry) : Bool :=
  (self.active slot).any fun connection =>
    connection.established && entry.claimedBy connection.dialledSetVersion && connection.markets.contains slug

/-- One judged arrival. The one that withdraws the licence reaches no book. -/
def judgePooled (slot : Slot) (slug : String) (entry : MarketEntry) (gate : PoolGate)
    (update : OrderbookUpdate) (candidate : Candidate) : Shard :=
  let key := update.arrivalKey
  let projection := candidateProjection candidate
  let recovering := !entry.live
  let redelivered := key.any fun key => gate.evidenceMatches key projection
  let judged := gate.admitArrival slot.index key projection
  let self := { self with markets := self.markets.insert slug { entry with gate := some judged.1 } }
  match judged.2 with
  | .publish => self.publishPooled slot slug entry.market candidate key
  | .duplicate =>
    if redelivered && recovering then self.recoverPooled slot slug entry.market candidate
    else (self.updateMarket slug (·.notePosition slot.index true)).shadowPooled slot slug entry.market candidate
  | .stale => (self.updateMarket slug (·.notePosition slot.index false)).shadowPooled slot slug entry.market candidate
  | .degrade violation => self.withdrawLicence violation.reason
  | .disarmed => self

def applyPooled (slot : Slot) (update : OrderbookUpdate) (times : FrameTimes) (subscription : Nat)
    (declaration : DedupKeyDeclaration) (sockets : Nat) : Shard :=
  let slug := update.marketSlug
  match self.markets[slug]? with
  | none => self
  | some entry =>
    if !self.poolCarries slot slug entry then self
    else
      match checkedAdd self.position 1 with
      | none => self.reportMarketLoss slug .localLoss .localLoss
      | some position =>
        let self := { self with position }
        match self.candidateOf slot entry.market update position times subscription with
        | none => self.reportMarketLoss slug .localLoss .localLoss
        | some candidate =>
          match entry.gate.or (self.newPoolGate declaration sockets) with
          | none => self.withdrawLicence .keyUnavailable
          | some gate => self.judgePooled slot slug entry gate update candidate

def applyUpdate (update : OrderbookUpdate) (times : FrameTimes) (subscription : Nat) : Shard :=
  let slug := update.marketSlug
  let running := self.primary.active.map (·.generation)
  match self.markets[slug]? with
  | none => self
  | some entry =>
    if running.isNone ∨ entry.subscribedFrom ≠ running then self
    else
      match checkedAdd self.position 1 with
      | none => self.reportMarketLoss slug .localLoss .localLoss
      | some position =>
        let self := { self with position }
        match self.candidateOf .primary entry.market update position times subscription with
        | none => self.reportMarketLoss slug .localLoss .localLoss
        | some candidate => self.applyAuthoritative .primary slug candidate id

def applyShadowUpdate (index : Nat) (update : OrderbookUpdate) (times : FrameTimes) (subscription : Nat) : Shard :=
  let slug := update.marketSlug
  match self.markets[slug]? with
  | none => self
  | some entry =>
    if !(self.active (.standby index)).any (·.markets.contains slug) then self
    else
      match checkedAdd self.shadowPosition 1 with
      | none => self.updateStandby index (·.dropShadow slug)
      | some position =>
        let self := { self with shadowPosition := position }
        match self.candidateOf (.standby index) entry.market update position times subscription with
        | none => self.updateStandby index (·.dropShadow slug)
        | some candidate => self.applyShadowCandidate index slug entry.market candidate

def forwardResolution (resolved : MarketResolved) (times : FrameTimes) (subscription : Nat) : Shard :=
  let slug := resolved.slug
  match self.markets[slug]? with
  | none => self
  | some entry =>
    match checkedAdd self.position 1 with
    | none => self
    | some position =>
      let self := { self with position }
      let generation := (self.primary.active.map (·.generation)).getD 0
      match resolved.resolution entry.market entry.book self.config.daemonGeneration position times generation subscription
          .publishingPrimary with
      | none => self
      | some resolution =>
        let noted := { entry with latestResolution := some resolution }
        let self := { self with markets := self.markets.insert slug noted }
        if self.segment.isSome && !resolutionFitsTheRing resolution then self
        else
          match entry.book.noteStreamEvent with
          | .error _ => self
          | .ok (book, cursor) =>
            { self with
              markets := self.markets.insert slug { noted with book }
              segment := self.segment.map fun segment =>
                segment.publishResolution slug book.revision cursor resolution book.publish }

def onEvent (slot : Slot) (event : LimitlessEvent) (times : FrameTimes) (subscription : Nat) : Shard :=
  match event with
  | .orderbookUpdate update =>
    match self.poolLicence with
    | some (declaration, sockets) => self.applyPooled slot update times subscription declaration sockets
    | none =>
      match slot with
      | .primary => self.applyUpdate update times subscription
      | .standby index => self.applyShadowUpdate index update times subscription
  | .marketResolved resolved =>
    match slot with
    | .primary => self.forwardResolution resolved times subscription
    | .standby _ => self
  | .unknown _ => self

/-! ## Connection ends -/

def retirePoolSocket (slot : Slot) : Shard :=
  updateMarkets { self with poolSessionsEnded := self.poolSessionsEnded ||| socketBit slot.index } fun _ entry =>
    { entry.notePosition slot.index false with gate := entry.gate.map (·.retireSocket slot.index) }

/-- The sets of the other established sessions that can still deliver. -/
def poolSurvivorSets (excluding : Slot) (look : Look) : List (List String) :=
  (self.slots.filter (· ≠ excluding)).filterMap fun slot =>
    ((self.active slot).filter fun c => c.established && c.isViable look).map (·.markets)

def reportLostPoolCoverage (ended : Slot) (reason : ConnectionEndReason) (look : Look) : Shard :=
  let survivors := self.poolSurvivorSets ended look
  let publishing := decide (ended = .primary)
  (if publishing then self.closeRemoved else self).visitMarkets
    (MarketEntry.loseCoverage publishing survivors self.config.maxRecoveryAttempts (endReasonMapping reason).1
      (endReasonMapping reason).2)

/-- The standby that takes the publishing role: the first established one that can deliver, or else any that can. -/
def chosenStandby (look : Look) : Option Nat :=
  let viable := fun (standby : Standby) => standby.slot.active.any (·.isViable look)
  (self.standbys.findIdx? fun standby => viable standby && standby.slot.active.any (·.established)).or
    (self.standbys.findIdx? viable)

/-- Puts a standby's connection into the publishing role. -/
def moveToPrimary (index : Nat) (connection : ActiveConnection) : Shard :=
  let wireVersion := (self.standbys[index]?.map (·.slot.wireVersion)).getD 0
  { self with
    reissue := .idle
    primary := ⟨some connection, none, wireVersion⟩
    standbys := self.standbys.modify index fun s => { s with slot := { s.slot with active := none } } }

/-- Empties the role a connection was moved out of. -/
def vacateStandby (index : Nat) : Shard := self.updateStandby index fun _ => .default

/-- The history of socket `source` moves to socket 0 with its session, and a later session on `source` is a
replacement. -/
def moveHistory (source : Nat) : Shard :=
  let moved := self.poolSessionsEnded &&& socketBit source != 0#8
  let cleared := self.poolSessionsEnded &&& ~~~socketBit 0
  updateMarkets
    { self with poolSessionsEnded := (if moved then cleared ||| socketBit 0 else cleared) ||| socketBit source }
    fun _ entry =>
      let others := entry.socketsAtPublished &&& ~~~(socketBit source ||| socketBit 0)
      { entry with
        socketsAtPublished := if entry.standsAt source then others ||| socketBit 0 else others
        gate := entry.gate.map (·.reassignSocket source 0) }

/-- Hands the publishing role to a standby's session, when one can deliver. -/
def takePublishingSlot (look : Look) : Shard :=
  match self.chosenStandby look with
  | none => self
  | some index =>
    match self.active (.standby index) with
    | none => self
    | some connection =>
      (((self.moveToPrimary index connection).carry connection fun entry =>
        if connection.established && entry.live then .established else .subscribing).moveHistory (index + 1))
        |>.vacateStandby index

/-- What the end of the publishing session leaves of the role. -/
def leavePublishing : Shard :=
  { self with reissue := .idle, primary := { self.primary with dialledVersion := none }, railLossLatched := false }

def onStandbyEnded (index : Nat) : Shard :=
  self.updateStandby index fun s => { s.clear with slot := { s.slot with dialledVersion := none } }

/-- A session of an armed pool ended. Its markets lose coverage only where no other session carries them. -/
def onPoolSlotEnded (slot : Slot) (reason : ConnectionEndReason) (established handover : Bool)
    (clock : Clock) : Shard :=
  let retired := if established then self.retirePoolSocket slot else self
  match slot with
  | .primary =>
    let ended := (retired.reportLostPoolCoverage slot reason (clock .survivors)).leavePublishing
    (if handover then ended.takePublishingSlot (clock .publishing) else ended).recountRecovering
  | .standby index =>
    ((retired.onStandbyEnded index).reportLostPoolCoverage slot reason (clock .survivors)).recountRecovering

def onConnectionEnded (reason : ConnectionEndReason) : Shard :=
  (self.leavePublishing.closeRemoved.visitMarkets fun _ entry =>
    entry.leaveConnection.endGeneration self.config.maxRecoveryAttempts (endReasonMapping reason).1
      (endReasonMapping reason).2).retireAllAgreement.recountRecovering

def applyPromotions (connection : ActiveConnection) (shadows : Std.ExtTreeMap String OrderBook)
    (ended : ConnectionEndReason) (established : Bool) : Shard :=
  let lossy := established && ended = .noticeUndeliverable
  self.closeRemoved.visitMarkets fun slug =>
    MarketEntry.promote connection.generation connection.dialledSetVersion connection.markets shadows[slug]? ended lossy
      self.config.maxRecoveryAttempts slug

/-- Without a pool, the first standby that can deliver takes the publishing role. -/
def promoteStandby (index : Nat) (connection : ActiveConnection) (ended : ConnectionEndReason)
    (established : Bool) : Shard :=
  let shadows := (self.standbys[index]?.map (·.shadows)).getD ∅
  let moved := self.moveToPrimary index connection
  (({ moved with
      railLossLatched := false
      standbys := moved.standbys.modify index fun s => { s with shadows := ∅ } }.applyPromotions connection shadows ended
        established).vacateStandby index).recountRecovering

/-- The first standby whose task runs and whose heartbeat stands, each judged at its own reading. -/
def switchIndex (clock : Clock) : Option Nat :=
  (List.range self.standbys.length).find? fun index =>
    (self.active (.standby index)).any (·.isViable (clock (.switch index)))

def onPrimaryEnded (reason : ConnectionEndReason) (established : Bool) (clock : Clock) : Shard :=
  match self.switchIndex clock with
  | none => self.onConnectionEnded reason
  | some index =>
    match self.active (.standby index) with
    | none => self.onConnectionEnded reason
    | some connection => self.promoteStandby index connection reason established

/-- A session lost to its own full notice queue hides a loss, which an armed pool reports first. -/
def onSlotEnded (slot : Slot) (reason : ConnectionEndReason) (established : Bool) (clock : Clock) : Shard :=
  if self.poolArmed then
    (if established ∧ reason = .noticeUndeliverable then self.reportShardLoss .localLoss .overload else self)
      |>.onPoolSlotEnded slot reason established true clock
  else
    match slot with
    | .primary => self.onPrimaryEnded reason established clock
    | .standby index => self.onStandbyEnded index

/-- Takes a connection out of its role and closes it. -/
def closeSlot (slot : Slot) (connection : ActiveConnection) (reason : ConnectionEndReason) (clock : Clock) : Shard :=
  (self.takeActive slot).onSlotEnded slot reason connection.established clock

def expired (slot : Slot) (look : Look) : Bool :=
  ((self.active slot).bind (·.heartbeatExpiry)).any (· ≤ look.now)

def fenceIfExpired (slot : Slot) (look : Look) (clock : Clock) : Shard :=
  match self.active slot with
  | some connection =>
    if self.expired slot look then self.closeSlot slot connection .heartbeatTimeout clock else self
  | none => self

/-! ## Following the set -/

/-- Without a wanted market no connection is kept, and what still waits to be closed is. -/
def shedIdleConnection : Shard :=
  if 0 < self.desiredCount then self
  else
    (closeRemoved
      { self with
        primary := { self.primary with active := none, dialledVersion := none }
        standbys := self.standbys.map fun s =>
          { s.clear with slot := { s.slot with active := none, dialledVersion := none } }
        reissue := .idle
        railLossLatched := false }).recountRecovering

/-- Whether an established connection already carries the set as it is now. -/
def unchanged (connection : ActiveConnection) : Bool :=
  self.desiredSlugs = connection.markets && self.dialCarriesCurrentEntries connection.dialledSetVersion

/-- Replaces a connection whose set has changed. -/
def reconcileSlot (slot : Slot) (clock : Clock) : Shard :=
  match self.slot slot with
  | none => self
  | some state =>
    if self.desiredVersion = state.wireVersion ∨ state.dialledVersion.isSome then self
    else
      match state.active with
      | none => self
      | some connection =>
        if !connection.established then self
        else if self.unchanged connection then
          self.updateSlot slot fun state => { state with wireVersion := self.desiredVersion }
        else
          let taken := self.takeActive slot
          if self.poolArmed then taken.onPoolSlotEnded slot .subscriptionReplaced true false clock
          else
            match slot with
            | .primary => taken.onConnectionEnded .subscriptionReplaced
            | .standby index => taken.onStandbyEnded index

def reconcileSet (clock : Slot → Clock) : Shard :=
  self.slots.foldl (fun self slot => self.reconcileSlot slot (clock slot)) self

/-- `spawn_due`, over the roles whose timer and attempt budget allow a dial. -/
def spawnDue (due : Slot → Bool) : Shard :=
  self.slots.foldl (fun self slot => if due slot then self.spawnSlot slot else self) self

/-! ## Asking for the set again -/

def armReissue (now : Nat) : Shard :=
  let owed := 0 < self.recovering
  let established := self.primary.active.any (·.established) && self.primary.dialledVersion.isNone
  { self with
    reissue := match self.reissue with
      | .idle => if owed && established then .pending now else .idle
      | .pending due => if !owed || !established then .idle else .pending due
      | .awaiting due => if owed then .awaiting due else .idle
      | reissue => reissue }

/-- What the run loop does before each wait. -/
def beforeWait (clock : Slot → Clock) (due : Slot → Bool) (now : Nat) : Shard :=
  ((self.shedIdleConnection.reconcileSet clock).spawnDue due).armReissue now

/-- Hands the publishing connection one request. A full channel is given the same deadline as a landed one. -/
def emitReissue (grantedAt : Nat) (closed : Bool) : Shard :=
  { self with
    reissue :=
      if self.primary.active.isNone then .idle
      else if closed then .unreachable
      else .requested (grantedAt + self.config.resubscribeWindow) }

def escalateReissue (clock : Clock) : Shard :=
  match self.primary.active with
  | none => { self with reissue := .idle }
  | some connection => self.closeSlot .primary connection .resubscribeTimedOut clock

/-- A due request, after what the notice queue held has been applied. -/
def onReissueDue (look : Look) (grantedAt : Nat) (closed : Bool) (clock : Clock) : Shard :=
  let armed := self.armReissue look.now
  if armed.reissue.wakeAt.any (· ≤ look.now) then
    match armed.reissue with
    | .pending _ => armed.emitReissue grantedAt closed
    | .requested _ => armed.escalateReissue clock
    | .awaiting _ => if 0 < armed.recovering then armed.escalateReissue clock else { armed with reissue := .idle }
    | .idle | .unreachable => armed
  else armed

/-! ## Notices -/

def awaitBase (now : Nat) : Reissue :=
  if 0 < self.recovering then .awaiting (now + self.config.resubscribeWindow) else .idle

def onReady (slot : Slot) (heartbeatDeadline observedAt now : Nat) : Shard :=
  let settled :=
    (self.updateActive slot fun c =>
      { c with heartbeatDeadline := some heartbeatDeadline, lastHeartbeat := some observedAt, established := true }).settleDial
      slot
  match slot with
  | .primary => { settled with reissue := settled.awaitBase now }
  | .standby _ => settled

def onResubscribed (slot : Slot) (now : Nat) : Shard :=
  match slot, self.reissue with
  | .primary, .requested _ => { self with reissue := self.awaitBase now }
  | _, _ => self

/-- Accepts a notice from a generation that runs now. Anything else is late work and is discarded. -/
def onNotice (generation : Nat) (note : ConnectionNote) (look : Look) : Shard :=
  match self.slotOf generation with
  | none => self
  | some slot =>
    match note with
    | .ready heartbeatDeadline _ observedAt => self.onReady slot heartbeatDeadline observedAt look.now
    | .heartbeat observedAt => self.updateActive slot fun c => { c with lastHeartbeat := some observedAt }
    | .resubscribed _ => self.onResubscribed slot look.now
    | .event event times subscription => self.onEvent slot event times subscription
    | .decodeFailure bookRelevant => if bookRelevant then self.reportRailLoss slot .localLoss .localLoss else self
    | .overload _ => self.reportRailLoss slot .localLoss .overload

end Shard

/-! ## Runs -/

/-- What can happen to a shard. A missed heartbeat is a sequence of notices around one `expire`. -/
inductive ShardEvent where
  | shed
  | reconcile (slot : Slot) (clock : Shard.Clock)
  | spawn (slot : Slot)
  | armReissue (now : Nat)
  | notice (generation : Nat) (note : ConnectionNote) (look : Look)
  | reissueDue (look : Look) (grantedAt : Nat) (closed : Bool) (clock : Shard.Clock)
  | expire (slot : Slot) (look : Look) (clock : Shard.Clock)
  | ended (slot : Slot) (reason : ConnectionEndReason) (clock : Shard.Clock)
  | addMarkets (slugs : List String)
  | removeMarkets (slugs : List String)

def Shard.step (self : Shard) : ShardEvent → Option Shard
  | .shed => some self.shedIdleConnection
  | .reconcile slot clock => some (self.reconcileSlot slot clock)
  | .spawn slot => some (self.spawnSlot slot)
  | .armReissue now => some (self.armReissue now)
  | .notice generation note look => some (self.onNotice generation note look)
  | .reissueDue look grantedAt closed clock => some (self.onReissueDue look grantedAt closed clock)
  | .expire slot look clock => some (self.fenceIfExpired slot look clock)
  | .ended slot reason clock => (self.active slot).map fun connection => self.closeSlot slot connection reason clock
  | .addMarkets slugs => some (self.addMarkets slugs).1
  | .removeMarkets slugs => some (self.removeMarkets slugs).1

end PmWs
