import PmWs.Limitless
import PmWs.Pool

/-!
# The single-market supervisor

One writer for one market's book and the connections that feed it: a
publishing primary with hot standbys, or a pool whose gate picks each arrival
by its key. Every look at the clock and at the connection tasks is an input of
the event it happens in, named by the place that takes it. Reconnect timing,
counters and the reported topology decide nothing here and are left out.
-/

open MachineInt

namespace PmWs

/-! ## State -/

/-- One attempt to recover a stale book from the connection already serving it. -/
inductive RecoveryAttempt where
  | pending (due : Nat)
  | requested (due : Nat)
  | awaiting (due : Nat)
  | unreachable
  deriving DecidableEq, Repr

def RecoveryAttempt.wakeAt : RecoveryAttempt → Option Nat
  | pending due | requested due | awaiting due => some due
  | unreachable => none

/-- A running connection. `queued` says that its one-command control channel is occupied. -/
structure Supervisor.ActiveConnection where
  generation : Nat
  heartbeatDeadline : Option Nat
  lastHeartbeat : Option Nat
  subscriptionGeneration : Nat
  producedBase : Bool
  recovery : Option RecoveryAttempt
  queued : Bool
  deriving DecidableEq, Repr

namespace Supervisor.ActiveConnection

def spawned (generation : Nat) : ActiveConnection := ⟨generation, none, none, 0, false, none, false⟩

def heartbeatExpiry (self : ActiveConnection) : Option Nat :=
  match self.lastHeartbeat, self.heartbeatDeadline with
  | some last, some deadline => some (last + deadline)
  | _, _ => none

def isEstablished (self : ActiveConnection) : Bool := 0 < self.subscriptionGeneration

/-- Its task is running and its heartbeat evidence has not expired. -/
def isViable (self : ActiveConnection) (look : Look) : Bool :=
  !look.finished self.generation && self.heartbeatExpiry.all fun expiry => look.now < expiry

end Supervisor.ActiveConnection

/-- A connection role beyond the publishing one, and the shadow book its own snapshots feed. -/
structure Supervisor.Standby where
  active : Option Supervisor.ActiveConnection
  shadow : OrderBook

structure SupervisorConfig where
  market : String
  levelCapacity : LevelCapacity
  replicas : Nat
  pooled : Bool
  maxRecoveryAttempts : Nat
  resubscribeWindow : Nat
  daemonGeneration : Nat

inductive SupervisorError where
  | market
  | recoveryAttemptsZero
  | replicasOutOfRange
  | pool (error : PoolError)
  deriving DecidableEq, Repr

/-- `segmented` says that the book is also published into a segment. -/
structure Supervisor where
  config : SupervisorConfig
  market : MarketRef
  book : OrderBook
  segmented : Bool
  latestResolution : Option MarketResolution
  primary : Option Supervisor.ActiveConnection
  standbys : List Supervisor.Standby
  pool : Option PoolGate
  nextGeneration : Nat
  recoveryAttempts : Nat
  baseAccepted : Bool
  unavailableReported : Bool
  position : Nat

/-- The places that look at the clock and the connection tasks. -/
inductive Supervisor.Reading where
  | expiry (index : Nat)
  | decide
  | promote
  | handover
  | recovery
  | survivor
  | takeOver
  | preferred
  | fallback

abbrev Supervisor.Clock := Supervisor.Reading → Look

/-- What happens to the book when the publishing connection is lost. -/
inductive Supervisor.SourceSwitch where
  | promote (index : Nat)
  | refuse (authority : AuthorityReason)
  | absent

namespace Supervisor

def maxReplicas : Nat := 4

/-- The gate of a pooled configuration. -/
def poolOf (config : SupervisorConfig) : Except SupervisorError (Option PoolGate) :=
  if config.pooled then ((PoolGate.new orderbookUpdateDedupKey config.replicas).mapError .pool).map some
  else if config.replicas = 0 ∨ maxReplicas < config.replicas then .error .replicasOutOfRange
  else .ok none

def new (config : SupervisorConfig) (segmented : Bool) : Except SupervisorError Supervisor := do
  if config.maxRecoveryAttempts = 0 then .error .recoveryAttemptsZero
  else
    let pool ← poolOf config
    let market ← Fallible.orError (marketOfSlug config.market) .market
    .ok { config, market, book := .new market, segmented, latestResolution := none, primary := none,
          standbys := List.replicate (config.replicas - 1) ⟨none, .new market⟩, pool, nextGeneration := 1,
          recoveryAttempts := 0, baseAccepted := false, unavailableReported := false, position := 0 }

/-! ## Slots -/

variable (self : Supervisor)

def active : Slot → Option ActiveConnection
  | .primary => self.primary
  | .standby index => self.standbys[index]?.bind (·.active)

def hasSlot : Slot → Bool
  | .primary => true
  | .standby index => index < self.standbys.length

/-- Puts a connection into a role, or vacates it. -/
def setActive (slot : Slot) (connection : Option ActiveConnection) : Supervisor :=
  match slot with
  | .primary => { self with primary := connection }
  | .standby index => { self with standbys := self.standbys.modify index fun s => { s with active := connection } }

/-- `active_mut`: changes the connection a role holds, if it holds one. -/
def updateActive (slot : Slot) (f : ActiveConnection → ActiveConnection) : Supervisor :=
  match slot with
  | .primary => { self with primary := self.primary.map f }
  | .standby index => { self with standbys := self.standbys.modify index fun s => { s with active := s.active.map f } }

def slots : List Slot := .primary :: (List.range self.standbys.length).map .standby

def slotOf (generation : Nat) : Option Slot :=
  self.slots.find? fun slot => (self.active slot).any (·.generation = generation)

def poolArmed : Bool := self.pool.any (·.isArmed)

def updatePool (f : PoolGate → PoolGate) : Supervisor := { self with pool := self.pool.map f }

def firstViableStandby (look : Look) : Option Nat :=
  self.standbys.findIdx? fun standby => standby.active.any (·.isViable look)

def authorityIsLive : Bool := self.book.authority = .live

/-- Starts a connection in an empty role. -/
def spawnDue (slot : Slot) : Supervisor :=
  if self.hasSlot slot ∧ self.active slot = none then
    ({ self with nextGeneration := saturatingAdd self.nextGeneration 1 }.setActive slot
      (some (.spawned self.nextGeneration))).updatePool (·.resetSocket slot.index)
  else self

/-! ## Losses -/

def reportLoss (continuity : ContinuityReason) (authority : AuthorityReason) : Supervisor :=
  { self with
    primary := self.primary.map fun c => { c with producedBase := false }
    book := self.book.afterLoss continuity authority }

def reportShadowLoss (index : Nat) (continuity : ContinuityReason) (authority : AuthorityReason) : Supervisor :=
  { self with
    standbys := self.standbys.modify index fun s =>
      { active := s.active.map fun c => { c with producedBase := false }
        shadow := s.shadow.afterLoss continuity authority } }

/-- Every socket of an armed pool is an authoritative source; otherwise a role's loss is its own book's. -/
def reportSlotLoss (slot : Slot) (continuity : ContinuityReason) (authority : AuthorityReason) : Supervisor :=
  if self.poolArmed then
    match slot with
    | .primary => self.reportLoss continuity authority
    | .standby index => (self.reportLoss continuity authority).reportShadowLoss index continuity authority
  else
    match slot with
    | .primary => self.reportLoss continuity authority
    | .standby index => self.reportShadowLoss index continuity authority

def recoveryExhausted : Bool := self.config.maxRecoveryAttempts ≤ self.recoveryAttempts

def terminalAuthority (reason : AuthorityReason) : AuthorityReason :=
  if self.recoveryExhausted then .recoveryBaseUnavailable else reason

def reportExhaustion : Supervisor :=
  if self.recoveryAttempts < self.config.maxRecoveryAttempts ∨ self.unavailableReported then self
  else { self.reportLoss .reconnect .recoveryBaseUnavailable with unavailableReported := true }

/-- A generation that produced a base resets the attempts, any other spends one. -/
def spendAttempt (producedBase : Bool) : Supervisor :=
  { self with recoveryAttempts := if producedBase then 0 else min (self.recoveryAttempts + 1) u32Max }

/-! ## Applying -/

def applyAuthoritative (candidate : Candidate) : Supervisor × Bool :=
  match self.book.applySnapshot candidate with
  | .ok (book, _) => ({ self with book }, true)
  | .error _ => (self.reportLoss .localLoss .localLoss, false)

def applyShadow (index : Nat) (candidate : Candidate) : Supervisor × Bool :=
  match self.standbys[index]? with
  | none => (self, false)
  | some standby =>
    match standby.shadow.applySnapshot candidate with
    | .ok (shadow, _) => ({ self with standbys := self.standbys.modify index fun s => { s with shadow } }, true)
    | .error _ => (self.reportShadowLoss index .localLoss .localLoss, false)

def onBaseAccepted (slot : Slot) (authoritative : Bool) : Supervisor :=
  (if authoritative then { self with baseAccepted := true, recoveryAttempts := 0, unavailableReported := false }
    else self).updateActive slot fun c => { c with producedBase := true, recovery := none }

/-- A role that is also a standby keeps its own shadow current, whatever became of the arrival. -/
def shadowed (slot : Slot) (candidate : Candidate) : Supervisor :=
  match slot with
  | .primary => self
  | .standby index => (self.applyShadow index candidate).1

def publishPooled (slot : Slot) (candidate : Candidate) (key : Option DedupKey) : Supervisor :=
  match (self.shadowed slot candidate).applyAuthoritative candidate with
  | (refused, false) => refused
  | (applied, true) =>
    (match key with
      | some key => applied.updatePool (·.committed slot.index key)
      | none => applied).onBaseAccepted slot true

/-- Installs a redelivery of the published key as the stale book's recovery base. -/
def recoverPooled (slot : Slot) (candidate : Candidate) : Supervisor :=
  match (self.shadowed slot candidate).applyAuthoritative candidate with
  | (refused, false) => refused
  | (applied, true) => (applied.updatePool (·.recovered slot.index)).onBaseAccepted slot true

def shadowPooled (slot : Slot) (candidate : Candidate) : Supervisor :=
  match slot with
  | .primary => self
  | .standby index =>
    match self.applyShadow index candidate with
    | (refused, false) => refused
    | (applied, true) => applied.onBaseAccepted slot false

/-- Without a pool, the publishing role feeds the book and any other its shadow. -/
def applyByRole (slot : Slot) (candidate : Candidate) : Supervisor :=
  match slot with
  | .primary =>
    match self.applyAuthoritative candidate with
    | (refused, false) => refused
    | (applied, true) => applied.onBaseAccepted slot true
  | .standby index =>
    match self.applyShadow index candidate with
    | (refused, false) => refused
    | (applied, true) => applied.onBaseAccepted slot false

/-! ## Withdrawing the licence -/

/-- Exchanges the connections of the publishing role and of standby role `index`. -/
def exchangeWithPrimary (index : Nat) : Supervisor :=
  match self.standbys[index]?.bind (·.active) with
  | none => self
  | some taken =>
    { self with
      primary := some { taken with producedBase := self.authorityIsLive }
      standbys := self.standbys.modify index fun _ => ⟨self.primary, .new self.market⟩ }.updatePool
        (·.exchangeSockets 0 (index + 1))

/-- The role the book is handed back to: the last publisher's position, the publishing role, any that can deliver. -/
def chooseSource (clock : Clock) : Option Slot :=
  let viable := fun slot => (self.active slot).any (·.isViable (clock .preferred))
  (((self.pool.bind (·.lastPublisher)).map Slot.fromIndex).filter viable).or
    ((if viable .primary then some .primary else none).or ((self.firstViableStandby (clock .fallback)).map .standby))

def degradePool (reason : PoolDegradeReason) (clock : Clock) : Supervisor :=
  let degraded := self.updatePool fun gate => (gate.degrade reason).1
  match degraded.chooseSource clock with
  | some (.standby index) => degraded.exchangeWithPrimary index
  | _ => degraded

/-! ## Updates -/

def provenanceRole (slot : Slot) : ReplicaRole :=
  if self.poolArmed then .publishingPrimary else slot.role

/-- The candidate of one update, or nothing where its provenance or its levels are refused. -/
def candidateOf (slot : Slot) (update : OrderbookUpdate) (times : FrameTimes)
    (generation subscription : Nat) : Option Candidate :=
  match update.provenance self.market self.config.daemonGeneration self.position times generation subscription
      (self.provenanceRole slot) with
  | .error _ => none
  | .ok provenance => (update.snapshotCandidate provenance self.config.levelCapacity).toOption

/-- The arrival through the pool's gate. The arrival that withdraws the licence reaches no book. -/
def applyPooled (gate : PoolGate) (slot : Slot) (update : OrderbookUpdate) (candidate : Candidate)
    (clock : Clock) : Supervisor :=
  let key := update.arrivalKey
  let projection := candidateProjection candidate
  let redelivered := key.any fun key => gate.evidenceMatches key projection
  let recovering := !self.authorityIsLive
  let judged := gate.admitArrival slot.index key projection
  let self := { self with pool := some judged.1 }
  match judged.2 with
  | .publish => self.publishPooled slot candidate key
  | .duplicate =>
    if redelivered && recovering then self.recoverPooled slot candidate else self.shadowPooled slot candidate
  | .stale => self.shadowPooled slot candidate
  | .degrade violation => self.degradePool violation.reason clock
  | .disarmed => self.applyByRole slot candidate

def applyUpdate (slot : Slot) (update : OrderbookUpdate) (times : FrameTimes)
    (generation subscription : Nat) (clock : Clock) : Supervisor :=
  match checkedAdd self.position 1 with
  | none => self.reportSlotLoss slot .localLoss .localLoss
  | some position =>
    let self := { self with position }
    match self.candidateOf slot update times generation subscription with
    | none => self.reportSlotLoss slot .localLoss .localLoss
    | some candidate =>
      match self.pool with
      | none => self.applyByRole slot candidate
      | some gate =>
        if gate.isArmed then self.applyPooled gate slot update candidate clock else self.applyByRole slot candidate

def forwardResolution (resolved : MarketResolved) (times : FrameTimes) (generation subscription : Nat) : Supervisor :=
  match checkedAdd self.position 1 with
  | none => self
  | some position =>
    let self := { self with position }
    match resolved.resolution self.market self.book self.config.daemonGeneration position times generation subscription
        (self.provenanceRole .primary) with
    | none => self
    | some resolution =>
      let self := { self with latestResolution := some resolution }
      if self.segmented && !resolutionFitsTheRing resolution then self
      else
        match self.book.noteStreamEvent with
        | .ok (book, _) => { self with book }
        | .error _ => self

def onEvent (slot : Slot) (event : LimitlessEvent) (times : FrameTimes)
    (generation subscription : Nat) (clock : Clock) : Supervisor :=
  match event with
  | .orderbookUpdate update =>
    if update.marketSlug = self.config.market then
      self.applyUpdate slot update times generation subscription clock
    else self
  | .marketResolved resolved =>
    if slot = .primary ∧ resolved.slug = self.config.market then
      self.forwardResolution resolved times generation subscription
    else self
  | .unknown _ => self

/-! ## Connection ends -/

/-- Moves a standby's connection into the publishing role, when it is still viable. -/
def takeOver (index : Nat) (promoted : Bool) (look : Look) : Supervisor × Bool :=
  match self.standbys[index]?.bind (·.active) with
  | none => (self, false)
  | some connection =>
    if connection.isViable look then
      ({ self with
          primary := some { connection with producedBase := promoted }
          standbys := self.standbys.modify index fun _ => ⟨none, .new self.market⟩ }.updatePool
        (·.reassignSocket (index + 1) 0), true)
    else (self, false)

def onStandbyEnded (index : Nat) : Supervisor :=
  { self with standbys := self.standbys.modify index fun s => { s with shadow := .new self.market } }.updatePool
    (·.retireSocket (index + 1))

def expired (slot : Slot) (look : Look) : Bool :=
  ((self.active slot).bind (·.heartbeatExpiry)).any (· ≤ look.now)

/-- `fence_if_expired` of a standby role. -/
def fenceStandby (index : Nat) (look : Look) : Supervisor :=
  if self.expired (.standby index) look then (self.setActive (.standby index) none).onStandbyEnded index else self

def settleExpiredStandby (clock : Clock) : Supervisor :=
  (List.range self.standbys.length).foldl (fun self index => self.fenceStandby index (clock (.expiry index))) self

def decideSwitch (ended : ConnectionEndReason) (look : Look) : SourceSwitch :=
  let published := self.book.publish
  let eligible := fun (standby : Standby) =>
    standby.active.any fun connection =>
      agreement standby.shadow published = .agreeing ∧ published.authority = .live ∧ connection.isViable look
  match self.standbys.findIdx? eligible with
  | some index => .promote index
  | none =>
    match self.standbys.find? (·.active.isSome) with
    | some standby => .refuse (refusalReason (agreement standby.shadow published) ended)
    | none => .absent

def refuseSwitch (authority : AuthorityReason) (clock : Clock) : Supervisor :=
  let reported := (if self.baseAccepted then self.reportLoss .reconnect (self.terminalAuthority authority)
    else self).reportExhaustion
  match reported.firstViableStandby (clock .handover) with
  | some index => (reported.takeOver index false (clock .recovery)).1
  | none => reported

def applySwitch (switch : SourceSwitch) (ended : ConnectionEndReason) (clock : Clock) : Supervisor :=
  match switch with
  | .promote index =>
    match self.takeOver index true (clock .promote) with
    | (promoted, true) => promoted
    | (_, false) => self.refuseSwitch (refusalReason .agreeing ended) clock
  | .refuse authority => self.refuseSwitch authority clock
  | .absent =>
    (if self.baseAccepted then
        self.reportLoss (endReasonMapping ended).1 (self.terminalAuthority (endReasonMapping ended).2)
      else self).reportExhaustion

/-- The publishing slot's end while the pool holds its licence: coverage, not authority, is lost. -/
def onPoolSlotEnded (reason : ConnectionEndReason) (producedBase : Bool) (clock : Clock) : Supervisor :=
  let needsRecovery := !self.authorityIsLive
  let retired := (if needsRecovery then self.spendAttempt producedBase else self).updatePool (·.retireSocket 0)
  let moved :=
    match retired.firstViableStandby (clock .survivor) with
    | some index => (retired.takeOver index retired.authorityIsLive (clock .takeOver)).1
    | none =>
      if retired.baseAccepted then
        retired.reportLoss (endReasonMapping reason).1 (retired.terminalAuthority (endReasonMapping reason).2)
      else retired
  if needsRecovery then moved.reportExhaustion else moved

def onPrimaryEnded (reason : ConnectionEndReason) (producedBase : Bool) (clock : Clock) : Supervisor :=
  if self.poolArmed then self.onPoolSlotEnded reason producedBase clock
  else
    let settled := (self.settleExpiredStandby clock).spendAttempt producedBase
    settled.applySwitch (settled.decideSwitch reason (clock .decide)) reason clock

/-- A session lost to its own full notice queue hides a loss, which an armed pool reports first. -/
def onSlotEnded (slot : Slot) (reason : ConnectionEndReason) (producedBase established : Bool)
    (clock : Clock) : Supervisor :=
  let reported :=
    if self.poolArmed ∧ established ∧ reason = .noticeUndeliverable then self.reportLoss .localLoss .overload else self
  match slot with
  | .primary => reported.onPrimaryEnded reason producedBase clock
  | .standby index => reported.onStandbyEnded index

/-- Takes the connection out of its role and closes it. -/
def closeSlot (slot : Slot) (connection : ActiveConnection) (reason : ConnectionEndReason)
    (producedBase : Bool) (clock : Clock) : Supervisor :=
  (self.setActive slot none).onSlotEnded slot reason producedBase connection.isEstablished clock

/-- Closes a role whose heartbeat deadline stands. -/
def fenceIfExpired (slot : Slot) (look : Look) (clock : Clock) : Supervisor :=
  match self.active slot with
  | some connection =>
    if self.expired slot look then self.closeSlot slot connection .heartbeatTimeout connection.producedBase clock
    else self
  | none => self

/-! ## Recovery over the standing connection -/

def needsRecovery : Bool :=
  match self.book.authority with
  | .stale _ => true
  | _ => false

def armRecovery (now : Nat) : Supervisor :=
  { self with
    primary := self.primary.map fun c =>
      if !self.needsRecovery || !c.isEstablished then { c with recovery := none }
      else if c.recovery.isSome then c
      else { c with recovery := some (.pending now) } }

/-- Hands the connection one re-emit. A full channel is given the same deadline as a landed handover. -/
def emitResubscribe (grantedAt : Nat) (closed : Bool) : Supervisor :=
  { self with
    primary := self.primary.map fun c =>
      if closed then { c with recovery := some .unreachable }
      else { c with recovery := some (.requested (grantedAt + self.config.resubscribeWindow)), queued := true } }

def escalateRecovery (clock : Clock) : Supervisor :=
  match self.primary with
  | some connection => self.closeSlot .primary connection .resubscribeTimedOut false clock
  | none => self

/-- A due recovery attempt, after what the notice queue held has been applied. -/
def onRecoveryDue (look : Look) (grantedAt : Nat) (closed : Bool) (clock : Clock) : Supervisor :=
  let armed := self.armRecovery look.now
  match (armed.primary.bind (·.recovery)).filter fun attempt => attempt.wakeAt.any (· ≤ look.now) with
  | some (.pending _) => armed.emitResubscribe grantedAt closed
  | some (.requested _) | some (.awaiting _) => armed.escalateRecovery clock
  | some .unreachable | none => armed

/-! ## Notices -/

def onResubscribed (window subscription now : Nat) (c : ActiveConnection) : ActiveConnection :=
  { c with
    subscriptionGeneration := subscription
    recovery := match c.recovery with
      | some (.requested _) => some (.awaiting (now + window))
      | recovery => recovery }

/-- Accepts a notice from a generation that runs now. Anything else is late work and is discarded. -/
def onNotice (generation : Nat) (note : ConnectionNote) (look : Look) (clock : Clock) : Supervisor :=
  match self.slotOf generation with
  | none => self
  | some slot =>
    match note with
    | .ready heartbeatDeadline subscription observedAt =>
      self.updateActive slot fun c =>
        { c with
          heartbeatDeadline := some heartbeatDeadline, lastHeartbeat := some observedAt
          subscriptionGeneration := subscription }
    | .heartbeat observedAt => self.updateActive slot fun c => { c with lastHeartbeat := some observedAt }
    | .resubscribed subscription =>
      self.updateActive slot (onResubscribed self.config.resubscribeWindow subscription look.now)
    | .event event times subscription => self.onEvent slot event times generation subscription clock
    | .decodeFailure bookRelevant => if bookRelevant then self.reportSlotLoss slot .localLoss .localLoss else self
    | .overload _ => self.reportSlotLoss slot .localLoss .overload

end Supervisor

/-! ## Runs -/

/-- What can happen to a supervisor. A missed heartbeat is a sequence of notices around one `expire`. -/
inductive SupervisorEvent where
  | spawn (slot : Slot)
  | armRecovery (now : Nat)
  | notice (generation : Nat) (note : ConnectionNote) (look : Look) (clock : Supervisor.Clock)
  | takeCommand (generation : Nat)
  | recoveryDue (look : Look) (grantedAt : Nat) (closed : Bool) (clock : Supervisor.Clock)
  | expire (slot : Slot) (look : Look) (clock : Supervisor.Clock)
  | ended (slot : Slot) (reason : ConnectionEndReason) (clock : Supervisor.Clock)

def Supervisor.step (self : Supervisor) : SupervisorEvent → Option Supervisor
  | .spawn slot => some (self.spawnDue slot)
  | .armRecovery now => some (self.armRecovery now)
  | .notice generation note look clock => some (self.onNotice generation note look clock)
  | .takeCommand generation =>
    -- the connection empties its control channel whenever it gets to it
    (self.slotOf generation).map fun slot => self.updateActive slot fun c => { c with queued := false }
  | .recoveryDue look grantedAt closed clock => some (self.onRecoveryDue look grantedAt closed clock)
  | .expire slot look clock => some (self.fenceIfExpired slot look clock)
  | .ended slot reason clock =>
    (self.active slot).map fun connection => self.closeSlot slot connection reason connection.producedBase clock

end PmWs
