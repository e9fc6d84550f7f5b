import PmWs.Book.MutationReplay
import PmWs.Lib.Broadcast

/-!
# The book writer and its in-process observers

The writer publishes each new state into a latest-value cell and then sends
the deliveries of the commit into a broadcast channel. An observer reads one
state and follows the channel from there, until a delivery tells it that the
stream was rebased or that the channel outran it. The channel is a parameter.
-/

open MachineInt Broadcast

namespace PmWs

/-! ## Published state and deliveries -/

/-- An immutable view of one book revision. -/
structure PublishedBook where
  market : MarketRef
  levels : List Level
  authority : AuthorityState
  continuity : MutationContinuity
  revision : Nat
  provenance : Option Provenance
  syncDivergences : Nat
  deriving DecidableEq

def OrderBook.publish (self : OrderBook) : PublishedBook where
  market := self.market
  levels := self.levels.toList.map fun entry => levelAt entry.1 entry.2
  authority := self.authority
  continuity := self.continuity
  revision := self.revision
  provenance := self.provenance
  syncDivergences := self.syncDivergences

/-- What one book's single ordered delivery lane carries. -/
inductive StreamDelivery where
  | mutation (revision : Nat) (cursor : MutationCursor) (mutation : BookMutation)
  | resolution (revision : Nat) (cursor : MutationCursor) (resolution : MarketResolution)

def StreamDelivery.cursor : StreamDelivery → MutationCursor
  | mutation _ cursor _ => cursor
  | resolution _ cursor _ => cursor

def BookCommit.deliveries (self : BookCommit) : List StreamDelivery :=
  self.mutations.map fun record => .mutation self.revision record.cursor record.mutation

/-! ## The writer -/

/-- `unsent` holds the deliveries of the last commit that have not reached the channel yet: the writer sends them
one by one after publishing the state. -/
structure BookWriter (σ : Type) where
  book : OrderBook
  state : PublishedBook
  deliveries : σ
  unsent : List StreamDelivery

inductive WriterCall where
  | applySnapshot (candidate : Candidate)
  | applySourceDelta (candidate : Candidate)
  | publishResolution (resolution : MarketResolution)
  | unsubscribe
  | reportContinuityLoss (continuity : ContinuityReason) (authority : AuthorityReason)

/-- A call on the book: what it delivers, and whether there is a new state to publish. -/
def streamCall (book : OrderBook) : WriterCall → Except BookError (OrderBook × List StreamDelivery × Bool)
  | .applySnapshot candidate => do
    let (book, commit) ← book.applySnapshot candidate
    .ok (book, commit.deliveries, true)
  | .applySourceDelta candidate => do
    let (book, commit) ← book.applySourceDelta candidate
    .ok (book, commit.deliveries, true)
  | .publishResolution resolution => do
    let (book, cursor) ← book.noteStreamEvent
    .ok (book, [.resolution book.revision cursor resolution], true)
  | .unsubscribe => do
    let (book, changed) ← book.unsubscribe
    .ok (book, [], changed)
  | .reportContinuityLoss continuity authority => do
    let (book, changed) ← book.reportContinuityLoss continuity authority
    .ok (book, [], changed)

variable {σ ρ : Type}

namespace BookWriter

def new (book : OrderBook) (deliveries : σ) : BookWriter σ := ⟨book, book.publish, deliveries, []⟩

/-- Publishes the book's new state and leaves `deliveries` to be sent. -/
def publishThenSend (self : BookWriter σ) (book : OrderBook) (deliveries : List StreamDelivery) : BookWriter σ :=
  { self with book, state := book.publish, unsent := self.unsent ++ deliveries }

def applySnapshot (self : BookWriter σ) (candidate : Candidate) : Except BookError (BookWriter σ × BookCommit) := do
  let (book, commit) ← self.book.applySnapshot candidate
  .ok (self.publishThenSend book commit.deliveries, commit)

def applySourceDelta (self : BookWriter σ) (candidate : Candidate) : Except BookError (BookWriter σ × BookCommit) := do
  let (book, commit) ← self.book.applySourceDelta candidate
  .ok (self.publishThenSend book commit.deliveries, commit)

def publishResolution (self : BookWriter σ) (resolution : MarketResolution) :
    Except BookError (BookWriter σ × StreamDelivery) := do
  let (book, cursor) ← self.book.noteStreamEvent
  let delivery := StreamDelivery.resolution book.revision cursor resolution
  .ok (self.publishThenSend book [delivery], delivery)

def unsubscribe (self : BookWriter σ) : Except BookError (BookWriter σ × Bool) := do
  let (book, changed) ← self.book.unsubscribe
  .ok (if changed then self.publishThenSend book [] else { self with book }, changed)

def reportContinuityLoss (self : BookWriter σ) (continuity : ContinuityReason) (authority : AuthorityReason) :
    Except BookError (BookWriter σ × Bool) := do
  let (book, changed) ← self.book.reportContinuityLoss continuity authority
  .ok (if changed then self.publishThenSend book [] else { self with book }, changed)

/-- One call, whichever it is. -/
def call (self : BookWriter σ) : WriterCall → Except BookError (BookWriter σ)
  | .applySnapshot candidate => (self.applySnapshot candidate).map Prod.fst
  | .applySourceDelta candidate => (self.applySourceDelta candidate).map Prod.fst
  | .publishResolution resolution => (self.publishResolution resolution).map Prod.fst
  | .unsubscribe => self.unsubscribe.map Prod.fst
  | .reportContinuityLoss continuity authority => (self.reportContinuityLoss continuity authority).map Prod.fst

/-- The five calls publish what `streamCall` says. -/
theorem call_eq (self : BookWriter σ) (call : WriterCall) :
    self.call call = (streamCall self.book call).map fun (book, deliveries, changed) =>
      if changed then self.publishThenSend book deliveries else { self with book } := by
  cases call with
  | applySnapshot candidate =>
    simp only [BookWriter.call, applySnapshot, streamCall]
    cases self.book.applySnapshot candidate <;> rfl
  | applySourceDelta candidate =>
    simp only [BookWriter.call, applySourceDelta, streamCall]
    cases self.book.applySourceDelta candidate <;> rfl
  | publishResolution resolution =>
    simp only [BookWriter.call, publishResolution, streamCall]
    cases self.book.noteStreamEvent <;> rfl
  | unsubscribe =>
    simp only [BookWriter.call, unsubscribe, streamCall]
    cases self.book.unsubscribe <;> rfl
  | reportContinuityLoss continuity authority =>
    simp only [BookWriter.call, reportContinuityLoss, streamCall]
    cases self.book.reportContinuityLoss continuity authority <;> rfl

end BookWriter

/-! ## The observer -/

inductive ObserverRecvError where
  | continuityLost (reason : ContinuityReason) (missed : Nat)
  | closed
  deriving DecidableEq, Repr

inductive OverrunVerdict where
  | harmless
  | lost
  deriving DecidableEq, Repr

/-- Judges an overrun against the boundary the attachment started from. -/
def classifyOverrun (boundary : MutationCursor) (resumed : Option MutationCursor) : OverrunVerdict :=
  match resumed with
  | some cursor => if cursor.epoch = boundary.epoch ∧ cursor.position ≤ boundary.position then .harmless else .lost
  | none => .lost

/-- One attachment. `receiver` follows the channel, `pending` is an overrun not yet judged. -/
structure BookObserver (ρ : Type) where
  receiver : ρ
  resumeAfter : Nat
  boundary : MutationCursor
  cursor : MutationCursor
  continuous : Bool
  pending : Option Nat
  lost : Option ObserverRecvError
  closed : Bool
  deriving DecidableEq, Repr

/-- The next position of an intact stream, or the start of a lost one's epoch. -/
def attachmentCursor (published : PublishedBook) : MutationCursor :=
  match published.continuity with
  | .intact epoch nextPosition => ⟨epoch, nextPosition⟩
  | .lost epoch _ => ⟨epoch, 0⟩

def BookWriter.attach (self : BookWriter σ) (channel : Operations StreamDelivery σ ρ) : BookObserver ρ where
  receiver := channel.subscribe self.deliveries
  resumeAfter := self.state.revision
  boundary := attachmentCursor self.state
  cursor := attachmentCursor self.state
  continuous := true
  pending := none
  lost := none
  closed := false

/-- What one pass of a receive loop did. -/
inductive Received where
  | delivered (delivery : StreamDelivery)
  | passedOver
  | lagged
  | empty
  | failed (error : ObserverRecvError)

namespace BookObserver

variable (self : BookObserver ρ)

/-- The first half of `reattach`: the receiver moves to the channel's tail. -/
def resubscribe (channel : Operations StreamDelivery σ ρ) (deliveries : σ) : BookObserver ρ :=
  { self with receiver := channel.resubscribe deliveries self.receiver }

/-- The second half: the attachment starts over from the state it reads. -/
def restart (published : PublishedBook) : BookObserver ρ :=
  { self with
    resumeAfter := published.revision
    boundary := attachmentCursor published
    cursor := attachmentCursor published
    continuous := true
    pending := none
    lost := none }

/-- Whether the state this attachment read already contains the delivery. -/
def redundant : StreamDelivery → Bool
  | .mutation revision _ _ => revision ≤ self.resumeAfter
  | .resolution _ cursor _ =>
    cursor.epoch < self.boundary.epoch ∨ (cursor.epoch = self.boundary.epoch ∧ cursor.position < self.boundary.position)

def fail (error : ObserverRecvError) : BookObserver ρ × ObserverRecvError :=
  ({ self with lost := some error, continuous := false }, error)

/-- Judges an unresolved overrun; it is cleared either way. -/
def resolve (resumed : Option MutationCursor) : BookObserver ρ × Option ObserverRecvError :=
  match self.pending with
  | none => (self, none)
  | some missed =>
    match classifyOverrun self.boundary resumed with
    | .harmless => ({ self with pending := none }, none)
    | .lost =>
      let (failed, error) := { self with pending := none }.fail (.continuityLost .overrun missed)
      (failed, some error)

/-- The decision every received delivery passes through: redundant, fenced, or the consumer's next one. -/
def admitDelivery (delivery : StreamDelivery) : BookObserver ρ × Received :=
  if self.redundant delivery then ({ self with pending := none }, .passedOver)
  else if delivery.cursor.epoch ≠ self.boundary.epoch then
    let (failed, error) := { self with pending := none }.fail (.continuityLost .recoveryBase (self.pending.getD 0))
    (failed, .failed error)
  else
    match self.resolve (some delivery.cursor) with
    | (resolved, some error) => (resolved, .failed error)
    | (resolved, none) => ({ resolved with cursor := delivery.cursor }, .delivered delivery)

def overran (missed : Nat) : BookObserver ρ :=
  { self with pending := some (saturatingAdd (self.pending.getD 0) missed) }

/-- The writer is gone and the ring is drained. -/
def atClose : BookObserver ρ × Received :=
  match self.resolve none with
  | (resolved, some error) => (resolved, .failed error)
  | (resolved, none) => ({ resolved with closed := true }, .failed .closed)

/-- One pass of the loop `try_recv`, `recv` and `next_event` share. A standing loss is repeated. -/
def receive (channel : Operations StreamDelivery σ ρ) (deliveries : σ) : BookObserver ρ × Received :=
  match self.lost with
  | some error => (self, .failed error)
  | none =>
    match channel.tryRecv deliveries self.receiver with
    | .value delivery receiver => { self with receiver }.admitDelivery delivery
    | .lagged missed receiver => ({ self with receiver }.overran missed, .lagged)
    | .empty => (self, .empty)
    | .closed => self.atClose

end BookObserver

/-! ## Runs -/

/-- A writer and one of its attachments. Attachments do not affect the writer or each other. `gone` says that the
writer was dropped, `restarting` that the attachment is between the two halves of its `reattach`. -/
structure ObserverWorld (σ ρ : Type) where
  writer : BookWriter σ
  gone : Bool
  observer : Option (BookObserver ρ)
  restarting : Bool

inductive ObserverEvent where
  | call (call : WriterCall)
  | send
  | close
  | attach
  | resubscribe
  | restart
  | receive

namespace ObserverWorld

def start (book : OrderBook) (deliveries : σ) : ObserverWorld σ ρ := ⟨.new book deliveries, false, none, false⟩

def step (channel : Operations StreamDelivery σ ρ) (self : ObserverWorld σ ρ) :
    ObserverEvent → Option (ObserverWorld σ ρ)
  | .call call =>
    -- the writer is borrowed until the sends of its last call are done
    match self.writer.unsent, self.gone with
    | [], false =>
      match self.writer.call call with
      | .ok writer => some { self with writer }
      | .error _ => some self
    | _, _ => none
  | .send =>
    match self.writer.unsent with
    | [] => none
    | delivery :: rest =>
      some { self with writer.deliveries := channel.send self.writer.deliveries delivery, writer.unsent := rest }
  | .close =>
    match self.writer.unsent with
    | [] => some { self with writer.deliveries := channel.close self.writer.deliveries, gone := true }
    | _ :: _ => none
  | .attach =>
    if self.gone then none else some { self with observer := some (self.writer.attach channel), restarting := false }
  | .resubscribe =>
    if self.restarting then none
    else self.observer.map fun observer =>
      { self with observer := some (observer.resubscribe channel self.writer.deliveries), restarting := true }
  | .restart =>
    -- the writer may have run since the attachment resubscribed
    if self.restarting then
      self.observer.map fun observer =>
        { self with observer := some (observer.restart self.writer.state), restarting := false }
    else none
  | .receive =>
    if self.restarting then none
    else self.observer.map fun observer =>
      { self with observer := some (observer.receive channel self.writer.deliveries).1 }

end ObserverWorld

end PmWs
