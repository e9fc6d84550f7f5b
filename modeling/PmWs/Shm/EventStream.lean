import PmWs.Shm.Writer

/-!
# The shared-memory event stream

The same book published into a segment: every commit writes its events into a
wrapping ring and then its state into the state slot. A stream keeps its own
cursor, checks the state slot's continuity on every poll and then reads the
ring slot its cursor maps to. Each slot read is one read of the slot's last
completed publication.
-/

open MachineInt

namespace PmWs

/-! ## The segment -/

/-- One publication into a segment: an event into its ring slot, or the latest state. -/
inductive SegmentWrite where
  | event (delivery : StreamDelivery)
  | state (published : PublishedBook)

/-- One market's part of a segment. `written` is every event ever published into it, read by nobody. -/
structure BookSegment where
  eventCapacity : Nat
  state : Option PublishedBook
  ring : List (Option StreamDelivery)
  failure : Option WriterError
  written : List StreamDelivery

namespace BookSegment

def formatted (eventCapacity : Nat) : BookSegment := ⟨eventCapacity, none, List.replicate eventCapacity none, none, []⟩

def write (self : BookSegment) : SegmentWrite → BookSegment
  | .event delivery =>
    { self with
      ring := self.ring.set (delivery.cursor.position % self.eventCapacity) (some delivery)
      written := self.written ++ [delivery] }
  | .state published => { self with state := some published }

/-- The event at the ring slot a position maps to. -/
def eventAt (self : BookSegment) (position : Nat) : Option StreamDelivery :=
  (self.ring[position % self.eventCapacity]?).join

end BookSegment

/-- The publications of one call, events before state. -/
def segmentWrites (book : OrderBook) (deliveries : List StreamDelivery) (changed : Bool) : List SegmentWrite :=
  if changed then deliveries.map .event ++ [.state book.publish] else []

/-! ## The stream -/

/-- `left > right`, the epoch first. -/
def later (left right : MutationCursor) : Bool :=
  right.epoch < left.epoch ∨ (left.epoch = right.epoch ∧ right.position < left.position)

/-- A consumer's attachment. `probing` is between a poll's two reads. -/
structure EventStream where
  cursor : MutationCursor
  lost : Option ContinuityReason
  probing : Bool
  deriving DecidableEq, Repr

inductive EventPoll where
  | delivered (event : StreamDelivery)
  | idle
  | lost (reason : ContinuityReason)

namespace EventStream

def lose (self : EventStream) (reason : ContinuityReason) : EventStream × EventPoll :=
  ({ self with lost := some reason, probing := false }, .lost reason)

/-- A poll's first read: the state slot's continuity. `none` lets the poll go on to the ring. -/
def pollState (self : EventStream) (continuity : MutationContinuity) : EventStream × Option EventPoll :=
  match self.lost with
  | some reason => (self, some (.lost reason))
  | none =>
    match continuity with
    | .intact epoch _ =>
      if epoch ≠ self.cursor.epoch then (self.lose .recoveryBase).map id some else ({ self with probing := true }, none)
    | .lost epoch reason =>
      (self.lose (if epoch = self.cursor.epoch then reason else .recoveryBase)).map id some

/-- A poll's second read: the ring slot at the cursor. -/
def pollEvent (self : EventStream) (stored : Option StreamDelivery) : EventStream × EventPoll :=
  match stored with
  | none => ({ self with probing := false }, .idle)
  | some event =>
    if event.cursor.epoch > self.cursor.epoch then self.lose .recoveryBase
    else if later event.cursor self.cursor then self.lose .overrun
    else if event.cursor ≠ self.cursor then ({ self with probing := false }, .idle)
    else
      match checkedAdd self.cursor.position 1 with
      | none => self.lose .localLoss
      | some next => ({ self with cursor := ⟨self.cursor.epoch, next⟩, probing := false }, .delivered event)

end EventStream

/-! ## Runs -/

/-- A book, the publications of its last call still to be made, the segment, and one attachment. `attaching` is
the cursor of an attachment that has read the state and not yet probed the ring. -/
structure SegmentWorld where
  book : OrderBook
  pending : List SegmentWrite
  segment : BookSegment
  attaching : Option MutationCursor
  stream : Option EventStream

inductive SegmentEvent where
  | call (call : WriterCall)
  | publish
  | refuse (error : WriterError)
  | attachRead
  | attachProbe
  | pollState
  | pollEvent

namespace SegmentWorld

/-- A freshly installed market: the first publication is the book's state. -/
def start (book : OrderBook) (eventCapacity : Nat) : SegmentWorld :=
  ⟨book, [.state book.publish], .formatted eventCapacity, none, none⟩

def step (self : SegmentWorld) : SegmentEvent → Option SegmentWorld
  | .call call =>
    match self.pending with
    | _ :: _ => none
    | [] =>
      match streamCall self.book call with
      | .error _ => some self
      | .ok (book, deliveries, changed) =>
        some { self with
          book
          pending := if self.segment.failure.isSome then [] else segmentWrites book deliveries changed }
  | .publish =>
    match self.pending with
    | [] => none
    | write :: rest => some { self with segment := self.segment.write write, pending := rest }
  | .refuse error =>
    match self.pending with
    | [] => none
    | _ :: _ => some { self with segment := { self.segment with failure := some error }, pending := [] }
  | .attachRead =>
    match self.segment.state with
    | none => none
    | some published =>
      match published.continuity with
      | .lost epoch reason => some { self with attaching := none, stream := some ⟨⟨epoch, 0⟩, some reason, false⟩ }
      | .intact epoch nextPosition => some { self with attaching := some ⟨epoch, nextPosition⟩ }
  | .attachProbe =>
    match self.attaching with
    | none => none
    | some cursor =>
      -- an attachment the ring has already lapped starts over
      if (self.segment.eventAt cursor.position).any fun event => later event.cursor cursor then
        some { self with attaching := none }
      else some { self with attaching := none, stream := some ⟨cursor, none, false⟩ }
  | .pollState =>
    match self.stream, self.segment.state with
    | some stream, some published => some { self with stream := some (stream.pollState published.continuity).1 }
    | _, _ => none
  | .pollEvent =>
    match self.stream with
    | none => none
    | some stream =>
      if stream.probing then
        some { self with stream := some (stream.pollEvent (self.segment.eventAt stream.cursor.position)).1 }
      else none

end SegmentWorld

end PmWs
