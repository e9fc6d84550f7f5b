import PmWs.Shm.StateSlot

/-!
# The segment writer

A segment holds a write-once directory of markets, one state slot and one
event ring for each, and a ring of dirty indices. Every slot carries a sequence
number that a completed write moves by two, and the segment counts its
publications. A publication is staged in full before anything is stored, so a
refused one leaves the segment as it was.
-/

open MachineInt Fallible

namespace PmWs

/-- One seqlocked slot: its sequence number and the last completed write. -/
structure SeqSlot (α : Type) where
  sequence : Nat
  stored : Option α

def SeqSlot.blank (α : Type) : SeqSlot α := ⟨0, none⟩

/-- One completed write. Both halves of the step are checked before it starts. -/
def SeqSlot.write {α : Type} (self : SeqSlot α) (value : α) : Except WriterError (SeqSlot α) := do
  let sequence ← orError (checkedAdd self.sequence 2) .counterOverflow
  .ok ⟨sequence, some value⟩

theorem SeqSlot.write_eq {α : Type} (self : SeqSlot α) (value : α) : self.write value =
    if self.sequence + 2 ≤ u64Max then .ok ⟨self.sequence + 2, some value⟩ else .error .counterOverflow := by
  unfold write checkedAdd fit
  split <;> rfl

/-- One market's place in the segment. `written` is every event ever published into its ring, read by nobody. -/
structure InstalledMarket where
  market : MarketRef
  state : SeqSlot PublishedBook
  events : List (SeqSlot StreamDelivery)
  written : List StreamDelivery

/-- `dirty` names the directory index and the book revision of each state publication, in a ring. -/
structure SegmentWriter where
  layout : SegmentLayout
  installed : List InstalledMarket
  generation : Nat
  dirty : List (SeqSlot (Nat × Nat))
  dirtyPosition : Nat

/-- An index into the directory that `install` handed out. -/
abbrev MarketHandle := Nat

namespace SegmentWriter

def create (layout : SegmentLayout) : SegmentWriter :=
  ⟨layout, [], 0, List.replicate layout.dirtyCapacity (.blank _), 0⟩

def install (self : SegmentWriter) (market : MarketRef) : Except WriterError (SegmentWriter × MarketHandle) :=
  let index := self.installed.length
  if self.installed.any fun installed => installed.market = market then .error .marketAlreadyInstalled
  else if self.layout.directoryCapacity ≤ index then .error .directoryFull
  else if (Codec.encodeIdentity market identityCapacity).isNone then .error .identityTooLong
  else if self.layout.stateSlotCapacity ≤ index then .error .segment
  else
    .ok ({ self with
            installed := self.installed ++
              [⟨market, .blank _, List.replicate self.layout.eventCapacity (.blank _), []⟩] }, index)

/-- The part a handle names, when it is the one `market` was installed at. -/
def partFor (self : SegmentWriter) (handle : MarketHandle) (market : MarketRef) : Except WriterError InstalledMarket :=
  match self.installed[handle]? with
  | none => .error .unknownHandle
  | some installed => if installed.market = market then .ok installed else .error .marketMismatch

theorem partFor_ok {self : SegmentWriter} {handle : MarketHandle} {market : MarketRef} {part : InstalledMarket}
    (h : self.partFor handle market = .ok part) : self.installed[handle]? = some part ∧ part.market = market := by
  unfold partFor at h
  split at h
  · cases h
  · rename_i found hfound
    split at h
    · rename_i hmarket
      obtain rfl := Except.ok.inj h
      exact ⟨hfound, hmarket⟩
    · cases h

def publish (self : SegmentWriter) (handle : MarketHandle) (book : PublishedBook) : Except WriterError SegmentWriter := do
  let installed ← self.partFor handle book.market
  let _ ← Abi.stage self.layout.levelCapacity book
  let slot := self.dirtyPosition % self.layout.dirtyCapacity
  let dirty ← orError self.dirty[slot]? .segment
  let marked ← dirty.write (handle, book.revision)
  let generation ← orError (checkedAdd self.generation 1) .counterOverflow
  let state ← installed.state.write book
  .ok { self with
        installed := self.installed.set handle { installed with state }
        generation
        dirty := self.dirty.set slot marked
        dirtyPosition := (self.dirtyPosition + 1) % 2 ^ 64 }

/-- Stores one staged event at the ring slot its cursor maps to. -/
def publishEvent (self : SegmentWriter) (handle : MarketHandle) (installed : InstalledMarket)
    (delivery : StreamDelivery) : Except WriterError SegmentWriter := do
  let slot := delivery.cursor.position % self.layout.eventCapacity
  let event ← orError installed.events[slot]? .segment
  let generation ← orError (checkedAdd self.generation 1) .counterOverflow
  let stored ← event.write delivery
  .ok { self with
        installed := self.installed.set handle
          { installed with events := installed.events.set slot stored, written := installed.written ++ [delivery] }
        generation }

def publishMutation (self : SegmentWriter) (handle : MarketHandle) (revision : Nat) (cursor : MutationCursor)
    (mutation : BookMutation) : Except WriterError SegmentWriter := do
  let installed ← self.partFor handle mutation.provenance.market
  let _ ← Abi.stageMutation mutation
  self.publishEvent handle installed (.mutation revision cursor mutation)

def publishResolution (self : SegmentWriter) (handle : MarketHandle) (revision : Nat) (cursor : MutationCursor)
    (resolution : MarketResolution) : Except WriterError SegmentWriter := do
  let installed ← self.partFor handle resolution.provenance.market
  let _ ← Abi.stageResolution resolution
  self.publishEvent handle installed (.resolution revision cursor resolution)

end SegmentWriter

end PmWs
