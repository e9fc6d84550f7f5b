import PmWs.Lib.Transactions
import PmWs.Shm.SeqCell
import PmWs.Shm.StateSlot

/-!
# A segment in memory

The writer and the reader of one region, down to its bytes. A publication makes
all its checks, then opens the slot with an odd counter, stores the data words
and closes it with the next even one.
-/

open MachineInt Memory Fallible Transactions

namespace PmWs.Abi

open Codec

def hdrPublicationGeneration : Nat := 128
def hdrDoorbell : Nat := 136

def entRevision : Nat := 0
def entSlotIndex : Nat := 8
def entIdentityLen : Nat := 12
def entIdentity : Nat := 16

def dirtySequence : Nat := 0
def dirtyPosition : Nat := 8
def dirtyDirectoryIndex : Nat := 16
def dirtyBookRevision : Nat := 24

def noStateSlot : Nat := u32Max
def gateClaimed : Nat := u64Max

/-- Which attachment a handle belongs to. -/
structure SegmentBinding where
  attachment : Nat
  daemonInstanceId : Nat
  segmentGeneration : Nat
  deriving DecidableEq, Repr

structure MarketHandle where
  segment : SegmentBinding
  entryIndex : Nat
  stateSlotIndex : Nat
  deriving DecidableEq, Repr

/-! ## The writer -/

structure InstalledMarket where
  market : MarketRef
  commitTime : Nat
  arrivalTime : Nat
  deriving DecidableEq

/-- Where consumers park: on the header's word, or on the word of a sibling page that mirrors it. -/
inductive Doorbell where
  | inHeader
  | page (word : Nat)
  deriving DecidableEq, Repr

structure SegmentWriter where
  region : Region
  layout : SegmentLayout
  binding : SegmentBinding
  installed : List InstalledMarket
  doorbell : Doorbell
  dirtyPosition : Nat

/-- A call on the writer. What it did before it failed stays done. -/
abbrev Call := EStateM WriterError SegmentWriter

structure StagedDirty where
  position : Nat
  inFlight : Nat
  nextStable : Nat

def reach (record : Except SegmentFault Record) : Except WriterError Record := record.mapError fun _ => .segment

def nextCount (counter step : Nat) : Except WriterError Nat := orError (checkedAdd counter step) .counterOverflow

theorem nextCount_eq_ok {counter step next : Nat} :
    nextCount counter step = .ok next ↔ counter + step ≤ u64Max ∧ counter + step = next := by
  simp [nextCount]

theorem reach_eq_ok {record : Except SegmentFault Record} {found : Record} :
    reach record = .ok found ↔ record = .ok found := mapError_eq_ok

namespace SegmentWriter

def store (self : SegmentWriter) (record : Record) (stores : List Store) : SegmentWriter :=
  { self with region := self.region.store record stores }

section
variable (self : SegmentWriter) (record : Record) (stores : List Store)

@[simp] theorem store_region : (self.store record stores).region = self.region.store record stores := rfl
@[simp] theorem store_layout : (self.store record stores).layout = self.layout := rfl
@[simp] theorem store_installed : (self.store record stores).installed = self.installed := rfl
@[simp] theorem store_binding : (self.store record stores).binding = self.binding := rfl

end

def word (self : SegmentWriter) (record : Record) (offset width : Nat) : Nat :=
  load (self.region.bytesAt record) offset width

def publicationGeneration (self : SegmentWriter) : Nat :=
  match headerRecord self.region with
  | .ok header => self.word header hdrPublicationGeneration 8
  | .error _ => 0

/-- The handle is one this writer issued, and `market` is what it was issued for. -/
def admits (self : SegmentWriter) (handle : MarketHandle) (market : MarketRef) : Except WriterError Unit :=
  if handle.segment ≠ self.binding ∨ handle.stateSlotIndex ≠ handle.entryIndex then .error .unknownHandle
  else
    match self.installed[handle.entryIndex]? with
    | none => .error .unknownHandle
    | some installed => if installed.market = market then .ok () else .error .marketMismatch

def stageDirty (self : SegmentWriter) : Except WriterError StagedDirty := do
  let position := self.dirtyPosition
  let slot ← reach (dirtySlotRecord self.region self.layout position)
  let stable := self.word slot dirtySequence 8
  let inFlight ← nextCount stable 1
  let nextStable ← nextCount stable 2
  .ok ⟨position, inFlight, nextStable⟩

def commitDirty (staged : StagedDirty) (index bookRevision : Nat) (self : SegmentWriter) : SegmentWriter :=
  match dirtySlotRecord self.region self.layout staged.position with
  | .error _ => self
  | .ok slot =>
    self.store slot
      [word64 dirtySequence staged.inFlight, word64 Abi.dirtyPosition staged.position, word32 dirtyDirectoryIndex index,
        word64 dirtyBookRevision bookRevision, word64 dirtySequence staged.nextStable]

def ringDoorbell (header : Record) (self : SegmentWriter) : SegmentWriter :=
  let bumped := (self.word header hdrDoorbell 4 + 1) % 2 ^ 32
  let rung := self.store header [word32 hdrDoorbell bumped]
  match self.doorbell with
  | .inHeader => rung
  | .page _ => { rung with doorbell := .page bumped }

/-- The stores of a state publication, from the odd counter on. -/
def commitState (header slot : Record) (index inFlight nextStable nextGeneration : Nat) (dirty : StagedDirty)
    (commitTime arrivalTime : Nat) (staged : StagedState) (levels : List LevelWords) (self : SegmentWriter) :
    SegmentWriter :=
  let self := self.store slot [word64 slotRevision inFlight]
  let self := self.store slot (stateStores commitTime arrivalTime staged levels)
  let self := self.store slot [word64 slotRevision nextStable]
  let self := self.commitDirty dirty index staged.bookRevision
  let self := self.ringDoorbell header
  let self := self.store header [word64 hdrPublicationGeneration nextGeneration]
  { self with
    dirtyPosition := (dirty.position + 1) % 2 ^ 64
    installed := self.installed.modify index fun installed => { installed with commitTime, arrivalTime } }

/-- `publish_stamped`. `publish` is this with the clock's time, and a republication carries the stamps of the last. -/
def publishStamped (handle : MarketHandle) (book : PublishedBook) (commitTime arrivalTime : Nat) : Call Unit := do
  let index := handle.entryIndex
  check fun self => self.admits handle book.market
  let (staged, levels) ← check fun self => stage self.layout.levelCapacity book
  let dirty ← check stageDirty
  let header ← check fun self => reach (headerRecord self.region)
  let slot ← check fun self => reach (stateSlotRecord self.region self.layout index)
  let nextGeneration ← check fun self => nextCount (self.word header hdrPublicationGeneration 8) 1
  let inFlight ← check fun self => nextCount (self.word slot slotRevision 8) 1
  let nextStable ← check fun self => nextCount (self.word slot slotRevision 8) 2
  update (commitState header slot index inFlight nextStable nextGeneration dirty commitTime arrivalTime staged levels)

def publish (now : Nat) (handle : MarketHandle) (book : PublishedBook) (arrivalTime : Nat) : Call Unit :=
  publishStamped handle book now arrivalTime

/-- The stores of an event publication, from the odd counter on. -/
def commitEvent (header slot : Record) (inFlight nextStable nextGeneration : Nat) (stores : List Store)
    (self : SegmentWriter) : SegmentWriter :=
  let self := self.store slot [word64 evtSequence inFlight]
  let self := self.store slot stores
  let self := self.store slot [word64 evtSequence nextStable]
  let self := self.ringDoorbell header
  self.store header [word64 hdrPublicationGeneration nextGeneration]

/-- Both event publications once they are staged. -/
def publishEvent (index position : Nat) (stores : List Store) : Call Unit := do
  let header ← check fun self => reach (headerRecord self.region)
  let slot ← check fun self => reach (eventSlotRecord self.region self.layout index position)
  let nextGeneration ← check fun self => nextCount (self.word header hdrPublicationGeneration 8) 1
  let inFlight ← check fun self => nextCount (self.word slot evtSequence 8) 1
  let nextStable ← check fun self => nextCount (self.word slot evtSequence 8) 2
  update (commitEvent header slot inFlight nextStable nextGeneration stores)

def publishMutation (now : Nat) (handle : MarketHandle) (revision : Nat) (cursor : MutationCursor)
    (mutation : BookMutation) (arrivalTime : Nat) : Call Unit := do
  let index := handle.entryIndex
  check fun self => self.admits handle mutation.provenance.market
  let staged ← check fun _ => stageMutation mutation
  publishEvent index cursor.position (mutationStores index revision cursor now arrivalTime staged)

def publishResolution (now : Nat) (handle : MarketHandle) (revision : Nat) (cursor : MutationCursor)
    (resolution : MarketResolution) (arrivalTime : Nat) : Call Unit := do
  let index := handle.entryIndex
  check fun self => self.admits handle resolution.provenance.market
  let staged ← check fun _ => stageResolution resolution
  publishEvent index cursor.position (resolutionStores index revision cursor now arrivalTime staged)

/-! ### Refusals -/

/-- Every check of a publication comes before its first store. -/
theorem publishStamped_atomic (handle : MarketHandle) (book : PublishedBook) (commitTime arrivalTime : Nat) :
    Atomic (publishStamped handle book commitTime arrivalTime) := by
  refine .check_bind fun _ => .check_bind fun ⟨_, _⟩ => .check_bind fun _ => .check_bind fun _ => ?_
  exact .check_bind fun _ => .check_bind fun _ => .check_bind fun _ => .check_bind fun _ => atomic_update _

theorem publishEvent_atomic (index position : Nat) (stores : List Store) :
    Atomic (publishEvent index position stores) := by
  refine .check_bind fun _ => .check_bind fun _ => .check_bind fun _ => ?_
  exact .check_bind fun _ => .check_bind fun _ => atomic_update _

theorem publishMutation_atomic (now : Nat) (handle : MarketHandle) (revision : Nat) (cursor : MutationCursor)
    (mutation : BookMutation) (arrivalTime : Nat) :
    Atomic (publishMutation now handle revision cursor mutation arrivalTime) :=
  .check_bind fun _ => .check_bind fun _ => publishEvent_atomic _ _ _

theorem publishResolution_atomic (now : Nat) (handle : MarketHandle) (revision : Nat) (cursor : MutationCursor)
    (resolution : MarketResolution) (arrivalTime : Nat) :
    Atomic (publishResolution now handle revision cursor resolution arrivalTime) :=
  .check_bind fun _ => .check_bind fun _ => publishEvent_atomic _ _ _

end SegmentWriter

/-! ## The reader -/

inductive ReadFault where
  | segment (fault : SegmentFault)
  | entryUnpublished
  | noPublishedState
  | handleStale
  | foreignSegment
  | slotOwnershipMismatch
  | malformedIdentity
  | malformedRecord
  | unstable (fault : PmWs.ReadFault)
  deriving DecidableEq, Repr

structure SegmentReader where
  region : Region
  layout : SegmentLayout
  binding : SegmentBinding

/-- A reader of the writer's own region. -/
def SegmentWriter.reader (self : SegmentWriter) : SegmentReader := ⟨self.region, self.layout, self.binding⟩

/-- `under_seqlock` over a record that nobody writes meanwhile: every attempt finds the same counter. -/
def underSeqlock {α : Type} (counter : Nat) (copy : α) : (attempts : Nat) → SeqTries → Except ReadFault (Option α)
  | 0, tries => .error (.unstable tries.fault)
  | attempts + 1, tries =>
    match SeqCell.openRead counter with
    | .unpublished => .ok none
    | .inFlight opened => underSeqlock counter copy attempts (tries.noteInFlight opened)
    | .stable opened =>
      if SeqCell.closeRead counter opened then .ok (some copy)
      else underSeqlock counter copy attempts { tries with moved := true }

/-- The identity bytes of a published entry. -/
def identityBytes (entry : Bytes) : Option (List UInt8) :=
  let length := load entry entIdentityLen 4
  if length ≤ identityCapacity then some (read entry entIdentity length) else none

namespace SegmentReader

/-- The bytes of the entry and of the slot a handle names. -/
def stateSlot (self : SegmentReader) (handle : MarketHandle) : Except ReadFault (Bytes × Bytes) :=
  if handle.segment ≠ self.binding then .error .foreignSegment
  else do
    let entry ← (directoryRecord self.region self.layout handle.entryIndex).mapError .segment
    let bytes := self.region.bytesAt entry
    let gate := load bytes entRevision 8
    if gate = 0 ∨ gate = gateClaimed then .error .entryUnpublished
    else
      let slotIndex := load bytes entSlotIndex 4
      if slotIndex = noStateSlot then .error .noPublishedState
      else if slotIndex ≠ handle.stateSlotIndex then .error .handleStale
      else if slotIndex ≥ self.layout.stateSlotCapacity then .error .malformedRecord
      else do
        let slot ← (stateSlotRecord self.region self.layout slotIndex).mapError .segment
        .ok (bytes, self.region.bytesAt slot)

def read (self : SegmentReader) (handle : MarketHandle) : Except ReadFault BookSnapshot := do
  let (entry, slot) ← self.stateSlot handle
  let market ← orError ((identityBytes entry).bind decodeIdentity) .malformedIdentity
  let capacity := self.layout.levelCapacity
  let copied ← underSeqlock (load slot slotRevision 8) (readWords slot capacity) maxReadAttempts .first
  let words ← orError copied .noPublishedState
  if words.directoryIndex ≠ handle.entryIndex then .error .slotOwnershipMismatch
  else if words.levelCount > capacity then .error .malformedRecord
  else orError (decode market words) .malformedRecord

def eventWords (self : SegmentReader) (handle : MarketHandle) (cursor : MutationCursor) :
    Except ReadFault (Option EventWords) :=
  if handle.segment ≠ self.binding then .error .foreignSegment
  else do
    let slot ← (eventSlotRecord self.region self.layout handle.entryIndex cursor.position).mapError .segment
    let bytes := self.region.bytesAt slot
    underSeqlock (load bytes evtSequence 8) (readEventWords bytes) maxReadAttempts .first

end SegmentReader

end PmWs.Abi
