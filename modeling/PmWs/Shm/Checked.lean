import PmWs.Lib.Loads
import PmWs.Shm.DirtyRing
import PmWs.Shm.EventStream
import PmWs.Shm.Format

/-!
# What a reader touches

The reader's calls as programs of loads, with the assertions of the cell layer
in their places. On a validated segment none of them trips an assertion or
leaves the region, whatever bytes the loads return.
-/

open MachineInt Memory Fallible Loads

namespace PmWs

/-! ## Cells -/

namespace Record

variable {ε : Type}

/-- A cell of a record, through `Record::ptr`. -/
def cell (self : Record) (offset width : Nat) : Loads ε Nat := do
  assert (offset % width = 0 ∧ width ≤ self.size ∧ offset ≤ self.size - width)
  .load (self.base + offset) width fun bytes => .done (leValue bytes)

def sub (self : Record) (offset size : Nat) : Loads ε Record := do
  assert (offset % 8 = 0 ∧ size ≤ self.size ∧ offset ≤ self.size - size)
  .done ⟨self.base + offset, size⟩

/-- `PublishedWitness::bytes`. -/
def bytes (self : Record) (offset length : Nat) : Loads ε (List UInt8) := do
  assert (length ≤ self.size ∧ offset ≤ self.size - length)
  .load (self.base + offset) length .done

/-- `Record::published`: the gate, when the record has been published. -/
def published (self : Record) (gate : Nat) : Loads ε (Option Nat) := do
  let value ← self.cell gate 8
  .done (if value ≠ 0 ∧ value ≠ Abi.gateClaimed then some value else none)

end Record

namespace Abi.Checked

open Codec

/-! ## The slots -/

section Slots
variable {ε α : Type}

def underSeqlock (record : Record) (counter : Nat) (copy : Loads ReadFault α) :
    (attempts : Nat) → SeqTries → Loads ReadFault (Option α)
  | 0, tries => .failed (.unstable tries.fault)
  | attempts + 1, tries => do
    let opened ← record.cell counter 8
    match SeqCell.openRead opened with
    | .unpublished => .done none
    | .inFlight opened => underSeqlock record counter copy attempts (tries.noteInFlight opened)
    | .stable opened => do
      let copied ← copy
      let reloaded ← record.cell counter 8
      if SeqCell.closeRead reloaded opened then .done (some copied)
      else underSeqlock record counter copy attempts { tries with moved := true }

def identityBytes (entry : Record) : Loads ε (Option (List UInt8)) := do
  let length ← entry.cell entIdentityLen 4
  if length ≤ identityCapacity then do
    let identity ← entry.bytes entIdentity length
    .done (some identity)
  else .done none

def readDecimal (cell : Record) : Loads ε DecimalWords := do
  let low ← cell.cell decCoefficientLow 8
  let high ← cell.cell decCoefficientHigh 8
  let scale ← cell.cell decScale 4
  .done ⟨low, high, scale⟩

def readTextWords (slot : Record) (base count : Nat) : Loads ε (List Nat) :=
  each (fun word => slot.cell (base + word * 8) 8) (List.range count)

def readSharedWords (slot : Record) : Loads ε SharedEventWords := do
  let cursorEpoch ← slot.cell evtCursorEpoch 8
  let cursorPosition ← slot.cell evtCursorPosition 8
  let bookRevision ← slot.cell evtBookRevision 8
  let commitTime ← slot.cell evtCommitTime 8
  let arrivalTime ← slot.cell evtArrivalTime 8
  let daemonGeneration ← slot.cell evtDaemonGeneration 8
  let subscriptionGeneration ← slot.cell evtSubscriptionGeneration 8
  let origin ← slot.cell evtOrigin 4
  let derivation ← slot.cell evtDerivation 4
  let representation ← slot.cell evtRepresentation 4
  let directoryIndex ← slot.cell evtDirectoryIndex 4
  .done
    { cursorEpoch, cursorPosition, bookRevision, commitTime, arrivalTime, daemonGeneration, subscriptionGeneration,
      origin, derivation, representation, directoryIndex }

def readMutationWords (slot : Record) : Loads ε MutationWords := do
  let side ← slot.cell evtSide 4
  let oldPresent ← slot.cell evtOldPresent 4
  let newPresent ← slot.cell evtNewPresent 4
  let familyLength ← slot.cell evtFamilyLen 4
  let familyWords ← readTextWords slot evtFamilyWords nativeFamilyWords
  let price ← slot.sub evtPrice decimalCellBytes >>= readDecimal
  let oldQuantity ← slot.sub evtOldQuantity decimalCellBytes >>= readDecimal
  let newQuantity ← slot.sub evtNewQuantity decimalCellBytes >>= readDecimal
  .done { side, oldPresent, newPresent, familyLength, familyWords, price, oldQuantity, newQuantity }

def readResolutionWords (slot : Record) : Loads ε ResolutionWords := do
  let winningIndex ← slot.cell evtResWinningIndex 4
  let deliveryPath ← slot.cell evtResDeliveryPath 4
  let outcomeLength ← slot.cell evtResOutcomeLen 4
  let typeLength ← slot.cell evtResTypeLen 4
  let dateLength ← slot.cell evtResDateLen 4
  let outcomeWords ← readTextWords slot evtResOutcome resOutcomeWords
  let typeWords ← readTextWords slot evtResType resTypeWords
  let dateWords ← readTextWords slot evtResDate resDateWords
  .done { winningIndex, deliveryPath, outcomeLength, typeLength, dateLength, outcomeWords, typeWords, dateWords }

def readEventWords (slot : Record) : Loads ε EventWords := do
  let shared ← readSharedWords slot
  let kind ← slot.cell evtDeliveryKind 4
  if kind = deliveryLevelMutation then do
    let body ← readMutationWords slot
    .done ⟨shared, .mutation body⟩
  else if kind = deliveryMarketResolved then do
    let body ← readResolutionWords slot
    .done ⟨shared, .resolution body⟩
  else .done ⟨shared, .unknown⟩

def readLevel (slot : Record) (position : Nat) : Loads ε LevelWords := do
  let cell ← slot.sub (slotPrefixBytes + position * levelCellBytes) levelCellBytes
  let price ← cell.sub lvlPrice decimalCellBytes
  let quantity ← cell.sub lvlQuantity decimalCellBytes
  let side ← cell.cell lvlSide 4
  let price ← readDecimal price
  let quantity ← readDecimal quantity
  .done ⟨side, price, quantity⟩

def readWords (slot : Record) (capacity : Nat) : Loads ε SlotWords := do
  let familyWords ← readTextWords slot slotFamilyWords nativeFamilyWords
  let levelCount ← slot.cell slotLevelCount 4
  let levels ← each (readLevel slot) (List.range (min levelCount capacity))
  let bookRevision ← slot.cell slotBookRevision 8
  let commitTime ← slot.cell slotCommitTime 8
  let arrivalTime ← slot.cell slotArrivalTime 8
  let continuityEpoch ← slot.cell slotContinuityEpoch 8
  let continuityPosition ← slot.cell slotContinuityPosition 8
  let syncDivergences ← slot.cell slotSyncDivergences 8
  let authorityState ← slot.cell slotAuthorityState 4
  let authorityReason ← slot.cell slotAuthorityReason 4
  let continuityKind ← slot.cell slotContinuityKind 4
  let continuityReason ← slot.cell slotContinuityReason 4
  let provenancePresent ← slot.cell slotProvenancePresent 4
  let origin ← slot.cell slotOrigin 4
  let derivation ← slot.cell slotDerivation 4
  let representation ← slot.cell slotRepresentation 4
  let familyLength ← slot.cell slotFamilyLen 4
  let directoryIndex ← slot.cell slotDirectoryIndex 4
  .done
    { bookRevision, commitTime, arrivalTime, continuityEpoch, continuityPosition, syncDivergences, authorityState,
      authorityReason, continuityKind, continuityReason, provenancePresent, origin, derivation, representation,
      familyLength, familyWords, directoryIndex, levelCount, levels }

end Slots

/-! ## The calls -/

structure StateCursor where
  revision : Nat
  continuity : MutationContinuity

inductive StreamStart where
  | at (cursor : MutationCursor)
  | lost (reason : ContinuityReason)

def StreamStart.cursor : StreamStart → MutationContinuity → MutationCursor
  | .at cursor, _ => cursor
  | .lost _, continuity => ⟨continuity.epoch, 0⟩

def StreamStart.loss : StreamStart → Option ContinuityReason
  | .at _ => none
  | .lost reason => some reason

structure Stream where
  handle : MarketHandle
  market : MarketRef
  cursor : MutationCursor
  lost : Option ContinuityReason

inductive Poll where
  | delivered (event : RetainedEvent)
  | idle
  | lost (reason : ContinuityReason)

section Calls
variable (self : SegmentReader)

/-- One entry of the scan. -/
def resolveAt (market : MarketRef) (index : Nat) : Loads ReadFault (Option MarketHandle) :=
  match directoryRecord self.region self.layout index with
  | .error _ => .done none
  | .ok entry => do
    match ← entry.published entRevision with
    | none => .done none
    | some _ =>
      let identity ← identityBytes entry
      if identity.bind decodeIdentity = some market then do
        let slotIndex ← entry.cell entSlotIndex 4
        .done (some ⟨self.binding, index, slotIndex⟩)
      else .done none

/-- The first of the entries that names the market. -/
def resolveAmong (market : MarketRef) : List Nat → Loads ReadFault (Option MarketHandle)
  | [] => .done none
  | index :: indices => do
    match ← resolveAt self market index with
    | some handle => .done (some handle)
    | none => resolveAmong market indices

def resolve (market : MarketRef) : Loads ReadFault (Option MarketHandle) :=
  resolveAmong self market (List.range self.layout.directoryCapacity)

def stateSlot (handle : MarketHandle) : Loads ReadFault (Record × Record) :=
  if handle.segment ≠ self.binding then .failed .foreignSegment
  else do
    let entry ← ofExcept ((directoryRecord self.region self.layout handle.entryIndex).mapError .segment)
    match ← entry.published entRevision with
    | none => .failed .entryUnpublished
    | some _ =>
      let slotIndex ← entry.cell entSlotIndex 4
      if slotIndex = noStateSlot then .failed .noPublishedState
      else if slotIndex ≠ handle.stateSlotIndex then .failed .handleStale
      else if slotIndex ≥ self.layout.stateSlotCapacity then .failed .malformedRecord
      else do
        let slot ← ofExcept ((stateSlotRecord self.region self.layout slotIndex).mapError .segment)
        .done (entry, slot)

def read (handle : MarketHandle) : Loads ReadFault BookSnapshot := do
  let (entry, slot) ← stateSlot self handle
  let identity ← identityBytes entry
  let market ← ofExcept (orError (identity.bind decodeIdentity) .malformedIdentity)
  let capacity := self.layout.levelCapacity
  let copied ← underSeqlock slot slotRevision (readWords slot capacity) maxReadAttempts .first
  let words ← ofExcept (orError copied .noPublishedState)
  if words.directoryIndex ≠ handle.entryIndex then .failed .slotOwnershipMismatch
  else if words.levelCount > capacity then .failed .malformedRecord
  else ofExcept (orError (decode market words) .malformedRecord)

/-- The words of a state slot's prefix that say where its stream stands. -/
structure CursorWords where
  bookRevision : Nat
  continuityEpoch : Nat
  continuityPosition : Nat
  continuityKind : Nat
  continuityReason : Nat
  directoryIndex : Nat

def readCursorWords (slot : Record) : Loads ReadFault CursorWords := do
  let bookRevision ← slot.cell slotBookRevision 8
  let continuityEpoch ← slot.cell slotContinuityEpoch 8
  let continuityPosition ← slot.cell slotContinuityPosition 8
  let continuityKind ← slot.cell slotContinuityKind 4
  let continuityReason ← slot.cell slotContinuityReason 4
  let directoryIndex ← slot.cell slotDirectoryIndex 4
  .done ⟨bookRevision, continuityEpoch, continuityPosition, continuityKind, continuityReason, directoryIndex⟩

def readCursor (handle : MarketHandle) : Loads ReadFault StateCursor := do
  let (_, slot) ← stateSlot self handle
  let copied ← underSeqlock slot slotRevision (readCursorWords slot) maxReadAttempts .first
  let words ← ofExcept (orError copied .noPublishedState)
  if words.directoryIndex ≠ handle.entryIndex then .failed .slotOwnershipMismatch
  else do
    let continuity ← ofExcept (orError (continuity words.continuityKind words.continuityReason words.continuityEpoch
      words.continuityPosition) .malformedRecord)
    .done ⟨words.bookRevision, continuity⟩

def eventSlot (handle : MarketHandle) (position : Nat) : Except ReadFault Record :=
  if handle.segment ≠ self.binding then .error .foreignSegment
  else (eventSlotRecord self.region self.layout handle.entryIndex position).mapError .segment

def readEventCursor (slot : Record) : Loads ReadFault MutationCursor := do
  let epoch ← slot.cell evtCursorEpoch 8
  let position ← slot.cell evtCursorPosition 8
  .done ⟨epoch, position⟩

def eventCursor (handle : MarketHandle) (cursor : MutationCursor) : Loads ReadFault (Option MutationCursor) := do
  let slot ← ofExcept (eventSlot self handle cursor.position)
  underSeqlock slot evtSequence (readEventCursor slot) maxReadAttempts .first

def eventWords (handle : MarketHandle) (cursor : MutationCursor) : Loads ReadFault (Option EventWords) := do
  let slot ← ofExcept (eventSlot self handle cursor.position)
  underSeqlock slot evtSequence (readEventWords slot) maxReadAttempts .first

def attachAt (handle : MarketHandle) : (attempts : Nat) → Loads ReadFault (BookSnapshot × StreamStart)
  | 0 => .failed (.unstable (.contended maxReadAttempts))
  | attempts + 1 => do
    let snapshot ← read self handle
    match snapshot.continuity with
    | .lost _ reason => .done (snapshot, .lost reason)
    | .intact epoch nextPosition =>
      let cursor := ⟨epoch, nextPosition⟩
      let stored ← eventCursor self handle cursor
      if stored.any fun stored => later stored cursor then attachAt handle attempts
      else .done (snapshot, .at cursor)

def attachStream (handle : MarketHandle) : Loads ReadFault (BookSnapshot × Stream) := do
  let (snapshot, start) ← attachAt self handle maxReadAttempts
  .done (snapshot, ⟨handle, snapshot.market, start.cursor snapshot.continuity, start.loss⟩)

/-- `EventStream::poll`. A fault of a read leaves the stream where it was. -/
def poll (stream : Stream) : Loads ReadFault (Stream × Poll) :=
  let lose (reason : ContinuityReason) : Loads ReadFault (Stream × Poll) :=
    .done ({ stream with lost := some reason }, .lost reason)
  match stream.lost with
  | some reason => .done (stream, .lost reason)
  | none => do
    let state ← readCursor self stream.handle
    match state.continuity with
    | .lost epoch reason => lose (if epoch = stream.cursor.epoch then reason else .recoveryBase)
    | .intact epoch _ =>
      if epoch ≠ stream.cursor.epoch then lose .recoveryBase
      else do
        match ← eventWords self stream.handle stream.cursor with
        | none => .done (stream, .idle)
        | some words =>
          let stored : MutationCursor := ⟨words.shared.cursorEpoch, words.shared.cursorPosition⟩
          if stored.epoch > stream.cursor.epoch then lose .recoveryBase
          else if later stored stream.cursor then lose .overrun
          else if stored ≠ stream.cursor then .done (stream, .idle)
          else if words.shared.directoryIndex ≠ stream.handle.entryIndex then .failed .slotOwnershipMismatch
          else do
            let event ← ofExcept (orError (decodeEvent stream.market stored words) .malformedRecord)
            match checkedAdd stream.cursor.position 1 with
            | none => lose .localLoss
            | some next => .done ({ stream with cursor := ⟨stream.cursor.epoch, next⟩ }, .delivered event)

/-- What one attempt finds in a dirty slot. -/
def dirtyAt (slot : Record) : Loads ReadFault (Option (Nat × DirtyEntry)) := do
  let opened ← slot.cell dirtySequence 8
  match SeqCell.openRead opened with
  | .unpublished | .inFlight _ => .done none
  | .stable opened => do
    let position ← slot.cell dirtyPosition 8
    let directoryIndex ← slot.cell dirtyDirectoryIndex 4
    let bookRevision ← slot.cell dirtyBookRevision 8
    let reloaded ← slot.cell dirtySequence 8
    .done (if SeqCell.closeRead reloaded opened then some (position, ⟨directoryIndex, bookRevision⟩) else none)

def nextDirty (cursor : Nat) : Loads ReadFault (Nat × DirtyPoll) :=
  match dirtySlotRecord self.region self.layout cursor with
  | .error _ => .done (cursor, .idle)
  | .ok slot => do
    let found ← dirtyAt slot
    .done (PmWs.nextDirty cursor found)

end Calls

/-! ## Cells of a record inside the region -/

section Cells
variable {ε α : Type} {size bound offset width : Nat} {record : Record} {post : α → Prop}

theorem cell_within (hin : record.base + record.size ≤ size) (haligned : offset % width = 0)
    (hfits : offset + width ≤ record.size) : (record.cell offset width : Loads ε Nat).Within size fun _ => True := by
  refine (within_assert ⟨haligned, by omega, by omega⟩).then fun _ => ?_
  exact ⟨by omega, fun _ => trivial⟩

/-- A cell at a fixed place, in a record at least as large as `bound`. -/
theorem cell_then {f : Nat → Loads ε α} (hin : record.base + record.size ≤ size) (hbound : bound ≤ record.size)
    (hcell : offset % width = 0 ∧ offset + width ≤ bound) (hf : ∀ value, (f value).Within size post) :
    (record.cell offset width >>= f).Within size post :=
  (cell_within hin hcell.1 (hcell.2.trans hbound)).then hf

theorem sub_then {length : Nat} {f : Record → Loads ε α} (hin : record.base + record.size ≤ size)
    (haligned : offset % 8 = 0) (hfits : offset + length ≤ record.size)
    (hf : ∀ base, base + length ≤ size → (f ⟨base, length⟩).Within size post) :
    (record.sub offset length >>= f).Within size post := by
  have hsub : (record.sub offset length : Loads ε Record).Within size
      fun found => found = ⟨record.base + offset, length⟩ :=
    (within_assert ⟨haligned, by omega, by omega⟩).then fun _ => rfl
  refine hsub.bind ?_
  rintro _ rfl
  exact hf _ (by omega)

theorem bytes_then {length : Nat} {f : List UInt8 → Loads ε α} (hin : record.base + record.size ≤ size)
    (hfits : offset + length ≤ record.size) (hf : ∀ bytes, (f bytes).Within size post) :
    (record.bytes offset length >>= f).Within size post := by
  have hbytes : (record.bytes offset length : Loads ε (List UInt8)).Within size fun _ => True :=
    (within_assert ⟨by omega, by omega⟩).then fun _ => ⟨by omega, fun _ => trivial⟩
  exact hbytes.then hf

theorem readTextWords_within {base count : Nat} (hin : record.base + record.size ≤ size) (haligned : base % 8 = 0)
    (hfits : base + count * 8 ≤ record.size) :
    (readTextWords record base count : Loads ε (List Nat)).Within size fun _ => True := by
  refine within_each fun word hword => cell_within hin (by omega) ?_
  have := List.mem_range.1 hword
  omega

theorem readDecimal_within {base : Nat} (hin : base + decimalCellBytes ≤ size) :
    (readDecimal ⟨base, decimalCellBytes⟩ : Loads ε DecimalWords).Within size fun _ => True := by
  have hsize : decimalCellBytes ≤ (Record.mk base decimalCellBytes).size := Nat.le_refl _
  refine cell_then hin hsize (by decide) fun _ => ?_
  refine cell_then hin hsize (by decide) fun _ => ?_
  exact cell_then hin hsize (by decide) fun _ => trivial

/-- Copying under a sequence counter stays inside if the copying does. -/
theorem underSeqlock_within {copy : Loads ReadFault α} (hin : record.base + record.size ≤ size) (hcounter : 8 ≤ record.size)
    (hcopy : copy.Within size fun _ => True) (attempts : Nat) (tries : SeqTries) :
    (underSeqlock record 0 copy attempts tries).Within size fun _ => True := by
  induction attempts generalizing tries with
  | zero => trivial
  | succ attempts ih =>
    refine cell_then hin hcounter (by decide) fun opened => ?_
    split
    · trivial
    · exact ih _
    · refine hcopy.then fun copied => cell_then hin hcounter (by decide) fun reloaded => ?_
      split
      · trivial
      · exact ih _

end Cells

/-! ## The slots stay inside -/

section Slots
variable {ε : Type} {size : Nat} {slot : Record} (hin : slot.base + slot.size ≤ size)
include hin

theorem decimal_then {α : Type} {offset : Nat} {f : DecimalWords → Loads ε α} {post : α → Prop}
    (haligned : offset % 8 = 0) (hfits : offset + decimalCellBytes ≤ slot.size)
    (hf : ∀ words, (f words).Within size post) :
    (slot.sub offset decimalCellBytes >>= readDecimal >>= f).Within size post := by
  have hdecimal : (slot.sub offset decimalCellBytes >>= readDecimal : Loads ε DecimalWords).Within size
      fun _ => True := sub_then hin haligned hfits fun _ hsub => readDecimal_within hsub
  exact hdecimal.then hf

theorem readEventWords_within (hslot : slot.size = eventSlotBytes) :
    (readEventWords slot : Loads ε EventWords).Within size fun _ => True := by
  have hbound : 256 ≤ slot.size := hslot.ge
  have hshared : (readSharedWords slot : Loads ε SharedEventWords).Within size fun _ => True := by
    unfold readSharedWords
    repeat refine cell_then hin hbound (by decide) fun _ => ?_
    trivial
  have hmutation : (readMutationWords slot : Loads ε MutationWords).Within size fun _ => True := by
    unfold readMutationWords
    repeat refine cell_then hin hbound (by decide) fun _ => ?_
    refine (readTextWords_within hin (by decide) ((show 168 + 8 * 8 ≤ 256 by decide).trans hbound)).then fun _ => ?_
    refine decimal_then hin (by decide) ((show 96 + 24 ≤ 256 by decide).trans hbound) fun _ => ?_
    refine decimal_then hin (by decide) ((show 120 + 24 ≤ 256 by decide).trans hbound) fun _ => ?_
    exact decimal_then hin (by decide) ((show 144 + 24 ≤ 256 by decide).trans hbound) fun _ => trivial
  have hresolution : (readResolutionWords slot : Loads ε ResolutionWords).Within size fun _ => True := by
    unfold readResolutionWords
    repeat refine cell_then hin hbound (by decide) fun _ => ?_
    refine (readTextWords_within hin (by decide) ((show 104 + 8 * 8 ≤ 256 by decide).trans hbound)).then fun _ => ?_
    refine (readTextWords_within hin (by decide) ((show 168 + 4 * 8 ≤ 256 by decide).trans hbound)).then fun _ => ?_
    exact (readTextWords_within hin (by decide) ((show 200 + 4 * 8 ≤ 256 by decide).trans hbound)).then fun _ => trivial
  refine hshared.then fun shared => cell_then hin hbound (by decide) fun kind => ?_
  split
  · exact hmutation.then fun _ => trivial
  · split
    · exact hresolution.then fun _ => trivial
    · trivial

/-- A level's cell lies past the prefix and inside the slot. -/
theorem readLevel_within {capacity position : Nat} (hslot : slotPrefixBytes + capacity * levelCellBytes ≤ slot.size)
    (hposition : position < capacity) : (readLevel slot position : Loads ε LevelWords).Within size fun _ => True := by
  have htile := tile_within levelCellBytes hposition
  have haligned : (slotPrefixBytes + position * levelCellBytes) % 8 = 0 := by
    unfold slotPrefixBytes levelCellBytes
    omega
  refine sub_then hin haligned (by omega) fun base hcell => ?_
  have hsize : levelCellBytes ≤ (Record.mk base levelCellBytes).size := Nat.le_refl _
  refine sub_then hcell (by decide) (show 0 + 24 ≤ 64 by decide) fun price hprice => ?_
  refine sub_then hcell (by decide) (show 24 + 24 ≤ 64 by decide) fun quantity hquantity => ?_
  refine cell_then hcell hsize (by decide) fun _ => ?_
  exact (readDecimal_within hprice).then fun _ => (readDecimal_within hquantity).then fun _ => trivial

theorem readWords_within {capacity : Nat} (hslot : slotPrefixBytes + capacity * levelCellBytes ≤ slot.size) :
    (readWords slot capacity : Loads ε SlotWords).Within size fun _ => True := by
  have hbound : slotPrefixBytes ≤ slot.size := by omega
  refine (readTextWords_within hin (by decide) ((show 128 + 8 * 8 ≤ 256 by decide).trans hbound)).then fun _ => ?_
  refine cell_then hin hbound (by decide) fun levelCount => ?_
  refine (within_each fun position hposition => readLevel_within hin hslot ?_).then fun _ => ?_
  · exact Nat.lt_of_lt_of_le (List.mem_range.1 hposition) (Nat.min_le_right _ _)
  · repeat refine cell_then hin hbound (by decide) fun _ => ?_
    trivial

end Slots

/-! ## The calls stay inside -/

section Lookup
variable {region : Region} {layout : SegmentLayout} {record : Record} {fault : SegmentFault} {offset size : Nat}

theorem record_found (h : orError (region.record offset size) fault = .ok record) :
    record.size = size ∧ record.base + record.size ≤ region.size := by
  simp only [orError_eq_ok, Region.record, Option.ite_none_left_eq_some, Option.some.injEq] at h
  obtain ⟨hfits, rfl⟩ := h
  refine ⟨rfl, ?_⟩
  show offset + size ≤ region.size
  omega

theorem directoryRecord_found {index : Nat} (h : directoryRecord region layout index = .ok record) :
    record.size = directoryEntryBytes ∧ record.base + record.size ≤ region.size :=
  record_found (ite_error_eq_ok.1 h).2

theorem stateSlotRecord_found {index : Nat} (h : stateSlotRecord region layout index = .ok record) :
    slotPrefixBytes + layout.levelCapacity * levelCellBytes ≤ record.size ∧
      record.base + record.size ≤ region.size := by
  obtain ⟨hsize, hin⟩ := record_found (ite_error_eq_ok.1 h).2
  exact ⟨hsize ▸ le_roundUp _, hin⟩

theorem eventSlotRecord_found {entry position : Nat} (h : eventSlotRecord region layout entry position = .ok record) :
    record.size = eventSlotBytes ∧ record.base + record.size ≤ region.size :=
  record_found (ite_error_eq_ok.1 h).2

theorem dirtySlotRecord_found {position : Nat} (h : dirtySlotRecord region layout position = .ok record) :
    record.size = dirtySlotBytes ∧ record.base + record.size ≤ region.size := record_found h

end Lookup

section Inside
variable (self : SegmentReader)

theorem published_then {α ε : Type} {size : Nat} {entry : Record} {f : Option Nat → Loads ε α} {post : α → Prop}
    (hin : entry.base + entry.size ≤ size) (hentry : entry.size = directoryEntryBytes)
    (hf : ∀ gate, (f gate).Within size post) : (entry.published entRevision >>= f).Within size post := by
  have hpublished : (entry.published entRevision : Loads ε (Option Nat)).Within size fun _ => True :=
    cell_then hin hentry.ge (by decide) fun _ => trivial
  exact hpublished.then hf

theorem identityBytes_within {ε : Type} {size : Nat} {entry : Record} (hin : entry.base + entry.size ≤ size)
    (hentry : entry.size = directoryEntryBytes) :
    (identityBytes entry : Loads ε (Option (List UInt8))).Within size fun _ => True := by
  refine cell_then hin hentry.ge (by decide) fun length => ?_
  split
  · rename_i hlength
    refine bytes_then hin ?_ fun _ => trivial
    rw [hentry]
    unfold identityCapacity at hlength
    unfold entIdentity directoryEntryBytes
    omega
  · trivial

theorem resolve_within (market : MarketRef) : (resolve self market).Within self.region.size fun _ => True := by
  have hat : ∀ index, (resolveAt self market index).Within self.region.size fun _ => True := by
    intro index
    unfold resolveAt
    split
    · trivial
    · rename_i entry hfound
      obtain ⟨hentry, hin⟩ := directoryRecord_found hfound
      refine published_then hin hentry fun gate => ?_
      split
      · trivial
      · refine (identityBytes_within hin hentry).then fun identity => ?_
        split
        · exact cell_then hin hentry.ge (by decide) fun _ => trivial
        · trivial
  unfold resolve
  generalize List.range self.layout.directoryCapacity = indices
  induction indices with
  | nil => trivial
  | cons index indices ih =>
    refine (hat index).then fun found => ?_
    split
    · trivial
    · exact ih

/-- The entry and the slot a handle leads to lie inside, and the slot has room for its levels. -/
theorem stateSlot_within (handle : MarketHandle) :
    (stateSlot self handle).Within self.region.size fun found =>
      (found.1.size = directoryEntryBytes ∧ found.1.base + found.1.size ≤ self.region.size) ∧
        slotPrefixBytes + self.layout.levelCapacity * levelCellBytes ≤ found.2.size ∧
        found.2.base + found.2.size ≤ self.region.size := by
  unfold stateSlot
  split
  · trivial
  · refine (within_ofExcept fun entry hentry => directoryRecord_found (mapError_eq_ok.1 hentry)).bind ?_
    rintro entry ⟨hentry, hin⟩
    refine published_then hin hentry fun gate => ?_
    split
    · trivial
    · refine cell_then hin hentry.ge (by decide) fun slotIndex => ?_
      split
      · trivial
      · split
        · trivial
        · split
          · trivial
          · refine (within_ofExcept fun slot hslot => stateSlotRecord_found (mapError_eq_ok.1 hslot)).bind ?_
            exact fun slot hslot => ⟨⟨hentry, hin⟩, hslot⟩

theorem read_within (handle : MarketHandle) : (read self handle).Within self.region.size fun _ => True := by
  refine (stateSlot_within self handle).bind ?_
  rintro ⟨entry, slot⟩ ⟨⟨hentry, hinEntry⟩, hslot, hin⟩
  refine (identityBytes_within hinEntry hentry).then fun identity => ?_
  refine (within_ofExcept fun _ _ => trivial).then fun market => ?_
  refine (underSeqlock_within hin ?_ (readWords_within hin hslot) _ _).then fun copied => ?_
  · exact (show 8 ≤ slotPrefixBytes by decide).trans (Nat.le_of_add_right_le hslot)
  · refine (within_ofExcept fun _ _ => trivial).then fun words => ?_
    split
    · trivial
    · split
      · trivial
      · exact within_ofExcept fun _ _ => trivial

theorem readCursor_within (handle : MarketHandle) : (readCursor self handle).Within self.region.size fun _ => True := by
  refine (stateSlot_within self handle).bind ?_
  rintro ⟨entry, slot⟩ ⟨-, hslot, hin⟩
  have hbound : slotPrefixBytes ≤ slot.size := Nat.le_of_add_right_le hslot
  have hcopy : (readCursorWords slot).Within self.region.size fun _ => True := by
    unfold readCursorWords
    repeat refine cell_then hin hbound (by decide) fun _ => ?_
    trivial
  refine (underSeqlock_within hin ((show 8 ≤ slotPrefixBytes by decide).trans hbound) hcopy _ _).then fun copied => ?_
  refine (within_ofExcept fun _ _ => trivial).then fun words => ?_
  split
  · trivial
  · exact (within_ofExcept fun _ _ => trivial).then fun _ => trivial

/-- Copying an event slot under its counter. -/
theorem eventSlot_then {α : Type} {copy : Record → Loads ReadFault α} (handle : MarketHandle) (position : Nat)
    (hcopy : ∀ slot : Record, slot.base + slot.size ≤ self.region.size → slot.size = eventSlotBytes →
      (copy slot).Within self.region.size fun _ => True) :
    (ofExcept (eventSlot self handle position) >>= fun slot =>
      underSeqlock slot evtSequence (copy slot) maxReadAttempts .first).Within self.region.size fun _ => True := by
  have hslot : (ofExcept (eventSlot self handle position)).Within self.region.size fun slot =>
      slot.size = eventSlotBytes ∧ slot.base + slot.size ≤ self.region.size := by
    refine within_ofExcept fun slot hslot => ?_
    exact eventSlotRecord_found (mapError_eq_ok.1 (ite_error_eq_ok.1 hslot).2)
  refine hslot.bind ?_
  rintro slot ⟨hsize, hin⟩
  exact underSeqlock_within hin ((show 8 ≤ eventSlotBytes by decide).trans hsize.ge) (hcopy slot hin hsize) _ _

theorem eventWords_within (handle : MarketHandle) (cursor : MutationCursor) :
    (eventWords self handle cursor).Within self.region.size fun _ => True :=
  eventSlot_then self handle cursor.position fun _ hin hsize => readEventWords_within hin hsize

theorem eventCursor_within (handle : MarketHandle) (cursor : MutationCursor) :
    (eventCursor self handle cursor).Within self.region.size fun _ => True := by
  refine eventSlot_then self handle cursor.position fun slot hin hsize => ?_
  refine cell_then hin hsize.ge (by decide) fun _ => ?_
  exact cell_then hin hsize.ge (by decide) fun _ => trivial

theorem attachStream_within (handle : MarketHandle) :
    (attachStream self handle).Within self.region.size fun _ => True := by
  have hat : ∀ attempts, (attachAt self handle attempts).Within self.region.size fun _ => True := by
    intro attempts
    induction attempts with
    | zero => trivial
    | succ attempts ih =>
      refine (read_within self handle).then fun snapshot => ?_
      split
      · trivial
      · refine (eventCursor_within self handle _).then fun stored => ?_
        split
        · exact ih
        · trivial
  exact (hat _).then fun _ => trivial

theorem poll_within (stream : Stream) : (poll self stream).Within self.region.size fun _ => True := by
  unfold poll
  dsimp only
  split
  · trivial
  · refine (readCursor_within self stream.handle).then fun state => ?_
    split
    · trivial
    · split
      · trivial
      · refine (eventWords_within self stream.handle stream.cursor).then fun found => ?_
        split
        · trivial
        · split
          · trivial
          · split
            · trivial
            · split
              · trivial
              · split
                · trivial
                · refine (within_ofExcept fun _ _ => trivial).then fun event => ?_
                  split <;> trivial

theorem nextDirty_within (cursor : Nat) : (nextDirty self cursor).Within self.region.size fun _ => True := by
  unfold nextDirty
  split
  · trivial
  · rename_i slot hslot
    obtain ⟨hsize, hin⟩ := dirtySlotRecord_found hslot
    have hfound : (dirtyAt slot).Within self.region.size fun _ => True := by
      refine cell_then hin hsize.ge (by decide) fun opened => ?_
      split
      · trivial
      · trivial
      · repeat refine cell_then hin hsize.ge (by decide) fun _ => ?_
        trivial
    exact hfound.then fun _ => trivial

end Inside

/-! ## On a quiet segment

What a cell, an entry's gate and an entry's identity give while nobody writes is what the bytes hold.
-/

section Quiet
variable {ε α : Type} {size bound offset width : Nat} {memory : Bytes} {record slot : Record}

theorem cell_gives (hin : record.base + record.size ≤ size) (haligned : offset % width = 0)
    (hfits : offset + width ≤ record.size) :
    Gives size memory (record.cell offset width : Loads ε Nat) (.ok (load (view memory record.base) offset width)) := by
  have hassert : offset % width = 0 ∧ width ≤ record.size ∧ offset ≤ record.size - width :=
    ⟨haligned, by omega, by omega⟩
  have hload : record.base + offset + width ≤ size := by omega
  show Loads.run size (assert _ >>= _) _ = _
  rw [assert, if_pos hassert]
  show Loads.run size (.load _ _ _) _ = _
  rw [run, if_pos hload, load_view]
  rfl

/-- A cell at a fixed place, in a record at least as large as `bound`. -/
theorem cell_gives_then {f : Nat → Loads ε α} {result : Except ε α} (hin : record.base + record.size ≤ size)
    (hbound : bound ≤ record.size) (hcell : offset % width = 0 ∧ offset + width ≤ bound)
    (hf : Gives size memory (f (load (view memory record.base) offset width)) result) :
    Gives size memory (record.cell offset width >>= f) result :=
  (cell_gives hin hcell.1 (hcell.2.trans hbound)).bind hf

end Quiet

section QuietCalls
variable (self : SegmentReader) (handle : MarketHandle)

theorem publishedGate_eq (record : Bytes) (gate : Nat) :
    publishedGate record gate =
      if load record gate 8 = 0 ∨ load record gate 8 = gateClaimed then none else some (load record gate 8) := by
  unfold publishedGate
  dsimp only
  simp only [ne_eq, ← not_or, ite_not]

theorem published_gives {ε : Type} {size : Nat} {memory : Bytes} {entry : Record}
    (hin : entry.base + entry.size ≤ size) (hentry : entry.size = directoryEntryBytes) :
    Gives size memory (entry.published entRevision : Loads ε (Option Nat))
      (.ok (publishedGate (view memory entry.base) entRevision)) :=
  cell_gives_then hin hentry.ge (by decide) (gives_done _)

theorem identityBytes_gives {ε : Type} {size : Nat} {memory : Bytes} {entry : Record}
    (hin : entry.base + entry.size ≤ size) (hentry : entry.size = directoryEntryBytes) :
    Gives size memory (identityBytes entry : Loads ε (Option (List UInt8)))
      (.ok (Abi.identityBytes (view memory entry.base))) := by
  refine cell_gives_then hin hentry.ge (by decide) ?_
  unfold Abi.identityBytes
  dsimp only
  split
  · rename_i hlength
    unfold identityCapacity at hlength
    have hfits : entIdentity + load (view memory entry.base) entIdentityLen 4 ≤ entry.size := by
      rw [hentry]
      unfold entIdentity directoryEntryBytes
      omega
    have hassert : load (view memory entry.base) entIdentityLen 4 ≤ entry.size ∧
        entIdentity ≤ entry.size - load (view memory entry.base) entIdentityLen 4 := ⟨by omega, by omega⟩
    have hbytes : Gives size memory (entry.bytes entIdentity (load (view memory entry.base) entIdentityLen 4) :
        Loads ε (List UInt8)) (.ok (Memory.read (view memory entry.base) entIdentity
          (load (view memory entry.base) entIdentityLen 4))) := by
      show Loads.run size (assert _ >>= _) _ = _
      rw [assert, if_pos hassert]
      show Loads.run size (.load _ _ _) _ = _
      rw [run, if_pos (by omega), read_view]
      rfl
    exact hbytes.bind (gives_done _)
  · exact gives_done _

end QuietCalls

/-! ## A validated segment -/

/-- A record as a reader asks for it. -/
inductive Lookup where
  | directory (index : Nat)
  | stateSlot (index : Nat)
  | event (entry position : Nat)
  | dirty (position : Nat)

namespace Lookup

def find (region : Region) (layout : SegmentLayout) : Lookup → Except SegmentFault Record
  | directory index => directoryRecord region layout index
  | stateSlot index => stateSlotRecord region layout index
  | event entry position => eventSlotRecord region layout entry position
  | dirty position => dirtySlotRecord region layout position

/-- What is asked for is within the declared capacities. -/
def InCapacity (layout : SegmentLayout) : Lookup → Prop
  | directory index => index < layout.directoryCapacity
  | stateSlot index => index < layout.stateSlotCapacity
  | event entry _ => entry < layout.directoryCapacity
  | dirty _ => True

/-- Two requests for one record. Positions of a ring go round it. -/
def Same (layout : SegmentLayout) : Lookup → Lookup → Prop
  | directory i, directory j => i = j
  | stateSlot i, stateSlot j => i = j
  | event i p, event j q => i = j ∧ p % layout.eventCapacity = q % layout.eventCapacity
  | dirty p, dirty q => p % layout.dirtyCapacity = q % layout.dirtyCapacity
  | _, _ => False

def name (layout : SegmentLayout) : Lookup → RecordName
  | directory index => .directory index
  | stateSlot index => .stateSlot index
  | event entry position => .eventSlot entry (position &&& layout.eventPositionMask)
  | dirty position => .dirtySlot (position &&& layout.dirtyPositionMask)

variable {region : Region} {layout : SegmentLayout} {a b : Lookup}

theorem InCapacity.has (h : a.InCapacity layout) (hlayout : layout.Valid) : layout.Has (a.name layout) := by
  cases a with
  | directory index => exact h
  | stateSlot index => exact h
  | event entry position => exact layout.has_eventSlot h hlayout.bounds.event_pos position
  | dirty position => exact layout.has_dirtySlot hlayout.bounds.dirty_pos position

theorem find_eq (h : a.InCapacity layout) (hlayout : layout.Valid) (hsize : region.size = layout.regionSize) :
    a.find region layout = .ok (layout.span (a.name layout)) := by
  cases a with
  | directory index => exact directoryRecord_eq hsize h
  | stateSlot index => exact stateSlotRecord_eq hsize h
  | event entry position => exact eventSlotRecord_eq hsize h hlayout.bounds.event_pos position
  | dirty position => exact dirtySlotRecord_eq hsize hlayout.bounds.dirty_pos position

theorem name_eq_iff (hlayout : layout.Valid) : a.name layout = b.name layout ↔ a.Same layout b := by
  have hevent := mask_eq hlayout.bounds.event_power
  have hdirty := mask_eq hlayout.bounds.dirty_power
  cases a <;> cases b <;>
    simp [name, Same, SegmentLayout.eventPositionMask, SegmentLayout.dirtyPositionMask, hevent, hdirty]

end Lookup

/-- Every record has bytes. -/
theorem span_not_apart (layout : SegmentLayout) (name : RecordName) : ¬ (layout.span name).Apart (layout.span name) := by
  have hsize : 0 < (layout.span name).size := by
    cases name with
    | stateSlot index => exact Nat.lt_of_lt_of_le (by decide) (Nat.le_trans (Nat.le_add_right _ _) (le_roundUp _))
    | _ => simp [SegmentLayout.span, headerBytes, directoryEntryBytes, eventSlotBytes, dirtySlotBytes, trailerBytes,
        regionAlignment]
  unfold Record.Apart
  omega

/-- Once a segment's header and trailer have passed, every record a reader may ask for is there, inside the region and
aligned, two of them overlap only if they are one, and no call of a reader trips an assertion or reads outside the
region, whatever the loads it makes return. -/
theorem validated_segment_safe {region : Region} {geometry : SegmentGeometry} (h : validate region = .ok geometry) :
    (∀ a : Lookup, a.InCapacity geometry.layout → ∃ record, a.find region geometry.layout = .ok record ∧
      record.base + record.size ≤ region.size ∧ record.base % 8 = 0) ∧
    (∀ a b : Lookup, a.InCapacity geometry.layout → b.InCapacity geometry.layout →
      ∀ record other, a.find region geometry.layout = .ok record → b.find region geometry.layout = .ok other →
        (¬ record.Apart other → record = other) ∧ (record = other ↔ a.Same geometry.layout b)) ∧
    ∀ binding (memories : Nat → Bytes), let reader : SegmentReader := ⟨region, geometry.layout, binding⟩
      (∀ market, ((resolve reader market).run region.size memories).isSome) ∧
      (∀ handle, ((read reader handle).run region.size memories).isSome) ∧
      (∀ handle, ((readCursor reader handle).run region.size memories).isSome) ∧
      (∀ handle, ((attachStream reader handle).run region.size memories).isSome) ∧
      (∀ stream, ((poll reader stream).run region.size memories).isSome) ∧
      ∀ cursor, ((nextDirty reader cursor).run region.size memories).isSome := by
  obtain ⟨hlayout, hsize⟩ := validate_ok h
  refine ⟨?_, ?_, ?_⟩
  · intro a ha
    have hfits := SegmentLayout.span_le (ha.has hlayout)
    exact ⟨_, Lookup.find_eq ha hlayout hsize, hsize ▸ hfits, SegmentLayout.span_aligned _ _⟩
  · intro a b ha hb record other hrecord hother
    rw [Lookup.find_eq ha hlayout hsize] at hrecord
    rw [Lookup.find_eq hb hlayout hsize] at hother
    obtain rfl := Except.ok.inj hrecord
    obtain rfl := Except.ok.inj hother
    -- Different names are apart, and a record is never apart from itself.
    have hname : geometry.layout.span (a.name geometry.layout) = geometry.layout.span (b.name geometry.layout) ↔
        a.name geometry.layout = b.name geometry.layout := by
      refine ⟨fun hspan => ?_, congrArg _⟩
      by_contra hne
      have hapart := SegmentLayout.span_apart (ha.has hlayout) (hb.has hlayout) hne
      exact span_not_apart _ _ (hspan ▸ hapart)
    refine ⟨fun hoverlap => ?_, hname.trans (Lookup.name_eq_iff hlayout)⟩
    by_contra hne
    exact hoverlap (SegmentLayout.span_apart (ha.has hlayout) (hb.has hlayout) (mt hname.2 hne))
  · intro binding memories reader
    have hreturns : ∀ {α : Type} {program : Loads ReadFault α}, program.Within region.size (fun _ => True) →
        (program.run region.size memories).isSome := by
      intro α program hprogram
      obtain ⟨result, hrun, -⟩ := hprogram.run memories
      rw [hrun]
      rfl
    exact ⟨fun market => hreturns (resolve_within reader market), fun handle => hreturns (read_within reader handle),
      fun handle => hreturns (readCursor_within reader handle),
      fun handle => hreturns (attachStream_within reader handle), fun stream => hreturns (poll_within reader stream),
      fun cursor => hreturns (nextDirty_within reader cursor)⟩

/-- A segment for one market, and readers of it that find every byte set. -/
theorem formatted_segment_safe :
    let config : SegmentConfig := .new ⟨1, 1, 1, 1, 4⟩ 7 1
    let region := formatted config .inHeader ⟨config.layout.regionSize, fun _ => 0⟩
    (∃ record, (Lookup.event 0 5).find region config.layout = .ok record ∧
      record.base + record.size ≤ region.size ∧ record.base % 8 = 0) ∧
    ((poll ⟨region, config.layout, ⟨0, 7, 1⟩⟩ ⟨⟨⟨0, 7, 1⟩, 0, 0⟩, exampleMarket, ⟨1, 0⟩, none⟩).run region.size
      fun _ _ => 255).isSome := by
  intro config region
  have hvalid : validate region = .ok ⟨7, 1, config.layout⟩ :=
    (create_zeroed config ⟨⟨config.layout.regionSize, fun _ => 0⟩, true, 0, .heap⟩ (by decide) (by decide) (by decide)
      (by decide) rfl rfl rfl).1
  obtain ⟨hfind, -, hreads⟩ := validated_segment_safe hvalid
  exact ⟨hfind (.event 0 5) Nat.zero_lt_one, (hreads ⟨0, 7, 1⟩ fun _ _ => 255).2.2.2.2.1 _⟩

end Abi.Checked

end PmWs
