import PmWs.Lib.Memory
import PmWs.Lib.Fallible

/-!
# Where a segment's records lie

Five capacities fix a segment's geometry: the header, the directory, the state
slots, one event ring for each directory entry, the dirty ring and the trailer,
in that order. Every record of an accepted layout lies inside the region, and
no two of them share a byte.
-/

open Memory Fallible

namespace PmWs

namespace Abi

def regionAlignment : Nat := 128
def maxRegionBytes : Nat := 2 ^ 30

def headerBytes : Nat := 256
def trailerBytes : Nat := regionAlignment
def directoryEntryBytes : Nat := 512
def slotPrefixBytes : Nat := 256
def levelCellBytes : Nat := 64
def decimalCellBytes : Nat := 24
def eventSlotBytes : Nat := 256
def dirtySlotBytes : Nat := 32

def maxDirectoryCapacity : Nat := 65536
def maxStateSlotCapacity : Nat := 65536
def maxEventCapacity : Nat := 65536
def maxDirtyCapacity : Nat := 1048576
def maxLevelCapacity : Nat := 4096

end Abi

open Abi

def identityCapacity : Nat := 512 - 16
def nativeFamilyCapacity : Nat := 64
def resOutcomeCapacity : Nat := 64
def resTypeCapacity : Nat := 32
def resDateCapacity : Nat := 32

/-! ## The layout -/

structure SegmentLayout where
  directoryCapacity : Nat
  stateSlotCapacity : Nat
  levelCapacity : Nat
  eventCapacity : Nat
  dirtyCapacity : Nat
  deriving DecidableEq, Repr

inductive LayoutError where
  | capacityZero
  | capacityTooLarge
  | stateSlotsBelowDirectory
  | eventCapacityNotPowerOfTwo
  | dirtyCapacityNotPowerOfTwo
  | regionTooLarge
  deriving DecidableEq, Repr

def roundUp (value : Nat) : Nat := (value + (regionAlignment - 1)) / regionAlignment * regionAlignment

theorem le_roundUp (value : Nat) : value ≤ roundUp value := by
  unfold roundUp regionAlignment
  omega

/-- `u32::is_power_of_two`. -/
def isPowerOfTwo (value : Nat) : Bool := 2 ^ value.log2 = value

/-- The mask of a power of two is the remainder by it. -/
theorem mask_eq {capacity : Nat} (h : isPowerOfTwo capacity = true) (position : Nat) :
    position &&& (capacity - 1) = position % capacity := by
  have hpower : 2 ^ capacity.log2 = capacity := of_decide_eq_true h
  rw [← hpower]
  exact Nat.and_two_pow_sub_one_eq_mod position _

namespace SegmentLayout

variable (self : SegmentLayout)

def eventPositionMask : Nat := self.eventCapacity - 1
def eventRingBytes : Nat := self.eventCapacity * eventSlotBytes
def dirtyPositionMask : Nat := self.dirtyCapacity - 1
def dirtyRingBytes : Nat := self.dirtyCapacity * dirtySlotBytes

def stateSlotStride : Nat := roundUp (slotPrefixBytes + self.levelCapacity * levelCellBytes)
def directoryOffset (_ : SegmentLayout) : Nat := headerBytes
def stateSlotOffset : Nat := self.directoryOffset + self.directoryCapacity * directoryEntryBytes
def eventOffset : Nat := self.stateSlotOffset + self.stateSlotCapacity * self.stateSlotStride
def dirtyOffset : Nat := self.eventOffset + self.directoryCapacity * self.eventRingBytes
def trailerOffset : Nat := self.dirtyOffset + self.dirtyRingBytes
def regionSize : Nat := self.trailerOffset + trailerBytes

def new (directoryCapacity stateSlotCapacity levelCapacity eventCapacity dirtyCapacity : Nat) :
    Except LayoutError SegmentLayout :=
  if directoryCapacity = 0 ∨ stateSlotCapacity = 0 ∨ levelCapacity = 0 ∨ eventCapacity = 0 ∨ dirtyCapacity = 0 then
    .error .capacityZero
  else if directoryCapacity > maxDirectoryCapacity ∨ stateSlotCapacity > maxStateSlotCapacity ∨
      levelCapacity > maxLevelCapacity ∨ eventCapacity > maxEventCapacity ∨ dirtyCapacity > maxDirtyCapacity then
    .error .capacityTooLarge
  else if stateSlotCapacity < directoryCapacity then .error .stateSlotsBelowDirectory
  else if !isPowerOfTwo eventCapacity then .error .eventCapacityNotPowerOfTwo
  else if !isPowerOfTwo dirtyCapacity then .error .dirtyCapacityNotPowerOfTwo
  else
    let layout := ⟨directoryCapacity, stateSlotCapacity, levelCapacity, eventCapacity, dirtyCapacity⟩
    if layout.regionSize > maxRegionBytes then .error .regionTooLarge else .ok layout

/-- A layout that `new` returned. -/
def Valid : Prop :=
  new self.directoryCapacity self.stateSlotCapacity self.levelCapacity self.eventCapacity self.dirtyCapacity = .ok self

instance : Decidable self.Valid :=
  decidable_of_iff
    ((new self.directoryCapacity self.stateSlotCapacity self.levelCapacity self.eventCapacity
      self.dirtyCapacity).toOption = some self)
    Fallible.toOption_eq_some

/-- What `new` returns has the capacities it was given, and is what `new` gives of them. -/
theorem new_ok {directoryCapacity stateSlotCapacity levelCapacity eventCapacity dirtyCapacity : Nat}
    {layout : SegmentLayout}
    (h : new directoryCapacity stateSlotCapacity levelCapacity eventCapacity dirtyCapacity = .ok layout) :
    layout = ⟨directoryCapacity, stateSlotCapacity, levelCapacity, eventCapacity, dirtyCapacity⟩ ∧ layout.Valid := by
  have hcapacities : layout = ⟨directoryCapacity, stateSlotCapacity, levelCapacity, eventCapacity, dirtyCapacity⟩ := by
    simp only [new, ite_error_eq_ok, Except.ok.injEq] at h
    exact h.2.2.2.2.2.2.symm
  subst hcapacities
  exact ⟨rfl, h⟩

/-- What an accepted layout's capacities satisfy. -/
structure Bounds (layout : SegmentLayout) : Prop where
  directory_pos : 0 < layout.directoryCapacity
  event_pos : 0 < layout.eventCapacity
  dirty_pos : 0 < layout.dirtyCapacity
  directory_le : layout.directoryCapacity ≤ maxDirectoryCapacity
  level_le : layout.levelCapacity ≤ maxLevelCapacity
  slots : layout.directoryCapacity ≤ layout.stateSlotCapacity
  slots_le : layout.stateSlotCapacity ≤ maxStateSlotCapacity
  event_le : layout.eventCapacity ≤ maxEventCapacity
  dirty_le : layout.dirtyCapacity ≤ maxDirtyCapacity
  event_power : isPowerOfTwo layout.eventCapacity = true
  dirty_power : isPowerOfTwo layout.dirtyCapacity = true
  size_le : layout.regionSize ≤ maxRegionBytes

variable {self}

theorem Valid.bounds (h : self.Valid) : self.Bounds := by
  simp only [Valid, new, ite_error_eq_ok, not_or, Nat.not_lt, Bool.not_eq_true', Bool.not_eq_false] at h
  obtain ⟨⟨hdirectory, hslot, hlevel, hevent, hdirty⟩, ⟨hdirectoryMax, hslotMax, hlevelMax, heventMax, hdirtyMax⟩, hslots,
    heventPower, hdirtyPower, hsize, -⟩ := h
  exact ⟨Nat.pos_of_ne_zero hdirectory, Nat.pos_of_ne_zero hevent, Nat.pos_of_ne_zero hdirty, hdirectoryMax, hlevelMax,
    hslots, hslotMax, heventMax, hdirtyMax, heventPower, hdirtyPower, hsize⟩

end SegmentLayout

/-! ## The records -/

/-- Every record a segment of some layout has. -/
inductive RecordName where
  | header
  | directory (index : Nat)
  | stateSlot (index : Nat)
  | eventSlot (entry slot : Nat)
  | dirtySlot (slot : Nat)
  | trailer
  deriving DecidableEq, Repr

/-- A run of the region's bytes. -/
structure Record where
  base : Nat
  size : Nat
  deriving DecidableEq, Repr

/-- The records share no byte. -/
def Record.Apart (self other : Record) : Prop :=
  self.base + self.size ≤ other.base ∨ other.base + other.size ≤ self.base

namespace SegmentLayout

variable (self : SegmentLayout)

def Has : RecordName → Prop
  | .header | .trailer => True
  | .directory index => index < self.directoryCapacity
  | .stateSlot index => index < self.stateSlotCapacity
  | .eventSlot entry slot => entry < self.directoryCapacity ∧ slot < self.eventCapacity
  | .dirtySlot slot => slot < self.dirtyCapacity

def span : RecordName → Record
  | .header => ⟨0, headerBytes⟩
  | .directory index => ⟨self.directoryOffset + index * directoryEntryBytes, directoryEntryBytes⟩
  | .stateSlot index => ⟨self.stateSlotOffset + index * self.stateSlotStride, self.stateSlotStride⟩
  | .eventSlot entry slot =>
    ⟨self.eventOffset + entry * self.eventRingBytes + slot * eventSlotBytes, eventSlotBytes⟩
  | .dirtySlot slot => ⟨self.dirtyOffset + slot * dirtySlotBytes, dirtySlotBytes⟩
  | .trailer => ⟨self.trailerOffset, trailerBytes⟩

/-- The section a record belongs to: where it starts and where it ends. -/
def bounds : RecordName → Nat × Nat
  | .header => (0, self.directoryOffset)
  | .directory _ => (self.directoryOffset, self.stateSlotOffset)
  | .stateSlot _ => (self.stateSlotOffset, self.eventOffset)
  | .eventSlot _ _ => (self.eventOffset, self.dirtyOffset)
  | .dirtySlot _ => (self.dirtyOffset, self.trailerOffset)
  | .trailer => (self.trailerOffset, self.regionSize)

theorem has_eventSlot {entry : Nat} (h : entry < self.directoryCapacity) (hpos : 0 < self.eventCapacity)
    (position : Nat) : self.Has (.eventSlot entry (position &&& self.eventPositionMask)) := by
  have : position &&& self.eventPositionMask ≤ self.eventPositionMask := Nat.and_le_right
  exact ⟨h, by unfold eventPositionMask at *; omega⟩

theorem has_dirtySlot (hpos : 0 < self.dirtyCapacity) (position : Nat) :
    self.Has (.dirtySlot (position &&& self.dirtyPositionMask)) := by
  have : position &&& self.dirtyPositionMask ≤ self.dirtyPositionMask := Nat.and_le_right
  show _ < self.dirtyCapacity
  unfold dirtyPositionMask at *
  omega

variable {self} {name other : RecordName}

/-- A record lies inside its section. -/
theorem span_within (h : self.Has name) :
    (self.bounds name).1 ≤ (self.span name).base ∧
      (self.span name).base + (self.span name).size ≤ (self.bounds name).2 := by
  cases name with
  | header => simp [bounds, span, directoryOffset]
  | directory index =>
    have := tile_within directoryEntryBytes h
    simp only [bounds, span, stateSlotOffset]
    omega
  | stateSlot index =>
    have := tile_within self.stateSlotStride h
    simp only [bounds, span, eventOffset]
    omega
  | eventSlot entry slot =>
    have hring := tile_within self.eventRingBytes h.1
    have hslot : slot * eventSlotBytes + eventSlotBytes ≤ self.eventRingBytes := tile_within eventSlotBytes h.2
    simp only [bounds, span, dirtyOffset]
    omega
  | dirtySlot slot =>
    have hslot : slot * dirtySlotBytes + dirtySlotBytes ≤ self.dirtyRingBytes := tile_within dirtySlotBytes h
    simp only [bounds, span, trailerOffset]
    omega
  | trailer => simp [bounds, span, regionSize]

/-- A record lies inside the region. -/
theorem span_le (h : self.Has name) : (self.span name).base + (self.span name).size ≤ self.regionSize := by
  have hwithin := (span_within h).2
  have hsection : (self.bounds name).2 ≤ self.regionSize := by
    cases name <;> simp only [bounds, regionSize, trailerOffset, dirtyOffset, eventOffset, stateSlotOffset] <;> omega
  omega

/-- No two records share a byte. -/
theorem span_apart (h : self.Has name) (hother : self.Has other) (hne : name ≠ other) :
    (self.span name).Apart (self.span other) := by
  have hin := span_within h
  have hout := span_within hother
  have h₁ : self.directoryOffset ≤ self.stateSlotOffset := Nat.le_add_right ..
  have h₂ : self.stateSlotOffset ≤ self.eventOffset := Nat.le_add_right ..
  have h₃ : self.eventOffset ≤ self.dirtyOffset := Nat.le_add_right ..
  have h₄ : self.dirtyOffset ≤ self.trailerOffset := Nat.le_add_right ..
  unfold Record.Apart
  -- Records of different sections are apart as their sections are; two of one section are different tiles of it.
  cases name <;> cases other <;> simp only [bounds] at hin hout <;> try omega
  all_goals first | exact absurd rfl hne | skip
  case directory.directory i j =>
    have := tiles_apart directoryEntryBytes (show i ≠ j by rintro rfl; exact hne rfl)
    simp only [span]
    omega
  case stateSlot.stateSlot i j =>
    have := tiles_apart self.stateSlotStride (show i ≠ j by rintro rfl; exact hne rfl)
    simp only [span]
    omega
  case eventSlot.eventSlot i k j l =>
    have hslot : k * eventSlotBytes + eventSlotBytes ≤ self.eventRingBytes := tile_within eventSlotBytes h.2
    have hslot' : l * eventSlotBytes + eventSlotBytes ≤ self.eventRingBytes := tile_within eventSlotBytes hother.2
    simp only [span]
    by_cases hij : i = j
    · subst hij
      have := tiles_apart eventSlotBytes (show k ≠ l by rintro rfl; exact hne rfl)
      omega
    · have := tiles_apart self.eventRingBytes hij
      omega
  case dirtySlot.dirtySlot i j =>
    have := tiles_apart dirtySlotBytes (show i ≠ j by rintro rfl; exact hne rfl)
    simp only [span]
    omega

/-- Every record starts at a multiple of eight. -/
theorem span_aligned (self : SegmentLayout) (name : RecordName) : (self.span name).base % 8 = 0 := by
  cases name <;>
    simp only [span, trailerOffset, dirtyRingBytes, dirtyOffset, eventRingBytes, eventOffset, stateSlotStride, roundUp,
      stateSlotOffset, directoryOffset, headerBytes, directoryEntryBytes, eventSlotBytes, dirtySlotBytes,
      regionAlignment, ← Nat.mul_assoc] <;>
    omega

end SegmentLayout

/-! ## The region -/

/-- Why a segment is refused. -/
inductive SegmentFault where
  | regionTooSmall (size : Nat)
  | regionMisaligned (size : Nat)
  | headerUnpublished
  | magicMismatch (found : Nat)
  | abiVersionUnsupported (found expected : Nat)
  | alignmentMismatch (found expected : Nat)
  | regionSizeMismatch (declared actual : Nat)
  | capacityOutOfRange
  | featureUnsupported (bits : Nat)
  | geometryMismatch
  | trailerMismatch
  | geometryUnreachable
  deriving DecidableEq, Repr

structure Region where
  size : Nat
  bytes : Bytes

namespace Region

/-- `RegionCells::record`. -/
def record (self : Region) (offset size : Nat) : Option Record :=
  if offset % 8 ≠ 0 ∨ size > self.size ∨ offset > self.size - size then none else some ⟨offset, size⟩

/-- What a reader sees of a record. -/
def bytesAt (self : Region) (record : Record) : Bytes := view self.bytes record.base

/-- The stores of one record, in order. -/
def store (self : Region) (record : Record) (stores : List Store) : Region :=
  { self with bytes := storeAll self.bytes (stores.map (·.shift record.base)) }

/-- The two regions hold the same bytes in the record. -/
def SameAt (self other : Region) (record : Record) : Prop :=
  ∀ address < record.size, other.bytesAt record address = self.bytesAt record address

variable {self other later : Region} {record target : Record} {stores : List Store}

@[simp] theorem store_size (self : Region) (record : Record) (stores : List Store) :
    (self.store record stores).size = self.size := rfl

theorem bytesAt_store (self : Region) (record : Record) (stores : List Store) :
    (self.store record stores).bytesAt record = storeAll (self.bytesAt record) stores := view_storeAll ..

theorem store_store (self : Region) (record : Record) (stores more : List Store) :
    (self.store record stores).store record more = self.store record (stores ++ more) := by
  simp only [store, List.map_append, storeAll_append]

theorem SameAt.trans (h : self.SameAt other record) (h' : other.SameAt later record) : self.SameAt later record :=
  fun address hin => (h' address hin).trans (h address hin)

theorem SameAt.read (h : self.SameAt other record) {offset length : Nat} (hin : offset + length ≤ record.size) :
    read (other.bytesAt record) offset length = read (self.bytesAt record) offset length :=
  read_congr fun address _ hhigh => h address (by omega)

theorem SameAt.load (h : self.SameAt other record) {offset width : Nat} (hin : offset + width ≤ record.size) :
    load (other.bytesAt record) offset width = load (self.bytesAt record) offset width := by
  rw [Memory.load, h.read hin, Memory.load]

/-- What a record holds is what every region holds that agrees on it. -/
theorem SameAt.holds (h : self.SameAt other record) (hin : ∀ store ∈ stores, store.offset + store.width ≤ record.size)
    (hholds : Holds (self.bytesAt record) stores) : Holds (other.bytesAt record) stores := by
  intro store hstore
  rw [h.load (hin store hstore), hholds store hstore]

/-- Stores inside one record leave every record apart from it. -/
theorem SameAt.store (self : Region) (hin : ∀ store ∈ stores, store.offset + store.width ≤ record.size)
    (hapart : record.Apart target) : self.SameAt (self.store record stores) target := by
  intro address haddress
  apply storeAll_outside
  intro shifted hshifted
  obtain ⟨store, hstore, rfl⟩ := List.mem_map.1 hshifted
  have hinside := hin store hstore
  simp only [Store.shift]
  rcases hapart with h | h
  · exact .inr (by omega)
  · exact .inl (by omega)

end Region

/-! ## Looking a record up -/

section Lookup
variable (region : Region) (layout : SegmentLayout)

def headerRecord : Except SegmentFault Record := orError (region.record 0 headerBytes) .geometryUnreachable

def trailerRecord : Except SegmentFault Record :=
  orError (region.record (region.size - trailerBytes) trailerBytes) .geometryUnreachable

def directoryRecord (index : Nat) : Except SegmentFault Record :=
  if index ≥ layout.directoryCapacity then .error .geometryUnreachable
  else
    orError (region.record (layout.directoryOffset + index * directoryEntryBytes) directoryEntryBytes)
      .geometryUnreachable

def stateSlotRecord (index : Nat) : Except SegmentFault Record :=
  if index ≥ layout.stateSlotCapacity then .error .geometryUnreachable
  else
    orError (region.record (layout.stateSlotOffset + index * layout.stateSlotStride) layout.stateSlotStride)
      .geometryUnreachable

def eventSlotRecord (entryIndex position : Nat) : Except SegmentFault Record :=
  if entryIndex ≥ layout.directoryCapacity then .error .geometryUnreachable
  else
    let ringBase := layout.eventOffset + entryIndex * layout.eventRingBytes
    let slot := position &&& layout.eventPositionMask
    orError (region.record (ringBase + slot * eventSlotBytes) eventSlotBytes) .geometryUnreachable

def dirtySlotRecord (position : Nat) : Except SegmentFault Record :=
  let slot := position &&& layout.dirtyPositionMask
  orError (region.record (layout.dirtyOffset + slot * dirtySlotBytes) dirtySlotBytes) .geometryUnreachable

variable {region layout} {name : RecordName} (hsize : region.size = layout.regionSize)
include hsize

theorem record_span (h : layout.Has name) :
    region.record (layout.span name).base (layout.span name).size = some (layout.span name) := by
  have hfit := SegmentLayout.span_le h
  have haligned := layout.span_aligned name
  exact if_neg (by omega)

theorem headerRecord_eq : headerRecord region = .ok (layout.span .header) := by
  exact orError_eq_ok.2 (record_span hsize (show layout.Has .header from trivial))

theorem trailerRecord_eq : trailerRecord region = .ok (layout.span .trailer) := by
  have hbase : region.size - trailerBytes = layout.trailerOffset := by
    rw [hsize, SegmentLayout.regionSize, Nat.add_sub_cancel]
  rw [trailerRecord, hbase]
  exact orError_eq_ok.2 (record_span hsize (show layout.Has .trailer from trivial))

theorem directoryRecord_eq {index : Nat} (h : index < layout.directoryCapacity) :
    directoryRecord region layout index = .ok (layout.span (.directory index)) := by
  rw [directoryRecord, if_neg (by omega)]
  exact orError_eq_ok.2 (record_span hsize (show layout.Has (.directory index) from h))

theorem stateSlotRecord_eq {index : Nat} (h : index < layout.stateSlotCapacity) :
    stateSlotRecord region layout index = .ok (layout.span (.stateSlot index)) := by
  rw [stateSlotRecord, if_neg (by omega)]
  exact orError_eq_ok.2 (record_span hsize (show layout.Has (.stateSlot index) from h))

/-- The event slot a position maps to. -/
theorem eventSlotRecord_eq {entry : Nat} (h : entry < layout.directoryCapacity) (hpos : 0 < layout.eventCapacity)
    (position : Nat) :
    eventSlotRecord region layout entry position =
      .ok (layout.span (.eventSlot entry (position &&& layout.eventPositionMask))) := by
  rw [eventSlotRecord, if_neg (by omega)]
  exact orError_eq_ok.2 (record_span hsize (layout.has_eventSlot h hpos position))

theorem dirtySlotRecord_eq (hpos : 0 < layout.dirtyCapacity) (position : Nat) :
    dirtySlotRecord region layout position = .ok (layout.span (.dirtySlot (position &&& layout.dirtyPositionMask))) :=
  orError_eq_ok.2 (record_span hsize (layout.has_dirtySlot hpos position))

end Lookup

end PmWs
