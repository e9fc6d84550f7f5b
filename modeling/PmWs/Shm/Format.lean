import PmWs.Shm.Segment

/-!
# Formatting and validating a segment

A fresh region is all zeros. `create` publishes its trailer and then its header,
each behind a write-once gate; `validate` reads the two back and recomputes the
layout from the capacities the header declares. `install` publishes directory
entries in the same way.
-/

open MachineInt Memory Fallible Transactions

namespace PmWs.Abi

/-- `u64::from_le_bytes(*b"PMWSSTA1")`. -/
def magic : Nat := leValue [0x50, 0x4D, 0x57, 0x53, 0x53, 0x54, 0x41, 0x31]
/-- `u64::from_le_bytes(*b"PMWSEND1")`. -/
def trailerMagic : Nat := leValue [0x50, 0x4D, 0x57, 0x53, 0x45, 0x4E, 0x44, 0x31]
def abiVersion : Nat := 5

def featureEventRingWraps : Nat := 1 <<< 0
def featureDoorbellInHeader : Nat := 1 <<< 1
def featureDoorbellPage : Nat := 1 <<< 2
def knownFeatureBits : Nat := featureEventRingWraps ||| featureDoorbellInHeader ||| featureDoorbellPage

def hdrMagic : Nat := 0
def hdrAbiVersion : Nat := 8
def hdrRegionAlignment : Nat := 12
def hdrRegionSize : Nat := 16
def hdrInstanceLow : Nat := 24
def hdrInstanceHigh : Nat := 32
def hdrSegmentGeneration : Nat := 40
def hdrDirectoryOffset : Nat := 48
def hdrDirectoryStride : Nat := 56
def hdrDirectoryCapacity : Nat := 60
def hdrSlotOffset : Nat := 64
def hdrSlotStride : Nat := 72
def hdrSlotCapacity : Nat := 76
def hdrLevelCapacity : Nat := 80
def hdrLevelStride : Nat := 84
def hdrIdentityCapacity : Nat := 88
def hdrFamilyCapacity : Nat := 92
def hdrTrailerOffset : Nat := 96
def hdrFeatureBits : Nat := 104
def hdrEventOffset : Nat := 112
def hdrEventCapacity : Nat := 120
def hdrEventStride : Nat := 124
def hdrDirtyOffset : Nat := 144
def hdrDirtyCapacity : Nat := 152
def hdrDirtyStride : Nat := 156

def trlRegionSize : Nat := 0
def trlMagic : Nat := 8

/-! ## Regions -/

inductive RegionError where
  | sizeZero
  | sizeNotBlockAligned
  | sizeTooLarge
  deriving DecidableEq, Repr

def checkSize (bytes : Nat) : Except RegionError Unit :=
  if bytes = 0 then .error .sizeZero
  else if bytes % regionAlignment ≠ 0 then .error .sizeNotBlockAligned
  else if bytes > maxRegionBytes then .error .sizeTooLarge
  else .ok ()

/-- What backs a region. For a file, what the platform answers when the doorbell is placed: whether a read-only mapping
can be waited on, and what comes of creating the sibling page. -/
inductive Backing where
  | heap
  | file (acceptsWait : Bool) (page : Except WriterError Unit)

structure SegmentRegion extends Region where
  writable : Bool
  attachment : Nat
  backing : Backing

/-- `SegmentRegion::zeroed`, given the next attachment id. -/
def SegmentRegion.zeroed (bytes attachment : Nat) : Except RegionError SegmentRegion := do
  checkSize bytes
  .ok ⟨⟨bytes, fun _ => 0⟩, true, attachment, .heap⟩

/-! ## Write-once records -/

/-- The gate's value, when the record has been published. -/
def publishedGate (record : Bytes) (gate : Nat) : Option Nat :=
  let value := load record gate 8
  if value ≠ 0 ∧ value ≠ gateClaimed then some value else none

/-- The stores of a write-once publication: the claim, the payload, the gate. -/
def writeOnceStores (gate value : Nat) (fields : List Store) : List Store :=
  word64 gate gateClaimed :: (fields ++ [word64 gate value])

/-- `publish_write_once`, or `none` when the record is already claimed. -/
def publishWriteOnce (region : Region) (record : Record) (gate value : Nat) (fields : List Store) : Option Region :=
  if load (region.bytesAt record) gate 8 = 0 then some (region.store record (writeOnceStores gate value fields))
  else none

/-! ## Validation -/

structure SegmentGeometry where
  daemonInstanceId : Nat
  segmentGeneration : Nat
  layout : SegmentLayout
  deriving DecidableEq

/-- `u64::count_ones`. -/
def countOnes (word : Nat) : Nat := ((List.range 64).filter word.testBit).length

def featuresSupported (features : Nat) : Bool :=
  features &&& (u64Max ^^^ knownFeatureBits) = 0 && features &&& featureEventRingWraps ≠ 0 &&
    countOnes (features &&& (featureDoorbellInHeader ||| featureDoorbellPage)) = 1

/-- Every remaining word of the header is what the layout implies. -/
def geometryMatches (header : Bytes) (size : Nat) (layout : SegmentLayout) : Bool :=
  layout.regionSize = size &&
    load header hdrDirectoryOffset 8 = layout.directoryOffset &&
    load header hdrDirectoryStride 4 = directoryEntryBytes &&
    load header hdrSlotOffset 8 = layout.stateSlotOffset &&
    load header hdrSlotStride 4 = layout.stateSlotStride &&
    load header hdrLevelStride 4 = levelCellBytes &&
    load header hdrIdentityCapacity 4 = identityCapacity &&
    load header hdrFamilyCapacity 4 = nativeFamilyCapacity &&
    load header hdrEventOffset 8 = layout.eventOffset &&
    load header hdrEventStride 4 = eventSlotBytes &&
    load header hdrDirtyOffset 8 = layout.dirtyOffset &&
    load header hdrDirtyStride 4 = dirtySlotBytes &&
    load header hdrTrailerOffset 8 = layout.trailerOffset

/-- The words of the header before the capacities. -/
def checkHeader (header : Bytes) (gate size : Nat) : Except SegmentFault Unit :=
  if gate ≠ magic then .error (.magicMismatch gate)
  else if load header hdrAbiVersion 4 ≠ abiVersion then
    .error (.abiVersionUnsupported (load header hdrAbiVersion 4) abiVersion)
  else if load header hdrRegionAlignment 4 ≠ regionAlignment then
    .error (.alignmentMismatch (load header hdrRegionAlignment 4) regionAlignment)
  else if load header hdrRegionSize 8 ≠ size then .error (.regionSizeMismatch (load header hdrRegionSize 8) size)
  else if !featuresSupported (load header hdrFeatureBits 8) then
    .error (.featureUnsupported (load header hdrFeatureBits 8))
  else .ok ()

def declaredLayout (header : Bytes) : Except SegmentFault SegmentLayout :=
  (SegmentLayout.new (load header hdrDirectoryCapacity 4) (load header hdrSlotCapacity 4)
    (load header hdrLevelCapacity 4) (load header hdrEventCapacity 4)
    (load header hdrDirtyCapacity 4)).mapError fun _ => .capacityOutOfRange

def checkTrailer (trailer : Bytes) (size : Nat) : Except SegmentFault Unit := do
  let gate ← orError (publishedGate trailer trlMagic) .trailerMismatch
  if gate ≠ trailerMagic ∨ load trailer trlRegionSize 8 ≠ size then .error .trailerMismatch else .ok ()

def validate (region : Region) : Except SegmentFault SegmentGeometry :=
  let size := region.size
  if size % regionAlignment ≠ 0 then .error (.regionMisaligned size)
  else if size < headerBytes + trailerBytes then .error (.regionTooSmall size)
  else do
    let header ← headerRecord region
    let header := region.bytesAt header
    let gate ← orError (publishedGate header hdrMagic) .headerUnpublished
    checkHeader header gate size
    let layout ← declaredLayout header
    if !geometryMatches header size layout then .error .geometryMismatch
    else do
      let trailer ← trailerRecord region
      checkTrailer (region.bytesAt trailer) size
      .ok
        { daemonInstanceId := load header hdrInstanceHigh 8 <<< 64 ||| load header hdrInstanceLow 8
          segmentGeneration := load header hdrSegmentGeneration 8
          layout }

/-- What a reader may rely on once a segment has passed. -/
theorem validate_ok {region : Region} {geometry : SegmentGeometry} (h : validate region = .ok geometry) :
    geometry.layout.Valid ∧ region.size = geometry.layout.regionSize := by
  simp only [validate, ite_error_eq_ok, Fallible.bind_eq_ok, Except.ok.injEq] at h
  obtain ⟨-, -, header, -, gate, -, _, -, layout, hlayout, hmatches, trailer, -, _, -, rfl⟩ := h
  have hnew : SegmentLayout.new _ _ _ _ _ = .ok layout := mapError_eq_ok.1 hlayout
  refine ⟨(SegmentLayout.new_ok hnew).2, ?_⟩
  simp only [geometryMatches, Bool.not_eq_true', Bool.not_eq_false, Bool.and_eq_true, decide_eq_true_eq] at hmatches
  exact hmatches.1.1.1.1.1.1.1.1.1.1.1.1.symm

/-! ## Creation -/

inductive DoorbellPlacement where
  | probe
  | forcePage
  deriving DecidableEq, Repr

structure SegmentConfig where
  layout : SegmentLayout
  daemonInstanceId : Nat
  segmentGeneration : Nat
  doorbell : DoorbellPlacement

def SegmentConfig.new (layout : SegmentLayout) (daemonInstanceId segmentGeneration : Nat) : SegmentConfig :=
  ⟨layout, daemonInstanceId, segmentGeneration, .probe⟩

def chooseDoorbell (backing : Backing) (requested : DoorbellPlacement) : Except WriterError Doorbell :=
  match backing, requested with
  | .heap, .forcePage => .error .doorbellPageUnavailable
  | .heap, .probe => .ok .inHeader
  | .file true _, .probe => .ok .inHeader
  | .file _ page, _ => page.map fun _ => .page 0

def doorbellBit : Doorbell → Nat
  | .inHeader => featureDoorbellInHeader
  | .page _ => featureDoorbellPage

def headerFields (config : SegmentConfig) (size : Nat) (doorbell : Doorbell) : List Store :=
  let layout := config.layout
  [word64 hdrRegionSize size, word64 hdrFeatureBits (featureEventRingWraps ||| doorbellBit doorbell),
    word64 hdrEventOffset layout.eventOffset, word64 hdrDirtyOffset layout.dirtyOffset,
    word64 hdrInstanceLow (config.daemonInstanceId % 2 ^ 64), word64 hdrInstanceHigh (config.daemonInstanceId >>> 64),
    word64 hdrSegmentGeneration config.segmentGeneration, word64 hdrDirectoryOffset layout.directoryOffset,
    word64 hdrSlotOffset layout.stateSlotOffset, word64 hdrTrailerOffset layout.trailerOffset,
    word32 hdrAbiVersion abiVersion, word32 hdrEventCapacity layout.eventCapacity,
    word32 hdrEventStride eventSlotBytes, word32 hdrDirtyCapacity layout.dirtyCapacity,
    word32 hdrDirtyStride dirtySlotBytes, word32 hdrRegionAlignment regionAlignment,
    word32 hdrDirectoryStride directoryEntryBytes, word32 hdrDirectoryCapacity layout.directoryCapacity,
    word32 hdrSlotStride layout.stateSlotStride, word32 hdrSlotCapacity layout.stateSlotCapacity,
    word32 hdrLevelCapacity layout.levelCapacity, word32 hdrLevelStride levelCellBytes,
    word32 hdrIdentityCapacity identityCapacity, word32 hdrFamilyCapacity nativeFamilyCapacity]

/-- A write-once record of a segment being formatted. -/
def formatRecord (record : Record) (gate value : Nat) (fields : List Store) : EStateM WriterError SegmentRegion Unit :=
  fun region =>
    match publishWriteOnce region.toRegion record gate value fields with
    | some formatted => .ok () { region with toRegion := formatted }
    | none => .error .segmentAlreadyFormatted region

/-- `SegmentWriter::create`. What it wrote before it failed stays written. -/
def SegmentWriter.create (config : SegmentConfig) : EStateM WriterError SegmentRegion SegmentWriter := do
  let layout := config.layout
  check fun region => if region.writable then .ok () else .error .regionNotWritable
  let size ← check fun region =>
    if region.size ≠ layout.regionSize then .error (.regionSizeMismatch layout.regionSize region.size)
    else .ok region.size
  let trailer ← check fun region => reach (trailerRecord region.toRegion)
  let header ← check fun region => reach (headerRecord region.toRegion)
  formatRecord trailer trlMagic trailerMagic [word64 trlRegionSize size]
  let doorbell ← check fun region => chooseDoorbell region.backing config.doorbell
  formatRecord header hdrMagic magic (headerFields config size doorbell)
  check fun region => do
    let geometry ← (validate region.toRegion).mapError fun _ => .segment
    .ok
      { region := region.toRegion
        layout := geometry.layout
        binding := ⟨region.attachment, geometry.daemonInstanceId, geometry.segmentGeneration⟩
        installed := []
        doorbell
        dirtyPosition := 0 }

/-! ## Installation -/

def entryFields (index identityLen : Nat) (identity : List UInt8) : List Store :=
  [word32 entSlotIndex index, word32 entIdentityLen identityLen,
    ⟨⟨entIdentity, identity.length⟩, leValue identity⟩]

/-- A directory entry of a segment, written once. -/
def SegmentWriter.publishEntry (entry : Record) (fields : List Store) : Call Unit := fun self =>
  match publishWriteOnce self.region entry entRevision 1 fields with
  | some region => .ok () { self with region }
  | none => .error .marketAlreadyInstalled self

def SegmentWriter.install (market : MarketRef) : Call MarketHandle := do
  check fun self =>
    if self.installed.any fun installed => installed.market = market then .error .marketAlreadyInstalled else .ok ()
  let index ← check fun self => orError (fit u32Max self.installed.length) .directoryFull
  check fun self => if index ≥ self.layout.directoryCapacity then .error .directoryFull else .ok ()
  let identity ← check fun _ => orError (Codec.encodeIdentity market identityCapacity) .identityTooLong
  let identityLen ← check fun _ => orError (fit u32Max identity.length) .identityTooLong
  let slot ← check fun self => reach (stateSlotRecord self.region self.layout index)
  update fun self => self.store slot [word32 slotDirectoryIndex index]
  let entry ← check fun self => reach (directoryRecord self.region self.layout index)
  publishEntry entry (entryFields index identityLen identity)
  update fun self => { self with installed := self.installed ++ [⟨market, 0, 0⟩] }
  check fun self => .ok ⟨self.binding, index, index⟩

/-! ## A formatted segment passes -/

section Formatted
variable {config : SegmentConfig} {region : Region} {doorbell : Doorbell}

/-- The sections' offsets and the stride are far below the widths they are stored at. -/
theorem offsets_le {layout : SegmentLayout} (h : layout.Valid) :
    layout.stateSlotOffset ≤ u64Max ∧ layout.eventOffset ≤ u64Max ∧ layout.dirtyOffset ≤ u64Max ∧
      layout.trailerOffset ≤ u64Max ∧ layout.regionSize ≤ u64Max ∧ layout.stateSlotStride ≤ u32Max := by
  have hsize := h.bounds.size_le
  have hlevels := h.bounds.level_le
  have h₂ : layout.stateSlotOffset ≤ layout.eventOffset := Nat.le_add_right ..
  have h₃ : layout.eventOffset ≤ layout.dirtyOffset := Nat.le_add_right ..
  have h₄ : layout.dirtyOffset ≤ layout.trailerOffset := Nat.le_add_right ..
  have h₅ : layout.trailerOffset ≤ layout.regionSize := Nat.le_add_right ..
  unfold maxRegionBytes at hsize
  unfold maxLevelCapacity at hlevels
  simp only [SegmentLayout.stateSlotStride, roundUp, regionAlignment, slotPrefixBytes, levelCellBytes, u64Max, u32Max]
  omega

/-- The identity is stored in two halves. -/
theorem halves (id : Nat) : (id >>> 64) <<< 64 ||| id % 2 ^ 64 = id := by
  rw [← Nat.shiftLeft_add_eq_or_of_lt (Nat.mod_lt _ (by decide)), Nat.shiftRight_eq_div_pow, Nat.shiftLeft_eq]
  exact Nat.div_add_mod' id (2 ^ 64)

theorem features_supported (doorbell : Doorbell) :
    (featureEventRingWraps ||| doorbellBit doorbell) ≤ u64Max ∧
      featuresSupported (featureEventRingWraps ||| doorbellBit doorbell) = true := by
  cases doorbell with
  | inHeader => decide
  | page _ =>
    change (featureEventRingWraps ||| featureDoorbellPage) ≤ u64Max ∧
      featuresSupported (featureEventRingWraps ||| featureDoorbellPage) = true
    decide

theorem validate_formatted (hlayout : config.layout.Valid) (hsize : region.size = config.layout.regionSize)
    (haligned : region.size % regionAlignment = 0) (hid : config.daemonInstanceId ≤ u128Max)
    (hgeneration : config.segmentGeneration ≤ u64Max)
    (hheader : Holds (region.bytesAt (config.layout.span .header))
      (headerFields config region.size doorbell ++ [word64 hdrMagic magic]))
    (htrailer : Holds (region.bytesAt (config.layout.span .trailer))
      [word64 trlRegionSize region.size, word64 trlMagic trailerMagic]) :
    validate region = .ok ⟨config.daemonInstanceId, config.segmentGeneration, config.layout⟩ := by
  obtain ⟨hslotOffset, heventOffset, hdirtyOffset, htrailerOffset, hregionSize, hstride⟩ := offsets_le hlayout
  rw [← hsize] at hregionSize
  obtain ⟨hfeatures, hsupported⟩ := features_supported doorbell
  have hbounds := hlayout.bounds
  have hdirectoryOffset : config.layout.directoryOffset ≤ u64Max := show 256 ≤ u64Max by decide
  have hdirectory := hbounds.directory_le.trans (show _ ≤ u32Max by decide)
  have hslots := hbounds.slots_le.trans (show _ ≤ u32Max by decide)
  have hlevels := hbounds.level_le.trans (show _ ≤ u32Max by decide)
  have hevents := hbounds.event_le.trans (show _ ≤ u32Max by decide)
  have hdirty := hbounds.dirty_le.trans (show _ ≤ u32Max by decide)
  have hlow : config.daemonInstanceId % 2 ^ 64 ≤ u64Max := Nat.le_pred_of_lt (Nat.mod_lt _ (by decide))
  have hhigh : config.daemonInstanceId >>> 64 ≤ u64Max := by
    unfold u128Max at hid
    unfold u64Max
    rw [Nat.shiftRight_eq_div_pow]
    omega
  simp only [headerFields, holds_append, holds_cons, word64, word32] at hheader htrailer
  simp (disch := first | assumption | decide) only [mod_u64, mod_u32] at hheader htrailer
  obtain ⟨⟨h₁, h₂, h₃, h₄, h₅, h₆, h₇, h₈, h₉, h₁₀, h₁₁, h₁₂, h₁₃, h₁₄, h₁₅, h₁₆, h₁₇, h₁₈, h₁₉, h₂₀, h₂₁, h₂₂, h₂₃, h₂₄, -⟩,
    hmagic, -⟩ := hheader
  obtain ⟨htrailerSize, htrailerMagic, -⟩ := htrailer
  have hgate : publishedGate (region.bytesAt (config.layout.span .header)) hdrMagic = some magic := by
    rw [publishedGate, hmagic]
    rfl
  have hcheck : checkHeader (region.bytesAt (config.layout.span .header)) magic region.size = .ok () := by
    simp [checkHeader, h₁, h₂, h₁₁, h₁₆, hsupported]
  have hdeclared : declaredLayout (region.bytesAt (config.layout.span .header)) = .ok config.layout := by
    rw [declaredLayout, h₁₂, h₁₄, h₁₈, h₂₀, h₂₁]
    exact mapError_eq_ok.2 hlayout
  have hmatches : geometryMatches (region.bytesAt (config.layout.span .header)) region.size config.layout = true := by
    simp [geometryMatches, h₃, h₄, h₈, h₉, h₁₀, h₁₃, h₁₅, h₁₇, h₁₉, h₂₂, h₂₃, h₂₄, hsize]
  have htrailerCheck : checkTrailer (region.bytesAt (config.layout.span .trailer)) region.size = .ok () := by
    have hgate : publishedGate (region.bytesAt (config.layout.span .trailer)) trlMagic = some trailerMagic := by
      rw [publishedGate, htrailerMagic]
      rfl
    simp [checkTrailer, hgate, htrailerSize, orError, ok_bind]
  have hsmall : ¬ region.size < headerBytes + trailerBytes := by
    rw [hsize]
    simp only [SegmentLayout.regionSize, SegmentLayout.trailerOffset, SegmentLayout.dirtyOffset,
      SegmentLayout.eventOffset, SegmentLayout.stateSlotOffset, SegmentLayout.directoryOffset]
    omega
  rw [validate, if_neg (not_not.2 haligned), if_neg hsmall]
  simp only [headerRecord_eq hsize, trailerRecord_eq hsize, ok_bind, hgate, orError, hcheck, hdeclared, hmatches,
    Bool.not_true, Bool.false_eq_true, if_false, htrailerCheck, h₅, h₆, h₇, halves]

end Formatted

/-! ## What `create` leaves -/

theorem load_zeros (offset width : Nat) : load (fun _ => 0) offset width = 0 := by
  have hzero : ∀ bytes : List UInt8, (∀ byte ∈ bytes, byte = 0) → leValue bytes = 0 := by
    intro bytes
    induction bytes with
    | nil => exact fun _ => rfl
    | cons byte bytes ih =>
      intro h
      rw [leValue, ih fun later hlater => h later (.tail _ hlater), h byte (.head _)]
      rfl
  apply hzero
  simp [Memory.read]

/-- A write-once record holds its payload and its gate. -/
theorem writeOnce_holds {gate value : Nat} {fields : List Store} (mem : Bytes)
    (h : Separate ((fields ++ [word64 gate value]).map Store.toCell)) :
    Holds (storeAll mem (writeOnceStores gate value fields)) (fields ++ [word64 gate value]) := holds_storeAll h _

/-- The cells of the header, in the order they are stored. -/
def headerCells : List Cell :=
  [⟨16, 8⟩, ⟨104, 8⟩, ⟨112, 8⟩, ⟨144, 8⟩, ⟨24, 8⟩, ⟨32, 8⟩, ⟨40, 8⟩, ⟨48, 8⟩, ⟨64, 8⟩, ⟨96, 8⟩, ⟨8, 4⟩, ⟨120, 4⟩,
    ⟨124, 4⟩, ⟨152, 4⟩, ⟨156, 4⟩, ⟨12, 4⟩, ⟨56, 4⟩, ⟨60, 4⟩, ⟨72, 4⟩, ⟨76, 4⟩, ⟨80, 4⟩, ⟨84, 4⟩, ⟨88, 4⟩, ⟨92, 4⟩]

theorem headerFields_cells (config : SegmentConfig) (size : Nat) (doorbell : Doorbell) :
    (headerFields config size doorbell).map Store.toCell = headerCells := rfl

theorem headerFields_separate (config : SegmentConfig) (size : Nat) (doorbell : Doorbell) :
    Separate ((headerFields config size doorbell ++ [word64 hdrMagic magic]).map Store.toCell) := by
  rw [List.map_append, headerFields_cells]
  show Separate (headerCells ++ [⟨0, 8⟩])
  decide

theorem headerFields_inside (config : SegmentConfig) (size : Nat) (doorbell : Doorbell) :
    ∀ store ∈ writeOnceStores hdrMagic magic (headerFields config size doorbell),
      store.offset + store.width ≤ headerBytes := by
  apply inside_of_cells
  rw [writeOnceStores, List.map_cons, List.map_append, headerFields_cells]
  show ∀ cell ∈ (⟨0, 8⟩ :: (headerCells ++ [⟨0, 8⟩]) : List Cell), cell.offset + cell.width ≤ headerBytes
  decide

theorem trailerFields_inside (size : Nat) :
    ∀ store ∈ writeOnceStores trlMagic trailerMagic [word64 trlRegionSize size],
      store.offset + store.width ≤ trailerBytes := by
  apply inside_of_cells
  show ∀ cell ∈ ([⟨8, 8⟩, ⟨0, 8⟩, ⟨8, 8⟩] : List Cell), cell.offset + cell.width ≤ trailerBytes
  decide

theorem formatRecord_ok {region : SegmentRegion} {record : Record} {gate value : Nat} {fields : List Store}
    (h : load (region.bytesAt record) gate 8 = 0) :
    formatRecord record gate value fields region =
      .ok () { region with toRegion := region.store record (writeOnceStores gate value fields) } := by
  simp only [formatRecord, publishWriteOnce, h, if_true]

/-- The region a creation leaves: the trailer, then the header. -/
def formatted (config : SegmentConfig) (doorbell : Doorbell) (region : Region) : Region :=
  (region.store (config.layout.span .trailer)
    (writeOnceStores trlMagic trailerMagic [word64 trlRegionSize config.layout.regionSize])).store
      (config.layout.span .header)
      (writeOnceStores hdrMagic magic (headerFields config config.layout.regionSize doorbell))

theorem formatted_same {config : SegmentConfig} {doorbell : Doorbell} {region : Region} {name : RecordName}
    (hname : config.layout.Has name) (hheader : .header ≠ name) (htrailer : .trailer ≠ name) :
    region.SameAt (formatted config doorbell region) (config.layout.span name) := by
  have hfirst : (config.layout.span .trailer).Apart (config.layout.span name) :=
    SegmentLayout.span_apart trivial hname htrailer
  have hsecond : (config.layout.span .header).Apart (config.layout.span name) :=
    SegmentLayout.span_apart trivial hname hheader
  exact (Region.SameAt.store region (trailerFields_inside _) hfirst).trans
    (.store _ (headerFields_inside config config.layout.regionSize doorbell) hsecond)

theorem formatted_holds (config : SegmentConfig) (doorbell : Doorbell) (region : Region) :
    Holds ((formatted config doorbell region).bytesAt (config.layout.span .header))
        (headerFields config config.layout.regionSize doorbell ++ [word64 hdrMagic magic]) ∧
      Holds ((formatted config doorbell region).bytesAt (config.layout.span .trailer))
        [word64 trlRegionSize config.layout.regionSize, word64 trlMagic trailerMagic] := by
  have hapart : (config.layout.span .header).Apart (config.layout.span .trailer) :=
    SegmentLayout.span_apart trivial trivial nofun
  constructor
  · rw [formatted, Region.bytesAt_store]
    exact writeOnce_holds _ (headerFields_separate ..)
  · have hsame := Region.SameAt.store (region.store (config.layout.span .trailer)
      (writeOnceStores trlMagic trailerMagic [word64 trlRegionSize config.layout.regionSize]))
      (headerFields_inside config config.layout.regionSize doorbell) hapart
    refine hsame.holds (fun store hstore => trailerFields_inside _ store (.tail _ hstore)) ?_
    rw [Region.bytesAt_store]
    exact writeOnce_holds _ (show Separate [⟨0, 8⟩, ⟨8, 8⟩] by decide)

/-- `create` formats a zeroed region of its layout's size, and the segment validates as what was asked for. -/
theorem create_zeroed (config : SegmentConfig) (region : SegmentRegion) {doorbell : Doorbell}
    (hlayout : config.layout.Valid) (haligned : config.layout.regionSize % regionAlignment = 0)
    (hid : config.daemonInstanceId ≤ u128Max) (hgeneration : config.segmentGeneration ≤ u64Max)
    (hwritable : region.writable = true) (hregion : region.toRegion = ⟨config.layout.regionSize, fun _ => 0⟩)
    (hdoorbell : chooseDoorbell region.backing config.doorbell = .ok doorbell) :
    validate (formatted config doorbell region.toRegion) =
        .ok ⟨config.daemonInstanceId, config.segmentGeneration, config.layout⟩ ∧
      SegmentWriter.create config region = .ok
        { region := formatted config doorbell region.toRegion
          layout := config.layout
          binding := ⟨region.attachment, config.daemonInstanceId, config.segmentGeneration⟩
          installed := []
          doorbell
          dirtyPosition := 0 } { region with toRegion := formatted config doorbell region.toRegion } := by
  have hsize : region.size = config.layout.regionSize := congrArg Region.size hregion
  obtain ⟨hheader, htrailer⟩ := formatted_holds config doorbell region.toRegion
  have hvalid : validate (formatted config doorbell region.toRegion) =
      .ok ⟨config.daemonInstanceId, config.segmentGeneration, config.layout⟩ := by
    have hformatted : (formatted config doorbell region.toRegion).size = config.layout.regionSize := hsize
    rw [← hformatted] at hheader htrailer
    exact validate_formatted hlayout hformatted (hformatted ▸ haligned) hid hgeneration hheader htrailer
  refine ⟨hvalid, ?_⟩
  have hzero : ∀ record gate, load (region.bytesAt record) gate 8 = 0 := by
    intro record gate
    rw [Region.bytesAt, load_view, hregion, load_zeros]
  -- The trailer's stores do not reach the header's gate.
  have hgate := (Region.SameAt.store region.toRegion (trailerFields_inside config.layout.regionSize)
    (SegmentLayout.span_apart (show config.layout.Has .trailer from trivial) (show config.layout.Has .header from trivial)
      nofun)).load (show hdrMagic + 8 ≤ headerBytes by decide)
  rw [hzero] at hgate
  unfold SegmentWriter.create
  refine check_bind_eq_ok.2 ⟨(), if_pos hwritable, ?_⟩
  refine check_bind_eq_ok.2 ⟨config.layout.regionSize, by rw [hsize, if_neg (not_not.2 rfl)], ?_⟩
  refine check_bind_eq_ok.2 ⟨_, reach_eq_ok.2 (trailerRecord_eq hsize), ?_⟩
  refine check_bind_eq_ok.2 ⟨_, reach_eq_ok.2 (headerRecord_eq hsize), ?_⟩
  refine Transactions.bind_eq_ok.2 ⟨(), _, formatRecord_ok (hzero _ _), ?_⟩
  refine check_bind_eq_ok.2 ⟨doorbell, hdoorbell, ?_⟩
  refine Transactions.bind_eq_ok.2 ⟨(), _, formatRecord_ok hgate, ?_⟩
  refine check_eq_ok.2 ⟨?_, rfl⟩
  change ((validate (formatted config doorbell region.toRegion)).mapError _ >>= _) = _
  rw [hvalid]
  rfl

/-- Only the dirty ring's entries are smaller than a block. -/
theorem regionSize_mod (layout : SegmentLayout) :
    layout.regionSize % regionAlignment = layout.dirtyCapacity * dirtySlotBytes % regionAlignment := by
  simp only [SegmentLayout.regionSize, SegmentLayout.trailerOffset, SegmentLayout.dirtyRingBytes,
    SegmentLayout.dirtyOffset, SegmentLayout.eventRingBytes, SegmentLayout.eventOffset, SegmentLayout.stateSlotStride,
    roundUp, SegmentLayout.stateSlotOffset, SegmentLayout.directoryOffset, headerBytes, directoryEntryBytes,
    eventSlotBytes, dirtySlotBytes, trailerBytes, regionAlignment, ← Nat.mul_assoc]
  omega

theorem power_blocks {capacity : Nat} (h : isPowerOfTwo capacity = true) :
    capacity * dirtySlotBytes % regionAlignment = 0 ↔ 4 ≤ capacity := by
  have hpower : 2 ^ capacity.log2 = capacity := of_decide_eq_true h
  unfold dirtySlotBytes regionAlignment
  match hlog : capacity.log2 with
  | 0 | 1 =>
    rw [hlog] at hpower
    omega
  | k + 2 =>
    rw [hlog, Nat.pow_succ, Nat.pow_succ] at hpower
    have := Nat.one_le_two_pow (n := k)
    omega

theorem checkSize_aligned {layout : SegmentLayout} (h : layout.Valid)
    (haligned : layout.regionSize % regionAlignment = 0) : checkSize layout.regionSize = .ok () := by
  have hpos : layout.regionSize ≠ 0 := by
    unfold SegmentLayout.regionSize trailerBytes regionAlignment
    omega
  rw [checkSize, if_neg hpos, if_neg (not_not.2 haligned), if_neg (Nat.not_lt.2 h.bounds.size_le)]

/-- Every accepted layout's region is a whole number of blocks, can be allocated and formatted, and validates as itself,
if its dirty ring has four entries or more. A smaller ring leaves the region's end off the block boundary. -/
theorem accepted_layout_formats_iff {directoryCapacity stateSlotCapacity levelCapacity eventCapacity dirtyCapacity : Nat}
    {layout : SegmentLayout}
    (h : SegmentLayout.new directoryCapacity stateSlotCapacity levelCapacity eventCapacity dirtyCapacity = .ok layout) :
    (layout.regionSize % regionAlignment = 0 ∧ layout.regionSize ≤ maxRegionBytes ∧
      checkSize layout.regionSize = .ok () ∧
      ∀ attachment daemonInstanceId segmentGeneration, daemonInstanceId ≤ u128Max → segmentGeneration ≤ u64Max →
        ∃ region writer after, SegmentRegion.zeroed layout.regionSize attachment = .ok region ∧
          SegmentWriter.create (.new layout daemonInstanceId segmentGeneration) region = .ok writer after ∧
          validate after.toRegion = .ok ⟨daemonInstanceId, segmentGeneration, layout⟩) ↔ 4 ≤ dirtyCapacity := by
  obtain ⟨hcapacities, hvalid⟩ := SegmentLayout.new_ok h
  have hcapacity : layout.dirtyCapacity = dirtyCapacity := by rw [hcapacities]
  have hblocks : layout.regionSize % regionAlignment = 0 ↔ 4 ≤ dirtyCapacity := by
    rw [regionSize_mod, ← hcapacity]
    exact power_blocks hvalid.bounds.dirty_power
  refine ⟨fun hformats => hblocks.1 hformats.1, fun hdirty => ?_⟩
  have haligned := hblocks.2 hdirty
  have hcheck := checkSize_aligned hvalid haligned
  refine ⟨haligned, hvalid.bounds.size_le, hcheck, ?_⟩
  intro attachment daemonInstanceId segmentGeneration hid hgeneration
  obtain ⟨hvalidates, hcreates⟩ := create_zeroed (.new layout daemonInstanceId segmentGeneration)
    ⟨⟨layout.regionSize, fun _ => 0⟩, true, attachment, .heap⟩ hvalid haligned hid hgeneration rfl rfl rfl
  exact ⟨_, _, _, by rw [SegmentRegion.zeroed, hcheck]; rfl, hcreates, hvalidates⟩

/-- One entry in the dirty ring: the layout is accepted and no region can be allocated for it. -/
theorem one_dirty_entry_unformattable :
    SegmentLayout.new 1 1 1 1 1 = .ok ⟨1, 1, 1, 1, 1⟩ ∧
      checkSize (SegmentLayout.mk 1 1 1 1 1).regionSize = .error .sizeNotBlockAligned := by
  constructor <;> rfl

/-- Four entries, in the smallest segment otherwise. -/
theorem four_dirty_entries_format :
    SegmentLayout.new 1 1 1 1 4 = .ok ⟨1, 1, 1, 1, 4⟩ ∧ checkSize (SegmentLayout.mk 1 1 1 1 4).regionSize = .ok () :=
  have h : SegmentLayout.new 1 1 1 1 4 = .ok ⟨1, 1, 1, 1, 4⟩ := rfl
  ⟨h, ((accepted_layout_formats_iff h).2 (by decide)).2.2.1⟩

end PmWs.Abi
