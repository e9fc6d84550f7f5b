import Mathlib.Algebra.Group.Even
import PmWs.Shm.Format

/-!
# A segment between two calls

Whatever its slots' data words hold, a segment between two calls keeps its
directory and an even counter in every slot. A freshly formatted segment does,
and installing a market or publishing into a slot keeps it so.
-/


open MachineInt Memory Fallible Transactions

namespace PmWs.Abi

open Codec

/-- The records that carry an even-odd counter, at their first word. -/
def counted : RecordName → Bool
  | .stateSlot _ | .eventSlot _ _ | .dirtySlot _ => true
  | .header | .directory _ | .trailer => false

/-- A published directory entry that names a market and its slot. -/
structure EntryNames (entry : Bytes) (index : Nat) (market : MarketRef) : Prop where
  published : load entry entRevision 8 = 1
  slot : load entry entSlotIndex 4 = index
  identity : ∃ bytes, encodeIdentity market identityCapacity = some bytes ∧
    load entry entIdentityLen 4 = bytes.length ∧ read entry entIdentity bytes.length = bytes

/-- What an entry says, in every region that agrees on it. -/
theorem EntryNames.same {region other : Region} {layout : SegmentLayout} {index : Nat} {market : MarketRef}
    (h : EntryNames (region.bytesAt (layout.span (.directory index))) index market)
    (hsame : region.SameAt other (layout.span (.directory index))) :
    EntryNames (other.bytesAt (layout.span (.directory index))) index market := by
  obtain ⟨bytes, hbytes, hlength, hread⟩ := h.identity
  have hfit := (decodeIdentity_encode hbytes).2
  have hsize : (layout.span (.directory index)).size = 512 := rfl
  unfold identityCapacity at hfit
  refine ⟨?_, ?_, bytes, hbytes, ?_, ?_⟩
  · rw [hsame.load (by rw [hsize]; decide), h.published]
  · rw [hsame.load (by rw [hsize]; decide), h.slot]
  · rw [hsame.load (by rw [hsize]; decide), hlength]
  · rw [hsame.read (by rw [hsize]; unfold entIdentity; omega), hread]

/-- A reader decodes the identity to the market. -/
theorem EntryNames.market {entry : Bytes} {index : Nat} {market : MarketRef}
    (h : EntryNames entry index market) : (identityBytes entry).bind decodeIdentity = some market := by
  obtain ⟨bytes, hbytes, hlength, hread⟩ := h.identity
  obtain ⟨hdecode, hfit⟩ := decodeIdentity_encode hbytes
  simp only [identityBytes, hlength, if_pos hfit, hread, Option.bind_some, hdecode]

namespace SegmentWriter

/-- A segment between two calls: whatever the slots' data words hold. -/
structure Sound (writer : SegmentWriter) : Prop where
  layout : writer.layout.Valid
  size : writer.region.size = writer.layout.regionSize
  directory : writer.installed.length ≤ writer.layout.directoryCapacity
  entries : ∀ i installed, writer.installed[i]? = some installed →
    EntryNames (writer.region.bytesAt (writer.layout.span (.directory i))) i installed.market
  owners : ∀ i < writer.installed.length, writer.word (writer.layout.span (.stateSlot i)) slotDirectoryIndex 4 = i
  counters : ∀ name, writer.layout.Has name → counted name = true → Even (writer.word (writer.layout.span name) 0 8)

variable {self : SegmentWriter} {name : RecordName} {stores : List Store}

theorem slotPrefix_le_stride (layout : SegmentLayout) :
    slotPrefixBytes + layout.levelCapacity * levelCellBytes ≤ layout.stateSlotStride := le_roundUp _

/-- Every record with a counter has room for it. -/
theorem counter_inside (layout : SegmentLayout) (h : counted name = true) : 0 + 8 ≤ (layout.span name).size := by
  cases name with
  | stateSlot index =>
    have := slotPrefix_le_stride layout
    unfold slotPrefixBytes at this
    simp only [SegmentLayout.span]
    omega
  | eventSlot entry slot => simp [SegmentLayout.span, eventSlotBytes]
  | dirtySlot slot => simp [SegmentLayout.span, dirtySlotBytes]
  | _ => cases h

theorem owner_inside (layout : SegmentLayout) (index : Nat) :
    slotDirectoryIndex + 4 ≤ (layout.span (.stateSlot index)).size := by
  have := slotPrefix_le_stride layout
  unfold slotPrefixBytes at this
  simp only [SegmentLayout.span, slotDirectoryIndex]
  omega

/-- Stores into one record keep a segment sound if they leave that record's own words so. -/
theorem Sound.store (h : self.Sound) (hname : self.layout.Has name)
    (hentry : ∀ i < self.installed.length, name ≠ .directory i)
    (hin : ∀ store ∈ stores, store.offset + store.width ≤ (self.layout.span name).size)
    (hcounter : counted name = true → Even (load (storeAll (self.region.bytesAt (self.layout.span name)) stores) 0 8))
    (howner : ∀ i < self.installed.length, name = .stateSlot i →
      load (storeAll (self.region.bytesAt (self.layout.span name)) stores) slotDirectoryIndex 4 = i) :
    (self.store (self.layout.span name) stores).Sound := by
  have hsame : ∀ other, self.layout.Has other → name ≠ other →
      self.region.SameAt (self.region.store (self.layout.span name) stores) (self.layout.span other) :=
    fun other hother hne => .store _ hin (SegmentLayout.span_apart hname hother hne)
  have hbytes := self.region.bytesAt_store (self.layout.span name) stores
  refine ⟨h.layout, h.size, h.directory, ?_, ?_, ?_⟩
  · intro i installed hi
    have hlt : i < self.installed.length := (List.getElem?_eq_some_iff.1 hi).1
    exact (h.entries i installed hi).same (hsame (.directory i) (Nat.lt_of_lt_of_le hlt h.directory) (hentry i hlt))
  · intro i hi
    by_cases hne : name = .stateSlot i
    · have := howner i hi hne
      subst hne
      simpa only [word, SegmentWriter.store, hbytes] using this
    · have hslot : i < self.layout.stateSlotCapacity :=
        Nat.lt_of_lt_of_le hi (h.directory.trans h.layout.bounds.slots)
      have := h.owners i hi
      rwa [word, ← (hsame (.stateSlot i) hslot hne).load (owner_inside _ i)] at this
  · intro other hother hcounted
    by_cases hne : name = other
    · subst hne
      simpa only [word, SegmentWriter.store, hbytes] using hcounter hcounted
    · have := h.counters other hother hcounted
      rwa [word, ← (hsame other hother hne).load (counter_inside _ hcounted)] at this

/-- Soundness is about the region, the layout and which markets are installed. -/
theorem Sound.frame {other : SegmentWriter} (h : self.Sound) (hregion : other.region = self.region)
    (hlayout : other.layout = self.layout)
    (hmarkets : other.installed.map InstalledMarket.market = self.installed.map InstalledMarket.market) :
    other.Sound := by
  have hlength : other.installed.length = self.installed.length := by
    simpa using congrArg List.length hmarkets
  refine ⟨hlayout ▸ h.layout, by rw [hregion, hlayout, h.size], by rw [hlength, hlayout]; exact h.directory, ?_, ?_, ?_⟩
  · intro i installed hi
    have hmarket := congrArg (·[i]?) hmarkets
    simp only [List.getElem?_map, hi, Option.map_some] at hmarket
    obtain ⟨before, hbefore, hsame⟩ := Option.map_eq_some_iff.1 hmarket.symm
    rw [hregion, hlayout, ← hsame]
    exact h.entries i before hbefore
  · intro i hi
    simpa only [word, hregion, hlayout] using h.owners i (hlength ▸ hi)
  · intro name hname hcounted
    rw [hlayout] at hname
    simpa only [word, hregion, hlayout] using h.counters name hname hcounted

/-! ## One slot -/

/-- What a publication stores into its slot: the odd counter, the data words, the next even counter. -/
def slotStores (inFlight nextStable : Nat) (data : List Store) : List Store :=
  word64 0 inFlight :: (data ++ [word64 0 nextStable])

theorem store_slot (self : SegmentWriter) (slot : Record) (inFlight nextStable : Nat) (data : List Store) :
    ((self.store slot [word64 0 inFlight]).store slot data).store slot [word64 0 nextStable] =
      self.store slot (slotStores inFlight nextStable data) := by
  simp only [store, Region.store_store, slotStores, List.cons_append, List.nil_append]

/-- A data list that keeps to its slot, leaves the counter and, in a state slot, the directory index alone. -/
structure SlotData (layout : SegmentLayout) (name : RecordName) (data : List Store) : Prop where
  has : layout.Has name
  counted : counted name = true
  separate : ∀ stable, Separate ((data ++ [word64 0 stable]).map Store.toCell)
  inside : ∀ store ∈ data, store.offset + store.width ≤ (layout.span name).size
  spares : ∀ i, name = .stateSlot i → ∀ store ∈ data, store.Apart slotDirectoryIndex 4

variable {inFlight nextStable : Nat} {data : List Store}

theorem SlotData.stores_inside (h : SlotData self.layout name data) :
    ∀ store ∈ slotStores inFlight nextStable data, store.offset + store.width ≤ (self.layout.span name).size := by
  have hcounter := counter_inside self.layout h.counted
  intro store hstore
  simp only [slotStores, List.mem_cons, List.mem_append, List.not_mem_nil, or_false] at hstore
  rcases hstore with rfl | hdata | rfl
  · exact hcounter
  · exact h.inside store hdata
  · exact hcounter

/-- After the stores the slot holds the data and the closing counter. -/
theorem SlotData.holds (h : SlotData self.layout name data) (mem : Bytes) :
    Holds (storeAll mem (slotStores inFlight nextStable data)) (data ++ [word64 0 nextStable]) :=
  holds_storeAll (h.separate nextStable) _

theorem SlotData.counter (h : SlotData self.layout name data) (hstable : nextStable ≤ u64Max) (mem : Bytes) :
    load (storeAll mem (slotStores inFlight nextStable data)) 0 8 = nextStable := by
  have hholds : Holds (storeAll mem (slotStores inFlight nextStable data)) (data ++ [word64 0 nextStable]) := h.holds mem
  have hlast := (holds_append.1 hholds).2 _ (.head _)
  simpa only [word64, mod_u64 hstable] using hlast

theorem Sound.slot (h : self.Sound) (hdata : SlotData self.layout name data) (hstable : nextStable ≤ u64Max)
    (heven : Even nextStable) : (self.store (self.layout.span name) (slotStores inFlight nextStable data)).Sound := by
  have hcounted := hdata.counted
  refine h.store hdata.has ?_ hdata.stores_inside ?_ ?_
  · rintro i - rfl
    cases hcounted
  · intro _
    rw [hdata.counter hstable]
    exact heven
  · rintro i hi rfl
    rw [load_storeAll]
    · exact h.owners i hi
    · intro store hstore
      simp only [slotStores, List.mem_cons, List.mem_append, List.not_mem_nil, or_false] at hstore
      rcases hstore with rfl | hin | rfl
      · exact .inl (show 0 + 8 ≤ 80 by decide)
      · exact hdata.spares i rfl store hin
      · exact .inl (show 0 + 8 ≤ 80 by decide)

/-! ## The header -/

theorem Sound.header (h : self.Sound) (hin : ∀ store ∈ stores, store.offset + store.width ≤ headerBytes) :
    (self.store (self.layout.span .header) stores).Sound :=
  h.store trivial (fun _ _ => nofun) hin nofun nofun

theorem ringDoorbell_region (header : Record) (self : SegmentWriter) :
    ∃ bumped, (self.ringDoorbell header).region = self.region.store header [word32 hdrDoorbell bumped] := by
  refine ⟨(self.word header hdrDoorbell 4 + 1) % 2 ^ 32, ?_⟩
  unfold ringDoorbell
  cases self.doorbell <;> rfl

@[simp] theorem ringDoorbell_layout (header : Record) (self : SegmentWriter) :
    (self.ringDoorbell header).layout = self.layout := by
  unfold ringDoorbell
  cases self.doorbell <;> rfl

@[simp] theorem ringDoorbell_installed (header : Record) (self : SegmentWriter) :
    (self.ringDoorbell header).installed = self.installed := by
  unfold ringDoorbell
  cases self.doorbell <;> rfl

@[simp] theorem ringDoorbell_binding (header : Record) (self : SegmentWriter) :
    (self.ringDoorbell header).binding = self.binding := by
  unfold ringDoorbell
  cases self.doorbell <;> rfl

/-- The last two stores of a publication: the doorbell and the generation. -/
def announce (nextGeneration : Nat) (self : SegmentWriter) : SegmentWriter :=
  (self.ringDoorbell (self.layout.span .header)).store (self.layout.span .header)
    [word64 hdrPublicationGeneration nextGeneration]

theorem announce_region (nextGeneration : Nat) (self : SegmentWriter) :
    ∃ bumped, (self.announce nextGeneration).region = self.region.store (self.layout.span .header)
      [word32 hdrDoorbell bumped, word64 hdrPublicationGeneration nextGeneration] := by
  obtain ⟨bumped, h⟩ := ringDoorbell_region (self.layout.span .header) self
  exact ⟨bumped, by simp only [announce, store, h, Region.store_store, List.cons_append, List.nil_append]⟩

@[simp] theorem announce_layout (nextGeneration : Nat) (self : SegmentWriter) :
    (self.announce nextGeneration).layout = self.layout := by
  simp [announce]

@[simp] theorem announce_installed (nextGeneration : Nat) (self : SegmentWriter) :
    (self.announce nextGeneration).installed = self.installed := by
  simp [announce]

@[simp] theorem announce_binding (nextGeneration : Nat) (self : SegmentWriter) :
    (self.announce nextGeneration).binding = self.binding := by
  simp [announce]

theorem headerStores_inside (bumped nextGeneration : Nat) :
    ∀ store ∈ [word32 hdrDoorbell bumped, word64 hdrPublicationGeneration nextGeneration],
      store.offset + store.width ≤ headerBytes := by
  apply inside_of_cells
  show ∀ cell ∈ ([⟨136, 4⟩, ⟨128, 8⟩] : List Cell), cell.offset + cell.width ≤ headerBytes
  decide

theorem Sound.announce (h : self.Sound) (nextGeneration : Nat) : (self.announce nextGeneration).Sound := by
  obtain ⟨bumped, hregion⟩ := announce_region nextGeneration self
  have hsound := h.header (headerStores_inside bumped nextGeneration)
  exact hsound.frame hregion (by simp) (by simp)

/-- Announcing a publication touches no other record. -/
theorem announce_same (nextGeneration : Nat) (hname : self.layout.Has name) (hne : .header ≠ name) :
    self.region.SameAt (self.announce nextGeneration).region (self.layout.span name) := by
  obtain ⟨bumped, hregion⟩ := announce_region nextGeneration self
  rw [hregion]
  exact .store _ (headerStores_inside bumped nextGeneration) (SegmentLayout.span_apart trivial hname hne)

theorem announce_generation {nextGeneration : Nat} (hsize : self.region.size = self.layout.regionSize)
    (hmax : nextGeneration ≤ u64Max) : (self.announce nextGeneration).publicationGeneration = nextGeneration := by
  obtain ⟨bumped, hregion⟩ := announce_region nextGeneration self
  have hheader : headerRecord (self.announce nextGeneration).region = .ok (self.layout.span .header) :=
    headerRecord_eq (by rw [hregion]; exact hsize)
  have hholds : Holds ((self.announce nextGeneration).region.bytesAt (self.layout.span .header))
      [word32 hdrDoorbell bumped, word64 hdrPublicationGeneration nextGeneration] := by
    rw [hregion, Region.bytesAt_store]
    have hcells : Separate ([word32 hdrDoorbell bumped, word64 hdrPublicationGeneration nextGeneration].map
        Store.toCell) := show Separate [⟨136, 4⟩, ⟨128, 8⟩] by decide
    exact holds_storeAll hcells _
  have hlast := hholds _ (.tail _ (.head _))
  simp only [publicationGeneration, hheader, word]
  simpa only [word64, mod_u64 hmax] using hlast

/-! ## A new segment -/

/-- A segment as `create` leaves it. -/
def created (config : SegmentConfig) (attachment : Nat) (doorbell : Doorbell) : SegmentWriter where
  region := formatted config doorbell ⟨config.layout.regionSize, fun _ => 0⟩
  layout := config.layout
  binding := ⟨attachment, config.daemonInstanceId, config.segmentGeneration⟩
  installed := []
  doorbell := doorbell
  dirtyPosition := 0

theorem created_zero {config : SegmentConfig} {attachment offset width : Nat} {doorbell : Doorbell}
    (hname : config.layout.Has name) (hheader : .header ≠ name) (htrailer : .trailer ≠ name)
    (hin : offset + width ≤ (config.layout.span name).size) :
    (created config attachment doorbell).word (config.layout.span name) offset width = 0 := by
  have hsame : Region.SameAt ⟨config.layout.regionSize, fun _ => 0⟩ (formatted config doorbell _) _ :=
    formatted_same hname hheader htrailer
  rw [word, created, hsame.load hin, Region.bytesAt, load_view, load_zeros]

theorem created_sound {config : SegmentConfig} (hlayout : config.layout.Valid) (attachment : Nat)
    (doorbell : Doorbell) : (created config attachment doorbell).Sound where
  layout := hlayout
  size := rfl
  directory := Nat.zero_le _
  entries := nofun
  owners := nofun
  counters name hname hcounted := by
    have hheader : .header ≠ name := by rintro rfl; cases hcounted
    have htrailer : .trailer ≠ name := by rintro rfl; cases hcounted
    change Even ((created config attachment doorbell).word (config.layout.span name) 0 8)
    rw [created_zero hname hheader htrailer (counter_inside _ hcounted)]
    exact Even.zero

/-! ## Installing a market -/

/-- A segment whose next slot names its directory entry. -/
def owned (self : SegmentWriter) : SegmentWriter :=
  self.store (self.layout.span (.stateSlot self.installed.length)) [word32 slotDirectoryIndex self.installed.length]

/-- A segment with one more entry in its directory. -/
def entered (self : SegmentWriter) (identity : List UInt8) : SegmentWriter :=
  self.store (self.layout.span (.directory self.installed.length))
    (writeOnceStores entRevision 1 (entryFields self.installed.length identity.length identity))

/-- A segment with one more market. -/
def withMarket (self : SegmentWriter) (market : MarketRef) (identity : List UInt8) : SegmentWriter :=
  { self.owned.entered identity with installed := self.installed ++ [⟨market, 0, 0⟩] }

theorem Sound.owned (h : self.Sound) (hroom : self.installed.length < self.layout.directoryCapacity) :
    self.owned.Sound := by
  have hslot : self.installed.length < self.layout.stateSlotCapacity := Nat.lt_of_lt_of_le hroom h.layout.bounds.slots
  refine h.store hslot (fun _ _ => nofun) ?_ ?_ ?_
  · intro store hstore
    rw [List.mem_singleton.1 hstore]
    exact owner_inside self.layout self.installed.length
  · intro hcounted
    rw [load_storeAll]
    · exact h.counters _ hslot hcounted
    · intro store hstore
      rw [List.mem_singleton.1 hstore]
      exact .inr (show 0 + 8 ≤ 80 by decide)
  · intro i hi hname
    cases hname
    exact absurd hi (Nat.lt_irrefl _)

theorem owned_owner (self : SegmentWriter) (hmax : self.installed.length ≤ u32Max) :
    self.owned.word (self.layout.span (.stateSlot self.installed.length)) slotDirectoryIndex 4 =
      self.installed.length := by
  have hholds : Holds (self.owned.region.bytesAt (self.layout.span (.stateSlot self.installed.length)))
      [word32 slotDirectoryIndex self.installed.length] := by
    rw [SegmentWriter.owned, store_region, Region.bytesAt_store]
    have hcell : Separate ([word32 slotDirectoryIndex self.installed.length].map Store.toCell) :=
      show Separate [⟨80, 4⟩] by decide
    exact holds_storeAll hcell _
  have howner := hholds _ (.head _)
  simpa only [word, word32, mod_u32 hmax] using howner

section Entry
variable {identity : List UInt8}

/-- The cells of an entry, the gate last. -/
theorem entry_separate (index length : Nat) (identity : List UInt8) :
    Separate ((entryFields index length identity ++ [word64 entRevision 1]).map Store.toCell) := by
  show Separate [⟨8, 4⟩, ⟨12, 4⟩, ⟨16, identity.length⟩, ⟨0, 8⟩]
  simp [Separate, Cell.Apart]

theorem entry_inside (index length : Nat) (h : identity.length ≤ identityCapacity) :
    ∀ store ∈ writeOnceStores entRevision 1 (entryFields index length identity),
      store.offset + store.width ≤ directoryEntryBytes := by
  unfold identityCapacity at h
  simp [writeOnceStores, entryFields, word32, word64, entRevision, entSlotIndex, entIdentityLen, entIdentity,
    directoryEntryBytes]
  omega

theorem Sound.entered (h : self.Sound) (hroom : self.installed.length < self.layout.directoryCapacity)
    (hidentity : identity.length ≤ identityCapacity) : (self.entered identity).Sound := by
  refine h.store hroom ?_ (entry_inside _ _ hidentity) nofun nofun
  intro i hi hname
  cases hname
  exact absurd hi (Nat.lt_irrefl _)

theorem entered_names {market : MarketRef} (hmax : self.installed.length ≤ u32Max)
    (hidentity : encodeIdentity market identityCapacity = some identity) :
    EntryNames ((self.entered identity).region.bytesAt (self.layout.span (.directory self.installed.length)))
      self.installed.length market := by
  have hfit := (decodeIdentity_encode hidentity).2
  have hlength : identity.length ≤ u32Max := hfit.trans (by decide)
  have hholds : Holds ((self.entered identity).region.bytesAt (self.layout.span (.directory self.installed.length)))
      (entryFields self.installed.length identity.length identity ++ [word64 entRevision 1]) := by
    rw [SegmentWriter.entered, store_region, Region.bytesAt_store]
    exact writeOnce_holds _ (entry_separate ..)
  have hbytes := read_of_holds hholds (List.mem_append_left _ (.tail _ (.tail _ (.head _))))
  simp only [entryFields, holds_append, holds_cons, word32, word64, mod_u32 hmax, mod_u32 hlength] at hholds
  obtain ⟨⟨hslot, hlen, -⟩, hgate, -⟩ := hholds
  exact ⟨hgate, hslot, identity, hidentity, hlen, hbytes⟩

end Entry

theorem Sound.withMarket {market : MarketRef} {identity : List UInt8} (h : self.Sound)
    (hroom : self.installed.length < self.layout.directoryCapacity)
    (hidentity : encodeIdentity market identityCapacity = some identity) : (self.withMarket market identity).Sound := by
  have hmax : self.installed.length ≤ u32Max := (Nat.le_of_lt hroom).trans (h.layout.bounds.directory_le.trans (by decide))
  have hfit := (decodeIdentity_encode hidentity).2
  have hentered := (h.owned hroom).entered hroom hfit
  have hslot : self.installed.length < self.layout.stateSlotCapacity := Nat.lt_of_lt_of_le hroom h.layout.bounds.slots
  have hinstalled : (self.withMarket market identity).installed = self.installed ++ [⟨market, 0, 0⟩] := rfl
  refine ⟨hentered.layout, hentered.size, ?_, ?_, ?_, hentered.counters⟩
  · rw [hinstalled, List.length_append]
    exact hroom
  · intro i installed hi
    rw [hinstalled, List.getElem?_append] at hi
    split at hi
    · exact hentered.entries i installed hi
    · -- The new entry is the last.
      obtain ⟨rfl, rfl⟩ : i = self.installed.length ∧ ⟨market, 0, 0⟩ = installed := by
        simp only [List.getElem?_singleton, Option.ite_none_right_eq_some, Option.some.injEq] at hi
        exact ⟨by omega, hi.2⟩
      exact entered_names hmax hidentity
  · intro i hi
    rw [hinstalled, List.length_append, List.length_singleton] at hi
    by_cases hlast : i = self.installed.length
    · subst hlast
      have hsame : self.owned.region.SameAt (self.owned.entered identity).region
          (self.layout.span (.stateSlot self.installed.length)) := by
        have hapart : (self.layout.span (.directory self.installed.length)).Apart
            (self.layout.span (.stateSlot self.installed.length)) := SegmentLayout.span_apart hroom hslot nofun
        exact .store _ (entry_inside _ _ hfit) hapart
      exact (hsame.load (owner_inside _ _)).trans (owned_owner self hmax)
    · exact hentered.owners i (show i < self.installed.length by omega)

end SegmentWriter

end PmWs.Abi
