import PmWs.Book.MutationReplay
import PmWs.Shm.Sound

/-!
# What is published is what is read

From any segment between two calls a publication that is accepted is read back
exactly, and one that is refused leaves every byte as it was.
-/

open MachineInt Memory Fallible Transactions

namespace PmWs.Abi

open Codec

/-! ## Reading a quiet record -/

theorem underSeqlock_stable {α : Type} {counter : Nat} (copy : α) (hpos : 0 < counter) (heven : Even counter)
    (attempts : Nat) (tries : SeqTries) : underSeqlock counter copy (attempts + 1) tries = .ok (some copy) := by
  have hopen : SeqCell.openRead counter = .stable counter := by
    rw [SeqCell.openRead, if_neg (by omega), if_neg (by have := Nat.even_iff.1 heven; omega)]
  simp [underSeqlock, hopen, SeqCell.closeRead]

namespace SegmentWriter

variable {self : SegmentWriter} {name : RecordName} {data stores : List Store} {handle : MarketHandle}
  {book : PublishedBook} {installed : InstalledMarket}

/-! ## Events -/

/-- The slot of the ring that a position maps to. -/
def eventName (self : SegmentWriter) (index position : Nat) : RecordName :=
  .eventSlot index (position &&& self.layout.eventPositionMask)

/-- The counter of a slot. -/
def counterOf (self : SegmentWriter) (name : RecordName) : Nat := self.word (self.layout.span name) 0 8

/-- A completed publication into one slot: its counter goes through the odd value to the next even one. -/
def published (self : SegmentWriter) (name : RecordName) (data : List Store) : SegmentWriter :=
  self.store (self.layout.span name) (slotStores (self.counterOf name + 1) (self.counterOf name + 2) data)

@[simp] theorem published_layout (self : SegmentWriter) (name : RecordName) (data : List Store) :
    (self.published name data).layout = self.layout := rfl

@[simp] theorem published_installed (self : SegmentWriter) (name : RecordName) (data : List Store) :
    (self.published name data).installed = self.installed := rfl

@[simp] theorem published_binding (self : SegmentWriter) (name : RecordName) (data : List Store) :
    (self.published name data).binding = self.binding := rfl

theorem Sound.published (h : self.Sound) (hdata : SlotData self.layout name data)
    (hstable : self.counterOf name + 2 ≤ u64Max) : (self.published name data).Sound :=
  h.slot hdata hstable ((h.counters name hdata.has hdata.counted).add (by decide))

theorem published_holds (hdata : SlotData self.layout name data) :
    Holds ((self.published name data).region.bytesAt (self.layout.span name))
      (data ++ [word64 0 (self.counterOf name + 2)]) := by
  rw [SegmentWriter.published, store_region, Region.bytesAt_store]
  exact hdata.holds _

theorem generation_eq (h : self.Sound) :
    self.publicationGeneration = self.word (self.layout.span .header) hdrPublicationGeneration 8 := by
  simp only [publicationGeneration, headerRecord_eq h.size]

/-- What an accepted event publication does. -/
theorem publishEvent_ok {index position : Nat} {after : SegmentWriter} {u : Unit} (h : self.Sound)
    (hindex : index < self.layout.directoryCapacity) (hrun : publishEvent index position stores self = .ok u after) :
    self.counterOf (self.eventName index position) + 2 ≤ u64Max ∧ self.publicationGeneration + 1 ≤ u64Max ∧
      after = (self.published (self.eventName index position) stores).announce (self.publicationGeneration + 1) := by
  have hheader := headerRecord_eq h.size
  have hslot := eventSlotRecord_eq h.size hindex h.layout.bounds.event_pos position
  simp only [publishEvent, check_bind_eq_ok, reach_eq_ok, hheader, hslot, Except.ok.injEq, exists_eq_left',
    nextCount_eq_ok, update_eq_ok] at hrun
  obtain ⟨_, ⟨hmax, rfl⟩, _, ⟨-, rfl⟩, _, ⟨hstable, rfl⟩, rfl⟩ := hrun
  refine ⟨hstable, (generation_eq h).symm ▸ hmax, ?_⟩
  rw [generation_eq h, SegmentWriter.published, ← store_slot]
  rfl

/-- What an issued handle is. -/
theorem admits_ok {market : MarketRef} {u : Unit} (h : self.admits handle market = .ok u) :
    handle.segment = self.binding ∧ handle.stateSlotIndex = handle.entryIndex ∧
      ∃ installed, self.installed[handle.entryIndex]? = some installed ∧ installed.market = market := by
  unfold admits at h
  split at h
  · cases h
  · rename_i hbound
    split at h
    · cases h
    · rename_i installed hinstalled
      split at h
      · rename_i hmarket
        exact ⟨by_contra fun hne => hbound (.inl hne), by_contra fun hne => hbound (.inr hne), installed, hinstalled, hmarket⟩
      · cases h

theorem Sound.index_lt (h : self.Sound) {index : Nat}
    (hinstalled : self.installed[index]? = some installed) : index < self.layout.directoryCapacity :=
  Nat.lt_of_lt_of_le (List.getElem?_eq_some_iff.1 hinstalled).1 h.directory

/-- There are as many state slots as directory entries. -/
theorem Sound.slot_lt (h : self.Sound) {index : Nat}
    (hinstalled : self.installed[index]? = some installed) : index < self.layout.stateSlotCapacity :=
  Nat.lt_of_lt_of_le (h.index_lt hinstalled) h.layout.bounds.slots

theorem Sound.index_le (h : self.Sound) {index : Nat} (hindex : index < self.layout.directoryCapacity) :
    index ≤ u32Max := by
  have := h.layout.bounds.directory_le
  unfold maxDirectoryCapacity at this
  unfold u32Max
  omega

theorem eventData {cells : List Cell} {index position : Nat} (hindex : index < self.layout.directoryCapacity)
    (hpos : 0 < self.layout.eventCapacity) (hcells : data.map Store.toCell = cells)
    (hseparate : Separate (cells ++ [⟨evtSequence, 8⟩]))
    (hinside : ∀ cell ∈ cells, cell.offset + cell.width ≤ eventSlotBytes) :
    SlotData self.layout (self.eventName index position) data where
  has := self.layout.has_eventSlot hindex hpos position
  counted := rfl
  separate stable := by
    rw [List.map_append, hcells]
    exact hseparate
  inside := inside_of_cells (hcells ▸ hinside)
  spares _ h := by cases h

/-- A slot as it was closed, in every region that agrees on it: its data words, and a counter a reader accepts. -/
theorem closed_slot {region : Region} (h : self.Sound) (hdata : SlotData self.layout name data)
    (hstable : self.counterOf name + 2 ≤ u64Max)
    (hsame : (self.published name data).region.SameAt region (self.layout.span name)) :
    Holds (region.bytesAt (self.layout.span name)) data ∧ ∀ {α : Type} (copy : α),
      underSeqlock (load (region.bytesAt (self.layout.span name)) 0 8) copy maxReadAttempts .first = .ok (some copy) := by
  have hinside : ∀ store ∈ data ++ [word64 0 (self.counterOf name + 2)],
      store.offset + store.width ≤ (self.layout.span name).size := by
    intro store hstore
    exact hdata.stores_inside store (.tail (word64 0 (self.counterOf name + 1)) hstore)
  have hholds := hsame.holds hinside (published_holds hdata)
  obtain ⟨hwords, hlast⟩ := holds_append.1 hholds
  have hcounter : load (region.bytesAt (self.layout.span name)) 0 8 = self.counterOf name + 2 := by
    have := hlast _ (.head _)
    simpa only [word64, mod_u64 hstable] using this
  refine ⟨hwords, ?_⟩
  intro α copy
  rw [hcounter]
  have heven := (h.counters name hdata.has hdata.counted).add (show Even 2 by decide)
  exact underSeqlock_stable copy (by omega) heven 63 _

/-- A reader of an event slot sees the publication the slot was last closed with. -/
theorem eventWords_published {cursor : MutationCursor} (h : self.Sound)
    (hsegment : handle.segment = self.binding) (hindex : handle.entryIndex < self.layout.directoryCapacity)
    (hname : name = self.eventName handle.entryIndex cursor.position) (hdata : SlotData self.layout name data)
    (hstable : self.counterOf name + 2 ≤ u64Max) (generation : Nat) :
    ∃ slot, Holds slot data ∧
      ((self.published name data).announce generation).reader.eventWords handle cursor =
        .ok (some (readEventWords slot)) := by
  have hsound := (h.published hdata hstable).announce generation
  have hsame : (self.published name data).region.SameAt ((self.published name data).announce generation).region
      (self.layout.span name) := announce_same generation hdata.has (by rw [hname]; nofun)
  generalize hafter : (self.published name data).announce generation = after at *
  have hlayout : after.layout = self.layout := by rw [← hafter]; simp
  have hbinding : after.binding = self.binding := by rw [← hafter]; simp
  obtain ⟨hwords, hread⟩ := closed_slot h hdata hstable hsame
  have hsize : after.region.size = self.layout.regionSize := by rw [hsound.size, hlayout]
  have hslot := eventSlotRecord_eq hsize hindex h.layout.bounds.event_pos cursor.position
  refine ⟨_, hwords, ?_⟩
  rw [SegmentReader.eventWords, if_neg (by simp [SegmentWriter.reader, hsegment, hbinding])]
  simp only [SegmentWriter.reader, hlayout, hslot, mapError_ok, ok_bind]
  subst hname
  exact hread _

section Accepted
variable {now revision arrivalTime : Nat} {handle : MarketHandle} {cursor : MutationCursor} {after : SegmentWriter} {u : Unit}

/-- An accepted event publication of one kind: what was staged, where it went and what it left. -/
structure EventAccepted (writer : SegmentWriter) (handle : MarketHandle) (position : Nat) (data : List Store)
    (after : SegmentWriter) : Prop where
  segment : handle.segment = writer.binding
  index : handle.entryIndex < writer.layout.directoryCapacity
  fits : SlotData writer.layout (writer.eventName handle.entryIndex position) data
  stable : writer.counterOf (writer.eventName handle.entryIndex position) + 2 ≤ u64Max
  left : after = (writer.published (writer.eventName handle.entryIndex position) data).announce
    (writer.publicationGeneration + 1)

theorem publishMutation_ok {mutation : BookMutation} (h : self.Sound)
    (hrun : publishMutation now handle revision cursor mutation arrivalTime self = .ok u after) :
    ∃ staged, stageMutation mutation = .ok staged ∧ self.EventAccepted handle cursor.position
      (mutationStores handle.entryIndex revision cursor now arrivalTime staged) after := by
  simp only [publishMutation, check_bind_eq_ok] at hrun
  obtain ⟨_, hadmits, staged, hstaged, hrun⟩ := hrun
  obtain ⟨hsegment, -, installed, hinstalled, -⟩ := admits_ok hadmits
  have hindex := h.index_lt hinstalled
  obtain ⟨hstable, -, hafter⟩ := publishEvent_ok h hindex hrun
  have hcells := mutationStores_cells handle.entryIndex revision cursor now arrivalTime staged
  exact ⟨staged, hstaged, hsegment, hindex,
    eventData hindex h.layout.bounds.event_pos hcells mutationCells_separate mutationCells_inside, hstable, hafter⟩

theorem publishResolution_ok {resolution : MarketResolution} (h : self.Sound)
    (hrun : publishResolution now handle revision cursor resolution arrivalTime self = .ok u after) :
    ∃ staged, stageResolution resolution = .ok staged ∧ self.EventAccepted handle cursor.position
      (resolutionStores handle.entryIndex revision cursor now arrivalTime staged) after := by
  simp only [publishResolution, check_bind_eq_ok] at hrun
  obtain ⟨_, hadmits, staged, hstaged, hrun⟩ := hrun
  obtain ⟨hsegment, -, installed, hinstalled, -⟩ := admits_ok hadmits
  have hindex := h.index_lt hinstalled
  obtain ⟨hstable, -, hafter⟩ := publishEvent_ok h hindex hrun
  have hcells := resolutionStores_cells handle.entryIndex revision cursor now arrivalTime staged
  exact ⟨staged, hstaged, hsegment, hindex,
    eventData hindex h.layout.bounds.event_pos hcells resolutionCells_separate resolutionCells_inside, hstable, hafter⟩

theorem EventAccepted.read (h : self.Sound) (haccepted : self.EventAccepted handle cursor.position data after) :
    ∃ slot, Holds slot data ∧ after.reader.eventWords handle cursor = .ok (some (readEventWords slot)) := by
  rw [haccepted.left]
  exact eventWords_published h haccepted.segment haccepted.index rfl haccepted.fits haccepted.stable _

end Accepted

/-! ## States -/

/-- The slot of the dirty ring that the next state publication takes. -/
def dirtyName (self : SegmentWriter) : RecordName := .dirtySlot (self.dirtyPosition &&& self.layout.dirtyPositionMask)

def dirtyData (position index bookRevision : Nat) : List Store :=
  [word64 Abi.dirtyPosition position, word32 dirtyDirectoryIndex index, word64 dirtyBookRevision bookRevision]

theorem stateData {commitTime arrivalTime index : Nat} {staged : StagedState} {levels : List LevelWords}
    (hindex : index < self.layout.stateSlotCapacity) (hlevels : levels.length ≤ self.layout.levelCapacity) :
    SlotData self.layout (.stateSlot index) (stateStores commitTime arrivalTime staged levels) where
  has := hindex
  counted := rfl
  separate stable := stateStores_separate commitTime arrivalTime staged levels stable
  inside store hstore := by
    have hinside := stateStores_inside commitTime arrivalTime staged levels store hstore
    have hcells := Nat.mul_le_mul_right levelCellBytes hlevels
    have hstride := slotPrefix_le_stride self.layout
    show _ ≤ self.layout.stateSlotStride
    omega
  spares _ _ := stateStores_spare commitTime arrivalTime staged levels

theorem dirtyData_slot (hpos : 0 < self.layout.dirtyCapacity) (position index bookRevision : Nat) :
    SlotData self.layout self.dirtyName (dirtyData position index bookRevision) where
  has := self.layout.has_dirtySlot hpos self.dirtyPosition
  counted := rfl
  separate stable := show Separate [⟨8, 8⟩, ⟨16, 4⟩, ⟨24, 8⟩, ⟨0, 8⟩] by decide
  inside := inside_of_cells (show ∀ cell ∈ ([⟨8, 8⟩, ⟨16, 4⟩, ⟨24, 8⟩] : List Cell),
    cell.offset + cell.width ≤ dirtySlotBytes by decide)
  spares _ h := by cases h

/-- A publication into one slot touches no other record. -/
theorem published_same {other : RecordName} (hdata : SlotData self.layout name data) (hother : self.layout.Has other)
    (hne : name ≠ other) : self.region.SameAt (self.published name data).region (self.layout.span other) :=
  .store _ hdata.stores_inside (SegmentLayout.span_apart hdata.has hother hne)

theorem published_counterOf {other : RecordName} (hdata : SlotData self.layout name data)
    (hother : self.layout.Has other) (hcounted : counted other = true) (hne : name ≠ other) :
    (self.published name data).counterOf other = self.counterOf other :=
  (published_same hdata hother hne).load (counter_inside _ hcounted)

theorem stageDirty_eq_ok {staged : StagedDirty} (h : self.Sound) :
    self.stageDirty = .ok staged ↔ self.counterOf self.dirtyName + 2 ≤ u64Max ∧
      staged = ⟨self.dirtyPosition, self.counterOf self.dirtyName + 1, self.counterOf self.dirtyName + 2⟩ := by
  have hslot := dirtySlotRecord_eq h.size h.layout.bounds.dirty_pos self.dirtyPosition
  simp only [stageDirty, Fallible.bind_eq_ok, reach_eq_ok, hslot, Except.ok.injEq, exists_eq_left', nextCount_eq_ok]
  constructor
  · rintro ⟨_, ⟨-, rfl⟩, _, ⟨hmax, rfl⟩, rfl⟩
    exact ⟨hmax, rfl⟩
  · rintro ⟨hmax, rfl⟩
    exact ⟨_, ⟨Nat.le_of_succ_le hmax, rfl⟩, _, ⟨hmax, rfl⟩, rfl⟩

/-- The dirty entry is one more publication into one more slot, staged before the state slot was written. -/
theorem commitDirty_eq {before : SegmentWriter} (h : self.Sound)
    (hlayout : self.layout = before.layout)
    (hcounter : self.counterOf before.dirtyName = before.counterOf before.dirtyName) (index bookRevision : Nat) :
    self.commitDirty ⟨before.dirtyPosition, before.counterOf before.dirtyName + 1, before.counterOf before.dirtyName + 2⟩
        index bookRevision = self.published before.dirtyName (dirtyData before.dirtyPosition index bookRevision) := by
  have hslot : dirtySlotRecord self.region self.layout before.dirtyPosition = .ok (self.layout.span before.dirtyName) := by
    rw [dirtyName, ← hlayout]
    exact dirtySlotRecord_eq h.size h.layout.bounds.dirty_pos before.dirtyPosition
  simp only [commitDirty, hslot, ← hcounter]
  rfl

/-- The records a state publication leaves: the slot, then the dirty entry, then the announcement. -/
def stated (self : SegmentWriter) (index bookRevision : Nat) (data : List Store) : SegmentWriter :=
  ((self.published (.stateSlot index) data).published self.dirtyName
    (dirtyData self.dirtyPosition index bookRevision)).announce (self.publicationGeneration + 1)

/-- The writer's own fields after a state publication. -/
def stamped (self : SegmentWriter) (index commitTime arrivalTime dirtyPosition : Nat) : SegmentWriter :=
  { self with
    dirtyPosition
    installed := self.installed.modify index fun installed => { installed with commitTime, arrivalTime } }

section Commit
variable {index commitTime arrivalTime : Nat} {staged : StagedState} {levels : List LevelWords}

theorem commitState_eq (h : self.Sound) (hindex : index < self.layout.stateSlotCapacity)
    (hlevels : levels.length ≤ self.layout.levelCapacity) (hstable : self.counterOf (.stateSlot index) + 2 ≤ u64Max) :
    self.commitState (self.layout.span .header) (self.layout.span (.stateSlot index)) index
        (self.counterOf (.stateSlot index) + 1) (self.counterOf (.stateSlot index) + 2) (self.publicationGeneration + 1)
        ⟨self.dirtyPosition, self.counterOf self.dirtyName + 1, self.counterOf self.dirtyName + 2⟩
        commitTime arrivalTime staged levels =
      (self.stated index staged.bookRevision (stateStores commitTime arrivalTime staged levels)).stamped index
        commitTime arrivalTime ((self.dirtyPosition + 1) % 2 ^ 64) := by
  have hdata : SlotData self.layout (.stateSlot index) (stateStores commitTime arrivalTime staged levels) :=
    stateData hindex hlevels
  -- The dirty slot's counter was read before the state slot was written.
  have hcounter : (self.published (.stateSlot index) (stateStores commitTime arrivalTime staged levels)).counterOf
      self.dirtyName = self.counterOf self.dirtyName :=
    published_counterOf hdata (self.layout.has_dirtySlot h.layout.bounds.dirty_pos _) rfl nofun
  have hdirty := commitDirty_eq (h.published hdata hstable) (published_layout self _ _) hcounter index
    staged.bookRevision
  have hslot := store_slot self (self.layout.span (.stateSlot index)) (self.counterOf (.stateSlot index) + 1)
    (self.counterOf (.stateSlot index) + 2) (stateStores commitTime arrivalTime staged levels)
  simp only [commitState, slotRevision, hslot]
  rw [← SegmentWriter.published, hdirty]
  rfl

/-- What an accepted state publication does. -/
theorem publishStamped_ok {after : SegmentWriter} {u : Unit}
    (h : self.Sound) (hrun : publishStamped handle book commitTime arrivalTime self = .ok u after) :
    ∃ staged levels, self.admits handle book.market = .ok () ∧
      stage self.layout.levelCapacity book = .ok (staged, levels) ∧
      self.counterOf (.stateSlot handle.entryIndex) + 2 ≤ u64Max ∧ self.counterOf self.dirtyName + 2 ≤ u64Max ∧
      self.publicationGeneration + 1 ≤ u64Max ∧
      after = (self.stated handle.entryIndex staged.bookRevision
        (stateStores commitTime arrivalTime staged levels)).stamped handle.entryIndex commitTime arrivalTime
          ((self.dirtyPosition + 1) % 2 ^ 64) := by
  simp only [publishStamped, check_bind_eq_ok] at hrun
  obtain ⟨_, hadmits, ⟨staged, levels⟩, hstage, dirty, hdirty, hrun⟩ := hrun
  obtain ⟨-, -, installed, hinstalled, -⟩ := admits_ok hadmits
  have hindex := h.slot_lt hinstalled
  have hlevels := stage_length hstage
  obtain ⟨hdirtyMax, rfl⟩ := (stageDirty_eq_ok h).1 hdirty
  simp only [reach_eq_ok, headerRecord_eq h.size, stateSlotRecord_eq h.size hindex, Except.ok.injEq, exists_eq_left',
    nextCount_eq_ok, update_eq_ok, ← generation_eq h] at hrun
  obtain ⟨_, ⟨hgeneration, rfl⟩, _, ⟨-, rfl⟩, _, ⟨hstable, rfl⟩, rfl⟩ := hrun
  exact ⟨staged, levels, hadmits, hstage, hstable, hdirtyMax, hgeneration, commitState_eq h hindex hlevels hstable⟩

/-- The only reasons to refuse a book that its handle was issued for. -/
def RefusesState (writer : SegmentWriter) (handle : MarketHandle) (book : PublishedBook) : Prop :=
  writer.layout.levelCapacity < book.levels.length ∨
    (∃ p, book.provenance = some p ∧ nativeFamilyWords * 8 < p.nativeFamily.utf8ByteSize) ∨
    u64Max < writer.publicationGeneration + 1 ∨ u64Max < writer.counterOf (.stateSlot handle.entryIndex) + 2 ∨
    u64Max < writer.counterOf writer.dirtyName + 2

theorem publishStamped_accepts (h : self.Sound)
    (hadmits : self.admits handle book.market = .ok ()) (hrefuses : ¬ self.RefusesState handle book) :
    ∃ after, publishStamped handle book commitTime arrivalTime self = .ok () after := by
  simp only [RefusesState, not_or, not_exists, not_and, Nat.not_lt] at hrefuses
  obtain ⟨hdepth, hfamily, hgeneration, hstable, hdirty⟩ := hrefuses
  obtain ⟨-, -, installed, hinstalled, -⟩ := admits_ok hadmits
  have hindex := h.slot_lt hinstalled
  obtain ⟨⟨staged, levels⟩, hstage⟩ := stage_eq_ok.2 ⟨hdepth, hfamily⟩
  simp only [publishStamped, check_bind_eq_ok, reach_eq_ok, headerRecord_eq h.size, stateSlotRecord_eq h.size hindex,
    Except.ok.injEq, exists_eq_left', nextCount_eq_ok, update_eq_ok, ← generation_eq h]
  exact ⟨_, (), hadmits, (staged, levels), hstage, _, (stageDirty_eq_ok h).2 ⟨hdirty, rfl⟩, _, ⟨hgeneration, rfl⟩, _,
    ⟨Nat.le_of_succ_le hstable, rfl⟩, _, ⟨hstable, rfl⟩, rfl⟩

end Commit

/-! ### Reading the state back -/

/-- The slot an issued handle leads a reader to. -/
theorem reader_stateSlot (h : self.Sound)
    (hsegment : handle.segment = self.binding) (hslot : handle.stateSlotIndex = handle.entryIndex)
    (hinstalled : self.installed[handle.entryIndex]? = some installed) :
    self.reader.stateSlot handle = .ok (self.region.bytesAt (self.layout.span (.directory handle.entryIndex)),
      self.region.bytesAt (self.layout.span (.stateSlot handle.entryIndex))) := by
  have hindex := h.index_lt hinstalled
  have hentry := h.entries _ _ hinstalled
  have hbound := h.slot_lt hinstalled
  have hsome : handle.entryIndex ≠ noStateSlot := by
    have := h.layout.bounds.directory_le
    unfold maxDirectoryCapacity at this
    unfold noStateSlot u32Max
    omega
  rw [SegmentReader.stateSlot, if_neg (by simp [SegmentWriter.reader, hsegment])]
  simp only [SegmentWriter.reader, directoryRecord_eq h.size hindex, mapError_ok, ok_bind, hentry.published, hentry.slot]
  rw [if_neg (by decide), if_neg hsome, if_neg (by simp [hslot]), if_neg (by omega), stateSlotRecord_eq h.size hbound]
  rfl

section Stated
variable {index commitTime arrivalTime bookRevision : Nat}

theorem Sound.stated (h : self.Sound) (bookRevision : Nat) (hdata : SlotData self.layout (.stateSlot index) data)
    (hstable : self.counterOf (.stateSlot index) + 2 ≤ u64Max) (hdirty : self.counterOf self.dirtyName + 2 ≤ u64Max) :
    (self.stated index bookRevision data).Sound := by
  have hring := dirtyData_slot h.layout.bounds.dirty_pos self.dirtyPosition index bookRevision
  have hcounter := published_counterOf hdata hring.has rfl nofun
  exact ((h.published hdata hstable).published hring (hcounter.symm ▸ hdirty)).announce _

/-- The stores after the slot was closed do not reach it. -/
theorem stated_same (h : self.Sound) (hindex : index < self.layout.stateSlotCapacity) (bookRevision : Nat) :
    (self.published (.stateSlot index) data).region.SameAt (self.stated index bookRevision data).region
      (self.layout.span (.stateSlot index)) := by
  have hring := dirtyData_slot h.layout.bounds.dirty_pos self.dirtyPosition index bookRevision
  have hdirty : (self.published (.stateSlot index) data).region.SameAt
      ((self.published (.stateSlot index) data).published self.dirtyName
        (dirtyData self.dirtyPosition index bookRevision)).region (self.layout.span (.stateSlot index)) :=
    published_same hring hindex nofun
  exact hdirty.trans (announce_same _ hindex nofun)

@[simp] theorem stated_layout (self : SegmentWriter) (index bookRevision : Nat) (data : List Store) :
    (self.stated index bookRevision data).layout = self.layout := by
  simp [SegmentWriter.stated]

@[simp] theorem stated_installed (self : SegmentWriter) (index bookRevision : Nat) (data : List Store) :
    (self.stated index bookRevision data).installed = self.installed := by
  simp [SegmentWriter.stated]

@[simp] theorem stated_binding (self : SegmentWriter) (index bookRevision : Nat) (data : List Store) :
    (self.stated index bookRevision data).binding = self.binding := by
  simp [SegmentWriter.stated]

/-- A reader of a slot that holds the words of a book, closed, reads that book. -/
theorem read_holding {staged : StagedState} {levels : List LevelWords}
    (h : self.Sound) (hadmits : self.admits handle book.market = .ok ())
    (hstage : stage self.layout.levelCapacity book = .ok (staged, levels))
    (hfits : BookFits commitTime arrivalTime book)
    (hwords : Holds (self.region.bytesAt (self.layout.span (.stateSlot handle.entryIndex)))
      (stateStores commitTime arrivalTime staged levels))
    (hcopy : ∀ {α : Type} (copy : α), underSeqlock (self.counterOf (.stateSlot handle.entryIndex)) copy maxReadAttempts
      .first = .ok (some copy)) :
    self.reader.read handle = .ok (.of commitTime arrivalTime book) := by
  obtain ⟨hsegment, hslot, installed, hinstalled, hmarket⟩ := admits_ok hadmits
  have hentry := (h.entries _ _ hinstalled).market
  have howner : (readWords (self.region.bytesAt (self.layout.span (.stateSlot handle.entryIndex)))
      self.layout.levelCapacity).directoryIndex = handle.entryIndex :=
    h.owners handle.entryIndex (List.getElem?_eq_some_iff.1 hinstalled).1
  obtain ⟨hcount, hdecode⟩ := decode_state hstage (h.layout.bounds.level_le.trans (by decide)) hfits hwords
  rw [hmarket] at hentry
  simp only [SegmentReader.read, reader_stateSlot h hsegment hslot hinstalled, ok_bind, hentry, orError]
  rw [show load (self.region.bytesAt (self.layout.span (.stateSlot handle.entryIndex))) slotRevision 8 =
    self.counterOf (.stateSlot handle.entryIndex) from rfl, hcopy]
  simp only [SegmentWriter.reader, ok_bind, hdecode]
  rw [if_neg (not_not.2 howner), if_neg (Nat.not_lt.2 hcount)]

/-- So a publication is read back. -/
theorem read_stated {staged : StagedState} {levels : List LevelWords}
    {dirtyPosition : Nat} (h : self.Sound) (hadmits : self.admits handle book.market = .ok ())
    (hstage : stage self.layout.levelCapacity book = .ok (staged, levels)) (hfits : BookFits commitTime arrivalTime book)
    (hstable : self.counterOf (.stateSlot handle.entryIndex) + 2 ≤ u64Max)
    (hdirty : self.counterOf self.dirtyName + 2 ≤ u64Max) :
    ((self.stated handle.entryIndex bookRevision (stateStores commitTime arrivalTime staged levels)).stamped
      handle.entryIndex commitTime arrivalTime dirtyPosition).reader.read handle =
        .ok (.of commitTime arrivalTime book) := by
  obtain ⟨-, -, installed, hinstalled, -⟩ := admits_ok hadmits
  have hindex := h.slot_lt hinstalled
  have hlevels := stage_length hstage
  have hdata : SlotData self.layout (.stateSlot handle.entryIndex) (stateStores commitTime arrivalTime staged levels) :=
    stateData hindex hlevels
  obtain ⟨hwords, hcopy⟩ := closed_slot h hdata hstable (stated_same h hindex bookRevision)
  have hafter := h.stated bookRevision hdata hstable hdirty
  generalize hstated : self.stated handle.entryIndex bookRevision
    (stateStores commitTime arrivalTime staged levels) = after at hwords hcopy hafter ⊢
  have hlayout : after.layout = self.layout := by rw [← hstated, stated_layout]
  have hsource : after.admits handle book.market = .ok () := by
    rw [← hadmits, ← hstated, admits, admits, stated_binding, stated_installed]
  rw [← hlayout] at hstage hwords hcopy
  change after.reader.read handle = _
  exact read_holding hafter hsource hstage hfits hwords hcopy

theorem stated_generation (h : self.Sound) (hgeneration : self.publicationGeneration + 1 ≤ u64Max) :
    (self.stated index bookRevision data).publicationGeneration = self.publicationGeneration + 1 :=
  announce_generation h.size hgeneration

end Stated

/-! ## Every run -/

/-- The calls that change a segment. -/
inductive SegmentCall where
  | install (market : MarketRef)
  | publish (handle : MarketHandle) (book : PublishedBook) (commitTime arrivalTime : Nat)
  | mutation (now : Nat) (handle : MarketHandle) (revision : Nat) (cursor : MutationCursor) (mutation : BookMutation)
      (arrivalTime : Nat)
  | resolution (now : Nat) (handle : MarketHandle) (revision : Nat) (cursor : MutationCursor)
      (resolution : MarketResolution) (arrivalTime : Nat)

/-- The segment a call leaves, accepted or refused. -/
def after (self : SegmentWriter) : SegmentCall → SegmentWriter
  | .install market => left (SegmentWriter.install market self)
  | .publish handle book commitTime arrivalTime => left (publishStamped handle book commitTime arrivalTime self)
  | .mutation now handle revision cursor mutation arrivalTime =>
    left (publishMutation now handle revision cursor mutation arrivalTime self)
  | .resolution now handle revision cursor resolution arrivalTime =>
    left (publishResolution now handle revision cursor resolution arrivalTime self)

theorem Sound.install (h : self.Sound) (market : MarketRef) : (left (SegmentWriter.install market self)).Sound := by
  refine left_check_bind h fun _ _ => left_check_bind h fun index hindex => left_check_bind h fun _ hroom => ?_
  refine left_check_bind h fun identity hidentity => left_check_bind h fun identityLen hlength => ?_
  refine left_check_bind h fun slot hslot => ?_
  obtain ⟨-, rfl⟩ := fit_eq_some.1 (orError_eq_ok.1 hindex)
  obtain ⟨-, rfl⟩ := fit_eq_some.1 (orError_eq_ok.1 hlength)
  have hroom : self.installed.length < self.layout.directoryCapacity := by
    by_contra hfull
    simp [Nat.not_lt.1 hfull] at hroom
  rw [stateSlotRecord_eq h.size (Nat.lt_of_lt_of_le hroom h.layout.bounds.slots), reach_eq_ok, Except.ok.injEq] at hslot
  subst hslot
  -- the slot names its entry before the entry is written
  have howned := h.owned hroom
  refine left_check_bind (s := self.owned) howned fun entry hentry => ?_
  rw [reach_eq_ok, directoryRecord_eq howned.size hroom, Except.ok.injEq] at hentry
  subst hentry
  change (left (EStateM.bind (publishEntry _ _) _ self.owned)).Sound
  unfold EStateM.bind publishEntry publishWriteOnce
  split_ifs
  · exact h.withMarket hroom (orError_eq_ok.1 hidentity)
  · exact howned

theorem stamped_markets (self : SegmentWriter) (index commitTime arrivalTime dirtyPosition : Nat) :
    (self.stamped index commitTime arrivalTime dirtyPosition).installed.map InstalledMarket.market =
      self.installed.map InstalledMarket.market := by
  refine List.ext_getElem? fun i => ?_
  simp only [SegmentWriter.stamped, List.getElem?_map, List.getElem?_modify]
  cases self.installed[i]? <;> split <;> rfl

/-- Soundness does not depend on the writer's own stamps. -/
theorem Sound.stamped (h : self.Sound) (index commitTime arrivalTime dirtyPosition : Nat) :
    (self.stamped index commitTime arrivalTime dirtyPosition).Sound := h.frame rfl rfl (stamped_markets ..)

theorem EventAccepted.sound {handle : MarketHandle} {position : Nat} {after : SegmentWriter} (h : self.Sound)
    (haccepted : self.EventAccepted handle position data after) : after.Sound :=
  haccepted.left ▸ (h.published haccepted.fits haccepted.stable).announce _

theorem Sound.after (h : self.Sound) (call : SegmentCall) : (self.after call).Sound := by
  cases call with
  | install market => exact h.install market
  | publish handle book commitTime arrivalTime =>
    refine (publishStamped_atomic handle book commitTime arrivalTime).left h fun _ after hrun => ?_
    obtain ⟨staged, levels, hadmits, hstage, hstable, hdirty, -, rfl⟩ := publishStamped_ok h hrun
    obtain ⟨-, -, installed, hinstalled, -⟩ := admits_ok hadmits
    exact (h.stated _ (stateData (h.slot_lt hinstalled) (stage_length hstage)) hstable hdirty).stamped ..
  | mutation now handle revision cursor mutation arrivalTime =>
    refine (publishMutation_atomic now handle revision cursor mutation arrivalTime).left h fun _ after hrun => ?_
    obtain ⟨staged, -, haccepted⟩ := publishMutation_ok h hrun
    exact haccepted.sound h
  | resolution now handle revision cursor resolution arrivalTime =>
    refine (publishResolution_atomic now handle revision cursor resolution arrivalTime).left h fun _ after hrun => ?_
    obtain ⟨staged, -, haccepted⟩ := publishResolution_ok h hrun
    exact haccepted.sound h

/-- A segment is sound after any calls, refused ones among them. -/
theorem Sound.run (h : self.Sound) (calls : List SegmentCall) : (calls.foldl SegmentWriter.after self).Sound := by
  induction calls generalizing self with
  | nil => exact h
  | cons call rest ih => exact ih (h.after call)

/-! ## The round trips -/

def exampleHandle : MarketHandle := ⟨⟨0, 7, 1⟩, 0, 0⟩

def exampleDeepBook : PublishedBook :=
  { exampleBook.publish with
    levels := [exampleLevel .bid 4 200, exampleLevel .bid 3 100, exampleLevel .bid 2 700, exampleLevel .ask 6 50] }

def exampleResolution : MarketResolution where
  provenance := exampleProvenance
  winner := .text .side ⟨"yes", by decide, by decide⟩
  nativeLabel := ⟨"single-clob", by decide, by decide⟩
  deliveryPath := .marketFeed
  winningIndex := 1
  resolutionDate := ⟨"2026-01-01", by decide, by decide⟩
  reported _ := nofun

/-- A segment with one market, whose state slot holds a deeper book and whose only event slot holds a resolution. -/
def exampleSegment : SegmentWriter :=
  [.install exampleMarket, .publish exampleHandle exampleDeepBook 1 1,
    .resolution 2 exampleHandle 1 ⟨1, 0⟩ exampleResolution 2].foldl SegmentWriter.after
      (created (.new ⟨1, 1, 4, 1, 4⟩ 7 1) 0 .inHeader)

theorem exampleSegment_sound : exampleSegment.Sound := (created_sound (by decide) 0 .inHeader).run _

/-- An event publication that is accepted is what a reader of its slot then decodes, whatever the slot held before: a
level change as that change, a resolution as that resolution. One that is refused leaves every byte as it was. -/
theorem event_slot_round_trip (writer : SegmentWriter) (hw : writer.Sound) (now : Nat) (handle : MarketHandle)
    (revision : Nat) (cursor : MutationCursor) (arrivalTime : Nat) :
    (∀ mutation, EventFits revision cursor now arrivalTime mutation.provenance →
      match publishMutation now handle revision cursor mutation arrivalTime writer with
      | .ok _ after => ∃ words, after.reader.eventWords handle cursor = .ok (some words) ∧
          words.shared.cursorEpoch = cursor.epoch ∧ words.shared.cursorPosition = cursor.position ∧
          words.shared.directoryIndex = handle.entryIndex ∧
          decodeEvent mutation.provenance.market cursor words =
            some (.mutation (.of revision cursor now arrivalTime mutation))
      | .error _ after => after = writer) ∧
    (∀ resolution, EventFits revision cursor now arrivalTime resolution.provenance →
      match publishResolution now handle revision cursor resolution arrivalTime writer with
      | .ok _ after => ∃ words, after.reader.eventWords handle cursor = .ok (some words) ∧
          words.shared.cursorEpoch = cursor.epoch ∧ words.shared.cursorPosition = cursor.position ∧
          words.shared.directoryIndex = handle.entryIndex ∧
          ∃ outcome, resolution.winner.textValue = some outcome ∧
            decodeEvent resolution.provenance.market cursor words =
              some (.resolution (.of revision cursor now arrivalTime resolution outcome))
      | .error _ after => after = writer) := by
  constructor
  · intro mutation hfits
    split
    · rename_i after hrun
      obtain ⟨staged, hstaged, haccepted⟩ := publishMutation_ok hw hrun
      obtain ⟨slot, hholds, hwords⟩ := haccepted.read hw
      exact ⟨_, hwords, decodeEvent_mutation hstaged (hw.index_le haccepted.index) hfits hholds⟩
    · rename_i hrun
      exact publishMutation_atomic _ _ _ _ _ _ _ _ _ hrun
  · intro resolution hfits
    split
    · rename_i after hrun
      obtain ⟨staged, hstaged, haccepted⟩ := publishResolution_ok hw hrun
      obtain ⟨slot, hholds, hwords⟩ := haccepted.read hw
      exact ⟨_, hwords, decodeEvent_resolution hstaged (hw.index_le haccepted.index) hfits hholds⟩
    · rename_i hrun
      exact publishResolution_atomic _ _ _ _ _ _ _ _ _ hrun

def exampleChange : BookMutation where
  provenance := exampleProvenance
  old := none
  replacement := some (exampleLevel .bid 3 100)
  nonempty := .inr (Option.some_ne_none _)
  sameCoordinate := by simp

/-- A level change, into the slot of a resolution. -/
theorem example_event_round_trip :
    ((exampleSegment.reader.eventWords exampleHandle ⟨1, 0⟩).toOption.join.bind (decodeEvent exampleMarket ⟨1, 0⟩)) =
      some (.resolution (.of 1 ⟨1, 0⟩ 2 2 exampleResolution "yes")) ∧
    ∃ after, publishMutation 5 exampleHandle 1 ⟨1, 0⟩ exampleChange 3 exampleSegment = .ok () after ∧
      ∃ words, after.reader.eventWords exampleHandle ⟨1, 0⟩ = .ok (some words) ∧
        decodeEvent exampleMarket ⟨1, 0⟩ words = some (.mutation (.of 1 ⟨1, 0⟩ 5 3 exampleChange)) := by
  refine ⟨by decide +kernel, ?_⟩
  have hfits : EventFits 1 ⟨1, 0⟩ 5 3 exampleChange.provenance := by constructor <;> decide
  have haccepted : (match publishMutation 5 exampleHandle 1 ⟨1, 0⟩ exampleChange 3 exampleSegment with
      | .ok _ _ => true
      | .error _ _ => false) = true := by decide +kernel
  obtain ⟨htrips, -⟩ := event_slot_round_trip exampleSegment exampleSegment_sound 5 exampleHandle 1 ⟨1, 0⟩ 3
  generalize exampleSegment = segment at haccepted htrips ⊢
  have htrip := htrips exampleChange hfits
  cases hrun : publishMutation 5 exampleHandle 1 ⟨1, 0⟩ exampleChange 3 segment with
  | ok u after =>
    rw [hrun] at htrip
    obtain ⟨words, hread, -, -, -, hdecode⟩ := htrip
    exact ⟨after, rfl, words, hread, hdecode⟩
  | error e after => simp [hrun] at haccepted

/-- A book that is accepted is what a reader of its handle then reads, whatever its slot held before, and the
publication generation has advanced by one. A book that is refused leaves the writer and every byte of its region as
they were, and one its handle was issued for is refused for one of three reasons only. -/
theorem state_slot_round_trip (writer : SegmentWriter) (hw : writer.Sound) (now : Nat) (handle : MarketHandle)
    (book : PublishedBook) (arrivalTime : Nat) (hfits : BookFits now arrivalTime book) :
    (match publish now handle book arrivalTime writer with
      | .ok _ after => after.reader.read handle = .ok (.of now arrivalTime book) ∧
          after.publicationGeneration = writer.publicationGeneration + 1
      | .error _ after => after = writer) ∧
    (writer.admits handle book.market = .ok () → ¬ writer.RefusesState handle book →
      ∃ after, publish now handle book arrivalTime writer = .ok () after) := by
  refine ⟨?_, fun hadmits hrefuses => publishStamped_accepts hw hadmits hrefuses⟩
  split
  · rename_i after hrun
    obtain ⟨staged, levels, hadmits, hstage, hstable, hdirty, hgeneration, rfl⟩ := publishStamped_ok hw hrun
    exact ⟨read_stated hw hadmits hstage hfits hstable hdirty, stated_generation hw hgeneration⟩
  · rename_i hrun
    exact publishStamped_atomic _ _ _ _ _ _ _ hrun

/-- A book of one level, into the slot of a deeper one. -/
theorem example_state_round_trip :
    exampleSegment.reader.read exampleHandle = .ok (.of 1 1 exampleDeepBook) ∧
    ∃ after, publish 5 exampleHandle exampleBook.publish 3 exampleSegment = .ok () after ∧
      after.reader.read exampleHandle = .ok (.of 5 3 exampleBook.publish) := by
  refine ⟨by decide +kernel, ?_⟩
  have hfits : BookFits 5 3 exampleBook.publish := by constructor <;> decide
  have hfamily : ∀ p ∈ exampleBook.publish.provenance, p.nativeFamily.utf8ByteSize ≤ nativeFamilyWords * 8 := by
    decide +kernel
  have hcounts : exampleBook.publish.levels.length ≤ exampleSegment.layout.levelCapacity ∧
      exampleSegment.publicationGeneration + 1 ≤ u64Max ∧
      exampleSegment.counterOf (.stateSlot exampleHandle.entryIndex) + 2 ≤ u64Max ∧
      exampleSegment.counterOf exampleSegment.dirtyName + 2 ≤ u64Max := by decide +kernel
  have hadmits : exampleSegment.admits exampleHandle exampleBook.publish.market = .ok () := by decide +kernel
  have htrips := state_slot_round_trip exampleSegment exampleSegment_sound 5 exampleHandle exampleBook.publish 3 hfits
  generalize exampleSegment = segment at hcounts hadmits htrips ⊢
  obtain ⟨htrip, haccepts⟩ := htrips
  have hrefuses : ¬ segment.RefusesState exampleHandle exampleBook.publish := by
    obtain ⟨hdepth, hgeneration, hslot, hdirty⟩ := hcounts
    simp only [RefusesState, not_or, not_exists, not_and, Nat.not_lt]
    exact ⟨hdepth, hfamily, hgeneration, hslot, hdirty⟩
  obtain ⟨after, hrun⟩ := haccepts hadmits hrefuses
  rw [hrun] at htrip
  exact ⟨after, hrun, htrip.1⟩

end SegmentWriter

end PmWs.Abi
