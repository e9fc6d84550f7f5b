import PmWs.Shm.Checked
import PmWs.Shm.Sound

/-!
# What a segment's directory resolves

A directory is a list of markets: an installation appends to it, and a reader
searches it from the front. The segment's bytes say that list and nothing more,
whatever was asked for and refused in between.
-/

open MachineInt Memory Fallible Transactions Loads

namespace PmWs.Abi

open Codec

/-- The bytes an identity takes. -/
def identityLength (market : MarketRef) : Nat :=
  8 + market.venue.value.utf8ByteSize + market.key.kind.value.utf8ByteSize + market.key.value.value.utf8ByteSize

/-- The three texts are far below the widths their lengths are stored at, so only the capacity refuses an identity. -/
theorem encodeIdentity_eq_none {market : MarketRef} {capacity : Nat} :
    encodeIdentity market capacity = none ↔ capacity < identityLength market := by
  have hvenue := market.venue.size_le
  have hkind := market.key.kind.size_le
  have hvalue := market.key.value.size_le
  have hfit₁ : fit u16Max market.venue.value.utf8ByteSize = some market.venue.value.utf8ByteSize :=
    fit_eq_some.2 ⟨hvenue.trans (by decide), rfl⟩
  have hfit₂ : fit u16Max market.key.kind.value.utf8ByteSize = some market.key.kind.value.utf8ByteSize :=
    fit_eq_some.2 ⟨hkind.trans (by decide), rfl⟩
  have hfit₃ : fit u32Max market.key.value.value.utf8ByteSize = some market.key.value.value.utf8ByteSize :=
    fit_eq_some.2 ⟨hvalue.trans (by decide), rfl⟩
  simp only [encodeIdentity, length_textBytes, hfit₁, hfit₂, hfit₃, Option.bind_some]
  split
  · rename_i hlong
    exact ⟨fun _ => hlong, fun _ => rfl⟩
  · rename_i hfits
    exact ⟨by simp, fun hlong => absurd hlong hfits⟩

/-- `SegmentReader::attach`. -/
def SegmentReader.attach (region : SegmentRegion) : Except SegmentFault SegmentReader := do
  let geometry ← validate region.toRegion
  .ok ⟨region.toRegion, geometry.layout, ⟨region.attachment, geometry.daemonInstanceId, geometry.segmentGeneration⟩⟩

namespace SegmentWriter

variable {self : SegmentWriter} {market : MarketRef} {listed : List MarketRef} {identity : List UInt8}

/-! ## A directory's markets -/

theorem gate_inside (layout : SegmentLayout) (index : Nat) :
    entRevision + 8 ≤ (layout.span (.directory index)).size := show 0 + 8 ≤ 512 by decide

/-- The segment's directory lists the markets, each once, and the entries after them are unclaimed. -/
structure Lists (writer : SegmentWriter) (listed : List MarketRef) : Prop where
  sound : writer.Sound
  installed : writer.installed.map InstalledMarket.market = listed
  nodup : listed.Nodup
  free : ∀ i, listed.length ≤ i → i < writer.layout.directoryCapacity →
    writer.word (writer.layout.span (.directory i)) entRevision 8 = 0

theorem Lists.length_installed (h : self.Lists listed) : self.installed.length = listed.length := by
  rw [← h.installed, List.length_map]

theorem Lists.length_le (h : self.Lists listed) : listed.length ≤ self.layout.directoryCapacity :=
  h.length_installed ▸ h.sound.directory

/-- The entry of a listed market names it. -/
theorem Lists.names (h : self.Lists listed) {i : Nat} (hi : listed[i]? = some market) :
    EntryNames (self.region.bytesAt (self.layout.span (.directory i))) i market := by
  rw [← h.installed, List.getElem?_map] at hi
  obtain ⟨installed, hinstalled, rfl⟩ := Option.map_eq_some_iff.1 hi
  exact h.sound.entries i installed hinstalled

theorem created_lists {config : SegmentConfig} (hlayout : config.layout.Valid) (attachment : Nat)
    (doorbell : Doorbell) : (created config attachment doorbell).Lists [] where
  sound := created_sound hlayout attachment doorbell
  installed := rfl
  nodup := List.nodup_nil
  free i _ hi :=
    created_zero (show config.layout.Has (.directory i) from hi) nofun nofun (gate_inside config.layout i)

/-! ## One installation -/

theorem owned_same {name : RecordName} (h : self.Sound)
    (hroom : self.installed.length < self.layout.directoryCapacity) (hname : self.layout.Has name)
    (hslot : .stateSlot self.installed.length ≠ name) :
    self.region.SameAt self.owned.region (self.layout.span name) := by
  have hhas : self.layout.Has (.stateSlot self.installed.length) := Nat.lt_of_lt_of_le hroom h.layout.bounds.slots
  refine .store _ (fun store hstore => ?_) (SegmentLayout.span_apart hhas hname hslot)
  rw [List.mem_singleton.1 hstore]
  exact owner_inside self.layout self.installed.length

/-- An installation stores into the next slot and the next entry. -/
theorem withMarket_same {name : RecordName} (h : self.Sound)
    (hroom : self.installed.length < self.layout.directoryCapacity) (hidentity : identity.length ≤ identityCapacity)
    (hname : self.layout.Has name) (hslot : .stateSlot self.installed.length ≠ name)
    (hentry : .directory self.installed.length ≠ name) :
    self.region.SameAt (self.withMarket market identity).region (self.layout.span name) := by
  have hfirst := owned_same h hroom hname hslot
  have hsecond : self.owned.region.SameAt (self.withMarket market identity).region (self.layout.span name) :=
    .store _ (entry_inside _ _ hidentity) (SegmentLayout.span_apart hroom hname hentry)
  exact hfirst.trans hsecond

/-- A segment of the same shape, whose header and trailer were left alone. -/
structure Keeps (before after : SegmentWriter) : Prop where
  layout : after.layout = before.layout
  binding : after.binding = before.binding
  header : before.region.SameAt after.region (before.layout.span .header)
  trailer : before.region.SameAt after.region (before.layout.span .trailer)

theorem Keeps.refl (self : SegmentWriter) : self.Keeps self := ⟨rfl, rfl, fun _ _ => rfl, fun _ _ => rfl⟩

theorem Keeps.trans {after last : SegmentWriter} (h : self.Keeps after) (hlast : after.Keeps last) :
    self.Keeps last := by
  obtain ⟨hlayout, hbinding, hheader, htrailer⟩ := hlast
  rw [h.layout] at hlayout hheader htrailer
  exact ⟨hlayout, hbinding.trans h.binding, h.header.trans hheader, h.trailer.trans htrailer⟩

theorem Keeps.withMarket (h : self.Sound) (hroom : self.installed.length < self.layout.directoryCapacity)
    (hidentity : identity.length ≤ identityCapacity) : self.Keeps (self.withMarket market identity) :=
  ⟨rfl, rfl, withMarket_same h hroom hidentity trivial nofun nofun,
    withMarket_same h hroom hidentity trivial nofun nofun⟩

theorem Lists.withMarket (h : self.Lists listed) (hnew : market ∉ listed)
    (hroom : listed.length < self.layout.directoryCapacity)
    (hidentity : encodeIdentity market identityCapacity = some identity) :
    (self.withMarket market identity).Lists (listed ++ [market]) := by
  rw [← h.length_installed] at hroom
  refine ⟨h.sound.withMarket hroom hidentity, ?_, ?_, ?_⟩
  · rw [SegmentWriter.withMarket, List.map_append, h.installed]
    rfl
  · exact List.nodup_append.2 ⟨h.nodup, List.nodup_singleton _, fun a ha b hb => by
      rw [List.mem_singleton.1 hb]
      rintro rfl
      exact hnew ha⟩
  · intro i hi hcapacity
    rw [List.length_append, List.length_singleton, ← h.length_installed] at hi
    have hsame : self.region.SameAt (self.withMarket market identity).region (self.layout.span (.directory i)) := by
      refine withMarket_same h.sound hroom (decodeIdentity_encode hidentity).2 hcapacity nofun ?_
      rintro ⟨⟩
      exact absurd hi (Nat.not_succ_le_self _)
    have hbefore := h.free i (by rw [← h.length_installed]; omega) hcapacity
    rwa [word, ← hsame.load (gate_inside self.layout i)] at hbefore

/-- A market that is new, that fits and for which there is room takes the next entry and the next slot. -/
theorem Lists.accepts (h : self.Lists listed) (hnew : market ∉ listed)
    (hroom : listed.length < self.layout.directoryCapacity)
    (hidentity : encodeIdentity market identityCapacity = some identity) :
    install market self =
      .ok ⟨self.binding, listed.length, listed.length⟩ (self.withMarket market identity) := by
  have hfree := h.free _ le_rfl hroom
  rw [← h.length_installed] at hroom hfree ⊢
  have hany : ¬ (self.installed.any fun installed => installed.market = market) = true := by
    rw [← h.installed] at hnew
    simpa using hnew
  have hmax : self.installed.length ≤ u32Max :=
    (Nat.le_of_lt hroom).trans (h.sound.layout.bounds.directory_le.trans (by decide))
  have hlength : identity.length ≤ u32Max := (decodeIdentity_encode hidentity).2.trans (by decide)
  -- The slot's index is stored outside the entry, whose gate is still unclaimed.
  have hgate : self.owned.word (self.layout.span (.directory self.installed.length)) entRevision 8 = 0 := by
    have hsame : self.region.SameAt self.owned.region (self.layout.span (.directory self.installed.length)) :=
      owned_same h.sound hroom hroom nofun
    rwa [word, hsame.load (gate_inside self.layout _)]
  have hentered : publishEntry (self.layout.span (.directory self.installed.length))
      (entryFields self.installed.length identity.length identity) self.owned = .ok () (self.owned.entered identity) := by
    unfold publishEntry publishWriteOnce
    rw [if_pos (show load _ entRevision 8 = 0 from hgate)]
    rfl
  unfold install
  refine check_bind_eq_ok.2 ⟨(), if_neg hany, ?_⟩
  refine check_bind_eq_ok.2 ⟨self.installed.length, orError_eq_ok.2 (fit_eq_some.2 ⟨hmax, rfl⟩), ?_⟩
  refine check_bind_eq_ok.2 ⟨(), if_neg (Nat.not_le.2 hroom), ?_⟩
  refine check_bind_eq_ok.2 ⟨identity, orError_eq_ok.2 hidentity, ?_⟩
  refine check_bind_eq_ok.2 ⟨identity.length, orError_eq_ok.2 (fit_eq_some.2 ⟨hlength, rfl⟩), ?_⟩
  refine check_bind_eq_ok.2 ⟨_, reach_eq_ok.2 (stateSlotRecord_eq h.sound.size
    (Nat.lt_of_lt_of_le hroom h.sound.layout.bounds.slots)), ?_⟩
  refine Transactions.bind_eq_ok.2 ⟨(), _, update_eq_ok.2 rfl, ?_⟩
  refine check_bind_eq_ok.2 ⟨_, reach_eq_ok.2 (directoryRecord_eq (h.sound.owned hroom).size hroom), ?_⟩
  refine Transactions.bind_eq_ok.2 ⟨(), _, hentered, ?_⟩
  refine Transactions.bind_eq_ok.2 ⟨(), _, update_eq_ok.2 rfl, ?_⟩
  exact check_eq_ok.2 ⟨rfl, rfl⟩

/-- Why a directory takes no market. -/
def Declines (layout : SegmentLayout) (listed : List MarketRef) (market : MarketRef) : Prop :=
  market ∈ listed ∨ layout.directoryCapacity ≤ listed.length ∨ identityCapacity < identityLength market

/-- A refused installation has stored nothing. -/
theorem Lists.refuses (h : self.Lists listed) (hdeclines : Declines self.layout listed market) :
    ∃ error, install market self = .error error self := by
  unfold install
  by_cases hany : (self.installed.any fun installed => installed.market = market) = true
  · exact ⟨.marketAlreadyInstalled, check_bind_eq_error.2 (.inl ⟨if_pos hany, rfl⟩)⟩
  have hmax : self.installed.length ≤ u32Max :=
    h.sound.directory.trans (h.sound.layout.bounds.directory_le.trans (by decide))
  by_cases hfull : self.installed.length ≥ self.layout.directoryCapacity
  · refine ⟨.directoryFull, check_bind_eq_error.2 (.inr ⟨(), if_neg hany, ?_⟩)⟩
    refine check_bind_eq_error.2 (.inr ⟨_, orError_eq_ok.2 (fit_eq_some.2 ⟨hmax, rfl⟩), ?_⟩)
    exact check_bind_eq_error.2 (.inl ⟨if_pos hfull, rfl⟩)
  -- It is neither listed nor short of room, so it is too long.
  have hlong : encodeIdentity market identityCapacity = none := by
    rcases hdeclines with hlisted | hroom | hlong
    · rw [← h.installed] at hlisted
      exact absurd (by simpa using hlisted) hany
    · rw [← h.length_installed] at hroom
      exact absurd hroom hfull
    · exact encodeIdentity_eq_none.2 hlong
  refine ⟨.identityTooLong, check_bind_eq_error.2 (.inr ⟨(), if_neg hany, ?_⟩)⟩
  refine check_bind_eq_error.2 (.inr ⟨_, orError_eq_ok.2 (fit_eq_some.2 ⟨hmax, rfl⟩), ?_⟩)
  refine check_bind_eq_error.2 (.inr ⟨(), if_neg hfull, ?_⟩)
  exact check_bind_eq_error.2 (.inl ⟨by rw [hlong]; rfl, rfl⟩)

/-- What an installation comes to. -/
theorem Lists.install (h : self.Lists listed) (market : MarketRef) :
    (Declines self.layout listed market ∧ ∃ error, install market self = .error error self) ∨
      ¬ Declines self.layout listed market ∧
        ∃ after, SegmentWriter.install market self = .ok ⟨self.binding, listed.length, listed.length⟩ after ∧
          after.Lists (listed ++ [market]) ∧ self.Keeps after := by
  by_cases hdeclines : Declines self.layout listed market
  · exact .inl ⟨hdeclines, h.refuses hdeclines⟩
  have hnew : market ∉ listed := fun hlisted => hdeclines (.inl hlisted)
  have hroom : listed.length < self.layout.directoryCapacity := Nat.not_le.1 fun hfull => hdeclines (.inr (.inl hfull))
  cases hidentity : encodeIdentity market identityCapacity with
  | none => exact absurd (.inr (.inr (encodeIdentity_eq_none.1 hidentity))) hdeclines
  | some identity =>
    have hkeeps : self.Keeps (self.withMarket market identity) :=
      .withMarket h.sound (h.length_installed ▸ hroom) (decodeIdentity_encode hidentity).2
    exact .inr ⟨hdeclines, _, h.accepts hnew hroom hidentity, h.withMarket hnew hroom hidentity, hkeeps⟩

/-! ## A sequence of installations -/

/-- Installs the markets in turn: what each call answered, and the writer they leave. -/
def installs : List MarketRef → SegmentWriter → List (MarketRef × Except WriterError MarketHandle) × SegmentWriter
  | [], self => ([], self)
  | market :: markets, self =>
    match install market self with
    | .ok handle after =>
      let (answers, last) := installs markets after
      ((market, .ok handle) :: answers, last)
    | .error error after =>
      let (answers, last) := installs markets after
      ((market, .error error) :: answers, last)

/-- The markets that were accepted, each with its handle. -/
def accepted (answers : List (MarketRef × Except WriterError MarketHandle)) : List (MarketRef × MarketHandle) :=
  answers.filterMap fun (market, answer) => answer.toOption.map fun handle => (market, handle)

/-- The handles of a list of markets, the first of them at `start`. -/
def handles (binding : SegmentBinding) (start : Nat) (markets : List MarketRef) : List (MarketRef × MarketHandle) :=
  (markets.zipIdx start).map fun (market, index) => (market, ⟨binding, index, index⟩)

theorem mem_handles {binding : SegmentBinding} {handle : MarketHandle} :
    (market, handle) ∈ handles binding 0 listed ↔ ∃ i, listed[i]? = some market ∧ handle = ⟨binding, i, i⟩ := by
  simp only [handles, List.mem_map, Prod.exists, List.mk_mem_zipIdx_iff_getElem?, Prod.mk.injEq]
  constructor
  · rintro ⟨_, i, hi, rfl, rfl⟩
    exact ⟨i, hi, rfl⟩
  · rintro ⟨i, hi, rfl⟩
    exact ⟨market, i, hi, rfl, rfl⟩

theorem exists_mem_handles {binding : SegmentBinding} :
    (∃ handle, (market, handle) ∈ handles binding 0 listed) ↔ market ∈ listed := by
  simp only [mem_handles]
  rw [List.mem_iff_getElem?]
  constructor
  · rintro ⟨_, i, hi, -⟩
    exact ⟨i, hi⟩
  · rintro ⟨i, hi⟩
    exact ⟨_, i, hi, rfl⟩

theorem length_handles (binding : SegmentBinding) (start : Nat) (markets : List MarketRef) :
    (handles binding start markets).length = markets.length := by
  simp [handles]

/-- The directory grows at its end, by the accepted markets in their order. -/
theorem Lists.installs (h : self.Lists listed) (markets : List MarketRef) :
    ∃ more, (installs markets self).2.Lists (listed ++ more) ∧ self.Keeps (installs markets self).2 ∧
      accepted (installs markets self).1 = handles self.binding listed.length more := by
  induction markets generalizing self listed with
  | nil => exact ⟨[], by rwa [List.append_nil], .refl self, rfl⟩
  | cons market markets ih =>
    unfold SegmentWriter.installs
    rcases h.install market with ⟨-, error, hrun⟩ | ⟨-, after, hrun, hafter, hkeeps⟩
    · rw [hrun]
      exact ih h
    · rw [hrun]
      obtain ⟨more, hlists, hlater, haccepted⟩ := ih hafter
      refine ⟨market :: more, by rwa [List.append_assoc] at hlists, hkeeps.trans hlater, ?_⟩
      rw [List.length_append, hkeeps.binding] at haccepted
      exact congrArg ((market, _) :: ·) haccepted

/-! ## A reader's search -/

/-- What the search finds at one entry. -/
def listedAt (binding : SegmentBinding) (listed : List MarketRef) (market : MarketRef) (index : Nat) :
    Option MarketHandle :=
  if listed[index]? = some market then some ⟨binding, index, index⟩ else none

theorem Lists.resolveAt (h : self.Lists listed) (binding : SegmentBinding) (market : MarketRef) {index : Nat}
    (hindex : index < self.layout.directoryCapacity) :
    Gives self.region.size self.region.bytes (Checked.resolveAt ⟨self.region, self.layout, binding⟩ market index)
      (.ok (listedAt binding listed market index)) := by
  have hin : (self.layout.span (.directory index)).base + (self.layout.span (.directory index)).size ≤
      self.region.size := h.sound.size ▸ SegmentLayout.span_le hindex
  have hpublished : Gives self.region.size self.region.bytes
      ((self.layout.span (.directory index)).published entRevision : Loads ReadFault (Option Nat))
      (.ok (publishedGate (self.region.bytesAt (self.layout.span (.directory index))) entRevision)) :=
    Checked.published_gives hin rfl
  unfold Checked.resolveAt
  rw [directoryRecord_eq h.sound.size hindex]
  dsimp only
  unfold listedAt
  cases hlisted : listed[index]? with
  | none =>
    -- The entry was never claimed.
    have hgate : load (self.region.bytesAt (self.layout.span (.directory index))) entRevision 8 = 0 :=
      h.free index (List.getElem?_eq_none_iff.1 hlisted) hindex
    rw [Checked.publishedGate_eq, if_pos (.inl hgate)] at hpublished
    exact hpublished.bind (gives_done _)
  | some named =>
    have hnames : EntryNames (view self.region.bytes (self.layout.span (.directory index)).base) index named :=
      h.names hlisted
    rw [Checked.publishedGate_eq, Region.bytesAt, hnames.published, if_neg (by decide)] at hpublished
    refine hpublished.bind ((Checked.identityBytes_gives hin rfl).bind ?_)
    rw [hnames.market]
    split
    · refine Checked.cell_gives_then hin (show 512 ≤ 512 from le_rfl) (by decide) ?_
      rw [hnames.slot]
      exact gives_done _
    · exact gives_done _

theorem resolveAmong_gives {reader : SegmentReader} {size : Nat} {memory : Bytes} {indices : List Nat}
    {found : Nat → Option MarketHandle}
    (h : ∀ index ∈ indices, Gives size memory (Checked.resolveAt reader market index) (.ok (found index))) :
    Gives size memory (Checked.resolveAmong reader market indices) (.ok (indices.findSome? found)) := by
  induction indices with
  | nil => exact gives_done _
  | cons index indices ih =>
    refine (h index (.head _)).bind ?_
    rw [List.findSome?_cons]
    cases found index with
    | some handle => exact gives_done _
    | none => exact ih fun later hlater => h later (.tail _ hlater)

/-- The search finds a market exactly if it is listed, and at its own index, since no other entry names it. -/
theorem Lists.resolve (h : self.Lists listed) (binding : SegmentBinding) (market : MarketRef) :
    ∃ found, Gives self.region.size self.region.bytes
        (Checked.resolve ⟨self.region, self.layout, binding⟩ market) (.ok found) ∧
      (found.isSome ↔ market ∈ listed) ∧ ∀ i : Nat, listed[i]? = some market → found = some ⟨binding, i, i⟩ := by
  refine ⟨_, resolveAmong_gives fun index hindex => h.resolveAt binding market (List.mem_range.1 hindex), ?_⟩
  generalize hsearch : (List.range self.layout.directoryCapacity).findSome? (listedAt binding listed market) = found
  cases found with
  | none =>
    have hmissed : ∀ i : Nat, listed[i]? ≠ some market := by
      intro i hi
      have hlt := Nat.lt_of_lt_of_le (List.getElem?_eq_some_iff.1 hi).1 h.length_le
      have hnone := List.findSome?_eq_none_iff.1 hsearch i (List.mem_range.2 hlt)
      exact absurd hi (by simpa [listedAt] using hnone)
    refine ⟨⟨nofun, fun hlisted => ?_⟩, fun i hi => absurd hi (hmissed i)⟩
    obtain ⟨i, hi⟩ := List.mem_iff_getElem?.1 hlisted
    exact absurd hi (hmissed i)
  | some handle =>
    obtain ⟨j, -, hj⟩ := List.exists_of_findSome?_eq_some hsearch
    simp only [listedAt, Option.ite_none_right_eq_some, Option.some.injEq] at hj
    obtain ⟨hj, rfl⟩ := hj
    refine ⟨⟨fun _ => List.mem_iff_getElem?.2 ⟨j, hj⟩, fun _ => rfl⟩, fun i hi => ?_⟩
    have hlt := (List.getElem?_eq_some_iff.1 hi).1
    obtain rfl := (List.getElem?_inj hlt h.nodup).1 (hi.trans hj.symm)
    rfl

/-! ## A fresh segment -/

theorem formatRecord_frame {region after : SegmentRegion} {record : Record} {gate value : Nat} {fields : List Store}
    {u : Unit} (h : formatRecord record gate value fields region = .ok u after) :
    after.size = region.size ∧ after.backing = region.backing := by
  unfold formatRecord publishWriteOnce at h
  split at h
  · rename_i formatted hpublished
    simp only [Option.ite_none_right_eq_some, Option.some.injEq] at hpublished
    cases h
    rw [← hpublished.2]
    exact ⟨rfl, rfl⟩
  · cases h

section Fresh
variable {config : SegmentConfig} {region fresh : SegmentRegion} {writer : SegmentWriter}

/-- What `create` makes of a region of zeros, if it succeeds. -/
theorem create_fresh (hlayout : config.layout.Valid) (hid : config.daemonInstanceId ≤ u128Max)
    (hgeneration : config.segmentGeneration ≤ u64Max) (hzero : region.bytes = fun _ => 0)
    (hcreate : create config region = .ok writer fresh) :
    config.layout.regionSize % regionAlignment = 0 ∧
      ∃ doorbell, writer = created config region.attachment doorbell := by
  have hrun := hcreate
  simp only [create, check_bind_eq_ok, ite_error_eq_ok, not_not] at hrun
  obtain ⟨_, hwritable, size, ⟨hsize, -⟩, _, -, _, -, hrun⟩ := hrun
  obtain ⟨_, _, htrailer, hrun⟩ := Transactions.bind_eq_ok.1 hrun
  obtain ⟨doorbell, hdoorbell, hrun⟩ := check_bind_eq_ok.1 hrun
  obtain ⟨_, last, hheader, hrun⟩ := Transactions.bind_eq_ok.1 hrun
  obtain ⟨hfirst, hbacking⟩ := formatRecord_frame htrailer
  obtain ⟨hsecond, -⟩ := formatRecord_frame hheader
  rw [hbacking] at hdoorbell
  -- The validation at the end refuses a region that is not a whole number of blocks.
  obtain ⟨geometry, hvalid, -⟩ := Fallible.bind_eq_ok.1 (check_eq_ok.1 hrun).1
  replace hvalid := mapError_eq_ok.1 hvalid
  simp only [validate, ite_error_eq_ok, not_not] at hvalid
  have haligned : config.layout.regionSize % regionAlignment = 0 := by
    rw [← hsize, ← hfirst, ← hsecond]
    exact hvalid.1
  have hregion : region.toRegion = ⟨config.layout.regionSize, fun _ => 0⟩ := by
    rw [← hsize, ← hzero]
  obtain ⟨-, hcreated⟩ := create_zeroed config region hlayout haligned hid hgeneration
    (by simpa using hwritable) hregion hdoorbell
  rw [hcreated] at hcreate
  obtain ⟨rfl, -⟩ := EStateM.Result.ok.inj hcreate
  exact ⟨haligned, doorbell, by rw [hregion]; rfl⟩

/-- A segment keeps passing while its header and its trailer are left alone. -/
theorem Keeps.validate {attachment : Nat} {doorbell : Doorbell}
    (h : (created config attachment doorbell).Keeps self) (hsound : self.Sound) (hlayout : config.layout.Valid)
    (hid : config.daemonInstanceId ≤ u128Max) (hgeneration : config.segmentGeneration ≤ u64Max)
    (haligned : config.layout.regionSize % regionAlignment = 0) :
    Abi.validate self.region = .ok ⟨config.daemonInstanceId, config.segmentGeneration, config.layout⟩ := by
  have hsize : self.region.size = config.layout.regionSize := hsound.size.trans (congrArg _ h.layout)
  obtain ⟨hheader, htrailer⟩ := formatted_holds config doorbell ⟨config.layout.regionSize, fun _ => 0⟩
  rw [← hsize] at hheader htrailer haligned
  have hheaderIn : ∀ store ∈ headerFields config self.region.size doorbell ++ [word64 hdrMagic magic],
      store.offset + store.width ≤ headerBytes :=
    fun store hstore => headerFields_inside config self.region.size doorbell store (.tail _ hstore)
  have htrailerIn : ∀ store ∈ [word64 trlRegionSize self.region.size, word64 trlMagic trailerMagic],
      store.offset + store.width ≤ trailerBytes :=
    fun store hstore => trailerFields_inside self.region.size store (.tail _ hstore)
  exact validate_formatted hlayout hsize haligned hid hgeneration (h.header.holds hheaderIn hheader)
    (h.trailer.holds htrailerIn htrailer)

/-- The directory of a segment resolves what was installed and nothing else. After any sequence of installations in a
fresh segment, a reader that attaches to the region finds a market exactly if one of them accepted it, at the entry and
the slot of the handle it returned. Accepted markets have indices of their own and their entries' identities decode to
them. A further installation is refused exactly if its market was accepted before, the directory is full or the
identity does not fit, and a refusal leaves every byte of the directory as it was. -/
theorem directory_resolves_installed (hlayout : config.layout.Valid) (hid : config.daemonInstanceId ≤ u128Max)
    (hgeneration : config.segmentGeneration ≤ u64Max) (hzero : region.bytes = fun _ => 0)
    (hcreate : create config region = .ok writer fresh) (markets : List MarketRef) :
    let (answers, after) := installs markets writer
    (∀ mapped : SegmentRegion, mapped.toRegion = after.region →
      ∃ reader, SegmentReader.attach mapped = .ok reader ∧ ∀ market,
        ∃ found, Gives mapped.size mapped.bytes (Checked.resolve reader market) (.ok found) ∧
          (found.isSome ↔ ∃ handle, (market, handle) ∈ accepted answers) ∧
          ∀ handle, (market, handle) ∈ accepted answers →
            found = some ⟨reader.binding, handle.entryIndex, handle.stateSlotIndex⟩) ∧
    (∀ market handle other otherHandle, (market, handle) ∈ accepted answers → (other, otherHandle) ∈ accepted answers →
      market ≠ other →
        handle.entryIndex ≠ otherHandle.entryIndex ∧ handle.stateSlotIndex ≠ otherHandle.stateSlotIndex) ∧
    (∀ market handle, (market, handle) ∈ accepted answers →
      ∃ entry, directoryRecord after.region after.layout handle.entryIndex = .ok entry ∧
        (identityBytes (after.region.bytesAt entry)).bind decodeIdentity = some market) ∧
    ∀ market,
      ((∃ error refused, install market after = .error error refused) ↔
        (∃ handle, (market, handle) ∈ accepted answers) ∨
          config.layout.directoryCapacity ≤ (accepted answers).length ∨ identityCapacity < identityLength market) ∧
      ∀ error refused, install market after = .error error refused → ∀ address,
        after.layout.directoryOffset ≤ address → address < after.layout.stateSlotOffset →
          refused.region.bytes address = after.region.bytes address := by
  obtain ⟨haligned, doorbell, rfl⟩ := create_fresh hlayout hid hgeneration hzero hcreate
  obtain ⟨listed, hlists, hkeeps, haccepted⟩ :=
    (created_lists hlayout region.attachment doorbell).installs markets
  have hvalid := hkeeps.validate hlists.sound hlayout hid hgeneration haligned
  generalize installs markets _ = run at hlists hkeeps haccepted hvalid ⊢
  obtain ⟨answers, after⟩ := run
  dsimp only at hlists hkeeps haccepted hvalid ⊢
  rw [List.nil_append] at hlists
  have hlayoutAfter : after.layout = config.layout := hkeeps.layout
  simp only [haccepted, List.length_nil]
  refine ⟨?_, ?_, ?_, ?_⟩
  · intro mapped hmapped
    refine ⟨⟨mapped.toRegion, config.layout, _⟩, by rw [SegmentReader.attach, hmapped, hvalid]; rfl, ?_⟩
    intro market
    obtain ⟨found, hgives, hsome, hfound⟩ :=
      hlists.resolve ⟨mapped.attachment, config.daemonInstanceId, config.segmentGeneration⟩ market
    rw [← hmapped, hlayoutAfter] at hgives
    refine ⟨found, hgives, hsome.trans exists_mem_handles.symm, ?_⟩
    intro handle hhandle
    obtain ⟨i, hi, rfl⟩ := mem_handles.1 hhandle
    exact hfound i hi
  · rintro market handle other otherHandle hmarket hother hne
    obtain ⟨i, hi, rfl⟩ := mem_handles.1 hmarket
    obtain ⟨j, hj, rfl⟩ := mem_handles.1 hother
    have hij : i ≠ j := by
      rintro rfl
      exact hne (Option.some.inj (hi.symm.trans hj))
    exact ⟨hij, hij⟩
  · rintro market handle hmarket
    obtain ⟨i, hi, rfl⟩ := mem_handles.1 hmarket
    have hindex : i < after.layout.directoryCapacity :=
      Nat.lt_of_lt_of_le (List.getElem?_eq_some_iff.1 hi).1 hlists.length_le
    exact ⟨_, directoryRecord_eq hlists.sound.size hindex, (hlists.names hi).market⟩
  · intro market
    have hdeclines : Declines after.layout listed market ↔
        (∃ handle, (market, handle) ∈ handles (created config region.attachment doorbell).binding 0 listed) ∨
          config.layout.directoryCapacity ≤ (handles (created config region.attachment doorbell).binding 0 listed).length ∨
          identityCapacity < identityLength market := by
      rw [Declines, exists_mem_handles, length_handles, hlayoutAfter]
    rw [← hdeclines]
    rcases hlists.install market with ⟨hdeclines, error, hrun⟩ | ⟨hdeclines, accepted, hrun, -⟩
    · refine ⟨⟨fun _ => hdeclines, fun _ => ⟨error, after, hrun⟩⟩, ?_⟩
      rintro _ _ hrefused address - -
      rw [hrun] at hrefused
      cases hrefused
      rfl
    · refine ⟨⟨?_, fun hdeclined => absurd hdeclined hdeclines⟩, ?_⟩
      · rintro ⟨_, _, hrefused⟩
        rw [hrun] at hrefused
        cases hrefused
      · rintro _ _ hrefused
        rw [hrun] at hrefused
        cases hrefused

end Fresh

/-- One market in a directory for one, asked for twice. -/
theorem example_directory_resolves :
    let config : SegmentConfig := .new ⟨1, 1, 1, 1, 4⟩ 7 1
    let after := (installs [exampleMarket, exampleMarket] (created config 0 .inHeader)).2
    ∃ reader, SegmentReader.attach ⟨after.region, true, 0, .heap⟩ = .ok reader ∧
      Gives after.region.size after.region.bytes (Checked.resolve reader exampleMarket)
        (.ok (some ⟨reader.binding, 0, 0⟩)) := by
  intro config after
  obtain ⟨-, hcreate⟩ := create_zeroed config ⟨⟨config.layout.regionSize, fun _ => 0⟩, true, 0, .heap⟩ (by decide)
    (by decide) (by decide) (by decide) rfl rfl rfl
  have hresolves := (directory_resolves_installed (by decide) (by decide) (by decide) rfl hcreate
    [exampleMarket, exampleMarket]).1
  obtain ⟨reader, hattach, hfound⟩ := hresolves ⟨after.region, true, 0, .heap⟩ rfl
  refine ⟨reader, hattach, ?_⟩
  obtain ⟨found, hgives, -, hhandle⟩ := hfound exampleMarket
  have haccepts := (created_lists (show config.layout.Valid by decide) 0 .inHeader).accepts List.not_mem_nil (by decide)
    (Option.some_get (show (encodeIdentity exampleMarket identityCapacity).isSome by decide)).symm
  have haccepted : (exampleMarket, ⟨⟨0, 7, 1⟩, 0, 0⟩) ∈
      accepted (installs [exampleMarket, exampleMarket] (created config 0 .inHeader)).1 := by
    rw [installs, haccepts]
    exact .head _
  rwa [hhandle _ haccepted] at hgives

end SegmentWriter

end PmWs.Abi
