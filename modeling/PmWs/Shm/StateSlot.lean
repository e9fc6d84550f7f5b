import PmWs.Shm.EventSlot

/-!
# State slots

A state slot carries one published book: its fixed words, and one cell for each
level after them. A publication writes as many level cells as the book has
levels and then the count, so cells of an earlier, deeper book stay in the slot
and are never read.
-/

open MachineInt Memory Fallible

namespace PmWs.Abi

open Codec

def slotRevision : Nat := 0
def slotBookRevision : Nat := 8
def slotContinuityEpoch : Nat := 16
def slotContinuityPosition : Nat := 24
def slotSyncDivergences : Nat := 32
def slotAuthorityState : Nat := 40
def slotAuthorityReason : Nat := 44
def slotContinuityKind : Nat := 48
def slotContinuityReason : Nat := 52
def slotProvenancePresent : Nat := 56
def slotOrigin : Nat := 60
def slotDerivation : Nat := 64
def slotRepresentation : Nat := 68
def slotFamilyLen : Nat := 72
def slotLevelCount : Nat := 76
def slotDirectoryIndex : Nat := 80
def slotCommitTime : Nat := 88
def slotArrivalTime : Nat := 96
def slotFamilyWords : Nat := 128

def lvlPrice : Nat := 0
def lvlQuantity : Nat := 24
def lvlSide : Nat := 48

/-! ## Staging -/

structure LevelWords where
  side : Nat
  price : DecimalWords
  quantity : DecimalWords
  deriving DecidableEq, Repr

structure StagedState where
  bookRevision : Nat
  authorityState : Nat
  authorityReason : Nat
  continuityKind : Nat
  continuityReason : Nat
  continuityEpoch : Nat
  continuityPosition : Nat
  syncDivergences : Nat
  provenancePresent : Nat
  origin : Nat
  derivation : Nat
  representation : Nat
  familyLength : Nat
  familyWords : List Nat
  deriving Inhabited

def levelWords (level : Level) : LevelWords :=
  ⟨sideWord level.side, decimalWords level.price.value, decimalWords level.quantity.value⟩

/-- The words of a book's provenance: whether there is one, its origin, derivation and representation, and its packed
family. -/
def provenanceWords : Option Provenance → Except WriterError (Nat × Nat × Nat × Nat × Nat × List Nat)
  | none => .ok (0, 0, 0, 0, 0, List.replicate nativeFamilyWords 0)
  | some provenance => do
    let family ← packFamily provenance.nativeFamily
    let origin := originWords provenance.origin
    .ok (1, origin.1, origin.2, representationWord provenance.representation, family.1, family.2)

def stage (levelCapacity : Nat) (book : PublishedBook) : Except WriterError (StagedState × List LevelWords) :=
  if book.levels.length > levelCapacity then .error (.levelCapacityExceeded book.levels.length levelCapacity)
  else do
    let authority := authorityWords book.authority
    let (continuityKind, continuityReason, continuityEpoch, continuityPosition) := continuityWords book.continuity
    let (provenancePresent, origin, derivation, representation, familyLength, familyWords) ←
      provenanceWords book.provenance
    .ok
      ({ continuityKind, continuityReason, continuityEpoch, continuityPosition, provenancePresent, origin, derivation,
         representation, familyLength, familyWords
         bookRevision := book.revision
         authorityState := authority.1
         authorityReason := authority.2
         syncDivergences := book.syncDivergences }, book.levels.map levelWords)

theorem stage_length {levelCapacity : Nat} {book : PublishedBook} {staged : StagedState} {levels : List LevelWords}
    (h : stage levelCapacity book = .ok (staged, levels)) : levels.length ≤ levelCapacity := by
  unfold stage at h
  split at h
  · cases h
  · rename_i hdepth
    simp only [bind_eq_ok, Except.ok.injEq, Prod.mk.injEq] at h
    obtain ⟨packed, -, -, rfl⟩ := h
    simpa using hdepth

/-- The two things that keep a book out of a slot are its depth and the text of its family. -/
structure Fits (levelCapacity : Nat) (book : PublishedBook) : Prop where
  depth : book.levels.length ≤ levelCapacity
  family : ∀ p, book.provenance = some p → p.nativeFamily.utf8ByteSize ≤ nativeFamilyWords * 8

theorem stage_eq_ok {levelCapacity : Nat} {book : PublishedBook} :
    (∃ staged, stage levelCapacity book = .ok staged) ↔ Fits levelCapacity book := by
  constructor
  · rintro ⟨staged, h⟩
    unfold stage at h
    split at h
    · cases h
    · rename_i hdepth
      simp only [bind_eq_ok] at h
      obtain ⟨packed, hpacked, -⟩ := h
      refine ⟨Nat.not_lt.1 hdepth, fun p hp => ?_⟩
      simp only [hp, provenanceWords, packFamily, bind_eq_ok, orError_eq_ok] at hpacked
      obtain ⟨family, hfamily, -⟩ := hpacked
      exact (packText_eq_some hfamily).1
  · rintro ⟨hdepth, hfamily⟩
    have hwords : ∃ packed, provenanceWords book.provenance = .ok packed := by
      cases hprovenance : book.provenance with
      | none => exact ⟨_, rfl⟩
      | some p =>
        have hfit := hfamily p hprovenance
        have hpack := packText_fits hfit (hfit.trans (by decide))
        exact ⟨_, by simp only [provenanceWords, packFamily, hpack, orError]; rfl⟩
    obtain ⟨packed, hpacked⟩ := hwords
    rw [stage, if_neg (Nat.not_lt.2 hdepth), hpacked]
    exact ⟨_, rfl⟩

/-! ## Storing -/

/-- The stores of one level, from the base of its cell. -/
def levelStores (words : LevelWords) : List Store :=
  word32 lvlSide words.side :: (storeDecimal lvlPrice words.price ++ storeDecimal lvlQuantity words.quantity)

def prefixStores (commitTime arrivalTime : Nat) (staged : StagedState) : List Store :=
  [word64 slotBookRevision staged.bookRevision, word64 slotContinuityEpoch staged.continuityEpoch,
    word64 slotContinuityPosition staged.continuityPosition, word64 slotSyncDivergences staged.syncDivergences,
    word64 slotCommitTime commitTime, word64 slotArrivalTime arrivalTime] ++
  textStores slotFamilyWords nativeFamilyWords staged.familyWords ++
  [word32 slotAuthorityState staged.authorityState, word32 slotAuthorityReason staged.authorityReason,
    word32 slotContinuityKind staged.continuityKind, word32 slotContinuityReason staged.continuityReason,
    word32 slotProvenancePresent staged.provenancePresent, word32 slotOrigin staged.origin,
    word32 slotDerivation staged.derivation, word32 slotRepresentation staged.representation,
    word32 slotFamilyLen staged.familyLength]

/-- The data words of a state publication, in order. -/
def stateStores (commitTime arrivalTime : Nat) (staged : StagedState) (levels : List LevelWords) : List Store :=
  prefixStores commitTime arrivalTime staged ++
  (arrayStores slotPrefixBytes levelCellBytes (levels.map levelStores) ++ [word32 slotLevelCount levels.length])

/-- The cells of the fixed words, whatever is stored in them. -/
def prefixCells : List Cell := (prefixStores 0 0 default).map Store.toCell

theorem prefixStores_cells (commitTime arrivalTime : Nat) (staged : StagedState) :
    (prefixStores commitTime arrivalTime staged).map Store.toCell = prefixCells := rfl

theorem fixedCells_separate : Separate (prefixCells ++ [⟨slotLevelCount, 4⟩, ⟨slotRevision, 8⟩]) := by decide

theorem fixedCells_inside : ∀ cell ∈ prefixCells ++ [⟨slotLevelCount, 4⟩, ⟨slotRevision, 8⟩],
    cell.offset + cell.width ≤ slotPrefixBytes := by decide

/-- The directory index is written once, when the market is installed. -/
theorem fixedCells_spare : ∀ cell ∈ prefixCells ++ [⟨slotLevelCount, 4⟩, ⟨slotRevision, 8⟩],
    cell.Apart slotDirectoryIndex 4 := by decide

theorem levelStores_cells (words : LevelWords) :
    (levelStores words).map Store.toCell = [⟨48, 4⟩, ⟨0, 8⟩, ⟨8, 8⟩, ⟨16, 4⟩, ⟨24, 8⟩, ⟨32, 8⟩, ⟨40, 4⟩] := rfl

theorem levelStores_tiled (levels : List LevelWords) : Tiled levelCellBytes (levels.map levelStores) := by
  intro record hrecord
  obtain ⟨words, -, rfl⟩ := List.mem_map.1 hrecord
  refine ⟨?_, inside_of_cells ?_⟩ <;> rw [levelStores_cells] <;> decide

/-- No two cells of a publication overlap each other or the slot's revision. -/
theorem stateStores_separate (commitTime arrivalTime : Nat) (staged : StagedState) (levels : List LevelWords)
    (stable : Nat) :
    Separate ((stateStores commitTime arrivalTime staged levels ++ [word64 slotRevision stable]).map Store.toCell) := by
  have htiled := levelStores_tiled levels
  simp only [stateStores, List.map_append, prefixStores_cells, List.append_assoc]
  refine fixedCells_separate.insert (arrayStores_separate htiled slotPrefixBytes) ?_
  -- The level cells start where the fixed words end.
  intro cell hcell other hother
  obtain ⟨store, hstore, rfl⟩ := List.mem_map.1 hcell
  have hlevel := (arrayStores_within htiled slotPrefixBytes store hstore).1
  have hfixed := fixedCells_inside other hother
  exact .inr (Nat.le_trans hfixed hlevel)

/-- A store of a publication is one of the fixed words or lies in the cell of a level. -/
theorem stateStores_cases {commitTime arrivalTime : Nat} {staged : StagedState} {levels : List LevelWords} {store : Store}
    (h : store ∈ stateStores commitTime arrivalTime staged levels) :
    store.toCell ∈ prefixCells ++ [⟨slotLevelCount, 4⟩, ⟨slotRevision, 8⟩] ∨
      slotPrefixBytes ≤ store.offset ∧ store.offset + store.width ≤ slotPrefixBytes + levels.length * levelCellBytes := by
  simp only [stateStores, List.mem_append, List.mem_singleton] at h
  rcases h with hfixed | hlevel | rfl
  · refine .inl (List.mem_append_left _ ?_)
    rw [← prefixStores_cells commitTime arrivalTime staged]
    exact List.mem_map_of_mem hfixed
  · exact .inr (by simpa using arrayStores_within (levelStores_tiled levels) slotPrefixBytes store hlevel)
  · exact .inl (List.mem_append_right _ (.head _))

theorem stateStores_inside (commitTime arrivalTime : Nat) (staged : StagedState) (levels : List LevelWords) :
    ∀ store ∈ stateStores commitTime arrivalTime staged levels,
      store.offset + store.width ≤ slotPrefixBytes + levels.length * levelCellBytes := by
  intro store hstore
  rcases stateStores_cases hstore with hfixed | hlevel
  · exact Nat.le_add_right_of_le (fixedCells_inside _ hfixed)
  · exact hlevel.2

theorem stateStores_spare (commitTime arrivalTime : Nat) (staged : StagedState) (levels : List LevelWords) :
    ∀ store ∈ stateStores commitTime arrivalTime staged levels, store.Apart slotDirectoryIndex 4 := by
  intro store hstore
  rcases stateStores_cases hstore with hfixed | hlevel
  · exact fixedCells_spare _ hfixed
  · exact .inr (Nat.le_trans (show slotDirectoryIndex + 4 ≤ slotPrefixBytes by decide) hlevel.1)

/-! ## Reading -/

structure SlotWords where
  bookRevision : Nat
  commitTime : Nat
  arrivalTime : Nat
  continuityEpoch : Nat
  continuityPosition : Nat
  syncDivergences : Nat
  authorityState : Nat
  authorityReason : Nat
  continuityKind : Nat
  continuityReason : Nat
  provenancePresent : Nat
  origin : Nat
  derivation : Nat
  representation : Nat
  familyLength : Nat
  familyWords : List Nat
  directoryIndex : Nat
  levelCount : Nat
  levels : List LevelWords

def readLevel (cell : Bytes) : LevelWords := ⟨load cell lvlSide 4, readDecimal cell lvlPrice, readDecimal cell lvlQuantity⟩

def readWords (slot : Bytes) (capacity : Nat) : SlotWords where
  bookRevision := load slot slotBookRevision 8
  commitTime := load slot slotCommitTime 8
  arrivalTime := load slot slotArrivalTime 8
  continuityEpoch := load slot slotContinuityEpoch 8
  continuityPosition := load slot slotContinuityPosition 8
  syncDivergences := load slot slotSyncDivergences 8
  authorityState := load slot slotAuthorityState 4
  authorityReason := load slot slotAuthorityReason 4
  continuityKind := load slot slotContinuityKind 4
  continuityReason := load slot slotContinuityReason 4
  provenancePresent := load slot slotProvenancePresent 4
  origin := load slot slotOrigin 4
  derivation := load slot slotDerivation 4
  representation := load slot slotRepresentation 4
  familyLength := load slot slotFamilyLen 4
  familyWords := readTextWords slot slotFamilyWords nativeFamilyWords
  directoryIndex := load slot slotDirectoryIndex 4
  levelCount := load slot slotLevelCount 4
  levels := (List.range (min (load slot slotLevelCount 4) capacity)).map fun position =>
    readLevel (view slot (slotPrefixBytes + position * levelCellBytes))

/-! ## Decoding -/

structure BookSnapshot where
  market : MarketRef
  revision : Nat
  authority : AuthorityState
  continuity : MutationContinuity
  syncDivergences : Nat
  commitTime : Nat
  arrivalTime : Nat
  publication : Option PublicationOrigin
  levels : List Level
  deriving DecidableEq

def decodeLevel (words : LevelWords) : Option Level := do
  let side ← side words.side
  let price ← price words.price.low words.price.high words.price.scale
  let quantity ← quantity words.quantity.low words.quantity.high words.quantity.scale
  some ⟨side, price, quantity⟩

def decodePublication (words : SlotWords) : Option (Option PublicationOrigin) :=
  match words.provenancePresent with
  | 0 => some none
  | 1 => do
    let origin ← origin words.origin words.derivation
    let representation ← representation words.representation
    let nativeFamily ← storedText nativeFamilyWords words.familyLength words.familyWords
    some (some ⟨origin, representation, nativeFamily⟩)
  | _ => none

def decode (market : MarketRef) (words : SlotWords) : Option BookSnapshot := do
  let publication ← decodePublication words
  let levels ← words.levels.mapM decodeLevel
  let authority ← authorityState words.authorityState words.authorityReason
  let continuity ←
    continuity words.continuityKind words.continuityReason words.continuityEpoch words.continuityPosition
  some
    { market, authority, continuity, publication, levels
      revision := words.bookRevision
      syncDivergences := words.syncDivergences
      commitTime := words.commitTime
      arrivalTime := words.arrivalTime }

/-! ## The round trip -/

/-- What a reader is to see of a book. -/
def BookSnapshot.of (commitTime arrivalTime : Nat) (book : PublishedBook) : BookSnapshot where
  market := book.market
  revision := book.revision
  authority := book.authority
  continuity := book.continuity
  syncDivergences := book.syncDivergences
  commitTime := commitTime
  arrivalTime := arrivalTime
  publication := book.provenance.map fun p => ⟨p.origin, p.representation, p.nativeFamily⟩
  levels := book.levels

/-- The numbers stored with a book are `u64` values, as their types in the source say. -/
structure BookFits (commitTime arrivalTime : Nat) (book : PublishedBook) : Prop where
  revision : book.revision ≤ u64Max
  continuity : (continuityWords book.continuity).2.2.1 ≤ u64Max ∧ (continuityWords book.continuity).2.2.2 ≤ u64Max
  divergences : book.syncDivergences ≤ u64Max
  commitTime : commitTime ≤ u64Max
  arrivalTime : arrivalTime ≤ u64Max

section
variable {slot : Bytes}

/-- One level read out of its cell. -/
theorem decodeLevel_read {cell : Bytes} {level : Level} (h : Holds cell (levelStores (levelWords level))) :
    decodeLevel (readLevel cell) = some level := by
  simp only [levelStores, holds_cons, holds_append, word32] at h
  obtain ⟨hside, hprice, hquantity⟩ := h
  simp only [decodeLevel, readLevel, hside, readDecimal_eq hprice, readDecimal_eq hquantity, levelWords, side_word,
    price_words, quantity_words, Option.bind_eq_bind, Option.bind_some]

/-- The levels of a slot, in their order, whatever cells lie past them. -/
theorem decode_levels {levels : List Level} {base : Nat}
    (h : Holds slot (arrayStores base levelCellBytes ((levels.map levelWords).map levelStores))) :
    ((List.range levels.length).map fun position => readLevel (view slot (base + position * levelCellBytes))).mapM
      decodeLevel = some levels := by
  induction levels generalizing base with
  | nil => rfl
  | cons level levels ih =>
    obtain ⟨hfirst, hrest⟩ := holds_append.1 h
    have hhead := decodeLevel_read (holds_shift.1 hfirst)
    have htail := ih hrest
    have hnext : (fun position => readLevel (view slot (base + position * levelCellBytes))) ∘ Nat.succ =
        fun position => readLevel (view slot (base + levelCellBytes + position * levelCellBytes)) := by
      funext position
      simp only [Function.comp, Nat.succ_mul]
      congr 2
      omega
    rw [List.length_cons, List.range_succ_eq_map, List.map_cons, List.map_map, hnext, List.mapM_cons, htail, Nat.zero_mul,
      Nat.add_zero, hhead]
    rfl

theorem decodePublication_read {provenance : Option Provenance} {packed : Nat × Nat × Nat × Nat × Nat × List Nat}
    {w : SlotWords} (hpacked : provenanceWords provenance = .ok packed)
    (hpresent : w.provenancePresent = packed.1 % 256 ^ 4) (horigin : w.origin = packed.2.1 % 256 ^ 4)
    (hderivation : w.derivation = packed.2.2.1 % 256 ^ 4)
    (hrepresentation : w.representation = packed.2.2.2.1 % 256 ^ 4)
    (hlength : w.familyLength = packed.2.2.2.2.1 % 256 ^ 4)
    (hfamily : w.familyWords = readTextWords slot slotFamilyWords nativeFamilyWords)
    (hcells : Holds slot (textStores slotFamilyWords nativeFamilyWords packed.2.2.2.2.2)) :
    decodePublication w = some (provenance.map fun p => ⟨p.origin, p.representation, p.nativeFamily⟩) := by
  cases provenance with
  | none =>
    cases hpacked
    simp only [decodePublication, hpresent]
    rfl
  | some p =>
    simp only [provenanceWords, packFamily, bind_eq_ok, orError_eq_ok, Except.ok.injEq] at hpacked
    obtain ⟨family, hpack, rfl⟩ := hpacked
    have htext := storedText_read hpack hcells
    have hone : (1 : Nat) % 256 ^ 4 = 1 := rfl
    simp only [decodePublication, hpresent, hone, horigin, hderivation, hrepresentation, hlength, hfamily, htext,
      origin_words, representation_word, Option.bind_eq_bind, Option.bind_some, Option.map_some]

/-- A slot that holds the words of a book decodes to it, whatever else is in the slot. -/
theorem decode_state {capacity commitTime arrivalTime : Nat} {book : PublishedBook} {staged : StagedState}
    {levels : List LevelWords} (hstaged : stage capacity book = .ok (staged, levels)) (hcapacity : capacity ≤ u32Max)
    (hfits : BookFits commitTime arrivalTime book)
    (hcells : Holds slot (stateStores commitTime arrivalTime staged levels)) :
    (readWords slot capacity).levelCount ≤ capacity ∧
      decode book.market (readWords slot capacity) = some (.of commitTime arrivalTime book) := by
  unfold stage at hstaged
  split at hstaged
  · cases hstaged
  · rename_i hdepth
    simp only [bind_eq_ok, Except.ok.injEq, Prod.mk.injEq] at hstaged
    obtain ⟨packed, hpacked, rfl, rfl⟩ := hstaged
    simp only [stateStores, prefixStores, holds_append, holds_cons, word64, word32] at hcells
    obtain ⟨⟨⟨⟨hrevision, hepoch, hposition, hdivergences, hcommit, harrival, -⟩, hwords⟩, hauthority, hreason, hkind,
      hbreak, hpresent, horigin, hderivation, hrepresentation, hlength, -⟩, hlevels, hcount, -⟩ := hcells
    rw [mod_u64 hfits.revision] at hrevision
    rw [mod_u64 hfits.continuity.1] at hepoch
    rw [mod_u64 hfits.continuity.2] at hposition
    rw [mod_u64 hfits.divergences] at hdivergences
    rw [mod_u64 hfits.commitTime] at hcommit
    rw [mod_u64 hfits.arrivalTime] at harrival
    have hdepth : book.levels.length ≤ capacity := Nat.le_of_not_lt hdepth
    rw [List.length_map, mod_u32 (hdepth.trans hcapacity)] at hcount
    have hpublication := decodePublication_read (w := readWords slot capacity) hpacked hpresent horigin hderivation
      hrepresentation hlength rfl hwords
    have hread : (readWords slot capacity).levels.mapM decodeLevel = some book.levels := by
      simp only [readWords, hcount, Nat.min_eq_left hdepth]
      exact decode_levels hlevels
    refine ⟨by simpa only [readWords, hcount] using hdepth, ?_⟩
    simp only [decode, hpublication, hread, Option.bind_eq_bind, Option.bind_some]
    simp only [readWords, hrevision, hepoch, hposition, hdivergences, hcommit, harrival, hauthority, hreason, hkind, hbreak,
      authorityState_words, continuity_words, Option.bind_some, BookSnapshot.of]

end

end PmWs.Abi
