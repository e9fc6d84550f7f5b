import PmWs.Shm.Codec
import PmWs.Shm.Layout

/-!
# Event slots

A slot of an event ring carries one level change or one resolution. The two
kinds share their first words and overlay the rest: each writes its own cells
and leaves the others as they were, and the kind word tells a reader which
cells to copy.
-/

open MachineInt Memory Fallible

namespace PmWs

/-- Why a publication or an installation is refused. -/
inductive WriterError where
  | segment
  | directoryFull
  | identityTooLong
  | marketAlreadyInstalled
  | unknownHandle
  | marketMismatch
  | levelCapacityExceeded (levels capacity : Nat)
  | nativeFamilyTooLong
  | winningOutcomeTooLong
  | winningOutcomeNotText
  | marketTypeTooLong
  | resolutionDateTooLong
  | unsupportedDeliveryPath
  | emptyMutation
  | counterOverflow
  | segmentAlreadyInstalled
  | regionSizeMismatch (expected actual : Nat)
  | segmentAlreadyFormatted
  | regionNotWritable
  | doorbellPage
  | doorbellPageOccupied
  | doorbellPageUnavailable
  deriving DecidableEq, Repr

def NativeOutcome.textValue : NativeOutcome → Option String
  | .text _ value => some value.value
  | .index _ => none

namespace Abi

open Codec

def evtSequence : Nat := 0
def evtCursorEpoch : Nat := 8
def evtCursorPosition : Nat := 16
def evtBookRevision : Nat := 24
def evtCommitTime : Nat := 32
def evtDeliveryKind : Nat := 40
def evtOrigin : Nat := 44
def evtDerivation : Nat := 48
def evtRepresentation : Nat := 52
def evtSide : Nat := 56
def evtOldPresent : Nat := 60
def evtNewPresent : Nat := 64
def evtFamilyLen : Nat := 68
def evtDirectoryIndex : Nat := 72
def evtDaemonGeneration : Nat := 80
def evtSubscriptionGeneration : Nat := 88
def evtPrice : Nat := 96
def evtOldQuantity : Nat := 120
def evtNewQuantity : Nat := 144
def evtFamilyWords : Nat := 168
def evtArrivalTime : Nat := 232

def evtResWinningIndex : Nat := 56
def evtResDeliveryPath : Nat := 60
def evtResOutcomeLen : Nat := 64
def evtResTypeLen : Nat := 68
def evtResDateLen : Nat := 96
def evtResOutcome : Nat := 104
def evtResType : Nat := 168
def evtResDate : Nat := 200

def nativeFamilyWords : Nat := 8
def resOutcomeWords : Nat := 8
def resTypeWords : Nat := 4
def resDateWords : Nat := 4

def deliveryLevelMutation : Nat := 1
def deliveryMarketResolved : Nat := 3

/-! ## Staging -/

structure StagedMutation where
  origin : Nat
  derivation : Nat
  representation : Nat
  side : Nat
  oldPresent : Nat
  newPresent : Nat
  familyLength : Nat
  familyWords : List Nat
  daemonGeneration : Nat
  subscriptionGeneration : Nat
  price : DecimalWords
  oldQuantity : DecimalWords
  newQuantity : DecimalWords
  deriving Inhabited

structure StagedResolution where
  origin : Nat
  derivation : Nat
  representation : Nat
  winningIndex : Nat
  deliveryPath : Nat
  outcomeLength : Nat
  typeLength : Nat
  dateLength : Nat
  outcomeWords : List Nat
  typeWords : List Nat
  dateWords : List Nat
  daemonGeneration : Nat
  subscriptionGeneration : Nat
  deriving Inhabited

def packFamily (family : String) : Except WriterError (Nat × List Nat) :=
  orError (Codec.packText nativeFamilyWords family) .nativeFamilyTooLong

/-- An absent half stores zeros. -/
def quantityWords : Option Level → DecimalWords
  | none => ⟨0, 0, 0⟩
  | some level => decimalWords level.quantity.value

def stageMutation (mutation : BookMutation) : Except WriterError StagedMutation := do
  let coordinate ← orError (mutation.replacement.or mutation.old) .emptyMutation
  let provenance := mutation.provenance
  let family ← packFamily provenance.nativeFamily
  .ok
    { origin := (originWords provenance.origin).1
      derivation := (originWords provenance.origin).2
      representation := representationWord provenance.representation
      side := sideWord coordinate.side
      oldPresent := mutation.old.isSome.toNat
      newPresent := mutation.replacement.isSome.toNat
      familyLength := family.1
      familyWords := family.2
      daemonGeneration := provenance.daemonGeneration
      subscriptionGeneration := provenance.subscriptionGeneration
      price := decimalWords coordinate.price.value
      oldQuantity := quantityWords mutation.old
      newQuantity := quantityWords mutation.replacement }

def stageResolution (resolution : MarketResolution) : Except WriterError StagedResolution := do
  let provenance := resolution.provenance
  let outcome ← orError resolution.winner.textValue .winningOutcomeNotText
  let outcome ← orError (Codec.packText resOutcomeWords outcome) .winningOutcomeTooLong
  let label ← orError (Codec.packText resTypeWords resolution.nativeLabel.value) .marketTypeTooLong
  let date ← orError (Codec.packText resDateWords resolution.resolutionDate.value) .resolutionDateTooLong
  let path ← orError (deliveryPathWord resolution.deliveryPath) .unsupportedDeliveryPath
  .ok
    { origin := (originWords provenance.origin).1
      derivation := (originWords provenance.origin).2
      representation := representationWord provenance.representation
      winningIndex := resolution.winningIndex.toNat
      deliveryPath := path
      outcomeLength := outcome.1
      typeLength := label.1
      dateLength := date.1
      outcomeWords := outcome.2
      typeWords := label.2
      dateWords := date.2
      daemonGeneration := provenance.daemonGeneration
      subscriptionGeneration := provenance.subscriptionGeneration }

/-! ## Storing -/

section Stores
variable (index revision : Nat) (cursor : MutationCursor) (commitTime arrivalTime : Nat)

/-- The data words of a mutation's publication, in order. -/
def mutationStores (staged : StagedMutation) : List Store :=
  [word64 evtCursorEpoch cursor.epoch, word64 evtCursorPosition cursor.position, word64 evtBookRevision revision,
    word64 evtCommitTime commitTime, word64 evtArrivalTime arrivalTime,
    word64 evtDaemonGeneration staged.daemonGeneration,
    word64 evtSubscriptionGeneration staged.subscriptionGeneration] ++
  textStores evtFamilyWords nativeFamilyWords staged.familyWords ++
  [word32 evtDeliveryKind deliveryLevelMutation, word32 evtOrigin staged.origin, word32 evtDerivation staged.derivation,
    word32 evtRepresentation staged.representation, word32 evtSide staged.side,
    word32 evtOldPresent staged.oldPresent, word32 evtNewPresent staged.newPresent,
    word32 evtFamilyLen staged.familyLength, word32 evtDirectoryIndex index] ++
  storeDecimal evtPrice staged.price ++ storeDecimal evtOldQuantity staged.oldQuantity ++
  storeDecimal evtNewQuantity staged.newQuantity

/-- The data words of a resolution's publication, in order. -/
def resolutionStores (staged : StagedResolution) : List Store :=
  [word64 evtCursorEpoch cursor.epoch, word64 evtCursorPosition cursor.position, word64 evtBookRevision revision,
    word64 evtCommitTime commitTime, word64 evtArrivalTime arrivalTime,
    word64 evtDaemonGeneration staged.daemonGeneration,
    word64 evtSubscriptionGeneration staged.subscriptionGeneration] ++
  textStores evtResOutcome resOutcomeWords staged.outcomeWords ++
  textStores evtResType resTypeWords staged.typeWords ++
  textStores evtResDate resDateWords staged.dateWords ++
  [word32 evtDeliveryKind deliveryMarketResolved, word32 evtOrigin staged.origin,
    word32 evtDerivation staged.derivation, word32 evtRepresentation staged.representation,
    word32 evtResWinningIndex staged.winningIndex, word32 evtResDeliveryPath staged.deliveryPath,
    word32 evtResOutcomeLen staged.outcomeLength, word32 evtResTypeLen staged.typeLength,
    word32 evtResDateLen staged.dateLength, word32 evtDirectoryIndex index]

end Stores

/-- The cells a mutation is stored in, whatever it is. -/
def mutationCells : List Cell := (mutationStores 0 0 ⟨0, 0⟩ 0 0 default).map Store.toCell

def resolutionCells : List Cell := (resolutionStores 0 0 ⟨0, 0⟩ 0 0 default).map Store.toCell

theorem mutationStores_cells (index revision : Nat) (cursor : MutationCursor) (commitTime arrivalTime : Nat)
    (staged : StagedMutation) :
    (mutationStores index revision cursor commitTime arrivalTime staged).map Store.toCell = mutationCells := rfl

theorem resolutionStores_cells (index revision : Nat) (cursor : MutationCursor) (commitTime arrivalTime : Nat)
    (staged : StagedResolution) :
    (resolutionStores index revision cursor commitTime arrivalTime staged).map Store.toCell = resolutionCells := rfl

/-- No two cells of one kind overlap each other or the sequence. -/
theorem mutationCells_separate : Separate (mutationCells ++ [⟨evtSequence, 8⟩]) := by decide

theorem resolutionCells_separate : Separate (resolutionCells ++ [⟨evtSequence, 8⟩]) := by decide

theorem mutationCells_inside : ∀ cell ∈ mutationCells, cell.offset + cell.width ≤ eventSlotBytes := by decide

theorem resolutionCells_inside : ∀ cell ∈ resolutionCells, cell.offset + cell.width ≤ eventSlotBytes := by decide

/-! ## Reading -/

structure SharedEventWords where
  cursorEpoch : Nat
  cursorPosition : Nat
  bookRevision : Nat
  commitTime : Nat
  arrivalTime : Nat
  daemonGeneration : Nat
  subscriptionGeneration : Nat
  origin : Nat
  derivation : Nat
  representation : Nat
  directoryIndex : Nat

structure MutationWords where
  side : Nat
  oldPresent : Nat
  newPresent : Nat
  familyLength : Nat
  familyWords : List Nat
  price : DecimalWords
  oldQuantity : DecimalWords
  newQuantity : DecimalWords

structure ResolutionWords where
  winningIndex : Nat
  deliveryPath : Nat
  outcomeLength : Nat
  typeLength : Nat
  dateLength : Nat
  outcomeWords : List Nat
  typeWords : List Nat
  dateWords : List Nat

inductive EventBody where
  | mutation (words : MutationWords)
  | resolution (words : ResolutionWords)
  | unknown

structure EventWords where
  shared : SharedEventWords
  body : EventBody

def readMutationWords (slot : Bytes) : MutationWords where
  side := load slot evtSide 4
  oldPresent := load slot evtOldPresent 4
  newPresent := load slot evtNewPresent 4
  familyLength := load slot evtFamilyLen 4
  familyWords := readTextWords slot evtFamilyWords nativeFamilyWords
  price := readDecimal slot evtPrice
  oldQuantity := readDecimal slot evtOldQuantity
  newQuantity := readDecimal slot evtNewQuantity

def readResolutionWords (slot : Bytes) : ResolutionWords where
  winningIndex := load slot evtResWinningIndex 4
  deliveryPath := load slot evtResDeliveryPath 4
  outcomeLength := load slot evtResOutcomeLen 4
  typeLength := load slot evtResTypeLen 4
  dateLength := load slot evtResDateLen 4
  outcomeWords := readTextWords slot evtResOutcome resOutcomeWords
  typeWords := readTextWords slot evtResType resTypeWords
  dateWords := readTextWords slot evtResDate resDateWords

def readEventWords (slot : Bytes) : EventWords where
  shared :=
    { cursorEpoch := load slot evtCursorEpoch 8
      cursorPosition := load slot evtCursorPosition 8
      bookRevision := load slot evtBookRevision 8
      commitTime := load slot evtCommitTime 8
      arrivalTime := load slot evtArrivalTime 8
      daemonGeneration := load slot evtDaemonGeneration 8
      subscriptionGeneration := load slot evtSubscriptionGeneration 8
      origin := load slot evtOrigin 4
      derivation := load slot evtDerivation 4
      representation := load slot evtRepresentation 4
      directoryIndex := load slot evtDirectoryIndex 4 }
  body :=
    if load slot evtDeliveryKind 4 = deliveryLevelMutation then .mutation (readMutationWords slot)
    else if load slot evtDeliveryKind 4 = deliveryMarketResolved then .resolution (readResolutionWords slot)
    else .unknown

/-! ## Decoding -/

structure PublicationOrigin where
  origin : Origin
  representation : Representation
  nativeFamily : String
  deriving DecidableEq

structure ResolutionPublication where
  origin : Origin
  representation : Representation
  deriving DecidableEq

structure MutationEvent where
  market : MarketRef
  revision : Nat
  cursor : MutationCursor
  commitTime : Nat
  arrivalTime : Nat
  publication : PublicationOrigin
  side : Side
  price : Price
  oldQuantity : Option Quantity
  newQuantity : Option Quantity
  daemonGeneration : Nat
  subscriptionGeneration : Nat
  deriving DecidableEq

structure ResolutionEvent where
  market : MarketRef
  revision : Nat
  cursor : MutationCursor
  commitTime : Nat
  arrivalTime : Nat
  publication : ResolutionPublication
  winningIndex : Nat
  deliveryPath : DeliveryPath
  winningOutcome : String
  marketType : String
  resolutionDate : String
  daemonGeneration : Nat
  subscriptionGeneration : Nat
  deriving DecidableEq

inductive RetainedEvent where
  | mutation (event : MutationEvent)
  | resolution (event : ResolutionEvent)
  deriving DecidableEq

/-- A presence word. -/
def present : Nat → Option Bool
  | 0 => some false
  | 1 => some true
  | _ => none

/-- The quantity of one half of a change, when its presence word says it is there. -/
def storedQuantity (present : Bool) (words : DecimalWords) : Option (Option Quantity) :=
  if present then (quantity words.low words.high words.scale).map some else some none

def decodeEvent (market : MarketRef) (cursor : MutationCursor) (words : EventWords) : Option RetainedEvent :=
  let shared := words.shared
  match words.body with
  | .mutation body => do
    let oldPresent ← present body.oldPresent
    let newPresent ← present body.newPresent
    if !oldPresent && !newPresent then none
    else
      let origin ← origin shared.origin shared.derivation
      let representation ← representation shared.representation
      let nativeFamily ← storedText nativeFamilyWords body.familyLength body.familyWords
      let side ← side body.side
      let price ← price body.price.low body.price.high body.price.scale
      let oldQuantity ← storedQuantity oldPresent body.oldQuantity
      let newQuantity ← storedQuantity newPresent body.newQuantity
      some (.mutation
        { market, cursor, side, price, oldQuantity, newQuantity
          revision := shared.bookRevision
          commitTime := shared.commitTime
          arrivalTime := shared.arrivalTime
          publication := ⟨origin, representation, nativeFamily⟩
          daemonGeneration := shared.daemonGeneration
          subscriptionGeneration := shared.subscriptionGeneration })
  | .resolution body => do
    let origin ← origin shared.origin shared.derivation
    let representation ← representation shared.representation
    let deliveryPath ← deliveryPath body.deliveryPath
    let winningOutcome ← storedText resOutcomeWords body.outcomeLength body.outcomeWords
    let marketType ← storedText resTypeWords body.typeLength body.typeWords
    let resolutionDate ← storedText resDateWords body.dateLength body.dateWords
    some (.resolution
      { market, cursor, deliveryPath, winningOutcome, marketType, resolutionDate
        revision := shared.bookRevision
        commitTime := shared.commitTime
        arrivalTime := shared.arrivalTime
        publication := ⟨origin, representation⟩
        winningIndex := body.winningIndex
        daemonGeneration := shared.daemonGeneration
        subscriptionGeneration := shared.subscriptionGeneration })
  | .unknown => none

/-! ## The round trip -/

/-- The event a reader is to see of a level change. -/
def MutationEvent.of (revision : Nat) (cursor : MutationCursor) (commitTime arrivalTime : Nat)
    (mutation : BookMutation) : MutationEvent where
  market := mutation.provenance.market
  revision := revision
  cursor := cursor
  commitTime := commitTime
  arrivalTime := arrivalTime
  publication := ⟨mutation.provenance.origin, mutation.provenance.representation, mutation.provenance.nativeFamily⟩
  side := mutation.coordinate.1
  price := mutation.coordinate.2
  oldQuantity := mutation.old.map Level.quantity
  newQuantity := mutation.replacement.map Level.quantity
  daemonGeneration := mutation.provenance.daemonGeneration
  subscriptionGeneration := mutation.provenance.subscriptionGeneration

/-- The event a reader is to see of a resolution whose winner is named by `outcome`. -/
def ResolutionEvent.of (revision : Nat) (cursor : MutationCursor) (commitTime arrivalTime : Nat)
    (resolution : MarketResolution) (outcome : String) : ResolutionEvent where
  market := resolution.provenance.market
  revision := revision
  cursor := cursor
  commitTime := commitTime
  arrivalTime := arrivalTime
  publication := ⟨resolution.provenance.origin, resolution.provenance.representation⟩
  winningIndex := resolution.winningIndex.toNat
  deliveryPath := resolution.deliveryPath
  winningOutcome := outcome
  marketType := resolution.nativeLabel.value
  resolutionDate := resolution.resolutionDate.value
  daemonGeneration := resolution.provenance.daemonGeneration
  subscriptionGeneration := resolution.provenance.subscriptionGeneration

/-- The numbers stored with an event are `u64` values, as their types in the source say. -/
structure EventFits (revision : Nat) (cursor : MutationCursor) (commitTime arrivalTime : Nat)
    (provenance : Provenance) : Prop where
  revision : revision ≤ u64Max
  epoch : cursor.epoch ≤ u64Max
  position : cursor.position ≤ u64Max
  commitTime : commitTime ≤ u64Max
  arrivalTime : arrivalTime ≤ u64Max
  daemon : provenance.daemonGeneration ≤ u64Max
  subscription : provenance.subscriptionGeneration ≤ u64Max

theorem mod_u64 {value : Nat} (h : value ≤ u64Max) : value % 256 ^ 8 = value :=
  Nat.mod_eq_of_lt (by unfold u64Max at h; omega)

theorem mod_u32 {value : Nat} (h : value ≤ u32Max) : value % 256 ^ 4 = value :=
  Nat.mod_eq_of_lt (by unfold u32Max at h; omega)

theorem present_isSome (level : Option Level) : present (level.isSome.toNat % 256 ^ 4) = some level.isSome := by
  cases level <;> rfl

/-- Each half of a change reads back as it was, absent or present. -/
theorem storedQuantity_words (level : Option Level) :
    storedQuantity level.isSome
      ⟨(quantityWords level).low % 256 ^ 8, (quantityWords level).high % 256 ^ 8,
        (quantityWords level).scale % 256 ^ 4⟩ = some (level.map Level.quantity) := by
  cases level with
  | none => rfl
  | some level =>
    simp only [storedQuantity, quantityWords, Option.isSome_some, if_true, quantity_words, Option.map_some]

theorem BookMutation.coordinate_eq {mutation : BookMutation} {level : Level}
    (h : mutation.replacement.or mutation.old = some level) : mutation.coordinate = (level.side, level.price) := by
  simp only [BookMutation.coordinate, h, Option.get_some, Level.coordinate]

section
variable {slot : Bytes} {index revision : Nat} {cursor : MutationCursor} {commitTime arrivalTime : Nat}

/-- A slot that holds the words of a mutation decodes to it, whatever else is in the slot. -/
theorem decodeEvent_mutation {mutation : BookMutation} {staged : StagedMutation}
    (hstaged : stageMutation mutation = .ok staged) (hindex : index ≤ u32Max)
    (hfits : EventFits revision cursor commitTime arrivalTime mutation.provenance)
    (hcells : Holds slot (mutationStores index revision cursor commitTime arrivalTime staged)) :
    (readEventWords slot).shared.cursorEpoch = cursor.epoch ∧
      (readEventWords slot).shared.cursorPosition = cursor.position ∧
      (readEventWords slot).shared.directoryIndex = index ∧
      decodeEvent mutation.provenance.market cursor (readEventWords slot) =
        some (.mutation (.of revision cursor commitTime arrivalTime mutation)) := by
  simp only [stageMutation, packFamily, bind_eq_ok, orError_eq_ok, Except.ok.injEq] at hstaged
  obtain ⟨coordinate, hcoordinate, family, hfamily, rfl⟩ := hstaged
  simp only [mutationStores, holds_append, holds_cons, word64, word32, mod_u64 hfits.epoch, mod_u64 hfits.position,
    mod_u64 hfits.revision, mod_u64 hfits.commitTime, mod_u64 hfits.arrivalTime, mod_u64 hfits.daemon,
    mod_u64 hfits.subscription, mod_u32 hindex] at hcells
  obtain ⟨⟨⟨⟨⟨⟨hepoch, hposition, hrevision, hcommit, harrival, hdaemon, hsubscription, -⟩, hwords⟩, hkind, horigin,
    hderivation, hrepresentation, hside, hold, hnew, hlength, hdirectory, -⟩, hprice⟩, holdQuantity⟩,
    hnewQuantity⟩ := hcells
  have hbody : (readEventWords slot).body = .mutation (readMutationWords slot) := if_pos (by rw [hkind]; rfl)
  refine ⟨hepoch, hposition, hdirectory, ?_⟩
  have htext := storedText_read hfamily hwords
  have hsome : mutation.old.isSome = true ∨ mutation.replacement.isSome = true := by
    rcases mutation.nonempty with h | h
    · exact .inl (Option.isSome_iff_ne_none.2 h)
    · exact .inr (Option.isSome_iff_ne_none.2 h)
  have hpresent : (!mutation.old.isSome && !mutation.replacement.isSome) = false := by
    rcases hsome with h | h <;> simp [h]
  simp only [decodeEvent, hbody]
  simp only [readEventWords, readMutationWords, hrevision, hcommit, harrival, hdaemon, hsubscription, horigin,
    hderivation, hrepresentation, hside, hold, hnew, hlength, readDecimal_eq hprice, readDecimal_eq holdQuantity,
    readDecimal_eq hnewQuantity, htext, present_isSome, storedQuantity_words, origin_words, representation_word,
    side_word, price_words, Option.bind_eq_bind, Option.bind_some, hpresent]
  simp only [Bool.false_eq_true, if_false, MutationEvent.of, BookMutation.coordinate_eq hcoordinate]

/-- A slot that holds the words of a resolution decodes to it, whatever else is in the slot. -/
theorem decodeEvent_resolution {resolution : MarketResolution} {staged : StagedResolution}
    (hstaged : stageResolution resolution = .ok staged) (hindex : index ≤ u32Max)
    (hfits : EventFits revision cursor commitTime arrivalTime resolution.provenance)
    (hcells : Holds slot (resolutionStores index revision cursor commitTime arrivalTime staged)) :
    (readEventWords slot).shared.cursorEpoch = cursor.epoch ∧
      (readEventWords slot).shared.cursorPosition = cursor.position ∧
      (readEventWords slot).shared.directoryIndex = index ∧
      ∃ outcome, resolution.winner.textValue = some outcome ∧
        decodeEvent resolution.provenance.market cursor (readEventWords slot) =
          some (.resolution (.of revision cursor commitTime arrivalTime resolution outcome)) := by
  simp only [stageResolution, bind_eq_ok, orError_eq_ok, Except.ok.injEq] at hstaged
  obtain ⟨outcome, houtcome, packed, hpacked, label, hlabel, date, hdate, path, hpath, rfl⟩ := hstaged
  simp only [resolutionStores, holds_append, holds_cons, word64, word32, mod_u64 hfits.epoch, mod_u64 hfits.position,
    mod_u64 hfits.revision, mod_u64 hfits.commitTime, mod_u64 hfits.arrivalTime, mod_u64 hfits.daemon,
    mod_u64 hfits.subscription, mod_u32 hindex] at hcells
  obtain ⟨⟨⟨⟨⟨hepoch, hposition, hrevision, hcommit, harrival, hdaemon, hsubscription, -⟩, houtcomeWords⟩, htypeWords⟩,
    hdateWords⟩, hkind, horigin, hderivation, hrepresentation, hwinning, hdelivery, houtcomeLength, htypeLength,
    hdateLength, hdirectory, -⟩ := hcells
  rw [mod_u32 (Nat.le_of_lt_succ resolution.winningIndex.toNat_lt)] at hwinning
  have hbody : (readEventWords slot).body = .resolution (readResolutionWords slot) := by
    simp only [readEventWords, hkind]
    rfl
  refine ⟨hepoch, hposition, hdirectory, outcome, houtcome, ?_⟩
  simp only [decodeEvent, hbody]
  simp only [readEventWords, readResolutionWords, hrevision, hcommit, harrival, hdaemon, hsubscription, horigin,
    hderivation, hrepresentation, hwinning, hdelivery, houtcomeLength, htypeLength, hdateLength,
    storedText_read hpacked houtcomeWords, storedText_read hlabel htypeWords, storedText_read hdate hdateWords,
    origin_words, representation_word, deliveryPath_word hpath, Option.bind_eq_bind, Option.bind_some,
    ResolutionEvent.of]

end

end Abi

end PmWs
