import PmWs.Lib.Memory
import PmWs.Lib.Packing
import PmWs.Numeric.Value
import PmWs.Observer

/-!
# The words of a record

Everything a slot carries is encoded in words of fixed width: discriminants,
the halves of a decimal's coefficient, text packed eight bytes to a word, and a
market's identity as bytes. Each decoder gives back what its encoder was given,
also when the words went through 32-bit and 64-bit cells.
-/

open MachineInt Memory

namespace PmWs

/-! ## Decimals from their parts -/

/-- `as i128`. -/
def asI128 (magnitude : Nat) : Int := Int.bmod magnitude (2 ^ 128)

theorem asI128_inI128 (magnitude : Nat) : InI128 (asI128 magnitude) := by
  have hlow := Int.le_bmod (x := magnitude) (m := 2 ^ 128) (by decide)
  have hhigh := Int.bmod_lt (x := magnitude) (m := 2 ^ 128) (by decide)
  unfold asI128
  exact ⟨by simpa using hlow, by simpa using hhigh⟩

theorem asI128_of_lt {magnitude : Nat} (h : magnitude < 2 ^ 127) : asI128 magnitude = magnitude := by
  unfold asI128
  rw [Int.bmod_def]
  omega

/-- `ExactDecimal::from_parts`. -/
def ExactDecimal.fromParts (coefficientLow coefficientHigh scale : Nat) (grammar : DecimalGrammar) :
    Except DecimalError ExactDecimal :=
  let magnitude := coefficientHigh <<< 64 ||| coefficientLow
  normalize (asI128 magnitude) (scale % 2 ^ 16) (asI128_inI128 magnitude)
    (by have := Nat.mod_lt scale (show 0 < 2 ^ 16 by decide); unfold u16Max; omega) grammar

theorem ExactDecimal.fromParts_nonneg {low high scale : Nat} {grammar : DecimalGrammar} {d : ExactDecimal}
    (hgrammar : grammar.allowNegative = false) (h : fromParts low high scale grammar = .ok d) :
    0 ≤ d.coefficient := by
  unfold fromParts at h
  exact normalize_nonneg hgrammar h

/-- A decimal newtype around a value that its sign rule admitted. -/
def wrapDecimal {α : Type} (wrap : (value : ExactDecimal) → 0 ≤ value.coefficient → α) :
    (parsed : Except DecimalError ExactDecimal) → (∀ value, parsed = .ok value → 0 ≤ value.coefficient) →
      Except DecimalError α
  | .ok value, hsign => .ok (wrap value (hsign value rfl))
  | .error e, _ => .error e

theorem wrapDecimal_ok {α : Type} {wrap : (value : ExactDecimal) → 0 ≤ value.coefficient → α}
    {parsed : Except DecimalError ExactDecimal} {hsign : ∀ value, parsed = .ok value → 0 ≤ value.coefficient}
    {value : ExactDecimal} (h : parsed = .ok value) : wrapDecimal wrap parsed hsign = .ok (wrap value (hsign value h)) := by
  subst h
  rfl

def Price.fromParts (coefficientLow coefficientHigh scale : Nat) (grammar : DecimalGrammar) :
    Except DecimalError Price :=
  wrapDecimal Price.mk (ExactDecimal.fromParts coefficientLow coefficientHigh scale grammar.unsigned)
    fun _ h => ExactDecimal.fromParts_nonneg rfl h

def Quantity.fromParts (coefficientLow coefficientHigh scale : Nat) (grammar : DecimalGrammar) :
    Except DecimalError Quantity :=
  wrapDecimal Quantity.mk (ExactDecimal.fromParts coefficientLow coefficientHigh scale grammar.unsigned)
    fun _ h => ExactDecimal.fromParts_nonneg rfl h

/-- An `i128` coefficient has at most 39 digits. -/
theorem ExactDecimal.digits_le (d : ExactDecimal) : (Nat.toDigits 10 d.coefficient.natAbs).length ≤ 39 := by
  obtain ⟨hlow, hhigh⟩ := d.coefficient_inI128
  rw [Nat.length_toDigits_le_iff (by decide) (by decide)]
  omega

namespace Codec

/-! ## Discriminants -/

def authorityReasonWord : AuthorityReason → Nat
  | .gap => 1
  | .disconnect => 2
  | .subscriptionLost => 3
  | .localLoss => 4
  | .orderingUnknown => 5
  | .overload => 6
  | .replicaDivergence => 7
  | .recoveryBaseUnavailable => 8

def authorityWords : AuthorityState → Nat × Nat
  | .unsubscribed => (1, 0)
  | .subscribing => (2, 0)
  | .synchronizing => (3, 0)
  | .live => (4, 0)
  | .recovering => (5, 0)
  | .stale reason => (6, authorityReasonWord reason)

def authorityState (state reason : Nat) : Option AuthorityState :=
  let plain value := if reason = 0 then some value else none
  match state with
  | 1 => plain .unsubscribed
  | 2 => plain .subscribing
  | 3 => plain .synchronizing
  | 4 => plain .live
  | 5 => plain .recovering
  | 6 => match reason with
    | 1 => some (.stale .gap)
    | 2 => some (.stale .disconnect)
    | 3 => some (.stale .subscriptionLost)
    | 4 => some (.stale .localLoss)
    | 5 => some (.stale .orderingUnknown)
    | 6 => some (.stale .overload)
    | 7 => some (.stale .replicaDivergence)
    | 8 => some (.stale .recoveryBaseUnavailable)
    | _ => none
  | _ => none

def breakWord : ContinuityReason → Nat
  | .overrun => 1
  | .gap => 2
  | .localLoss => 3
  | .reconnect => 4
  | .recoveryBase => 5
  | .syncDivergence => 6

/-- Kind, reason, epoch and next position. -/
def continuityWords : MutationContinuity → Nat × Nat × Nat × Nat
  | .intact epoch nextPosition => (1, 0, epoch, nextPosition)
  | .lost epoch reason => (2, breakWord reason, epoch, 0)

def continuity (kind reason epoch nextPosition : Nat) : Option MutationContinuity :=
  match kind with
  | 1 => if reason = 0 then some (.intact epoch nextPosition) else none
  | 2 =>
    if nextPosition = 0 then
      match reason with
      | 1 => some (.lost epoch .overrun)
      | 2 => some (.lost epoch .gap)
      | 3 => some (.lost epoch .localLoss)
      | 4 => some (.lost epoch .reconnect)
      | 5 => some (.lost epoch .recoveryBase)
      | 6 => some (.lost epoch .syncDivergence)
      | _ => none
    else none
  | _ => none

/-- Origin and derivation. -/
def originWords : Origin → Nat × Nat
  | .sourceReported => (1, 0)
  | .normalizedFromSource => (2, 0)
  | .locallyDerived .snapshotDiff => (3, 1)

def origin : Nat → Nat → Option Origin
  | 1, 0 => some .sourceReported
  | 2, 0 => some .normalizedFromSource
  | 3, 1 => some (.locallyDerived .snapshotDiff)
  | _, _ => none

def representationWord : Representation → Nat
  | .venueNative => 1
  | .normalized => 2

def representation : Nat → Option Representation
  | 1 => some .venueNative
  | 2 => some .normalized
  | _ => none

def sideWord : Side → Nat
  | .bid => 1
  | .ask => 2

def side : Nat → Option Side
  | 1 => some .bid
  | 2 => some .ask
  | _ => none

/-- A venue's own path has no word. -/
def deliveryPathWord : DeliveryPath → Option Nat
  | .marketFeed => some 1
  | .lifecycleFeed => some 2
  | .resolutionFeed => some 3
  | .otherNativePath _ => none

def deliveryPath : Nat → Option DeliveryPath
  | 1 => some .marketFeed
  | 2 => some .lifecycleFeed
  | 3 => some .resolutionFeed
  | _ => none

theorem authorityState_words (state : AuthorityState) :
    authorityState ((authorityWords state).1 % 256 ^ 4) ((authorityWords state).2 % 256 ^ 4) = some state := by
  cases state with
  | stale reason => cases reason <;> rfl
  | _ => rfl

theorem continuity_words (c : MutationContinuity) :
    continuity ((continuityWords c).1 % 256 ^ 4) ((continuityWords c).2.1 % 256 ^ 4) (continuityWords c).2.2.1
      (continuityWords c).2.2.2 = some c := by
  cases c with
  | intact epoch nextPosition => rfl
  | lost epoch reason => cases reason <;> rfl

theorem origin_words (o : Origin) : origin ((originWords o).1 % 256 ^ 4) ((originWords o).2 % 256 ^ 4) = some o := by
  cases o with
  | locallyDerived derivation => cases derivation; rfl
  | _ => rfl

theorem representation_word (r : Representation) : representation (representationWord r % 256 ^ 4) = some r := by
  cases r <;> rfl

theorem side_word (s : Side) : side (sideWord s % 256 ^ 4) = some s := by
  cases s <;> rfl

theorem deliveryPath_word {path : DeliveryPath} {word : Nat} (h : deliveryPathWord path = some word) :
    deliveryPath (word % 256 ^ 4) = some path := by
  cases path <;> simp only [deliveryPathWord, Option.some.injEq, reduceCtorEq] at h <;> subst h <;> rfl

/-! ## Decimals -/

/-- A coefficient's halves and its scale. -/
structure DecimalWords where
  low : Nat
  high : Nat
  scale : Nat
  deriving DecidableEq, Repr, Inhabited

def maxStoredScale : Nat := u16Max

/-- `stored_grammar`, whose construction never fails. -/
def storedGrammar : DecimalGrammar where
  maxScale := u16Max
  maxDigits := 39
  allowExponent := false
  allowNegative := false
  maxLexemeBytes := 128
  maxExponentDigits := 5
  maxExponentMagnitude := 99999

def decimalWords (value : ExactDecimal) : DecimalWords :=
  let bits := (value.coefficient % 2 ^ 128).toNat
  ⟨bits % 2 ^ 64, bits >>> 64 % 2 ^ 64, value.scale⟩

def price (low high scale : Nat) : Option Price :=
  if scale > maxStoredScale then none else (Price.fromParts low high scale storedGrammar).toOption

def quantity (low high scale : Nat) : Option Quantity :=
  if scale > maxStoredScale then none else (Quantity.fromParts low high scale storedGrammar).toOption

/-- The parts of a non-negative decimal put together again. -/
theorem fromParts_words (d : ExactDecimal) (h : 0 ≤ d.coefficient) :
    ExactDecimal.fromParts ((decimalWords d).low % 256 ^ 8) ((decimalWords d).high % 256 ^ 8)
      ((decimalWords d).scale % 256 ^ 4) storedGrammar.unsigned = .ok d := by
  have hscale := d.scale_le
  obtain ⟨hlow, hhigh⟩ := d.coefficient_inI128
  obtain ⟨n, hn⟩ := Int.eq_ofNat_of_zero_le h
  have hlt : n < 2 ^ 127 := by omega
  have hbits : (d.coefficient % 2 ^ 128).toNat = n := by omega
  have hmagnitude : ((decimalWords d).high % 256 ^ 8) <<< 64 ||| (decimalWords d).low % 256 ^ 8 = n := by
    simp only [decimalWords, hbits, Nat.shiftRight_eq_div_pow]
    rw [← Nat.shiftLeft_add_eq_or_of_lt (by omega), Nat.shiftLeft_eq]
    omega
  have hvalue : asI128 n = d.coefficient := by rw [asI128_of_lt hlt, hn]
  have hrange : (decimalWords d).scale % 256 ^ 4 % 2 ^ 16 = d.scale := by
    simp only [decimalWords]
    unfold u16Max at hscale
    omega
  simp only [ExactDecimal.fromParts, hmagnitude, hvalue, hrange]
  exact ExactDecimal.normalize_self (fun hneg => absurd hneg (not_lt.2 h)) hscale d.digits_le

theorem scale_words_le (d : ExactDecimal) : (decimalWords d).scale % 256 ^ 4 ≤ maxStoredScale := by
  have hscale : (decimalWords d).scale ≤ u16Max := d.scale_le
  exact Nat.le_trans (Nat.mod_le ..) hscale

theorem price_words (p : Price) :
    price ((decimalWords p.value).low % 256 ^ 8) ((decimalWords p.value).high % 256 ^ 8)
      ((decimalWords p.value).scale % 256 ^ 4) = some p := by
  have hscale := scale_words_le p.value
  have hparts := fromParts_words p.value p.nonneg
  rw [price, if_neg (Nat.not_lt.2 hscale), Price.fromParts, wrapDecimal_ok hparts]
  rfl

theorem quantity_words (q : Quantity) :
    quantity ((decimalWords q.value).low % 256 ^ 8) ((decimalWords q.value).high % 256 ^ 8)
      ((decimalWords q.value).scale % 256 ^ 4) = some q := by
  have hscale := scale_words_le q.value
  have hparts := fromParts_words q.value q.nonneg
  rw [quantity, if_neg (Nat.not_lt.2 hscale), Quantity.fromParts, wrapDecimal_ok hparts]
  rfl

/-! ## Text -/

/-- `str::as_bytes`. -/
def textBytes (text : String) : List UInt8 := text.toByteArray.data.toList

/-- `String::from_utf8`. -/
def textOf (bytes : List UInt8) : Option String := String.fromUTF8? ⟨bytes.toArray⟩

theorem textOf_textBytes (text : String) : textOf (textBytes text) = some text := by
  have h : (⟨(textBytes text).toArray⟩ : ByteArray) = text.toByteArray := by simp [textBytes]
  rw [textOf, h, String.fromUTF8?, dif_pos text.isValidUTF8]
  rfl

@[simp] theorem length_textBytes (text : String) : (textBytes text).length = text.utf8ByteSize := by
  rw [← String.size_toByteArray]
  rfl

/-- The length of a text and the `count` words it packs into. -/
def packText (count : Nat) (text : String) : Option (Nat × List Nat) :=
  let bytes := textBytes text
  if bytes.length > count * 8 then none
  else (fit u32Max bytes.length).map fun length => (length, Packing.pack count bytes)

def storedText (count length : Nat) (words : List Nat) : Option String :=
  if length > count * 8 then none else textOf (Packing.unpack length words)

theorem packText_eq_some {count : Nat} {text : String} {packed : Nat × List Nat} (h : packText count text = some packed) :
    text.utf8ByteSize ≤ count * 8 ∧ text.utf8ByteSize ≤ u32Max ∧
      packed = (text.utf8ByteSize, Packing.pack count (textBytes text)) := by
  unfold packText at h
  dsimp only at h
  split at h
  · cases h
  · rename_i hfit
    simp only [length_textBytes, Option.map_eq_some_iff, fit_eq_some] at h hfit
    obtain ⟨_, ⟨hmax, rfl⟩, rfl⟩ := h
    exact ⟨by omega, hmax, rfl⟩

theorem packText_fits {count : Nat} {text : String} (hfit : text.utf8ByteSize ≤ count * 8)
    (hmax : text.utf8ByteSize ≤ u32Max) :
    packText count text = some (text.utf8ByteSize, Packing.pack count (textBytes text)) := by
  simp only [packText, length_textBytes, if_neg (Nat.not_lt.2 hfit), fit_eq_some.2 ⟨hmax, rfl⟩, Option.map_some]

/-- A text packed into words, stored and read back. -/
theorem storedText_pack {count : Nat} {text : String} {packed : Nat × List Nat} {words : List Nat}
    (h : packText count text = some packed) (hwords : ∀ j < count, words.getD j 0 = packed.2.getD j 0 % 256 ^ 8) :
    storedText count (packed.1 % 256 ^ 4) words = some text := by
  obtain ⟨hfit, hmax, rfl⟩ := packText_eq_some h
  have hlength : text.utf8ByteSize % 256 ^ 4 = text.utf8ByteSize := Nat.mod_eq_of_lt (by unfold u32Max at hmax; omega)
  rw [storedText, hlength, if_neg (by omega), ← length_textBytes,
    Packing.unpack_pack (by simpa using hfit) hwords, textOf_textBytes]

/-! ## Identities -/

def encodeIdentity (market : MarketRef) (capacity : Nat) : Option (List UInt8) :=
  let venue := textBytes market.venue.value
  let kind := textBytes market.key.kind.value
  let value := textBytes market.key.value.value
  (fit u16Max venue.length).bind fun venueLength =>
  (fit u16Max kind.length).bind fun kindLength =>
  (fit u32Max value.length).bind fun valueLength =>
  if 8 + venue.length + kind.length + value.length > capacity then none
  else some (leBytes 2 venueLength ++ leBytes 2 kindLength ++ leBytes 4 valueLength ++ venue ++ kind ++ value)

/-- `bytes.get(start..start + length)`. -/
def slice (bytes : List UInt8) (start length : Nat) : Option (List UInt8) :=
  if start + length ≤ bytes.length then some ((bytes.drop start).take length) else none

def decodeIdentity (bytes : List UInt8) : Option MarketRef :=
  if bytes.length < 8 then none
  else
    let venueLength := leValue (bytes.take 2)
    let kindLength := leValue ((bytes.drop 2).take 2)
    let valueLength := leValue ((bytes.drop 4).take 4)
    let body := bytes.drop 8
    (slice body 0 venueLength).bind fun venue =>
    (slice body venueLength kindLength).bind fun kind =>
    (slice body (venueLength + kindLength) valueLength).bind fun value =>
    (textOf venue).bind fun venue =>
    (textOf kind).bind fun kind =>
    (textOf value).bind fun value =>
    (NativeText.new 128 venue).bind fun venue =>
    (NativeText.new 128 kind).bind fun kind =>
    (NativeText.new 1024 value).map fun value => ⟨venue, kind, value⟩

theorem slice_append (before part after : List UInt8) :
    slice (before ++ (part ++ after)) before.length part.length = some part := by
  rw [slice, if_pos (by simp), List.drop_left, List.take_left]

theorem NativeText.new_value {max : Nat} (text : NativeText max) : NativeText.new max text.value = some text :=
  dif_pos ⟨text.nonempty, text.size_le⟩

/-- The parts of an identity's bytes, from the front. -/
theorem take_drop_prefix {a b c : List UInt8} (body : List UInt8) (ha : a.length = 2) (hb : b.length = 2)
    (hc : c.length = 4) :
    (a ++ (b ++ (c ++ body))).take 2 = a ∧ ((a ++ (b ++ (c ++ body))).drop 2).take 2 = b ∧
      ((a ++ (b ++ (c ++ body))).drop 4).take 4 = c ∧ (a ++ (b ++ (c ++ body))).drop 8 = body := by
  simp [List.drop_append, List.drop_of_length_le, ha, hb, hc]

/-- The bytes of an identity name the market they were made from. -/
theorem decodeIdentity_encode {market : MarketRef} {capacity : Nat} {bytes : List UInt8}
    (h : encodeIdentity market capacity = some bytes) :
    decodeIdentity bytes = some market ∧ bytes.length ≤ capacity := by
  simp only [encodeIdentity, Option.bind_eq_some_iff, fit_eq_some, Option.ite_none_left_eq_some, Option.some.injEq] at h
  obtain ⟨_, ⟨hvenue, rfl⟩, _, ⟨hkind, rfl⟩, _, ⟨hvalue, rfl⟩, hfit, rfl⟩ := h
  generalize hA : textBytes market.venue.value = venue at *
  generalize hB : textBytes market.key.kind.value = kind at *
  generalize hC : textBytes market.key.value.value = value at *
  have hlengths : leValue (leBytes 2 venue.length) = venue.length ∧ leValue (leBytes 2 kind.length) = kind.length ∧
      leValue (leBytes 4 value.length) = value.length := by
    simp only [leValue_leBytes]
    unfold u16Max u32Max at *
    exact ⟨Nat.mod_eq_of_lt (by omega), Nat.mod_eq_of_lt (by omega), Nat.mod_eq_of_lt (by omega)⟩
  have hsize : (leBytes 2 venue.length ++ leBytes 2 kind.length ++ leBytes 4 value.length ++ venue ++ kind ++
      value).length = 8 + venue.length + kind.length + value.length := by
    simp
    omega
  refine ⟨?_, by omega⟩
  rw [decodeIdentity, if_neg (by omega)]
  simp only [List.append_assoc]
  obtain ⟨h₁, h₂, h₃, h₄⟩ := take_drop_prefix (venue ++ (kind ++ value)) (length_leBytes 2 venue.length)
    (length_leBytes 2 kind.length) (length_leBytes 4 value.length)
  have hfirst := slice_append [] venue (kind ++ value)
  have hsecond := slice_append venue kind value
  have hthird : slice (venue ++ (kind ++ value)) (venue.length + kind.length) value.length = some value := by
    simpa using slice_append (venue ++ kind) value []
  simp only [List.nil_append, List.length_nil] at hfirst
  simp only [h₁, h₂, h₃, h₄, hlengths, hfirst, hsecond, hthird, Option.bind_some]
  simp only [← hA, ← hB, ← hC, textOf_textBytes, NativeText.new_value, Option.bind_some, Option.map_some]

end Codec

/-! ## Cells -/

namespace Abi

open Codec

def word64 (offset value : Nat) : Store := ⟨⟨offset, 8⟩, value⟩

def word32 (offset value : Nat) : Store := ⟨⟨offset, 4⟩, value⟩

/-- The words of one text, from `base` on. -/
def textStores (base count : Nat) (words : List Nat) : List Store :=
  (List.range count).map fun word => word64 (base + word * 8) (words.getD word 0)

def readTextWords (slot : Bytes) (base count : Nat) : List Nat :=
  (List.range count).map fun word => load slot (base + word * 8) 8

def decCoefficientLow : Nat := 0
def decCoefficientHigh : Nat := 8
def decScale : Nat := 16

def storeDecimal (base : Nat) (words : DecimalWords) : List Store :=
  [word64 (base + decCoefficientLow) words.low, word64 (base + decCoefficientHigh) words.high,
    word32 (base + decScale) words.scale]

def readDecimal (slot : Bytes) (base : Nat) : DecimalWords :=
  ⟨load slot (base + decCoefficientLow) 8, load slot (base + decCoefficientHigh) 8, load slot (base + decScale) 4⟩

theorem storedText_read {slot : Bytes} {base count : Nat} {text : String} {packed : Nat × List Nat}
    (h : packText count text = some packed) (hcells : Holds slot (textStores base count packed.2)) :
    storedText count (packed.1 % 256 ^ 4) (readTextWords slot base count) = some text := by
  apply storedText_pack h
  intro j hj
  have hcell := hcells (word64 (base + j * 8) (packed.2.getD j 0))
    (List.mem_map.2 ⟨j, List.mem_range.2 hj, rfl⟩)
  simpa [readTextWords, List.getD_eq_getElem?_getD, hj, word64] using hcell

theorem readDecimal_eq {slot : Bytes} {base : Nat} {words : DecimalWords} (h : Holds slot (storeDecimal base words)) :
    readDecimal slot base = ⟨words.low % 256 ^ 8, words.high % 256 ^ 8, words.scale % 256 ^ 4⟩ := by
  simp only [storeDecimal, holds_cons, word64, word32] at h
  obtain ⟨hlow, hhigh, hscale, -⟩ := h
  rw [readDecimal, hlow, hhigh, hscale]

end Abi

end PmWs
