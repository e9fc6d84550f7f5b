import PmWs.Limitless
import PmWs.Wire.SocketIo

/-!
# Decoding market events

What a frame of the markets namespace says: a book, a resolution, or an event
this feed does not know. Every number of a book is kept exact, every price is
within the unit, every side is in the venue's order.
-/

open MachineInt Fallible PmWs.Wire

namespace PmWs

def marketsNamespace : String := "/markets"

def venueDecimalGrammar : DecimalGrammar :=
  { maxScale := 18, maxDigits := 30, allowExponent := true, allowNegative := false, maxLexemeBytes := 128,
    maxExponentDigits := 5, maxExponentMagnitude := 99999 }

example : DecimalGrammar.new 18 30 true false = .ok venueDecimalGrammar := rfl

inductive LimitlessDecodeError where
  | notAnEvent
  | invalidField (field : String)
  | decimal (field : String) (source : DecimalError)
  | priceOutOfDomain (field : String)
  | levelOrdering (side : Side)
  deriving DecidableEq, Repr

/-! ## Fields -/

def textField (value : LexicalValue) (field : String) : Except LimitlessDecodeError String :=
  orError ((value.field field).bind LexicalValue.asText) (.invalidField field)

def numberField (value : LexicalValue) (field : String) : Except LimitlessDecodeError String :=
  orError (((value.field field).bind LexicalValue.asNumber).map NumberLexeme.text) (.invalidField field)

/-- An optional field is absent or of its kind: any other kind is refused, null included. -/
def optionalField (read : LexicalValue → Option String) (value : LexicalValue) (field : String) :
    Except LimitlessDecodeError (Option String) :=
  match value.field field with
  | none => .ok none
  | some present => (orError (read present) (.invalidField field)).map some

def optionalNumberField : LexicalValue → String → Except LimitlessDecodeError (Option String) :=
  optionalField fun present => present.asNumber.map NumberLexeme.text

def optionalTextField : LexicalValue → String → Except LimitlessDecodeError (Option String) :=
  optionalField LexicalValue.asText

/-! ## Books -/

/-- The upper end of the price domain. -/
def domainUpperBound : Price := ⟨unitPrice, by decide⟩

example : ExactDecimal.parse ['1'] venueDecimalGrammar.unsigned = .ok domainUpperBound.value := by decide

/-- Whether a price comes after the last one in the venue's order: bids descend, asks ascend. -/
def Side.follows (side : Side) (price last : Price) : Bool :=
  match side with
  | .bid => price.cmp last = .lt
  | .ask => price.cmp last = .gt

/-- The level of one entry, after the levels decoded so far. -/
def decodeLevel (side : Side) (levels : List (Price × Quantity)) (entry : LexicalValue) :
    Except LimitlessDecodeError (Price × Quantity) := do
  let priceLexeme ← numberField entry "price"
  let price ← (Price.parse priceLexeme.toList venueDecimalGrammar).mapError (.decimal "price")
  if price.cmp domainUpperBound = .gt then .error (.priceOutOfDomain "price")
  else do
    let sizeLexeme ← numberField entry "size"
    let quantity ← (Quantity.parse sizeLexeme.toList venueDecimalGrammar).mapError (.decimal "size")
    if levels.getLast?.any fun last => !side.follows price last.1 then .error (.levelOrdering side)
    else return (price, quantity)

def decodeEntries (side : Side) : List LexicalValue → List (Price × Quantity) →
    Except LimitlessDecodeError (List (Price × Quantity))
  | [], levels => .ok levels
  | entry :: rest, levels => do
    let level ← decodeLevel side levels entry
    decodeEntries side rest (levels ++ [level])

def decodeLevels (orderbook : LexicalValue) (field : String) (side : Side) :
    Except LimitlessDecodeError (List (Price × Quantity)) := do
  let array ← orError ((orderbook.field field).bind LexicalValue.asArray) (.invalidField field)
  decodeEntries side array []

/-! ## Events -/

def decodeOrderbookUpdate (frame : DecodedFrame) : Except LimitlessDecodeError OrderbookUpdate := do
  let payload ← orError frame.payload (.invalidField "payload")
  let marketSlug ← textField payload "marketSlug"
  let orderbook ← orError (payload.field "orderbook") (.invalidField "orderbook")
  let tokenId ← optionalTextField orderbook "tokenId"
  let bids ← decodeLevels orderbook "bids" .bid
  let asks ← decodeLevels orderbook "asks" .ask
  let timestamp ← textField payload "timestamp"
  let version ← optionalNumberField payload "version"
  return { marketSlug, tokenId, bids, asks, timestamp, version }

def decodeMarketResolved (frame : DecodedFrame) : Except LimitlessDecodeError MarketResolved := do
  let payload ← orError frame.payload (.invalidField "payload")
  let slug ← textField payload "slug"
  let marketType ← textField payload "type"
  let winningOutcome ← textField payload "winningOutcome"
  let winningIndex ← orError (parseUnsigned u32Max (← numberField payload "winningIndex").toList) (.invalidField "winningIndex")
  let resolutionDate ← textField payload "resolutionDate"
  return { slug, marketType, winningOutcome, winningIndex := .ofNat winningIndex, resolutionDate }

def decodeEvent (frame : DecodedFrame) : Except LimitlessDecodeError LimitlessEvent :=
  if frame.namespacePath ≠ some marketsNamespace then .error .notAnEvent
  else do
    let name ← orError frame.eventName .notAnEvent
    if name = orderbookUpdateEvent then (decodeOrderbookUpdate frame).map .orderbookUpdate
    else if name = marketResolvedEvent then (decodeMarketResolved frame).map .marketResolved
    else return .unknown name

end PmWs
