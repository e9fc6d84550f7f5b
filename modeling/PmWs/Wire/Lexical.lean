import PmWs.Lib.Fallible
import PmWs.Lib.Scanning
import PmWs.Lib.Utf8

/-!
# The lexical JSON parser

A scanner over the bytes of a frame. Strings are unescaped; numbers are kept as
the lexemes the source wrote. Every refusal carries the offset it was made at.
-/

open Scanning Utf8

namespace PmWs.Wire

structure LexicalLimits where
  maxBytes : Nat
  maxDepth : Nat
  maxArrayElements : Nat
  maxObjectEntries : Nat
  maxStringBytes : Nat
  maxNumberBytes : Nat
  deriving DecidableEq, Repr

def LexicalLimits.venuePayload : LexicalLimits := ⟨262144, 16, 4096, 256, 4096, 128⟩

structure NumberLexeme where
  text : String
  deriving DecidableEq, Repr

inductive LexicalValue where
  | null
  | bool (value : Bool)
  | number (lexeme : NumberLexeme)
  | text (value : String)
  | array (values : List LexicalValue)
  | object (entries : List (String × LexicalValue))
  deriving Repr

namespace LexicalValue

def field (self : LexicalValue) (name : String) : Option LexicalValue :=
  match self with
  | object entries => (entries.find? fun entry => entry.1 = name).map Prod.snd
  | _ => none

def asText : LexicalValue → Option String
  | text value => some value
  | _ => none

def asNumber : LexicalValue → Option NumberLexeme
  | number lexeme => some lexeme
  | _ => none

def asArray : LexicalValue → Option (List LexicalValue)
  | array values => some values
  | _ => none

end LexicalValue

inductive LexicalError where
  | inputTooLarge (bytes limit : Nat)
  | emptyInput
  | unexpectedEnd (offset : Nat)
  | unexpectedByte (offset : Nat)
  | trailingBytes (offset : Nat)
  | depthExceeded (offset limit : Nat)
  | arrayCapacityExceeded (offset limit : Nat)
  | objectCapacityExceeded (offset limit : Nat)
  | duplicateField (offset : Nat)
  | stringTooLong (offset limit : Nat)
  | numberTooLong (offset limit : Nat)
  | invalidNumber (offset : Nat)
  | invalidString (offset : Nat)
  | invalidEscape (offset : Nat)
  | notUtf8 (offset : Nat)
  deriving DecidableEq, Repr

/-! ## Bytes -/

/-- The byte of an ASCII character. -/
def ascii (c : Char) : UInt8 := c.toUInt8

/-- The bytes of an ASCII word. -/
def word (text : String) : List UInt8 := text.toList.map ascii

def isWhitespace (byte : UInt8) : Bool :=
  byte = ascii ' ' ∨ byte = ascii '\t' ∨ byte = ascii '\n' ∨ byte = ascii '\r'

def isAsciiDigit (byte : UInt8) : Bool := ascii '0' ≤ byte ∧ byte ≤ ascii '9'

def isPoint (byte : UInt8) : Bool := byte = ascii '.'

def isExponentLetter (byte : UInt8) : Bool := byte = ascii 'e' ∨ byte = ascii 'E'

/-- How many bytes a character takes, by its first. -/
def utf8Width (byte : UInt8) : Nat :=
  if byte ≤ 0x7f then 1
  else if 0xc2 ≤ byte ∧ byte ≤ 0xdf then 2
  else if 0xe0 ≤ byte ∧ byte ≤ 0xef then 3
  else if 0xf0 ≤ byte ∧ byte ≤ 0xf4 then 4
  else 0

/-- `char::from_u32`. -/
def charFromU32 (value : Nat) : Option Char := if value.isValidChar then some (Char.ofNat value) else none

def hexDigit (byte : UInt8) : Option Nat :=
  if ascii '0' ≤ byte ∧ byte ≤ ascii '9' then some (byte.toNat - (ascii '0').toNat)
  else if ascii 'a' ≤ byte ∧ byte ≤ ascii 'f' then some (byte.toNat - (ascii 'a').toNat + 10)
  else if ascii 'A' ≤ byte ∧ byte ≤ ascii 'F' then some (byte.toNat - (ascii 'A').toNat + 10)
  else none

/-- What the digits spell, most significant first. -/
def hexValue (digits : List UInt8) : Option Nat :=
  digits.foldlM (fun value byte => (hexDigit byte).map (value * 16 + ·)) 0

/-- The character a one-letter escape stands for. -/
def simpleEscape (byte : UInt8) : Option Char :=
  if byte = ascii '"' then some '"'
  else if byte = ascii '\\' then some '\\'
  else if byte = ascii '/' then some '/'
  else if byte = ascii 'b' then some '\x08'
  else if byte = ascii 'f' then some '\x0c'
  else if byte = ascii 'n' then some '\n'
  else if byte = ascii 'r' then some '\r'
  else if byte = ascii 't' then some '\t'
  else none

def isHighSurrogate (value : Nat) : Bool := 0xd800 ≤ value ∧ value ≤ 0xdbff

def isLowSurrogate (value : Nat) : Bool := 0xdc00 ≤ value ∧ value ≤ 0xdfff

def combineSurrogates (first second : Nat) : Nat := 0x10000 + ((first - 0xd800) <<< 10) + (second - 0xdc00)

/-! ## The scanner -/

namespace Scanner

abbrev ScanM := Scan LexicalError

section
variable (bytes : List UInt8) (limits : LexicalLimits)

def skipWhitespace : ScanM Unit := skipWhile bytes isWhitespace

def skipDigits : ScanM Unit := skipWhile bytes isAsciiDigit

def expect (byte : UInt8) : ScanM Unit := do
  let found ← peekOr bytes .unexpectedEnd
  refuse (found ≠ byte) (.unexpectedByte (← get))
  advance 1

def literal (word : List UInt8) : ScanM Unit := do
  refuse (¬ word.isPrefixOf (bytes.drop (← get))) (.unexpectedByte (← get))
  advance word.length

def hex4 : ScanM Nat := do
  let offset ← get
  refuse (bytes.length < offset + 4) (.unexpectedEnd offset)
  let value ← require (hexValue ((bytes.drop offset).take 4)) (.invalidEscape offset)
  advance 4
  return value

/-- The byte an escape goes on with. -/
def escapeByte (byte : UInt8) (offset : Nat) : ScanM Unit := do
  refuse ((← peek bytes) ≠ some byte) (.invalidEscape offset)
  advance 1

/-- The second half of a surrogate pair. -/
def lowSurrogate (first offset : Nat) : ScanM Char := do
  escapeByte bytes (ascii '\\') offset
  escapeByte bytes (ascii 'u') offset
  let second ← hex4 bytes
  refuse (¬ isLowSurrogate second) (.invalidEscape offset)
  require (charFromU32 (combineSurrogates first second)) (.invalidEscape offset)

def unicodeEscape (offset : Nat) : ScanM Char := do
  let first ← hex4 bytes
  refuse (isLowSurrogate first) (.invalidEscape offset)
  if isHighSurrogate first then lowSurrogate bytes first offset
  else require (charFromU32 first) (.invalidEscape offset)

def escape : ScanM Char := do
  let offset ← get
  let byte ← peekOr bytes .unexpectedEnd
  advance 1
  if byte = ascii 'u' then unicodeEscape bytes offset
  else require (simpleEscape byte) (.invalidEscape offset)

/-- One unescaped character, by the width of its first byte. -/
def chunk (byte : UInt8) : ScanM String := do
  let offset ← get
  let rest := bytes.drop offset
  let width := utf8Width byte
  refuse (width = 0 ∨ rest.length < width) (.notUtf8 offset)
  let chunk ← require (fromUtf8 (rest.take width)) (.notUtf8 offset)
  advance width
  return chunk

/-- The loop of `text`. Every round takes a byte, so as many rounds as there are bytes are enough. -/
def textLoop (start : Nat) : (rounds : Nat) → (output : String) → ScanM String
  | 0, _ => do throw (.unexpectedEnd (← get))
  | rounds + 1, output => do
    refuse (output.utf8ByteSize > limits.maxStringBytes) (.stringTooLong start limits.maxStringBytes)
    let byte ← peekOr bytes .unexpectedEnd
    if byte = ascii '"' then do
      advance 1
      return output
    else if byte = ascii '\\' then do
      advance 1
      let char ← escape bytes
      textLoop start rounds (output.push char)
    else do
      refuse (byte ≤ 0x1f) (.invalidString (← get))
      let chunk ← chunk bytes byte
      textLoop start rounds (output ++ chunk)

def text : ScanM String := do
  let start ← get
  expect bytes (ascii '"')
  textLoop bytes limits start (bytes.length + 1) ""

def sign (signs : List UInt8) : ScanM Unit := do
  if (← peek bytes).any (signs.contains ·) then advance 1 else pure ()

def integerPart (start : Nat) : ScanM Unit := do
  let byte ← peekOr bytes fun _ => .invalidNumber start
  if byte = ascii '0' then advance 1
  else do
    refuse (¬ isAsciiDigit byte) (.invalidNumber start)
    skipDigits bytes

/-- At least one digit. -/
def someDigits (start : Nat) : ScanM Unit := do
  refuse (¬ (← peek bytes).any isAsciiDigit) (.invalidNumber start)
  skipDigits bytes

def fraction (start : Nat) : ScanM Unit := do
  if (← peek bytes).any isPoint then do
    advance 1
    someDigits bytes start
  else pure ()

def exponent (start : Nat) : ScanM Unit := do
  if (← peek bytes).any isExponentLetter then do
    advance 1
    sign bytes [ascii '+', ascii '-']
    someDigits bytes start
  else pure ()

def numberBody (start : Nat) : ScanM Unit := do
  sign bytes [ascii '-']
  integerPart bytes start
  fraction bytes start
  exponent bytes start

def number : ScanM NumberLexeme := do
  let start ← get
  numberBody bytes start
  let lexeme := (bytes.drop start).take ((← get) - start)
  refuse (lexeme.length > limits.maxNumberBytes) (.numberTooLong start limits.maxNumberBytes)
  let value ← require (fromUtf8 lexeme) (.invalidNumber start)
  return ⟨value⟩

/-- A container: empty, or with the items a loop reads. -/
def container (opening close : UInt8) (empty : LexicalValue) (items : ScanM LexicalValue) : ScanM LexicalValue := do
  expect bytes opening
  skipWhitespace bytes
  if (← peek bytes) = some close then do
    advance 1
    return empty
  else items

/-- After an item of a container: a comma and more of it, or its end. -/
def afterItem (close : UInt8) (more : ScanM LexicalValue) (whole : LexicalValue) : ScanM LexicalValue := do
  let byte ← peekOr bytes .unexpectedEnd
  if byte = ascii ',' then do
    advance 1
    more
  else do
    refuse (byte ≠ close) (.unexpectedByte (← get))
    advance 1
    return whole

/-- The loop of `array`, with `room` for that many more elements. -/
def elements (element : ScanM LexicalValue) (start : Nat) : (room : Nat) → List LexicalValue → ScanM LexicalValue
  | 0, _ => do
    skipWhitespace bytes
    throw (.arrayCapacityExceeded start limits.maxArrayElements)
  | room + 1, values => do
    skipWhitespace bytes
    let value ← element
    skipWhitespace bytes
    afterItem bytes (ascii ']') (elements element start room (values ++ [value])) (.array (values ++ [value]))

def array (element : ScanM LexicalValue) : ScanM LexicalValue := do
  let start ← get
  container bytes (ascii '[') (ascii ']') (.array []) (elements bytes limits element start limits.maxArrayElements [])

/-- The loop of `object`, with `room` for that many more entries. -/
def members (element : ScanM LexicalValue) (start : Nat) :
    (room : Nat) → List (String × LexicalValue) → ScanM LexicalValue
  | 0, _ => do
    skipWhitespace bytes
    throw (.objectCapacityExceeded start limits.maxObjectEntries)
  | room + 1, entries => do
    skipWhitespace bytes
    let keyOffset ← get
    let key ← text bytes limits
    refuse (entries.any fun entry => entry.1 = key) (.duplicateField keyOffset)
    skipWhitespace bytes
    expect bytes (ascii ':')
    skipWhitespace bytes
    let value ← element
    skipWhitespace bytes
    afterItem bytes (ascii '}') (members element start room (entries ++ [(key, value)]))
      (.object (entries ++ [(key, value)]))

def object (element : ScanM LexicalValue) : ScanM LexicalValue := do
  let start ← get
  container bytes (ascii '{') (ascii '}') (.object []) (members bytes limits element start limits.maxObjectEntries [])

/-- A value at a depth from which `levels` more may be opened, itself included: `max_depth + 1 - depth`. The source's
`depth + 1` stays within its `u16` as long as `max_depth` is below the largest. -/
def value : (levels : Nat) → ScanM LexicalValue
  | 0 => do throw (.depthExceeded (← get) limits.maxDepth)
  | levels + 1 => do
    let byte ← peekOr bytes .unexpectedEnd
    if byte = ascii 'n' then do
      literal bytes (word "null")
      return .null
    else if byte = ascii 't' then do
      literal bytes (word "true")
      return .bool true
    else if byte = ascii 'f' then do
      literal bytes (word "false")
      return .bool false
    else if byte = ascii '"' then do return .text (← text bytes limits)
    else if byte = ascii '[' then array bytes limits (value levels)
    else if byte = ascii '{' then object bytes limits (value levels)
    else do
      refuse (¬ (byte = ascii '-' ∨ isAsciiDigit byte)) (.unexpectedByte (← get))
      return .number (← number bytes limits)

end

end Scanner

/-- Everything that is left, with whitespace around it. -/
def Scanner.whole (bytes : List UInt8) (limits : LexicalLimits) : ScanM LexicalValue := do
  skipWhitespace bytes
  let value ← value bytes limits (limits.maxDepth + 1)
  skipWhitespace bytes
  refuse ((← get) ≠ bytes.length) (.trailingBytes (← get))
  return value

def parseLexical (bytes : List UInt8) (limits : LexicalLimits) : Except LexicalError LexicalValue :=
  if bytes = [] then .error .emptyInput
  else if bytes.length > limits.maxBytes then .error (.inputTooLarge bytes.length limits.maxBytes)
  else (Scanner.whole bytes limits 0).map Prod.fst

end PmWs.Wire
