import PmWs.Wire.Lexical

/-!
# JSON, as RFC 8259 has it

The texts of a value, without limits, and the limits a value is held to,
without texts. The parser is shown to accept what has both.
-/

open Scanning Utf8

namespace PmWs.Wire

/-! ## Whitespace and numbers -/

def Blank (bytes : List UInt8) : Prop := ∀ byte ∈ bytes, isWhitespace byte = true

def Digits (bytes : List UInt8) : Prop := bytes ≠ [] ∧ ∀ byte ∈ bytes, isAsciiDigit byte = true

/-- A zero, or digits that do not start with one. -/
def Integer (bytes : List UInt8) : Prop := bytes = [ascii '0'] ∨ Digits bytes ∧ bytes.head? ≠ some (ascii '0')

def Fraction (bytes : List UInt8) : Prop := bytes = [] ∨ ∃ digits, bytes = ascii '.' :: digits ∧ Digits digits

def Exponent (bytes : List UInt8) : Prop :=
  bytes = [] ∨ ∃ letter sign digits, bytes = letter :: (sign ++ digits) ∧ (letter = ascii 'e' ∨ letter = ascii 'E') ∧
    (sign = [] ∨ sign = [ascii '+'] ∨ sign = [ascii '-']) ∧ Digits digits

def Number (bytes : List UInt8) : Prop :=
  ∃ sign integer fraction exponent, bytes = sign ++ (integer ++ (fraction ++ exponent)) ∧
    (sign = [] ∨ sign = [ascii '-']) ∧ Integer integer ∧ Fraction fraction ∧ Exponent exponent

def asciiText (bytes : List UInt8) : String := String.ofList (bytes.map fun byte => Char.ofNat byte.toNat)

/-! ## Strings -/

/-- A character by its code units: one outside the surrogates, or a surrogate pair. -/
inductive UnicodeText : List UInt8 → Char → Prop
  | unit {digits : List UInt8} {value : Nat} (four : digits.length = 4) (spells : hexValue digits = some value)
      (high : isHighSurrogate value = false) (low : isLowSurrogate value = false) :
      UnicodeText digits (Char.ofNat value)
  | pair {digits digits' : List UInt8} {first second : Nat} (four : digits.length = 4) (four' : digits'.length = 4)
      (spells : hexValue digits = some first) (spells' : hexValue digits' = some second)
      (high : isHighSurrogate first = true) (low : isLowSurrogate second = true) :
      UnicodeText (digits ++ ascii '\\' :: ascii 'u' :: digits') (Char.ofNat (combineSurrogates first second))

/-- The ways to write one character of a string. -/
inductive CharText : List UInt8 → Char → Prop
  | plain {char : Char} (printable : 0x20 ≤ char.toNat) (quote : char ≠ '"') (backslash : char ≠ '\\') :
      CharText (String.utf8EncodeChar char) char
  | letter {byte : UInt8} {char : Char} (stands : simpleEscape byte = some char) :
      CharText [ascii '\\', byte] char
  | unicode {digits : List UInt8} {char : Char} (units : UnicodeText digits char) :
      CharText (ascii '\\' :: ascii 'u' :: digits) char

def Quoted (bytes : List UInt8) (text : String) : Prop :=
  ∃ body chars, bytes = ascii '"' :: (body ++ [ascii '"']) ∧ Repeated CharText body chars ∧ text = String.ofList chars

/-! ## Values -/

/-- An item with whitespace around it. -/
inductive Padded {α : Type} (item : List UInt8 → α → Prop) : List UInt8 → α → Prop
  | intro {before used after : List UInt8} {a : α} (left : Blank before) (inside : item used a) (right : Blank after) :
      Padded item (before ++ (used ++ after)) a

/-- A member of an object: a key, a colon, a value. -/
inductive Member {α : Type} (item : List UInt8 → α → Prop) : List UInt8 → String × α → Prop
  | intro {key value : List UInt8} {name : String} {a : α} (named : Padded Quoted key name) (valued : Padded item value a) :
      Member item (key ++ ascii ':' :: value) (name, a)

inductive Json : List UInt8 → LexicalValue → Prop
  | null : Json (word "null") .null
  | true : Json (word "true") (.bool true)
  | false : Json (word "false") (.bool false)
  | number {bytes : List UInt8} (number : Number bytes) : Json bytes (.number ⟨asciiText bytes⟩)
  | text {bytes : List UInt8} {text : String} (quoted : Quoted bytes text) : Json bytes (.text text)
  | emptyArray {blank : List UInt8} (empty : Blank blank) : Json (ascii '[' :: (blank ++ [ascii ']'])) (.array [])
  | array {bytes : List UInt8} {values : List LexicalValue} (elements : Separated (ascii ',') (Padded Json) bytes values) :
      Json (ascii '[' :: (bytes ++ [ascii ']'])) (.array values)
  | emptyObject {blank : List UInt8} (empty : Blank blank) : Json (ascii '{' :: (blank ++ [ascii '}'])) (.object [])
  | object {bytes : List UInt8} {entries : List (String × LexicalValue)}
      (members : Separated (ascii ',') (Member Json) bytes entries) :
      Json (ascii '{' :: (bytes ++ [ascii '}'])) (.object entries)

/-! ## Limits -/

/-- A value at a depth, within the limits all the way down and with no key twice. -/
inductive Fits (limits : LexicalLimits) : (depth : Nat) → LexicalValue → Prop
  | null {depth : Nat} (deep : depth ≤ limits.maxDepth) : Fits limits depth .null
  | bool {depth : Nat} {value : Bool} (deep : depth ≤ limits.maxDepth) : Fits limits depth (.bool value)
  | number {depth : Nat} {lexeme : NumberLexeme} (deep : depth ≤ limits.maxDepth)
      (size : lexeme.text.utf8ByteSize ≤ limits.maxNumberBytes) : Fits limits depth (.number lexeme)
  | text {depth : Nat} {value : String} (deep : depth ≤ limits.maxDepth)
      (size : value.utf8ByteSize ≤ limits.maxStringBytes) : Fits limits depth (.text value)
  | array {depth : Nat} {values : List LexicalValue} (deep : depth ≤ limits.maxDepth)
      (size : values.length ≤ limits.maxArrayElements) (elements : ∀ value ∈ values, Fits limits (depth + 1) value) :
      Fits limits depth (.array values)
  | object {depth : Nat} {entries : List (String × LexicalValue)} (deep : depth ≤ limits.maxDepth)
      (size : entries.length ≤ limits.maxObjectEntries)
      (keys : ∀ entry ∈ entries, entry.1.utf8ByteSize ≤ limits.maxStringBytes) (distinct : (entries.map Prod.fst).Nodup)
      (elements : ∀ entry ∈ entries, Fits limits (depth + 1) entry.2) : Fits limits depth (.object entries)

end PmWs.Wire
