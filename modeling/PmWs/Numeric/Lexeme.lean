import Mathlib.Data.List.TakeWhile
import PmWs.Numeric

/-!
# Decimal lexemes and decimal arithmetic

`parse` reads a venue lexeme under a grammar, `canonical` writes the one text
a value has. Two values with the same canonical text are the same value, which
is what lets a byte comparison of projections stand for a comparison of
content.
-/

open MachineInt

namespace PmWs

namespace ExactDecimal

/-! ## The canonical text -/

/-- The canonical text without its sign. -/
def magnitudeText (d : ExactDecimal) : List Char :=
  let digits := Nat.toDigits 10 d.coefficient.natAbs
  if d.scale = 0 then digits
  else if digits.length ≤ d.scale then '0' :: '.' :: (List.replicate (d.scale - digits.length) '0' ++ digits)
  else digits.take (digits.length - d.scale) ++ '.' :: digits.drop (digits.length - d.scale)

def canonical (d : ExactDecimal) : List Char := (if d.coefficient < 0 then ['-'] else []) ++ d.magnitudeText

/-- The digits of a value written out, with its leading zeros. -/
def writtenDigits (d : ExactDecimal) : Nat :=
  let digits := (Nat.toDigits 10 d.coefficient.natAbs).length
  if d.scale = 0 then digits else max digits (d.scale + 1)

/-- The bytes of a value written out: its digits, a point before a fraction, and a minus. -/
def writtenBytes (d : ExactDecimal) : Nat :=
  d.writtenDigits + (if d.scale = 0 then 0 else 1) + if d.coefficient < 0 then 1 else 0

/-- Every character of a canonical text is a digit, the point or the sign. -/
theorem canonical_chars {d : ExactDecimal} {c : Char} (h : c ∈ d.canonical) :
    c.isDigit ∨ c = '.' ∨ c = '-' := by
  have hdigits {c : Char} (h : c ∈ Nat.toDigits 10 d.coefficient.natAbs) : c.isDigit :=
    Nat.isDigit_of_mem_toDigits (by decide) (by decide) h
  rcases List.mem_append.1 h with h | h
  · split at h <;> simp_all
  · simp only [magnitudeText] at h
    split at h
    · exact .inl (hdigits h)
    · split at h
      · simp only [List.mem_append, List.mem_cons, List.mem_replicate] at h
        rcases h with rfl | rfl | ⟨-, rfl⟩ | h
        · exact .inl rfl
        · exact .inr (.inl rfl)
        · exact .inl rfl
        · exact .inl (hdigits h)
      · simp only [List.mem_append, List.mem_cons] at h
        rcases h with h | rfl | h
        · exact .inl (hdigits (List.mem_of_mem_take h))
        · exact .inr (.inl rfl)
        · exact .inl (hdigits (List.mem_of_mem_drop h))

/-- The fractional digits of a text: what follows its point. -/
def fractionOf (text : List Char) : List Char := (text.dropWhile (· ≠ '.')).drop 1

/-- The text without its point. -/
def digitsOf (text : List Char) : List Char := text.filter (· ≠ '.')

theorem ne_point_of_isDigit {c : Char} (h : c.isDigit) : c ≠ '.' := by
  rintro rfl
  exact absurd h (by decide)

theorem filter_digits {l : List Char} (h : ∀ c ∈ l, c.isDigit) : l.filter (· ≠ '.') = l :=
  List.filter_eq_self.2 fun c hc => by simpa using ne_point_of_isDigit (h c hc)

theorem dropWhile_digits {l r : List Char} (h : ∀ c ∈ l, c.isDigit) :
    (l ++ '.' :: r).dropWhile (· ≠ '.') = '.' :: r := by
  rw [List.dropWhile_append_of_pos fun c hc => by simpa using ne_point_of_isDigit (h c hc)]
  simp

/-- Reading a magnitude back: its fraction is as long as the scale and its digits spell the coefficient. -/
theorem magnitude_reads (d : ExactDecimal) :
    (fractionOf d.magnitudeText).length = d.scale ∧
      Nat.ofDigitChars 10 (digitsOf d.magnitudeText) 0 = d.coefficient.natAbs := by
  have hdig : ∀ c ∈ Nat.toDigits 10 d.coefficient.natAbs, c.isDigit := fun c hc =>
    Nat.isDigit_of_mem_toDigits (by decide) (by decide) hc
  have hof : Nat.ofDigitChars 10 (Nat.toDigits 10 d.coefficient.natAbs) 0 = d.coefficient.natAbs :=
    Nat.ofDigitChars_ten_toDigits
  unfold magnitudeText
  dsimp only
  generalize Nat.toDigits 10 d.coefficient.natAbs = digits at hdig hof
  split
  · next hs =>
    refine ⟨?_, by rw [digitsOf, filter_digits hdig, hof]⟩
    rw [fractionOf, List.dropWhile_eq_nil_iff.2 fun c hc => by simpa using ne_point_of_isDigit (hdig c hc), hs]
    rfl
  · split
    · next hle =>
      refine ⟨?_, ?_⟩
      · simp [fractionOf]
        omega
      · have : digitsOf ('0' :: '.' :: (List.replicate (d.scale - digits.length) '0' ++ digits)) =
            '0' :: (List.replicate (d.scale - digits.length) '0' ++ digits) := by
          simpa [digitsOf, List.filter_append] using fun c hc => ne_point_of_isDigit (hdig c hc)
        rw [this, Nat.ofDigitChars_cons, Nat.ofDigitChars_append, Nat.ofDigitChars_replicate_zero]
        simpa using hof
    · next hgt =>
      refine ⟨?_, ?_⟩
      · rw [fractionOf, dropWhile_digits fun c hc => hdig c (List.mem_of_mem_take hc)]
        simp
        omega
      · rw [digitsOf, List.filter_append, List.filter_cons_of_neg (by simp),
          filter_digits fun c hc => hdig c (List.mem_of_mem_take hc),
          filter_digits fun c hc => hdig c (List.mem_of_mem_drop hc), List.take_append_drop, hof]

/-- Reading a non-negative canonical text back. -/
theorem canonical_reads {d : ExactDecimal} (h : 0 ≤ d.coefficient) :
    (fractionOf d.canonical).length = d.scale ∧
      Nat.ofDigitChars 10 (digitsOf d.canonical) 0 = d.coefficient.natAbs := by
  rw [canonical, if_neg (not_lt.2 h)]
  exact d.magnitude_reads

/-- The canonical text determines a non-negative value. -/
theorem canonical_inj {a b : ExactDecimal} (ha : 0 ≤ a.coefficient) (hb : 0 ≤ b.coefficient)
    (h : a.canonical = b.canonical) : a = b := by
  obtain ⟨ha1, ha2⟩ := canonical_reads ha
  obtain ⟨hb1, hb2⟩ := canonical_reads hb
  have hs : a.scale = b.scale := by rw [← ha1, ← hb1, h]
  have hc : a.coefficient = b.coefficient := by
    have : a.coefficient.natAbs = b.coefficient.natAbs := by rw [← ha2, ← hb2, h]
    omega
  cases a
  cases b
  simp_all

/-! ## Parsing -/

/-- `str::len`: the UTF-8 length of a text. -/
def byteLen (text : List Char) : Nat := (text.map Char.utf8Size).sum

def isExponentMark (c : Char) : Bool := c = 'e' || c = 'E'

def inI32 (n : Int) : Bool := -2 ^ 31 ≤ n && n < 2 ^ 31

/-- Splits the sign off a lexeme. A leading `+` is refused. -/
def splitSign : List Char → Except DecimalError (Bool × List Char)
  | '-' :: rest => .ok (true, rest)
  | '+' :: _ => .error .invalidLexeme
  | lexeme => .ok (false, lexeme)

/-- The value of a signed run of digits. -/
def signedValue : List Char → Int
  | '-' :: digits => -(Nat.ofDigitChars 10 digits 0 : Int)
  | '+' :: digits => Nat.ofDigitChars 10 digits 0
  | digits => Nat.ofDigitChars 10 digits 0

def unsignedDigits : List Char → List Char
  | '-' :: digits => digits
  | '+' :: digits => digits
  | digits => digits

/-- Splits the mantissa from the exponent, which is 0 when none is written. -/
def splitExponent (grammar : DecimalGrammar) (unsigned : List Char) : Except DecimalError (List Char × Int) :=
  match unsigned.dropWhile (!isExponentMark ·) with
  | [] => .ok (unsigned, 0)
  | _ :: raw =>
    if !grammar.allowExponent || raw.any isExponentMark then .error .exponentForbidden
    else
      let digits := unsignedDigits raw
      if digits.isEmpty || byteLen digits > grammar.maxExponentDigits || !digits.all Char.isDigit then
        .error .invalidLexeme
      else if !inI32 (signedValue raw) then .error .invalidLexeme
      else if (signedValue raw).natAbs > grammar.maxExponentMagnitude then .error .exponentTooLarge
      else .ok (unsigned.takeWhile (!isExponentMark ·), signedValue raw)

/-- Splits a mantissa at its first point into whole and fractional digits. -/
def splitMantissa (mantissa : List Char) : Except DecimalError (List Char × List Char) :=
  let whole := mantissa.takeWhile (· ≠ '.')
  let fraction := fractionOf mantissa
  if whole.isEmpty || !whole.all Char.isDigit || !fraction.all Char.isDigit ||
      (mantissa.contains '.' && fraction.isEmpty) || (1 < whole.length && whole.head? = some '0') then
    .error .invalidLexeme
  else .ok (whole, fraction)

/-- The coefficient of a negative scale is multiplied out. -/
def scaleUp (coefficient : Nat) (scale : Int) : Option Int :=
  if scale < 0 then
    if InI128 (10 ^ scale.natAbs) ∧ InI128 (coefficient * 10 ^ scale.natAbs) then
      some (coefficient * 10 ^ scale.natAbs)
    else none
  else some coefficient

def withSign (negative : Bool) (coefficient : Int) : Int := if negative then -coefficient else coefficient

/-- The value of a checked mantissa, exponent and sign. -/
def assemble (negative : Bool) (whole fraction : List Char) (exponent : Int) (grammar : DecimalGrammar) :
    Except DecimalError ExactDecimal :=
  if byteLen (whole ++ fraction) > grammar.maxDigits then .error .precisionExceeded
  else
    let coefficient := Nat.ofDigitChars 10 (whole ++ fraction) 0
    if ¬ InI128 coefficient then .error .coefficientOverflow
    else if coefficient = 0 then normalize 0 0 (by decide) (by decide) grammar
    else
      let scale : Int := fraction.length - exponent
      if !inI32 scale then .error .scaleOverflow
      else
        match scaleUp coefficient scale with
        | none => .error .coefficientOverflow
        | some scaled =>
          if hc : InI128 (withSign negative scaled) then
            if hs : scale.toNat ≤ u16Max then normalize (withSign negative scaled) scale.toNat hc hs grammar
            else .error .scaleOverflow
          else .error .coefficientOverflow

def parse (lexeme : List Char) (grammar : DecimalGrammar) : Except DecimalError ExactDecimal :=
  if lexeme.isEmpty then .error .empty
  else if byteLen lexeme > grammar.maxLexemeBytes then .error .lexemeTooLong
  else do
    let (negative, unsigned) ← splitSign lexeme
    if negative && !grammar.allowNegative then .error .negativeForbidden
    else do
      let (mantissa, exponent) ← splitExponent grammar unsigned
      let (whole, fraction) ← splitMantissa mantissa
      assemble negative whole fraction exponent grammar

theorem assemble_nonneg {negative : Bool} {w f : List Char} {e : Int} {g : DecimalGrammar} {d : ExactDecimal}
    (hg : g.allowNegative = false) (h : assemble negative w f e g = .ok d) : 0 ≤ d.coefficient := by
  unfold assemble at h
  split at h
  · cases h
  · simp only at h
    split at h
    · cases h
    · split at h
      · exact normalize_nonneg hg h
      · split at h
        · cases h
        · split at h
          · cases h
          · split at h
            · split at h
              · exact normalize_nonneg hg h
              · cases h
            · cases h

theorem parse_nonneg {lexeme : List Char} {g : DecimalGrammar} {d : ExactDecimal}
    (hg : g.allowNegative = false) (h : parse lexeme g = .ok d) : 0 ≤ d.coefficient := by
  unfold parse at h
  split at h
  · cases h
  · split at h
    · cases h
    · cases hs : splitSign lexeme with
      | error e => simp [hs, bind, Except.bind] at h
      | ok sign =>
        simp only [hs, bind, Except.bind] at h
        split at h
        · cases h
        · cases he : splitExponent g sign.2 with
          | error e => simp [he] at h
          | ok split =>
            simp only [he] at h
            cases hm : splitMantissa split.1 with
            | error e => simp [hm] at h
            | ok parts =>
              simp only [hm] at h
              exact assemble_nonneg hg h

/-! ## Arithmetic -/

/-- `coefficient.checked_mul(10.checked_pow(shift))` in `i128`. -/
def shifted (coefficient : Int) (shift : Nat) : Option Int :=
  if InI128 (10 ^ shift) ∧ InI128 (coefficient * 10 ^ shift) then some (coefficient * 10 ^ shift) else none

def checkedAddWith (self other : ExactDecimal) (grammar : DecimalGrammar) : Except DecimalError ExactDecimal :=
  let scale := max self.scale other.scale
  match shifted self.coefficient (scale - self.scale), shifted other.coefficient (scale - other.scale) with
  | some left, some right =>
    if h : InI128 (left + right) then
      normalize (left + right) scale h (Nat.max_le.2 ⟨self.scale_le, other.scale_le⟩) grammar
    else .error .arithmeticOverflow
  | _, _ => .error .arithmeticOverflow

/-- `checked_neg`, which only the least `i128` refuses. -/
def checkedNeg (d : ExactDecimal) : Option ExactDecimal :=
  if h : InI128 (-d.coefficient) then
    some { coefficient := -d.coefficient, scale := d.scale, coefficient_inI128 := h, scale_le := d.scale_le,
           normal := fun hs => by have := d.normal hs; omega }
  else none

/-- `unit - self`. -/
def complement (self unit : ExactDecimal) (grammar : DecimalGrammar) : Except DecimalError ExactDecimal :=
  match self.checkedNeg with
  | some negated => unit.checkedAddWith negated grammar
  | none => .error .arithmeticOverflow

end ExactDecimal

/-! ## Prices and quantities -/

/-- A grammar with its sign rule overridden, as the decimal newtypes do. -/
def DecimalGrammar.unsigned (grammar : DecimalGrammar) : DecimalGrammar := { grammar with allowNegative := false }

structure Price where
  value : ExactDecimal
  nonneg : 0 ≤ value.coefficient
  deriving DecidableEq

structure Quantity where
  value : ExactDecimal
  nonneg : 0 ≤ value.coefficient
  deriving DecidableEq

def Price.parse (lexeme : List Char) (grammar : DecimalGrammar) : Except DecimalError Price :=
  match h : ExactDecimal.parse lexeme grammar.unsigned with
  | .ok value => .ok ⟨value, ExactDecimal.parse_nonneg rfl h⟩
  | .error e => .error e

def Quantity.parse (lexeme : List Char) (grammar : DecimalGrammar) : Except DecimalError Quantity :=
  match h : ExactDecimal.parse lexeme grammar.unsigned with
  | .ok value => .ok ⟨value, ExactDecimal.parse_nonneg rfl h⟩
  | .error e => .error e

def Price.cmp (self other : Price) : Ordering := self.value.cmp other.value

theorem Price.ext_value {a b : Price} (h : a.value = b.value) : a = b := by
  cases a; cases b; cases h; rfl

theorem Quantity.ext_value {a b : Quantity} (h : a.value = b.value) : a = b := by
  cases a; cases b; cases h; rfl

/-- Whether a quantity is exactly zero, read off its coefficient as the book does. -/
def Quantity.isZero (q : Quantity) : Bool := q.value.coefficient = 0

end PmWs
