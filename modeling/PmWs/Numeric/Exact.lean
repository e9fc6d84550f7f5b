import PmWs.Numeric.Value

/-!
# Parsing is exact and canonical

The numerals of a grammar are a type of their own: sign, whole digits, fraction
and exponent, each field as it is written. Every accepted lexeme is the text of
one, and the parsed decimal is its value in lowest terms, so equal results are
equal numbers. Writing a value out again undoes the parse only where the limits
on the written form leave room for the longer text.
-/

open MachineInt Fallible

namespace PmWs

namespace ExactDecimal

/-! ## Numerals -/

/-- An exponent as it is written: its mark, a sign if there is one, its digits. -/
structure WrittenExponent where
  mark : Char
  sign : Option Char
  digits : List Char
  mark_valid : mark = 'e' ∨ mark = 'E'
  sign_valid : ∀ c ∈ sign, c = '+' ∨ c = '-'
  digits_ne : digits ≠ []
  digits_valid : ∀ c ∈ digits, c.isDigit

namespace WrittenExponent

def text (e : WrittenExponent) : List Char := e.mark :: (e.sign.toList ++ e.digits)

def value (e : WrittenExponent) : Int :=
  if e.sign = some '-' then -(Nat.ofDigitChars 10 e.digits 0 : Int) else Nat.ofDigitChars 10 e.digits 0

end WrittenExponent

/-- A decimal numeral. An empty fraction is one that is not written. -/
structure Numeral where
  negative : Bool
  whole : List Char
  fraction : List Char
  exponent : Option WrittenExponent
  whole_ne : whole ≠ []
  whole_digits : ∀ c ∈ whole, c.isDigit
  no_leading_zero : 1 < whole.length → whole.head? ≠ some '0'
  fraction_digits : ∀ c ∈ fraction, c.isDigit

namespace Numeral

def exponentText (n : Numeral) : List Char := (n.exponent.map WrittenExponent.text).getD []

def unsignedText (n : Numeral) : List Char := n.whole ++ pointed n.fraction ++ n.exponentText

def text (n : Numeral) : List Char := if n.negative then '-' :: n.unsignedText else n.unsignedText

/-- The rational number a numeral denotes. -/
def value (n : Numeral) : ℚ :=
  (if n.negative then -1 else 1) *
    ((Nat.ofDigitChars 10 n.whole 0 + Nat.ofDigitChars 10 n.fraction 0 / 10 ^ n.fraction.length) *
      10 ^ (n.exponent.map WrittenExponent.value).getD 0)

/-- A minus and an exponent are written only where the grammar has them. -/
structure AdmittedBy (n : Numeral) (g : DecimalGrammar) : Prop where
  negative : n.negative = true → g.allowNegative = true
  exponent : n.exponent.isSome = true → g.allowExponent = true

end Numeral

/-! ## What a numeral's text denotes -/

theorem isExponentMark_eq_false {c : Char} (h : c.isDigit ∨ c = '.') : isExponentMark c = false := by
  rw [Bool.eq_false_iff]
  intro hmark
  simp only [isExponentMark, Bool.or_eq_true, decide_eq_true_eq] at hmark
  rcases hmark with rfl | rfl <;> exact absurd h (by decide)

theorem pointed_chars {fraction : List Char} (h : ∀ c ∈ fraction, c.isDigit) :
    ∀ c ∈ pointed fraction, c.isDigit ∨ c = '.' := by
  intro c hc
  unfold pointed at hc
  split at hc
  · cases hc
  · rcases List.mem_cons.1 hc with rfl | hc
    · exact .inr rfl
    · exact .inl (h c hc)

theorem signedValue_digits {digits : List Char} (h : ∀ c ∈ digits, c.isDigit) :
    signedValue digits = Nat.ofDigitChars 10 digits 0 := by
  unfold signedValue
  split
  · exact absurd (h _ (.head _)) (by decide)
  · exact absurd (h _ (.head _)) (by decide)
  · rfl

namespace Numeral

/-- Neither digits nor the point mark an exponent. -/
theorem mantissa_unmarked (n : Numeral) : ∀ c ∈ n.whole ++ pointed n.fraction, (!isExponentMark c) = true := by
  intro c hc
  have hchar : c.isDigit ∨ c = '.' := by
    rcases List.mem_append.1 hc with hc | hc
    · exact .inl (n.whole_digits c hc)
    · exact pointed_chars n.fraction_digits c hc
  rw [isExponentMark_eq_false hchar]
  rfl

theorem mantissaDenoted_eq (n : Numeral) :
    mantissaDenoted (n.whole ++ pointed n.fraction) =
      Nat.ofDigitChars 10 n.whole 0 + Nat.ofDigitChars 10 n.fraction 0 / 10 ^ n.fraction.length := by
  have hsplit : splitMantissa (n.whole ++ pointed n.fraction) = .ok (n.whole, n.fraction) := by
    unfold pointed
    split
    · next hnil =>
      rw [List.append_nil, hnil]
      exact splitMantissa_whole n.whole_ne n.whole_digits n.no_leading_zero
    · next hne => exact splitMantissa_point n.whole_ne n.whole_digits n.no_leading_zero hne n.fraction_digits
  obtain ⟨hwhole, hfraction⟩ := splitMantissa_ok hsplit
  unfold mantissaDenoted
  rw [← hwhole, ← hfraction]

/-- The text splits at the exponent's mark, and nowhere before it. -/
theorem split_unsignedText (n : Numeral) :
    n.unsignedText.takeWhile (!isExponentMark ·) = n.whole ++ pointed n.fraction ∧
      n.unsignedText.dropWhile (!isExponentMark ·) = n.exponentText := by
  unfold unsignedText exponentText
  rw [List.takeWhile_append_of_pos n.mantissa_unmarked, List.dropWhile_append_of_pos n.mantissa_unmarked]
  cases n.exponent with
  | none => exact ⟨List.append_nil _, rfl⟩
  | some e =>
    have hmark : isExponentMark e.mark = true := by
      rcases e.mark_valid with h | h <;> rw [h] <;> decide
    rw [Option.map_some, Option.getD_some, WrittenExponent.text]
    constructor
    · rw [List.takeWhile_cons_of_neg (by rw [hmark]; decide), List.append_nil]
    · rw [List.dropWhile_cons_of_neg (by rw [hmark]; decide)]

theorem exponentDenoted_eq (n : Numeral) :
    exponentDenoted n.exponentText = (n.exponent.map WrittenExponent.value).getD 0 := by
  unfold exponentText
  cases n.exponent with
  | none => rfl
  | some e =>
    change signedValue (e.sign.toList ++ e.digits) = e.value
    unfold WrittenExponent.value
    cases hsign : e.sign with
    | none =>
      rw [if_neg (by simp)]
      exact signedValue_digits e.digits_valid
    | some c =>
      rcases e.sign_valid c hsign with rfl | rfl
      · rw [if_neg (by decide)]
        rfl
      · rw [if_pos rfl]
        rfl

theorem denoted_text (n : Numeral) : denoted n.text = n.value := by
  have hunsigned : unsignedDenoted n.unsignedText =
      (Nat.ofDigitChars 10 n.whole 0 + Nat.ofDigitChars 10 n.fraction 0 / 10 ^ n.fraction.length) *
        10 ^ (n.exponent.map WrittenExponent.value).getD 0 := by
    obtain ⟨htake, hdrop⟩ := n.split_unsignedText
    unfold unsignedDenoted
    rw [htake, hdrop, n.mantissaDenoted_eq, n.exponentDenoted_eq]
  unfold text value
  rw [← hunsigned]
  split
  · exact (neg_one_mul _).symm
  · -- The text starts with a digit, not with a minus.
    have hplain : denoted n.unsignedText = unsignedDenoted n.unsignedText := by
      unfold denoted
      split
      · next rest heq =>
        unfold unsignedText at heq
        cases hwhole : n.whole with
        | nil => exact absurd hwhole n.whole_ne
        | cons c whole =>
          rw [hwhole] at heq
          cases heq
          exact absurd (n.whole_digits '-' (by rw [hwhole]; exact .head _)) (by decide)
      · rfl
    rw [hplain, one_mul]

end Numeral

/-! ## Accepted lexemes are numerals -/

variable {g : DecimalGrammar} {d : ExactDecimal} {lexeme : List Char}

theorem splitExponent_written {unsigned mantissa : List Char} {exponent : Int}
    (h : splitExponent g unsigned = .ok (mantissa, exponent)) :
    ∃ written : Option WrittenExponent, unsigned = mantissa ++ (written.map WrittenExponent.text).getD [] ∧
      (written.isSome = true → g.allowExponent = true) := by
  have hall := List.takeWhile_append_dropWhile (p := fun c => !isExponentMark c) (l := unsigned)
  unfold splitExponent at h
  split at h
  · cases h
    exact ⟨none, (List.append_nil _).symm, nofun⟩
  · next mark raw hmark =>
    dsimp only at h
    simp only [ite_error_eq_ok] at h
    obtain ⟨hallowed, hdigits, -, -, h⟩ := h
    cases h
    simp only [Bool.or_eq_true, Bool.not_eq_true', List.isEmpty_iff, decide_eq_true_eq, not_or, Bool.not_eq_false,
      List.all_eq_true] at hallowed hdigits
    obtain ⟨⟨hne, -⟩, hvalid⟩ := hdigits
    have hmarked : mark = 'e' ∨ mark = 'E' := by
      have hhead := List.head?_dropWhile_not (fun c => !isExponentMark c) unsigned
      rw [hmark] at hhead
      simpa [isExponentMark, or_iff_not_imp_left] using hhead
    -- The sign, if any, is what stripping it took off.
    obtain ⟨sign, hsign, hraw⟩ : ∃ sign : Option Char, (∀ c ∈ sign, c = '+' ∨ c = '-') ∧
        raw = sign.toList ++ unsignedDigits raw := by
      unfold unsignedDigits
      split
      · exact ⟨some '-', by simp, rfl⟩
      · exact ⟨some '+', by simp, rfl⟩
      · exact ⟨none, nofun, rfl⟩
    refine ⟨some ⟨mark, sign, unsignedDigits raw, hmarked, hsign, hne, hvalid⟩, ?_, fun _ => hallowed.1⟩
    rw [hmark] at hall
    rw [Option.map_some, Option.getD_some, WrittenExponent.text, ← hraw, hall]

theorem parse_numeral (h : parse lexeme g = .ok d) : ∃ n : Numeral, n.text = lexeme ∧ n.AdmittedBy g := by
  obtain ⟨negative, unsigned, mantissa, exponent, whole, fraction, hsign, hallowed, hexponent, hmantissa, -⟩ := parse_parts h
  obtain ⟨written, hunsigned, hwritten⟩ := splitExponent_written hexponent
  obtain ⟨hmantissa, hne, hwhole, hfraction, hlead⟩ := splitMantissa_checks hmantissa
  refine ⟨⟨negative, whole, fraction, written, hne, hwhole, hlead, hfraction⟩, ?_, hallowed, hwritten⟩
  have htext : Numeral.unsignedText ⟨negative, whole, fraction, written, hne, hwhole, hlead, hfraction⟩ = unsigned := by
    rw [hunsigned, hmantissa]
    rfl
  unfold Numeral.text
  rw [htext]
  unfold splitSign at hsign
  split at hsign
  · cases hsign
    rfl
  · cases hsign
  · cases hsign
    rfl

/-! ## Limits on an accepted value -/

theorem stripZeros_natAbs_le (c : Int) (s : Nat) : (stripZeros c s).1.natAbs ≤ c.natAbs := by
  induction s generalizing c with
  | zero => rfl
  | succ s ih =>
    unfold stripZeros
    split
    · exact (ih (c / 10)).trans (by omega)
    · rfl

theorem normalize_limits {c : Int} {s : Nat} {hc : InI128 c} {hs : s ≤ u16Max} (h : normalize c s hc hs g = .ok d) :
    (d.coefficient < 0 → g.allowNegative = true) ∧ (Nat.toDigits 10 d.coefficient.natAbs).length ≤ g.maxDigits ∧
      d.coefficient.natAbs ≤ c.natAbs := by
  unfold normalize at h
  simp only [ite_error_eq_ok] at h
  obtain ⟨hsign, -, hdigits, h⟩ := h
  cases h
  refine ⟨fun hneg => ?_, Nat.not_lt.1 hdigits, stripZeros_natAbs_le c s⟩
  have hc : c < 0 := by
    by_contra hpos
    exact absurd hneg (not_lt.2 (stripZeros_nonneg (not_lt.1 hpos) s))
  simpa [hc] using hsign

theorem scaleUp_range {coefficient : Nat} {scale scaled : Int} (hrange : InI128 coefficient)
    (h : scaleUp coefficient scale = some scaled) : InI128 scaled ∧ 0 ≤ scaled := by
  unfold scaleUp at h
  split at h
  · split at h
    · next hscaled =>
      cases h
      exact ⟨hscaled.2, by positivity⟩
    · cases h
  · cases h
    exact ⟨hrange, Int.natCast_nonneg _⟩

theorem natAbs_withSign (negative : Bool) (c : Int) : (withSign negative c).natAbs = c.natAbs := by
  cases negative
  · rfl
  · exact Int.natAbs_neg c

theorem parse_limits (h : parse lexeme g = .ok d) :
    (d.coefficient < 0 → g.allowNegative = true) ∧ (Nat.toDigits 10 d.coefficient.natAbs).length ≤ g.maxDigits ∧
      InI128 d.coefficient.natAbs := by
  obtain ⟨negative, _, _, exponent, whole, fraction, -, -, -, -, h⟩ := parse_parts h
  unfold assemble at h
  dsimp only at h
  rw [ite_error_eq_ok, ite_error_eq_ok, not_not] at h
  obtain ⟨-, hrange, h⟩ := h
  split at h
  · obtain ⟨hsign, hdigits, hle⟩ := normalize_limits h
    obtain hzero : d.coefficient.natAbs = 0 := Nat.le_zero.1 hle
    exact ⟨hsign, hdigits, by rw [hzero]; decide⟩
  · rw [ite_error_eq_ok] at h
    obtain ⟨-, h⟩ := h
    split at h
    · cases h
    · next scaled hscaled =>
      obtain ⟨hscaled, hpos⟩ := scaleUp_range hrange hscaled
      split at h
      · split at h
        · obtain ⟨hsign, hdigits, hle⟩ := normalize_limits h
          refine ⟨hsign, hdigits, ?_⟩
          rw [natAbs_withSign] at hle
          unfold InI128 at hscaled ⊢
          omega
        · cases h
      · cases h

/-! ## Exactness -/

/-- An accepted lexeme is a numeral of its grammar, and the result is its value in lowest terms within the grammar's
limits. Two accepted lexemes give one decimal exactly where they denote one number. -/
theorem parse_exact {lexeme : List Char} {g : DecimalGrammar} {d : ExactDecimal} (h : parse lexeme g = .ok d) :
    (∃ n : Numeral, n.text = lexeme ∧ n.AdmittedBy g) ∧
      (∀ n : Numeral, n.text = lexeme → (d.coefficient : ℚ) * 10 ^ (-(d.scale : Int)) = n.value) ∧
      (d.scale = 0 ∨ ¬ 10 ∣ d.coefficient) ∧ d.scale ≤ g.maxScale ∧
      (Nat.toDigits 10 d.coefficient.natAbs).length ≤ g.maxDigits ∧
      ∀ {lexeme' : List Char} {g' : DecimalGrammar} {d' : ExactDecimal} (n n' : Numeral), parse lexeme' g' = .ok d' →
        n.text = lexeme → n'.text = lexeme' → (d = d' ↔ n.value = n'.value) := by
  have hvalue {lexeme g d} (h : parse lexeme g = .ok d) (n : Numeral) (hn : n.text = lexeme) : d.toRat = n.value := by
    rw [(parse_value h).1, ← hn, n.denoted_text]
  refine ⟨parse_numeral h, fun n hn => ?_, ?_, (parse_value h).2, (parse_limits h).2.1, ?_⟩
  · rw [zpow_neg, zpow_natCast, ← div_eq_mul_inv]
    exact hvalue h n hn
  · refine or_iff_not_imp_left.2 fun hscale hdvd => d.normal hscale ?_
    exact Int.emod_eq_zero_of_dvd hdvd
  · intro lexeme' g' d' n n' h' hn hn'
    rw [← hvalue h n hn, ← hvalue h' n' hn']
    exact ⟨fun heq => heq ▸ rfl, toRat_inj⟩

/-- An exponent and a written-out fraction denote one number and parse to one decimal. -/
theorem example_parse_exact : ∃ g d, DecimalGrammar.new 4 8 true true = .ok g ∧ parse "-12.50e-1".toList g = .ok d ∧
    parse "-1.25".toList g = .ok d ∧ (∃ n : Numeral, n.text = "-12.50e-1".toList ∧ n.AdmittedBy g) ∧
    (∀ n : Numeral, n.text = "-12.50e-1".toList → (d.coefficient : ℚ) * 10 ^ (-(d.scale : Int)) = n.value) ∧
    d.coefficient = -125 ∧ d.scale = 2 := by
  have hparse : parse "-12.50e-1".toList ⟨4, 8, true, true, 128, 5, 99999⟩ =
      .ok ⟨-125, 2, by decide, by decide, by decide⟩ := by decide
  exact ⟨_, _, rfl, hparse, by decide, (parse_exact hparse).1, (parse_exact hparse).2.1, rfl, rfl⟩

/-! ## Writing a value out again -/

/-- The text an accepted value is written as parses back exactly where the value, written out, fits the limits on digits
and bytes. -/
theorem parse_own_text_iff {lexeme : List Char} {g : DecimalGrammar} {d : ExactDecimal} (h : parse lexeme g = .ok d) :
    parse d.canonical g = .ok d ↔ d.writtenDigits ≤ g.maxDigits ∧ d.writtenBytes ≤ g.maxLexemeBytes := by
  obtain ⟨hsign, hdigits, hrange⟩ := parse_limits h
  exact parse_canonical_iff hsign hrange (parse_value h).2 hdigits

theorem example_own_text : ∃ g d, DecimalGrammar.new 4 8 true true = .ok g ∧ parse "-12.50e-1".toList g = .ok d ∧
    parse d.canonical g = .ok d := by
  have hparse : parse "-12.50e-1".toList ⟨4, 8, true, true, 128, 5, 99999⟩ =
      .ok ⟨-125, 2, by decide, by decide, by decide⟩ := by decide
  exact ⟨_, _, rfl, hparse, (parse_own_text_iff hparse).2 (by decide)⟩

/-- One digit and an exponent fit the widest grammar; the forty digits they are written out as do not. -/
theorem own_text_refused : ∃ g d, DecimalGrammar.new u16Max 39 true true = .ok g ∧ parse "1e-39".toList g = .ok d ∧
    parse d.canonical g = .error .precisionExceeded := by
  refine ⟨_, ⟨1, 39, by decide, by decide, by decide⟩, rfl, ?_, ?_⟩
  · decide
  · decide

end ExactDecimal

end PmWs
