import Mathlib.Algebra.Order.Field.Power
import PmWs.Lib.Fallible
import PmWs.Numeric.Lexeme

/-!
# What a lexeme denotes

A lexeme denotes a rational: its digits, its point, its exponent. Parsing gives
the decimal of that rational, and a decimal's own text parses back to it.
-/

open MachineInt Fallible

namespace PmWs

namespace ExactDecimal

variable {g : DecimalGrammar} {d : ExactDecimal} {whole fraction mantissa : List Char}

/-! ## Denotation -/

/-- The exponent an exponent part writes, 0 where there is none. -/
def exponentDenoted : List Char → Int
  | [] => 0
  | _ :: digits => signedValue digits

/-- `whole.fraction`. -/
def mantissaDenoted (mantissa : List Char) : ℚ :=
  Nat.ofDigitChars 10 (mantissa.takeWhile (· ≠ '.')) 0 +
    Nat.ofDigitChars 10 (fractionOf mantissa) 0 / 10 ^ (fractionOf mantissa).length

/-- `mantissa e exponent`. -/
def unsignedDenoted (text : List Char) : ℚ :=
  mantissaDenoted (text.takeWhile (!isExponentMark ·)) * 10 ^ exponentDenoted (text.dropWhile (!isExponentMark ·))

/-- The rational a decimal lexeme denotes. -/
def denoted : List Char → ℚ
  | '-' :: text => -unsignedDenoted text
  | text => unsignedDenoted text

/-! ## Parsing gives what is denoted -/

theorem stripZeros_toRat (c : Int) (s : Nat) :
    ((stripZeros c s).1 : ℚ) / 10 ^ (stripZeros c s).2 = c / 10 ^ s := by
  induction s generalizing c with
  | zero => rfl
  | succ s ih =>
    unfold stripZeros
    split
    · next hzero =>
      obtain ⟨quotient, rfl⟩ := Int.dvd_of_emod_eq_zero hzero
      rw [ih, Int.mul_ediv_cancel_left _ (by decide), pow_succ]
      push_cast
      field_simp
    · rfl

theorem normalize_ok {c : Int} {s : Nat} {hc : InI128 c} {hs : s ≤ u16Max}
    (h : normalize c s hc hs g = .ok d) : d.toRat = c / 10 ^ s ∧ d.scale ≤ g.maxScale := by
  unfold normalize at h
  simp only [ite_error_eq_ok] at h
  obtain ⟨-, hscale, -, h⟩ := h
  cases h
  exact ⟨stripZeros_toRat c s, (stripZeros_scale_le c s).trans (Nat.not_lt.1 hscale)⟩

theorem ofDigitChars_init (digits : List Char) (init : Nat) :
    Nat.ofDigitChars 10 digits init = init * 10 ^ digits.length + Nat.ofDigitChars 10 digits 0 := by
  induction digits generalizing init with
  | nil => simp
  | cons c digits ih =>
    rw [Nat.ofDigitChars_cons, Nat.ofDigitChars_cons, ih, ih (10 * 0 + _), List.length_cons, pow_succ]
    ring

theorem scaleUp_eq {coefficient : Nat} {scale scaled : Int} (h : scaleUp coefficient scale = some scaled) :
    (scaled : ℚ) / 10 ^ scale.toNat = coefficient * 10 ^ (-scale) := by
  unfold scaleUp at h
  split at h
  · next hneg =>
    split at h <;> cases h
    have hscale : scale = -(scale.natAbs : Int) := by omega
    rw [show scale.toNat = 0 by omega, pow_zero, div_one]
    push_cast
    rw [← zpow_natCast]
    congr 2
    omega
  · next hpos =>
    cases h
    have hscale : scale = (scale.toNat : Int) := by omega
    nth_rewrite 2 [hscale]
    rw [zpow_neg, zpow_natCast, div_eq_mul_inv]
    rfl

theorem assemble_value {negative : Bool} {exponent : Int} (h : assemble negative whole fraction exponent g = .ok d) :
    d.toRat = (if negative then -1 else 1) *
      ((Nat.ofDigitChars 10 whole 0 + Nat.ofDigitChars 10 fraction 0 / 10 ^ fraction.length) * 10 ^ exponent) ∧
    d.scale ≤ g.maxScale := by
  have hten : (10 : ℚ) ≠ 0 := by norm_num
  -- Without its point, the mantissa is the coefficient over a power of ten.
  have hmantissa : ((Nat.ofDigitChars 10 whole 0 : ℚ) + Nat.ofDigitChars 10 fraction 0 / 10 ^ fraction.length) *
      10 ^ exponent = Nat.ofDigitChars 10 (whole ++ fraction) 0 * 10 ^ (-(fraction.length - exponent : Int)) := by
    rw [Nat.ofDigitChars_append, ofDigitChars_init fraction (Nat.ofDigitChars 10 whole 0), neg_sub, zpow_sub₀ hten, zpow_natCast]
    push_cast
    field_simp
  rw [hmantissa]
  unfold assemble at h
  dsimp only at h
  rw [ite_error_eq_ok, ite_error_eq_ok] at h
  obtain ⟨-, -, h⟩ := h
  split at h
  · next hzero =>
    obtain ⟨hvalue, hscale⟩ := normalize_ok h
    refine ⟨?_, hscale⟩
    rw [hvalue, hzero]
    simp
  · rw [ite_error_eq_ok] at h
    obtain ⟨-, h⟩ := h
    split at h
    · cases h
    · next scaled hscaled =>
      split at h
      · split at h
        · obtain ⟨hvalue, hscale⟩ := normalize_ok h
          refine ⟨?_, hscale⟩
          rw [hvalue, ← scaleUp_eq hscaled]
          cases negative <;> simp [withSign, neg_div]
        · cases h
      · cases h

theorem splitExponent_ok {unsigned : List Char} {exponent : Int}
    (h : splitExponent g unsigned = .ok (mantissa, exponent)) :
    mantissa = unsigned.takeWhile (!isExponentMark ·) ∧
      exponent = exponentDenoted (unsigned.dropWhile (!isExponentMark ·)) := by
  unfold splitExponent at h
  split at h
  · next hnone =>
    cases h
    have hall := List.takeWhile_append_dropWhile (p := fun c => !isExponentMark c) (l := mantissa)
    rw [hnone, List.append_nil] at hall
    exact ⟨hall.symm, by rw [hnone]; rfl⟩
  · next hmark =>
    dsimp only at h
    simp only [ite_error_eq_ok] at h
    obtain ⟨-, -, -, -, h⟩ := h
    cases h
    exact ⟨rfl, by rw [hmark]; rfl⟩

theorem splitMantissa_ok (h : splitMantissa mantissa = .ok (whole, fraction)) :
    whole = mantissa.takeWhile (· ≠ '.') ∧ fraction = fractionOf mantissa := by
  unfold splitMantissa at h
  dsimp only at h
  rw [ite_error_eq_ok] at h
  cases h.2
  exact ⟨rfl, rfl⟩

/-- What an accepted lexeme was split into. -/
theorem parse_parts {lexeme : List Char} (h : parse lexeme g = .ok d) :
    ∃ negative unsigned mantissa exponent whole fraction, splitSign lexeme = .ok (negative, unsigned) ∧
      (negative = true → g.allowNegative = true) ∧ splitExponent g unsigned = .ok (mantissa, exponent) ∧
      splitMantissa mantissa = .ok (whole, fraction) ∧ assemble negative whole fraction exponent g = .ok d := by
  unfold parse at h
  rw [ite_error_eq_ok, ite_error_eq_ok, bind_eq_ok] at h
  obtain ⟨-, -, ⟨negative, unsigned⟩, hsign, h⟩ := h
  dsimp only at h
  rw [ite_error_eq_ok, bind_eq_ok] at h
  obtain ⟨hallowed, ⟨mantissa, exponent⟩, hexponent, h⟩ := h
  rw [bind_eq_ok] at h
  obtain ⟨⟨whole, fraction⟩, hmantissa, h⟩ := h
  refine ⟨negative, unsigned, mantissa, exponent, whole, fraction, hsign, fun hneg => ?_, hexponent, hmantissa, h⟩
  simpa [hneg] using hallowed

/-- A lexeme that parses gives the decimal of the rational it denotes, within the grammar's scale. -/
theorem parse_value {lexeme : List Char} (h : parse lexeme g = .ok d) :
    d.toRat = denoted lexeme ∧ d.scale ≤ g.maxScale := by
  obtain ⟨negative, unsigned, mantissa, exponent, whole, fraction, hsign, -, hexponent, hmantissa, h⟩ := parse_parts h
  obtain ⟨rfl, rfl⟩ := splitExponent_ok hexponent
  obtain ⟨rfl, rfl⟩ := splitMantissa_ok hmantissa
  obtain ⟨hvalue, hscale⟩ := assemble_value h
  refine ⟨?_, hscale⟩
  rw [hvalue]
  change _ * unsignedDenoted unsigned = _
  unfold splitSign at hsign
  split at hsign
  · cases hsign
    exact neg_one_mul _
  · cases hsign
  · next hminus _ =>
    cases hsign
    have hplain : denoted lexeme = unsignedDenoted lexeme := by
      unfold denoted
      split
      · exact (hminus _ rfl).elim
      · rfl
    rw [hplain]
    exact one_mul _

/-! ## A decimal's own text parses back -/

theorem digitChar_ne_zero {n : Nat} (hpos : 0 < n) (hlt : n < 10) : n.digitChar ≠ '0' := by
  have hcases : ∀ n : Fin 10, 0 < n.val → n.val.digitChar ≠ '0' := by decide
  exact hcases ⟨n, hlt⟩ hpos

/-- A number that is not zero is written without a leading zero. -/
theorem toDigits_head {n : Nat} (hpos : 0 < n) : (Nat.toDigits 10 n).head? ≠ some '0' := by
  induction n using Nat.strong_induction_on with
  | _ n ih =>
    by_cases hlt : n < 10
    · rw [Nat.toDigits_of_lt_base hlt]
      exact fun h => digitChar_ne_zero hpos hlt (Option.some.inj h)
    · rw [Nat.toDigits_of_base_le (by decide) (Nat.not_lt.1 hlt), List.head?_append_of_ne_nil _ Nat.toDigits_ne_nil]
      exact ih (n / 10) (by omega) (by omega)

theorem toDigits_head_of_long {n : Nat} (h : 1 < (Nat.toDigits 10 n).length) : (Nat.toDigits 10 n).head? ≠ some '0' := by
  refine toDigits_head (Nat.pos_of_ne_zero ?_)
  rintro rfl
  exact absurd h (by decide)

theorem stripZeros_self : stripZeros d.coefficient d.scale = (d.coefficient, d.scale) := by
  have hnormal := d.normal
  cases hs : d.scale with
  | zero => rfl
  | succ s =>
    unfold stripZeros
    rw [if_neg (hnormal (by omega))]

theorem normalize_self (hsign : d.coefficient < 0 → g.allowNegative = true)
    (hscale : d.scale ≤ g.maxScale) (hdigits : (Nat.toDigits 10 d.coefficient.natAbs).length ≤ g.maxDigits) :
    normalize d.coefficient d.scale d.coefficient_inI128 d.scale_le g = .ok d := by
  unfold normalize
  rw [if_neg (by rintro ⟨hneg, hforbidden⟩; rw [hsign hneg] at hforbidden; cases hforbidden), if_neg (by omega)]
  simp only [stripZeros_self]
  rw [if_neg (by omega)]

theorem splitMantissa_whole (hne : whole ≠ []) (hdigits : ∀ c ∈ whole, c.isDigit)
    (hlead : 1 < whole.length → whole.head? ≠ some '0') : splitMantissa whole = .ok (whole, []) := by
  have hpoint : ∀ c ∈ whole, decide (c ≠ '.') = true := fun c hc => decide_eq_true (ne_point_of_isDigit (hdigits c hc))
  have htake : whole.takeWhile (· ≠ '.') = whole := List.takeWhile_eq_self_iff.2 hpoint
  have hfraction : fractionOf whole = [] := by
    unfold fractionOf
    rw [List.dropWhile_eq_nil_iff.2 hpoint]
    rfl
  unfold splitMantissa
  rw [htake, hfraction, if_neg]
  simp only [Bool.or_eq_true, Bool.and_eq_true, Bool.not_eq_true', List.isEmpty_iff, decide_eq_true_eq, List.contains_iff_mem,
    List.all_eq_false, List.not_mem_nil, false_and, exists_false, or_false, and_true, not_or, not_and, not_exists, not_not]
  exact ⟨⟨⟨hne, hdigits⟩, fun hmem => ne_point_of_isDigit (hdigits _ hmem) rfl⟩, hlead⟩

theorem splitMantissa_point (hne : whole ≠ []) (hdigits : ∀ c ∈ whole, c.isDigit)
    (hlead : 1 < whole.length → whole.head? ≠ some '0') (hne' : fraction ≠ []) (hdigits' : ∀ c ∈ fraction, c.isDigit) :
    splitMantissa (whole ++ '.' :: fraction) = .ok (whole, fraction) := by
  have hpoint : ∀ c ∈ whole, decide (c ≠ '.') = true := fun c hc => decide_eq_true (ne_point_of_isDigit (hdigits c hc))
  have htake : (whole ++ '.' :: fraction).takeWhile (· ≠ '.') = whole := by
    rw [List.takeWhile_append_of_pos hpoint, List.takeWhile_cons_of_neg (by simp), List.append_nil]
  have hfraction : fractionOf (whole ++ '.' :: fraction) = fraction := by
    unfold fractionOf
    rw [dropWhile_digits hdigits]
    rfl
  unfold splitMantissa
  rw [htake, hfraction, if_neg]
  simp only [Bool.or_eq_true, Bool.and_eq_true, Bool.not_eq_true', List.isEmpty_iff, decide_eq_true_eq, List.all_eq_false,
    not_or, not_and, not_exists, not_not]
  exact ⟨⟨⟨⟨hne, hdigits⟩, hdigits'⟩, fun _ => hne'⟩, hlead⟩

/-- A magnitude is a mantissa of the digits its value is written with. -/
theorem magnitude_mantissa (d : ExactDecimal) : ∃ whole fraction,
    splitMantissa d.magnitudeText = .ok (whole, fraction) ∧ whole ++ fraction = digitsOf d.magnitudeText ∧
    (whole ++ fraction).length = d.writtenDigits := by
  have hdigits : ∀ c ∈ Nat.toDigits 10 d.coefficient.natAbs, c.isDigit := fun c hc =>
    Nat.isDigit_of_mem_toDigits (by decide) (by decide) hc
  have hlead := @toDigits_head_of_long d.coefficient.natAbs
  have hne : Nat.toDigits 10 d.coefficient.natAbs ≠ [] := Nat.toDigits_ne_nil
  have hdigitsOf : ∀ {whole fraction : List Char}, (∀ c ∈ whole, c.isDigit) → (∀ c ∈ fraction, c.isDigit) →
      whole ++ fraction = digitsOf (whole ++ '.' :: fraction) := by
    intro whole fraction hwhole hfraction
    unfold digitsOf
    rw [List.filter_append, List.filter_cons_of_neg (by simp), filter_digits hwhole, filter_digits hfraction]
  unfold magnitudeText writtenDigits
  dsimp only
  generalize Nat.toDigits 10 d.coefficient.natAbs = digits at *
  split
  · refine ⟨digits, [], splitMantissa_whole hne hdigits hlead, ?_, by rw [List.append_nil]⟩
    unfold digitsOf
    rw [filter_digits hdigits, List.append_nil]
  · next hscale =>
    split
    · next hle =>
      have hfraction : ∀ c ∈ List.replicate (d.scale - digits.length) '0' ++ digits, c.isDigit := by
        intro c hc
        rcases List.mem_append.1 hc with hc | hc
        · rw [List.eq_of_mem_replicate hc]
          decide
        · exact hdigits c hc
      have hzero : ∀ c ∈ ['0'], c.isDigit := List.forall_mem_singleton.2 rfl
      refine ⟨['0'], List.replicate (d.scale - digits.length) '0' ++ digits,
        splitMantissa_point (by simp) hzero (by simp) (by simp [hne]) hfraction, hdigitsOf hzero hfraction, ?_⟩
      simp only [List.length_append, List.length_cons, List.length_replicate, List.length_nil]
      omega
    · next hgt =>
      have htake : ∀ c ∈ digits.take (digits.length - d.scale), c.isDigit := fun c hc => hdigits c (List.mem_of_mem_take hc)
      have hdrop : ∀ c ∈ digits.drop (digits.length - d.scale), c.isDigit := fun c hc => hdigits c (List.mem_of_mem_drop hc)
      refine ⟨digits.take (digits.length - d.scale), digits.drop (digits.length - d.scale),
        splitMantissa_point ?_ htake ?_ ?_ hdrop, hdigitsOf htake hdrop, ?_⟩
      · exact List.ne_nil_of_length_pos (by rw [List.length_take]; omega)
      · intro hlong
        rw [List.length_take] at hlong
        rw [List.head?_take, if_neg (by omega)]
        exact hlead (by omega)
      · exact List.ne_nil_of_length_pos (by rw [List.length_drop]; omega)
      · rw [List.take_append_drop]
        omega

/-- A fraction as it is written, with its point; nothing where there are no digits. -/
def pointed (fraction : List Char) : List Char := if fraction = [] then [] else '.' :: fraction

theorem splitMantissa_checks (h : splitMantissa mantissa = .ok (whole, fraction)) :
    mantissa = whole ++ pointed fraction ∧ whole ≠ [] ∧ (∀ c ∈ whole, c.isDigit) ∧ (∀ c ∈ fraction, c.isDigit) ∧
      (1 < whole.length → whole.head? ≠ some '0') := by
  unfold splitMantissa at h
  dsimp only at h
  rw [ite_error_eq_ok] at h
  obtain ⟨hchecks, h⟩ := h
  cases h
  simp only [Bool.or_eq_true, Bool.and_eq_true, Bool.not_eq_true', List.isEmpty_iff, not_or, not_and, Bool.not_eq_false,
    List.all_eq_true, decide_eq_true_eq, List.contains_iff_mem] at hchecks
  obtain ⟨⟨⟨⟨hne, hwhole⟩, hfraction⟩, hpoint⟩, hlead⟩ := hchecks
  refine ⟨?_, hne, hwhole, hfraction, hlead⟩
  have hsplit := List.takeWhile_append_dropWhile (p := fun c => decide (c ≠ '.')) (l := mantissa)
  unfold pointed
  split
  · next hnone =>
    -- No digits after the point means no point.
    have hall : ∀ c ∈ mantissa, decide (c ≠ '.') = true := by
      rintro c hc
      refine decide_eq_true ?_
      rintro rfl
      exact hpoint hc hnone
    rw [List.append_nil, List.takeWhile_eq_self_iff.2 hall]
  · next hsome =>
    unfold fractionOf at hsome ⊢
    cases hrest : mantissa.dropWhile (· ≠ '.') with
    | nil =>
      rw [hrest] at hsome
      exact absurd rfl hsome
    | cons c rest =>
      have hc : c = '.' := by
        have := List.head?_dropWhile_not (fun c => decide (c ≠ '.')) mantissa
        rw [hrest] at this
        simpa using this
      rw [hrest, hc] at hsplit
      exact hsplit.symm

theorem splitMantissa_digits (h : splitMantissa mantissa = .ok (whole, fraction)) :
    whole ≠ [] ∧ ∀ c ∈ whole ++ fraction, c.isDigit := by
  obtain ⟨-, hne, hwhole, hfraction, -⟩ := splitMantissa_checks h
  exact ⟨hne, List.forall_mem_append.2 ⟨hwhole, hfraction⟩⟩

/-- A mantissa has no sign. -/
theorem splitSign_mantissa (h : splitMantissa mantissa = .ok (whole, fraction)) :
    mantissa ≠ [] ∧ splitSign mantissa = .ok (false, mantissa) := by
  obtain ⟨hne, hdigits⟩ := splitMantissa_digits h
  obtain ⟨rfl, -⟩ := splitMantissa_ok h
  cases mantissa with
  | nil => exact absurd rfl hne
  | cons c rest =>
    have hfirst : c ≠ '.' → c.isDigit := by
      intro hpoint
      refine hdigits c (List.mem_append_left _ ?_)
      rw [List.takeWhile_cons_of_pos (by simpa using hpoint)]
      exact .head _
    refine ⟨List.cons_ne_nil _ _, ?_⟩
    unfold splitSign
    split
    · next heq =>
      cases heq
      exact absurd (hfirst (by decide)) (by decide)
    · next heq =>
      cases heq
      exact absurd (hfirst (by decide)) (by decide)
    · rfl

theorem byteLen_eq_length {text : List Char} (h : ∀ c ∈ text, c.isDigit ∨ c = '.' ∨ c = '-') :
    byteLen text = text.length := by
  induction text with
  | nil => rfl
  | cons c text ih =>
    have hsize : c.utf8Size = 1 := by
      rcases h c (.head _) with hdigit | rfl | rfl
      · rw [Char.isDigit, Bool.and_eq_true, decide_eq_true_eq, decide_eq_true_eq] at hdigit
        exact Char.utf8Size_eq_one_iff.2 (UInt32.le_trans hdigit.2 (by decide))
      · rfl
      · rfl
    have hrest := ih fun c' hc' => h c' (.tail _ hc')
    unfold byteLen at hrest ⊢
    rw [List.map_cons, List.sum_cons, hrest, hsize, List.length_cons, Nat.add_comm]

theorem splitExponent_none {text : List Char} (h : ∀ c ∈ text, c.isDigit ∨ c = '.' ∨ c = '-') :
    splitExponent g text = .ok (text, 0) := by
  have hnone : text.dropWhile (!isExponentMark ·) = [] := by
    refine List.dropWhile_eq_nil_iff.2 fun c hc => ?_
    have hmark : ∀ c : Char, isExponentMark c = true → ¬ (c.isDigit ∨ c = '.' ∨ c = '-') := by
      intro c hc
      simp only [isExponentMark, Bool.or_eq_true, decide_eq_true_eq] at hc
      rcases hc with rfl | rfl <;> decide
    rw [Bool.not_eq_true', Bool.eq_false_iff]
    exact fun hc' => hmark c hc' (h c hc)
  unfold splitExponent
  rw [hnone]

theorem assemble_self (hsign : d.coefficient < 0 → g.allowNegative = true) (hrange : InI128 d.coefficient.natAbs)
    (hscale : d.scale ≤ g.maxScale) (hneeded : (Nat.toDigits 10 d.coefficient.natAbs).length ≤ g.maxDigits)
    (hdigits : byteLen (whole ++ fraction) ≤ g.maxDigits)
    (hcoefficient : Nat.ofDigitChars 10 (whole ++ fraction) 0 = d.coefficient.natAbs) (hfraction : fraction.length = d.scale) :
    assemble (decide (d.coefficient < 0)) whole fraction 0 g = .ok d := by
  have hself := normalize_self hsign hscale hneeded
  have hsigned : withSign (decide (d.coefficient < 0)) d.coefficient.natAbs = d.coefficient := by
    unfold withSign
    by_cases hneg : d.coefficient < 0
    · rw [if_pos (decide_eq_true hneg)]
      omega
    · rw [if_neg (by simpa using hneg)]
      omega
  unfold assemble
  dsimp only
  rw [if_neg (Nat.not_lt.2 hdigits), hcoefficient, if_neg (not_not.2 hrange), hfraction, Int.sub_zero]
  split
  · next hzero =>
    -- Zero has no trailing zeros to write, so its scale is zero.
    obtain ⟨c, s, hc, hs, hnormal⟩ := d
    obtain rfl : c = 0 := Int.natAbs_eq_zero.1 hzero
    have hscale : s = 0 := by
      by_contra hne
      exact hnormal hne rfl
    subst hscale
    exact hself
  · have hscale' := d.scale_le
    have hi32 : inI32 (d.scale : Int) = true := by
      unfold u16Max at hscale'
      simp only [inI32, Bool.and_eq_true, decide_eq_true_eq]
      omega
    have hup : scaleUp d.coefficient.natAbs (d.scale : Int) = some (d.coefficient.natAbs : Int) := by
      unfold scaleUp
      rw [if_neg (by omega)]
    rw [hi32, hup, if_neg (by decide)]
    simp only [hsigned, Int.toNat_natCast, dif_pos d.coefficient_inI128, dif_pos hscale']
    exact hself

theorem splitSign_canonical (d : ExactDecimal) :
    d.canonical ≠ [] ∧ splitSign d.canonical = .ok (decide (d.coefficient < 0), d.magnitudeText) := by
  obtain ⟨whole, fraction, hmantissa, -⟩ := d.magnitude_mantissa
  obtain ⟨hne, hsign⟩ := splitSign_mantissa hmantissa
  unfold canonical
  by_cases hneg : d.coefficient < 0
  · rw [if_pos hneg, decide_eq_true hneg]
    exact ⟨List.cons_ne_nil _ _, rfl⟩
  · rw [if_neg hneg, decide_eq_false hneg]
    exact ⟨hne, hsign⟩

theorem canonical_length (d : ExactDecimal) : d.canonical.length = d.writtenBytes := by
  obtain ⟨whole, fraction, hmantissa, -, hdigits⟩ := d.magnitude_mantissa
  have hscale : fraction.length = d.scale := by rw [(splitMantissa_ok hmantissa).2, d.magnitude_reads.1]
  have hpointed : (pointed fraction).length = fraction.length + if d.scale = 0 then 0 else 1 := by
    unfold pointed
    rw [← hscale]
    cases fraction <;> rfl
  have hsign : (if d.coefficient < 0 then ['-'] else []).length = if d.coefficient < 0 then 1 else 0 := by
    split <;> rfl
  rw [List.length_append] at hdigits
  rw [canonical, (splitMantissa_checks hmantissa).1, List.length_append, List.length_append, hsign, hpointed, writtenBytes,
    ← hdigits]
  omega

/-- The text of a decimal parses back to it exactly where the grammar has room for its bytes and digits. -/
theorem parse_canonical_iff (hsign : d.coefficient < 0 → g.allowNegative = true)
    (hrange : InI128 d.coefficient.natAbs) (hscale : d.scale ≤ g.maxScale)
    (hneeded : (Nat.toDigits 10 d.coefficient.natAbs).length ≤ g.maxDigits) :
    parse d.canonical g = .ok d ↔ d.writtenDigits ≤ g.maxDigits ∧ d.writtenBytes ≤ g.maxLexemeBytes := by
  obtain ⟨whole, fraction, hmantissa, hdigitsOf, hwritten⟩ := d.magnitude_mantissa
  obtain ⟨hne, hsplit⟩ := d.splitSign_canonical
  have hbytes : byteLen d.canonical = d.writtenBytes :=
    (byteLen_eq_length fun c hc => canonical_chars hc).trans d.canonical_length
  have hchars : ∀ c ∈ d.magnitudeText, c.isDigit ∨ c = '.' ∨ c = '-' := fun c hc =>
    canonical_chars (List.mem_append_right _ hc)
  have hdigits : byteLen (whole ++ fraction) = d.writtenDigits :=
    (byteLen_eq_length fun c hc => .inl ((splitMantissa_digits hmantissa).2 c hc)).trans hwritten
  have hallowed : ¬ (decide (d.coefficient < 0) && !g.allowNegative) = true := by
    rw [Bool.and_eq_true, decide_eq_true_eq]
    rintro ⟨hneg, hforbidden⟩
    rw [hsign hneg] at hforbidden
    cases hforbidden
  -- Sign, exponent and mantissa are read off; what is left are the two limits.
  have hparse : parse d.canonical g = if d.writtenBytes > g.maxLexemeBytes then .error .lexemeTooLong
      else assemble (decide (d.coefficient < 0)) whole fraction 0 g := by
    unfold parse
    rw [if_neg (by simpa using hne), hbytes, hsplit, ok_bind]
    dsimp only
    rw [if_neg hallowed, splitExponent_none hchars, ok_bind]
    dsimp only
    rw [hmantissa]
    rfl
  obtain ⟨hreadScale, hreadDigits⟩ := d.magnitude_reads
  rw [hparse, ite_error_eq_ok, gt_iff_lt, Nat.not_lt, and_comm, ← hdigits]
  refine and_congr_left fun _ => ⟨fun h => ?_, fun h => ?_⟩
  · unfold assemble at h
    rw [ite_error_eq_ok] at h
    exact Nat.not_lt.1 h.1
  · exact assemble_self hsign hrange hscale hneeded h (by rw [hdigitsOf, hreadDigits])
      (by rw [(splitMantissa_ok hmantissa).2, hreadScale])

end ExactDecimal

end PmWs
