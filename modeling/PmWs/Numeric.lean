import Mathlib.Algebra.Order.Field.Rat
import Mathlib.Order.Compare
import Mathlib.Tactic.FieldSimp
import Mathlib.Tactic.Positivity
import Mathlib.Tactic.Ring
import PmWs.Lib.MachineInt

/-!
# Exact decimals

Prices and sizes are exact decimals: an `i128` coefficient and a `u16` scale,
always normalized. The structure carries its own range and normal form, so two
decimals of one value are one decimal and the ordering the level map is keyed
by is the order of the rationals.
-/

open MachineInt

namespace PmWs

structure DecimalGrammar where
  maxScale : Nat
  maxDigits : Nat
  allowExponent : Bool
  allowNegative : Bool
  maxLexemeBytes : Nat
  maxExponentDigits : Nat
  maxExponentMagnitude : Nat
  deriving DecidableEq, Repr

inductive DecimalError where
  | empty
  | invalidLexeme
  | exponentForbidden
  | scaleOverflow
  | precisionExceeded
  | coefficientOverflow
  | negativeForbidden
  | arithmeticOverflow
  | representationLimit
  | lexemeTooLong
  | exponentTooLarge
  deriving DecidableEq, Repr

def DecimalGrammar.new (maxScale maxDigits : Nat) (allowExponent allowNegative : Bool) :
    Except DecimalError DecimalGrammar :=
  if maxDigits = 0 ∨ maxDigits > 39 then .error .representationLimit
  else .ok
    { maxScale, maxDigits, allowExponent, allowNegative, maxLexemeBytes := 128, maxExponentDigits := 5,
      maxExponentMagnitude := 99999 }

/-- An exact decimal `coefficient * 10 ^ -scale` with no trailing fractional zero. -/
structure ExactDecimal where
  coefficient : Int
  scale : Nat
  coefficient_inI128 : InI128 coefficient
  scale_le : scale ≤ u16Max
  normal : scale ≠ 0 → coefficient % 10 ≠ 0
  deriving DecidableEq

namespace ExactDecimal

/-! ## Normalization -/

/-- Drops trailing fractional zeros: the loop of `normalize`. -/
def stripZeros : Int → Nat → Int × Nat
  | coefficient, 0 => (coefficient, 0)
  | coefficient, scale + 1 =>
    if coefficient % 10 = 0 then stripZeros (coefficient / 10) scale else (coefficient, scale + 1)

theorem stripZeros_normal (c : Int) (s : Nat) :
    (stripZeros c s).2 ≠ 0 → (stripZeros c s).1 % 10 ≠ 0 := by
  induction s generalizing c with
  | zero => simp [stripZeros]
  | succ s ih =>
    unfold stripZeros
    split
    · exact ih _
    · intro _; assumption

theorem stripZeros_scale_le (c : Int) (s : Nat) : (stripZeros c s).2 ≤ s := by
  induction s generalizing c with
  | zero => simp [stripZeros]
  | succ s ih =>
    unfold stripZeros
    split
    · exact (ih _).trans (Nat.le_succ s)
    · exact le_rfl

theorem stripZeros_inI128 {c : Int} (h : InI128 c) (s : Nat) : InI128 (stripZeros c s).1 := by
  induction s generalizing c with
  | zero => exact h
  | succ s ih =>
    unfold stripZeros
    split
    · apply ih
      obtain ⟨h1, h2⟩ := h
      constructor <;> omega
    · exact h

theorem stripZeros_nonneg {c : Int} (h : 0 ≤ c) (s : Nat) : 0 ≤ (stripZeros c s).1 := by
  induction s generalizing c with
  | zero => exact h
  | succ s ih =>
    unfold stripZeros
    split
    · exact ih (Int.ediv_nonneg h (by decide))
    · exact h

def normalize (coefficient : Int) (scale : Nat) (hc : InI128 coefficient) (hs : scale ≤ u16Max)
    (grammar : DecimalGrammar) : Except DecimalError ExactDecimal :=
  if coefficient < 0 ∧ grammar.allowNegative = false then .error .negativeForbidden
  else if scale > grammar.maxScale then .error .precisionExceeded
  else if (Nat.toDigits 10 (stripZeros coefficient scale).1.natAbs).length > grammar.maxDigits then
    .error .precisionExceeded
  else .ok
    { coefficient := (stripZeros coefficient scale).1
      scale := (stripZeros coefficient scale).2
      coefficient_inI128 := stripZeros_inI128 hc scale
      scale_le := (stripZeros_scale_le coefficient scale).trans hs
      normal := stripZeros_normal coefficient scale }

/-- A grammar that forbids negatives only ever yields a non-negative value. -/
theorem normalize_nonneg {c : Int} {s : Nat} {hc : InI128 c} {hs : s ≤ u16Max} {g : DecimalGrammar}
    {d : ExactDecimal} (hg : g.allowNegative = false) (h : normalize c s hc hs g = .ok d) :
    0 ≤ d.coefficient := by
  simp only [normalize, hg, and_true] at h
  split at h
  · cases h
  · split at h
    · cases h
    · split at h
      · cases h
      · cases h
        exact stripZeros_nonneg (by omega) s

/-! ## Ordering -/

/-- `10_u128.checked_pow`. -/
def checkedPow10 (exponent : Nat) : Option Nat := fit u128Max (10 ^ exponent)

/-- Orders `left * 10 ^ -leftScale` against `right * 10 ^ -rightScale`. A failed alignment is decisive: the
scaled side exceeds every `u128`. -/
def compareScaledMagnitudes (left leftScale right rightScale : Nat) : Ordering :=
  if leftScale = rightScale ∨ left = 0 ∨ right = 0 then compare left right
  else if leftScale < rightScale then
    match (checkedPow10 (rightScale - leftScale)).bind fun factor => fit u128Max (left * factor) with
    | some scaled => compare scaled right
    | none => .gt
  else
    match (checkedPow10 (leftScale - rightScale)).bind fun factor => fit u128Max (right * factor) with
    | some scaled => compare left scaled
    | none => .lt

theorem align_none {m d n : Nat} (hn : n ≤ u128Max) (hm : m ≠ 0)
    (h : ((checkedPow10 d).bind fun factor => fit u128Max (m * factor)) = none) : n < m * 10 ^ d := by
  have hge : 10 ^ d ≤ m * 10 ^ d := Nat.le_mul_of_pos_left _ (Nat.pos_of_ne_zero hm)
  rw [Option.bind_eq_none_iff] at h
  by_cases hp : 10 ^ d ≤ u128Max
  · have := h (10 ^ d) (by simp [checkedPow10, hp])
    rw [fit_eq_none] at this
    omega
  · omega

theorem align_some {m d k : Nat}
    (h : ((checkedPow10 d).bind fun factor => fit u128Max (m * factor)) = some k) : k = m * 10 ^ d := by
  simp only [Option.bind_eq_some_iff, checkedPow10, fit_eq_some] at h
  obtain ⟨_, ⟨_, rfl⟩, _, rfl⟩ := h
  rfl

theorem compare_mul_pos (a b k : Nat) (hk : 0 < k) : compare (a * k) (b * k) = compare a b := by
  rcases lt_trichotomy a b with h | rfl | h
  · rw [compare_lt_iff_lt.2 h, compare_lt_iff_lt.2 (Nat.mul_lt_mul_of_pos_right h hk)]
  · simp
  · rw [compare_gt_iff_gt.2 h, compare_gt_iff_gt.2 (Nat.mul_lt_mul_of_pos_right h hk)]

theorem compareScaledMagnitudes_eq {l r : Nat} (ls rs : Nat) (hl : l ≤ u128Max) (hr : r ≤ u128Max) :
    compareScaledMagnitudes l ls r rs = compare (l * 10 ^ rs) (r * 10 ^ ls) := by
  have pow_pos (n : Nat) : 0 < 10 ^ n := Nat.pow_pos (by decide)
  unfold compareScaledMagnitudes
  split
  · next h =>
    rcases h with rfl | rfl | rfl
    · rw [compare_mul_pos _ _ _ (pow_pos _)]
    · have := compare_mul_pos 0 r (10 ^ ls) (pow_pos _)
      simpa using this.symm
    · have := compare_mul_pos l 0 (10 ^ rs) (pow_pos _)
      simpa using this.symm
  · next h =>
    push Not at h
    split
    · next hlt =>
      have hsplit : l * 10 ^ rs = l * 10 ^ (rs - ls) * 10 ^ ls := by
        rw [Nat.mul_assoc, ← Nat.pow_add, Nat.sub_add_cancel hlt.le]
      rw [hsplit, compare_mul_pos _ _ _ (pow_pos _)]
      split
      · next heq => rw [align_some heq]
      · next heq => exact (compare_gt_iff_gt.2 (align_none hr h.2.1 heq)).symm
    · next hge =>
      have hsplit : r * 10 ^ ls = r * 10 ^ (ls - rs) * 10 ^ rs := by
        rw [Nat.mul_assoc, ← Nat.pow_add, Nat.sub_add_cancel (by omega)]
      rw [hsplit, compare_mul_pos _ _ _ (pow_pos _)]
      split
      · next heq => rw [align_some heq]
      · next heq => exact (compare_lt_iff_lt.2 (align_none hl h.2.2 heq)).symm

/-! ### Parts that need not be normalized -/

end ExactDecimal

/-- A coefficient and a scale as the source's struct holds them, in normal form or not. -/
structure DecimalParts where
  coefficient : Int
  scale : Nat
  coefficient_inI128 : InI128 coefficient
  scale_le : scale ≤ u16Max

namespace DecimalParts

/-- The rational `coefficient * 10 ^ -scale`. -/
def toRat (d : DecimalParts) : ℚ := d.coefficient / 10 ^ d.scale

protected def cmp (self other : DecimalParts) : Ordering :=
  let sign := compare self.coefficient.sign other.coefficient.sign
  if sign ≠ .eq then sign
  else if self.coefficient = 0 then .eq
  else
    let magnitude :=
      ExactDecimal.compareScaledMagnitudes self.coefficient.natAbs self.scale other.coefficient.natAbs other.scale
    if self.coefficient < 0 then magnitude.swap else magnitude

theorem compare_toRat (a b : DecimalParts) :
    compare a.toRat b.toRat = compare (a.coefficient * 10 ^ b.scale) (b.coefficient * 10 ^ a.scale) := by
  have ha : (0 : ℚ) < 10 ^ a.scale := by positivity
  have hb : (0 : ℚ) < 10 ^ b.scale := by positivity
  have key (x y : DecimalParts) :
      x.toRat < y.toRat ↔ x.coefficient * 10 ^ y.scale < y.coefficient * 10 ^ x.scale := by
    rw [toRat, toRat, div_lt_div_iff₀ (by positivity) (by positivity)]
    exact_mod_cast Iff.rfl
  rcases lt_trichotomy a.toRat b.toRat with h | h | h
  · rw [compare_lt_iff_lt.2 h, compare_lt_iff_lt.2 ((key a b).1 h)]
  · have h1 := (key a b).not.1 h.not_lt
    have h2 := (key b a).not.1 h.not_gt
    rw [compare_eq_iff_eq.2 h, compare_eq_iff_eq.2 (le_antisymm (not_lt.1 h2) (not_lt.1 h1))]
  · rw [compare_gt_iff_gt.2 h, compare_gt_iff_gt.2 ((key b a).1 h)]

theorem compare_natCast (m n : Nat) : compare (m : Int) (n : Int) = compare m n := by
  rcases lt_trichotomy m n with h | rfl | h
  · rw [compare_lt_iff_lt.2 h, compare_lt_iff_lt.2 (Int.ofNat_lt.2 h)]
  · simp
  · rw [compare_gt_iff_gt.2 h, compare_gt_iff_gt.2 (Int.ofNat_lt.2 h)]

theorem compare_neg_swap (x y : Int) : compare (-x) (-y) = (compare x y).swap := by
  rcases lt_trichotomy x y with h | rfl | h
  · rw [compare_lt_iff_lt.2 h, compare_gt_iff_gt.2 (Int.neg_lt_neg h)]; rfl
  · simp
  · rw [compare_gt_iff_gt.2 h, compare_lt_iff_lt.2 (Int.neg_lt_neg h)]; rfl

theorem mul_lt_mul_of_sign_lt {x y m n : Int} (hm : 0 < m) (hn : 0 < n) (h : x.sign < y.sign) :
    x * m < y * n := by
  rcases lt_trichotomy x 0 with hx | hx | hx <;> rcases lt_trichotomy y 0 with hy | hy | hy <;>
    simp only [hx, hy, Int.sign_eq_neg_one_of_neg, Int.sign_eq_one_of_pos, Int.sign_zero, zero_mul] at h ⊢
  case inl.inr.inl => exact mul_neg_of_neg_of_pos hx hm
  case inl.inr.inr => exact (mul_neg_of_neg_of_pos hx hm).trans (mul_pos hy hn)
  case inr.inl.inr.inr => exact mul_pos hy hn
  all_goals exact absurd h (by decide)

/-- The hand-aligned comparison is the order of the rationals. -/
theorem cmp_eq (a b : DecimalParts) : a.cmp b = compare a.toRat b.toRat := by
  rw [compare_toRat]
  have hmag := ExactDecimal.compareScaledMagnitudes_eq a.scale b.scale
    a.coefficient_inI128.natAbs_le b.coefficient_inI128.natAbs_le
  have hcast (c : Int) (s : Nat) : ((c.natAbs * 10 ^ s : Nat) : Int) = |c| * 10 ^ s := by push_cast; simp
  have hposa : (0 : Int) < 10 ^ a.scale := by positivity
  have hposb : (0 : Int) < 10 ^ b.scale := by positivity
  unfold DecimalParts.cmp
  rw [hmag, ← compare_natCast, hcast, hcast]
  -- Different signs decide alone, equal ones compare by magnitude.
  rcases lt_trichotomy a.coefficient.sign b.coefficient.sign with h | h | h
  · rw [compare_lt_iff_lt.2 h, compare_lt_iff_lt.2 (mul_lt_mul_of_sign_lt hposb hposa h)]; rfl
  · rcases lt_trichotomy a.coefficient 0 with ha | ha | ha
    · have hb : b.coefficient < 0 := by rwa [← Int.sign_eq_neg_one_iff_neg, ← h, Int.sign_eq_neg_one_iff_neg]
      simp [h, ha, hb, ha.ne, abs_of_neg, compare_neg_swap]
    · have hb : b.coefficient = 0 := by rwa [← Int.sign_eq_zero_iff_zero, ← h, Int.sign_eq_zero_iff_zero]
      simp [ha, hb]
    · have hb : 0 < b.coefficient := by rwa [← Int.sign_eq_one_iff_pos, ← h, Int.sign_eq_one_iff_pos]
      simp [h, ha, hb, ha.ne', abs_of_pos, not_lt_of_gt]
  · rw [compare_gt_iff_gt.2 h, compare_gt_iff_gt.2 (mul_lt_mul_of_sign_lt hposa hposb h)]; rfl

end DecimalParts

namespace ExactDecimal

/-- The rational a decimal denotes. -/
def toRat (d : ExactDecimal) : ℚ := d.coefficient / 10 ^ d.scale

/-- A decimal without its normal form. -/
def parts (d : ExactDecimal) : DecimalParts := ⟨d.coefficient, d.scale, d.coefficient_inI128, d.scale_le⟩

/-- The comparison reads nothing but the parts. -/
protected def cmp (self other : ExactDecimal) : Ordering := self.parts.cmp other.parts

theorem cmp_eq (a b : ExactDecimal) : a.cmp b = compare a.toRat b.toRat := DecimalParts.cmp_eq a.parts b.parts

/-- A normalized decimal is determined by its value. -/
theorem toRat_inj {a b : ExactDecimal} (h : a.toRat = b.toRat) : a = b := by
  have key (x y : ExactDecimal) (hxy : x.coefficient * 10 ^ y.scale = y.coefficient * 10 ^ x.scale)
      (hlt : x.scale < y.scale) : False := by
    have hsplit : (10 : Int) ^ y.scale = 10 ^ (y.scale - x.scale - 1) * 10 * 10 ^ x.scale := by
      rw [← pow_succ, ← pow_add]
      congr 1
      omega
    have hc : y.coefficient = x.coefficient * 10 ^ (y.scale - x.scale - 1) * 10 := by
      have hne : (10 : Int) ^ x.scale ≠ 0 := by positivity
      apply mul_right_cancel₀ hne
      rw [← hxy, hsplit]
      ring
    exact y.normal (by omega) (by rw [hc]; exact Int.mul_emod_left _ _)
  have hab : a.coefficient * 10 ^ b.scale = b.coefficient * 10 ^ a.scale := by
    rw [← compare_eq_iff_eq]
    refine (DecimalParts.compare_toRat a.parts b.parts).symm.trans ?_
    exact compare_eq_iff_eq.2 h
  have hs : a.scale = b.scale := by
    rcases lt_trichotomy a.scale b.scale with hlt | heq | hlt
    · exact (key a b hab hlt).elim
    · exact heq
    · exact (key b a hab.symm hlt).elim
  have hc : a.coefficient = b.coefficient := by
    rw [hs] at hab
    exact mul_right_cancel₀ (by positivity) hab
  cases a
  cases b
  simp_all

instance : Std.TransCmp ExactDecimal.cmp :=
  have : ExactDecimal.cmp = compareOn toRat := by funext a b; exact cmp_eq a b
  this ▸ inferInstance

instance : Std.LawfulEqCmp ExactDecimal.cmp where
  eq_of_compare h := by
    rw [cmp_eq, compare_eq_iff_eq] at h
    exact toRat_inj h

end ExactDecimal

end PmWs
