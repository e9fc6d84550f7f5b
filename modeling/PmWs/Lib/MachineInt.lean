import Mathlib.Algebra.Order.Ring.Int
import Mathlib.Tactic.Linarith

/-!
# Fixed-width counters

Unsigned counters are natural numbers below a power of two. The checked
operations return `none` instead of wrapping, the saturating ones stop at the
largest value.
-/

namespace MachineInt

def u16Max : Nat := 2 ^ 16 - 1
def u32Max : Nat := 2 ^ 32 - 1
def u64Max : Nat := 2 ^ 64 - 1
def u128Max : Nat := 2 ^ 128 - 1

/-- The value, when it fits below the width's largest one. -/
def fit (max n : Nat) : Option Nat := if n ≤ max then some n else none

@[simp] theorem fit_eq_some {max n m : Nat} : fit max n = some m ↔ n ≤ max ∧ n = m := by
  simp [fit]

@[simp] theorem fit_eq_none {max n : Nat} : fit max n = none ↔ max < n := by
  simp [fit]

/-- `u64::checked_add`. -/
def checkedAdd (a b : Nat) : Option Nat := fit u64Max (a + b)

/-- `u64::saturating_add`. -/
def saturatingAdd (a b : Nat) : Nat := min (a + b) u64Max

/-- `u64::saturating_sub`, which on naturals is truncated subtraction. -/
def saturatingSub (a b : Nat) : Nat := a - b

@[simp] theorem checkedAdd_eq_some {a b c : Nat} : checkedAdd a b = some c ↔ a + b ≤ u64Max ∧ a + b = c :=
  fit_eq_some

theorem saturatingAdd_le (a b : Nat) : saturatingAdd a b ≤ u64Max := Nat.min_le_right _ _

/-- A saturating counter bumped once per event holds the capped number of events. -/
theorem saturatingAdd_min (n : Nat) : saturatingAdd (min n u64Max) 1 = min (n + 1) u64Max := by
  simp only [saturatingAdd]
  omega

/-- The `i128` range. -/
def InI128 (c : Int) : Prop := -2 ^ 127 ≤ c ∧ c < 2 ^ 127

instance (c : Int) : Decidable (InI128 c) := inferInstanceAs (Decidable (_ ∧ _))

theorem InI128.natAbs_le {c : Int} (h : InI128 c) : c.natAbs ≤ u128Max := by
  obtain ⟨h1, h2⟩ := h
  simp only [u128Max]
  omega

end MachineInt
