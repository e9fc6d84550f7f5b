import Mathlib.Data.List.Basic
import Mathlib.Tactic.Common

/-!
# Separator framing

A list that ends its fields with a separator no field contains can be read
back field by field.
-/

namespace Framing

variable {α β : Type*}

/-- The first separator of a framed list is where its first field ends. -/
theorem append_cons_inj {s : α} {u v x y : List α} (hu : s ∉ u) (hv : s ∉ v) (h : u ++ s :: x = v ++ s :: y) :
    u = v ∧ x = y := by
  induction u generalizing v with
  | nil =>
    cases v with
    | nil => exact ⟨rfl, (List.cons.inj h).2⟩
    | cons b v => exact absurd (List.cons.inj h).1 fun heq => hv (heq ▸ List.mem_cons_self)
  | cons a u ih =>
    cases v with
    | nil => exact absurd (List.cons.inj h).1 fun heq => hu (heq ▸ List.mem_cons_self)
    | cons b v =>
      simp only [List.mem_cons, not_or] at hu hv
      obtain ⟨hab, htail⟩ := List.cons.inj h
      obtain ⟨huv, hxy⟩ := ih hu.2 hv.2 htail
      exact ⟨by rw [hab, huv], hxy⟩

/-- Framed records read back one by one: `encode` is injective together with whatever follows it. -/
theorem flatMap_inj {encode : α → List β} (hne : ∀ a, encode a ≠ [])
    (hinj : ∀ a b x y, encode a ++ x = encode b ++ y → a = b ∧ x = y) {as bs : List α}
    (h : as.flatMap encode = bs.flatMap encode) : as = bs := by
  induction as generalizing bs with
  | nil =>
    cases bs with
    | nil => rfl
    | cons b bs => simp [hne b] at h
  | cons a as ih =>
    cases bs with
    | nil => simp [hne a] at h
    | cons b bs =>
      obtain ⟨hab, htail⟩ := hinj a b _ _ h
      rw [hab, ih htail]

/-! ## Searching for a separator -/

variable [DecidableEq α]

theorem findIdx?_separator {s : α} {field : List α} (h : s ∉ field) (rest : List α) :
    (field ++ s :: rest).findIdx? (· = s) = some field.length := by
  induction field with
  | nil =>
    rw [List.nil_append, List.findIdx?_cons, if_pos (by simp)]
    rfl
  | cons a field ih =>
    simp only [List.mem_cons, not_or] at h
    rw [List.cons_append, List.findIdx?_cons, if_neg (by simpa using Ne.symm h.1), ih h.2]
    rfl

theorem findIdx?_none {s : α} {text : List α} (h : s ∉ text) : text.findIdx? (· = s) = none := by
  rw [List.findIdx?_eq_none_iff]
  intro a ha
  simpa using fun heq : a = s => h (heq ▸ ha)

end Framing
