import Mathlib.Data.Nat.ModEq
import Mathlib.Tactic.Common

/-!
# A ring that laps its readers

Values are written at consecutive positions into a ring of fixed capacity, and
each slot keeps its value's position beside it. A slot that was lapped holds a
later position than the one looked for. A slot not yet reached holds an earlier
one or nothing.
-/

namespace Ring

variable {α : Type*}

/-- The slots after `written`: each holds the last value whose position falls on it. -/
structure Laps (capacity : Nat) (slots : List (Option (Nat × α))) (written : List α) : Prop where
  size : slots.length = capacity
  empty : ∀ slot, slots[slot]? = some none → written.length ≤ slot
  full : ∀ slot position x, slots[slot]? = some (some (position, x)) →
    position % capacity = slot ∧ written[position]? = some x ∧ written.length ≤ position + capacity

variable {capacity : Nat} {slots : List (Option (Nat × α))} {written : List α}

theorem Laps.blank (capacity : Nat) : Laps capacity (List.replicate capacity none) ([] : List α) := by
  refine ⟨List.length_replicate, fun _ _ => Nat.zero_le _, ?_⟩
  intro slot position x h
  obtain ⟨-, hnone⟩ := List.mem_replicate.1 (List.mem_of_getElem? h)
  cases hnone

theorem Laps.push (h : Laps capacity slots written) (hpos : 0 < capacity) (x : α) :
    Laps capacity (slots.set (written.length % capacity) (some (written.length, x))) (written ++ [x]) := by
  refine ⟨by simp [h.size], ?_, ?_⟩
  · intro slot hnone
    rw [List.getElem?_set] at hnone
    rw [List.length_append, List.length_singleton]
    split at hnone
    · simp at hnone
    · rename_i hother
      -- the next position falls on a slot of its own
      have hle := h.empty slot hnone
      have hlt : slot < capacity := h.size ▸ (List.getElem?_eq_some_iff.1 hnone).1
      rcases Nat.lt_or_eq_of_le hle with hlt' | heq
      · exact hlt'
      · rw [heq, Nat.mod_eq_of_lt hlt] at hother
        exact absurd rfl hother
  · intro slot position y hfull
    rw [List.getElem?_set] at hfull
    rw [List.length_append, List.length_singleton]
    split at hfull
    · rename_i heq
      obtain ⟨-, hfull⟩ := Option.ite_none_right_eq_some.1 hfull
      obtain ⟨rfl, rfl⟩ := Prod.mk.inj (Option.some.inj (Option.some.inj hfull))
      exact ⟨heq, by simp, by omega⟩
    · rename_i hother
      obtain ⟨hmod, hwritten, hle⟩ := h.full slot position y hfull
      have hlt : position < written.length := (List.getElem?_eq_some_iff.1 hwritten).1
      refine ⟨hmod, by rw [List.getElem?_append_left hlt, hwritten], ?_⟩
      rcases Nat.lt_or_eq_of_le hle with hlt' | heq
      · exact hlt'
      · rw [heq, Nat.add_mod_right] at hother
        exact absurd hmod hother

/-- A reader behind the writer finds its own position or, lapped, a later one. -/
theorem Laps.behind (h : Laps capacity slots written) (hpos : 0 < capacity) {position : Nat}
    (hlt : position < written.length) : ∃ found x, slots[position % capacity]? = some (some (found, x)) ∧
      position ≤ found ∧ written[found]? = some x := by
  have hslot : position % capacity < slots.length := by
    rw [h.size]
    exact Nat.mod_lt _ hpos
  cases hread : slots[position % capacity] with
  | none =>
    have hle := h.empty _ (by rw [List.getElem?_eq_getElem hslot, hread])
    have := Nat.mod_le position capacity
    omega
  | some entry =>
    obtain ⟨found, x⟩ := entry
    have hread' : slots[position % capacity]? = some (some (found, x)) := by
      rw [List.getElem?_eq_getElem hslot, hread]
    obtain ⟨hmod, hwritten, hle⟩ := h.full _ found x hread'
    refine ⟨found, x, hread', ?_, hwritten⟩
    by_contra hbefore
    -- an earlier position on the slot would be a whole lap behind
    have hlap : found + capacity ≤ position := Nat.ModEq.add_le_of_lt hmod (by omega)
    omega

/-- What a slot holds was written. -/
theorem Laps.found (h : Laps capacity slots written) {slot position : Nat} {x : α}
    (hread : slots[slot]? = some (some (position, x))) : position < written.length ∧ written[position]? = some x := by
  obtain ⟨-, hwritten, -⟩ := h.full slot position x hread
  exact ⟨(List.getElem?_eq_some_iff.1 hwritten).1, hwritten⟩

end Ring
