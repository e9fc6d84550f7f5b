import Mathlib

/-!
# Counting

How many entries of a list have a property says which positions of the list
have it, once those that have it come first. Counted bucket by bucket, the
entries below a bucket are the sum of the counts before it.
-/

namespace Histogram

variable {α : Type*} {l : List α}

/-- Where the entries with a property come first, a position has it exactly when it is among that many. -/
theorem getElem_iff_lt_countP {p : α → Bool} (h : l.Pairwise fun a b => p b = true → p a = true) {i : Nat}
    (hi : i < l.length) : p l[i] = true ↔ i < l.countP p := by
  induction l generalizing i with
  | nil => cases hi
  | cons a l ih =>
    obtain ⟨hhead, htail⟩ := List.pairwise_cons.1 h
    cases hp : p a with
    | true =>
      rw [List.countP_cons_of_pos hp]
      cases i with
      | zero => simp [hp]
      | succ i => rw [List.getElem_cons_succ, ih htail (Nat.lt_of_succ_lt_succ hi), Nat.succ_lt_succ_iff]
    | false =>
      have hnone : l.countP p = 0 := by
        refine List.countP_eq_zero.2 fun b hb hpb => ?_
        rw [hhead b hb hpb] at hp
        cases hp
      rw [List.countP_cons_of_neg (by simp [hp]), hnone]
      refine iff_of_false (fun hpi => ?_) (Nat.not_lt_zero i)
      cases i with
      | zero => simp [hp] at hpi
      | succ i =>
        rw [hhead _ (List.getElem_mem _) hpi] at hp
        cases hp

/-- How many entries fall into each of the first `n` buckets. -/
def counts (bucket : α → Nat) (n : Nat) (l : List α) : List Nat :=
  (List.range n).map fun b => l.countP fun a => bucket a = b

@[simp] theorem length_counts (bucket : α → Nat) (n : Nat) (l : List α) : (counts bucket n l).length = n := by
  simp [counts]

theorem sum_counts (bucket : α → Nat) (n : Nat) (l : List α) :
    (counts bucket n l).sum = l.countP fun a => bucket a < n := by
  induction n with
  | zero => simp [counts]
  | succ n ih =>
    have hstep : (counts bucket (n + 1) l).sum = (counts bucket n l).sum + l.countP fun a => bucket a = n := by
      simp [counts, List.range_succ]
    rw [hstep, ih]
    clear hstep ih
    induction l with
    | nil => rfl
    | cons a l ih =>
      simp only [List.countP_cons, decide_eq_true_eq, ← ih]
      split_ifs <;> omega

theorem take_counts (bucket : α → Nat) {k n : Nat} (h : k ≤ n) (l : List α) :
    (counts bucket n l).take k = counts bucket k l := by
  unfold counts
  rw [← List.map_take, List.take_range, Nat.min_eq_left h]

end Histogram
