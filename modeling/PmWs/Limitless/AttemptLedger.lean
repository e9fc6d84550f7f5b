import PmWs.Lib.Pointwise

/-!
# The attempt ledger

Connection attempts are admitted against a budget for the last twenty-four
hours. The ledger drops what has aged out from its front and records what it
admits, so it holds the admissions of the last day, oldest first: never more
than the budget, and a refusal names the first instant that would be admitted.
-/

namespace PmWs

/-- Instants and durations are nanoseconds of one monotonic clock. -/
def oneDay : Nat := 86400 * 1000000000

structure AttemptLedger where
  spent : List Nat
  deriving DecidableEq, Repr

namespace AttemptLedger

def new : AttemptLedger := ⟨[]⟩

/-- Discards the attempts older than a day, from the front. -/
def retire (self : AttemptLedger) (now : Nat) : List Nat := self.spent.dropWhile fun instant => oneDay ≤ now - instant

/-- Records an attempt at `now`, or refuses it and names when the oldest one still counted ages out. -/
def admitAttempt (self : AttemptLedger) (now budget : Nat) : AttemptLedger × Except Nat Unit :=
  let spent := self.retire now
  if budget ≤ spent.length then (⟨spent⟩, .error (spent.head?.getD now + oneDay))
  else (⟨spent ++ [now]⟩, .ok ())

structure Call where
  now : Nat
  budget : Nat
  deriving DecidableEq, Repr

/-- Calls one after another, with the instants of those admitted. -/
def run (self : AttemptLedger) : List Call → AttemptLedger × List Nat
  | [] => (self, [])
  | call :: calls =>
    let answered := self.admitAttempt call.now call.budget
    let rest := answered.1.run calls
    (rest.1, if answered.2.isOk then call.now :: rest.2 else rest.2)

/-- The admissions in the day that ends at `now`. -/
def lastDay (now : Nat) (admitted : List Nat) : List Nat := admitted.filter fun instant => now < instant + oneDay

/-! ## The ledger holds the last day -/

variable {ledger : AttemptLedger} {now : Nat}

/-- The ledger at `now`: the admissions so far, in order, less what has aged out. -/
structure Holds (ledger : AttemptLedger) (admitted : List Nat) (now : Nat) : Prop where
  ordered : admitted.Pairwise (· ≤ ·)
  past : ∀ instant ∈ admitted, instant ≤ now
  spent : ledger.spent = lastDay now admitted

theorem Holds.retire {admitted : List Nat} {before : Nat} (h : ledger.Holds admitted before)
    (hle : before ≤ now) : ledger.retire now = lastDay now admitted := by
  unfold AttemptLedger.retire lastDay
  rw [h.spent, Pointwise.dropWhile_eq_filter, lastDay, List.filter_filter]
  · refine List.filter_congr fun instant hmem => ?_
    have := h.past instant hmem
    have hday : 0 < oneDay := by decide
    rw [Bool.eq_iff_iff]
    simp only [Bool.and_eq_true, Bool.not_eq_true', decide_eq_true_eq, decide_eq_false_iff_not]
    omega
  · refine (h.ordered.filter _).imp fun {a b} hab hb => ?_
    rw [decide_eq_true_eq] at hb ⊢
    omega

theorem Holds.admitAttempt {admitted : List Nat} {before : Nat} (budget : Nat)
    (h : ledger.Holds admitted before) (hle : before ≤ now) :
    (ledger.admitAttempt now budget).1.Holds
      (if (ledger.admitAttempt now budget).2.isOk then admitted ++ [now] else admitted) now := by
  have hpast : ∀ instant ∈ admitted, instant ≤ now := fun instant hmem => Nat.le_trans (h.past instant hmem) hle
  unfold AttemptLedger.admitAttempt
  dsimp only
  rw [h.retire hle]
  split
  · exact ⟨h.ordered, hpast, rfl⟩
  · refine ⟨List.pairwise_append.2 ⟨h.ordered, List.pairwise_singleton _ _, ?_⟩, ?_, ?_⟩
    · intro instant hmem _ hnow
      rw [List.mem_singleton.1 hnow]
      exact hpast instant hmem
    · exact List.forall_mem_append.2 ⟨hpast, List.forall_mem_singleton.2 (Nat.le_refl now)⟩
    · have hnow : decide (now < now + oneDay) = true := by simp [oneDay]
      change lastDay now admitted ++ [now] = lastDay now (admitted ++ [now])
      rw [lastDay, lastDay, List.filter_append]
      congr 1
      rw [List.filter_cons, if_pos hnow]
      rfl

theorem Holds.run {admitted : List Nat} {before : Nat} {calls : List Call}
    (h : ledger.Holds admitted before) (hordered : (calls.map Call.now).Pairwise (· ≤ ·))
    (hbefore : ∀ call ∈ calls, before ≤ call.now) (hnow : ∀ call ∈ calls, call.now ≤ now) (hle : before ≤ now) :
    ∃ last, (ledger.run calls).1.Holds (admitted ++ (ledger.run calls).2) last ∧ last ≤ now := by
  induction calls generalizing ledger admitted before with
  | nil => exact ⟨before, by simpa [AttemptLedger.run] using h, hle⟩
  | cons call calls ih =>
    obtain ⟨hhead, hordered⟩ := List.pairwise_cons.1 hordered
    obtain ⟨hcall, -⟩ := List.forall_mem_cons.1 hbefore
    obtain ⟨hcall', hnow⟩ := List.forall_mem_cons.1 hnow
    obtain ⟨last, hlast, hle'⟩ := ih (h.admitAttempt call.budget hcall) hordered
      (fun later hlater => hhead _ (List.mem_map_of_mem hlater)) hnow hcall'
    refine ⟨last, ?_, hle'⟩
    unfold AttemptLedger.run
    dsimp only
    convert hlast using 1
    split
    · rw [List.append_assoc]
      rfl
    · rfl

/-- Under one budget the ledger never holds more. -/
theorem run_spent_le {calls : List Call} {budget : Nat} (h : ledger.spent.length ≤ budget)
    (hbudget : ∀ call ∈ calls, call.budget = budget) : (ledger.run calls).1.spent.length ≤ budget := by
  induction calls generalizing ledger with
  | nil => exact h
  | cons call calls ih =>
    obtain ⟨hcall, hbudget⟩ := List.forall_mem_cons.1 hbudget
    refine ih ?_ hbudget
    have hretire : (ledger.retire call.now).length ≤ budget := Nat.le_trans (List.dropWhile_suffix _).length_le h
    unfold AttemptLedger.admitAttempt
    dsimp only
    split
    · exact hretire
    · next hroom =>
      rw [List.length_append, List.length_singleton]
      omega

/-! ## Admissions and refusals -/

theorem admitAttempt_ok {budget : Nat} (h : (ledger.admitAttempt now budget).2 = .ok ()) :
    (ledger.retire now).length < budget := by
  unfold AttemptLedger.admitAttempt at h
  dsimp only at h
  split at h
  · cases h
  · next hroom => exact Nat.not_le.1 hroom

theorem admitAttempt_error {budget free : Nat} (h : (ledger.admitAttempt now budget).2 = .error free) :
    budget ≤ (ledger.retire now).length ∧ free = (ledger.retire now).head?.getD now + oneDay ∧
      (ledger.admitAttempt now budget).1.spent = ledger.retire now := by
  unfold AttemptLedger.admitAttempt at h ⊢
  dsimp only at h ⊢
  split at h
  · next hfull =>
    cases h
    rw [if_pos hfull]
    exact ⟨hfull, rfl, rfl⟩
  · cases h

theorem retire_front {oldest : Nat} {spent : List Nat}
    (h : ledger.retire now = oldest :: spent) : now < oldest + oneDay := by
  unfold retire at h
  have hfront := List.head?_dropWhile_not (fun instant => decide (oneDay ≤ now - instant)) ledger.spent
  rw [h] at hfront
  simp only [List.head?_cons, decide_eq_false_iff_not] at hfront
  omega

/-- A front that still counts keeps the whole ledger, one that has aged out leaves it. -/
theorem retire_cons {oldest : Nat} {spent : List Nat} :
    (now < oldest + oneDay → retire ⟨oldest :: spent⟩ now = oldest :: spent) ∧
      (oldest + oneDay ≤ now → (retire ⟨oldest :: spent⟩ now).length ≤ spent.length) := by
  have hday : 0 < oneDay := by decide
  unfold retire
  constructor
  · intro hcounts
    exact List.dropWhile_cons_of_neg (by rw [decide_eq_true_eq]; omega)
  · intro haged
    rw [List.dropWhile_cons_of_pos (by rw [decide_eq_true_eq]; omega)]
    exact (List.dropWhile_suffix _).length_le

/-- Where the instants of the calls never decrease: an admission is within its budget over the day that ends at it, and
under one budget a refusal names the first instant, later than its own, at which a call would be admitted. -/
theorem attempts_within_sliding_day {calls : List Call} {now budget : Nat}
    (hordered : (calls.map Call.now ++ [now]).Pairwise (· ≤ ·)) :
    let ledger := (new.run calls).1
    let admitted := (new.run calls).2
    ((ledger.admitAttempt now budget).2 = .ok () →
      ((admitted ++ [now]).filter fun instant : Nat => (now : Int) - oneDay < instant ∧ instant ≤ now).length ≤ budget) ∧
    ∀ free, (∀ call ∈ calls, call.budget = budget) → 1 ≤ budget → (ledger.admitAttempt now budget).2 = .error free →
      now < free ∧ ((ledger.admitAttempt now budget).1.admitAttempt free budget).2 = .ok () ∧
      ∀ sooner, now ≤ sooner → sooner < free →
        ((ledger.admitAttempt now budget).1.admitAttempt sooner budget).2 ≠ .ok () := by
  dsimp only
  obtain ⟨hcalls, -, hnow⟩ := List.pairwise_append.1 hordered
  have hnow' : ∀ call ∈ calls, call.now ≤ now := fun call hcall =>
    hnow _ (List.mem_map_of_mem hcall) now (List.mem_singleton.2 rfl)
  have hnew : new.Holds [] 0 := ⟨.nil, List.forall_mem_nil _, rfl⟩
  obtain ⟨last, hheld, hlast⟩ := hnew.run hcalls (fun _ _ => Nat.zero_le _) hnow' (Nat.zero_le now)
  rw [List.nil_append] at hheld
  refine ⟨fun hadmitted => ?_, fun free hbudget hpos hrefused => ?_⟩
  · have hroom := admitAttempt_ok hadmitted
    rw [hheld.retire hlast] at hroom
    have hwindow : ((new.run calls).2 ++ [now]).filter (fun instant : Nat => (now : Int) - oneDay < instant ∧ instant ≤ now) =
        lastDay now ((new.run calls).2 ++ [now]) := by
      refine List.filter_congr fun instant hmem => ?_
      have hpast : instant ≤ now := by
        rcases List.mem_append.1 hmem with hmem | hmem
        · exact Nat.le_trans (hheld.past instant hmem) hlast
        · exact Nat.le_of_eq (List.mem_singleton.1 hmem)
      rw [Bool.eq_iff_iff, decide_eq_true_eq, decide_eq_true_eq]
      omega
    rw [hwindow, lastDay, List.filter_append, List.length_append]
    have hsingle := List.length_filter_le (fun instant => decide (now < instant + oneDay)) [now]
    rw [List.length_singleton] at hsingle
    unfold lastDay at hroom
    omega
  · obtain ⟨hfull, hfree, hspent⟩ := admitAttempt_error hrefused
    have hfits : (new.run calls).1.spent.length ≤ budget := run_spent_le (Nat.zero_le _) hbudget
    have hkept : (new.run calls).1.retire now <:+ (new.run calls).1.spent := List.dropWhile_suffix _
    generalize (new.run calls).1.admitAttempt now budget = refused at hspent
    obtain ⟨⟨spent⟩, answer⟩ := refused
    dsimp only at hspent ⊢
    subst hspent
    -- The oldest attempt still counted is the front: before it ages out nothing leaves, then one place is free.
    cases hretired : (new.run calls).1.retire now with
    | nil =>
      rw [hretired] at hfull
      exact absurd hfull (by simp; omega)
    | cons oldest spent =>
      rw [hretired] at hfull hfree hkept
      have hcounts := retire_front hretired
      obtain rfl : free = oldest + oneDay := hfree
      have hlength : spent.length < budget := by
        have := hkept.length_le
        rw [List.length_cons] at this
        omega
      refine ⟨hcounts, ?_, fun sooner hsooner hearly hok => ?_⟩
      · unfold AttemptLedger.admitAttempt
        dsimp only
        rw [if_neg (Nat.not_le.2 (Nat.lt_of_le_of_lt (retire_cons.2 (Nat.le_refl _)) hlength))]
      · have hroom := admitAttempt_ok hok
        rw [retire_cons.1 hearly] at hroom
        omega

/-- One attempt a day: the second is sent away until the first is a day old. -/
theorem example_sliding_day :
    ((new.run [⟨0, 1⟩]).1.admitAttempt 5 1).2 = .error oneDay ∧ 5 < oneDay ∧
      (((new.run [⟨0, 1⟩]).1.admitAttempt 5 1).1.admitAttempt oneDay 1).2 = .ok () := by
  obtain ⟨-, hrefusal⟩ := @attempts_within_sliding_day [⟨0, 1⟩] 5 1 (by decide)
  obtain ⟨hlater, hfree, -⟩ := hrefusal oneDay (by decide) (by decide) (by decide)
  exact ⟨by decide, hlater, hfree⟩

end AttemptLedger

end PmWs
