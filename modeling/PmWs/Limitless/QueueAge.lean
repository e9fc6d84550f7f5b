import Mathlib.Algebra.Order.Floor.Div
import PmWs.Lib.Histogram
import PmWs.Lib.MachineInt

/-!
# The latency histogram

Ages in microseconds are counted in buckets that double in width, the last one
without an end. A percentile is read off the buckets: the bound of the bucket
the rank falls into, or the largest age seen. It is never below the sample of
that rank, and below the last bucket it is at most twice that sample.
-/

open MachineInt Histogram

namespace PmWs

def queueAgeBuckets : Nat := 24

/-- `u64::leading_zeros`. -/
def leadingZeros (n : Nat) : Nat := if n = 0 then 64 else 63 - n.log2

/-- `u64::checked_shl` of one. -/
def checkedShlOne (bits : Nat) : Option Nat := if bits < 64 then some (2 ^ bits) else none

/-- The bucket of a sample: one more than the position of its highest bit, as far as there are buckets. -/
def bucketOf (micros : Nat) : Fin queueAgeBuckets :=
  ⟨min (64 - leadingZeros micros) (queueAgeBuckets - 1), Nat.lt_of_le_of_lt (Nat.min_le_right _ _) (by decide)⟩

structure QueueAge where
  buckets : Vector Nat queueAgeBuckets
  samples : Nat
  lastMicros : Nat
  maxMicros : Nat
  deriving DecidableEq, Repr

namespace QueueAge

def new : QueueAge := ⟨Vector.replicate queueAgeBuckets 0, 0, 0, 0⟩

def record (self : QueueAge) (micros : Nat) : QueueAge where
  buckets := self.buckets.set (bucketOf micros) (saturatingAdd self.buckets[bucketOf micros] 1)
  samples := saturatingAdd self.samples 1
  lastMicros := micros
  maxMicros := max self.maxMicros micros

/-- The loop of `permille`: the first bucket at which the count so far reaches `target`. -/
def reach (target : Nat) : Nat → Nat → List Nat → Option Nat
  | _, _, [] => none
  | index, seen, count :: rest =>
    if target ≤ saturatingAdd seen count then some index else reach target (index + 1) (saturatingAdd seen count) rest

/-- What `permille` answers for a bucket. -/
def bound (self : QueueAge) (index : Nat) : Nat :=
  if index = queueAgeBuckets - 1 then self.maxMicros
  else min ((checkedShlOne index).getD u64Max) self.maxMicros

/-- The bucket bound at `perMille` thousandths of the samples. -/
def permille (self : QueueAge) (perMille : Nat) : Nat :=
  if self.samples = 0 then 0
  else
    let rank := min (self.samples * perMille) u128Max ⌈/⌉ 1000
    let target := max ((fit u64Max rank).getD u64Max) 1
    match reach target 0 0 self.buckets.toList with
    | some index => self.bound index
    | none => self.maxMicros

/-- The histogram of a sequence of samples. -/
def recorded (samples : List Nat) : QueueAge := samples.foldl record new

end QueueAge

/-! ## Buckets -/

/-- Below the last bucket, a bucket and those before it are the samples below a power of two. -/
theorem bucketOf_le_iff {micros index : Nat} (h : index < queueAgeBuckets - 1) :
    (bucketOf micros).val ≤ index ↔ micros < 2 ^ index := by
  have hindex : (bucketOf micros).val ≤ index ↔ 64 - leadingZeros micros ≤ index := by
    change min _ _ ≤ index ↔ _
    omega
  rw [hindex, leadingZeros]
  split
  · next hzero => simp [hzero]
  · next hpos =>
    rw [← Nat.log2_lt hpos]
    unfold queueAgeBuckets at h
    omega

theorem bucketOf_mono {a b : Nat} (h : a ≤ b) : (bucketOf a).val ≤ (bucketOf b).val := by
  by_cases hlast : (bucketOf b).val < queueAgeBuckets - 1
  · exact (bucketOf_le_iff hlast).2 (h.trans_lt ((bucketOf_le_iff hlast).1 (Nat.le_refl _)))
  · have := (bucketOf a).isLt
    omega

namespace QueueAge

theorem bound_eq (self : QueueAge) {index : Nat} (h : index < queueAgeBuckets - 1) :
    self.bound index = min (2 ^ index) self.maxMicros := by
  unfold bound checkedShlOne
  unfold queueAgeBuckets at h ⊢
  rw [if_neg (by omega), if_pos (by omega)]
  rfl

theorem bound_le_max (self : QueueAge) (index : Nat) : self.bound index ≤ self.maxMicros := by
  unfold bound
  split
  · exact Nat.le_refl _
  · exact Nat.min_le_right _ _

theorem bound_mono (self : QueueAge) {i j : Nat} (hij : i ≤ j) (hj : j < queueAgeBuckets) :
    self.bound i ≤ self.bound j := by
  by_cases hlast : j = queueAgeBuckets - 1
  · rw [show self.bound j = self.maxMicros from if_pos hlast]
    exact self.bound_le_max i
  · rw [self.bound_eq (by omega), self.bound_eq (by omega)]
    exact min_le_min_right _ (Nat.pow_le_pow_right (by decide) hij)

/-- The bound of a sample's bucket is not below the sample. -/
theorem le_bound {self : QueueAge} {micros : Nat} (h : micros ≤ self.maxMicros) :
    micros ≤ self.bound (bucketOf micros) := by
  by_cases hlast : (bucketOf micros).val < queueAgeBuckets - 1
  · rw [self.bound_eq hlast]
    exact Nat.le_min.2 ⟨((bucketOf_le_iff hlast).1 (Nat.le_refl _)).le, h⟩
  · have hlt := (bucketOf micros).isLt
    rwa [show self.bound (bucketOf micros) = self.maxMicros from if_pos (by omega)]

/-- Below the last bucket it is at most twice the sample. -/
theorem bound_le_double (self : QueueAge) {micros : Nat} (h : micros < 2 ^ 22) :
    self.bound (bucketOf micros) ≤ max (2 * micros) 1 := by
  have hlast : (bucketOf micros).val ≤ 22 := (bucketOf_le_iff (by decide)).2 h
  rw [self.bound_eq (Nat.lt_succ_of_le hlast)]
  refine (Nat.min_le_left _ _).trans ?_
  cases hbucket : (bucketOf micros).val with
  | zero => exact Nat.le_max_right _ _
  | succ k =>
    have hge : ¬micros < 2 ^ k := by
      rw [← bucketOf_le_iff (show k < queueAgeBuckets - 1 by unfold queueAgeBuckets; omega)]
      omega
    rw [Nat.pow_succ]
    omega

/-! ## What the histogram holds -/

variable {samples : List Nat} {self : QueueAge}

structure Holds (age : QueueAge) (samples : List Nat) : Prop where
  total : age.samples = samples.length
  buckets : ∀ index : Fin queueAgeBuckets, age.buckets[index] = samples.countP fun s => bucketOf s = index
  highest : ∀ s ∈ samples, s ≤ age.maxMicros

theorem Holds.record (h : self.Holds samples) (micros : Nat)
    (hroom : samples.length < u64Max) : (self.record micros).Holds (samples ++ [micros]) where
  total := by
    change saturatingAdd self.samples 1 = _
    rw [List.length_append, List.length_singleton, h.total, saturatingAdd]
    omega
  buckets index := by
    have hcount : samples.countP (fun s => bucketOf s = bucketOf micros) ≤ samples.length := List.countP_le_length
    rw [List.countP_append, List.countP_singleton]
    simp only [QueueAge.record, Fin.getElem_fin, Vector.getElem_set, Fin.val_inj, decide_eq_true_eq]
    split
    · next heq =>
      subst heq
      have hbucket := h.buckets (bucketOf micros)
      rw [Fin.getElem_fin] at hbucket
      rw [hbucket, saturatingAdd]
      omega
    · exact h.buckets index
  highest s hs := by
    rcases List.mem_append.1 hs with hs | hs
    · exact (h.highest s hs).trans (Nat.le_max_left _ _)
    · rw [List.mem_singleton.1 hs]
      exact Nat.le_max_right _ _

theorem holds_recorded (h : samples.length ≤ u64Max) : (recorded samples).Holds samples := by
  induction samples using List.reverseRecOn with
  | nil => exact ⟨rfl, fun index => by simp [recorded, new], by simp⟩
  | append_singleton samples micros ih =>
    rw [List.length_append, List.length_singleton] at h
    have hrecord := (ih (by omega)).record micros (by omega)
    rwa [recorded, List.foldl_append]

theorem Holds.toList (h : self.Holds samples) :
    self.buckets.toList = counts (fun s => (bucketOf s).val) queueAgeBuckets samples := by
  refine List.ext_getElem (by simp) fun i hi _ => ?_
  rw [Vector.length_toList] at hi
  have hbucket := h.buckets ⟨i, hi⟩
  simp only [Fin.getElem_fin, Fin.ext_iff] at hbucket
  simp [counts, hbucket]

/-! ## Percentiles -/

/-- The exact sample at a number of thousandths: the one at the nearest rank of the sorted samples. -/
def nearestRank (samples : List Nat) (perMille : Nat) : Option Nat :=
  samples.mergeSort[samples.length * perMille ⌈/⌉ 1000 - 1]?

/-- The loop stops at the first position whose running total reaches the target. -/
theorem reach_eq_some {target : Nat} (htarget : target ≤ u64Max) {counts : List Nat} {index seen k : Nat}
    (hk : k < counts.length) (hbelow : seen + (counts.take k).sum < target)
    (hreached : target ≤ seen + (counts.take (k + 1)).sum) : reach target index seen counts = some (index + k) := by
  induction counts generalizing index seen k with
  | nil => cases hk
  | cons count rest ih =>
    rw [reach]
    cases k with
    | zero =>
      have hstop : target ≤ saturatingAdd seen count := by
        simp only [List.take_succ_cons, List.take_zero, List.sum_singleton] at hreached
        exact Nat.le_min.2 ⟨hreached, htarget⟩
      rw [if_pos hstop, Nat.add_zero]
    | succ k =>
      rw [List.take_succ_cons, List.sum_cons] at hbelow hreached
      have hseen : saturatingAdd seen count = seen + count := by
        rw [saturatingAdd]
        omega
      rw [hseen, if_neg (by omega), ih (Nat.lt_of_succ_lt_succ hk) (by omega) (by omega)]
      congr 1
      omega

theorem pairwise_mergeSort (samples : List Nat) : samples.mergeSort.Pairwise (· ≤ ·) :=
  (List.pairwise_mergeSort (fun a b c hab hbc => by simp at *; omega) (fun a b => by simp; omega) samples).imp
    (by simp)

/-- The rank of a number of thousandths is a position of the samples. -/
theorem rank_le {n perMille : Nat} (hn : 0 < n) (hlow : 1 ≤ perMille) (hhigh : perMille ≤ 1000) :
    1 ≤ n * perMille ⌈/⌉ 1000 ∧ n * perMille ⌈/⌉ 1000 ≤ n := by
  rw [Nat.ceilDiv_eq_add_pred_div]
  have hpos : 1 ≤ n * perMille := Nat.mul_pos hn hlow
  have hle : n * perMille ≤ n * 1000 := Nat.mul_le_mul_left n hhigh
  omega

/-- The answer is the bound of the bucket of the exact sample. -/
theorem Holds.permille (h : self.Holds samples) (hne : samples ≠ [])
    (hlength : samples.length ≤ u64Max) {perMille : Nat} (hlow : 1 ≤ perMille) (hhigh : perMille ≤ 1000) :
    ∃ s, nearestRank samples perMille = some s ∧ s ∈ samples ∧ self.permille perMille = self.bound (bucketOf s) := by
  have hn : 0 < samples.length := List.length_pos_iff.2 hne
  obtain ⟨hrank, hrank'⟩ := rank_le hn hlow hhigh
  have hsorted := pairwise_mergeSort samples
  have hpos : samples.length * perMille ⌈/⌉ 1000 - 1 < samples.mergeSort.length := by
    rw [List.length_mergeSort]
    omega
  set rank := samples.length * perMille ⌈/⌉ 1000 with hdef
  have hmem := List.mem_mergeSort.1 (List.getElem_mem hpos)
  have hfound : nearestRank samples perMille = some samples.mergeSort[rank - 1] := List.getElem?_eq_getElem hpos
  refine ⟨_, hfound, hmem, ?_⟩
  set s := samples.mergeSort[rank - 1] with hs
  -- the count up to a bucket reaches the rank exactly when the sample lies at or below that bucket
  have hcount (k : Nat) : (bucketOf s).val < k ↔ rank ≤ samples.countP fun x => (bucketOf x).val < k := by
    have hiff := getElem_iff_lt_countP (p := fun x => decide ((bucketOf x).val < k))
      (hsorted.imp fun {a b} hab hb => by
        rw [decide_eq_true_eq] at hb ⊢
        exact (bucketOf_mono hab).trans_lt hb) hpos
    rw [(List.mergeSort_perm samples _).countP_eq, decide_eq_true_eq] at hiff
    rw [hs, hiff]
    omega
  have hreach : reach rank 0 0 self.buckets.toList = some (bucketOf s).val := by
    have hlt := (bucketOf s).isLt
    rw [h.toList, ← Nat.zero_add (bucketOf s).val]
    refine reach_eq_some (hrank'.trans hlength) (by simp) ?_ ?_
    · rw [take_counts _ hlt.le, sum_counts, Nat.zero_add, ← Nat.not_le, ← hcount]
      exact Nat.lt_irrefl _
    · rw [take_counts _ hlt, sum_counts, Nat.zero_add, ← hcount]
      exact Nat.lt_succ_self _
  have htotal : self.samples * perMille ≤ u128Max := by
    rw [h.total]
    exact (Nat.mul_le_mul hlength hhigh).trans (by decide)
  have htarget : max ((fit u64Max rank).getD u64Max) 1 = rank := by
    rw [fit_eq_some.2 ⟨hrank'.trans hlength, rfl⟩]
    exact Nat.max_eq_left hrank
  unfold QueueAge.permille
  rw [if_neg (by rw [h.total]; omega)]
  dsimp only
  rw [Nat.min_eq_left htotal, h.total, ← hdef, htarget, hreach]

theorem nearestRank_mono {a b s s' : Nat} (hab : a ≤ b) (hs : nearestRank samples a = some s)
    (hs' : nearestRank samples b = some s') : s ≤ s' := by
  obtain ⟨hi, rfl⟩ := List.getElem?_eq_some_iff.1 hs
  obtain ⟨hj, rfl⟩ := List.getElem?_eq_some_iff.1 hs'
  have hle : samples.length * a ⌈/⌉ 1000 - 1 ≤ samples.length * b ⌈/⌉ 1000 - 1 := by
    have hmul : samples.length * a ≤ samples.length * b := Nat.mul_le_mul_left _ hab
    rw [Nat.ceilDiv_eq_add_pred_div, Nat.ceilDiv_eq_add_pred_div]
    omega
  rcases hle.eq_or_lt with heq | hlt
  · simp only [heq, Nat.le_refl]
  · exact List.pairwise_iff_getElem.1 (pairwise_mergeSort samples) _ _ hi hj hlt

theorem Holds.permille_mono (h : self.Holds samples) (hne : samples ≠ [])
    (hlength : samples.length ≤ u64Max) {a b : Nat} (hlow : 1 ≤ a) (hab : a ≤ b) (hhigh : b ≤ 1000) :
    self.permille a ≤ self.permille b := by
  obtain ⟨s, hs, -, ha⟩ := h.permille hne hlength hlow (hab.trans hhigh)
  obtain ⟨s', hs', -, hb⟩ := h.permille hne hlength (hlow.trans hab) hhigh
  rw [ha, hb]
  exact self.bound_mono (bucketOf_mono (nearestRank_mono hab hs hs')) (bucketOf s').isLt

/-- A percentile lies between the exact sample of its rank and the largest sample. Below the last bucket it is at most
twice that sample, and it ascends with the rank. -/
theorem permille_brackets {samples : List Nat} (hne : samples ≠ []) (hlength : samples.length < 2 ^ 64) {perMille : Nat}
    (hlow : 1 ≤ perMille) (hhigh : perMille ≤ 1000) :
    ∃ s, nearestRank samples perMille = some s ∧ s ≤ (recorded samples).permille perMille ∧
      (recorded samples).permille perMille ≤ (recorded samples).maxMicros ∧
      (s < 2 ^ 22 → (recorded samples).permille perMille ≤ max (2 * s) 1) ∧
      ∀ larger, perMille ≤ larger → larger ≤ 1000 →
        (recorded samples).permille perMille ≤ (recorded samples).permille larger := by
  have hlength : samples.length ≤ u64Max := Nat.le_pred_of_lt hlength
  have h := holds_recorded hlength
  obtain ⟨s, hs, hmem, hbound⟩ := h.permille hne hlength hlow hhigh
  refine ⟨s, hs, ?_, ?_, fun hbelow => ?_, fun larger hlarger hhigh' => ?_⟩
  · rw [hbound]
    exact le_bound (h.highest s hmem)
  · rw [hbound]
    exact bound_le_max _ _
  · rw [hbound]
    exact bound_le_double _ hbelow
  · exact h.permille_mono hne hlength hlow hlarger hhigh'

/-- Of the ages 3 and 9 the median is 3, reported as 4. -/
theorem example_median : (recorded [3, 9]).permille 500 = 4 ∧ (recorded [3, 9]).maxMicros = 9 ∧
    ∃ s, nearestRank [3, 9] 500 = some s ∧ s ≤ (recorded [3, 9]).permille 500 := by
  obtain ⟨s, hs, hle, -⟩ := @permille_brackets [3, 9] (by decide) (by decide) 500 (by decide) (by decide)
  exact ⟨by decide, by decide, s, hs, hle⟩

end QueueAge

end PmWs
