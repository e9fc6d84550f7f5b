import Mathlib.Tactic.Common

/-!
# Replaying the changes between two maps

A change names a key and its value before and after. A list of changes with
distinct keys that accounts for the step from one map to the next can be
replayed over any map that agrees with the first one up to a normal form of
its values: the result agrees with the second, and every change finds the
value it expects.
-/

open Std

namespace Replay

structure Change (K V : Type*) where
  key : K
  before : Option V
  after : Option V

variable {K V W : Type*} {cmp : K → K → Ordering} [TransCmp cmp] {m : ExtTreeMap K V cmp} {norm : Option V → W}
  {changes cs : List (Change K V)}

/-- Sets the key to the new value, or deletes it. -/
def Change.apply (m : ExtTreeMap K V cmp) (c : Change K V) : ExtTreeMap K V cmp :=
  match c.after with
  | some v => m.insert c.key v
  | none => m.erase c.key

/-- Two maps agree when every key has the same value up to `norm`. -/
def Agree (norm : Option V → W) (m m' : ExtTreeMap K V cmp) : Prop := ∀ k : K, norm m[k]? = norm m'[k]?

theorem Agree.refl (norm : Option V → W) (m : ExtTreeMap K V cmp) : Agree norm m m := fun _ => rfl

theorem Agree.trans {a b c : ExtTreeMap K V cmp} (h : Agree norm a b) (h' : Agree norm b c) :
    Agree norm a c := fun k => (h k).trans (h' k)

/-- Every change of the list finds, up to `norm`, the value it records as its `before`. -/
def Expected (norm : Option V → W) : ExtTreeMap K V cmp → List (Change K V) → Prop
  | _, [] => True
  | m, c :: cs => norm c.before = norm m[c.key]? ∧ Expected norm (c.apply m) cs

theorem Expected.append {ds : List (Change K V)}
    (h : Expected norm m cs) (h' : Expected norm (cs.foldl Change.apply m) ds) : Expected norm m (cs ++ ds) := by
  induction cs generalizing m with
  | nil => exact h'
  | cons c cs ih => exact ⟨h.1, ih h.2 h'⟩

theorem Expected.split {ds : List (Change K V)} {c : Change K V}
    (h : Expected norm m (cs ++ c :: ds)) : norm c.before = norm (cs.foldl Change.apply m)[c.key]? := by
  induction cs generalizing m with
  | nil => exact h.1
  | cons d cs ih => exact ih h.2

variable [LawfulEqCmp cmp]

theorem getElem?_apply (m : ExtTreeMap K V cmp) (c : Change K V) (k : K) [Decidable (c.key = k)] :
    (c.apply m)[k]? = if c.key = k then c.after else m[k]? := by
  unfold Change.apply
  split
  · next h => simp [ExtTreeMap.getElem?_insert, h]
  · next h => simp [ExtTreeMap.getElem?_erase, h]

theorem Agree.apply {a b : ExtTreeMap K V cmp} (h : Agree norm a b) (c : Change K V) :
    Agree norm (c.apply a) (c.apply b) := by
  classical
  intro k
  rw [getElem?_apply, getElem?_apply]
  split
  · rfl
  · exact h k

/-- The changes account for the step from `m` to `m'`. -/
structure Accounts (m m' : ExtTreeMap K V cmp) (changes : List (Change K V)) : Prop where
  distinct : (changes.map Change.key).Nodup
  before : ∀ c ∈ changes, c.before = m[c.key]?
  after : ∀ c ∈ changes, c.after = m'[c.key]?
  frame : ∀ k, k ∉ changes.map Change.key → m'[k]? = m[k]?

theorem Accounts.tail {m' : ExtTreeMap K V cmp} {c : Change K V}
    (h : Accounts m m' (c :: cs)) : Accounts (c.apply m) m' cs := by
  classical
  have hd := List.nodup_cons.1 h.distinct
  refine ⟨hd.2, fun d hmem => ?_, fun d hmem => h.after d (List.mem_cons_of_mem _ hmem), fun k hk => ?_⟩
  · have hne : c.key ≠ d.key := fun heq => hd.1 (heq ▸ List.mem_map_of_mem hmem)
    rw [getElem?_apply, if_neg hne]
    exact h.before d (List.mem_cons_of_mem _ hmem)
  · rw [getElem?_apply]
    split
    · next heq => rw [← heq, h.after c List.mem_cons_self]
    · next hne => exact h.frame k (by simpa [Ne.symm hne] using hk)

theorem getElem?_foldl_of_notMem {k : K}
    (h : k ∉ changes.map Change.key) : (changes.foldl Change.apply m)[k]? = m[k]? := by
  classical
  induction changes generalizing m with
  | nil => rfl
  | cons c cs ih =>
    simp only [List.map_cons, List.mem_cons, not_or] at h
    rw [List.foldl_cons, ih h.2, getElem?_apply, if_neg (Ne.symm h.1)]

/-- Changes of distinct keys that record the map they start from account for the map they lead to. -/
theorem accounts_foldl (hd : (changes.map Change.key).Nodup) (hb : ∀ c ∈ changes, c.before = m[c.key]?) :
    Accounts m (changes.foldl Change.apply m) changes := by
  classical
  refine ⟨hd, hb, ?_, fun k hk => getElem?_foldl_of_notMem hk⟩
  clear hb
  induction changes generalizing m with
  | nil => simp
  | cons c cs ih =>
    have hcons := List.nodup_cons.1 hd
    intro d hmem
    rcases List.mem_cons.1 hmem with rfl | hmem
    · rw [List.foldl_cons, getElem?_foldl_of_notMem hcons.1, getElem?_apply, if_pos rfl]
    · exact ih hcons.2 d hmem

/-- Whether a change changes anything. -/
def Change.effective [DecidableEq V] (c : Change K V) : Bool := c.before ≠ c.after

/-- Replaying the effective changes of a step over a map that agrees with its start. -/
theorem Accounts.replay [DecidableEq V]
    {m₀ m' : ExtTreeMap K V cmp} (h : Accounts m m' changes) (hag : Agree norm m₀ m) :
    Expected norm m₀ (changes.filter Change.effective) ∧
      Agree norm ((changes.filter Change.effective).foldl Change.apply m₀) m' := by
  classical
  induction changes generalizing m₀ m with
  | nil =>
    refine ⟨trivial, fun k => ?_⟩
    rw [List.filter_nil, List.foldl_nil, h.frame k (by simp)]
    exact hag k
  | cons c cs ih =>
    have hb := h.before c List.mem_cons_self
    by_cases hc : c.effective
    · rw [List.filter_cons_of_pos hc]
      obtain ⟨hexp, hagree⟩ := ih h.tail (hag.apply c)
      exact ⟨⟨by rw [hb, hag c.key], hexp⟩, hagree⟩
    · -- A change that changes nothing is skipped: applying it leaves the map as it is.
      rw [List.filter_cons_of_neg hc]
      refine ih h.tail (hag.trans fun k => ?_)
      have heq : c.before = c.after := by simpa [Change.effective] using hc
      rw [getElem?_apply]
      split
      · next hk => rw [← heq, hb, hk]
      · rfl

end Replay
