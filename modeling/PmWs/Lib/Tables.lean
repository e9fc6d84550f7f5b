import Mathlib.Data.Finset.Card
import Mathlib.Data.List.Sort
import Mathlib.Data.Option.Basic
import Mathlib.Order.Compare

/-!
# Tables by key

Lookups in an ordered table after one change, tables related entry by entry,
and the set of keys whose entry has a property.
-/

open Std

namespace Tables

variable {κ α β : Type*} [Ord κ] [TransOrd κ]

/-! ## Lookups -/

section
variable [LawfulEqOrd κ] [DecidableEq κ] (m : ExtTreeMap κ α) (k k' : κ)

theorem lookup_insert (v : α) : (m.insert k v)[k']? = if k' = k then some v else m[k']? := by
  simp [ExtTreeMap.getElem?_insert, eq_comm (a := k')]

theorem lookup_erase : (m.erase k)[k']? = if k' = k then none else m[k']? := by
  simp [ExtTreeMap.getElem?_erase, eq_comm (a := k')]

variable {m k} in
theorem erase_of_none (h : m[k]? = none) : m.erase k = m := by
  apply ExtTreeMap.ext_getElem?
  intro k'
  rw [lookup_erase]
  split
  · rename_i heq
    rw [heq, h]
  · rfl

theorem lookup_modify (f : α → α) : (m.modify k f)[k']? = if k' = k then m[k']?.map f else m[k']? := by
  rw [ExtTreeMap.getElem?_modify]
  by_cases h : k' = k
  · subst h
    simp
  · simp [h, Ne.symm h]

end

theorem lookup_map [LawfulEqOrd κ] (m : ExtTreeMap κ α) (k : κ) (f : κ → α → β) :
    (m.map f)[k]? = m[k]?.map (f k) := by
  simp

theorem contains_filter [LawfulEqOrd κ] (t : ExtTreeSet κ) (f : κ → Bool) (k : κ) :
    (t.filter f).contains k = (t.contains k && f k) := by
  rw [Bool.eq_iff_iff, Bool.and_eq_true, ExtTreeSet.contains_iff_mem, ExtTreeSet.contains_iff_mem, ExtTreeSet.mem_filter]
  simp [ExtTreeSet.get_eq]

/-! ## Entry by entry -/

/-- The tables have the same keys, and the entries of each are related. -/
def Related (R : α → α → Prop) (m m' : ExtTreeMap κ α) : Prop := ∀ k : κ, Option.Rel R m[k]? m'[k]?

section
variable {R : α → α → Prop} {m m' m'' : ExtTreeMap κ α} {k : κ} {a b : α}

theorem Related.refl (hR : ∀ a, R a a) (m : ExtTreeMap κ α) : Related R m m := by
  intro k
  cases m[k]? with
  | none => exact .none
  | some a => exact .some (hR a)

theorem Related.trans (hR : ∀ {a b c}, R a b → R b c → R a c) (h₁ : Related R m m') (h₂ : Related R m' m'') :
    Related R m m'' := by
  intro k
  have hk := h₁ k
  have hk' := h₂ k
  revert hk hk'
  cases m[k]? <;> cases m'[k]? <;> cases m''[k]? <;> simp
  exact hR

theorem Related.mono {R' : α → α → Prop} (h : Related R m m') (hR : ∀ {a b}, R a b → R' a b) : Related R' m m' := by
  intro k
  have hk := h k
  revert hk
  cases m[k]? <;> cases m'[k]? <;> simp
  exact hR

theorem Related.of_some (h : Related R m m') (hb : m'[k]? = some b) : ∃ a, m[k]? = some a ∧ R a b := by
  have hk := h k
  rw [hb] at hk
  cases ha : m[k]? with
  | none => simp [ha] at hk
  | some a => exact ⟨a, rfl, by simpa [ha] using hk⟩

theorem Related.to_some (h : Related R m m') (ha : m[k]? = some a) : ∃ b, m'[k]? = some b ∧ R a b := by
  have hk := h k
  rw [ha] at hk
  cases hb : m'[k]? with
  | none => simp [hb] at hk
  | some b => exact ⟨b, rfl, by simpa [hb] using hk⟩

theorem Related.map [LawfulEqOrd κ] {f : κ → α → α} (hf : ∀ (k : κ) a, m[k]? = some a → R a (f k a)) :
    Related R m (m.map f) := by
  intro k
  rw [lookup_map]
  cases ha : m[k]? with
  | none => exact .none
  | some a => exact .some (hf k a ha)

theorem Related.insert [LawfulEqOrd κ] [DecidableEq κ] (hR : ∀ a, R a a) (ha : m[k]? = some a) (h : R a b) :
    Related R m (m.insert k b) := by
  intro k'
  rw [lookup_insert]
  by_cases heq : k' = k
  · subst heq
    rw [if_pos rfl, ha]
    exact .some h
  · rw [if_neg heq]
    exact Related.refl hR m k'

theorem Related.modify [LawfulEqOrd κ] [DecidableEq κ] (hR : ∀ a, R a a) {f : α → α}
    (hf : ∀ a, m[k]? = some a → R a (f a)) : Related R m (m.modify k f) := by
  intro k'
  rw [lookup_modify]
  by_cases heq : k' = k
  · subst heq
    rw [if_pos rfl]
    cases ha : m[k']? with
    | none => exact .none
    | some a => exact .some (hf a ha)
  · rw [if_neg heq]
    exact Related.refl hR m k'

end

/-! ## Keys with a property -/

section
variable [LawfulEqOrd κ] {p : α → Bool} {m m' : ExtTreeMap κ α} {k : κ}

/-- The keys whose entry has the property, in order. -/
def keysIn (p : α → Bool) (m : ExtTreeMap κ α) : List κ :=
  m.toList.filterMap fun entry => if p entry.2 then some entry.1 else none

theorem mem_keysIn : k ∈ keysIn p m ↔ m[k]?.any p = true := by
  simp only [keysIn, List.mem_filterMap, Option.ite_none_right_eq_some, Option.some.injEq, Option.any_eq_true,
    Prod.exists]
  constructor
  · rintro ⟨_, a, hmem, hp, rfl⟩
    exact ⟨a, ExtTreeMap.mem_toList_iff_getElem?_eq_some.1 hmem, hp⟩
  · rintro ⟨a, ha, hp⟩
    exact ⟨k, a, ExtTreeMap.mem_toList_iff_getElem?_eq_some.2 ha, hp, rfl⟩

omit [LawfulEqOrd κ] in
theorem keysIn_ordered (p : α → Bool) (m : ExtTreeMap κ α) :
    (keysIn p m).Pairwise fun a b => compare a b = .lt := by
  unfold keysIn
  rw [List.pairwise_filterMap]
  refine m.ordered_keys_toList.imp fun {a b} hab k hk k' hk' => ?_
  simp only [Option.ite_none_right_eq_some, Option.some.injEq] at hk hk'
  rwa [← hk.2, ← hk'.2]

/-- The list is determined by which keys it has. -/
theorem keysIn_congr (h : ∀ k : κ, m'[k]?.any p = m[k]?.any p) : keysIn p m' = keysIn p m := by
  have : Std.Irrefl fun a b : κ => compare a b = .lt := ⟨fun a => by simp⟩
  have : Std.Antisymm fun a b : κ => compare a b = .lt :=
    ⟨fun a b hab hba => by simp [OrientedCmp.gt_of_lt hba] at hab⟩
  exact (keysIn_ordered p m').eq_of_mem_iff (keysIn_ordered p m) fun k => by rw [mem_keysIn, mem_keysIn, h]

variable [DecidableEq κ]

/-- The keys whose entry has the property. -/
def keysWhere (p : α → Bool) (m : ExtTreeMap κ α) : Finset κ := (keysIn p m).toFinset

theorem mem_keysWhere : k ∈ keysWhere p m ↔ m[k]?.any p = true := by
  rw [keysWhere, List.mem_toFinset, mem_keysIn]

theorem keysWhere_congr (h : ∀ k : κ, m'[k]?.any p = m[k]?.any p) : keysWhere p m' = keysWhere p m := by
  ext k
  rw [mem_keysWhere, mem_keysWhere, h]

theorem keysWhere_insert {v : α} (hv : p v = true) : keysWhere p (m.insert k v) = insert k (keysWhere p m) := by
  ext k'
  rw [Finset.mem_insert, mem_keysWhere, mem_keysWhere, lookup_insert]
  by_cases h : k' = k <;> simp [h, hv]

theorem keysWhere_erase : keysWhere p (m.erase k) = (keysWhere p m).erase k := by
  ext k'
  rw [Finset.mem_erase, mem_keysWhere, mem_keysWhere, lookup_erase]
  by_cases h : k' = k <;> simp [h]

theorem keysWhere_insert_not {v : α} (hv : p v = false) :
    keysWhere p (m.insert k v) = (keysWhere p m).erase k := by
  ext k'
  rw [Finset.mem_erase, mem_keysWhere, mem_keysWhere, lookup_insert]
  by_cases h : k' = k <;> simp [h, hv]

theorem card_keysWhere (p : α → Bool) (m : ExtTreeMap κ α) :
    (keysWhere p m).card = m.toList.countP fun entry => p entry.2 := by
  have hnodup : (keysIn p m).Nodup := (keysIn_ordered p m).imp fun hlt heq => by simp [heq] at hlt
  rw [keysWhere, List.toFinset_card_of_nodup hnodup, keysIn, List.length_filterMap_eq_countP]
  congr 1
  funext entry
  split <;> simp_all

/-- Every key has the property or does not. -/
theorem size_eq_card (p : α → Bool) (m : ExtTreeMap κ α) :
    m.size = (keysWhere p m).card + (keysWhere (fun a => !p a) m).card := by
  rw [card_keysWhere, card_keysWhere, ← ExtTreeMap.length_toList, List.length_eq_countP_add_countP fun entry => p entry.2]
  congr 2
  funext entry
  simp

theorem keysWhere_mono {q : α → Bool} (h : ∀ a, p a = true → q a = true) : keysWhere p m ⊆ keysWhere q m := by
  intro k hk
  rw [mem_keysWhere, Option.any_eq_true] at hk ⊢
  obtain ⟨a, ha, hp⟩ := hk
  exact ⟨a, ha, h a hp⟩

end

end Tables
