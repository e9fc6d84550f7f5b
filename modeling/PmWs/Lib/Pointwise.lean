import Mathlib

/-!
# Pointwise relations and sorted lists

Two lists related position by position stay related when the same position of
both is updated. The last entry of a sorted list bounds the others.
-/

namespace Pointwise

variable {α β : Type*} {R : α → β → Prop} {l : List α} {l' : List β}

theorem getElem? (h : List.Forall₂ R l l') {i : Nat} {a : α} (ha : l[i]? = some a) :
    ∃ b, l'[i]? = some b ∧ R a b := by
  induction h generalizing i with
  | nil => simp at ha
  | cons hab _ ih =>
    cases i with
    | zero => exact ⟨_, rfl, by simpa [← Option.some.inj ha] using hab⟩
    | succ i => exact ih ha

theorem mem (h : List.Forall₂ R l l') {a : α} (ha : a ∈ l) : ∃ b ∈ l', R a b := by
  obtain ⟨i, hi⟩ := List.mem_iff_getElem?.1 ha
  obtain ⟨b, hb, hab⟩ := getElem? h hi
  exact ⟨b, List.mem_of_getElem? hb, hab⟩

theorem getElem?_cases (h : List.Forall₂ R l l') (i : Nat) :
    (l[i]? = none ∧ l'[i]? = none) ∨ ∃ a b, l[i]? = some a ∧ l'[i]? = some b ∧ R a b := by
  cases ha : l[i]? with
  | none => exact .inl ⟨rfl, by rw [List.getElem?_eq_none_iff] at ha ⊢; exact h.length_eq ▸ ha⟩
  | some a =>
    obtain ⟨b, hb, hab⟩ := getElem? h ha
    exact .inr ⟨a, b, rfl, hb, hab⟩

theorem set (h : List.Forall₂ R l l') (i : Nat) {a : α} {b : β} (hab : R a b) :
    List.Forall₂ R (l.set i a) (l'.set i b) := by
  induction h generalizing i with
  | nil => exact .nil
  | cons hhead htail ih =>
    cases i with
    | zero => exact .cons hab htail
    | succ i => exact .cons hhead (ih i)

/-- Setting one position on the left while modifying it on the right. -/
theorem set_modify (h : List.Forall₂ R l l') {i : Nat} {a a' : α} {g : β → β} (ha : l[i]? = some a)
    (hg : ∀ b, R a b → R a' (g b)) : List.Forall₂ R (l.set i a') (l'.modify i g) := by
  induction h generalizing i with
  | nil => cases i <;> exact .nil
  | cons hhead htail ih =>
    cases i with
    | zero => exact .cons (hg _ (Option.some.inj ha ▸ hhead)) htail
    | succ i => exact .cons hhead (ih ha)

theorem modify_right (h : List.Forall₂ R l l') {i : Nat} {a : α} {g : β → β} (ha : l[i]? = some a)
    (hg : ∀ b, R a b → R a (g b)) : List.Forall₂ R l (l'.modify i g) := by
  have hset := set_modify h ha hg
  obtain ⟨hlt, rfl⟩ := List.getElem?_eq_some_iff.1 ha
  rwa [List.set_getElem_self] at hset

theorem modify (h : List.Forall₂ R l l') (i : Nat) {f : α → α} {g : β → β} (hfg : ∀ a b, R a b → R (f a) (g b)) :
    List.Forall₂ R (l.modify i f) (l'.modify i g) := by
  induction h generalizing i with
  | nil => cases i <;> exact .nil
  | cons hhead htail ih =>
    cases i with
    | zero => exact .cons (hfg _ _ hhead) htail
    | succ i => exact .cons hhead (ih i)

/-- An update on one side only that keeps the relation. -/
theorem modify_left (h : List.Forall₂ R l l') (i : Nat) {f : α → α} (hf : ∀ a b, R a b → R (f a) b) :
    List.Forall₂ R (l.modify i f) l' := by
  induction h generalizing i with
  | nil => cases i <;> exact .nil
  | cons hhead htail ih =>
    cases i with
    | zero => exact .cons (hf _ _ hhead) htail
    | succ i => exact .cons hhead (ih i)

section Sorted

variable [LinearOrder α]

theorem le_getLast? {l : List α} (h : l.Pairwise (· ≤ ·)) {a last : α} (ha : a ∈ l) (hl : l.getLast? = some last) :
    a ≤ last := by
  obtain ⟨init, rfl⟩ := List.getLast?_eq_some_iff.1 hl
  rcases List.mem_append.1 ha with hinit | hlast
  · exact (List.pairwise_append.1 h).2.2 a hinit last (List.mem_singleton_self last)
  · exact (List.mem_singleton.1 hlast).le

/-- A value is below some entry of a sorted list exactly when it is below the last one. -/
theorem exists_lt_iff_getLast? {l : List α} (h : l.Pairwise (· ≤ ·)) {a : α} :
    (∃ m ∈ l, a < m) ↔ ∃ last, l.getLast? = some last ∧ a < last := by
  constructor
  · rintro ⟨m, hm, hlt⟩
    obtain ⟨last, hlast⟩ := Option.ne_none_iff_exists'.1 (mt List.getLast?_eq_none_iff.1 (List.ne_nil_of_mem hm))
    exact ⟨last, hlast, hlt.trans_le (le_getLast? h hm hlast)⟩
  · rintro ⟨last, hlast, hlt⟩
    exact ⟨last, List.mem_of_getLast? hlast, hlt⟩

theorem forall_lt_iff_getLast? {l : List α} (h : l.Pairwise (· ≤ ·)) {a : α} :
    (∀ m ∈ l, m < a) ↔ ∀ last, l.getLast? = some last → last < a :=
  ⟨fun hall last hlast => hall last (List.mem_of_getLast? hlast), fun hlast m hm => by
    obtain ⟨last, hl⟩ := Option.ne_none_iff_exists'.1 (mt List.getLast?_eq_none_iff.1 (List.ne_nil_of_mem hm))
    exact (le_getLast? h hm hl).trans_lt (hlast last hl)⟩

theorem getLast?_eq_some_iff_greatest {l : List α} (h : l.Pairwise (· ≤ ·)) {a : α} :
    l.getLast? = some a ↔ a ∈ l ∧ ∀ m ∈ l, m ≤ a := by
  refine ⟨fun hl => ⟨List.mem_of_getLast? hl, fun m hm => le_getLast? h hm hl⟩, fun ⟨hmem, hge⟩ => ?_⟩
  obtain ⟨last, hl⟩ := Option.ne_none_iff_exists'.1 (mt List.getLast?_eq_none_iff.1 (List.ne_nil_of_mem hmem))
  rw [hl, le_antisymm (hge last (List.mem_of_getLast? hl)) (le_getLast? h hmem hl)]

end Sorted

/-- Where a predicate holds of a first part only, dropping that part is keeping the rest. -/
theorem dropWhile_eq_filter {p : α → Bool} (h : l.Pairwise fun a b => p b = true → p a = true) :
    l.dropWhile p = l.filter fun a => !p a := by
  induction l with
  | nil => rfl
  | cons a l ih =>
    obtain ⟨hhead, htail⟩ := List.pairwise_cons.1 h
    cases hp : p a with
    | true => rw [List.dropWhile_cons_of_pos hp, List.filter_cons_of_neg (by simp [hp]), ih htail]
    | false =>
      have hrest : l.filter (fun b => !p b) = l := by
        refine List.filter_eq_self.2 fun b hb => ?_
        rw [Bool.not_eq_true', Bool.eq_false_iff]
        intro hpb
        rw [hhead b hb hpb] at hp
        cases hp
      rw [List.dropWhile_cons_of_neg (by simp [hp]), List.filter_cons_of_pos (by simp [hp]), hrest]

end Pointwise
