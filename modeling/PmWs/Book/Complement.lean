import Mathlib.Data.List.Perm.Basic
import PmWs.Book.Steps
import PmWs.Lib.Pointwise
import PmWs.Numeric.Value
import PmWs.Observer

/-!
# The complement view

The opposite outcome of a market is read off its book: every level on the other
side at what is left of one unit. Taking a complement is exact where the price
is within the unit and short enough, the book admits no other price, and the
view of the view is the book.
-/

open MachineInt Fallible Std

namespace PmWs

variable {levels : List Level}

/-! ## Complements -/

namespace ExactDecimal

theorem stripZeros_le {c : Int} (h : 0 ≤ c) (s : Nat) : (stripZeros c s).1 ≤ c := by
  induction s generalizing c with
  | zero => exact le_rfl
  | succ s ih =>
    unfold stripZeros
    split
    · exact (ih (by omega)).trans (by omega)
    · exact le_rfl

theorem normalize_small {c : Int} {s : Nat} (hc : InI128 c) (hs : s ≤ u16Max) {g : DecimalGrammar} (h : 0 ≤ c)
    (hscale : s ≤ g.maxScale) (hpos : 0 < g.maxDigits) (hdigits : c < 10 ^ g.maxDigits) :
    ∃ d, normalize c s hc hs g = .ok d ∧ 0 ≤ d.coefficient ∧ d.coefficient ≤ c ∧ d.scale ≤ s := by
  have hnonneg := stripZeros_nonneg h s
  have hle := stripZeros_le h s
  have hlength : (Nat.toDigits 10 (stripZeros c s).1.natAbs).length ≤ g.maxDigits := by
    refine (Nat.length_toDigits_le_iff (by decide) hpos).2 ?_
    zify
    rw [abs_of_nonneg hnonneg]
    exact hle.trans_lt hdigits
  unfold normalize
  rw [if_neg (by omega), if_neg (by omega), if_neg (by omega)]
  exact ⟨_, rfl, hnonneg, hle, stripZeros_scale_le c s⟩

theorem checkedAddWith_eq {a b : ExactDecimal} {g : DecimalGrammar} {left right : Int} {scale : Nat}
    (hscale : max a.scale b.scale = scale) (hleft : shifted a.coefficient (scale - a.scale) = some left)
    (hright : shifted b.coefficient (scale - b.scale) = some right) (hsum : InI128 (left + right)) (hs : scale ≤ u16Max) :
    a.checkedAddWith b g = normalize (left + right) scale hsum hs g := by
  subst hscale
  -- Unfolded as a function: at these arguments the kernel would compute with the powers of ten to compare the matches.
  obtain ⟨add, hadd⟩ : ∃ add, add = checkedAddWith := ⟨_, rfl⟩
  rw [← hadd]
  delta checkedAddWith at hadd
  rw [hadd]
  dsimp only
  rw [hleft, hright]
  exact dif_pos hsum

theorem inI128_of_digits {n : Int} (hlow : -10 ^ 38 ≤ n) (hhigh : n ≤ 10 ^ 38) : InI128 n := by
  norm_num at hlow hhigh
  unfold InI128
  norm_num
  omega

/-- What is left of a unit, over the price's own power of ten. -/
theorem complement_ok {d : ExactDecimal} (hnonneg : 0 ≤ d.coefficient) (hunit : d.coefficient ≤ 10 ^ d.scale)
    (hscale : d.scale ≤ 38) : ∃ rest, d.complement unitPrice normalizedGrammar = .ok rest ∧ 0 ≤ rest.coefficient ∧
      rest.coefficient ≤ 10 ^ 38 ∧ rest.scale ≤ 38 ∧ rest.toRat = 1 - d.toRat := by
  have hpow : (10 : Int) ^ d.scale ≤ 10 ^ 38 := by exact_mod_cast Nat.pow_le_pow_right (by decide) hscale
  have hpos : (0 : Int) < 10 ^ d.scale := by positivity
  have hnegated : InI128 (-d.coefficient) := inI128_of_digits (by linarith) (by linarith)
  have hleft : shifted unitPrice.coefficient (d.scale - unitPrice.scale) = some (10 ^ d.scale) := by
    have hone : unitPrice.coefficient = 1 := rfl
    have hwhole : unitPrice.scale = 0 := rfl
    unfold shifted
    rw [hone, hwhole, Nat.sub_zero, one_mul, if_pos ⟨inI128_of_digits (by linarith) hpow, inI128_of_digits (by linarith) hpow⟩]
  have hright : shifted (-d.coefficient) (d.scale - d.scale) = some (-d.coefficient) := by
    unfold shifted
    rw [Nat.sub_self, pow_zero, mul_one, if_pos ⟨inI128_of_digits (by norm_num) (by norm_num), hnegated⟩]
  have hsum : InI128 (10 ^ d.scale + -d.coefficient) := inI128_of_digits (by linarith) (by linarith)
  obtain ⟨rest, hrest, hnonneg', hle, hscale'⟩ :=
    normalize_small (g := normalizedGrammar) hsum d.scale_le (by linarith) d.scale_le (by decide)
      (show _ < (10 : Int) ^ 39 by linarith [show (10 : Int) ^ 38 < 10 ^ 39 by norm_num])
  refine ⟨rest, ?_, hnonneg', by linarith, hscale'.trans hscale, ?_⟩
  · unfold complement checkedNeg
    rw [dif_pos hnegated]
    refine (checkedAddWith_eq ?_ hleft ?_ hsum d.scale_le).trans hrest
    · exact Nat.zero_max d.scale
    · exact hright
  · rw [(normalize_ok hrest).1, toRat]
    push_cast
    field_simp
    ring

theorem shifted_ok {coefficient value : Int} {shift : Nat} (h : shifted coefficient shift = some value) :
    InI128 (10 ^ shift) ∧ value = coefficient * 10 ^ shift := by
  unfold shifted at h
  split at h
  · next hrange =>
    cases h
    exact ⟨hrange.1, rfl⟩
  · cases h

theorem checkedAddWith_ok {a b d : ExactDecimal} {g : DecimalGrammar} (h : a.checkedAddWith b g = .ok d) :
    ∃ left right hsum hs, shifted a.coefficient (max a.scale b.scale - a.scale) = some left ∧
      shifted b.coefficient (max a.scale b.scale - b.scale) = some right ∧
      normalize (left + right) (max a.scale b.scale) hsum hs g = .ok d := by
  obtain ⟨add, hadd⟩ : ∃ add, add = checkedAddWith := ⟨_, rfl⟩
  rw [← hadd] at h
  delta checkedAddWith at hadd
  rw [hadd] at h
  dsimp only at h
  split at h
  · next left right hleft hright =>
    split at h
    · next hsum => exact ⟨left, right, hsum, _, hleft, hright, h⟩
    · cases h
  · cases h

theorem normalize_sign {c : Int} {s : Nat} {hc : InI128 c} {hs : s ≤ u16Max} {g : DecimalGrammar} {d : ExactDecimal}
    (hg : g.allowNegative = false) (h : normalize c s hc hs g = .ok d) : 0 ≤ c := by
  unfold normalize at h
  rw [ite_error_eq_ok] at h
  by_contra hneg
  exact h.1 ⟨Int.not_le.1 hneg, hg⟩

theorem le_of_inI128_pow {n : Nat} (h : InI128 (10 ^ n)) : n ≤ 38 := by
  by_contra hlarge
  have hpow : (10 : Int) ^ 39 ≤ 10 ^ n := by exact_mod_cast Nat.pow_le_pow_right (by decide) (by omega : 39 ≤ n)
  have hrange := h.2
  norm_num at hpow hrange
  linarith

/-- A complement is taken only within the unit and within thirty-eight digits. -/
theorem complement_domain {d rest : ExactDecimal} (h : d.complement unitPrice normalizedGrammar = .ok rest) :
    d.coefficient ≤ 10 ^ d.scale ∧ d.scale ≤ 38 := by
  unfold complement checkedNeg at h
  split at h
  · next negated hnegated =>
    split at hnegated
    · cases hnegated
      obtain ⟨left, right, hsum, hs, hleft, hright, h⟩ := checkedAddWith_ok h
      obtain ⟨hrange, rfl⟩ := shifted_ok hleft
      obtain ⟨-, rfl⟩ := shifted_ok hright
      have hsign := normalize_sign rfl h
      change InI128 (10 ^ (max 0 d.scale - 0)) at hrange
      change 0 ≤ 1 * 10 ^ (max 0 d.scale - 0) + -d.coefficient * 10 ^ (max 0 d.scale - d.scale) at hsign
      rw [Nat.zero_max, Nat.sub_zero] at hrange
      rw [Nat.zero_max, Nat.sub_zero, Nat.sub_self, pow_zero] at hsign
      exact ⟨by linarith, le_of_inI128_pow hrange⟩
    · cases hnegated
  · cases h

end ExactDecimal

/-- A price of at most one unit has a complement when its scale leaves room for it. -/
theorem complementPrice_ok {price : Price} (hunit : price.value.toRat ≤ 1) (hscale : price.value.scale ≤ 38) :
    ∃ complement, complementPrice price = .ok complement ∧ complement.value.toRat = 1 - price.value.toRat ∧
      complement.value.scale ≤ 38 := by
  have hle : price.value.coefficient ≤ 10 ^ price.value.scale := by
    unfold ExactDecimal.toRat at hunit
    rw [div_le_one (by positivity)] at hunit
    exact_mod_cast hunit
  obtain ⟨rest, hrest, hnonneg, hsmall, hscale', hvalue⟩ := ExactDecimal.complement_ok price.nonneg hle hscale
  have hdigits : (Nat.toDigits 10 rest.coefficient.natAbs).length ≤ 39 := by
    refine (Nat.length_toDigits_le_iff (by decide) (by decide)).2 ?_
    zify
    rw [abs_of_nonneg hnonneg]
    exact hsmall.trans_lt (by norm_num)
  have hparse : ExactDecimal.parse rest.canonical normalizedGrammar.unsigned = .ok rest := by
    have hrange : InI128 rest.coefficient.natAbs := Int.natAbs_of_nonneg hnonneg ▸ rest.coefficient_inI128
    have hwritten : rest.writtenDigits ≤ 39 := by
      unfold ExactDecimal.writtenDigits
      dsimp only
      split <;> omega
    have hbytes : rest.writtenBytes ≤ 128 := by
      unfold ExactDecimal.writtenBytes
      split <;> split <;> omega
    exact (ExactDecimal.parse_canonical_iff (fun hneg => absurd hneg (Int.not_lt.2 hnonneg)) hrange rest.scale_le hdigits).2
      ⟨hwritten, hbytes⟩
  refine ⟨⟨rest, hnonneg⟩, ?_, hvalue, hscale'⟩
  unfold complementPrice Price.parse
  rw [hrest, ok_bind]
  split
  · next value hvalue =>
    rw [hparse] at hvalue
    cases hvalue
    rfl
  · next error herror =>
    rw [hparse] at herror
    cases herror

theorem complementPrice_domain {price complement : Price} (h : complementPrice price = .ok complement) :
    price.value.toRat ≤ 1 ∧ price.value.scale ≤ 38 := by
  unfold complementPrice at h
  rw [bind_eq_ok] at h
  obtain ⟨rest, hrest, -⟩ := h
  obtain ⟨hle, hscale⟩ := ExactDecimal.complement_domain hrest
  refine ⟨?_, hscale⟩
  unfold ExactDecimal.toRat
  rw [div_le_one (by positivity)]
  exact_mod_cast hle

theorem complementPrice_iff {price : Price} :
    (∃ complement, complementPrice price = .ok complement) ↔ price.value.toRat ≤ 1 ∧ price.value.scale ≤ 38 := by
  refine ⟨fun ⟨complement, h⟩ => complementPrice_domain h, fun ⟨hunit, hscale⟩ => ?_⟩
  obtain ⟨complement, h, -⟩ := complementPrice_ok hunit hscale
  exact ⟨complement, h⟩

theorem complementPrice_value {price complement : Price} (h : complementPrice price = .ok complement) :
    complement.value.toRat = 1 - price.value.toRat ∧ complement.value.scale ≤ 38 := by
  obtain ⟨hunit, hscale⟩ := complementPrice_domain h
  obtain ⟨complement', h', hvalue, hscale'⟩ := complementPrice_ok hunit hscale
  cases h.symm.trans h'
  exact ⟨hvalue, hscale'⟩

theorem complementPrice_involutive {price complement : Price} (h : complementPrice price = .ok complement) :
    complementPrice complement = .ok price := by
  obtain ⟨hvalue, hscale⟩ := complementPrice_value h
  have hnonneg : 0 ≤ price.value.toRat := by
    have hcoefficient : (0 : ℚ) ≤ price.value.coefficient := by exact_mod_cast price.nonneg
    unfold ExactDecimal.toRat
    positivity
  have hunit : complement.value.toRat ≤ 1 := by linarith
  obtain ⟨back, hback, hvalue', -⟩ := complementPrice_ok hunit hscale
  have hsame : back.value.toRat = price.value.toRat := by linarith
  rw [hback, Price.ext_value (ExactDecimal.toRat_inj hsame)]

/-! ## The view -/

def Side.opposite : Side → Side
  | .bid => .ask
  | .ask => .bid

/-- The loop of `derived_complement_levels`. -/
def complementLevels : List Level → Except BookError (List Level)
  | [] => .ok []
  | level :: rest => do
    let price ← (complementPrice level.price).mapError .complement
    let complement ← complementLevels rest
    .ok (⟨level.side.opposite, price, level.quantity⟩ :: complement)

/-- Ascending by `(side, price)`. -/
def sortLevels (levels : List Level) : List Level :=
  levels.mergeSort fun left right => (Coordinate.cmp left.coordinate right.coordinate).isLE

def PublishedBook.derivedComplementLevels (self : PublishedBook) : Except BookError (List Level) := do
  let complement ← complementLevels self.levels
  .ok (sortLevels complement)

/-- The level the view shows for a level. -/
structure Level.Complements (level complement : Level) : Prop where
  side : complement.side = level.side.opposite
  price : complementPrice level.price = .ok complement.price
  quantity : complement.quantity = level.quantity

theorem Level.Complements.symm {a b : Level} (h : a.Complements b) : b.Complements a where
  side := by
    rw [h.side]
    cases a.side <;> rfl
  price := complementPrice_involutive h.price
  quantity := h.quantity.symm

theorem Level.Complements.unique {a b b' : Level} (h : a.Complements b) (h' : a.Complements b') : b = b' := by
  obtain ⟨side, price, quantity⟩ := b
  obtain ⟨side', price', quantity'⟩ := b'
  obtain rfl : side = side' := h.side.trans h'.side.symm
  obtain rfl : price = price' := Except.ok.inj (h.price.symm.trans h'.price)
  obtain rfl : quantity = quantity' := h.quantity.trans h'.quantity.symm
  rfl

/-- The coordinates of complementing levels determine each other. -/
theorem complements_biUnique :
    Relator.BiUnique fun a b : Coordinate => b.1 = a.1.opposite ∧ complementPrice a.2 = .ok b.2 := by
  have hopposite (side : Side) : side.opposite.opposite = side := by cases side <;> rfl
  constructor
  · rintro ⟨side, price⟩ ⟨side', price'⟩ ⟨_, complement⟩ ⟨rfl, hprice⟩ ⟨hside, hprice'⟩
    obtain rfl : side = side' := by rw [← hopposite side, ← hopposite side']; exact congrArg Side.opposite hside
    obtain rfl : price = price' :=
      Except.ok.inj ((complementPrice_involutive hprice).symm.trans (complementPrice_involutive hprice'))
    rfl
  · rintro ⟨side, price⟩ ⟨_, complement⟩ ⟨_, complement'⟩ ⟨rfl, hprice⟩ ⟨rfl, hprice'⟩
    obtain rfl : complement = complement' := Except.ok.inj (hprice.symm.trans hprice')
    rfl

theorem complementLevels_iff {complement : List Level} :
    complementLevels levels = .ok complement ↔ List.Forall₂ Level.Complements levels complement := by
  induction levels generalizing complement with
  | nil =>
    unfold complementLevels
    rw [List.forall₂_nil_left_iff]
    exact ⟨fun h => by cases h; rfl, fun h => by rw [h]⟩
  | cons level levels ih =>
    unfold complementLevels
    simp only [bind_eq_ok, mapError_eq_ok]
    constructor
    · rintro ⟨price, hprice, rest, hrest, h⟩
      cases h
      exact .cons ⟨rfl, hprice, rfl⟩ (ih.1 hrest)
    · rintro (_ | ⟨hlevel, hrest⟩)
      refine ⟨_, hlevel.price, _, ih.2 hrest, ?_⟩
      rw [← hlevel.side, ← hlevel.quantity]

theorem complementLevels_total (h : ∀ level ∈ levels, ∃ complement, complementPrice level.price = .ok complement) :
    ∃ complement, List.Forall₂ Level.Complements levels complement := by
  induction levels with
  | nil => exact ⟨[], .nil⟩
  | cons level levels ih =>
    obtain ⟨⟨price, hprice⟩, h⟩ := List.forall_mem_cons.1 h
    obtain ⟨complement, hcomplement⟩ := ih h
    exact ⟨⟨level.side.opposite, price, level.quantity⟩ :: complement, .cons ⟨rfl, hprice, rfl⟩ hcomplement⟩

/-! ### Sorting -/

/-- Strictly ascending levels. -/
def Ascending (levels : List Level) : Prop :=
  levels.Pairwise fun a b => Coordinate.cmp a.coordinate b.coordinate = .lt

theorem sortLevels_perm (levels : List Level) : (sortLevels levels).Perm levels := List.mergeSort_perm ..

theorem sortLevels_ascending (h : (levels.map Level.coordinate).Nodup) : Ascending (sortLevels levels) := by
  have hsorted : (sortLevels levels).Pairwise fun a b => (Coordinate.cmp a.coordinate b.coordinate).isLE = true := by
    refine List.pairwise_mergeSort (fun a b c hab hbc => ?_) (fun a b => ?_) levels
    · exact TransCmp.isLE_trans hab hbc
    · have hswap : Coordinate.cmp b.coordinate a.coordinate = (Coordinate.cmp a.coordinate b.coordinate).swap :=
        OrientedCmp.eq_swap
      rw [hswap]
      cases Coordinate.cmp a.coordinate b.coordinate <;> rfl
  have hdistinct : (sortLevels levels).Pairwise fun a b => a.coordinate ≠ b.coordinate :=
    List.pairwise_map.1 (((sortLevels_perm levels).map _).nodup_iff.2 h)
  refine hsorted.imp₂ (fun a b hle hne => ?_) hdistinct
  rcases hcmp : Coordinate.cmp a.coordinate b.coordinate with _ | _ | _
  · rfl
  · exact absurd (LawfulEqCmp.eq_of_compare hcmp) hne
  · rw [hcmp] at hle
    cases hle

theorem Ascending.nodup (h : Ascending levels) : (levels.map Level.coordinate).Nodup := by
  refine List.pairwise_map.2 (h.imp fun {a b} hlt heq => ?_)
  rw [heq] at hlt
  exact absurd (hlt.symm.trans ReflCmp.compare_self) nofun

/-- Ascending levels are what their order makes of any arrangement of them. -/
theorem Ascending.eq_sortLevels {arranged : List Level} (h : Ascending levels) (hperm : arranged.Perm levels) :
    sortLevels arranged = levels := by
  have hnodup : (arranged.map Level.coordinate).Nodup := (hperm.map _).nodup_iff.2 h.nodup
  refine List.Perm.eq_of_pairwise (fun a b _ _ hab hba => ?_) (sortLevels_ascending hnodup) h
    ((sortLevels_perm arranged).trans hperm)
  have hswap : Coordinate.cmp a.coordinate b.coordinate = (Coordinate.cmp b.coordinate a.coordinate).swap :=
    OrientedCmp.eq_swap
  rw [hab, hba] at hswap
  cases hswap

/-- The view of ascending complementable levels: each level's complement, ascending, and the levels again as its
view. -/
theorem PublishedBook.derivedComplementLevels_of {published : PublishedBook} (hascending : Ascending published.levels)
    (h : ∀ level ∈ published.levels, ∃ complement, complementPrice level.price = .ok complement) :
    ∃ derived, published.derivedComplementLevels = .ok derived ∧ derived.length = published.levels.length ∧
      (∀ level, level ∈ derived ↔ ∃ canonical ∈ published.levels, canonical.Complements level) ∧ Ascending derived ∧
      ({ published with levels := derived } : PublishedBook).derivedComplementLevels = .ok published.levels := by
  obtain ⟨complement, hcomplement⟩ := complementLevels_total h
  have hnodup : (complement.map Level.coordinate).Nodup := by
    refine (List.rel_nodup complements_biUnique ?_).1 hascending.nodup
    rw [List.forall₂_map_left_iff, List.forall₂_map_right_iff]
    exact hcomplement.imp fun a b hab => ⟨hab.side, hab.price⟩
  have hback : List.Forall₂ Level.Complements complement published.levels :=
    (hcomplement.imp fun a b hab => hab.symm).flip
  -- The arrangement sorting gave the complements is one of the levels they complement.
  obtain ⟨arranged, harranged, hperm⟩ := List.perm_comp_forall₂ (sortLevels_perm complement) hback
  refine ⟨sortLevels complement, ?_, ?_, fun level => ?_, sortLevels_ascending hnodup, ?_⟩
  · unfold derivedComplementLevels
    rw [complementLevels_iff.2 hcomplement]
    rfl
  · rw [(sortLevels_perm complement).length_eq, hcomplement.length_eq]
  · rw [(sortLevels_perm complement).mem_iff]
    constructor
    · intro hmem
      obtain ⟨canonical, hcanonical, h⟩ := Pointwise.mem hback hmem
      exact ⟨canonical, hcanonical, h.symm⟩
    · rintro ⟨canonical, hcanonical, h⟩
      obtain ⟨level', hlevel', h'⟩ := Pointwise.mem hcomplement hcanonical
      exact h.unique h' ▸ hlevel'
  · unfold derivedComplementLevels
    rw [complementLevels_iff.2 harranged, ok_bind, hascending.eq_sortLevels hperm]

/-! ## Every level a book holds has a complement -/

/-- Every price of a level map has a complement. -/
def Complementable (levels : PhysicalLevels) : Prop :=
  ∀ coordinate ∈ levels, ∃ complement, complementPrice coordinate.2 = .ok complement

theorem Complementable.insert {levels : PhysicalLevels} (h : Complementable levels) {coordinate : Coordinate}
    (hprice : ∃ complement, complementPrice coordinate.2 = .ok complement) (quantity : Quantity) :
    Complementable (levels.insert coordinate quantity) := by
  intro key hkey
  rcases ExtTreeMap.mem_insert.1 hkey with heq | hkey
  · exact LawfulEqCmp.eq_of_compare heq ▸ hprice
  · exact h key hkey

theorem collectLevels_complementable {held next : PhysicalLevels} (hheld : Complementable held)
    (h : collectLevels levels held = .ok next) : Complementable next := by
  induction levels generalizing held with
  | nil =>
    cases h
    exact hheld
  | cons level levels ih =>
    unfold collectLevels at h
    rw [bind_eq_ok] at h
    obtain ⟨complement, hprice, h⟩ := h
    rw [ite_error_eq_ok] at h
    exact ih (hheld.insert ⟨complement, mapError_eq_ok.1 hprice⟩ _) h.2

theorem stageDelta_complementable {seen : List Coordinate}
    {staged : List (Coordinate × Option Quantity)} (h : stageDelta levels seen = .ok staged) :
    ∀ entry ∈ staged, ∃ complement, complementPrice entry.1.2 = .ok complement := by
  induction levels generalizing seen staged with
  | nil =>
    cases h
    exact List.forall_mem_nil _
  | cons level levels ih =>
    unfold stageDelta at h
    simp only [bind_eq_ok, ite_error_eq_ok, mapError_eq_ok] at h
    obtain ⟨complement, hprice, -, rest, hrest, h⟩ := h
    cases h
    exact List.forall_mem_cons.2 ⟨⟨complement, hprice⟩, ih hrest⟩

theorem applyStaged_complementable {levels : PhysicalLevels} {staged : List (Coordinate × Option Quantity)}
    (h : Complementable levels) (hstaged : ∀ entry ∈ staged, ∃ complement, complementPrice entry.1.2 = .ok complement) :
    Complementable (OrderBook.applyStaged levels staged) := by
  induction staged generalizing levels with
  | nil => exact h
  | cons entry staged ih =>
    obtain ⟨hentry, hstaged⟩ := List.forall_mem_cons.1 hstaged
    refine ih ?_ hstaged
    dsimp only
    split
    · exact h.insert hentry _
    · exact fun key hkey => h key (ExtTreeMap.mem_of_mem_erase hkey)

theorem call_complementable {book : OrderBook} (h : Complementable book.levels) (call : BookCall) :
    Complementable (book.call call).1.levels := by
  cases call with
  | applySnapshot candidate =>
    simp only [OrderBook.call]
    split
    · next heq =>
      obtain ⟨_, next, -, -, hnext, -, step⟩ := OrderBook.applySnapshot_ok heq
      have hlevels := collectLevels_complementable (fun _ hkey => absurd hkey ExtTreeMap.not_mem_empty) hnext
      cases step <;> exact hlevels
    · exact h
  | applySourceDelta candidate =>
    simp only [OrderBook.call]
    split
    · next heq =>
      obtain ⟨_, _, _, _, _, _, _, -, -, -, -, hstaged, -, -, -, rfl, -⟩ := OrderBook.applySourceDelta_ok heq
      exact applyStaged_complementable h (stageDelta_complementable hstaged)
    · exact h
  | noteStreamEvent =>
    simp only [OrderBook.call]
    split
    · next heq =>
      obtain ⟨_, _, -, -, -, rfl⟩ := OrderBook.noteStreamEvent_ok heq
      exact h
    · exact h
  | unsubscribe =>
    simp only [OrderBook.call]
    split
    · next heq =>
      obtain ⟨-, rfl⟩ | ⟨-, -, rfl⟩ := OrderBook.unsubscribe_ok heq <;> exact h
    · exact h
  | reportContinuityLoss continuity authority =>
    simp only [OrderBook.call]
    split
    · next heq =>
      obtain ⟨-, rfl, -⟩ | ⟨-, -, rfl⟩ := OrderBook.reportContinuityLoss_ok heq <;> exact h
    · exact h

theorem calls_complementable {book : OrderBook} (h : Complementable book.levels) (calls : List BookCall) :
    Complementable (book.calls calls).1.levels := by
  induction calls generalizing book with
  | nil => exact h
  | cons call calls ih => exact ih (call_complementable h call)

/-- A complement is taken exactly within the unit and thirty-eight digits, is what is left of the unit, and undoes
itself. So the complement view of every reachable book exists: each level's complement and nothing else, in strict
order, and the view of the view is the book. -/
theorem complement_view_exact :
    (∀ price : Price,
      ((∃ complement, complementPrice price = .ok complement) ↔ price.value.toRat ≤ 1 ∧ price.value.scale ≤ 38) ∧
      ∀ complement, complementPrice price = .ok complement →
        complement.value.toRat = 1 - price.value.toRat ∧ complementPrice complement = .ok price) ∧
    ∀ (market : MarketRef) (calls : List BookCall) (published : PublishedBook),
      published = ((OrderBook.new market).calls calls).1.publish →
      ∃ derived, published.derivedComplementLevels = .ok derived ∧ derived.length = published.levels.length ∧
        (∀ level, level ∈ derived ↔ ∃ canonical ∈ published.levels, level.side = canonical.side.opposite ∧
          level.price.value.toRat = 1 - canonical.price.value.toRat ∧ level.quantity = canonical.quantity) ∧
        derived.Pairwise (fun a b => Coordinate.cmp a.coordinate b.coordinate = .lt) ∧
        ({ published with levels := derived } : PublishedBook).derivedComplementLevels = .ok published.levels := by
  refine ⟨fun price => ⟨complementPrice_iff, fun complement h => ⟨(complementPrice_value h).1, complementPrice_involutive h⟩⟩,
    ?_⟩
  rintro market calls _ rfl
  have hcomplementable : Complementable ((OrderBook.new market).calls calls).1.levels :=
    calls_complementable (fun _ hkey => absurd hkey ExtTreeMap.not_mem_empty) calls
  generalize ((OrderBook.new market).calls calls).1 = book at hcomplementable
  have hlevels : ∀ level ∈ book.publish.levels, ∃ complement, complementPrice level.price = .ok complement := by
    intro level hlevel
    obtain ⟨entry, hentry, rfl⟩ := List.mem_map.1 hlevel
    have hheld := ExtTreeMap.mem_toList_iff_getElem?_eq_some.1 hentry
    exact hcomplementable entry.1 (ExtTreeMap.mem_iff_isSome_getElem?.2 (Option.isSome_of_eq_some hheld))
  have hordered : Ascending book.publish.levels := List.pairwise_map.2 ExtTreeMap.ordered_keys_toList
  obtain ⟨derived, hderived, hlength, hmem, hascending, hback⟩ := PublishedBook.derivedComplementLevels_of hordered hlevels
  refine ⟨derived, hderived, hlength, fun level => (hmem level).trans ?_, hascending, hback⟩
  constructor
  · rintro ⟨canonical, hcanonical, h⟩
    exact ⟨canonical, hcanonical, h.side, (complementPrice_value h.price).1, h.quantity⟩
  · rintro ⟨canonical, hcanonical, hside, hvalue, hquantity⟩
    obtain ⟨complement, hcomplement⟩ := hlevels canonical hcanonical
    have hsame : complement = level.price :=
      Price.ext_value (ExactDecimal.toRat_inj ((complementPrice_value hcomplement).1.trans hvalue.symm))
    exact ⟨canonical, hcanonical, hside, hsame ▸ hcomplement, hquantity⟩

end PmWs
