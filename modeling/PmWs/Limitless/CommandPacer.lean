import Mathlib.Data.String.Basic
import PmWs.Lib.MachineInt
import PmWs.Lib.Tables

/-!
# The command pacer

Subscription commands are spaced through one table of reservations, shared by
every connection of the process. A slot holds the instant its schedule is filled
to, and a caller is placed behind it by the caller's own interval. Sixty-four
endpoints have a slot of their own, all further ones share a slot. Whatever the
callers ask for, each of them stands its own interval behind the last grant to
its endpoint.
-/

open MachineInt Tables

namespace PmWs

/-- The last instant there is. Instants are nanoseconds since the first one, whose seconds are `i64::MIN`. -/
def instantMax : Nat := 2 ^ 64 * 1000000000 - 1

/-- `Instant + Duration`, which panics past the last instant. -/
def instantAdd (instant duration : Nat) : Option Nat := fit instantMax (instant + duration)

def maxPacedEndpoints : Nat := 64

/-- The instant a command may follow the one reserved at `last`. -/
def commandGrantAt (last : Option Nat) (now interval : Nat) : Option Nat :=
  (match last with
    | none => some now
    | some reserved => instantAdd reserved interval).map (max · now)

/-- The furthest instant reserved in each slot. -/
structure CommandPacers where
  slots : Std.ExtTreeMap String Nat

/-- What a caller asks for. -/
structure GrantRequest where
  endpoint : String
  now : Nat
  interval : Nat
  deriving DecidableEq, Repr

namespace CommandPacers

def new : CommandPacers := ⟨∅⟩

/-- An endpoint's own slot while there is room, then the shared one. -/
def pacerSlot (self : CommandPacers) (endpoint : String) : String :=
  if self.slots.contains endpoint ∨ self.slots.size < maxPacedEndpoints then endpoint else ""

/-- Reserves the next command towards the endpoint. Where the addition panics nothing has been written yet, and the
next caller takes the table over as it is. -/
def reserveCommandGrant (self : CommandPacers) (request : GrantRequest) : CommandPacers × Option Nat :=
  let slot := self.pacerSlot request.endpoint
  match commandGrantAt self.slots[slot]? request.now request.interval with
  | none => (self, none)
  | some granted => (⟨self.slots.insert slot granted⟩, some granted)

/-- The table after a sequence of calls. -/
def run (self : CommandPacers) (requests : List GrantRequest) : CommandPacers :=
  requests.foldl (fun pacers request => (pacers.reserveCommandGrant request).1) self

/-! ## One call -/

theorem commandGrantAt_ge {last : Option Nat} {now interval granted : Nat}
    (h : commandGrantAt last now interval = some granted) :
    now ≤ granted ∧ ∀ reserved, last = some reserved → reserved + interval ≤ granted := by
  obtain ⟨base, hbase, rfl⟩ := Option.map_eq_some_iff.1 h
  refine ⟨Nat.le_max_right _ _, ?_⟩
  rintro reserved rfl
  obtain ⟨-, rfl⟩ := fit_eq_some.1 hbase
  exact Nat.le_max_left _ _

/-- A slot that does not exist yet always grants. -/
theorem commandGrantAt_none {now interval : Nat} : commandGrantAt none now interval = some now := by
  simp [commandGrantAt]

/-- A call either panics at a slot that exists, or grants and reserves the instant it grants. -/
theorem reserveCommandGrant_cases (self : CommandPacers) (request : GrantRequest) :
    (self.reserveCommandGrant request = (self, none) ∧ self.pacerSlot request.endpoint ∈ self.slots) ∨
      ∃ granted,
        commandGrantAt self.slots[self.pacerSlot request.endpoint]? request.now request.interval = some granted ∧
        self.reserveCommandGrant request =
          (⟨self.slots.insert (self.pacerSlot request.endpoint) granted⟩, some granted) := by
  unfold reserveCommandGrant
  dsimp only
  cases hgrant : commandGrantAt self.slots[self.pacerSlot request.endpoint]? request.now request.interval with
  | some granted => exact .inr ⟨granted, rfl, rfl⟩
  | none =>
    refine .inl ⟨rfl, ?_⟩
    rw [Std.ExtTreeMap.mem_iff_isSome_getElem?, Option.isSome_iff_ne_none]
    intro habsent
    rw [habsent, commandGrantAt_none] at hgrant
    cases hgrant

/-- The endpoint's slot is decided: it has its own, or there is no room for one. -/
def Settled (self : CommandPacers) (endpoint : String) : Prop :=
  endpoint ∈ self.slots ∨ maxPacedEndpoints ≤ self.slots.size

theorem pacerSlot_of_mem {self : CommandPacers} {endpoint : String} (h : endpoint ∈ self.slots) :
    self.pacerSlot endpoint = endpoint :=
  if_pos (.inl (Std.ExtTreeMap.contains_iff_mem.2 h))

theorem pacerSlot_of_full {self : CommandPacers} {endpoint : String} (hmem : endpoint ∉ self.slots)
    (hfull : maxPacedEndpoints ≤ self.slots.size) : self.pacerSlot endpoint = "" := by
  refine if_neg ?_
  rw [Std.ExtTreeMap.contains_iff_mem]
  exact not_or.2 ⟨hmem, Nat.not_lt.2 hfull⟩

/-- Where the shared slot is not the endpoint's own, the table is full. -/
theorem pacerSlot_cases (self : CommandPacers) (endpoint : String) :
    self.pacerSlot endpoint = endpoint ∧ (endpoint ∈ self.slots ∨ self.slots.size < maxPacedEndpoints) ∨
      self.pacerSlot endpoint = "" ∧ maxPacedEndpoints ≤ self.slots.size := by
  by_cases hown : endpoint ∈ self.slots ∨ self.slots.size < maxPacedEndpoints
  · exact .inl ⟨if_pos (by rwa [Std.ExtTreeMap.contains_iff_mem]), hown⟩
  · obtain ⟨hmem, hfull⟩ := not_or.1 hown
    exact .inr ⟨pacerSlot_of_full hmem (Nat.not_lt.1 hfull), Nat.not_lt.1 hfull⟩

/-! ## What calls keep -/

/-- From one table to a later one: no reservation moves back, and no decided slot is left. -/
structure Advances (p q : CommandPacers) : Prop where
  reserved : ∀ (slot : String) instant, p.slots[slot]? = some instant →
    ∃ later, q.slots[slot]? = some later ∧ instant ≤ later
  settled : ∀ endpoint, p.Settled endpoint → q.Settled endpoint ∧ q.pacerSlot endpoint = p.pacerSlot endpoint

theorem Advances.refl (p : CommandPacers) : p.Advances p :=
  ⟨fun _ instant h => ⟨instant, h, Nat.le_refl _⟩, fun _ h => ⟨h, rfl⟩⟩

theorem Advances.trans {p q r : CommandPacers} (h₁ : p.Advances q) (h₂ : q.Advances r) : p.Advances r where
  reserved slot instant h := by
    obtain ⟨later, hlater, hle⟩ := h₁.reserved slot instant h
    obtain ⟨last, hlast, hle'⟩ := h₂.reserved slot later hlater
    exact ⟨last, hlast, hle.trans hle'⟩
  settled endpoint h := by
    obtain ⟨hq, hslot⟩ := h₁.settled endpoint h
    obtain ⟨hr, hslot'⟩ := h₂.settled endpoint hq
    exact ⟨hr, hslot'.trans hslot⟩

/-- Filling a slot of a full table leaves every decided slot: the new one can only be the shared one. -/
theorem insert_settled {p : CommandPacers} {asker endpoint : String} (granted : Nat) (h : p.Settled endpoint) :
    let q : CommandPacers := ⟨p.slots.insert (p.pacerSlot asker) granted⟩
    q.Settled endpoint ∧ q.pacerSlot endpoint = p.pacerSlot endpoint := by
  intro q
  by_cases hmem : endpoint ∈ p.slots
  · have hkept : endpoint ∈ q.slots := Std.ExtTreeMap.mem_insert.2 (.inr hmem)
    exact ⟨.inl hkept, by rw [pacerSlot_of_mem hkept, pacerSlot_of_mem hmem]⟩
  · have hfull := h.resolve_left hmem
    have hfull' : maxPacedEndpoints ≤ q.slots.size := hfull.trans Std.ExtTreeMap.size_le_size_insert
    refine ⟨.inr hfull', ?_⟩
    rw [pacerSlot_of_full hmem hfull]
    by_cases hmem' : endpoint ∈ q.slots
    · obtain heq | hold := Std.ExtTreeMap.mem_insert.1 hmem'
      · obtain rfl := Std.LawfulEqOrd.eq_of_compare heq
        obtain ⟨hown, hroom⟩ | ⟨hshared, -⟩ := p.pacerSlot_cases asker
        · rw [hown] at hmem
          exact absurd (hroom.resolve_left hmem) (Nat.not_lt.2 hfull)
        · rw [pacerSlot_of_mem hmem', hshared]
      · exact absurd hold hmem
    · exact pacerSlot_of_full hmem' hfull'

theorem reserveCommandGrant_advances (p : CommandPacers) (request : GrantRequest) :
    p.Advances (p.reserveCommandGrant request).1 := by
  obtain ⟨hpanic, -⟩ | ⟨granted, hgrant, hserved⟩ := p.reserveCommandGrant_cases request
  · rw [hpanic]
    exact .refl p
  · rw [hserved]
    refine ⟨fun slot instant hslot => ?_, fun endpoint hsettled => insert_settled granted hsettled⟩
    rw [lookup_insert]
    split
    · next heq =>
      rw [heq] at hslot
      have hle := (commandGrantAt_ge hgrant).2 instant hslot
      exact ⟨granted, rfl, by omega⟩
    · exact ⟨instant, hslot, Nat.le_refl _⟩

theorem run_advances (p : CommandPacers) (requests : List GrantRequest) : p.Advances (p.run requests) := by
  induction requests generalizing p with
  | nil => exact .refl p
  | cons request rest ih => exact (p.reserveCommandGrant_advances request).trans (ih _)

/-- The slot an endpoint was asked for is its slot from then on. -/
theorem reserveCommandGrant_settles (p : CommandPacers) (request : GrantRequest) :
    (p.reserveCommandGrant request).1.Settled request.endpoint ∧
      (p.reserveCommandGrant request).1.pacerSlot request.endpoint = p.pacerSlot request.endpoint := by
  by_cases hsettled : p.Settled request.endpoint
  · exact (p.reserveCommandGrant_advances request).settled _ hsettled
  · obtain ⟨hmem, hroom⟩ := not_or.1 hsettled
    have hslot : p.pacerSlot request.endpoint = request.endpoint := if_pos (.inr (Nat.not_le.1 hroom))
    obtain ⟨-, hpresent⟩ | ⟨granted, -, hserved⟩ := p.reserveCommandGrant_cases request
    · exact absurd (hslot ▸ hpresent) hmem
    · rw [hserved, hslot]
      have hnow : request.endpoint ∈ p.slots.insert request.endpoint granted := Std.ExtTreeMap.mem_insert_self
      exact ⟨.inl hnow, pacerSlot_of_mem hnow⟩

/-- At most the endpoints' own slots, and the shared one. -/
def Bounded (self : CommandPacers) : Prop :=
  self.slots.size ≤ maxPacedEndpoints ∨ (self.slots.size ≤ maxPacedEndpoints + 1 ∧ "" ∈ self.slots)

theorem Bounded.reserveCommandGrant {p : CommandPacers} (h : p.Bounded) (request : GrantRequest) :
    (p.reserveCommandGrant request).1.Bounded := by
  obtain ⟨hpanic, -⟩ | ⟨granted, -, hserved⟩ := p.reserveCommandGrant_cases request
  · rwa [hpanic]
  · rw [hserved]
    unfold Bounded
    dsimp only
    rw [Std.ExtTreeMap.size_insert, Std.ExtTreeMap.mem_insert]
    split
    · exact h.imp_right fun hshared => ⟨hshared.1, .inr hshared.2⟩
    · next habsent =>
      rw [Std.ExtTreeMap.contains_iff_mem] at habsent
      obtain ⟨hown, hroom⟩ | ⟨hshared, -⟩ := p.pacerSlot_cases request.endpoint
      · rw [hown] at habsent
        exact .inl (hroom.resolve_left habsent)
      · rw [hshared] at habsent ⊢
        have hsize := h.resolve_right fun hfull => habsent hfull.2
        exact .inr ⟨Nat.succ_le_succ hsize, .inl (Std.ReflOrd.compare_self)⟩

theorem Bounded.run {p : CommandPacers} (h : p.Bounded) (requests : List GrantRequest) : (p.run requests).Bounded := by
  induction requests generalizing p with
  | nil => exact h
  | cons request rest ih => exact ih (h.reserveCommandGrant request)

/-! ## A run of callers -/

/-- Between two calls for one endpoint the slot stays, and the second grant stands behind the first. -/
theorem grants_spaced (p : CommandPacers) {first second : GrantRequest} (between : List GrantRequest)
    (hsame : first.endpoint = second.endpoint) :
    let q := (p.reserveCommandGrant first).1.run between
    q.pacerSlot second.endpoint = p.pacerSlot first.endpoint ∧
      ∀ granted granted', (p.reserveCommandGrant first).2 = some granted →
        (q.reserveCommandGrant second).2 = some granted' → granted + second.interval ≤ granted' := by
  intro q
  have hadvances := (p.reserveCommandGrant first).1.run_advances between
  obtain ⟨hsettled, hkept⟩ := p.reserveCommandGrant_settles first
  have hslot : q.pacerSlot second.endpoint = p.pacerSlot first.endpoint := by
    rw [← hsame, (hadvances.settled _ hsettled).2, hkept]
  refine ⟨hslot, fun granted granted' hfirst hsecond => ?_⟩
  -- the first grant is in the slot the second call reads
  have hreserved : (p.reserveCommandGrant first).1.slots[p.pacerSlot first.endpoint]? = some granted := by
    obtain ⟨hpanic, -⟩ | ⟨_, -, hserved⟩ := p.reserveCommandGrant_cases first
    · rw [hpanic] at hfirst
      cases hfirst
    · rw [hserved] at hfirst ⊢
      rw [← Option.some.inj hfirst]
      exact Std.ExtTreeMap.getElem?_insert_self
  obtain ⟨later, hlater, hle⟩ := hadvances.reserved _ _ hreserved
  obtain ⟨hpanic, -⟩ | ⟨_, hgrant, hserved⟩ := q.reserveCommandGrant_cases second
  · rw [hpanic] at hsecond
    cases hsecond
  · rw [hserved] at hsecond
    obtain rfl := Option.some.inj hsecond
    rw [hslot] at hgrant
    have hspaced := (commandGrantAt_ge hgrant).2 later hlater
    omega

theorem run_take_succ {requests : List GrantRequest} {i : Nat} {request : GrantRequest}
    (h : requests[i]? = some request) (p : CommandPacers) :
    p.run (requests.take (i + 1)) = ((p.run (requests.take i)).reserveCommandGrant request).1 := by
  unfold run
  rw [List.take_add_one, h, List.foldl_append]
  rfl

/-- In every sequence of calls: a grant is not before its caller's `now`; a later grant to the same endpoint is at least
the later caller's interval behind an earlier one; an endpoint keeps its slot; and there is at most one slot more than
endpoints are paced apart. -/
theorem commandPacer_keeps_floors (requests : List GrantRequest) :
    let before (i : Nat) := new.run (requests.take i)
    (∀ i request granted, requests[i]? = some request → ((before i).reserveCommandGrant request).2 = some granted →
      request.now ≤ granted) ∧
    (∀ (i j : Nat) first second granted granted', i < j → requests[i]? = some first → requests[j]? = some second →
      first.endpoint = second.endpoint → ((before i).reserveCommandGrant first).2 = some granted →
      ((before j).reserveCommandGrant second).2 = some granted' → granted + second.interval ≤ granted') ∧
    (∀ (i j : Nat) first second, requests[i]? = some first → requests[j]? = some second →
      first.endpoint = second.endpoint →
      (before i).pacerSlot first.endpoint = (before j).pacerSlot second.endpoint) ∧
    ∀ i, (before i).slots.size ≤ maxPacedEndpoints + 1 := by
  intro before
  -- whatever lies between two calls for one endpoint, `grants_spaced` relates them
  have hbetween {i j : Nat} {first : GrantRequest} (hlt : i < j) (hi : requests[i]? = some first) :
      ∃ between, before j = ((before i).reserveCommandGrant first).1.run between := by
    refine ⟨(requests.take j).drop (i + 1), ?_⟩
    rw [← run_take_succ hi]
    change new.run (requests.take j) = _
    have hsplit := List.take_append_drop (i + 1) (requests.take j)
    rw [List.take_take, Nat.min_eq_left hlt] at hsplit
    conv_lhs => rw [← hsplit]
    exact List.foldl_append
  refine ⟨fun i request granted _ hgranted => ?_,
    fun i j first second granted granted' hlt hi _ hsame hfirst hsecond => ?_,
    fun i j first second hi hj hsame => ?_, fun i => ?_⟩
  · obtain ⟨hpanic, -⟩ | ⟨_, hgrant, hserved⟩ := (before i).reserveCommandGrant_cases request
    · rw [hpanic] at hgranted
      cases hgranted
    · rw [hserved] at hgranted
      obtain rfl := Option.some.inj hgranted
      exact (commandGrantAt_ge hgrant).1
  · obtain ⟨between, hrun⟩ := hbetween hlt hi
    rw [hrun] at hsecond
    exact ((before i).grants_spaced between hsame).2 granted granted' hfirst hsecond
  · rcases Nat.lt_trichotomy i j with hlt | rfl | hlt
    · obtain ⟨between, hrun⟩ := hbetween hlt hi
      rw [hrun]
      exact ((before i).grants_spaced between hsame).1.symm
    · rw [hsame]
    · obtain ⟨between, hrun⟩ := hbetween hlt hj
      rw [hrun]
      exact ((before j).grants_spaced between hsame.symm).1
  · have hbounded : (before i).Bounded := Bounded.run (.inl (Nat.zero_le _)) _
    exact hbounded.elim (fun h => h.trans (Nat.le_succ _)) fun h => h.1

/-- Two callers of one endpoint: the second stands its own seven nanoseconds behind the first. -/
theorem example_spaced :
    let before (i : Nat) := new.run ([⟨"venue", 3, 5⟩, ⟨"venue", 1, 7⟩].take i)
    ((before 0).reserveCommandGrant ⟨"venue", 3, 5⟩).2 = some 3 ∧
      ((before 1).reserveCommandGrant ⟨"venue", 1, 7⟩).2 = some 10 ∧ 3 + 7 ≤ 10 := by
  intro before
  have hfirst : ((before 0).reserveCommandGrant ⟨"venue", 3, 5⟩).2 = some 3 := by decide
  have hsecond : ((before 1).reserveCommandGrant ⟨"venue", 1, 7⟩).2 = some 10 := by decide
  obtain ⟨-, hspaced, -⟩ := commandPacer_keeps_floors [⟨"venue", 3, 5⟩, ⟨"venue", 1, 7⟩]
  exact ⟨hfirst, hsecond, hspaced 0 1 _ _ 3 10 (by decide) rfl rfl rfl hfirst hsecond⟩

end CommandPacers

end PmWs
