import PmWs.Lib.MachineInt
import PmWs.Lib.Runs

/-!
# The doorbell

A publication bumps a 32-bit doorbell word and then stores the next
publication generation; the state publication that ends a round also wakes
every parked reader. A reader loads the doorbell, checks the generation and
parks while the word still reads what it loaded. Every step below is one
sequentially consistent access.
-/

open MachineInt Runs

namespace PmWs

/-- Where the writer stands in a round: rung is between the bump and the generation store. -/
inductive WriterPhase where
  | idle
  | eventRung
  | eventStored
  | stateRung
  | stateStored
  deriving DecidableEq, Repr

def WriterPhase.rung : WriterPhase → Bool
  | .eventRung | .stateRung => true
  | .idle | .eventStored | .stateStored => false

/-- Where a reader stands in the park phase. `loadedAt` is the number of bumps when it loaded the word, and `inWindow`
whether it loaded and checked between the bump and the store of one state publication. No step reads either. -/
inductive ReaderPhase where
  | outside
  | looping
  | loaded (observed : BitVec 32) (loadedAt : Nat)
  | checked (observed : BitVec 32) (loadedAt : Nat) (inWindow : Bool)
  | parked
  deriving DecidableEq, Repr

structure WaitingReader where
  lastSeen : Nat
  phase : ReaderPhase
  deriving DecidableEq, Repr

/-- The words the protocol is about. `rings` counts the bumps and is read by no step. -/
structure DoorbellState where
  doorbell : BitVec 32
  generation : Nat
  writer : WriterPhase
  readers : List WaitingReader
  rings : Nat
  deriving DecidableEq, Repr

inductive DoorbellEvent where
  | ringEvent
  | ringState
  | store
  | wake
  | enter (reader lastSeen : Nat)
  | load (reader : Nat)
  | check (reader : Nat)
  | expire (reader : Nat)
  | park (reader : Nat)
  | unpark (reader : Nat)
  deriving DecidableEq, Repr

/-- Every parked reader goes around its loop. -/
def WaitingReader.woken (self : WaitingReader) : WaitingReader :=
  match self.phase with
  | .parked => { self with phase := .looping }
  | _ => self

namespace DoorbellState

/-- `ring_doorbell`, made only once the next generation is known to fit. -/
def ring (self : DoorbellState) (next : WriterPhase) : Option DoorbellState :=
  if (self.writer = .idle ∨ self.writer = .eventStored) ∧ self.generation + 1 ≤ u64Max then
    some { self with doorbell := self.doorbell + 1, rings := self.rings + 1, writer := next }
  else none

/-- Moves one reader by what its own phase allows. -/
def moveReader (self : DoorbellState) (reader : Nat) (move : WaitingReader → Option WaitingReader) :
    Option DoorbellState :=
  (self.readers[reader]?).bind fun r => (move r).map fun r' => { self with readers := self.readers.set reader r' }

def step (self : DoorbellState) : DoorbellEvent → Option DoorbellState
  | .ringEvent => self.ring .eventRung
  | .ringState => self.ring .stateRung
  | .store =>
    match self.writer with
    | .eventRung => some { self with generation := self.generation + 1, writer := .eventStored }
    | .stateRung => some { self with generation := self.generation + 1, writer := .stateStored }
    | _ => none
  | .wake =>
    if self.writer = .stateStored then
      some { self with readers := self.readers.map WaitingReader.woken, writer := .idle }
    else none
  | .enter reader lastSeen => self.moveReader reader fun r =>
    if r.phase = .outside then some ⟨lastSeen, .looping⟩ else none
  | .load reader => self.moveReader reader fun r =>
    if r.phase = .looping then some { r with phase := .loaded self.doorbell self.rings } else none
  | .check reader => self.moveReader reader fun r =>
    match r.phase with
    | .loaded observed loadedAt =>
      -- a changed generation is returned to the caller
      if self.generation = r.lastSeen then
        some { r with phase := .checked observed loadedAt (loadedAt = self.rings && self.writer = .stateRung) }
      else some { r with phase := .outside }
    | _ => none
  | .expire reader => self.moveReader reader fun r =>
    match r.phase with
    | .checked _ _ _ => some { r with phase := .outside }
    | _ => none
  | .park reader => self.moveReader reader fun r =>
    match r.phase with
    | .checked observed _ _ =>
      if self.doorbell = observed then some { r with phase := .parked } else some { r with phase := .looping }
    | _ => none
  | .unpark reader => self.moveReader reader fun r =>
    if r.phase = .parked then some { r with phase := .looping } else none

/-- A freshly formatted segment with readers that have not called yet. -/
def fresh (readers : Nat) : DoorbellState :=
  ⟨0, 0, .idle, List.replicate readers ⟨0, .outside⟩, 0⟩

end DoorbellState

/-! ## Runs without the race -/

/-- The reader parks between two rounds on the word it loaded, after it loaded and checked in a window or after the word
came round. -/
def WaitingReader.parksRaced (s : DoorbellState) (r : WaitingReader) : Bool :=
  match r.phase with
  | .checked observed loadedAt inWindow =>
    s.writer = .idle && s.doorbell = observed && (inWindow || loadedAt ≠ s.rings)
  | _ => false

def DoorbellState.Unraced (s : DoorbellState) : DoorbellEvent → Prop
  | .park reader => ∀ r ∈ s.readers[reader]?, r.parksRaced s = false
  | _ => True

instance (s : DoorbellState) : (e : DoorbellEvent) → Decidable (s.Unraced e)
  | .park reader => inferInstanceAs (Decidable (∀ r ∈ s.readers[reader]?, r.parksRaced s = false))
  | .ringEvent | .ringState | .store | .wake | .enter _ _ | .load _ | .check _ | .expire _ | .unpark _ => isTrue trivial

/-- What a reader's phase promises: while the doorbell has not moved since it was loaded, a generation checked outside a
window is still current, or an event was published and its round is not over. -/
def WaitingReader.Sound (s : DoorbellState) (r : WaitingReader) : Prop :=
  match r.phase with
  | .outside => True
  | .looping => True
  | .loaded _ loadedAt => loadedAt ≤ s.rings
  | .checked _ loadedAt inWindow =>
    loadedAt ≤ s.rings ∧ (loadedAt = s.rings → inWindow = false →
      (r.lastSeen = s.generation ∧ s.writer.rung = false) ∨ s.writer = .eventRung ∨ s.writer = .eventStored)
  | .parked => (r.lastSeen = s.generation ∧ s.writer.rung = false) ∨ s.writer ≠ .idle

def DoorbellState.Inv (s : DoorbellState) : Prop := ∀ r ∈ s.readers, r.Sound s

namespace DoorbellState

variable {s t : DoorbellState}

theorem ring_some {next : WriterPhase} (h : s.ring next = some t) :
    t = { s with doorbell := s.doorbell + 1, rings := s.rings + 1, writer := next } := by
  obtain ⟨-, heq⟩ := Option.ite_none_right_eq_some.1 h
  exact (Option.some.inj heq).symm

theorem moveReader_some {i : Nat} {move : WaitingReader → Option WaitingReader} (h : s.moveReader i move = some t) :
    ∃ r r', s.readers[i]? = some r ∧ move r = some r' ∧ t = { s with readers := s.readers.set i r' } := by
  obtain ⟨r, hr, hm⟩ := Option.bind_eq_some_iff.1 h
  obtain ⟨r', hr', rfl⟩ := Option.map_eq_some_iff.1 hm
  exact ⟨r, r', hr, hr', rfl⟩

/-- A bump makes every earlier load old, and opens a round that will wake whoever is parked. -/
theorem Inv.ring (hi : s.Inv) {next : WriterPhase} (hnext : next ≠ .idle) :
    Inv { s with doorbell := s.doorbell + 1, rings := s.rings + 1, writer := next } := by
  intro r hr
  have hs := hi r hr
  unfold WaitingReader.Sound at hs ⊢
  cases hp : r.phase with
  | outside => trivial
  | looping => trivial
  | loaded observed loadedAt => simp only [hp] at hs ⊢; omega
  | checked observed loadedAt inWindow => simp only [hp] at hs ⊢; omega
  | parked => exact .inr hnext

/-- A store follows a bump, so it leaves no checked reader on the doorbell of a state publication. -/
theorem Inv.store (hi : s.Inv) (hrung : s.writer.rung = true) {next : WriterPhase} (hnext : next ≠ .idle)
    (hevent : s.writer = .eventRung → next = .eventStored) :
    Inv { s with generation := s.generation + 1, writer := next } := by
  intro r hr
  have hs := hi r hr
  unfold WaitingReader.Sound at hs ⊢
  cases hp : r.phase with
  | outside => trivial
  | looping => trivial
  | loaded observed loadedAt => simpa only [hp] using hs
  | checked observed loadedAt inWindow =>
    simp only [hp] at hs ⊢
    refine ⟨hs.1, fun heq hout => .inr (.inr ?_)⟩
    rcases hs.2 heq hout with ⟨-, hquiet⟩ | hring | hstored
    · simp [hrung] at hquiet
    · exact hevent hring
    · simp [hstored, WriterPhase.rung] at hrung
  | parked => exact .inr hnext

theorem Inv.wake (hi : s.Inv) (hstored : s.writer = .stateStored) :
    Inv { s with readers := s.readers.map WaitingReader.woken, writer := .idle } := by
  intro r hr
  obtain ⟨old, hold, rfl⟩ := List.mem_map.1 hr
  have hs := hi old hold
  unfold WaitingReader.Sound at hs ⊢
  cases hp : old.phase with
  | outside => simp [WaitingReader.woken, hp]
  | looping => simp [WaitingReader.woken, hp]
  | loaded observed loadedAt => simpa [WaitingReader.woken, hp] using hs
  | checked observed loadedAt inWindow => simpa [WaitingReader.woken, hp, hstored, WriterPhase.rung] using hs
  | parked => simp [WaitingReader.woken, hp]

theorem Inv.moveReader (hi : s.Inv) {i : Nat} {move : WaitingReader → Option WaitingReader}
    (hmove : ∀ r r', s.readers[i]? = some r → r.Sound s → move r = some r' → r'.Sound s)
    (h : s.moveReader i move = some t) : t.Inv := by
  obtain ⟨r, r', hr, hm, rfl⟩ := moveReader_some h
  intro x hx
  rcases List.mem_or_eq_of_mem_set hx with hx | rfl
  · exact hi x hx
  · exact hmove r x hr (hi r (List.mem_of_getElem? hr)) hm

theorem Inv.step (hi : s.Inv) {e : DoorbellEvent} (hok : s.Unraced e) (h : s.step e = some t) : t.Inv := by
  cases e with
  | ringEvent => exact ring_some h ▸ hi.ring (by decide)
  | ringState => exact ring_some h ▸ hi.ring (by decide)
  | store =>
    simp only [DoorbellState.step] at h
    split at h
    · exact Option.some.inj h ▸ hi.store (by simp_all [WriterPhase.rung]) (by decide) fun _ => rfl
    · exact Option.some.inj h ▸ hi.store (by simp_all [WriterPhase.rung]) (by decide) (by simp_all)
    · cases h
  | wake =>
    obtain ⟨hstored, heq⟩ := Option.ite_none_right_eq_some.1 h
    exact Option.some.inj heq ▸ hi.wake hstored
  | enter i lastSeen =>
    refine hi.moveReader (fun r r' _ _ hm => ?_) h
    obtain ⟨-, heq⟩ := Option.ite_none_right_eq_some.1 hm
    exact Option.some.inj heq ▸ trivial
  | load i =>
    refine hi.moveReader (fun r r' _ _ hm => ?_) h
    obtain ⟨-, heq⟩ := Option.ite_none_right_eq_some.1 hm
    exact Option.some.inj heq ▸ Nat.le_refl s.rings
  | check i =>
    refine hi.moveReader (fun r r' hr hs hm => ?_) h
    cases hp : r.phase with
    | loaded observed loadedAt =>
      simp only [hp] at hm
      split at hm
      · rename_i hgen
        simp only [WaitingReader.Sound, hp] at hs
        refine Option.some.inj hm ▸ ⟨hs, fun heq hout => ?_⟩
        cases hw : s.writer <;> simp_all [WriterPhase.rung]
      · exact Option.some.inj hm ▸ trivial
    | outside | looping | checked | parked => simp [hp] at hm
  | expire i =>
    refine hi.moveReader (fun r r' _ _ hm => ?_) h
    cases hp : r.phase with
    | checked observed loadedAt inWindow =>
      simp only [hp] at hm
      exact Option.some.inj hm ▸ trivial
    | outside | looping | loaded | parked => simp [hp] at hm
  | park i =>
    refine hi.moveReader (fun r r' hr hs hm => ?_) h
    cases hp : r.phase with
    | checked observed loadedAt inWindow =>
      simp only [hp] at hm
      simp only [WaitingReader.Sound, hp] at hs
      split at hm
      · rename_i hword
        refine Option.some.inj hm ▸ or_iff_not_imp_right.mpr fun hbusy => ?_
        -- Between rounds the guard says that the word did not come round and that the check was outside a window.
        have hidle : s.writer = .idle := not_not.mp hbusy
        have hguard := hok r hr
        simp only [WaitingReader.parksRaced, hp, hword, hidle, decide_true, Bool.true_and, Bool.or_eq_false_iff,
          decide_eq_false_iff_not, not_not] at hguard
        exact (hs.2 hguard.2 hguard.1).resolve_right (by simp [hidle])
      · exact Option.some.inj hm ▸ trivial
    | outside | looping | loaded | parked => simp [hp] at hm
  | unpark i =>
    refine hi.moveReader (fun r r' _ _ hm => ?_) h
    obtain ⟨-, heq⟩ := Option.ite_none_right_eq_some.1 hm
    exact Option.some.inj heq ▸ trivial

theorem fresh_inv (readers : Nat) : (fresh readers).Inv := by
  intro r hr
  rw [List.eq_of_mem_replicate hr]
  trivial

end DoorbellState

/-- Between rounds no reader is parked on a generation it has not seen, in every run in which no reader parks between
rounds after it loaded and checked between a state publication's bump and store, or after the word came round. -/
theorem no_lost_wake_unraced (readers : Nat) {s : DoorbellState}
    (h : Run DoorbellState.step DoorbellState.Unraced (DoorbellState.fresh readers) s) (hidle : s.writer = .idle) :
    ∀ r ∈ s.readers, r.phase = .parked → r.lastSeen = s.generation := by
  intro r hr hparked
  have hinv : s.Inv := h.inv (fun _ _ _ hi hok hstep => hi.step hok hstep) (DoorbellState.fresh_inv readers)
  have hs := hinv r hr
  simp only [WaitingReader.Sound, hparked, hidle, ne_eq, not_true_eq_false, or_false] at hs
  exact hs.1

/-- Readers that park before the round, or after they checked in an event's window, are woken by it, and one that parks
after it has seen it. -/
theorem no_lost_wake_unraced_example :
    ∃ s, Run DoorbellState.step DoorbellState.Unraced (DoorbellState.fresh 3) s ∧ s.writer = .idle ∧
      ⟨2, .parked⟩ ∈ s.readers ∧ ∀ r ∈ s.readers, r.phase = .parked → r.lastSeen = s.generation := by
  have hrun : Run DoorbellState.step DoorbellState.Unraced (DoorbellState.fresh 3)
      ⟨2, 2, .idle, [⟨0, .looping⟩, ⟨2, .parked⟩, ⟨0, .looping⟩], 2⟩ :=
    .of_exec [.enter 0 0, .load 0, .check 0, .park 0, .ringEvent, .enter 2 0, .load 2, .check 2, .store, .park 2,
      .ringState, .enter 1 2, .store, .load 1, .check 1, .wake, .park 1] (by decide)
  exact ⟨_, hrun, rfl, by decide, no_lost_wake_unraced 3 hrun rfl⟩

/-- The race: a reader loads the bumped doorbell, checks the generation before it is stored, and parks after
the round's wake. -/
theorem wake_lost_in_window :
    ∃ s, Run DoorbellState.step (fun _ _ => True) (DoorbellState.fresh 1) s ∧ s.writer = .idle ∧
      ∃ r ∈ s.readers, r.phase = .parked ∧ r.lastSeen ≠ s.generation := by
  have hrun : Run DoorbellState.step (fun _ _ => True) (DoorbellState.fresh 1)
      ⟨1, 1, .idle, [⟨0, .parked⟩], 1⟩ :=
    .of_exec [.enter 0 0, .ringState, .load 0, .check 0, .store, .wake, .park 0] (by decide)
  exact ⟨_, hrun, rfl, ⟨0, .parked⟩, by decide, rfl, by decide⟩

end PmWs
