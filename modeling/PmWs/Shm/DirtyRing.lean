import PmWs.Lib.MachineInt
import PmWs.Lib.Ring
import PmWs.Lib.Runs

/-!
# The dirty ring

Every state publication appends one entry to a ring the whole segment shares:
its position, the market's directory index and the revision. A consumer takes a
cursor from one scan of the ring and then polls. An entry at its cursor is
delivered, one past it means it was lapped and has to look at every market, and
anything else means there is nothing new. A read of one slot is one step and
sees the last publication completed there, or none of one in flight.
-/

open MachineInt Runs

namespace PmWs

structure DirtyEntry where
  directoryIndex : Nat
  bookRevision : Nat
  deriving DecidableEq, Repr

inductive DirtyPoll where
  | delivered (directoryIndex bookRevision : Nat)
  | rescan
  | idle
  deriving DecidableEq, Repr

/-- `u64::wrapping_add`. -/
def wrappingAdd (a b : Nat) : Nat := (a + b) % 2 ^ 64

/-- The slot of an absolute position, by the mask of a capacity. -/
def dirtySlot (capacity position : Nat) : Nat := position &&& (capacity - 1)

/-- One slot of the scan that looks for the ring's head. -/
def dirtyHead (head : Nat) (slot : Option (Nat × DirtyEntry)) : Nat :=
  match slot with
  | some (position, _) => max head (wrappingAdd position 1)
  | none => head

/-- One poll at a cursor, over what its slot reads as. -/
def nextDirty (cursor : Nat) (slot : Option (Nat × DirtyEntry)) : Nat × DirtyPoll :=
  match slot with
  | none => (cursor, .idle)
  | some (position, entry) =>
    if position = cursor then (wrappingAdd cursor 1, .delivered entry.directoryIndex entry.bookRevision)
    else if cursor < position then (wrappingAdd position 1, .rescan)
    else (cursor, .idle)

/-! ## The writer and a consumer -/

/-- Where the writer stands in a round. -/
inductive DirtyPhase where
  | between
  | stateInFlight (entry : DirtyEntry)
  | stateStored (entry : DirtyEntry)
  | entryInFlight (entry : DirtyEntry)
  | entryStored
  deriving DecidableEq, Repr

/-- A consumer scans for the head, polls, and reads the markets a poll named before it polls again. -/
inductive DirtyConsumer where
  | scanning (slot head : Nat)
  | polling (cursor : Nat)
  | rereading (cursor : Nat) (markets : List Nat)
  deriving DecidableEq, Repr

/-- The ring, the state slots' revisions and one consumer. No step reads the last three: the state publications
completed so far, how many there were when the cursor was taken, and each answer with how many there were then. -/
structure DirtyWorld where
  capacity : Nat
  markets : Nat
  slots : List (Option (Nat × DirtyEntry))
  states : Nat → Option Nat
  position : Nat
  phase : DirtyPhase
  consumer : DirtyConsumer
  known : Nat → Option Nat
  published : List DirtyEntry
  takenAt : Option Nat
  received : List (Nat × DirtyPoll)

/-- `ready` is whether a slot in flight still reads as its last publication. -/
inductive DirtyEvent where
  | openState (entry : DirtyEntry)
  | closeState
  | openEntry
  | closeEntry
  | finish
  | scan (ready : Bool)
  | poll (ready : Bool)
  | reread (ready : Bool)

namespace DirtyWorld

def start (exponent markets : Nat) : DirtyWorld where
  capacity := 2 ^ exponent
  markets := markets
  slots := List.replicate (2 ^ exponent) none
  states := fun _ => none
  position := 0
  phase := .between
  consumer := .scanning 0 0
  known := fun _ => none
  published := []
  takenAt := none
  received := []

/-- What a dirty slot reads as. -/
def seen (self : DirtyWorld) (slot : Nat) (ready : Bool) : Option (Nat × DirtyEntry) :=
  match self.phase with
  | .entryInFlight _ =>
    if slot = dirtySlot self.capacity self.position && !ready then none else self.slots[slot]?.join
  | _ => self.slots[slot]?.join

/-- What the next poll would see and answer. -/
def answer (self : DirtyWorld) (cursor : Nat) (ready : Bool) : Nat × DirtyPoll :=
  nextDirty cursor (self.seen (dirtySlot self.capacity cursor) ready)

/-- A state slot in flight may read as not ready, and is then read again. -/
def unready (self : DirtyWorld) (index : Nat) (ready : Bool) : Bool :=
  match self.phase with
  | .stateInFlight entry => entry.directoryIndex = index && !ready
  | _ => false

def scan (self : DirtyWorld) (ready : Bool) : Option DirtyWorld :=
  match self.consumer with
  | .scanning slot head =>
    some <| if slot < self.capacity then
      { self with consumer := .scanning (slot + 1) (dirtyHead head (self.seen slot ready)) }
    else { self with consumer := .polling head, takenAt := some self.published.length }
  | _ => none

def poll (self : DirtyWorld) (ready : Bool) : Option DirtyWorld :=
  match self.consumer with
  | .polling cursor =>
    match self.answer cursor ready with
    | (_, .idle) => some self
    | (cursor', .rescan) =>
      some { self with
        consumer := .rereading cursor' (List.range self.markets)
        received := self.received ++ [(self.published.length, .rescan)] }
    | (cursor', .delivered index revision) =>
      some { self with
        consumer := .rereading cursor' [index]
        received := self.received ++ [(self.published.length, .delivered index revision)] }
  | _ => none

def reread (self : DirtyWorld) (ready : Bool) : Option DirtyWorld :=
  match self.consumer with
  | .rereading cursor [] => some { self with consumer := .polling cursor }
  | .rereading cursor (index :: rest) =>
    some <| if self.unready index ready then self
    else { self with consumer := .rereading cursor rest, known := Function.update self.known index (self.states index) }
  | _ => none

def step (self : DirtyWorld) : DirtyEvent → Option DirtyWorld
  | .openState entry =>
    if self.phase = .between ∧ entry.directoryIndex < self.markets then some { self with phase := .stateInFlight entry }
    else none
  | .closeState =>
    match self.phase with
    | .stateInFlight entry =>
      some { self with
        phase := .stateStored entry
        states := Function.update self.states entry.directoryIndex (some entry.bookRevision)
        published := self.published ++ [entry] }
    | _ => none
  | .openEntry =>
    match self.phase with
    | .stateStored entry => some { self with phase := .entryInFlight entry }
    | _ => none
  | .closeEntry =>
    match self.phase with
    | .entryInFlight entry =>
      some { self with
        phase := .entryStored
        slots := self.slots.set (dirtySlot self.capacity self.position) (some (self.position, entry)) }
    | _ => none
  | .finish =>
    if self.phase = .entryStored then some { self with phase := .between, position := wrappingAdd self.position 1 }
    else none
  | .scan ready => self.scan ready
  | .poll ready => self.poll ready
  | .reread ready => self.reread ready

/-- There are fewer than `2 ^ 64` state publications. -/
def few (self : DirtyWorld) : DirtyEvent → Bool
  | .openState _ => self.position < u64Max
  | _ => true

/-! ## The ring follows the publications -/

/-- How many entries the ring has taken. -/
def committed (self : DirtyWorld) : Nat :=
  match self.phase with
  | .entryStored => self.position + 1
  | _ => self.position

/-- Where a round stands, against what it has published. -/
def Rounds (w : DirtyWorld) : Prop :=
  match w.phase with
  | .between => w.published.length = w.position ∧ w.position ≤ u64Max
  | .stateInFlight entry => w.published.length = w.position ∧ w.position < u64Max ∧ entry.directoryIndex < w.markets
  | .stateStored entry | .entryInFlight entry =>
    w.published.length = w.position + 1 ∧ w.position < u64Max ∧ w.published[w.position]? = some entry
  | .entryStored => w.published.length = w.position + 1 ∧ w.position < u64Max

end DirtyWorld

def DirtyConsumer.cursor : DirtyConsumer → Nat
  | .scanning _ head => head
  | .polling cursor => cursor
  | .rereading cursor _ => cursor

def DirtyConsumer.markets : DirtyConsumer → List Nat
  | .rereading _ markets => markets
  | _ => []

namespace DirtyWorld

/-- The ring holds the entries it has taken, and no cursor is past them. -/
structure Tracks (w : DirtyWorld) : Prop where
  masked : ∃ exponent, w.capacity = 2 ^ exponent
  ring : Ring.Laps w.capacity w.slots (w.published.take w.committed)
  rounds : w.Rounds
  behind : w.consumer.cursor ≤ w.committed

variable {w w' : DirtyWorld}

theorem Rounds.committed (h : w.Rounds) : w.committed ≤ w.published.length ∧ w.committed ≤ u64Max := by
  unfold Rounds at h
  unfold DirtyWorld.committed
  split at h <;> rename_i hphase <;> rw [hphase] <;> dsimp only <;> omega

theorem wrappingAdd_one {n : Nat} (h : n < u64Max) : wrappingAdd n 1 = n + 1 := by
  simp only [u64Max] at h
  exact Nat.mod_eq_of_lt (by omega)

theorem Tracks.slot (h : w.Tracks) (position : Nat) : dirtySlot w.capacity position = position % w.capacity := by
  obtain ⟨exponent, hcapacity⟩ := h.masked
  rw [hcapacity]
  exact Nat.and_two_pow_sub_one_eq_mod position exponent

theorem Tracks.capacity_pos (h : w.Tracks) : 0 < w.capacity := by
  obtain ⟨exponent, hcapacity⟩ := h.masked
  rw [hcapacity]
  exact Nat.two_pow_pos exponent

/-- What a read returns is an entry of the ring. -/
theorem Tracks.seen (h : w.Tracks) {slot position : Nat} {ready : Bool} {entry : DirtyEntry}
    (hseen : w.seen slot ready = some (position, entry)) :
    position < w.committed ∧ w.published[position]? = some entry := by
  have hslot : w.slots[slot]? = some (some (position, entry)) := by
    have hjoin : w.slots[slot]?.join = some (position, entry) := by
      unfold DirtyWorld.seen at hseen
      split at hseen
      · split at hseen
        · cases hseen
        · exact hseen
      · exact hseen
    exact Option.join_eq_some_iff.1 hjoin
  obtain ⟨hlt, hwritten⟩ := h.ring.found hslot
  rw [List.length_take] at hlt
  rw [List.getElem?_take_of_lt (by omega)] at hwritten
  exact ⟨by omega, hwritten⟩

/-- What a poll can answer. -/
theorem Tracks.answers (h : w.Tracks) (cursor : Nat) (ready : Bool) :
    (w.answer cursor ready).2 = .idle ∨
    (∃ entry, cursor < w.committed ∧ w.published[cursor]? = some entry ∧
      w.answer cursor ready = (cursor + 1, .delivered entry.directoryIndex entry.bookRevision)) ∨
    ∃ position, cursor < position ∧ position < w.committed ∧ w.answer cursor ready = (position + 1, .rescan) := by
  obtain ⟨-, hbound⟩ := h.rounds.committed
  unfold answer nextDirty
  cases hseen : w.seen (dirtySlot w.capacity cursor) ready with
  | none => exact .inl rfl
  | some found =>
    obtain ⟨position, entry⟩ := found
    obtain ⟨hlt, hentry⟩ := h.seen hseen
    have hnext : wrappingAdd position 1 = position + 1 := wrappingAdd_one (by omega)
    dsimp only
    split
    · rename_i heq
      subst heq
      exact .inr (.inl ⟨entry, hlt, hentry, by rw [hnext]⟩)
    · split
      · exact .inr (.inr ⟨position, by assumption, hlt, by rw [hnext]⟩)
      · exact .inl rfl

/-- Between rounds a poll is idle only at the writer's own position. -/
theorem Tracks.idle (h : w.Tracks) (hbetween : w.phase = .between) {cursor : Nat} (hcursor : cursor ≤ w.committed)
    {ready : Bool} (hidle : (w.answer cursor ready).2 = .idle) : cursor = w.position := by
  have hcommitted : w.committed = w.position := by rw [committed, hbetween]
  obtain ⟨hle, -⟩ := h.rounds.committed
  by_contra hne
  have hlength : (w.published.take w.committed).length = w.committed := List.length_take_of_le hle
  have hbehind : cursor < (w.published.take w.committed).length := by omega
  obtain ⟨found, entry, hread, hfound, -⟩ := h.ring.behind h.capacity_pos hbehind
  have hseen : w.seen (dirtySlot w.capacity cursor) ready = some (found, entry) := by
    unfold DirtyWorld.seen
    rw [hbetween, h.slot, hread]
    rfl
  simp only [answer, nextDirty, hseen] at hidle
  split at hidle
  · cases hidle
  · split at hidle
    · cases hidle
    · omega

/-! ## What the writer's steps keep -/

/-- A step of the writer completes a state publication, or changes nothing a consumer has or is owed. -/
structure Writes (w w' : DirtyWorld) : Prop where
  markets : w'.markets = w.markets
  consumer : w'.consumer = w.consumer
  known : w'.known = w.known
  takenAt : w'.takenAt = w.takenAt
  received : w'.received = w.received
  published : (w'.published = w.published ∧ w'.states = w.states) ∨
    ∃ entry, w'.published = w.published ++ [entry] ∧
      w'.states = Function.update w.states entry.directoryIndex (some entry.bookRevision)

theorem Tracks.openState {entry : DirtyEntry} (h : w.Tracks) (hfew : w.few (.openState entry) = true)
    (hstep : w.step (.openState entry) = some w') : w'.Tracks ∧ Writes w w' := by
  obtain ⟨⟨hphase, hindex⟩, hstep⟩ := Option.ite_none_right_eq_some.1 hstep
  obtain rfl := Option.some.inj hstep
  obtain ⟨hmasked, hring, hrounds, hbehind⟩ := h
  simp only [Rounds, hphase] at hrounds
  simp only [committed, hphase] at hring hbehind
  exact ⟨⟨hmasked, hring, ⟨hrounds.1, of_decide_eq_true hfew, hindex⟩, hbehind⟩,
    ⟨rfl, rfl, rfl, rfl, rfl, .inl ⟨rfl, rfl⟩⟩⟩

theorem Tracks.closeState (h : w.Tracks) (hstep : w.step .closeState = some w') : w'.Tracks ∧ Writes w w' := by
  dsimp only [step] at hstep
  split at hstep
  · rename_i entry hphase
    obtain rfl := Option.some.inj hstep
    obtain ⟨hmasked, hring, hrounds, hbehind⟩ := h
    simp only [Rounds, hphase] at hrounds
    simp only [committed, hphase] at hring hbehind
    obtain ⟨hlength, hroom, -⟩ := hrounds
    refine ⟨⟨hmasked, ?_, ⟨by simp [hlength], hroom, by simp [← hlength]⟩, hbehind⟩,
      ⟨rfl, rfl, rfl, rfl, rfl, .inr ⟨entry, rfl, rfl⟩⟩⟩
    show Ring.Laps w.capacity w.slots ((w.published ++ [entry]).take w.position)
    rw [List.take_append_of_le_length hlength.ge]
    exact hring
  · cases hstep

theorem Tracks.openEntry (h : w.Tracks) (hstep : w.step .openEntry = some w') : w'.Tracks ∧ Writes w w' := by
  dsimp only [step] at hstep
  split at hstep
  · rename_i entry hphase
    obtain rfl := Option.some.inj hstep
    obtain ⟨hmasked, hring, hrounds, hbehind⟩ := h
    simp only [Rounds, hphase] at hrounds
    simp only [committed, hphase] at hring hbehind
    exact ⟨⟨hmasked, hring, hrounds, hbehind⟩, ⟨rfl, rfl, rfl, rfl, rfl, .inl ⟨rfl, rfl⟩⟩⟩
  · cases hstep

/-- The entry of the round's own publication goes to the slot of the round's position. -/
theorem Tracks.closeEntry (h : w.Tracks) (hstep : w.step .closeEntry = some w') : w'.Tracks ∧ Writes w w' := by
  have hslot := h.slot w.position
  have hpos := h.capacity_pos
  dsimp only [step] at hstep
  split at hstep
  · rename_i entry hphase
    obtain rfl := Option.some.inj hstep
    obtain ⟨hmasked, hring, hrounds, hbehind⟩ := h
    simp only [Rounds, hphase] at hrounds
    simp only [committed, hphase] at hring hbehind
    obtain ⟨hlength, hroom, hentry⟩ := hrounds
    refine ⟨⟨hmasked, ?_, ⟨hlength, hroom⟩, hbehind.trans (Nat.le_succ _)⟩,
      ⟨rfl, rfl, rfl, rfl, rfl, .inl ⟨rfl, rfl⟩⟩⟩
    have htaken : (w.published.take w.position).length = w.position := List.length_take_of_le (by omega)
    have hpushed := hring.push hpos entry
    rw [htaken, ← hslot] at hpushed
    show Ring.Laps w.capacity (w.slots.set _ _) (w.published.take (w.position + 1))
    rw [List.take_add_one, hentry]
    exact hpushed
  · cases hstep

theorem Tracks.finish (h : w.Tracks) (hstep : w.step .finish = some w') : w'.Tracks ∧ Writes w w' := by
  obtain ⟨hphase, hstep⟩ := Option.ite_none_right_eq_some.1 hstep
  obtain rfl := Option.some.inj hstep
  obtain ⟨hmasked, hring, hrounds, hbehind⟩ := h
  simp only [Rounds, hphase] at hrounds
  simp only [committed, hphase] at hring hbehind
  obtain ⟨hlength, hroom⟩ := hrounds
  have hnext : wrappingAdd w.position 1 = w.position + 1 := wrappingAdd_one hroom
  refine ⟨⟨hmasked, ?_, ?_, ?_⟩, ⟨rfl, rfl, rfl, rfl, rfl, .inl ⟨rfl, rfl⟩⟩⟩
  · simpa only [committed, hnext] using hring
  · simp only [Rounds, hnext]
    exact ⟨hlength, hroom⟩
  · simpa only [committed, hnext] using hbehind

/-! ## What a consumer has heard -/

def deliveries (received : List (Nat × DirtyPoll)) : List DirtyEntry :=
  received.filterMap fun receipt =>
    match receipt.2 with
    | .delivered index revision => some ⟨index, revision⟩
    | _ => none

/-- A poll named the entry after its publication was completed, or made the consumer look at every market. -/
def Heard (w : DirtyWorld) (n : Nat) (entry : DirtyEntry) : Prop :=
  ∃ receipt ∈ w.received, n < receipt.1 ∧
    (receipt.2 = .delivered entry.directoryIndex entry.bookRevision ∨ receipt.2 = .rescan)

/-- Some publication of the market is not before the cursor. -/
def Ahead (w : DirtyWorld) (index : Nat) : Prop :=
  ∃ n entry, w.consumer.cursor ≤ n ∧ w.published[n]? = some entry ∧ entry.directoryIndex = index

/-- No publication of the market was completed since the cursor was taken, and it was not read. -/
def Untouched (w : DirtyWorld) (taken index : Nat) : Prop :=
  w.known index = none ∧ ∀ n entry, taken ≤ n → w.published[n]? = some entry → entry.directoryIndex ≠ index

structure Hears (w : DirtyWorld) : Prop where
  scanning : ∀ slot head, w.consumer = .scanning slot head →
    w.takenAt = none ∧ w.received = [] ∧ ∀ index, w.known index = none
  ordered : (deliveries w.received).Sublist (w.published.take w.consumer.cursor)
  heard : ∀ taken, w.takenAt = some taken → ∀ n entry, taken ≤ n → n < w.consumer.cursor →
    w.published[n]? = some entry → w.Heard n entry
  known : ∀ taken, w.takenAt = some taken → ∀ index < w.markets,
    index ∈ w.consumer.markets ∨ w.known index = w.states index ∨ w.Ahead index ∨ w.Untouched taken index

theorem Writes.hears (hwrites : Writes w w') (h : w.Hears) (hcursor : w.consumer.cursor ≤ w.published.length) :
    w'.Hears := by
  obtain ⟨hmarkets, hconsumer, hknown, htakenAt, hreceived, hpublished⟩ := hwrites
  rcases hpublished with ⟨hpublished, hstates⟩ | ⟨entry, hpublished, hstates⟩
  · obtain ⟨hscanning, hordered, hheard, hknows⟩ := h
    refine ⟨?_, ?_, ?_, ?_⟩
    · rw [hconsumer, htakenAt, hreceived, hknown]
      exact hscanning
    · rw [hreceived, hpublished, hconsumer]
      exact hordered
    · simp only [Heard, htakenAt, hconsumer, hpublished, hreceived]
      exact hheard
    · simp only [Ahead, Untouched, htakenAt, hconsumer, hpublished, hknown, hstates, hmarkets]
      exact hknows
  · have hold {n : Nat} (hn : n < w.published.length) : w'.published[n]? = w.published[n]? := by
      rw [hpublished, List.getElem?_append_left hn]
    refine ⟨?_, ?_, ?_, ?_⟩
    · rw [hconsumer, htakenAt, hreceived, hknown]
      exact h.scanning
    · rw [hreceived, hpublished, hconsumer, List.take_append_of_le_length hcursor]
      exact h.ordered
    · intro taken htaken n found hn hlt hfound
      rw [hconsumer] at hlt
      rw [hold (by omega)] at hfound
      have hheard := h.heard taken (htakenAt ▸ htaken) n found hn hlt hfound
      simpa only [Heard, hreceived] using hheard
    · intro taken htaken index hindex
      rw [hconsumer, hknown]
      by_cases heq : entry.directoryIndex = index
      · -- the new publication is ahead of every cursor
        refine .inr (.inr (.inl ⟨w.published.length, entry, ?_, ?_, heq⟩))
        · rw [hconsumer]
          exact hcursor
        · simp [hpublished]
      · rcases h.known taken (htakenAt ▸ htaken) index (hmarkets ▸ hindex) with hin | hsame | hahead | huntouched
        · exact .inl hin
        · refine .inr (.inl ?_)
          rw [hstates, Function.update_of_ne (Ne.symm heq)]
          exact hsame
        · obtain ⟨n, found, hn, hfound, hmarket⟩ := hahead
          refine .inr (.inr (.inl ⟨n, found, hconsumer ▸ hn, ?_, hmarket⟩))
          rw [hold (List.getElem?_eq_some_iff.1 hfound).1]
          exact hfound
        · obtain ⟨hnone, hsince⟩ := huntouched
          refine .inr (.inr (.inr ⟨hknown ▸ hnone, ?_⟩))
          intro n found hn hfound
          rcases Nat.lt_or_ge n w.published.length with hlt | hge
          · rw [hold hlt] at hfound
            exact hsince n found hn hfound
          · rw [hpublished, List.getElem?_append_right hge] at hfound
            rw [List.mem_singleton.1 (List.mem_of_getElem? hfound)]
            exact heq

/-! ## What a consumer's steps keep -/

theorem Tracks.dirtyHead (h : w.Tracks) {head slot : Nat} {ready : Bool} (hhead : head ≤ w.committed) :
    dirtyHead head (w.seen slot ready) ≤ w.committed := by
  unfold PmWs.dirtyHead
  cases hseen : w.seen slot ready with
  | none => exact hhead
  | some found =>
    obtain ⟨position, entry⟩ := found
    obtain ⟨hlt, -⟩ := h.seen hseen
    obtain ⟨-, hbound⟩ := h.rounds.committed
    have hnext : wrappingAdd position 1 = position + 1 := wrappingAdd_one (by omega)
    dsimp only
    rw [hnext]
    exact Nat.max_le.2 ⟨hhead, hlt⟩

/-- A consumer moves without touching the ring. -/
theorem Tracks.consumer (h : w.Tracks) (hsame : w'.capacity = w.capacity ∧ w'.markets = w.markets ∧
    w'.slots = w.slots ∧ w'.published = w.published ∧ w'.position = w.position ∧ w'.phase = w.phase)
    (hbehind : w'.consumer.cursor ≤ w.committed) : w'.Tracks := by
  obtain ⟨hcapacity, hmarkets, hslots, hpublished, hposition, hphase⟩ := hsame
  have hcommitted : w'.committed = w.committed := by simp only [committed, hphase, hposition]
  refine ⟨hcapacity ▸ h.masked, ?_, ?_, hcommitted ▸ hbehind⟩
  · rw [hcapacity, hslots, hpublished, hcommitted]
    exact h.ring
  · have hrounds := h.rounds
    simpa only [Rounds, hphase, hpublished, hposition, hmarkets] using hrounds

theorem scan_kept {ready : Bool} (ht : w.Tracks) (h : w.Hears) (hstep : w.scan ready = some w') :
    w'.Tracks ∧ w'.Hears := by
  unfold DirtyWorld.scan at hstep
  split at hstep
  · rename_i slot head hconsumer
    obtain ⟨htaken, hreceived, hknown⟩ := h.scanning slot head hconsumer
    have hbehind : head ≤ w.committed := by
      have := ht.behind
      rwa [hconsumer] at this
    obtain rfl := Option.some.inj hstep
    split
    · refine ⟨ht.consumer ⟨rfl, rfl, rfl, rfl, rfl, rfl⟩ (ht.dirtyHead hbehind), ?_, ?_, ?_, ?_⟩
      · exact fun _ _ _ => ⟨htaken, hreceived, hknown⟩
      · simp [hreceived, deliveries]
      · intro taken hsome
        simp [htaken] at hsome
      · intro taken hsome
        simp [htaken] at hsome
    · -- the cursor is taken at what the scan found
      have hle := ht.rounds.committed.1
      refine ⟨ht.consumer ⟨rfl, rfl, rfl, rfl, rfl, rfl⟩ hbehind, nofun, ?_, ?_, ?_⟩
      · simp [hreceived, deliveries]
      · intro taken hsome n entry hn hlt
        obtain rfl := Option.some.inj hsome
        have hlt : n < head := hlt
        omega
      · intro taken hsome index hindex
        obtain rfl := Option.some.inj hsome
        refine .inr (.inr (.inr ⟨hknown index, ?_⟩))
        intro n entry hn hentry
        have hlt := (List.getElem?_eq_some_iff.1 hentry).1
        exact absurd hn (Nat.not_le.2 hlt)
  · cases hstep

theorem reread_kept {ready : Bool} (ht : w.Tracks) (h : w.Hears) (hstep : w.reread ready = some w') :
    w'.Tracks ∧ w'.Hears := by
  obtain ⟨hscanning, hordered, hheard, hknows⟩ := h
  have hbehind := ht.behind
  unfold DirtyWorld.reread at hstep
  split at hstep
  · rename_i cursor hconsumer
    obtain rfl := Option.some.inj hstep
    rw [hconsumer] at hbehind
    simp only [Ahead, hconsumer] at hordered hheard hknows
    exact ⟨ht.consumer ⟨rfl, rfl, rfl, rfl, rfl, rfl⟩ hbehind, nofun, hordered, hheard, hknows⟩
  · rename_i cursor index rest hconsumer
    obtain rfl := Option.some.inj hstep
    split
    · exact ⟨ht, hscanning, hordered, hheard, hknows⟩
    · rw [hconsumer] at hbehind
      simp only [Ahead, hconsumer] at hordered hheard hknows
      refine ⟨ht.consumer ⟨rfl, rfl, rfl, rfl, rfl, rfl⟩ hbehind, nofun, hordered, hheard, ?_⟩
      intro taken htaken market hmarket
      by_cases heq : market = index
      · subst heq
        exact .inr (.inl (Function.update_self ..))
      · have hother : Function.update w.known index (w.states index) market = w.known market :=
          Function.update_of_ne heq _ _
        rcases hknows taken htaken market hmarket with hin | hsame | hahead | ⟨hnone, hsince⟩
        · rcases List.mem_cons.1 hin with rfl | hrest
          · exact absurd rfl heq
          · exact .inl hrest
        · exact .inr (.inl (hother.trans hsame))
        · exact .inr (.inr (.inl hahead))
        · exact .inr (.inr (.inr ⟨hother.trans hnone, hsince⟩))
  · cases hstep

theorem poll_kept {ready : Bool} (ht : w.Tracks) (h : w.Hears) (hstep : w.poll ready = some w') :
    w'.Tracks ∧ w'.Hears := by
  unfold DirtyWorld.poll at hstep
  split at hstep
  · rename_i cursor hconsumer
    have hcursor : w.consumer.cursor = cursor := by rw [hconsumer]; rfl
    have hle := ht.rounds.committed.1
    rcases ht.answers cursor ready with hidle | ⟨entry, hlt, hentry, hanswer⟩ | ⟨position, hcursor', hlt, hanswer⟩
    · -- nothing new
      have hsame : w.answer cursor ready = ((w.answer cursor ready).1, .idle) := by rw [← hidle]
      rw [hsame] at hstep
      exact Option.some.inj hstep ▸ ⟨ht, h⟩
    · -- the entry at the cursor
      rw [hanswer] at hstep
      obtain rfl := Option.some.inj hstep
      refine ⟨ht.consumer ⟨rfl, rfl, rfl, rfl, rfl, rfl⟩ hlt, nofun, ?_, ?_, ?_⟩
      · have hordered := h.ordered
        rw [hcursor] at hordered
        show (deliveries (w.received ++ _)).Sublist (w.published.take (cursor + 1))
        rw [List.take_add_one, hentry, deliveries, List.filterMap_append]
        exact hordered.append (.refl _)
      · intro taken htaken n found hn hn' hfound
        have hn' : n < cursor + 1 := hn'
        rcases Nat.lt_succ_iff_lt_or_eq.1 hn' with hbefore | rfl
        · obtain ⟨receipt, hreceipt, hsince⟩ := h.heard taken htaken n found hn (hcursor ▸ hbefore) hfound
          exact ⟨receipt, List.mem_append_left _ hreceipt, hsince⟩
        · obtain rfl := Option.some.inj (hentry.symm.trans hfound)
          exact ⟨_, List.mem_append_right _ (List.mem_singleton_self _), by dsimp only; omega, .inl rfl⟩
      · intro taken htaken market hmarket
        by_cases heq : market = entry.directoryIndex
        · exact .inl (heq ▸ List.mem_singleton_self _)
        · rcases h.known taken htaken market hmarket with hin | hsame | ⟨n, found, hn, hfound, hindex⟩ | huntouched
          · rw [hconsumer] at hin
            cases hin
          · exact .inr (.inl hsame)
          · refine .inr (.inr (.inl ⟨n, found, ?_, hfound, hindex⟩))
            show cursor + 1 ≤ n
            rw [hcursor] at hn
            rcases Nat.lt_or_eq_of_le hn with hlt | rfl
            · exact hlt
            · obtain rfl := Option.some.inj (hentry.symm.trans hfound)
              exact absurd hindex.symm heq
          · exact .inr (.inr (.inr huntouched))
    · -- the writer lapped the cursor
      rw [hanswer] at hstep
      obtain rfl := Option.some.inj hstep
      refine ⟨ht.consumer ⟨rfl, rfl, rfl, rfl, rfl, rfl⟩ hlt, nofun, ?_, ?_, ?_⟩
      · have hordered := h.ordered
        rw [hcursor] at hordered
        have hsame : deliveries (w.received ++ [(w.published.length, .rescan)]) = deliveries w.received := by
          simp [deliveries]
        show (deliveries (w.received ++ _)).Sublist (w.published.take (position + 1))
        rw [hsame]
        exact hordered.trans (List.take_prefix_take_left (by omega)).sublist
      · intro taken htaken n found hn hn' hfound
        have hn' : n < position + 1 := hn'
        exact ⟨_, List.mem_append_right _ (List.mem_singleton_self _), by dsimp only; omega, .inr rfl⟩
      · intro taken htaken market hmarket
        exact .inl (List.mem_range.2 hmarket)
  · cases hstep

theorem kept_step {event : DirtyEvent} (ht : w.Tracks) (h : w.Hears) (hfew : w.few event = true)
    (hstep : w.step event = some w') : w'.Tracks ∧ w'.Hears := by
  have hcursor : w.consumer.cursor ≤ w.published.length := ht.behind.trans ht.rounds.committed.1
  have hwriter (hkept : w'.Tracks ∧ Writes w w') : w'.Tracks ∧ w'.Hears := ⟨hkept.1, hkept.2.hears h hcursor⟩
  cases event with
  | openState entry => exact hwriter (ht.openState hfew hstep)
  | closeState => exact hwriter (ht.closeState hstep)
  | openEntry => exact hwriter (ht.openEntry hstep)
  | closeEntry => exact hwriter (ht.closeEntry hstep)
  | finish => exact hwriter (ht.finish hstep)
  | scan ready => exact scan_kept ht h hstep
  | poll ready => exact poll_kept ht h hstep
  | reread ready => exact reread_kept ht h hstep

theorem start_kept (exponent markets : Nat) : (start exponent markets).Tracks ∧ (start exponent markets).Hears := by
  refine ⟨⟨⟨exponent, rfl⟩, .blank _, ⟨rfl, Nat.zero_le _⟩, Nat.le_refl _⟩, ?_, ?_, nofun, nofun⟩
  · exact fun _ _ _ => ⟨rfl, rfl, fun _ => rfl⟩
  · exact List.Sublist.refl _

/-- For any capacity, any number of markets and any interleaving: the entries delivered are published ones in order and
without repetition. Once a poll between rounds is idle, the cursor is the writer's position, every state publication
completed since the cursor was taken has been named or covered by a rescan after it was completed, and every market
published since then is known at its latest revision. -/
theorem dirty_ring_loses_nothing (exponent markets : Nat) {w : DirtyWorld}
    (hrun : Run step (fun w e => w.few e = true) (start exponent markets) w) :
    (deliveries w.received).Sublist w.published ∧
    ∀ cursor taken ready, w.consumer = .polling cursor → w.takenAt = some taken → w.phase = .between →
      (w.answer cursor ready).2 = .idle →
      cursor = w.position ∧ (∀ n entry, taken ≤ n → w.published[n]? = some entry → w.Heard n entry) ∧
      ∀ index < w.markets, w.known index = w.states index ∨ w.Untouched taken index := by
  obtain ⟨ht, h⟩ := hrun.inv (I := fun w => w.Tracks ∧ w.Hears)
    (fun _ _ _ hw hfew hstep => kept_step hw.1 hw.2 hfew hstep) (start_kept exponent markets)
  refine ⟨h.ordered.trans (List.take_sublist _ _), ?_⟩
  intro cursor taken ready hconsumer htaken hbetween hidle
  have hcursor : w.consumer.cursor = cursor := by rw [hconsumer]; rfl
  have hposition : cursor = w.position := ht.idle hbetween (hcursor ▸ ht.behind) hidle
  have hrounds := ht.rounds
  simp only [Rounds, hbetween] at hrounds
  have hall : ∀ n entry, w.published[n]? = some entry → n < w.consumer.cursor := by
    intro n entry hentry
    have := (List.getElem?_eq_some_iff.1 hentry).1
    omega
  refine ⟨hposition, fun n entry hn hentry => h.heard taken htaken n entry hn (hall n entry hentry) hentry, ?_⟩
  intro index hindex
  rcases h.known taken htaken index hindex with hin | hsame | ⟨n, entry, hn, hentry, -⟩ | huntouched
  · rw [hconsumer] at hin
    cases hin
  · exact .inl hsame
  · exact absurd (hall n entry hentry) (Nat.not_lt.2 hn)
  · exact .inr huntouched

/-! A ring of two slots. The cursor is taken before the first publication, two more lap it, and the rescan finds them
all. -/

def exampleRound (index revision : Nat) : List DirtyEvent :=
  [.openState ⟨index, revision⟩, .closeState, .openEntry, .closeEntry, .finish]

def exampleLapped : DirtyWorld :=
  (exec step (fun w e => w.few e = true) (start 1 2) ([.scan true, .scan true, .scan true] ++ exampleRound 0 1 ++
    exampleRound 1 5 ++ exampleRound 0 2 ++ [.poll true, .reread true, .reread true, .reread true])).get (by decide)

theorem dirty_ring_loses_nothing_example :
    exampleLapped.received = [(3, .rescan)] ∧ (exampleLapped.answer 3 true).2 = .idle ∧
      3 = exampleLapped.position ∧ ∀ index < exampleLapped.markets,
        exampleLapped.known index = exampleLapped.states index ∨ exampleLapped.Untouched 0 index := by
  have hrun : Run step (fun w e => w.few e = true) (start 1 2) exampleLapped := .of_exec _ (Option.some_get _).symm
  obtain ⟨-, hidle⟩ := dirty_ring_loses_nothing 1 2 hrun
  obtain ⟨hposition, -, hknown⟩ := hidle 3 0 true (by decide) (by decide) (by decide) (by decide)
  exact ⟨by decide, by decide, hposition, hknown⟩

end DirtyWorld

end PmWs
