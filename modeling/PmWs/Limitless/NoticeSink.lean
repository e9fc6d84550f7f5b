import PmWs.Lib.Runs
import PmWs.Limitless

/-!
# The notice sink

The bounded path from one connection to whoever runs it. A notice that finds
the queue full is dropped and counted, and the count and the word of a re-emit
wait for room ahead of every later notice. Each of the two waiting notes keeps
the stamp of its first occurrence, whatever it has taken in since.
-/

open MachineInt Runs

namespace PmWs

/-! ## The sink -/

structure ConnectionNotice where
  generation : Nat
  note : ConnectionNote

/-- An open bounded queue, oldest first. -/
structure NoticeQueue where
  capacity : Nat
  waiting : List ConnectionNotice

/-- A note that must be delivered and awaits room. -/
inductive Pending where
  | overload
  | resubscribed
  deriving DecidableEq, Repr

structure NoticeSink where
  notices : NoticeQueue
  generation : Nat
  dropped : Nat
  droppedAt : Option Nat
  resubscribed : Option Nat
  resubscribedAt : Option Nat
  sequence : Nat

namespace NoticeSink

def new (notices : NoticeQueue) (generation : Nat) : NoticeSink := ⟨notices, generation, 0, none, none, none, 0⟩

variable (self : NoticeSink)

def hasRoom : Bool := self.notices.waiting.length < self.notices.capacity

/-- Appends a note to the queue. -/
def enqueue (note : ConnectionNote) : NoticeSink :=
  { self with notices := { self.notices with waiting := self.notices.waiting ++ [⟨self.generation, note⟩] } }

/-- Whether the note went into the queue. The queue is open, so only a full one refuses it. -/
def send (note : ConnectionNote) : NoticeSink × Bool :=
  if self.hasRoom then (self.enqueue note, true) else (self, false)

/-- The next occurrence stamp. -/
def stamp : NoticeSink × Nat :=
  let sequence := saturatingAdd self.sequence 1
  ({ self with sequence }, sequence)

/-- The order pending notes must be delivered in. A slot holding nothing sorts last. -/
def pendingOrder : Pending × Pending :=
  if self.resubscribedAt.getD u64Max < self.droppedAt.getD u64Max then (.resubscribed, .overload)
  else (.overload, .resubscribed)

/-- Takes one pending note out of its slot. -/
def take : Pending → NoticeSink × Option ConnectionNote
  | .overload =>
    if self.dropped = 0 then (self, none)
    else ({ self with dropped := 0, droppedAt := none }, some (.overload self.dropped))
  | .resubscribed =>
    match self.resubscribed with
    | none => (self, none)
    | some subscription => ({ self with resubscribed := none, resubscribedAt := none }, some (.resubscribed subscription))

/-- Sends one pending note if its slot holds one, restoring the slot when the queue is full. -/
def flushOne (pending : Pending) : NoticeSink × Bool :=
  let restore := match pending with
    | .overload => (self.dropped, self.droppedAt)
    | .resubscribed => (0, self.resubscribedAt)
  let value := match pending with
    | .overload => none
    | .resubscribed => self.resubscribed
  match self.take pending with
  | (empty, none) => (empty, true)
  | (taken, some note) =>
    match taken.send note with
    | (sent, true) => (sent, true)
    | (full, false) =>
      (match pending with
        | .overload => { full with dropped := restore.1, droppedAt := restore.2 }
        | .resubscribed => { full with resubscribed := value, resubscribedAt := restore.2 }, false)

/-- Delivers every pending note, oldest first, up to the first that does not fit. Says whether none remains. -/
def flushPending : NoticeSink × Bool :=
  match self.flushOne self.pendingOrder.1 with
  | (flushed, true) => flushed.flushOne self.pendingOrder.2
  | (stuck, false) => (stuck, false)

/-- Counts one dropped notice. -/
def drop : NoticeSink :=
  let stamped := if self.dropped = 0 then { self.stamp.1 with droppedAt := some self.stamp.2 } else self
  { stamped with dropped := saturatingAdd stamped.dropped 1 }

/-- Hands over an ordinary notice without waiting. It never overtakes a pending note. -/
def offer (note : ConnectionNote) : NoticeSink :=
  match self.flushPending with
  | (flushed, true) =>
    match flushed.send note with
    | (sent, true) => sent
    | (full, false) => full.drop
  | (stuck, false) => stuck.drop

/-- Records that a re-emit reached the wire, and offers the word of it. -/
def offerResubscribed (subscription : Nat) : NoticeSink :=
  let stamped := if self.resubscribed = none then { self.stamp.1 with resubscribedAt := some self.stamp.2 } else self
  { stamped with resubscribed := some subscription }.flushPending.1

/-- Sends the oldest pending note into room reserved for it. -/
def deliver : NoticeSink :=
  match self.take self.pendingOrder.1 with
  | (taken, some note) => taken.enqueue note
  | (_, none) =>
    match self.take self.pendingOrder.2 with
    | (taken, some note) => taken.enqueue note
    | (empty, none) => empty

/-- Ends the connection. A loss that is still unreported after a last attempt replaces the reason. -/
def finish (reason : ConnectionEndReason) : ConnectionEndReason :=
  if 0 < self.flushPending.1.dropped then .noticeUndeliverable else reason

/-! ## What a flush does -/

/-- The word of the re-emit is the older pending note. -/
def ResubscribedFirst : Prop := self.resubscribedAt.getD u64Max < self.droppedAt.getD u64Max

/-- Pending notes going into the queue, each ahead of any older one. -/
inductive Flush : NoticeSink → List ConnectionNote → NoticeSink → Prop
  | done (s : NoticeSink) : Flush s [] s
  | next {s taken t : NoticeSink} {note : ConnectionNote} {rest : List ConnectionNote} (pending : Pending)
      (oldest : pending = .resubscribed → s.dropped = 0 ∨ s.ResubscribedFirst)
      (takes : s.take pending = (taken, some note)) (flush : Flush (taken.enqueue note) rest t) :
      Flush s (note :: rest) t

variable {s t u : NoticeSink}

theorem Flush.trans {first second : List ConnectionNote} (h₁ : Flush s first t) (h₂ : Flush t second u) :
    Flush s (first ++ second) u := by
  induction h₁ with
  | done s => exact h₂
  | next pending holdest htakes _ ih => exact .next pending holdest htakes (ih h₂)

/-- A slot is emptied into the queue, was empty already, or keeps its note for want of room. -/
theorem flushOne_cases (s : NoticeSink) (pending : Pending) :
    ((s.take pending).2 = none ∧ s.flushOne pending = (s, true)) ∨
      (∃ taken note, s.take pending = (taken, some note) ∧ s.flushOne pending = (taken.enqueue note, true)) ∨
      s.flushOne pending = (s, false) := by
  obtain ⟨notices, generation, dropped, droppedAt, resubscribed, resubscribedAt, sequence⟩ := s
  cases pending with
  | overload =>
    by_cases hzero : dropped = 0
    · exact .inl (by simp [flushOne, take, hzero])
    · by_cases hroom : notices.waiting.length < notices.capacity
      · refine .inr (.inl ⟨⟨notices, generation, 0, none, resubscribed, resubscribedAt, sequence⟩, .overload dropped,
          ?_, ?_⟩)
        · simp [take, hzero]
        · simp [flushOne, take, hzero, send, hasRoom, hroom]
      · exact .inr (.inr (by simp [flushOne, take, hzero, send, hasRoom, hroom]))
  | resubscribed =>
    cases resubscribed with
    | none => exact .inl (by simp [flushOne, take])
    | some subscription =>
      by_cases hroom : notices.waiting.length < notices.capacity
      · refine .inr (.inl ⟨⟨notices, generation, dropped, droppedAt, none, none, sequence⟩, .resubscribed subscription,
          rfl, ?_⟩)
        simp [flushOne, take, send, hasRoom, hroom]
      · exact .inr (.inr (by simp [flushOne, take, send, hasRoom, hroom]))

theorem take_empty {pending : Pending} : (s.take pending).2 = none ↔ match pending with
    | .overload => s.dropped = 0
    | .resubscribed => s.resubscribed = none := by
  cases pending with
  | overload =>
    simp only [take]
    split <;> simp [*]
  | resubscribed =>
    simp only [take]
    split <;> simp [*]

theorem take_idle {pending : Pending} {empty : NoticeSink} (h : s.take pending = (empty, none)) : s = empty := by
  cases pending with
  | overload =>
    simp only [take] at h
    split at h
    · exact congrArg Prod.fst h
    · cases h
  | resubscribed =>
    simp only [take] at h
    split at h
    · exact congrArg Prod.fst h
    · cases h

/-- Taking the note of one slot empties it and leaves the other. -/
theorem take_spec {pending : Pending} {taken : NoticeSink} {note : ConnectionNote}
    (h : s.take pending = (taken, some note)) : match pending with
      | .overload => 0 < s.dropped ∧ note = .overload s.dropped ∧ taken = { s with dropped := 0, droppedAt := none }
      | .resubscribed => ∃ subscription, s.resubscribed = some subscription ∧ note = .resubscribed subscription ∧
          taken = { s with resubscribed := none, resubscribedAt := none } := by
  cases pending with
  | overload =>
    simp only [take] at h
    split at h
    · cases h
    · cases h
      exact ⟨by omega, rfl, rfl⟩
  | resubscribed =>
    simp only [take] at h
    split at h
    · cases h
    · rename_i subscription hresubscribed
      cases h
      exact ⟨subscription, hresubscribed, rfl, rfl⟩

/-- A flush of one slot is a flush. -/
theorem flushOne_flush (s : NoticeSink) (pending : Pending)
    (holdest : pending = .resubscribed → s.dropped = 0 ∨ s.ResubscribedFirst) :
    ∃ sent, Flush s sent (s.flushOne pending).1 ∧
      ((s.flushOne pending).2 = true → ((s.flushOne pending).1.take pending).2 = none) := by
  rcases s.flushOne_cases pending with ⟨hempty, heq⟩ | ⟨taken, note, htakes, heq⟩ | heq
  · exact ⟨[], heq ▸ .done s, fun _ => heq ▸ hempty⟩
  · refine ⟨[note], heq ▸ .next pending holdest htakes (.done _), fun _ => ?_⟩
    rw [heq, take_empty]
    have hspec := take_spec htakes
    cases pending with
    | overload => simp [hspec.2.2, enqueue]
    | resubscribed =>
      obtain ⟨_, -, -, rfl⟩ := hspec
      rfl
  · exact ⟨[], heq ▸ .done s, fun h => by simp [heq] at h⟩

/-- A flush of one slot that goes through leaves the other slot alone. -/
theorem flushOne_other (s : NoticeSink) (pending : Pending) :
    (pending = .overload → (s.flushOne pending).1.resubscribed = s.resubscribed) ∧
      (pending = .resubscribed → (s.flushOne pending).1.dropped = s.dropped) := by
  rcases s.flushOne_cases pending with ⟨-, heq⟩ | ⟨taken, note, htakes, heq⟩ | heq
  · simp [heq]
  · have hspec := take_spec htakes
    cases pending with
    | overload => simp [heq, hspec.2.2, enqueue]
    | resubscribed =>
      obtain ⟨_, -, -, rfl⟩ := hspec
      simp [heq, enqueue]
  · simp [heq]

theorem flushPending_flush (s : NoticeSink) :
    ∃ sent, Flush s sent s.flushPending.1 ∧
      (s.flushPending.2 = true → s.flushPending.1.dropped = 0 ∧ s.flushPending.1.resubscribed = none) := by
  by_cases hfirst : s.ResubscribedFirst
  · have horder : s.pendingOrder = (.resubscribed, .overload) := if_pos hfirst
    obtain ⟨first, hflush, hdone⟩ := s.flushOne_flush .resubscribed fun _ => .inr hfirst
    unfold flushPending
    rw [horder]
    split
    · rename_i flushed heq
      simp only [heq] at hflush hdone
      obtain ⟨second, hflush', hdone'⟩ := flushed.flushOne_flush .overload fun h => by cases h
      refine ⟨first ++ second, hflush.trans hflush', fun htrue => ?_⟩
      have hother := (flushed.flushOne_other .overload).1 rfl
      exact ⟨take_empty.1 (hdone' htrue), hother.trans (take_empty.1 (hdone trivial))⟩
    · rename_i stuck heq
      simp only [heq] at hflush
      exact ⟨first, hflush, fun h => by cases h⟩
  · have horder : s.pendingOrder = (.overload, .resubscribed) := if_neg hfirst
    obtain ⟨first, hflush, hdone⟩ := s.flushOne_flush .overload fun h => by cases h
    unfold flushPending
    rw [horder]
    split
    · rename_i flushed heq
      simp only [heq] at hflush hdone
      have hzero : flushed.dropped = 0 := take_empty.1 (hdone trivial)
      obtain ⟨second, hflush', hdone'⟩ := flushed.flushOne_flush .resubscribed fun _ => .inl hzero
      refine ⟨first ++ second, hflush.trans hflush', fun htrue => ?_⟩
      have hother := (flushed.flushOne_other .resubscribed).2 rfl
      exact ⟨hother.trans hzero, take_empty.1 (hdone' htrue)⟩
    · rename_i stuck heq
      simp only [heq] at hflush
      exact ⟨first, hflush, fun h => by cases h⟩

theorem deliver_flush (s : NoticeSink) : ∃ sent, Flush s sent s.deliver := by
  unfold deliver
  split
  · rename_i taken note htakes
    refine ⟨[note], .next s.pendingOrder.1 ?_ htakes (.done _)⟩
    intro hpending
    by_cases hfirst : s.ResubscribedFirst
    · exact .inr hfirst
    · have horder : s.pendingOrder = (.overload, .resubscribed) := if_neg hfirst
      simp [horder] at hpending
  · rename_i empty hempty
    split
    · rename_i taken note htakes
      refine ⟨[note], .next s.pendingOrder.2 ?_ htakes (.done _)⟩
      intro hpending
      by_cases hfirst : s.ResubscribedFirst
      · exact .inr hfirst
      · -- the older slot held nothing
        have horder : s.pendingOrder = (.overload, .resubscribed) := if_neg hfirst
        rw [horder] at hempty
        exact .inl (take_empty.1 (congrArg Prod.snd hempty))
    · rename_i empty' hempty'
      exact ⟨[], take_idle hempty' ▸ .done s⟩

end NoticeSink

end PmWs
