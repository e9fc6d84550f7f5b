import PmWs.Lib.MachineInt
import PmWs.Lib.Versioned
import Mathlib.Data.List.Basic

/-!
# Reading a record under its sequence counter

A record's writer stores an odd counter, then each data word, then the next
even counter. `under_seqlock` loads the counter, copies the words one at a time
and accepts the copy if the counter reloads as it was. Every step below is one
sequentially consistent access of one word.
-/

open MachineInt Runs

namespace PmWs

variable {W : Type}

/-! ## The counter -/

/-- What a reader found when it opened a record. -/
inductive SeqOpen where
  | unpublished
  | inFlight (opened : Nat)
  | stable (opened : Nat)
  deriving DecidableEq, Repr

namespace SeqCell

def openRead (counter : Nat) : SeqOpen :=
  if counter = 0 then .unpublished else if counter % 2 = 1 then .inFlight counter else .stable counter

def closeRead (counter opened : Nat) : Bool := counter = opened

theorem openRead_stable {counter opened : Nat} (h : openRead counter = .stable opened) :
    opened = counter ∧ 0 < counter ∧ Even counter := by
  unfold openRead at h
  split at h
  · cases h
  · split at h
    · cases h
    · rename_i hzero hodd
      exact ⟨(SeqOpen.stable.inj h).symm, by omega, Nat.even_iff.2 (by omega)⟩

theorem openRead_unpublished {counter : Nat} (h : openRead counter = .unpublished) : counter = 0 := by
  unfold openRead at h
  split at h
  · assumption
  · split at h <;> cases h

end SeqCell

/-! ## `under_seqlock` -/

def maxReadAttempts : Nat := 64

inductive ReadFault where
  | writerStalled (slotRevision : Nat)
  | contended (attempts : Nat)
  deriving DecidableEq, Repr

/-- What one call remembers from attempt to attempt. -/
structure SeqTries where
  attempt : Nat
  stalledAt : Option Nat
  moved : Bool
  deriving DecidableEq, Repr

/-- Where a call stands. -/
inductive SeqRead (W : Type) where
  | opening (tries : SeqTries)
  | copying (tries : SeqTries) (opened : Nat) (copied : List W)
  | returned (result : Except ReadFault (Option (List W)))

namespace SeqTries

def first : SeqTries := ⟨0, none, false⟩

def noteInFlight (self : SeqTries) (opened : Nat) : SeqTries :=
  match self.stalledAt with
  | none => { self with stalledAt := some opened }
  | some seen => if seen ≠ opened then { self with moved := true } else self

def fault (self : SeqTries) : ReadFault :=
  match self.stalledAt, self.moved with
  | some slotRevision, false => .writerStalled slotRevision
  | _, _ => .contended maxReadAttempts

/-- The next attempt, or the fault after the last. -/
def again (self : SeqTries) : SeqRead W :=
  if self.attempt + 1 < maxReadAttempts then .opening { self with attempt := self.attempt + 1 }
  else .returned (.error self.fault)

@[simp] theorem noteInFlight_attempt (self : SeqTries) (opened : Nat) :
    (self.noteInFlight opened).attempt = self.attempt := by
  unfold noteInFlight
  split
  · rfl
  · split <;> rfl

end SeqTries

namespace SeqRead

/-- One access of a call: a load of the counter or of one word. A call that returned makes none. -/
def next (counter : Nat) (words : List W) : SeqRead W → Option (SeqRead W)
  | .opening tries =>
    some <| match SeqCell.openRead counter with
      | .unpublished => .returned (.ok none)
      | .inFlight opened => (tries.noteInFlight opened).again
      | .stable opened => .copying tries opened []
  | .copying tries opened copied =>
    some <| match words[copied.length]? with
      | some word => .copying tries opened (copied ++ [word])
      | none =>
        if SeqCell.closeRead counter opened then .returned (.ok (some copied)) else { tries with moved := true }.again
  | .returned _ => none

end SeqRead

/-! ## The record and its writer -/

/-- A publication in flight: its words, how many of them are stored, and the counter that will close it. -/
structure SeqWrite (W : Type) where
  publication : List W
  stored : Nat
  nextStable : Nat

/-- The words of one record, the call that reads it, and what no step reads: the completed publications in order and
how many attempts and accesses the call has made. -/
structure SeqWorld (W : Type) where
  counter : Nat
  words : List W
  writing : Option (SeqWrite W)
  reader : Option (SeqRead W)
  published : List (List W)
  attempts : Nat
  accesses : Nat

inductive SeqEvent (W : Type) where
  | openWrite (publication : List W)
  | store
  | closeWrite
  | call
  | read

namespace SeqWorld

/-- A record nothing has been published into, whatever its words are. -/
def fresh (words : List W) : SeqWorld W := ⟨0, words, none, none, [], 0, 0⟩

def openWrite (self : SeqWorld W) (publication : List W) : Option (SeqWorld W) :=
  if self.writing.isNone ∧ publication.length = self.words.length then
    (checkedAdd self.counter 1).bind fun inFlight => (checkedAdd self.counter 2).map fun nextStable =>
      { self with counter := inFlight, writing := some ⟨publication, 0, nextStable⟩ }
  else none

def store (self : SeqWorld W) : Option (SeqWorld W) :=
  self.writing.bind fun write => (write.publication[write.stored]?).map fun word =>
    { self with
      words := self.words.set write.stored word
      writing := some { write with stored := write.stored + 1 } }

def closeWrite (self : SeqWorld W) : Option (SeqWorld W) :=
  self.writing.bind fun write =>
    if write.stored = write.publication.length then
      some { self with
        counter := write.nextStable, writing := none, published := self.published ++ [write.publication] }
    else none

def call (self : SeqWorld W) : Option (SeqWorld W) :=
  if self.reader.isNone then some { self with reader := some (.opening .first), attempts := 0, accesses := 0 } else none

def read (self : SeqWorld W) : Option (SeqWorld W) :=
  self.reader.bind fun reading => (reading.next self.counter self.words).map fun next =>
    { self with
      reader := some next
      attempts := match reading with
        | .opening _ => self.attempts + 1
        | _ => self.attempts
      accesses := self.accesses + 1 }

def step (self : SeqWorld W) : SeqEvent W → Option (SeqWorld W)
  | .openWrite publication => self.openWrite publication
  | .store => self.store
  | .closeWrite => self.closeWrite
  | .call => self.call
  | .read => self.read

/-! ## The writer's discipline -/

/-- Between publications the words are the last one; within one, those stored are the new one's. -/
structure Sound (w : SeqWorld W) : Prop where
  between : w.writing = none → w.counter = 2 * w.published.length ∧ ∀ last, w.published.getLast? = some last → w.words = last
  within : ∀ write, w.writing = some write → w.counter = 2 * w.published.length + 1 ∧
    write.nextStable = w.counter + 1 ∧ write.publication.length = w.words.length ∧
    w.words.take write.stored = write.publication.take write.stored

variable {w w' : SeqWorld W}

theorem sound_fresh (words : List W) : (fresh words).Sound :=
  ⟨fun _ => ⟨rfl, nofun⟩, nofun⟩

theorem Sound.openWrite {publication : List W} (h : w.Sound) (hstep : w.openWrite publication = some w') :
    w'.Sound ∧ w'.counter = w.counter + 1 ∧ w'.words = w.words ∧ w.writing = none := by
  unfold SeqWorld.openWrite at hstep
  obtain ⟨⟨hnone, hlength⟩, hstep⟩ := Option.ite_none_right_eq_some.1 hstep
  obtain ⟨inFlight, hinFlight, hstep⟩ := Option.bind_eq_some_iff.1 hstep
  obtain ⟨nextStable, hnextStable, rfl⟩ := Option.map_eq_some_iff.1 hstep
  obtain ⟨-, rfl⟩ := checkedAdd_eq_some.1 hinFlight
  obtain ⟨-, rfl⟩ := checkedAdd_eq_some.1 hnextStable
  have hnone : w.writing = none := Option.isNone_iff_eq_none.1 hnone
  obtain ⟨hcounter, -⟩ := h.between hnone
  refine ⟨⟨nofun, ?_⟩, rfl, rfl, hnone⟩
  rintro write hwrite
  obtain rfl := Option.some.inj hwrite
  exact ⟨congrArg (· + 1) hcounter, rfl, hlength, rfl⟩

theorem Sound.store (h : w.Sound) (hstep : w.store = some w') :
    w'.Sound ∧ w'.counter = w.counter ∧ ¬ Even w.counter := by
  unfold SeqWorld.store at hstep
  obtain ⟨write, hwrite, hstep⟩ := Option.bind_eq_some_iff.1 hstep
  obtain ⟨word, hword, rfl⟩ := Option.map_eq_some_iff.1 hstep
  obtain ⟨hcounter, hnext, hlength, htaken⟩ := h.within write hwrite
  refine ⟨⟨nofun, ?_⟩, rfl, by rw [Nat.not_even_iff]; omega⟩
  rintro write' hwrite'
  obtain rfl := Option.some.inj hwrite'
  refine ⟨hcounter, hnext, by simpa using hlength, ?_⟩
  -- one more word is the new publication's
  obtain ⟨hlt, rfl⟩ := List.getElem?_eq_some_iff.1 hword
  have hlt' : write.stored < w.words.length := hlength ▸ hlt
  have hset : (w.words.set write.stored write.publication[write.stored]).take (write.stored + 1) =
      w.words.take write.stored ++ [write.publication[write.stored]] := by
    rw [List.take_add_one, List.take_set_of_le (Nat.le_refl _)]
    simp [hlt']
  dsimp only
  rw [hset, htaken, List.take_append_getElem]

theorem Sound.closeWrite (h : w.Sound) (hstep : w.closeWrite = some w') :
    w'.Sound ∧ w'.counter = w.counter + 1 ∧ w'.words = w.words := by
  unfold SeqWorld.closeWrite at hstep
  obtain ⟨write, hwrite, hstep⟩ := Option.bind_eq_some_iff.1 hstep
  obtain ⟨hstored, hstep⟩ := Option.ite_none_right_eq_some.1 hstep
  obtain rfl := Option.some.inj hstep
  obtain ⟨hcounter, hnext, hlength, htaken⟩ := h.within write hwrite
  refine ⟨⟨fun _ => ⟨?_, ?_⟩, nofun⟩, hnext, rfl⟩
  · simp only [List.length_append, List.length_singleton]
    omega
  · intro last hlast
    rw [List.getLast?_concat, Option.some.injEq] at hlast
    subst hlast
    rwa [hstored, List.take_length, hlength, List.take_length] at htaken

/-- The call writes nothing. -/
theorem call_record (hstep : w.call = some w') :
    w'.counter = w.counter ∧ w'.words = w.words ∧ w'.writing = w.writing ∧ w'.published = w.published := by
  unfold SeqWorld.call at hstep
  obtain ⟨-, hstep⟩ := Option.ite_none_right_eq_some.1 hstep
  obtain rfl := Option.some.inj hstep
  exact ⟨rfl, rfl, rfl, rfl⟩

theorem read_record (hstep : w.read = some w') :
    w'.counter = w.counter ∧ w'.words = w.words ∧ w'.writing = w.writing ∧ w'.published = w.published := by
  unfold SeqWorld.read at hstep
  obtain ⟨reading, -, hstep⟩ := Option.bind_eq_some_iff.1 hstep
  obtain ⟨next, -, rfl⟩ := Option.map_eq_some_iff.1 hstep
  exact ⟨rfl, rfl, rfl, rfl⟩

theorem Sound.of_record (h : w.Sound) (hsame : w'.counter = w.counter ∧ w'.words = w.words ∧ w'.writing = w.writing ∧
    w'.published = w.published) : w'.Sound := by
  obtain ⟨hcounter, hwords, hwriting, hpublished⟩ := hsame
  refine ⟨?_, ?_⟩
  · rw [hwriting, hcounter, hwords, hpublished]
    exact h.between
  · rw [hwriting, hcounter, hwords, hpublished]
    exact h.within

/-- The counter is a version of the words. -/
theorem discipline : Versioned.Discipline (step (W := W)) Sound counter words where
  keeps w event w' h hstep := by
    cases event with
    | openWrite publication => exact (h.openWrite hstep).1
    | store => exact (h.store hstep).1
    | closeWrite => exact (h.closeWrite hstep).1
    | call => exact h.of_record (call_record hstep)
    | read => exact h.of_record (read_record hstep)
  grows w event w' h hstep := by
    cases event with
    | openWrite publication => exact (h.openWrite hstep).2.1 ▸ Nat.le_succ _
    | store => exact (h.store hstep).2.1.ge
    | closeWrite => exact (h.closeWrite hstep).2.1 ▸ Nat.le_succ _
    | call => exact (call_record hstep).1.ge
    | read => exact (read_record hstep).1.ge
  still w event w' h hstep heven hsame := by
    cases event with
    | openWrite publication => exact (h.openWrite hstep).2.2.1
    | store => exact absurd heven (h.store hstep).2.2
    | closeWrite => exact (h.closeWrite hstep).2.2
    | call => exact (call_record hstep).2.1
    | read => exact (read_record hstep).2.1

theorem step_length {event : SeqEvent W} (h : w.Sound) (hstep : w.step event = some w') :
    w'.words.length = w.words.length := by
  cases event with
  | openWrite publication => rw [(h.openWrite hstep).2.2.1]
  | store =>
    obtain ⟨write, -, hstep⟩ := Option.bind_eq_some_iff.1 hstep
    obtain ⟨word, -, rfl⟩ := Option.map_eq_some_iff.1 hstep
    exact List.length_set
  | closeWrite => rw [(h.closeWrite hstep).2.2]
  | call => rw [(call_record hstep).2.1]
  | read => rw [(read_record hstep).2.1]

/-- A writer's step is none of the call's. -/
theorem step_reader {event : SeqEvent W} (hread : event ≠ .read) (hcall : event ≠ .call) (hstep : w.step event = some w') :
    w'.reader = w.reader ∧ w'.attempts = w.attempts ∧ w'.accesses = w.accesses := by
  cases event with
  | openWrite publication =>
    obtain ⟨-, hstep⟩ := Option.ite_none_right_eq_some.1 hstep
    obtain ⟨inFlight, -, hstep⟩ := Option.bind_eq_some_iff.1 hstep
    obtain ⟨nextStable, -, rfl⟩ := Option.map_eq_some_iff.1 hstep
    exact ⟨rfl, rfl, rfl⟩
  | store =>
    obtain ⟨write, -, hstep⟩ := Option.bind_eq_some_iff.1 hstep
    obtain ⟨word, -, rfl⟩ := Option.map_eq_some_iff.1 hstep
    exact ⟨rfl, rfl, rfl⟩
  | closeWrite =>
    obtain ⟨write, -, hstep⟩ := Option.bind_eq_some_iff.1 hstep
    obtain ⟨-, hstep⟩ := Option.ite_none_right_eq_some.1 hstep
    obtain rfl := Option.some.inj hstep
    exact ⟨rfl, rfl, rfl⟩
  | call => exact absurd rfl hcall
  | read => exact absurd rfl hread

/-! ## What a call has copied -/

/-- The record at an instant of the call whose counter opened the copy, and what was copied while it stood. -/
structure Copies (w₁ w : SeqWorld W) (opened : Nat) (copied : List W) (u : SeqWorld W) : Prop where
  since : Run step (fun _ _ => True) w₁ u
  until_now : Run step (fun _ _ => True) u w
  counter : u.counter = opened
  even : Even opened
  positive : 0 < opened
  copied : w.counter = opened → copied = u.words.take copied.length

/-- While the call copies, it copies one instant's record or will see the counter moved. -/
def Copying (w₁ w : SeqWorld W) : Prop :=
  ∀ tries opened copied, w.reader = some (.copying tries opened copied) → ∃ u, Copies w₁ w opened copied u

variable {w₁ u : SeqWorld W} {opened : Nat} {copied : List W}

theorem Copies.sound (h : Copies w₁ w opened copied u) (hw₁ : w₁.Sound) : u.Sound := discipline.keeps_run h.since hw₁

/-- Where the counter still stands, so do the words. -/
theorem Copies.words (h : Copies w₁ w opened copied u) (hw₁ : w₁.Sound) (hsame : w.counter = opened) :
    w.words = u.words :=
  discipline.still_run h.until_now (h.sound hw₁) (h.counter ▸ h.even) (hsame.trans h.counter.symm)

/-- Steps between two loads keep what was copied. -/
theorem Copies.tail {event : SeqEvent W} (h : Copies w₁ w opened copied u) (hw₁ : w₁.Sound)
    (hstep : w.step event = some w') : Copies w₁ w' opened copied u where
  since := h.since
  until_now := .tail h.until_now trivial hstep
  counter := h.counter
  even := h.even
  positive := h.positive
  copied hsame := by
    have hu := h.sound hw₁
    have hbefore : u.counter ≤ w.counter := discipline.grows_run h.until_now hu
    have hafter : w.counter ≤ w'.counter := discipline.grows _ _ _ (discipline.keeps_run h.until_now hu) hstep
    have hopened := h.counter
    exact h.copied (by omega)

/-- A stable record is the last publication that was completed. -/
theorem Sound.stable (h : u.Sound) (heven : Even u.counter) (hpositive : 0 < u.counter) :
    u.published.getLast? = some u.words := by
  have hnone : u.writing = none := by
    cases hwriting : u.writing with
    | none => rfl
    | some write =>
      obtain ⟨hcounter, -⟩ := h.within write hwriting
      rw [Nat.even_iff] at heven
      omega
  obtain ⟨hcounter, hlast⟩ := h.between hnone
  cases hpublished : u.published.getLast? with
  | none =>
    rw [List.getLast?_eq_none_iff] at hpublished
    simp only [hpublished, List.length_nil] at hcounter
    omega
  | some last => rw [hlast last hpublished]

theorem Copying.step {event : SeqEvent W} (h : Copying w₁ w) (hw₁ : w₁.Sound)
    (hrun : Run SeqWorld.step (fun _ _ => True) w₁ w) (hstep : w.step event = some w') : Copying w₁ w' := by
  intro tries opened copied hreader
  -- a step of the writer, or one of the call
  by_cases hread : event = .read
  · subst hread
    have hrecord := read_record hstep
    obtain ⟨reading, hreading, hmove⟩ := Option.bind_eq_some_iff.1 hstep
    obtain ⟨next, hnext, rfl⟩ := Option.map_eq_some_iff.1 hmove
    obtain rfl := Option.some.inj hreader
    cases reading with
    | opening tries' =>
      have hopen := Option.some.inj hnext
      cases hcounter : SeqCell.openRead w.counter with
      | unpublished => simp [hcounter] at hopen
      | inFlight opened' =>
        simp only [hcounter, SeqTries.again] at hopen
        split at hopen <;> cases hopen
      | stable opened' =>
        simp only [hcounter, SeqRead.copying.injEq] at hopen
        obtain ⟨rfl, rfl, rfl⟩ := hopen
        obtain ⟨rfl, hpositive, heven⟩ := SeqCell.openRead_stable hcounter
        exact ⟨w, hrun, .tail (.refl w) trivial hstep, rfl, heven, hpositive, fun _ => rfl⟩
    | copying tries' opened' copied' =>
      have hcopy := Option.some.inj hnext
      cases hword : w.words[copied'.length]? with
      | none =>
        simp only [hword, SeqTries.again] at hcopy
        split at hcopy
        · cases hcopy
        · split at hcopy <;> cases hcopy
      | some word =>
        simp only [hword, SeqRead.copying.injEq] at hcopy
        obtain ⟨rfl, rfl, rfl⟩ := hcopy
        obtain ⟨u, hcopies⟩ := h _ _ _ hreading
        refine ⟨u, { hcopies.tail hw₁ hstep with copied := ?_ }⟩
        intro hsame
        -- the word just loaded is that instant's
        have hsame : w.counter = opened' := hsame
        rw [hcopies.words hw₁ hsame] at hword
        rw [List.length_append, List.length_singleton, List.take_add_one, ← hcopies.copied hsame, hword]
        rfl
    | returned result => cases hnext
  · by_cases hcall : event = .call
    · subst hcall
      obtain ⟨-, hmove⟩ := Option.ite_none_right_eq_some.1 hstep
      obtain rfl := Option.some.inj hmove
      cases hreader
    · rw [(step_reader hread hcall hstep).1] at hreader
      obtain ⟨u, hcopies⟩ := h _ _ _ hreader
      exact ⟨u, hcopies.tail hw₁ hstep⟩

/-! ## How long a call takes -/

/-- An attempt makes two loads of the counter and one of each word, and there are at most `maxReadAttempts`. -/
def Paced (n : Nat) (w : SeqWorld W) : Prop :=
  match w.reader with
  | none => False
  | some (.opening tries) => tries.attempt < maxReadAttempts ∧ w.attempts = tries.attempt ∧
      w.accesses ≤ tries.attempt * (n + 2)
  | some (.copying tries _ copied) => tries.attempt < maxReadAttempts ∧ w.attempts = tries.attempt + 1 ∧
      copied.length ≤ n ∧ w.accesses ≤ tries.attempt * (n + 2) + 1 + copied.length
  | some (.returned result) => w.attempts ≤ maxReadAttempts ∧ w.accesses ≤ maxReadAttempts * (n + 2) ∧
      ∀ fault, result = .error fault → w.attempts = maxReadAttempts

/-- One load of a call, as far as its pace goes. -/
theorem Paced.read {n : Nat} (h : Paced n w) (hn : w.words.length = n) (hstep : w.read = some w') : Paced n w' := by
  obtain ⟨reading, hreading, hmove⟩ := Option.bind_eq_some_iff.1 hstep
  obtain ⟨next, hnext, rfl⟩ := Option.map_eq_some_iff.1 hmove
  -- the next attempt after `tries`, when it has made `made` accesses so far
  have hagain (tries : SeqTries) (attempts made : Nat) (hlt : tries.attempt < maxReadAttempts)
      (hattempts : attempts = tries.attempt + 1) (hmade : made ≤ (tries.attempt + 1) * (n + 2)) :
      Paced n { w with reader := some tries.again, attempts := attempts, accesses := made } := by
    unfold SeqTries.again Paced
    by_cases hmore : tries.attempt + 1 < maxReadAttempts
    · simp only [if_pos hmore]
      exact ⟨hmore, hattempts, hmade⟩
    · simp only [if_neg hmore]
      have hlast : tries.attempt + 1 = maxReadAttempts := by omega
      exact ⟨by omega, hlast ▸ hmade, fun _ _ => hattempts.trans hlast⟩
  unfold Paced at h
  rw [hreading] at h
  cases reading with
  | opening tries =>
    obtain ⟨hlt, hattempts, haccesses⟩ := h
    have hmade : w.accesses + 1 ≤ (tries.attempt + 1) * (n + 2) := by
      rw [Nat.add_mul]
      omega
    obtain rfl := Option.some.inj hnext
    dsimp only
    cases hopen : SeqCell.openRead w.counter with
    | unpublished =>
      have hall : (tries.attempt + 1) * (n + 2) ≤ maxReadAttempts * (n + 2) := Nat.mul_le_mul_right _ hlt
      exact ⟨by rw [hattempts]; exact hlt, by dsimp only; omega, nofun⟩
    | inFlight opened =>
      refine hagain (tries.noteInFlight opened) _ _ ?_ ?_ ?_
      · simpa using hlt
      · simpa using hattempts
      · simpa using hmade
    | stable opened =>
      refine ⟨hlt, congrArg (· + 1) hattempts, Nat.zero_le _, ?_⟩
      simpa using haccesses
  | copying tries opened copied =>
    obtain ⟨hlt, hattempts, hlength, haccesses⟩ := h
    obtain rfl := Option.some.inj hnext
    dsimp only
    cases hword : w.words[copied.length]? with
    | some word =>
      have hmore : copied.length < w.words.length := (List.getElem?_eq_some_iff.1 hword).1
      refine ⟨hlt, hattempts, ?_, ?_⟩
      · rw [List.length_append, List.length_singleton]
        omega
      · rw [List.length_append, List.length_singleton]
        dsimp only
        omega
    | none =>
      have hmade : w.accesses + 1 ≤ (tries.attempt + 1) * (n + 2) := by
        rw [Nat.add_mul]
        omega
      dsimp only
      split
      · have hall : (tries.attempt + 1) * (n + 2) ≤ maxReadAttempts * (n + 2) := Nat.mul_le_mul_right _ hlt
        exact ⟨by dsimp only; omega, by dsimp only; omega, nofun⟩
      · exact hagain { tries with moved := true } _ _ hlt hattempts hmade
  | returned result => cases hnext

theorem Paced.step {n : Nat} {event : SeqEvent W} (h : Paced n w) (hn : w.words.length = n)
    (hstep : w.step event = some w') : Paced n w' := by
  by_cases hread : event = .read
  · subst hread
    exact h.read hn hstep
  · by_cases hcall : event = .call
    · subst hcall
      obtain ⟨hnone, -⟩ := Option.ite_none_right_eq_some.1 hstep
      unfold Paced at h
      rw [Option.isNone_iff_eq_none.1 hnone] at h
      exact h.elim
    · obtain ⟨hreader, hattempts, haccesses⟩ := step_reader hread hcall hstep
      unfold Paced
      rw [hreader, hattempts, haccesses]
      exact h

theorem Paced.bounds {n : Nat} (h : Paced n w) :
    w.attempts ≤ maxReadAttempts ∧ w.accesses ≤ maxReadAttempts * (n + 2) := by
  have hmul {k : Nat} (hk : k < maxReadAttempts) : k * (n + 2) + (n + 2) ≤ maxReadAttempts * (n + 2) := by
    rw [← Nat.succ_mul]
    exact Nat.mul_le_mul_right _ hk
  unfold Paced at h
  split at h
  · exact h.elim
  · obtain ⟨hlt, hattempts, haccesses⟩ := h
    have := hmul hlt
    omega
  · obtain ⟨hlt, hattempts, hlength, haccesses⟩ := h
    have := hmul hlt
    omega
  · exact ⟨h.1, h.2.1⟩

/-- A call that has not returned makes its next access whatever the writer does. -/
theorem read_enabled {reading : SeqRead W} (hreader : w.reader = some reading)
    (hrunning : ∀ result, reading ≠ .returned result) : ∃ w', w.step .read = some w' := by
  cases reading with
  | opening tries => exact ⟨_, by simp only [SeqWorld.step, SeqWorld.read, hreader]; rfl⟩
  | copying tries opened copied => exact ⟨_, by simp only [SeqWorld.step, SeqWorld.read, hreader]; rfl⟩
  | returned result => exact absurd rfl (hrunning result)

/-! ## Acceptance -/

/-- A copy is the last publication completed at an instant `u` of the call. -/
def Answers (w₁ w w' : SeqWorld W) : Except ReadFault (Option (List W)) → Prop
  | .ok (some copy) => ∃ u, Run step (fun _ _ => True) w₁ u ∧ Run step (fun _ _ => True) u w ∧
      u.published.getLast? = some copy
  | .ok none => ∃ u, Run step (fun _ _ => True) w₁ u ∧ Run step (fun _ _ => True) u w ∧
      u.published = [] ∧ u.writing = none
  | .error _ => w'.attempts = maxReadAttempts

/-- The load that ends a call, and what it answers. -/
theorem Copying.answers {result : Except ReadFault (Option (List W))} (h : Copying w₁ w) (hw₁ : w₁.Sound)
    (hrun : Run SeqWorld.step (fun _ _ => True) w₁ w) {n : Nat} (hpaced : Paced n w') (hstep : w.read = some w')
    (hresult : w'.reader = some (.returned result)) : Answers w₁ w w' result := by
  unfold Paced at hpaced
  rw [hresult] at hpaced
  obtain ⟨-, -, herror⟩ := hpaced
  obtain ⟨reading, hreading, hmove⟩ := Option.bind_eq_some_iff.1 hstep
  obtain ⟨next, hnext, rfl⟩ := Option.map_eq_some_iff.1 hmove
  obtain rfl := Option.some.inj hresult
  cases result with
  | error fault => exact herror fault rfl
  | ok copy =>
    cases reading with
    | opening tries =>
      have hopen := Option.some.inj hnext
      cases hcounter : SeqCell.openRead w.counter with
      | unpublished =>
        simp only [hcounter, SeqRead.returned.injEq, Except.ok.injEq] at hopen
        subst hopen
        -- a counter that was never moved
        have hzero := SeqCell.openRead_unpublished hcounter
        have hsound := discipline.keeps_run hrun hw₁
        refine ⟨w, hrun, .refl w, ?_, ?_⟩
        · cases hwriting : w.writing with
          | none =>
            obtain ⟨hcount, -⟩ := hsound.between hwriting
            exact List.length_eq_zero_iff.1 (by omega)
          | some write =>
            obtain ⟨hcount, -⟩ := hsound.within write hwriting
            omega
        · cases hwriting : w.writing with
          | none => rfl
          | some write =>
            obtain ⟨hcount, -⟩ := hsound.within write hwriting
            omega
      | inFlight opened =>
        simp only [hcounter, SeqTries.again] at hopen
        split at hopen <;> cases hopen
      | stable opened => simp [hcounter] at hopen
    | copying tries opened copied =>
      have hcopy := Option.some.inj hnext
      cases hword : w.words[copied.length]? with
      | some word => simp [hword] at hcopy
      | none =>
        simp only [hword, SeqTries.again] at hcopy
        split at hcopy
        · rename_i hclose
          simp only [SeqRead.returned.injEq, Except.ok.injEq] at hcopy
          subst hcopy
          obtain ⟨u, hcopies⟩ := h _ _ _ hreading
          have hsame : w.counter = opened := of_decide_eq_true hclose
          have hall : u.words.length ≤ copied.length := by
            rw [← hcopies.words hw₁ hsame]
            exact List.getElem?_eq_none_iff.1 hword
          refine ⟨u, hcopies.since, hcopies.until_now, ?_⟩
          rw [hcopies.copied hsame, List.take_of_length_le hall]
          exact (hcopies.sound hw₁).stable (hcopies.counter ▸ hcopies.even) (hcopies.counter ▸ hcopies.positive)
        · split at hcopy <;> cases hcopy
    | returned result => cases hnext

/-- Over a record of any number of words and any publications, however the writer's stores and the call's loads
interleave: a call returns within its attempts, each of which makes its accesses whatever the writer does. A copy it
returns is one completed publication, the last one at some instant of the call, and it returns none only if nothing had
been begun at some instant of it. -/
theorem seqlock_acceptance (words : List W) {w₀ w₁ w : SeqWorld W}
    (hbefore : Run step (fun _ _ => True) (fresh words) w₀) (hcall : w₀.step .call = some w₁)
    (hrun : Run step (fun _ _ => True) w₁ w) :
    (w.attempts ≤ maxReadAttempts ∧ w.accesses ≤ maxReadAttempts * (words.length + 2)) ∧
    (∀ reading, w.reader = some reading → (∀ result, reading ≠ .returned result) → ∃ w', w.step .read = some w') ∧
    ∀ w' result, w.step .read = some w' → w'.reader = some (.returned result) → Answers w₁ w w' result := by
  have hw₀ := discipline.keeps_run hbefore (sound_fresh words)
  have hw₁ := discipline.keeps _ _ _ hw₀ hcall
  have hlength : w₁.words.length = words.length := by
    refine (step_length hw₀ hcall).trans ?_
    exact (hbefore.inv (I := fun v => v.Sound ∧ v.words.length = words.length)
      (fun _ _ _ hv _ hstep => ⟨discipline.keeps _ _ _ hv.1 hstep, (step_length hv.1 hstep).trans hv.2⟩)
      ⟨sound_fresh words, rfl⟩).2
  obtain ⟨-, hbegun⟩ := Option.ite_none_right_eq_some.1 hcall
  -- the three invariants of the call, from its start on
  have hfirst : Copying w₁ w₁ ∧ Paced words.length w₁ := by
    rw [← Option.some.inj hbegun]
    exact ⟨nofun, by decide, rfl, Nat.zero_le _⟩
  obtain ⟨-, -, hlen, hcopying, hpaced⟩ := hrun.inv
    (I := fun v => Run step (fun _ _ => True) w₁ v ∧ v.Sound ∧ v.words.length = words.length ∧ Copying w₁ v ∧
      Paced words.length v)
    (fun v event v' hv _ hstep => ⟨.tail hv.1 trivial hstep, discipline.keeps _ _ _ hv.2.1 hstep,
      (step_length hv.2.1 hstep).trans hv.2.2.1, hv.2.2.2.1.step hw₁ hv.1 hstep, hv.2.2.2.2.step hv.2.2.1 hstep⟩)
    ⟨.refl w₁, hw₁, hlength, hfirst⟩
  refine ⟨hpaced.bounds, fun reading hreader hrunning => read_enabled hreader hrunning, ?_⟩
  intro w' result hstep hresult
  exact hcopying.answers hw₁ hrun (hpaced.step hlen hstep) hstep hresult

/-! A publication begins while the first attempt copies the one before it, and the second attempt copies it whole. -/

def exampleBefore : SeqWorld Nat :=
  (exec step (fun _ _ => True) (fresh [0, 0]) [.openWrite [1, 2], .store, .store, .closeWrite]).get (by decide)

def exampleCalled : SeqWorld Nat := (exampleBefore.step .call).get (by decide)

def exampleCopied : SeqWorld Nat :=
  (exec step (fun _ _ => True) exampleCalled [.read, .read, .openWrite [3, 4], .store, .read, .store, .closeWrite, .read,
    .read, .read, .read]).get (by decide)

def exampleAccepted : SeqWorld Nat := (exampleCopied.step .read).get (by decide)

theorem seqlock_acceptance_example :
    exampleAccepted.attempts = 2 ∧ exampleAccepted.reader = some (.returned (.ok (some [3, 4]))) ∧
      Answers exampleCalled exampleCopied exampleAccepted (.ok (some [3, 4])) := by
  have hbefore : Run step (fun _ _ => True) (fresh [0, 0]) exampleBefore := .of_exec _ (Option.some_get _).symm
  have hcall : exampleBefore.step .call = some exampleCalled := (Option.some_get _).symm
  have hrun : Run step (fun _ _ => True) exampleCalled exampleCopied := .of_exec _ (Option.some_get _).symm
  obtain ⟨-, -, hanswers⟩ := seqlock_acceptance [0, 0] hbefore hcall hrun
  exact ⟨by decide, rfl, hanswers exampleAccepted _ (Option.some_get _).symm rfl⟩

end SeqWorld

end PmWs
