import Mathlib.Logic.Relation
import PmWs.Limitless.NoticeSink

/-!
# What passes through a notice sink

Every ordinary notice is numbered as it is offered. What goes into the queue is
logged with those numbers: a notice with its own, an overload with those of the
notices it stands for, the word of a re-emit with how many notices had been
offered when it was announced. Read in order the log, and after it the drops
that still wait, is every number once.
-/

open MachineInt Runs

namespace PmWs

/-- What went into the queue. -/
inductive Handed where
  | ordinary (number : Nat)
  | overload (numbers : List Nat)
  | resubscribed (subscription asked : Nat)
  deriving DecidableEq, Repr

/-- The offered notices an entry accounts for. -/
def Handed.numbers : Handed → List Nat
  | ordinary number => [number]
  | overload numbers => numbers
  | resubscribed _ _ => []

@[simp] theorem Handed.numbers_ordinary (number : Nat) : (ordinary number).numbers = [number] := rfl

@[simp] theorem Handed.numbers_overload (numbers : List Nat) : (overload numbers).numbers = numbers := rfl

@[simp] theorem Handed.numbers_resubscribed (subscription asked : Nat) : (resubscribed subscription asked).numbers = [] :=
  rfl

/-- The note an entry went into the queue as, given the notices offered. -/
def Handed.note (offered : List ConnectionNote) : Handed → Option ConnectionNote
  | ordinary number => offered[number]?
  | overload numbers => some (.overload (min numbers.length u64Max))
  | resubscribed subscription _ => some (.resubscribed subscription)

/-- A sink with what was read from its queue, and the history that nothing in it reads: the notices offered so far, the
re-emits announced (with the number of notices offered before), the drops no overload accounts for, and the log. -/
structure NoticeTraffic where
  sink : NoticeSink
  received : List ConnectionNotice
  offered : List ConnectionNote
  announced : List (Nat × Nat)
  missed : List Nat
  log : List Handed

/-- Ordinary notices are the ones a connection offers for a frame it read. -/
def ConnectionNote.isOrdinary : ConnectionNote → Bool
  | heartbeat _ | event _ _ _ | decodeFailure _ => true
  | ready _ _ _ | resubscribed _ | overload _ => false

inductive TrafficEvent where
  | offer (note : ConnectionNote)
  | offerResubscribed (subscription : Nat)
  | flushPending
  | deliver
  | receive

namespace NoticeTraffic

def start (capacity generation : Nat) : NoticeTraffic := ⟨.new ⟨capacity, []⟩ generation, [], [], [], [], []⟩

/-- How many notices had been offered when the last re-emit was announced. -/
def asked (self : NoticeTraffic) : Nat := (self.announced.getLast?.map (·.2)).getD 0

/-- Logs one note that went into the queue. An ordinary one is the notice being offered. -/
def hand (self : NoticeTraffic) (note : ConnectionNote) : NoticeTraffic :=
  match note with
  | .overload _ => { self with log := self.log ++ [.overload self.missed], missed := [] }
  | .resubscribed subscription => { self with log := self.log ++ [.resubscribed subscription self.asked] }
  | _ => { self with log := self.log ++ [.ordinary self.offered.length] }

/-- The sink moved on: what it put into the queue is logged. -/
def follow (self : NoticeTraffic) (sink : NoticeSink) : NoticeTraffic :=
  { ((sink.notices.waiting.drop self.sink.notices.waiting.length).map (·.note)).foldl hand self with sink }

def step (self : NoticeTraffic) : TrafficEvent → Option NoticeTraffic
  | .offer note =>
    if note.isOrdinary then
      let next := self.follow (self.sink.offer note)
      some { next with
        offered := self.offered ++ [note]
        missed := if next.sink.dropped = 0 then next.missed else next.missed ++ [self.offered.length] }
    else none
  | .offerResubscribed subscription =>
    some ({ self with announced := self.announced ++ [(subscription, self.offered.length)] }.follow
      (self.sink.offerResubscribed subscription))
  | .flushPending => some (self.follow self.sink.flushPending.1)
  | .deliver => if self.sink.hasRoom then some (self.follow self.sink.deliver) else none
  | .receive =>
    match self.sink.notices.waiting with
    | [] => none
    | notice :: waiting =>
      some { self with
        sink := { self.sink with notices := { self.sink.notices with waiting } }, received := self.received ++ [notice] }

/-- Everything that went into the queue, read or not. -/
def enqueued (self : NoticeTraffic) : List ConnectionNotice := self.received ++ self.sink.notices.waiting

def accounted (self : NoticeTraffic) : List Nat := self.log.flatMap (·.numbers)

/-! ## Single moves -/

/-- What a step of the traffic is made of. `ok` restricts when a re-emit is announced. -/
inductive Move (ok : NoticeTraffic → Nat → Prop) (w : NoticeTraffic) : NoticeTraffic → Prop
  | hand {taken : NoticeSink} {note : ConnectionNote} (pending : Pending)
      (oldest : pending = .resubscribed → w.sink.dropped = 0 ∨ w.sink.ResubscribedFirst)
      (takes : w.sink.take pending = (taken, some note)) : Move ok w { w.hand note with sink := taken.enqueue note }
  | accept {note : ConnectionNote} (ordinary : note.isOrdinary = true) (reported : w.sink.dropped = 0)
      (told : w.sink.resubscribed = none) :
      Move ok w { w with
        sink := w.sink.enqueue note, offered := w.offered ++ [note], log := w.log ++ [.ordinary w.offered.length] }
  | drop {note : ConnectionNote} (ordinary : note.isOrdinary = true) :
      Move ok w { w with
        sink := w.sink.drop, offered := w.offered ++ [note], missed := w.missed ++ [w.offered.length] }
  | announce {subscription : Nat} (allowed : ok w subscription) :
      Move ok w { w with
        sink := { (if w.sink.resubscribed = none then { w.sink.stamp.1 with resubscribedAt := some w.sink.stamp.2 }
          else w.sink) with resubscribed := some subscription }
        announced := w.announced ++ [(subscription, w.offered.length)] }
  | receive {notice : ConnectionNotice} {waiting : List ConnectionNotice}
      (oldest : w.sink.notices.waiting = notice :: waiting) :
      Move ok w { w with
        sink := { w.sink with notices := { w.sink.notices with waiting } }, received := w.received ++ [notice] }

abbrev Moves (ok : NoticeTraffic → Nat → Prop) : NoticeTraffic → NoticeTraffic → Prop := Relation.ReflTransGen (Move ok)

variable {ok : NoticeTraffic → Nat → Prop} {w w' : NoticeTraffic} {s t : NoticeSink} {sent : List ConnectionNote}
  {log : List Handed} {i k d j : Nat} {entry : Handed}

theorem foldl_hand_sink (notes : List ConnectionNote) (w : NoticeTraffic) (sink : NoticeSink) :
    { notes.foldl hand { w with sink } with sink := w.sink } = notes.foldl hand w := by
  induction notes generalizing w with
  | nil => rfl
  | cons note rest ih =>
    have hhand : ({ w with sink } : NoticeTraffic).hand note = { w.hand note with sink } := by
      cases note <;> rfl
    have hsink : (w.hand note).sink = w.sink := by
      cases note <;> rfl
    simp only [List.foldl_cons, hhand, ← hsink]
    exact ih (w.hand note)

/-- A flush is a sequence of moves. -/
theorem Flush.moves (h : NoticeSink.Flush s sent t) (hs : w.sink = s) :
    Moves ok w { sent.foldl hand w with sink := t } := by
  induction h generalizing w with
  | done s =>
    subst hs
    exact .refl
  | @next s taken t note rest pending holdest htakes _ ih =>
    subst hs
    refine .head (.hand pending holdest htakes) ?_
    have hrest := ih (w := { w.hand note with sink := taken.enqueue note }) rfl
    have hsame := foldl_hand_sink rest (w.hand note) (taken.enqueue note)
    have heq : { rest.foldl hand { w.hand note with sink := taken.enqueue note } with sink := t } =
        ({ rest.foldl hand (w.hand note) with sink := t } : NoticeTraffic) := by
      rw [← hsame]
    rwa [heq] at hrest

theorem flush_waiting (h : NoticeSink.Flush s sent t) :
    t.notices.waiting = s.notices.waiting ++ sent.map (⟨s.generation, ·⟩) ∧ t.generation = s.generation := by
  induction h with
  | done s => simp
  | @next s taken t note rest pending holdest htakes _ ih =>
    have htaken : taken.notices = s.notices ∧ taken.generation = s.generation := by
      have hspec := NoticeSink.take_spec htakes
      cases pending with
      | overload =>
        obtain ⟨-, -, rfl⟩ := hspec
        exact ⟨rfl, rfl⟩
      | resubscribed =>
        obtain ⟨_, -, -, rfl⟩ := hspec
        exact ⟨rfl, rfl⟩
    simpa [NoticeSink.enqueue, htaken.1, htaken.2] using ih

/-- Following a sink logs exactly what it appended. -/
theorem follow_eq {notes : List ConnectionNote}
    (h : t.notices.waiting = w.sink.notices.waiting ++ notes.map (⟨w.sink.generation, ·⟩)) :
    w.follow t = { notes.foldl hand w with sink := t } := by
  have hnotes : (notes.map (ConnectionNotice.mk w.sink.generation)).map (·.note) = notes := by
    simp [Function.comp_def]
  unfold follow
  rw [h, List.drop_left, hnotes]

/-- What is logged depends on the queue alone. -/
theorem follow_sink (hs : s.notices = w.sink.notices) : ({ w with sink := s } : NoticeTraffic).follow t = w.follow t := by
  have hsame := foldl_hand_sink ((t.notices.waiting.drop w.sink.notices.waiting.length).map (·.note)) w s
  unfold follow
  rw [hs, ← hsame]

theorem flush_follow (h : NoticeSink.Flush w.sink sent t) : Moves ok w (w.follow t) :=
  follow_eq (flush_waiting h).1 ▸ Flush.moves h rfl

theorem hand_ordinary {note : ConnectionNote} (h : note.isOrdinary = true) (w : NoticeTraffic) :
    w.hand note = { w with log := w.log ++ [.ordinary w.offered.length] } := by
  cases note <;> first | rfl | cases h

theorem foldl_hand_offered (notes : List ConnectionNote) (w : NoticeTraffic) :
    (notes.foldl hand w).offered = w.offered := by
  induction notes generalizing w with
  | nil => rfl
  | cons note rest ih =>
    have hhand : (w.hand note).offered = w.offered := by
      cases note <;> rfl
    exact (ih _).trans hhand

theorem drop_dropped (s : NoticeSink) : s.drop.dropped ≠ 0 := by
  simp only [NoticeSink.drop, saturatingAdd, u64Max]
  omega

theorem drop_waiting (s : NoticeSink) : s.drop.notices = s.notices := by
  unfold NoticeSink.drop
  dsimp only
  split <;> rfl

/-- An offered notice goes into the queue when nothing waits ahead of it and there is room, and is dropped otherwise. -/
theorem offer_moves {note : ConnectionNote} (hordinary : note.isOrdinary = true) (hstep : w.step (.offer note) = some w') :
    Moves ok w w' := by
  simp only [step, hordinary, if_true, Option.some.injEq] at hstep
  obtain ⟨sent, hflush, hdone⟩ := w.sink.flushPending_flush
  obtain ⟨hwaiting, hgeneration⟩ := flush_waiting hflush
  have hmoves : Moves ok w { sent.foldl hand w with sink := w.sink.flushPending.1 } := Flush.moves hflush rfl
  have hoffered := foldl_hand_offered sent w
  -- what happens to the notice after the flush
  have hdropped {flushed : NoticeSink} (hflushed : w.sink.flushPending.1 = flushed)
      (hoffer : w.sink.offer note = flushed.drop) : Moves ok w w' := by
    rw [hflushed] at hmoves hwaiting
    have hfollow : w.follow flushed.drop = { sent.foldl hand w with sink := flushed.drop } :=
      follow_eq (by rw [drop_waiting, hwaiting])
    have hnonzero := drop_dropped flushed
    refine hmoves.tail ?_
    have hmove : Move ok { sent.foldl hand w with sink := flushed } _ := .drop hordinary
    rw [hoffer, hfollow] at hstep
    simp only [hnonzero, if_false] at hstep
    rw [← hstep, ← hoffered]
    exact hmove
  unfold NoticeSink.offer at hdropped
  cases hpending : w.sink.flushPending with
  | mk flushed clear =>
    cases clear with
    | false => exact hdropped (by rw [hpending]) (by simp [hpending])
    | true =>
      cases hroom : flushed.hasRoom with
      | false => exact hdropped (by rw [hpending]) (by simp [hpending, NoticeSink.send, hroom])
      | true =>
        have hoffer : w.sink.offer note = flushed.enqueue note := by
          simp [NoticeSink.offer, hpending, NoticeSink.send, hroom]
        simp only [hpending] at hmoves hwaiting hgeneration hdone
        obtain ⟨hreported, htold⟩ := hdone trivial
        have hfollow : w.follow (flushed.enqueue note) = { (sent ++ [note]).foldl hand w with sink := flushed.enqueue note } :=
          follow_eq (by simp [NoticeSink.enqueue, hwaiting, hgeneration])
        refine hmoves.tail ?_
        have hmove : Move ok { sent.foldl hand w with sink := flushed } _ := .accept hordinary hreported htold
        rw [hoffer, hfollow, List.foldl_append, List.foldl_cons, List.foldl_nil, hand_ordinary hordinary] at hstep
        have hzero : (flushed.enqueue note).dropped = 0 := hreported
        simp only [hzero, if_true] at hstep
        rw [← hstep, ← hoffered]
        exact hmove

theorem step_moves {e : TrafficEvent} (hstep : w.step e = some w')
    (hok : ∀ subscription, e = .offerResubscribed subscription → ok w subscription) : Moves ok w w' := by
  cases e with
  | offer note =>
    cases hordinary : note.isOrdinary with
    | true => exact offer_moves hordinary hstep
    | false => simp [step, hordinary] at hstep
  | offerResubscribed subscription =>
    cases Option.some.inj hstep
    refine .head (.announce (hok subscription rfl)) ?_
    unfold NoticeSink.offerResubscribed
    dsimp only
    generalize hnoted : ({ (if w.sink.resubscribed = none then
      { w.sink.stamp.1 with resubscribedAt := some w.sink.stamp.2 } else w.sink) with
        resubscribed := some subscription } : NoticeSink) = noted
    have hnotices : noted.notices = w.sink.notices := by
      rw [← hnoted]
      dsimp only
      split <;> rfl
    obtain ⟨sent, hflush, -⟩ := noted.flushPending_flush
    have hsame := follow_sink (w := { w with announced := w.announced ++ [(subscription, w.offered.length)] })
      (t := noted.flushPending.1) hnotices
    rw [← hsame]
    exact flush_follow hflush
  | flushPending =>
    cases Option.some.inj hstep
    obtain ⟨sent, hflush, -⟩ := w.sink.flushPending_flush
    exact flush_follow hflush
  | deliver =>
    obtain ⟨-, hstep⟩ := Option.ite_none_right_eq_some.1 hstep
    cases Option.some.inj hstep
    obtain ⟨sent, hflush⟩ := w.sink.deliver_flush
    exact flush_follow hflush
  | receive =>
    simp only [step] at hstep
    split at hstep
    · cases hstep
    · rename_i notice waiting hwaiting
      cases Option.some.inj hstep
      exact .single (.receive hwaiting)

/-! ## The books balance -/

/-- The queue holds, and gave out, what the log says. -/
def Logged (offered : List ConnectionNote) (notices : List ConnectionNotice) (log : List Handed) : Prop :=
  notices.map (fun notice => some notice.note) = log.map (Handed.note offered)

theorem Logged.push {offered : List ConnectionNote} {notices : List ConnectionNotice}
    (h : Logged offered notices log) {notice : ConnectionNotice}
    (hentry : entry.note offered = some notice.note) : Logged offered (notices ++ [notice]) (log ++ [entry]) := by
  unfold Logged at h ⊢
  simp [h, hentry]

/-- The log accounts for every offered notice but the drops that wait, and the sink's counter is their number. -/
structure Balanced (w : NoticeTraffic) : Prop where
  numbers : w.accounted ++ w.missed = List.range w.offered.length
  dropped : w.sink.dropped = min w.missed.length u64Max
  notes : Logged w.offered w.enqueued w.log
  asked : w.asked ≤ w.offered.length

theorem Balanced.missed_nil (h : w.Balanced) (hzero : w.sink.dropped = 0) : w.missed = [] := by
  have hdropped := h.dropped
  rw [← List.length_eq_zero_iff]
  simp only [u64Max] at hdropped
  omega

theorem Balanced.accounted_length (h : w.Balanced) : w.accounted.length + w.missed.length = w.offered.length := by
  simpa using congrArg List.length h.numbers

theorem Balanced.ordinary_lt (h : w.Balanced) (hk : Handed.ordinary k ∈ w.log) : k < w.offered.length := by
  have hmem : k ∈ w.accounted ++ w.missed :=
    List.mem_append_left _ (List.mem_flatMap.2 ⟨_, hk, List.mem_singleton.2 rfl⟩)
  rwa [h.numbers, List.mem_range] at hmem

/-- Entries keep their notes when more notices are offered. -/
theorem Balanced.notes_offered (h : w.Balanced) (note : ConnectionNote) :
    Logged (w.offered ++ [note]) w.enqueued w.log := by
  refine Eq.trans h.notes (List.map_congr_left fun entry hentry => ?_)
  cases entry with
  | ordinary number => exact (List.getElem?_append_left (h.ordinary_lt hentry)).symm
  | overload numbers => rfl
  | resubscribed subscription asked => rfl

theorem drop_count (s : NoticeSink) : s.drop.dropped = saturatingAdd s.dropped 1 := by
  unfold NoticeSink.drop
  dsimp only
  split <;> rfl

theorem Balanced.move (h : w.Balanced) (hmove : Move ok w w') : w'.Balanced := by
  have hnumbers := h.numbers
  simp only [accounted] at hnumbers
  cases hmove with
  | hand pending _ htakes =>
    have hspec := NoticeSink.take_spec htakes
    cases pending with
    | overload =>
      obtain ⟨-, rfl, rfl⟩ := hspec
      refine ⟨?_, ?_, ?_, h.asked⟩
      · simpa [accounted, hand] using hnumbers
      · simp [hand, NoticeSink.enqueue]
      · have hpush : Logged w.offered (w.enqueued ++ [⟨w.sink.generation, .overload w.sink.dropped⟩])
            (w.log ++ [.overload w.missed]) := h.notes.push (by simp [Handed.note, h.dropped])
        simpa [enqueued, hand, NoticeSink.enqueue] using hpush
    | resubscribed =>
      obtain ⟨subscription, -, rfl, rfl⟩ := hspec
      refine ⟨?_, h.dropped, ?_, h.asked⟩
      · simpa [accounted, hand] using hnumbers
      · have hpush : Logged w.offered (w.enqueued ++ [⟨w.sink.generation, .resubscribed subscription⟩])
            (w.log ++ [.resubscribed subscription w.asked]) := h.notes.push rfl
        simpa [enqueued, hand, NoticeSink.enqueue] using hpush
  | @accept note hordinary hreported htold =>
    have hmissed := h.missed_nil hreported
    refine ⟨?_, h.dropped, ?_, ?_⟩
    · rw [hmissed, List.append_nil] at hnumbers
      simp [accounted, hnumbers, hmissed, List.range_succ]
    · have hpush : Logged (w.offered ++ [note]) (w.enqueued ++ [⟨w.sink.generation, note⟩])
          (w.log ++ [.ordinary w.offered.length]) := (h.notes_offered note).push (by simp [Handed.note])
      simpa [enqueued, NoticeSink.enqueue] using hpush
    · exact h.asked.trans (by simp)
  | @drop note hordinary =>
    refine ⟨?_, ?_, ?_, ?_⟩
    · simp [accounted, ← List.append_assoc, hnumbers, List.range_succ]
    · simp only [drop_count, h.dropped, saturatingAdd_min, List.length_append, List.length_singleton]
    · have hoffered := h.notes_offered note
      simpa [enqueued, drop_waiting] using hoffered
    · exact h.asked.trans (by simp)
  | announce hallowed =>
    refine ⟨h.numbers, ?_, ?_, ?_⟩
    · dsimp only
      split <;> exact h.dropped
    · have hnotes := h.notes
      simp only [enqueued] at hnotes ⊢
      split <;> exact hnotes
    · simp [NoticeTraffic.asked]
  | receive holdest =>
    refine ⟨h.numbers, h.dropped, ?_, h.asked⟩
    have hnotes := h.notes
    simp only [enqueued, holdest] at hnotes ⊢
    simpa using hnotes

/-! ## The order of the log -/

/-- The numbers of a log that counts up stand at their own places. -/
theorem number_place {rest : List Nat} {n : Nat}
    (h : log.flatMap (·.numbers) ++ rest = List.range n) (hi : log[i]? = some entry) (hd : d ∈ entry.numbers) :
    ((log.take i).flatMap (·.numbers)).length ≤ d ∧ d < ((log.take (i + 1)).flatMap (·.numbers)).length := by
  obtain ⟨hlt, rfl⟩ := List.getElem?_eq_some_iff.1 hi
  obtain ⟨j, hj, rfl⟩ := List.getElem_of_mem hd
  have hsplit : log = log.take i ++ log[i] :: log.drop (i + 1) := by
    rw [List.cons_getElem_drop_succ, List.take_append_drop]
  have hflat : log.flatMap (·.numbers) =
      (log.take i).flatMap (·.numbers) ++ (log[i].numbers ++ (log.drop (i + 1)).flatMap (·.numbers)) := by
    conv_lhs => rw [hsplit]
    rw [List.flatMap_append, List.flatMap_cons]
  have hplace : (List.range n)[((log.take i).flatMap (·.numbers)).length + j]? = some (log[i].numbers[j]) := by
    rw [← h, hflat, List.append_assoc, List.getElem?_append_right (Nat.le_add_right _ _), Nat.add_sub_cancel_left,
      List.append_assoc, List.getElem?_append_left hj, List.getElem?_eq_getElem hj]
  have hvalue := (List.getElem?_eq_some_iff.1 hplace).2
  rw [List.getElem_range] at hvalue
  rw [List.take_succ_eq_append_getElem hlt, List.flatMap_append]
  simp only [List.flatMap_cons, List.flatMap_nil, List.append_nil, List.length_append]
  omega

theorem prefix_length_mono (h : i ≤ j) :
    ((log.take i).flatMap (·.numbers)).length ≤ ((log.take j).flatMap (·.numbers)).length := by
  have hsplit : log.take j = log.take i ++ (log.drop i).take (j - i) := by
    rw [← List.take_add, Nat.add_sub_cancel' h]
  rw [hsplit, List.flatMap_append, List.length_append]
  exact Nat.le_add_right _ _

theorem prefix_length_le (log : List Handed) (i : Nat) :
    ((log.take i).flatMap (·.numbers)).length ≤ (log.flatMap (·.numbers)).length := by
  have hmono : ((log.take i).flatMap (·.numbers)).length ≤ ((log.take (max i log.length)).flatMap (·.numbers)).length :=
    prefix_length_mono (Nat.le_max_left _ _)
  rwa [List.take_of_length_le (Nat.le_max_right _ _)] at hmono

/-- Of two entries, the one that accounts for the later notice stands later. -/
theorem Balanced.place_lt (h : w.Balanced) {early late : Handed} (hi : w.log[i]? = some early)
    (hj : w.log[j]? = some late) (hd : d ∈ early.numbers) (hk : k ∈ late.numbers) (hlt : d < k) : i ≤ j := by
  by_contra hji
  have hplace := (number_place h.numbers hi hd).1
  have hplace' := (number_place h.numbers hj hk).2
  have hmono : ((w.log.take (j + 1)).flatMap (·.numbers)).length ≤ ((w.log.take i).flatMap (·.numbers)).length :=
    prefix_length_mono (Nat.lt_of_not_le hji)
  omega

/-- A waiting drop was offered after everything the log accounts for. -/
theorem Balanced.missed_ge (h : w.Balanced) (hd : d ∈ w.missed) : w.accounted.length ≤ d := by
  obtain ⟨j, hj, rfl⟩ := List.getElem_of_mem hd
  have hplace : (List.range w.offered.length)[w.accounted.length + j]? = some w.missed[j] := by
    rw [← h.numbers, List.getElem?_append_right (Nat.le_add_right _ _), Nat.add_sub_cancel_left,
      List.getElem?_eq_getElem hj]
  have hvalue := (List.getElem?_eq_some_iff.1 hplace).2
  rw [List.getElem_range] at hvalue
  omega

theorem getElem?_push {α : Type*} {l : List α} {x y : α} (h : (l ++ [x])[i]? = some y) :
    l[i]? = some y ∨ (i = l.length ∧ y = x) := by
  rcases Nat.lt_or_ge i l.length with hlt | hge
  · exact .inl (by rwa [List.getElem?_append_left hlt] at h)
  · rw [List.getElem?_append_right hge] at h
    obtain ⟨hlt, heq⟩ := List.getElem?_eq_some_iff.1 h
    simp only [List.length_singleton] at hlt
    exact .inr ⟨by omega, by simpa using heq.symm⟩

/-! ## Announcements -/

/-- The announcements never count down. -/
def Upwards (w : NoticeTraffic) : Prop := w.announced.Pairwise (·.1 ≤ ·.1)

/-- The word of a re-emit announced after `n` notices is in the log ahead of every later notice, or still waits. -/
def Told (w : NoticeTraffic) (subscription n : Nat) : Prop :=
  (∃ j g asked : Nat, w.log[j]? = some (Handed.resubscribed g asked) ∧ subscription ≤ g ∧
      ∀ i k : Nat, w.log[i]? = some (Handed.ordinary k) → n ≤ k → j < i) ∨
    ((∃ g, w.sink.resubscribed = some g ∧ subscription ≤ g) ∧ ∀ k, Handed.ordinary k ∈ w.log → k < n)

/-- An entry that is no notice, or comes when nothing waits, keeps every announcement ahead. -/
theorem Told.push {subscription n : Nat} (h : w.Told subscription n) (hlog : w'.log = w.log ++ [entry])
    (hpending : (∀ k, entry ≠ .ordinary k) ∧
        ((∃ g asked, entry = .resubscribed g asked ∧ w.sink.resubscribed = some g) ∨
          w'.sink.resubscribed = w.sink.resubscribed) ∨ w.sink.resubscribed = none) :
    w'.Told subscription n := by
  rcases h with ⟨j, g, asked, hj, hle, hahead⟩ | ⟨⟨g, hg, hle⟩, hbefore⟩
  · have hlt : j < w.log.length := (List.getElem?_eq_some_iff.1 hj).1
    refine .inl ⟨j, g, asked, ?_, hle, fun i k hi hk => ?_⟩
    · rw [hlog, List.getElem?_append_left hlt, hj]
    · rw [hlog] at hi
      rcases getElem?_push hi with hi | ⟨rfl, -⟩
      · exact hahead i k hi hk
      · exact hlt
  · rcases hpending with ⟨hentry, ⟨g', asked, rfl, hg'⟩ | hsame⟩ | hnone
    · -- the waiting word goes into the log itself
      obtain rfl : g' = g := Option.some.inj (hg'.symm.trans hg)
      refine .inl ⟨w.log.length, g', asked, by simp [hlog], hle, fun i k hi hk => ?_⟩
      rw [hlog] at hi
      rcases getElem?_push hi with hi | ⟨-, heq⟩
      · exact absurd (hbefore k (List.mem_of_getElem? hi)) (Nat.not_lt_of_le hk)
      · cases heq
    · refine .inr ⟨⟨g, hsame ▸ hg, hle⟩, fun k hk => ?_⟩
      rw [hlog, List.mem_append, List.mem_singleton] at hk
      exact hbefore k (hk.resolve_right fun heq => hentry k heq.symm)
    · simp [hnone] at hg

theorem drop_resubscribed (s : NoticeSink) : s.drop.resubscribed = s.resubscribed := by
  unfold NoticeSink.drop
  dsimp only
  split <;> rfl

theorem told_move (hbalanced : w.Balanced) (h : w.Upwards → ∀ call ∈ w.announced, w.Told call.1 call.2)
    (hmove : Move ok w w') : w'.Upwards → ∀ call ∈ w'.announced, w'.Told call.1 call.2 := by
  intro hupwards
  cases hmove with
  | hand pending _ htakes =>
    have hspec := NoticeSink.take_spec htakes
    cases pending with
    | overload =>
      obtain ⟨-, rfl, rfl⟩ := hspec
      exact fun call hcall => (h hupwards call hcall).push rfl (.inl ⟨nofun, .inr rfl⟩)
    | resubscribed =>
      obtain ⟨g, hg, rfl, rfl⟩ := hspec
      exact fun call hcall => (h hupwards call hcall).push rfl (.inl ⟨nofun, .inl ⟨g, w.asked, rfl, hg⟩⟩)
  | accept hordinary hreported htold => exact fun call hcall => (h hupwards call hcall).push rfl (.inr htold)
  | drop hordinary =>
    intro call hcall
    have htold := h hupwards call hcall
    simp only [Told, drop_resubscribed] at htold ⊢
    exact htold
  | announce hallowed =>
    intro call hcall
    obtain ⟨hearlier, -, hlast⟩ := List.pairwise_append.1 hupwards
    rcases List.mem_append.1 hcall with hold | hnew
    · rcases h hearlier call hold with hlogged | ⟨-, hbefore⟩
      · exact .inl hlogged
      · exact .inr ⟨⟨_, rfl, hlast call hold _ (List.mem_singleton.2 rfl)⟩, hbefore⟩
    · obtain rfl := List.mem_singleton.1 hnew
      exact .inr ⟨⟨_, rfl, Nat.le_refl _⟩, fun k hk => hbalanced.ordinary_lt hk⟩
  | receive holdest => exact h hupwards

/-! ## Every drop is reported -/

/-- How many drops a note stands for. -/
def lost : ConnectionNote → Nat
  | .overload dropped => dropped
  | _ => 0

/-- What holds of a sink after every run: the log accounts for each offered notice once, in their order. -/
structure Accounts (w : NoticeTraffic) : Prop where
  balanced : w.Balanced
  ordinary : ∀ note ∈ w.offered, note.isOrdinary = true
  told : w.Upwards → ∀ call ∈ w.announced, w.Told call.1 call.2

theorem Accounts.move (h : w.Accounts) (hmove : Move ok w w') : w'.Accounts := by
  refine ⟨h.balanced.move hmove, ?_, told_move h.balanced h.told hmove⟩
  have hpush {note : ConnectionNote} (hnote : note.isOrdinary = true) :
      ∀ n ∈ w.offered ++ [note], n.isOrdinary = true := by
    intro n hn
    rcases List.mem_append.1 hn with hn | hn
    · exact h.ordinary n hn
    · exact List.mem_singleton.1 hn ▸ hnote
  cases hmove with
  | @hand taken note pending _ _ =>
    cases note <;> exact h.ordinary
  | accept hordinary _ _ => exact hpush hordinary
  | drop hordinary => exact hpush hordinary
  | announce _ => exact h.ordinary
  | receive _ => exact h.ordinary

/-- What every move keeps, every sequence of moves keeps. -/
theorem Moves.inv {I : NoticeTraffic → Prop} (hmove : ∀ {w w'}, I w → Move ok w w' → I w') (h : Moves ok w w')
    (hw : I w) : I w' := by
  induction h with
  | refl => exact hw
  | tail _ hlast ih => exact hmove ih hlast

theorem start_balanced (capacity generation : Nat) : (start capacity generation).Balanced :=
  ⟨rfl, rfl, rfl, Nat.le_refl _⟩

theorem start_accounts (capacity generation : Nat) : (start capacity generation).Accounts :=
  ⟨start_balanced capacity generation, nofun, nofun⟩

theorem run_accounts {capacity generation : Nat} (hrun : Run step (fun _ _ => True) (start capacity generation) w) :
    w.Accounts := by
  refine hrun.inv (fun v e v' h _ hmove => ?_) (start_accounts capacity generation)
  have hmoves : Moves (fun _ _ => True) v v' := step_moves hmove fun _ _ => trivial
  exact hmoves.inv Accounts.move h

/-- Each notice in the queue, and each drop an overload in it counts, is one number of the log. -/
theorem Logged.total {offered : List ConnectionNote} {notices : List ConnectionNotice}
    (h : Logged offered notices log) (hordinary : ∀ note ∈ offered, note.isOrdinary = true)
    (hfit : ∀ numbers, Handed.overload numbers ∈ log → numbers.length ≤ u64Max) :
    notices.countP (·.note.isOrdinary) + (notices.map (lost ·.note)).sum = (log.flatMap (·.numbers)).length := by
  induction log generalizing notices with
  | nil =>
    obtain rfl : notices = [] := List.map_eq_nil_iff.1 h
    rfl
  | cons entry log ih =>
    obtain ⟨notice, rest, rfl, hnote, hrest⟩ := List.map_eq_cons_iff.1 h
    have hcount := ih hrest fun numbers hmem => hfit numbers (List.mem_cons_of_mem _ hmem)
    rw [List.countP_cons, List.map_cons, List.sum_cons, List.flatMap_cons, List.length_append, ← hcount]
    cases entry with
    | ordinary number =>
      have hkind := hordinary notice.note (List.mem_of_getElem? hnote.symm)
      have hlost : lost notice.note = 0 := by
        cases hn : notice.note <;> simp_all [lost, ConnectionNote.isOrdinary]
      simp only [hkind, hlost, if_true, Handed.numbers_ordinary, List.length_singleton]
      omega
    | overload numbers =>
      have hlength := hfit numbers (List.mem_cons_self ..)
      have hlost : notice.note = .overload numbers.length := by
        rw [Option.some.inj hnote, Nat.min_eq_left hlength]
      simp only [hlost, lost, ConnectionNote.isOrdinary, Handed.numbers_overload, Bool.false_eq_true, if_false]
      omega
    | resubscribed subscription asked =>
      have hlost : notice.note = .resubscribed subscription := Option.some.inj hnote
      simp only [hlost, lost, ConnectionNote.isOrdinary, Handed.numbers_resubscribed, Bool.false_eq_true, if_false,
        List.length_nil]
      omega

/-- No drop is hidden. Its count is capped, as every counter of the sink is. -/
structure DropsReported (w : NoticeTraffic) : Prop where
  /-- Each offered notice is accounted for once: as itself, in one overload, or among the drops that wait. -/
  once : w.accounted ++ w.missed = List.range w.offered.length
  notes : w.enqueued.map (fun notice => some notice.note) = w.log.map (Handed.note w.offered)
  dropped : w.sink.dropped = min w.missed.length u64Max
  total : (∀ numbers, Handed.overload numbers ∈ w.log → numbers.length ≤ u64Max) → w.missed.length ≤ u64Max →
    w.offered.length =
      w.enqueued.countP (·.note.isOrdinary) + (w.enqueued.map (lost ·.note)).sum + w.sink.dropped
  /-- No later notice goes into the queue ahead of the overload that counts a drop. -/
  ordered : ∀ (i j k d : Nat) (numbers : List Nat), w.log[i]? = some (Handed.ordinary k) →
    w.log[j]? = some (Handed.overload numbers) → d ∈ numbers → d < k → j < i
  waiting : ∀ d ∈ w.missed, ∀ k, Handed.ordinary k ∈ w.log → k < d
  /-- Nor ahead of the word of a re-emit that was announced before it was offered. -/
  told : w.Upwards → ∀ call ∈ w.announced, ∀ i k : Nat, w.log[i]? = some (Handed.ordinary k) → call.2 ≤ k →
    ∃ j g asked, j < i ∧ w.log[j]? = some (Handed.resubscribed g asked) ∧ call.1 ≤ g
  finished : ∀ w', w.step .flushPending = some w' → ∀ reason,
    w.sink.finish reason = if w'.missed = [] then reason else .noticeUndeliverable

theorem Accounts.total (h : w.Accounts) (hfit : ∀ numbers, Handed.overload numbers ∈ w.log → numbers.length ≤ u64Max)
    (hmissed : w.missed.length ≤ u64Max) :
    w.offered.length =
      w.enqueued.countP (·.note.isOrdinary) + (w.enqueued.map (lost ·.note)).sum + w.sink.dropped := by
  have htotal := h.balanced.notes.total h.ordinary hfit
  have hlength := h.balanced.accounted_length
  rw [htotal, h.balanced.dropped, Nat.min_eq_left hmissed]
  exact hlength.symm

theorem Balanced.overload_lt (h : w.Balanced) {numbers : List Nat}
    (hi : w.log[i]? = some (.ordinary k)) (hj : w.log[j]? = some (.overload numbers)) (hd : d ∈ numbers)
    (hlt : d < k) : j < i := by
  refine Nat.lt_of_le_of_ne (h.place_lt hj hi hd (List.mem_singleton.2 rfl) hlt) fun heq => ?_
  subst heq
  simp [hi] at hj

theorem Balanced.ordinary_lt_missed (h : w.Balanced) (hk : Handed.ordinary k ∈ w.log)
    (hd : d ∈ w.missed) : k < d := by
  obtain ⟨i, hi⟩ := List.getElem?_of_mem hk
  have hplace := (number_place h.numbers hi (List.mem_singleton.2 rfl)).2
  have hall := prefix_length_le w.log (i + 1)
  exact Nat.lt_of_lt_of_le (Nat.lt_of_lt_of_le hplace hall) (h.missed_ge hd)

theorem Accounts.told_before (h : w.Accounts) (hupwards : w.Upwards) {call : Nat × Nat}
    (hcall : call ∈ w.announced) (hi : w.log[i]? = some (.ordinary k)) (hk : call.2 ≤ k) :
    ∃ j g asked, j < i ∧ w.log[j]? = some (Handed.resubscribed g asked) ∧ call.1 ≤ g := by
  rcases h.told hupwards call hcall with ⟨j, g, asked, hj, hle, hahead⟩ | ⟨-, hbefore⟩
  · exact ⟨j, g, asked, hahead i k hi hk, hj, hle⟩
  · exact absurd (hbefore k (List.mem_of_getElem? hi)) (Nat.not_lt_of_le hk)

/-- The reason a connection ends with is replaced when a drop stays unreported after a last flush. -/
theorem Accounts.finished (h : w.Accounts) (hstep : w.step .flushPending = some w') (reason : ConnectionEndReason) :
    w.sink.finish reason = if w'.missed = [] then reason else .noticeUndeliverable := by
  have hmoves : Moves (fun _ _ => True) w w' := step_moves hstep fun _ _ => trivial
  have hdropped := (hmoves.inv Accounts.move h).balanced.dropped
  cases Option.some.inj hstep
  have hsink : (w.follow w.sink.flushPending.1).sink = w.sink.flushPending.1 := rfl
  rw [hsink] at hdropped
  unfold NoticeSink.finish
  rw [hdropped]
  generalize (w.follow w.sink.flushPending.1).missed = missed
  cases missed with
  | nil => rfl
  | cons d rest => simp [u64Max]

/-- In every run, whatever the capacity. -/
theorem drops_are_reported {capacity generation : Nat}
    (hrun : Run step (fun _ _ => True) (start capacity generation) w) : w.DropsReported := by
  have h := run_accounts hrun
  have hbalanced := h.balanced
  exact ⟨hbalanced.numbers, hbalanced.notes, hbalanced.dropped, h.total,
    fun _ _ _ _ _ hi hj hd hlt => hbalanced.overload_lt hi hj hd hlt,
    fun _ hd _ hk => hbalanced.ordinary_lt_missed hk hd,
    fun hupwards _ hcall _ _ hi hk => h.told_before hupwards hcall hi hk,
    fun _ hstep => h.finished hstep⟩

/-- Two drops, a re-emit announced while they wait, and a reader that catches up. -/
def exampleTraffic : NoticeTraffic :=
  (exec step (fun _ _ => True) (start 1 7)
    [.offer (.heartbeat 0), .offer (.heartbeat 1), .offer (.heartbeat 2), .offerResubscribed 4, .receive, .flushPending,
      .receive, .deliver, .receive, .offer (.heartbeat 3)]).get (by decide)

theorem drops_are_reported_example :
    exampleTraffic.log = [.ordinary 0, .overload [1, 2], .resubscribed 4 3, .ordinary 3] ∧
      exampleTraffic.DropsReported :=
  ⟨by decide, drops_are_reported (Run.of_exec _ (Option.some_get _).symm)⟩

/-- One notice waits in a queue with room for no other, and `n` more were offered. -/
def flooded (n : Nat) : NoticeTraffic where
  sink := ⟨⟨1, [⟨7, .heartbeat 0⟩]⟩, 7, min n u64Max, if n = 0 then none else some 1, none, none, if n = 0 then 0 else 1⟩
  received := []
  offered := List.replicate (n + 1) (.heartbeat 0)
  announced := []
  missed := List.range' 1 n
  log := [.ordinary 0]

theorem flooded_step (n : Nat) : (flooded n).step (.offer (.heartbeat 0)) = some (flooded (n + 1)) := by
  have hoffer : (flooded n).sink.offer (.heartbeat 0) = (flooded n).sink.drop := by
    cases n with
    | zero => rfl
    | succ n =>
      have hnonzero : min (n + 1) u64Max ≠ 0 := by
        simp only [u64Max]
        omega
      simp [flooded, NoticeSink.offer, NoticeSink.flushPending, NoticeSink.pendingOrder, NoticeSink.flushOne,
        NoticeSink.take, NoticeSink.send, NoticeSink.hasRoom, u64Max]
  have hdrop : (flooded n).sink.drop = (flooded (n + 1)).sink := by
    cases n with
    | zero => rfl
    | succ n =>
      have hnonzero : min (n + 1) u64Max ≠ 0 := by
        simp only [u64Max]
        omega
      simp [flooded, NoticeSink.drop, hnonzero, saturatingAdd_min]
  rw [hdrop] at hoffer
  have hfollow : (flooded n).follow (flooded (n + 1)).sink = { flooded n with sink := (flooded (n + 1)).sink } := rfl
  have hcounted : (flooded (n + 1)).sink.dropped ≠ 0 := by
    simp only [flooded, u64Max]
    omega
  unfold step
  simp only [hoffer, hfollow, hcounted, ConnectionNote.isOrdinary, if_true, if_false]
  have hmissed : List.range' 1 (n + 1) = List.range' 1 n ++ [n + 1] := by
    rw [List.range'_concat, Nat.one_mul, Nat.add_comm]
  simp [flooded, List.replicate_succ', hmissed]

theorem flooded_run (n : Nat) : Run step (fun _ _ => True) (start 1 7) (flooded n) := by
  induction n with
  | zero => exact .tail (e := .offer (.heartbeat 0)) (.refl _) trivial rfl
  | succ n ih => exact .tail ih trivial (flooded_step n)

/-- Generation 3 is announced while the word of generation 5 waits, and takes its place. -/
def exampleCountedDown : NoticeTraffic :=
  (exec step (fun _ _ => True) (start 1 7)
    [.offer (.heartbeat 0), .offerResubscribed 5, .offerResubscribed 3, .receive, .flushPending, .receive,
      .offer (.heartbeat 1)]).get (by decide)

/-- A drop past the counter's last value is not counted any more, and announcements that count down lose one. -/
theorem drops_are_undercounted :
    (Run step (fun _ _ => True) (start 1 7) (flooded (u64Max + 1)) ∧ (flooded (u64Max + 1)).offered.length = u64Max + 2 ∧
      (flooded (u64Max + 1)).enqueued.countP (·.note.isOrdinary) +
        ((flooded (u64Max + 1)).enqueued.map (lost ·.note)).sum + (flooded (u64Max + 1)).sink.dropped = u64Max + 1) ∧
    Run step (fun _ _ => True) (start 1 7) exampleCountedDown ∧ exampleCountedDown.announced = [(5, 1), (3, 1)] ∧
      exampleCountedDown.log = [.ordinary 0, .resubscribed 3 1, .ordinary 1] := by
  refine ⟨⟨flooded_run _, List.length_replicate, ?_⟩, .of_exec _ (Option.some_get _).symm, by decide, by decide⟩
  simp [flooded, enqueued, lost, ConnectionNote.isOrdinary, Nat.add_comm]

end NoticeTraffic

end PmWs
