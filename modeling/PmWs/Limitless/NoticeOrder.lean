import PmWs.Limitless.NoticeTraffic

/-!
# The order of the pending notes

A pending note is stamped when its slot fills, and the older stamp goes first.
A re-emit announced while the word of an earlier one waits takes that one's
stamp, so it can go ahead of a loss that happened before it.
-/

open MachineInt Runs

namespace PmWs

namespace NoticeTraffic

variable {w w' : NoticeTraffic}

/-! ## The stamps -/

/-- A slot is stamped while it holds a note, with a stamp already given. -/
structure Stamped (s : NoticeSink) : Prop where
  dropped : s.droppedAt = none ↔ s.dropped = 0
  resubscribed : s.resubscribedAt = none ↔ s.resubscribed = none
  droppedAt : ∀ d ∈ s.droppedAt, d ≤ s.sequence
  sequence : s.sequence ≤ u64Max

/-- The announcement would take the place of an older one that stands ahead of a waiting loss report. -/
def Overtakes (w : NoticeTraffic) : Prop :=
  w.sink.resubscribed ≠ none ∧ w.sink.dropped ≠ 0 ∧ w.sink.ResubscribedFirst

/-- The word of a re-emit stands behind everything offered before it was announced. -/
structure InOrder (w : NoticeTraffic) : Prop where
  stamped : Stamped w.sink
  behind : ∀ i g n, w.log[i]? = some (Handed.resubscribed g n) → n ≤ ((w.log.take i).flatMap (·.numbers)).length
  waiting : w.Overtakes → w.asked ≤ w.accounted.length

theorem behind_push {log : List Handed} {entry : Handed}
    (h : ∀ i g n, log[i]? = some (Handed.resubscribed g n) → n ≤ ((log.take i).flatMap (·.numbers)).length)
    (hentry : ∀ g n, entry = .resubscribed g n → n ≤ (log.flatMap (·.numbers)).length) :
    ∀ i g n, (log ++ [entry])[i]? = some (Handed.resubscribed g n) →
      n ≤ (((log ++ [entry]).take i).flatMap (·.numbers)).length := by
  intro i g n hi
  rcases getElem?_push hi with hi | ⟨rfl, heq⟩
  · rw [List.take_append_of_le_length (List.getElem?_eq_some_iff.1 hi).1.le]
    exact h i g n hi
  · rw [List.take_left]
    exact hentry g n heq.symm

/-- When no drop waits, everything offered is in the log. -/
theorem Balanced.asked_le (h : w.Balanced) (hzero : w.sink.dropped = 0) : w.asked ≤ w.accounted.length := by
  have hlength := h.accounted_length
  have hasked := h.asked
  simp only [h.missed_nil hzero, List.length_nil] at hlength
  omega

theorem InOrder.hand {taken : NoticeSink} {note : ConnectionNote} {pending : Pending} (h : w.InOrder)
    (hbalanced : w.Balanced) (holdest : pending = .resubscribed → w.sink.dropped = 0 ∨ w.sink.ResubscribedFirst)
    (htakes : w.sink.take pending = (taken, some note)) :
    InOrder { w.hand note with sink := taken.enqueue note } := by
  have hspec := NoticeSink.take_spec htakes
  cases pending with
  | overload =>
    obtain ⟨-, rfl, rfl⟩ := hspec
    refine ⟨⟨⟨fun _ => rfl, fun _ => rfl⟩, h.stamped.resubscribed, nofun, h.stamped.sequence⟩, ?_, ?_⟩
    · exact behind_push h.behind nofun
    · exact fun hover => absurd rfl hover.2.1
  | resubscribed =>
    obtain ⟨g, hg, rfl, rfl⟩ := hspec
    refine ⟨⟨h.stamped.dropped, ⟨fun _ => rfl, fun _ => rfl⟩, h.stamped.droppedAt, h.stamped.sequence⟩, ?_, ?_⟩
    · refine behind_push h.behind fun g' n heq => ?_
      cases heq
      by_cases hzero : w.sink.dropped = 0
      · exact hbalanced.asked_le hzero
      · exact h.waiting ⟨by simp [hg], hzero, (holdest rfl).resolve_left hzero⟩
    · exact fun hover => absurd rfl hover.1

theorem InOrder.drop {note : ConnectionNote} (h : w.InOrder) (hbalanced : w.Balanced) :
    InOrder { w with
      sink := w.sink.drop, offered := w.offered ++ [note], missed := w.missed ++ [w.offered.length] } := by
  have hstamped := h.stamped
  by_cases hzero : w.sink.dropped = 0
  · refine ⟨⟨?_, ?_, ?_, ?_⟩, h.behind, fun _ => hbalanced.asked_le hzero⟩
    · simp [NoticeSink.drop, hzero, NoticeSink.stamp, saturatingAdd, u64Max]
    · simpa [NoticeSink.drop, hzero, NoticeSink.stamp] using hstamped.resubscribed
    · simp [NoticeSink.drop, hzero, NoticeSink.stamp]
    · simpa [NoticeSink.drop, hzero, NoticeSink.stamp] using saturatingAdd_le _ _
  · have hdrop : w.sink.drop = { w.sink with dropped := saturatingAdd w.sink.dropped 1 } := by
      simp [NoticeSink.drop, hzero]
    refine ⟨⟨?_, ?_, ?_, ?_⟩, h.behind, ?_⟩
    · have hnone := hstamped.dropped
      simp only [hdrop, saturatingAdd, u64Max]
      rw [hnone]
      omega
    · simpa [hdrop] using hstamped.resubscribed
    · simpa [hdrop] using hstamped.droppedAt
    · simpa [hdrop] using hstamped.sequence
    · intro hover
      refine h.waiting ⟨?_, hzero, ?_⟩
      · simpa [hdrop] using hover.1
      · simpa [hdrop, NoticeSink.ResubscribedFirst] using hover.2.2

theorem InOrder.announce {subscription : Nat} (h : w.InOrder) (hallowed : ¬ w.Overtakes) :
    InOrder { w with
      sink := { (if w.sink.resubscribed = none then { w.sink.stamp.1 with resubscribedAt := some w.sink.stamp.2 }
        else w.sink) with resubscribed := some subscription }
      announced := w.announced ++ [(subscription, w.offered.length)] } := by
  have hstamped := h.stamped
  by_cases hnone : w.sink.resubscribed = none
  · simp only [hnone, if_true, NoticeSink.stamp]
    refine ⟨⟨hstamped.dropped, by simp, ?_, saturatingAdd_le _ _⟩, h.behind, ?_⟩
    · intro d hd
      have hle := hstamped.droppedAt d hd
      have hsequence := hstamped.sequence
      simp only [saturatingAdd]
      omega
    · -- the new stamp is not below the drop's
      rintro ⟨-, hdropped, hfirst⟩
      have hsequence := hstamped.sequence
      simp only [NoticeSink.ResubscribedFirst, Option.getD_some, saturatingAdd] at hfirst
      cases hd : w.sink.droppedAt with
      | none => exact absurd (hstamped.dropped.1 hd) hdropped
      | some d =>
        have hle := hstamped.droppedAt d hd
        simp only [hd, Option.getD_some] at hfirst
        omega
  · simp only [hnone, if_false]
    refine ⟨⟨hstamped.dropped, ?_, hstamped.droppedAt, hstamped.sequence⟩, h.behind, ?_⟩
    · simpa [hnone] using hstamped.resubscribed
    · rintro ⟨-, hdropped, hfirst⟩
      exact absurd ⟨hnone, hdropped, hfirst⟩ hallowed

theorem InOrder.move (h : w.InOrder) (hbalanced : w.Balanced) (hmove : Move (fun w _ => ¬ w.Overtakes) w w') :
    w'.InOrder := by
  cases hmove with
  | hand pending holdest htakes => exact h.hand hbalanced holdest htakes
  | accept hordinary hreported htold =>
    have hstamped := h.stamped
    exact ⟨⟨hstamped.dropped, hstamped.resubscribed, hstamped.droppedAt, hstamped.sequence⟩,
      behind_push h.behind nofun, fun hover => absurd htold hover.1⟩
  | drop hordinary => exact h.drop hbalanced
  | announce hallowed => exact h.announce hallowed
  | receive holdest =>
    have hstamped := h.stamped
    exact ⟨⟨hstamped.dropped, hstamped.resubscribed, hstamped.droppedAt, hstamped.sequence⟩, h.behind, h.waiting⟩

/-! ## Runs -/

instance (s : NoticeSink) : Decidable s.ResubscribedFirst :=
  inferInstanceAs (Decidable (s.resubscribedAt.getD u64Max < s.droppedAt.getD u64Max))

instance (w : NoticeTraffic) : Decidable w.Overtakes :=
  inferInstanceAs (Decidable (w.sink.resubscribed ≠ none ∧ w.sink.dropped ≠ 0 ∧ w.sink.ResubscribedFirst))

/-- No re-emit is announced that would take the stamp of an older one ahead of a waiting loss report. -/
def inTurn (w : NoticeTraffic) : TrafficEvent → Prop
  | .offerResubscribed _ => ¬ w.Overtakes
  | .offer _ | .flushPending | .deliver | .receive => True

instance (w : NoticeTraffic) (e : TrafficEvent) : Decidable (w.inTurn e) :=
  match e with
  | .offerResubscribed _ => inferInstanceAs (Decidable (¬ w.Overtakes))
  | .offer _ | .flushPending | .deliver | .receive => isTrue trivial

/-- The word of a re-emit stands in the log for a call that announced it. -/
structure Called (w : NoticeTraffic) : Prop where
  logged : ∀ g n, Handed.resubscribed g n ∈ w.log → (g, n) ∈ w.announced
  waiting : ∀ g, w.sink.resubscribed = some g → (g, w.asked) ∈ w.announced

theorem logged_push {log : List Handed} {announced : List (Nat × Nat)} {entry : Handed}
    (h : ∀ g n, Handed.resubscribed g n ∈ log → (g, n) ∈ announced)
    (hentry : ∀ g n, entry = .resubscribed g n → (g, n) ∈ announced) :
    ∀ g n, Handed.resubscribed g n ∈ log ++ [entry] → (g, n) ∈ announced := by
  intro g n hmem
  rcases List.mem_append.1 hmem with hold | hnew
  · exact h g n hold
  · exact hentry g n (List.mem_singleton.1 hnew).symm

theorem Called.move {ok : NoticeTraffic → Nat → Prop} (h : w.Called) (hmove : Move ok w w') : w'.Called := by
  cases hmove with
  | hand pending _ htakes =>
    have hspec := NoticeSink.take_spec htakes
    cases pending with
    | overload =>
      obtain ⟨-, rfl, rfl⟩ := hspec
      exact ⟨logged_push h.logged nofun, h.waiting⟩
    | resubscribed =>
      obtain ⟨subscription, hwaits, rfl, rfl⟩ := hspec
      refine ⟨logged_push h.logged fun g n heq => ?_, nofun⟩
      cases heq
      exact h.waiting subscription hwaits
  | accept hordinary _ htold => exact ⟨logged_push h.logged nofun, h.waiting⟩
  | drop hordinary => exact ⟨h.logged, fun g hg => h.waiting g (by rwa [drop_resubscribed] at hg)⟩
  | announce _ =>
    refine ⟨fun g n hmem => List.mem_append_left _ (h.logged g n hmem), fun g hg => ?_⟩
    cases Option.some.inj hg
    simp [NoticeTraffic.asked]
  | receive _ => exact ⟨h.logged, h.waiting⟩

/-- What runs with every announcement in its turn keep. -/
structure TurnsKept (w : NoticeTraffic) : Prop where
  balanced : w.Balanced
  inOrder : w.InOrder
  called : w.Called

theorem TurnsKept.move (h : w.TurnsKept) (hmove : Move (fun w _ => ¬ w.Overtakes) w w') : w'.TurnsKept :=
  ⟨h.balanced.move hmove, h.inOrder.move h.balanced hmove, h.called.move hmove⟩

theorem start_turnsKept (capacity generation : Nat) : (start capacity generation).TurnsKept := by
  refine ⟨start_balanced capacity generation, ⟨?_, nofun, ?_⟩, nofun, nofun⟩
  · exact ⟨⟨fun _ => rfl, fun _ => rfl⟩, ⟨fun _ => rfl, fun _ => rfl⟩, nofun, Nat.zero_le _⟩
  · exact fun hover => absurd rfl hover.1

theorem run_turnsKept {capacity generation : Nat} (hrun : Run step inTurn (start capacity generation) w) :
    w.TurnsKept := by
  refine hrun.inv (fun v e v' h hturn hmove => ?_) (start_turnsKept capacity generation)
  have hmoves : Moves (fun w _ => ¬ w.Overtakes) v v' := by
    refine step_moves hmove fun subscription heq => ?_
    subst heq
    exact hturn
  exact hmoves.inv TurnsKept.move h

/-- The word of a re-emit goes into the queue behind the overload that counts any notice dropped before the call that
announced it, and never while such a drop still waits. -/
theorem resubscribed_behind_overload {capacity generation : Nat}
    (hrun : Run step inTurn (start capacity generation) w) (i g n : Nat)
    (hi : w.log[i]? = some (Handed.resubscribed g n)) :
    (g, n) ∈ w.announced ∧
      (∀ (j d : Nat) (numbers : List Nat), w.log[j]? = some (Handed.overload numbers) → d ∈ numbers → d < n → j < i) ∧
      ∀ d ∈ w.missed, n ≤ d := by
  obtain ⟨hbalanced, horder, hcalled⟩ := run_turnsKept hrun
  have hbehind := horder.behind i g n hi
  refine ⟨hcalled.logged g n (List.mem_of_getElem? hi), fun j d numbers hj hd hlt => ?_, fun d hd => ?_⟩
  · -- an entry from the re-emit on holds only notices offered after the call
    by_contra hij
    have hplace := (number_place hbalanced.numbers hj hd).1
    have hmono : ((w.log.take i).flatMap (·.numbers)).length ≤ ((w.log.take j).flatMap (·.numbers)).length :=
      prefix_length_mono (Nat.le_of_not_lt hij)
    omega
  · have hwaits := hbalanced.missed_ge hd
    have hall := prefix_length_le w.log i
    simp only [accounted] at hwaits
    omega

/-- A loss, a re-emit after it, and a reader that makes room. -/
def exampleOrder : NoticeTraffic :=
  (exec step inTurn (start 1 7)
    [.offer (.heartbeat 0), .offer (.heartbeat 1), .offerResubscribed 1, .receive, .flushPending, .receive,
      .flushPending]).get (by decide)

theorem resubscribed_behind_overload_example :
    exampleOrder.log = [.ordinary 0, .overload [1], .resubscribed 1 2] ∧ 1 < 2 := by
  have hlog : exampleOrder.log = [.ordinary 0, .overload [1], .resubscribed 1 2] := by decide
  have hbehind := resubscribed_behind_overload (w := exampleOrder) (Run.of_exec _ (Option.some_get _).symm) 2 1 2
    (by decide)
  exact ⟨hlog, hbehind.2.1 1 1 [1] (by decide) (by decide) (by decide)⟩

/-- The second re-emit is announced after the drop and goes into the queue ahead of its report. -/
theorem resubscribed_overtakes_overload :
    ∃ w, exec step (fun _ _ => True) (start 1 7)
        [.offer (.heartbeat 0), .offerResubscribed 1, .offer (.heartbeat 1), .offerResubscribed 2, .receive,
          .flushPending, .receive, .flushPending] = some w ∧
      w.announced = [(1, 1), (2, 2)] ∧ w.log = [.ordinary 0, .resubscribed 2 2, .overload [1]] :=
  ⟨_, rfl, by decide, by decide⟩

end NoticeTraffic

end PmWs
