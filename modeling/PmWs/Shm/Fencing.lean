import PmWs.Fencing
import PmWs.Shm.EventStream

/-!
# Replacements are fenced in a segment

The same law for a stream over a segment, which has two fences: the epoch of
the state slot, read first on every poll, and the epoch of the event its ring
slot holds. Either one ends the stream.
-/

open MachineInt Replay Runs Broadcast

namespace PmWs

variable {s t : SegmentWorld} {st st' : EventStream} {e : SegmentEvent} {deliveries : List StreamDelivery}
  {changed : Bool} {epoch revision written : Nat} {d : StreamDelivery}

/-- A call on the book behind a segment: refused, or a move whose publications are queued. -/
theorem SegmentWorld.step_call {call : WriterCall} (h : s.step (.call call) = some t) :
    s.pending = [] ∧ (t = s ∨ ∃ deliveries changed, StreamMove s.book t.book deliveries changed ∧
      (t.pending = [] ∨ t.pending = segmentWrites t.book deliveries changed) ∧ t.segment = s.segment ∧
      t.attaching = s.attaching ∧ t.stream = s.stream) := by
  simp only [SegmentWorld.step] at h
  split at h
  · cases h
  · rename_i hpending
    refine ⟨hpending, ?_⟩
    split at h
    · exact .inl (Option.some.inj h).symm
    · rename_i book deliveries changed hcall
      cases h
      refine .inr ⟨deliveries, changed, streamCall_move hcall, ?_, rfl, rfl, rfl⟩
      dsimp only
      split
      · exact .inl rfl
      · exact .inr rfl

theorem state_mem_segmentWrites {book : OrderBook} {published : PublishedBook}
    (h : .state published ∈ segmentWrites book deliveries changed) : published = book.publish := by
  unfold segmentWrites at h
  split at h <;> simp_all

theorem event_mem_segmentWrites {book : OrderBook} (h : .event d ∈ segmentWrites book deliveries changed) :
    d ∈ deliveries := by
  unfold segmentWrites at h
  split at h <;> simp_all

/-- The state is in the segment or on its way there. -/
def SegmentWorld.Holds (s : SegmentWorld) (published : PublishedBook) : Prop :=
  s.segment.state = some published ∨ .state published ∈ s.pending

/-- What holds of every segment and attachment while nothing is known about later commits. -/
structure SegmentWorld.Inv (s : SegmentWorld) : Prop where
  epoch : ∀ p, s.Holds p → p.continuity.epoch ≤ s.book.continuity.epoch
  revision : ∀ p, s.Holds p → p.revision ≤ s.book.revision
  attaching : ∀ cursor, s.attaching = some cursor → cursor.epoch ≤ s.book.continuity.epoch
  stream : ∀ st, s.stream = some st → st.cursor.epoch ≤ s.book.continuity.epoch
  settled : ∀ st, s.stream = some st → st.lost.isSome → st.probing = false

/-- What polling cannot move: the epoch. A stream that is lost is not in the middle of a poll. -/
structure EventStream.Kept (st st' : EventStream) : Prop where
  epoch : st'.cursor.epoch = st.cursor.epoch
  settled : (st.lost.isSome → st.probing = false) → st'.lost.isSome → st'.probing = false

theorem EventStream.lose_kept (st : EventStream) (reason : ContinuityReason) : st.Kept (st.lose reason).1 :=
  ⟨rfl, fun _ _ => rfl⟩

theorem EventStream.pollState_kept (st : EventStream) (continuity : MutationContinuity) :
    st.Kept (st.pollState continuity).1 := by
  unfold EventStream.pollState
  split
  · exact ⟨rfl, id⟩
  · split
    · split
      · exact st.lose_kept _
      · exact ⟨rfl, fun _ h => by simp_all⟩
    · exact st.lose_kept _

theorem EventStream.pollEvent_kept (st : EventStream) (stored : Option StreamDelivery) :
    st.Kept (st.pollEvent stored).1 := by
  unfold EventStream.pollEvent
  split
  · exact ⟨rfl, fun _ _ => rfl⟩
  · split
    · exact st.lose_kept _
    · split
      · exact st.lose_kept _
      · split
        · exact ⟨rfl, fun _ _ => rfl⟩
        · split
          · exact st.lose_kept _
          · exact ⟨rfl, fun _ _ => rfl⟩

/-- Publishing moves a state or an event from the queue into the segment. -/
theorem SegmentWorld.step_publish (h : s.step .publish = some t) :
    t.book = s.book ∧ t.attaching = s.attaching ∧ t.stream = s.stream ∧ (∀ p, t.Holds p → s.Holds p) ∧
    (∀ w ∈ t.pending, w ∈ s.pending) ∧
    (t.segment.written = s.segment.written ∨
      ∃ d, .event d ∈ s.pending ∧ t.segment.written = s.segment.written ++ [d]) := by
  simp only [SegmentWorld.step] at h
  split at h
  · cases h
  · rename_i write rest hpending
    cases h
    refine ⟨rfl, rfl, rfl, ?_, fun w hw => by simp [hpending, hw], ?_⟩
    · rintro p (hp | hp)
      · cases write with
        | event d => exact .inl hp
        | state published =>
          obtain rfl := Option.some.inj hp
          exact .inr (by simp [hpending])
      · exact .inr (by rw [hpending]; exact List.mem_cons_of_mem _ hp)
    · cases write with
      | event d => exact .inr ⟨d, by simp [hpending], rfl⟩
      | state published => exact .inl rfl

/-- A refused publication drops the queue. -/
theorem SegmentWorld.step_refuse {error : WriterError} (h : s.step (.refuse error) = some t) :
    t = { s with segment.failure := some error, pending := [] } := by
  simp only [SegmentWorld.step] at h
  split at h <;> cases h
  rfl

/-- Completing an attachment leaves at most the cursor it had read. -/
theorem SegmentWorld.step_attachProbe (h : s.step .attachProbe = some t) :
    ∃ cursor, s.attaching = some cursor ∧
      t = { s with attaching := none, stream := t.stream } ∧
      (t.stream = s.stream ∨ t.stream = some ⟨cursor, none, false⟩) := by
  simp only [SegmentWorld.step] at h
  split at h
  · cases h
  · rename_i cursor hattaching
    refine ⟨cursor, hattaching, ?_⟩
    split at h <;> cases h
    · exact ⟨rfl, .inl rfl⟩
    · exact ⟨rfl, .inr rfl⟩

/-- Either half of a poll only changes the stream, and keeps its epoch. -/
theorem SegmentWorld.step_poll (he : e = .pollState ∨ e = .pollEvent) (h : s.step e = some t) :
    ∃ st st', s.stream = some st ∧ t = { s with stream := some st' } ∧ st.Kept st' := by
  rcases he with rfl | rfl
  · simp only [SegmentWorld.step] at h
    split at h
    · rename_i st published hst _
      cases h
      exact ⟨st, _, hst, rfl, st.pollState_kept _⟩
    · cases h
  · simp only [SegmentWorld.step] at h
    split at h
    · cases h
    · rename_i st hst
      split at h <;> cases h
      exact ⟨st, _, hst, rfl, st.pollEvent_kept _⟩

theorem SegmentWorld.start_inv (book : OrderBook) (capacity : Nat) : (SegmentWorld.start book capacity).Inv := by
  have hholds : ∀ p, (SegmentWorld.start book capacity).Holds p → p = book.publish := by
    rintro p (hp | hp)
    · cases hp
    · simpa [SegmentWorld.start] using hp
  constructor
  · intro p hp
    rw [hholds p hp]
    exact Nat.le_refl _
  · intro p hp
    rw [hholds p hp]
    exact Nat.le_refl _
  · simp [SegmentWorld.start]
  · simp [SegmentWorld.start]
  · simp [SegmentWorld.start]

theorem SegmentWorld.Inv.poll (hi : s.Inv) (hst : s.stream = some st)
    (hk : st.Kept st') : SegmentWorld.Inv { s with stream := some st' } := by
  refine ⟨hi.epoch, hi.revision, hi.attaching, ?_, ?_⟩
  · intro u hu
    obtain rfl := Option.some.inj hu
    exact hk.epoch ▸ hi.stream st hst
  · intro u hu
    obtain rfl := Option.some.inj hu
    exact hk.settled (hi.settled st hst)

theorem SegmentWorld.Inv.step (hi : s.Inv) (h : s.step e = some t) : t.Inv := by
  cases e with
  | call call =>
    obtain ⟨hp, rfl | ⟨deliveries, changed, hm, hpending, hseg, hatt, hst⟩⟩ := SegmentWorld.step_call h
    · exact hi
    · -- what was in the segment is behind the old book, what is queued is the new one
      have hholds : ∀ p, t.Holds p → s.Holds p ∨ p = t.book.publish := by
        rintro p (hp | hp)
        · exact .inl (.inl (hseg ▸ hp))
        · rcases hpending with hnone | hwrites
          · simp [hnone] at hp
          · exact .inr (state_mem_segmentWrites (hwrites ▸ hp))
      constructor
      · intro p hp
        rcases hholds p hp with hold | rfl
        · exact (hi.epoch p hold).trans hm.epoch_le
        · exact Nat.le_refl _
      · intro p hp
        rcases hholds p hp with hold | rfl
        · exact (hi.revision p hold).trans hm.revision_le
        · exact Nat.le_refl _
      · intro cursor hc
        exact (hi.attaching cursor (hatt ▸ hc)).trans hm.epoch_le
      · intro st hs
        exact (hi.stream st (hst ▸ hs)).trans hm.epoch_le
      · intro st hs
        exact hi.settled st (hst ▸ hs)
  | publish =>
    obtain ⟨hb, ha, hst, hholds, -, -⟩ := SegmentWorld.step_publish h
    constructor
    · simpa only [hb] using fun p hp => hi.epoch p (hholds p hp)
    · simpa only [hb] using fun p hp => hi.revision p (hholds p hp)
    · simpa only [hb, ha] using hi.attaching
    · simpa only [hb, hst] using hi.stream
    · simpa only [hst] using hi.settled
  | refuse error =>
    obtain rfl := SegmentWorld.step_refuse h
    have hholds : ∀ p, SegmentWorld.Holds { s with segment.failure := some error, pending := [] } p → s.Holds p := by
      rintro p (hp | hp)
      · exact .inl hp
      · cases hp
    exact ⟨fun p hp => hi.epoch p (hholds p hp), fun p hp => hi.revision p (hholds p hp), hi.attaching, hi.stream,
      hi.settled⟩
  | attachRead =>
    simp only [SegmentWorld.step] at h
    split at h
    · cases h
    · rename_i published hstate
      have hepoch := hi.epoch published (.inl hstate)
      split at h <;> rename_i hc <;> rw [hc] at hepoch <;> cases h
      · refine ⟨hi.epoch, hi.revision, by simp, ?_, ?_⟩
        · intro st hs
          obtain rfl := Option.some.inj hs
          simpa using hepoch
        · intro st hs _
          obtain rfl := Option.some.inj hs
          rfl
      · refine ⟨hi.epoch, hi.revision, ?_, hi.stream, hi.settled⟩
        intro cursor hcur
        obtain rfl := Option.some.inj hcur
        simpa using hepoch
  | attachProbe =>
    obtain ⟨cursor, hatt, ht, hst⟩ := SegmentWorld.step_attachProbe h
    rw [ht]
    refine ⟨hi.epoch, hi.revision, by simp, ?_, ?_⟩
    · intro st hs
      rcases hst with hold | hnew
      · exact hi.stream st (hold ▸ hs)
      · obtain rfl := Option.some.inj (hs.symm.trans hnew)
        exact hi.attaching cursor hatt
    · intro st hs
      rcases hst with hold | hnew
      · exact hi.settled st (hold ▸ hs)
      · obtain rfl := Option.some.inj (hs.symm.trans hnew)
        simp
  | pollState =>
    obtain ⟨st, st', hst, rfl, hk⟩ := SegmentWorld.step_poll (.inl rfl) h
    exact hi.poll hst hk
  | pollEvent =>
    obtain ⟨st, st', hst, rfl, hk⟩ := SegmentWorld.step_poll (.inr rfl) h
    exact hi.poll hst hk

/-- Nothing published from the `written`-th event on, nor any state from `revision` on, belongs to the epoch the
attachment follows. -/
structure SegmentWorld.Fenced (epoch revision written : Nat) (s : SegmentWorld) : Prop where
  epoch_le : epoch ≤ s.book.continuity.epoch
  written_le : written ≤ s.segment.written.length
  written_beyond : ∀ d ∈ s.segment.written.drop written, epoch ≤ d.cursor.epoch
  pending_beyond : ∀ d, .event d ∈ s.pending → epoch ≤ d.cursor.epoch
  state_beyond : ∀ p, s.Holds p → revision ≤ p.revision → epoch ≤ p.continuity.epoch
  attaching : ∀ cursor, s.attaching = some cursor → cursor.epoch < epoch
  stream : ∀ st, s.stream = some st → st.cursor.epoch < epoch

/-- An unaccounted commit fences whatever was attached, or had begun to attach, before it. -/
theorem SegmentWorld.Inv.fenced {call : WriterCall} (hi : s.Inv) (h : s.step (.call call) = some t)
    (hcall : streamCall s.book call = .ok (t.book, deliveries, changed)) (hf : ¬ AwaitsFirstBase s.book)
    (hn : ¬ Accounted s.book t.book deliveries) :
    t.Fenced t.book.continuity.epoch t.book.revision t.segment.written.length := by
  obtain ⟨hepoch, hrev, rfl, rfl⟩ := (streamCall_move hcall).fenced hf hn
  simp only [SegmentWorld.step] at h
  split at h
  · cases h
  · simp only [hcall] at h
    have hpending : ∀ w ∈ t.pending, w = .state t.book.publish := by
      intro w hw
      rw [← Option.some.inj h] at hw
      dsimp only at hw
      split at hw
      · cases hw
      · simpa [segmentWrites] using hw
    have hrest : t.segment = s.segment ∧ t.attaching = s.attaching ∧ t.stream = s.stream := by
      rw [← Option.some.inj h]
      exact ⟨rfl, rfl, rfl⟩
    obtain ⟨hseg, hatt, hst⟩ := hrest
    refine ⟨Nat.le_refl _, Nat.le_refl _, by simp, ?_, ?_, ?_, ?_⟩
    · intro d hd
      cases hpending _ hd
    · rintro p (hp | hp) hle
      · -- a state published before the commit has an older revision
        have hold := hi.revision p (.inl (hseg ▸ hp))
        omega
      · have hp' := hpending _ hp
        simp only [SegmentWrite.state.injEq] at hp'
        rw [hp']
        exact Nat.le_refl _
    · intro cursor hc
      exact (hi.attaching cursor (hatt ▸ hc)).trans_lt hepoch
    · intro st hs
      exact (hi.stream st (hst ▸ hs)).trans_lt hepoch

/-- The consumer has not begun another attachment. -/
def SegmentEvent.keepsAttachment : SegmentEvent → Bool
  | .attachRead => false
  | _ => true

theorem SegmentWorld.Fenced.poll (hf : s.Fenced epoch revision written) (hst : s.stream = some st) (hk : st.Kept st') :
    SegmentWorld.Fenced epoch revision written { s with stream := some st' } := by
  refine ⟨hf.epoch_le, hf.written_le, hf.written_beyond, hf.pending_beyond, hf.state_beyond, hf.attaching, ?_⟩
  intro u hu
  obtain rfl := Option.some.inj hu
  exact hk.epoch ▸ hf.stream st hst

theorem SegmentWorld.Fenced.step (hf : s.Fenced epoch revision written) (hk : e.keepsAttachment)
    (h : s.step e = some t) : t.Fenced epoch revision written := by
  cases e with
  | attachRead => cases hk
  | call call =>
    obtain ⟨hp, rfl | ⟨deliveries, changed, hm, hpending, hseg, hatt, hst⟩⟩ := SegmentWorld.step_call h
    · exact hf
    · have hepoch := hf.epoch_le.trans hm.epoch_le
      refine ⟨hepoch, hseg ▸ hf.written_le, hseg ▸ hf.written_beyond, ?_, ?_, hatt ▸ hf.attaching, hst ▸ hf.stream⟩
      · intro d hd
        rcases hpending with hnone | hwrites
        · simp [hnone] at hd
        · rw [hm.epoch_eq d (event_mem_segmentWrites (hwrites ▸ hd))]
          exact hepoch
      · rintro p (hp | hp) hle
        · exact hf.state_beyond p (.inl (hseg ▸ hp)) hle
        · rcases hpending with hnone | hwrites
          · simp [hnone] at hp
          · have hp' : p = t.book.publish := state_mem_segmentWrites (hwrites ▸ hp)
            rw [hp']
            exact hepoch
  | publish =>
    obtain ⟨hb, ha, hst, hholds, hpending, hwritten⟩ := SegmentWorld.step_publish h
    refine ⟨hb ▸ hf.epoch_le, ?_, ?_, fun d hd => hf.pending_beyond d (hpending _ hd),
      fun p hp => hf.state_beyond p (hholds p hp), ha ▸ hf.attaching, hst ▸ hf.stream⟩
    · rcases hwritten with heq | ⟨d, -, heq⟩
      · exact heq ▸ hf.written_le
      · rw [heq, List.length_append]
        exact hf.written_le.trans (Nat.le_add_right _ _)
    · intro d hd
      rcases hwritten with heq | ⟨d', hmem, heq⟩
      · exact hf.written_beyond d (heq ▸ hd)
      · rw [heq, List.drop_append_of_le_length hf.written_le, List.mem_append, List.mem_singleton] at hd
        rcases hd with hd | rfl
        · exact hf.written_beyond d hd
        · exact hf.pending_beyond d hmem
  | refuse error =>
    obtain rfl := SegmentWorld.step_refuse h
    refine ⟨hf.epoch_le, hf.written_le, hf.written_beyond, by simp, ?_, hf.attaching, hf.stream⟩
    rintro p (hp | hp)
    · exact hf.state_beyond p (.inl hp)
    · cases hp
  | attachProbe =>
    obtain ⟨cursor, hatt, ht, hst⟩ := SegmentWorld.step_attachProbe h
    rw [ht]
    refine ⟨hf.epoch_le, hf.written_le, hf.written_beyond, hf.pending_beyond, hf.state_beyond, by simp, ?_⟩
    intro st hs
    rcases hst with hold | hnew
    · exact hf.stream st (hold ▸ hs)
    · obtain rfl := Option.some.inj (hs.symm.trans hnew)
      exact hf.attaching cursor hatt
  | pollState =>
    obtain ⟨st, st', hst, rfl, hk⟩ := SegmentWorld.step_poll (.inl rfl) h
    exact hf.poll hst hk
  | pollEvent =>
    obtain ⟨st, st', hst, rfl, hk⟩ := SegmentWorld.step_poll (.inr rfl) h
    exact hf.poll hst hk

theorem EventStream.pollEvent_later_epoch (h : st.cursor.epoch < d.cursor.epoch) :
    st.pollEvent (some d) = st.lose .recoveryBase := by
  unfold EventStream.pollEvent
  exact if_pos h

theorem EventStream.pollState_later_epoch {continuity : MutationContinuity} (hl : st.lost = none)
    (h : st.cursor.epoch < continuity.epoch) :
    st.pollState continuity = ((st.lose .recoveryBase).1, some (.lost .recoveryBase)) := by
  unfold EventStream.pollState
  rw [hl]
  cases continuity with
  | intact epoch next =>
    have hne : epoch ≠ st.cursor.epoch := Nat.ne_of_gt h
    simp [hne, EventStream.lose]
  | lost epoch reason =>
    have hne : epoch ≠ st.cursor.epoch := Nat.ne_of_gt h
    simp [hne, EventStream.lose]

/-- A delivered event is at the stream's own cursor. -/
theorem EventStream.pollEvent_delivered {stored : Option StreamDelivery}
    (h : (st.pollEvent stored).2 = .delivered d) : d.cursor = st.cursor := by
  unfold EventStream.pollEvent at h
  split at h
  · cases h
  · split at h
    · cases h
    · split at h
      · cases h
      · split at h
        · cases h
        · rename_i hcursor
          split at h <;> cases h
          exact not_not.1 hcursor

/-- How a stream treats what is published from the `written`-th event on and, once the slot holds a state from
`revision` on, everything: it accepts none of it, the poll that would find it is lost, and a loss is repeated. -/
structure EventStream.Refuses (st : EventStream) (segment : BookSegment) (revision written : Nat) : Prop where
  accepts : ∀ d, (st.pollEvent (segment.eventAt st.cursor.position)).2 = .delivered d → d ∉ segment.written.drop written
  event_fails : ∀ d ∈ segment.written.drop written, segment.eventAt st.cursor.position = some d →
    st.pollEvent (segment.eventAt st.cursor.position) = st.lose .recoveryBase
  state_fails : ∀ p, segment.state = some p → revision ≤ p.revision →
    ∃ reason, (st.pollState p.continuity).2 = some (.lost reason) ∧ (st.pollState p.continuity).1.lost = some reason
  stays : ∀ reason, st.lost = some reason → st.probing = false ∧
    ∀ continuity, st.pollState continuity = (st, some (.lost reason))

theorem EventStream.pollState_lost {reason : ContinuityReason} (h : st.lost = some reason)
    (continuity : MutationContinuity) : st.pollState continuity = (st, some (.lost reason)) := by
  unfold EventStream.pollState
  rw [h]

theorem SegmentWorld.Fenced.refuses (hi : s.Inv) (hf : s.Fenced epoch revision written) (hst : s.stream = some st) :
    st.Refuses s.segment revision written where
  accepts d hd hmem := by
    have hcursor := EventStream.pollEvent_delivered hd
    have hle := hf.written_beyond d hmem
    have hlt := hf.stream st hst
    rw [← hcursor] at hlt
    omega
  event_fails d hmem hfound := by
    rw [hfound]
    exact EventStream.pollEvent_later_epoch ((hf.stream st hst).trans_le (hf.written_beyond d hmem))
  state_fails p hp hle := by
    cases hl : st.lost with
    | some reason => exact ⟨reason, by rw [EventStream.pollState_lost hl], by rw [EventStream.pollState_lost hl, hl]⟩
    | none =>
      have hepoch := (hf.stream st hst).trans_le (hf.state_beyond p (.inl hp) hle)
      rw [EventStream.pollState_later_epoch hl hepoch]
      exact ⟨.recoveryBase, rfl, rfl⟩
  stays reason hl := ⟨hi.settled st hst (by simp [hl]), EventStream.pollState_lost hl⟩

/-! ## The law -/

/-- **Every replacement but a first base is fenced.** Once a call has changed the level map in a way its
deliveries do not account for, an attachment made before it accepts nothing sent after it until it starts over,
in the process over any lawful channel and over a segment alike. -/
theorem wholesale_replacement_fenced {σ ρ : Type} {channel : Operations StreamDelivery σ ρ}
    {sent : σ → List StreamDelivery} {position : ρ → Nat} (hlaw : channel.Lawful sent position) (book : OrderBook)
    (deliveries : σ) (capacity : Nat) :
    (∀ s₁ s₂ s₃ call o,
      Run (ObserverWorld.step channel) (fun _ _ => True) (.start book deliveries) s₁ →
      s₁.step channel (.call call) = some s₂ →
      ¬ AwaitsFirstBase s₁.writer.book → ¬ Accounted s₁.writer.book s₂.writer.book s₂.writer.unsent →
      Run (ObserverWorld.step channel) (fun _ e => e.keepsAttachment) s₂ s₃ → s₃.observer = some o →
      o.Refuses channel position s₃.writer.deliveries (sent s₂.writer.deliveries).length) ∧
    (∀ s₁ s₂ s₃ call deliveries changed st,
      Run SegmentWorld.step (fun _ _ => True) (.start book capacity) s₁ → s₁.step (.call call) = some s₂ →
      streamCall s₁.book call = .ok (s₂.book, deliveries, changed) →
      ¬ AwaitsFirstBase s₁.book → ¬ Accounted s₁.book s₂.book deliveries →
      Run SegmentWorld.step (fun _ e => e.keepsAttachment) s₂ s₃ → s₃.stream = some st →
      st.Refuses s₃.segment s₂.book.revision s₂.segment.written.length) := by
  constructor
  · intro s₁ s₂ s₃ call o hbefore hcall hbase hunaccounted hafter ho
    have hi₁ := hbefore.inv (fun _ _ _ hi _ => hi.step) (ObserverWorld.start_inv book deliveries)
    have hi₃ := hafter.inv (fun _ _ _ hi _ => hi.step) (hi₁.step hcall)
    have hf₃ := hafter.inv (fun _ _ _ hf hk => hf.step hlaw hk) (hi₁.fenced hcall hbase hunaccounted)
    exact hf₃.refuses hlaw hi₃ ho
  · intro s₁ s₂ s₃ call deliveries changed st hbefore hstep hcall hbase hunaccounted hafter hst
    have hi₁ := hbefore.inv (fun _ _ _ hi _ => hi.step) (SegmentWorld.start_inv book capacity)
    have hi₃ := hafter.inv (fun _ _ _ hi _ => hi.step) (hi₁.step hstep)
    have hf₃ := hafter.inv (fun _ _ _ hf hk => hf.step hk) (hi₁.fenced hstep hcall hbase hunaccounted)
    exact hf₃.refuses hi₃ hst

/-- A frame with one bid at 0.4. -/
def exampleFrame (size : Fin 1000) : WriterCall := .applySnapshot (exampleSnapshot [exampleLevel .bid 3 size] (by simp))

/-- A writer and its attachments over a bounded ring. -/
abbrev RingWorld := ObserverWorld (BoundedRing StreamDelivery) Nat

abbrev RingWorld.step : RingWorld → ObserverEvent → Option RingWorld := ObserverWorld.step BoundedRing.operations

def exampleRing : BoundedRing StreamDelivery := ⟨4, [], false⟩

/-- A consumer attaches to an established book and, the next frame being sent in between, starts over. Then the book
loses its continuity. -/
def exampleFollowed : RingWorld :=
  (exec RingWorld.step (fun _ _ => True) (.start (.new exampleMarket) exampleRing)
    [.call (exampleFrame 100), .attach, .resubscribe, .call (exampleFrame 150), .send, .restart,
      .call (.reportContinuityLoss .reconnect .subscriptionLost)]).get (by decide)

/-- The base that recovers it. -/
def exampleRecovered : RingWorld := (exampleFollowed.step (.call (exampleFrame 200))).get (by decide)

/-- The next frame's mutation is on the ring, and the one before the loss was passed over. -/
def exampleSent : RingWorld :=
  (exec RingWorld.step (fun _ e => e.keepsAttachment) exampleRecovered
    [.call (exampleFrame 300), .send, .receive]).get (by decide)

def exampleStreamed : SegmentWorld :=
  (exec SegmentWorld.step (fun _ _ => True) (.start (.new exampleMarket) 4)
    [.publish, .call (exampleFrame 100), .publish, .attachRead, .attachProbe,
      .call (.reportContinuityLoss .reconnect .subscriptionLost), .publish]).get (by decide)

def exampleRebased : SegmentWorld := (exampleStreamed.step (.call (exampleFrame 200))).get (by decide)

def exampleWritten : SegmentWorld :=
  (exec SegmentWorld.step (fun _ e => e.keepsAttachment) exampleRebased
    [.publish, .call (exampleFrame 300), .publish, .publish]).get (by decide)

theorem wholesale_replacement_fenced_example :
    (∃ o missed, exampleSent.observer = some o ∧
      (o.receive BoundedRing.operations exampleSent.writer.deliveries).2 = .failed (.continuityLost .recoveryBase missed)) ∧
    (∃ st p reason, exampleWritten.stream = some st ∧ exampleWritten.segment.state = some p ∧
      (st.pollState p.continuity).2 = some (.lost reason)) := by
  obtain ⟨hobserver, hstream⟩ := wholesale_replacement_fenced BoundedRing.lawful (.new exampleMarket) exampleRing 4
  constructor
  · have ho : exampleSent.observer = some (exampleSent.observer.get (by decide)) := (Option.some_get _).symm
    have hrefuses := hobserver exampleFollowed exampleRecovered exampleSent _ _
      (.of_exec _ (Option.some_get _).symm) (Option.some_get _).symm (by decide) (by decide)
      (.of_exec _ (Option.some_get _).symm) ho
    obtain ⟨missed, hfail, -⟩ := hrefuses.fails (by decide) (by decide) _ _ rfl
    exact ⟨_, missed, ho, hfail⟩
  · have hst : exampleWritten.stream = some (exampleWritten.stream.get (by decide)) := (Option.some_get _).symm
    have hp : exampleWritten.segment.state = some (exampleWritten.segment.state.get (by decide)) :=
      (Option.some_get _).symm
    have hrefuses := hstream exampleStreamed exampleRebased exampleWritten _ [] true _
      (.of_exec _ (Option.some_get _).symm) (Option.some_get _).symm rfl (by decide) (by decide)
      (.of_exec _ (Option.some_get _).symm) hst
    obtain ⟨reason, hlost, -⟩ := hrefuses.state_fails _ hp (by decide)
    exact ⟨_, _, reason, hst, hp, hlost⟩

/-- A consumer attaches to a book that has no base yet. -/
def exampleEarly : RingWorld :=
  (exec RingWorld.step (fun _ _ => True) (.start (.new exampleMarket) exampleRing) [.attach]).get (by decide)

def exampleFirstBase : RingWorld := (exampleEarly.step (.call (exampleFrame 100))).get (by decide)

def exampleCarriedOn : RingWorld :=
  (exec RingWorld.step (fun _ e => e.keepsAttachment) exampleFirstBase [.call (exampleFrame 300), .send]).get
    (by decide)

def exampleEarlyStream : SegmentWorld :=
  (exec SegmentWorld.step (fun _ _ => True) (.start (.new exampleMarket) 4) [.publish, .attachRead, .attachProbe]).get
    (by decide)

def exampleStreamBase : SegmentWorld := (exampleEarlyStream.step (.call (exampleFrame 100))).get (by decide)

def exampleStreamOn : SegmentWorld :=
  (exec SegmentWorld.step (fun _ e => e.keepsAttachment) exampleStreamBase
    [.publish, .call (exampleFrame 300), .publish, .publish, .pollState]).get (by decide)

/-- A first base keeps epoch 0: attachments made before it accept the mutations after it, although no delivery
carried the base itself. -/
theorem first_base_not_fenced :
    (∃ s₁ s₂ s₃ call o d, Run RingWorld.step (fun _ _ => True) (.start (.new exampleMarket) exampleRing) s₁ ∧
      s₁.step (.call call) = some s₂ ∧ ¬ Accounted s₁.writer.book s₂.writer.book s₂.writer.unsent ∧
      Run RingWorld.step (fun _ e => e.keepsAttachment) s₂ s₃ ∧ s₃.observer = some o ∧
      s₂.writer.deliveries.sent.length ≤ o.receiver ∧
      (o.receive BoundedRing.operations s₃.writer.deliveries).2 = .delivered d) ∧
    (∃ s₁ s₂ s₃ call deliveries changed st d,
      Run SegmentWorld.step (fun _ _ => True) (.start (.new exampleMarket) 4) s₁ ∧ s₁.step (.call call) = some s₂ ∧
      streamCall s₁.book call = .ok (s₂.book, deliveries, changed) ∧ ¬ Accounted s₁.book s₂.book deliveries ∧
      Run SegmentWorld.step (fun _ e => e.keepsAttachment) s₂ s₃ ∧ s₃.stream = some st ∧ st.probing = true ∧
      (st.pollEvent (s₃.segment.eventAt st.cursor.position)).2 = .delivered d ∧
      d ∈ s₃.segment.written.drop s₂.segment.written.length) := by
  constructor
  · exact ⟨exampleEarly, exampleFirstBase, exampleCarriedOn, exampleFrame 100,
      exampleCarriedOn.observer.get (by decide), exampleCarriedOn.writer.deliveries.sent.get ⟨0, by decide⟩,
      .of_exec _ (Option.some_get _).symm, (Option.some_get _).symm, by decide, .of_exec _ (Option.some_get _).symm,
      (Option.some_get _).symm, by decide, rfl⟩
  · exact ⟨exampleEarlyStream, exampleStreamBase, exampleStreamOn, exampleFrame 100, [], true,
      exampleStreamOn.stream.get (by decide), exampleStreamOn.segment.written.get ⟨0, by decide⟩,
      .of_exec _ (Option.some_get _).symm, (Option.some_get _).symm, rfl, by decide,
      .of_exec _ (Option.some_get _).symm, (Option.some_get _).symm, by decide, rfl, List.get_mem _ _⟩

end PmWs
