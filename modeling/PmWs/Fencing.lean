import PmWs.Lib.Runs
import PmWs.Observer

/-!
# Wholesale replacements are fenced

A recovery base and a divergence checkpoint replace the level map without
mutations and open a new epoch, so no observer attached before one accepts a
delivery sent after it. The one replacement that stays in its epoch is a book's
first base.
-/

open MachineInt Fallible Replay Runs Broadcast

namespace PmWs

/-! ## What a call does to the stream -/

variable {commit : BookCommit} {book book' : OrderBook} {call : WriterCall}

/-- The level changes among some deliveries. -/
def deliveredRecords (deliveries : List StreamDelivery) : List MutationRecord :=
  deliveries.filterMap fun
    | .mutation _ cursor mutation => some ⟨cursor, mutation⟩
    | .resolution _ _ _ => none

/-- The deliveries account for the change of the level map, up to exact zeros. -/
def Accounted (before after : OrderBook) (deliveries : List StreamDelivery) : Prop :=
  economicallyEqual (replay before.levels (deliveredRecords deliveries)) after.levels = true

instance (before after : OrderBook) (deliveries : List StreamDelivery) : Decidable (Accounted before after deliveries) :=
  inferInstanceAs (Decidable (_ = true))

/-- The next snapshot would be a first base that keeps its epoch. -/
def AwaitsFirstBase (book : OrderBook) : Prop := book.provenance = none ∧ book.continuity.isLost = false

instance (book : OrderBook) : Decidable (AwaitsFirstBase book) := inferInstanceAs (Decidable (_ ∧ _))

theorem deliveredRecords_commit (commit : BookCommit) : deliveredRecords commit.deliveries = commit.mutations := by
  simp [deliveredRecords, BookCommit.deliveries, List.filterMap_map]

/-- What every accepted call does to the stream. -/
structure StreamMove (before after : OrderBook) (deliveries : List StreamDelivery) (changed : Bool) : Prop where
  epoch_le : before.continuity.epoch ≤ after.continuity.epoch
  revision_le : before.revision ≤ after.revision
  epoch_eq : ∀ d ∈ deliveries, d.cursor.epoch = after.continuity.epoch
  newer : ∀ revision cursor mutation, .mutation revision cursor mutation ∈ deliveries → before.revision < revision
  unchanged : changed = false → after = before ∧ deliveries = []
  fenced : ¬ AwaitsFirstBase before → ¬ Accounted before after deliveries →
    before.continuity.epoch < after.continuity.epoch ∧ before.revision < after.revision ∧ deliveries = [] ∧ changed = true

theorem Accounted.of_changes {before after : OrderBook} {changes : List LevelChange}
    (ha : Accounts before.levels after.levels changes)
    (hr : (commit.mutations.map fun r => r.mutation.toChange) = changes.filter Change.effective) :
    Accounted before after commit.deliveries := by
  rw [Accounted, deliveredRecords_commit, economicallyEqual_iff, replay_eq_foldl, hr]
  exact (ha.replay (Agree.refl depth before.levels)).2

namespace StreamMove

variable {before after : OrderBook}

/-- A call that leaves the levels alone and delivers at most resolutions of the standing epoch. -/
theorem of_levels {deliveries : List StreamDelivery} {changed : Bool} (hl : after.levels = before.levels)
    (he : after.continuity.epoch = before.continuity.epoch) (hr : before.revision ≤ after.revision)
    (hd : ∀ d ∈ deliveries, ∃ revision cursor resolution, d = .resolution revision cursor resolution ∧
      cursor.epoch = after.continuity.epoch)
    (hu : changed = false → after = before ∧ deliveries = []) : StreamMove before after deliveries changed where
  epoch_le := he.ge
  revision_le := hr
  epoch_eq d h := by
    obtain ⟨_, _, _, rfl, heq⟩ := hd d h
    exact heq
  newer revision cursor mutation h := by
    obtain ⟨_, _, _, heq, -⟩ := hd _ h
    cases heq
  unchanged := hu
  fenced _ hn := by
    refine absurd ?_ hn
    have hnone : deliveredRecords deliveries = [] := by
      rw [deliveredRecords, List.filterMap_eq_nil_iff]
      intro d h
      obtain ⟨_, _, _, rfl, -⟩ := hd d h
      rfl
    rw [Accounted, hnone, hl]
    exact economicallyEqual_iff.2 (Agree.refl depth before.levels)

/-- A commit that stays in its epoch and whose mutations account for it. -/
theorem of_commit (he : after.continuity.epoch = before.continuity.epoch)
    (hr : after.revision = before.revision + 1) (hc : commit.revision = before.revision + 1)
    (hm : ∀ r ∈ commit.mutations, r.cursor.epoch = after.continuity.epoch)
    (ha : ¬ AwaitsFirstBase before → Accounted before after commit.deliveries) :
    StreamMove before after commit.deliveries true where
  epoch_le := he.ge
  revision_le := by omega
  epoch_eq d h := by
    obtain ⟨r, hr, rfl⟩ := List.mem_map.1 h
    exact hm r hr
  newer revision cursor mutation h := by
    obtain ⟨r, -, heq⟩ := List.mem_map.1 h
    cases heq
    omega
  unchanged h := by cases h
  fenced hf hn := absurd (ha hf) hn

end StreamMove

theorem applySnapshot_move {candidate : Candidate}
    (h : book.applySnapshot candidate = .ok (book', commit)) : StreamMove book book' commit.deliveries true := by
  obtain ⟨_, next, -, -, -, -, step⟩ := OrderBook.applySnapshot_ok h
  cases step with
  | recoveryBase =>
    exact {
      epoch_le := by simp [OrderBook.accepted]
      revision_le := by simp [OrderBook.accepted]
      epoch_eq := by simp [BookCommit.deliveries]
      newer := by simp [BookCommit.deliveries]
      unchanged := by simp
      fenced := fun _ _ => by simp [OrderBook.accepted, BookCommit.deliveries] }
  | firstBase hc hnone _ =>
    refine .of_commit (by simp [OrderBook.accepted, hc]) rfl rfl (by simp) fun hf => ?_
    exact absurd ⟨hnone, by simp [hc]⟩ hf
  | checkpoint hc _ hagree =>
    exact .of_commit (by simp [OrderBook.accepted, hc]) rfl rfl (by simp) fun _ => hagree
  | diff hc _ _ hderived _ =>
    refine .of_commit (by simp [OrderBook.accepted, hc]) rfl rfl ?_ fun _ => ?_
    · exact recordChanges_epoch hderived (by simp)
    · refine .of_changes (accounts_snapshotChanges book.levels next) ?_
      simpa using recordChanges_changes (fun _ _ _ _ h => BookMutation.snapshotDiff_ok h) hderived

theorem applySourceDelta_move {candidate : Candidate}
    (h : book.applySourceDelta candidate = .ok (book', commit)) : StreamMove book book' commit.deliveries true := by
  obtain ⟨_, staged, epoch, position, _, mutations, _, -, -, -, hc, hstaged, -, hrec, -, rfl, rfl⟩ :=
    OrderBook.applySourceDelta_ok h
  refine .of_commit (by simp [OrderBook.accepted, hc]) rfl rfl ?_ fun _ => ?_
  · exact recordChanges_epoch hrec (by simp)
  · refine .of_changes (accounts_deltaChanges hstaged) ?_
    simpa using recordChanges_changes (fun _ _ _ _ h => BookMutation.sourceReported_ok h) hrec

theorem streamCall_move {deliveries : List StreamDelivery} {changed : Bool}
    (h : streamCall book call = .ok (book', deliveries, changed)) : StreamMove book book' deliveries changed := by
  cases call with
  | applySnapshot candidate =>
    simp only [streamCall, bind_eq_ok] at h
    obtain ⟨⟨after, commit⟩, happly, h⟩ := h
    cases h
    exact applySnapshot_move happly
  | applySourceDelta candidate =>
    simp only [streamCall, bind_eq_ok] at h
    obtain ⟨⟨after, commit⟩, happly, h⟩ := h
    cases h
    exact applySourceDelta_move happly
  | publishResolution resolution =>
    simp only [streamCall, bind_eq_ok] at h
    obtain ⟨⟨after, cursor⟩, hnote, h⟩ := h
    cases h
    obtain ⟨epoch, position, hc, -, rfl, rfl⟩ := OrderBook.noteStreamEvent_ok hnote
    exact .of_levels rfl (by simp [hc]) (Nat.le_refl _) (by simp) (by simp)
  | unsubscribe =>
    simp only [streamCall, bind_eq_ok] at h
    obtain ⟨⟨after, changed⟩, hun, h⟩ := h
    cases h
    rcases OrderBook.unsubscribe_ok hun with ⟨rfl, rfl⟩ | ⟨rfl, -, rfl⟩
    · exact .of_levels rfl rfl (Nat.le_refl _) (by simp) (by simp)
    · exact .of_levels rfl rfl (Nat.le_succ _) (by simp) (by simp)
  | reportContinuityLoss continuity authority =>
    simp only [streamCall, bind_eq_ok] at h
    obtain ⟨⟨after, changed⟩, hloss, h⟩ := h
    cases h
    rcases OrderBook.reportContinuityLoss_ok hloss with ⟨rfl, rfl, -⟩ | ⟨rfl, -, rfl⟩
    · exact .of_levels rfl rfl (Nat.le_refl _) (by simp) (by simp)
    · exact .of_levels rfl (by simp) (Nat.le_succ _) (by simp) (by simp)

/-! ## The in-process observer -/

theorem attachmentCursor_epoch (published : PublishedBook) :
    (attachmentCursor published).epoch = published.continuity.epoch := by
  unfold attachmentCursor
  split <;> simp_all

section
variable {σ ρ : Type} {channel : Operations StreamDelivery σ ρ} {s t : ObserverWorld σ ρ}

/-- A call on the writer: refused, or a move of the book whose state is published. -/
theorem ObserverWorld.step_call {call : WriterCall} (h : s.step channel (.call call) = some t) :
    s.writer.unsent = [] ∧ (t = s ∨ ∃ book deliveries changed, StreamMove s.writer.book book deliveries changed ∧
      t.writer = { s.writer with
        book, state := if changed then book.publish else s.writer.state, unsent := deliveries } ∧
      t.observer = s.observer) := by
  simp only [ObserverWorld.step] at h
  split at h
  · rename_i hunsent _
    refine ⟨hunsent, ?_⟩
    rw [BookWriter.call_eq] at h
    cases hcall : streamCall s.writer.book call with
    | error e => simp only [hcall, Except.map, Option.some.injEq] at h; exact .inl h.symm
    | ok moved =>
      obtain ⟨book, deliveries, changed⟩ := moved
      simp only [hcall, Except.map, Option.some.injEq] at h
      subst h
      refine .inr ⟨book, deliveries, changed, streamCall_move hcall, ?_, rfl⟩
      cases changed with
      | true => simp [BookWriter.publishThenSend, hunsent]
      | false => simp [(streamCall_move hcall).unchanged rfl, hunsent]
  · cases h

/-- What a step that calls nothing does: the writer sends or is dropped, or the attachment receives, moves its receiver,
or starts over from the published state. -/
inductive ObserverWorld.Quiet (channel : Operations StreamDelivery σ ρ) (s t : ObserverWorld σ ρ) : ObserverEvent → Prop
  | send {delivery rest} (unsent : s.writer.unsent = delivery :: rest) (observer : t.observer = s.observer)
      (writer : t.writer =
        { s.writer with deliveries := channel.send s.writer.deliveries delivery, unsent := rest }) :
      Quiet channel s t .send
  | close (observer : t.observer = s.observer)
      (writer : t.writer = { s.writer with deliveries := channel.close s.writer.deliveries }) : Quiet channel s t .close
  | attach (observer : t.observer = some (s.writer.attach channel)) (writer : t.writer = s.writer) :
      Quiet channel s t .attach
  | resubscribe {o} (before : s.observer = some o) (writer : t.writer = s.writer)
      (observer : t.observer = some (o.resubscribe channel s.writer.deliveries)) : Quiet channel s t .resubscribe
  | restart {o} (before : s.observer = some o) (writer : t.writer = s.writer)
      (observer : t.observer = some (o.restart s.writer.state)) : Quiet channel s t .restart
  | receive {o} (before : s.observer = some o) (writer : t.writer = s.writer)
      (observer : t.observer = some (o.receive channel s.writer.deliveries).1) : Quiet channel s t .receive

theorem ObserverWorld.step_quiet {e : ObserverEvent} (h : s.step channel e = some t) :
    (∃ call, e = .call call) ∨ s.Quiet channel t e := by
  cases e with
  | call call => exact .inl ⟨call, rfl⟩
  | send =>
    simp only [ObserverWorld.step] at h
    split at h
    · cases h
    · rename_i hunsent
      cases h
      exact .inr (.send hunsent rfl rfl)
  | close =>
    simp only [ObserverWorld.step] at h
    split at h
    · cases h
      exact .inr (.close rfl rfl)
    · cases h
  | attach =>
    obtain ⟨-, h⟩ := Option.ite_none_left_eq_some.1 h
    cases h
    exact .inr (.attach rfl rfl)
  | resubscribe =>
    obtain ⟨-, h⟩ := Option.ite_none_left_eq_some.1 h
    obtain ⟨o, ho, rfl⟩ := Option.map_eq_some_iff.1 h
    exact .inr (.resubscribe ho rfl rfl)
  | restart =>
    obtain ⟨-, h⟩ := Option.ite_none_right_eq_some.1 h
    obtain ⟨o, ho, rfl⟩ := Option.map_eq_some_iff.1 h
    exact .inr (.restart ho rfl rfl)
  | receive =>
    obtain ⟨-, h⟩ := Option.ite_none_left_eq_some.1 h
    obtain ⟨o, ho, rfl⟩ := Option.map_eq_some_iff.1 h
    exact .inr (.receive ho rfl rfl)

/-- What holds of every attachment while nothing is known about later commits. -/
structure ObserverWorld.Inv (s : ObserverWorld σ ρ) : Prop where
  current : s.writer.state = s.writer.book.publish
  boundary : ∀ o, s.observer = some o → o.boundary.epoch ≤ s.writer.book.continuity.epoch
  resumeAfter : ∀ o, s.observer = some o → o.resumeAfter ≤ s.writer.book.revision
  lost : ∀ o e, s.observer = some o → o.lost = some e → ∃ reason missed, e = .continuityLost reason missed

/-- What receiving cannot move: the attachment's boundary and revision. A loss it records is a continuity loss. -/
structure BookObserver.Kept (o o' : BookObserver ρ) : Prop where
  boundary : o'.boundary = o.boundary
  resumeAfter : o'.resumeAfter = o.resumeAfter
  lost : ∀ e, o'.lost = some e → o.lost = some e ∨ ∃ reason missed, e = .continuityLost reason missed

variable {o o' : BookObserver ρ}

theorem BookObserver.Kept.same (hb : o'.boundary = o.boundary) (hr : o'.resumeAfter = o.resumeAfter)
    (hl : o'.lost = o.lost) : o.Kept o' :=
  ⟨hb, hr, fun _ h => .inl (hl ▸ h)⟩

theorem BookObserver.Kept.fails {reason : ContinuityReason} {missed : Nat} (hb : o'.boundary = o.boundary)
    (hr : o'.resumeAfter = o.resumeAfter) (hl : o'.lost = some (.continuityLost reason missed)) : o.Kept o' :=
  ⟨hb, hr, fun _ h => .inr ⟨reason, missed, Option.some.inj (h.symm.trans hl)⟩⟩

theorem BookObserver.resolve_kept (o : BookObserver ρ) (resumed : Option MutationCursor) :
    o.Kept (o.resolve resumed).1 := by
  unfold BookObserver.resolve
  split
  · exact .same rfl rfl rfl
  · split
    · exact .same rfl rfl rfl
    · exact .fails rfl rfl rfl

theorem BookObserver.admitDelivery_kept (o : BookObserver ρ) (delivery : StreamDelivery) :
    o.Kept (o.admitDelivery delivery).1 := by
  unfold BookObserver.admitDelivery
  split
  · exact .same rfl rfl rfl
  · split
    · exact .fails rfl rfl rfl
    · have hk := o.resolve_kept (some delivery.cursor)
      split
      · rename_i heq
        rwa [heq] at hk
      · rename_i heq
        rw [heq] at hk
        exact ⟨hk.boundary, hk.resumeAfter, hk.lost⟩

theorem BookObserver.receive_kept (o : BookObserver ρ) (deliveries : σ) : o.Kept (o.receive channel deliveries).1 := by
  unfold BookObserver.receive
  split
  · exact .same rfl rfl rfl
  · split
    · rename_i delivery receiver _
      have hk := ({ o with receiver } : BookObserver ρ).admitDelivery_kept delivery
      exact ⟨hk.boundary, hk.resumeAfter, hk.lost⟩
    · exact .same rfl rfl rfl
    · exact .same rfl rfl rfl
    · unfold BookObserver.atClose
      have hk := o.resolve_kept none
      split
      · rename_i heq
        rwa [heq] at hk
      · rename_i heq
        rw [heq] at hk
        exact ⟨hk.boundary, hk.resumeAfter, hk.lost⟩

theorem ObserverWorld.start_inv (book : OrderBook) (deliveries : σ) :
    (ObserverWorld.start book deliveries : ObserverWorld σ ρ).Inv := by
  refine ⟨rfl, ?_, ?_, ?_⟩ <;> intro o <;> simp [ObserverWorld.start]

theorem ObserverWorld.Inv.kept (hi : s.Inv) (ho : s.observer = some o) (hw : t.writer = s.writer)
    (ht : t.observer = some o') (hk : o.Kept o') : t.Inv := by
  refine ⟨by rw [hw, hi.current], fun _ h => ?_, fun _ h => ?_, fun _ e h hl => ?_⟩ <;>
    obtain rfl := Option.some.inj (ht.symm.trans h)
  · rw [hk.boundary, hw]
    exact hi.boundary o ho
  · rw [hk.resumeAfter, hw]
    exact hi.resumeAfter o ho
  · exact (hk.lost e hl).elim (hi.lost o e ho) id

/-- An attachment that has just read the published state. -/
theorem ObserverWorld.Inv.fresh (hi : s.Inv) (hw : t.writer = s.writer) (ht : t.observer = some o)
    (hb : o.boundary = attachmentCursor s.writer.state) (hr : o.resumeAfter = s.writer.state.revision)
    (hl : o.lost = none) : t.Inv := by
  refine ⟨by rw [hw, hi.current], fun _ h => ?_, fun _ h => ?_, fun _ e h he => ?_⟩ <;>
    obtain rfl := Option.some.inj (ht.symm.trans h)
  · rw [hb, hw, attachmentCursor_epoch, hi.current]
    exact le_rfl
  · rw [hr, hw, hi.current]
    exact le_rfl
  · rw [hl] at he
    cases he

theorem ObserverWorld.Inv.step {e : ObserverEvent} (hi : s.Inv) (h : s.step channel e = some t) : t.Inv := by
  rcases ObserverWorld.step_quiet h with ⟨call, rfl⟩ | hquiet
  · obtain ⟨-, rfl | ⟨book, deliveries, changed, hm, hw, ho⟩⟩ := ObserverWorld.step_call h
    · exact hi
    · refine ⟨?_, ?_, ?_, ?_⟩
      · rw [hw]
        cases changed with
        | true => rfl
        | false => simp [hi.current, (hm.unchanged rfl).1]
      · intro o hobs
        rw [hw]
        exact (hi.boundary o (ho ▸ hobs)).trans hm.epoch_le
      · intro o hobs
        rw [hw]
        exact (hi.resumeAfter o (ho ▸ hobs)).trans hm.revision_le
      · intro o e hobs
        exact hi.lost o e (ho ▸ hobs)
  · cases hquiet with
    | send _ ho hw | close ho hw =>
      refine ⟨by rw [hw, hi.current], ?_, ?_, ?_⟩ <;> rw [ho]
      · simpa only [hw] using hi.boundary
      · simpa only [hw] using hi.resumeAfter
      · exact hi.lost
    | attach ho hw => exact hi.fresh hw ho rfl rfl rfl
    | resubscribe hbefore hw ho => exact hi.kept hbefore hw ho (.same rfl rfl rfl)
    | restart _ hw ho => exact hi.fresh hw ho rfl rfl rfl
    | receive hbefore hw ho => exact hi.kept hbefore hw ho (BookObserver.receive_kept _ _)

/-- A delivery of a later epoch than the fenced attachments'. -/
def StreamDelivery.Beyond (epoch revision : Nat) (delivery : StreamDelivery) : Prop :=
  epoch ≤ delivery.cursor.epoch ∧ ∀ r cursor mutation, delivery = .mutation r cursor mutation → revision < r

/-- No delivery from the `count`-th sent on belongs to the epoch the attachment follows. -/
structure ObserverWorld.Fenced (sent : σ → List StreamDelivery) (epoch revision count : Nat) (s : ObserverWorld σ ρ) :
    Prop where
  epoch_le : epoch ≤ s.writer.book.continuity.epoch
  revision_le : revision ≤ s.writer.book.revision
  count_le : count ≤ (sent s.writer.deliveries).length
  sent_beyond : ∀ d ∈ (sent s.writer.deliveries).drop count, d.Beyond epoch revision
  unsent_beyond : ∀ d ∈ s.writer.unsent, d.Beyond epoch revision
  boundary : ∀ o, s.observer = some o → o.boundary.epoch < epoch
  resumeAfter : ∀ o, s.observer = some o → o.resumeAfter ≤ revision

variable {sent : σ → List StreamDelivery} {position : ρ → Nat}

/-- An unaccounted commit fences whatever was attached before it. -/
theorem ObserverWorld.Inv.fenced {call : WriterCall} (hi : s.Inv) (h : s.step channel (.call call) = some t)
    (hf : ¬ AwaitsFirstBase s.writer.book) (hn : ¬ Accounted s.writer.book t.writer.book t.writer.unsent) :
    t.Fenced sent t.writer.book.continuity.epoch s.writer.book.revision (sent t.writer.deliveries).length := by
  obtain ⟨hunsent, rfl | ⟨book, deliveries, changed, hm, hw, ho⟩⟩ := ObserverWorld.step_call h
  · -- a refused call changes nothing, so there is nothing to account for
    refine absurd ?_ hn
    rw [Accounted, hunsent]
    exact economicallyEqual_iff.2 (Agree.refl depth t.writer.book.levels)
  · rw [hw] at hn
    obtain ⟨hepoch, hrev, rfl, -⟩ := hm.fenced hf hn
    refine ⟨Nat.le_refl _, ?_, Nat.le_refl _, ?_, ?_, ?_, ?_⟩
    · rw [hw]
      exact hrev.le
    · simp
    · simp [hw]
    · intro o hobs
      rw [hw]
      exact (hi.boundary o (ho ▸ hobs)).trans_lt hepoch
    · intro o hobs
      exact hi.resumeAfter o (ho ▸ hobs)

/-- The consumer has not started over. -/
def ObserverEvent.keepsAttachment : ObserverEvent → Bool
  | .attach | .resubscribe | .restart => false
  | _ => true

theorem ObserverWorld.Fenced.step {epoch revision count : Nat} {e : ObserverEvent} (hlaw : channel.Lawful sent position)
    (hf : s.Fenced sent epoch revision count) (hk : e.keepsAttachment) (h : s.step channel e = some t) :
    t.Fenced sent epoch revision count := by
  rcases ObserverWorld.step_quiet h with ⟨call, rfl⟩ | hquiet
  · obtain ⟨-, rfl | ⟨book, deliveries, changed, hm, hw, ho⟩⟩ := ObserverWorld.step_call h
    · exact hf
    · have hunsent : ∀ d ∈ deliveries, d.Beyond epoch revision := by
        intro d hd
        refine ⟨?_, fun r cursor mutation heq => ?_⟩
        · exact (hf.epoch_le.trans hm.epoch_le).trans (hm.epoch_eq d hd).ge
        · exact hf.revision_le.trans_lt (hm.newer r cursor mutation (heq ▸ hd))
      constructor
      · simpa only [hw] using hf.epoch_le.trans hm.epoch_le
      · simpa only [hw] using hf.revision_le.trans hm.revision_le
      · simpa only [hw] using hf.count_le
      · simpa only [hw] using hf.sent_beyond
      · simpa only [hw] using hunsent
      · simpa only [ho] using hf.boundary
      · simpa only [ho] using hf.resumeAfter
  · cases hquiet with
    | @send delivery rest hunsent ho hw =>
      have hcount : count ≤ (sent s.writer.deliveries).length := hf.count_le
      refine ⟨?_, ?_, ?_, ?_, ?_, ho ▸ hf.boundary, ho ▸ hf.resumeAfter⟩ <;> rw [hw]
      · exact hf.epoch_le
      · exact hf.revision_le
      · rw [hlaw.sent_send, List.length_append]
        exact hcount.trans (Nat.le_add_right _ _)
      · intro d hd
        rw [hlaw.sent_send, List.drop_append_of_le_length hcount, List.mem_append, List.mem_singleton] at hd
        rcases hd with hd | rfl
        · exact hf.sent_beyond d hd
        · exact hf.unsent_beyond d (by simp [hunsent])
      · intro d hd
        exact hf.unsent_beyond d (by simp_all)
    | close ho hw =>
      refine ⟨?_, ?_, ?_, ?_, ?_, ho ▸ hf.boundary, ho ▸ hf.resumeAfter⟩ <;> rw [hw]
      · exact hf.epoch_le
      · exact hf.revision_le
      · simpa only [hlaw.sent_close] using hf.count_le
      · simpa only [hlaw.sent_close] using hf.sent_beyond
      · exact hf.unsent_beyond
    | attach | resubscribe | restart => cases hk
    | @receive o hbefore hw ho =>
      have hkept : o.Kept (o.receive channel s.writer.deliveries).1 := o.receive_kept _
      constructor
      · simpa only [hw] using hf.epoch_le
      · simpa only [hw] using hf.revision_le
      · simpa only [hw] using hf.count_le
      · simpa only [hw] using hf.sent_beyond
      · simpa only [hw] using hf.unsent_beyond
      · intro o' ho'
        obtain rfl := Option.some.inj (ho.symm.trans ho')
        exact hkept.boundary ▸ hf.boundary o hbefore
      · intro o' ho'
        obtain rfl := Option.some.inj (ho.symm.trans ho')
        exact hkept.resumeAfter ▸ hf.resumeAfter o hbefore

/-- A delivery beyond the fence is refused, and the loss stays. -/
theorem BookObserver.admitDelivery_beyond {epoch revision : Nat} {d : StreamDelivery}
    (hb : o.boundary.epoch < epoch) (hr : o.resumeAfter ≤ revision) (hd : d.Beyond epoch revision) :
    ∃ missed, (o.admitDelivery d).2 = .failed (.continuityLost .recoveryBase missed) ∧
      (o.admitDelivery d).1.lost = some (.continuityLost .recoveryBase missed) := by
  have hepoch := hb.trans_le hd.1
  have hfresh : o.redundant d = false := by
    cases d with
    | mutation r cursor mutation => simpa [BookObserver.redundant] using hr.trans_lt (hd.2 r cursor mutation rfl)
    | resolution r cursor resolution =>
      have hc : o.boundary.epoch < cursor.epoch := hepoch
      simp only [BookObserver.redundant, decide_eq_false_iff_not]
      omega
  unfold BookObserver.admitDelivery
  rw [if_neg (by simp [hfresh]), if_pos hepoch.ne']
  exact ⟨_, rfl, rfl⟩

/-- A receive that takes one of the deliveries from the `count`-th on fails. -/
theorem ObserverWorld.Fenced.receive {epoch revision count : Nat} {next : ρ} {d : StreamDelivery}
    (hlaw : channel.Lawful sent position) (hf : s.Fenced sent epoch revision count) (ho : s.observer = some o)
    (hl : o.lost = none) (hp : count ≤ position o.receiver)
    (ht : channel.tryRecv s.writer.deliveries o.receiver = .value d next) :
    ∃ missed, (o.receive channel s.writer.deliveries).2 = .failed (.continuityLost .recoveryBase missed) ∧
      (o.receive channel s.writer.deliveries).1.lost = some (.continuityLost .recoveryBase missed) := by
  have hd : d ∈ (sent s.writer.deliveries).drop count := by
    apply List.mem_of_getElem? (i := position o.receiver - count)
    rw [List.getElem?_drop, Nat.add_sub_cancel' hp]
    exact hlaw.value _ _ _ _ ht
  unfold BookObserver.receive
  rw [hl]
  simp only [ht]
  exact BookObserver.admitDelivery_beyond (hf.boundary o ho) (hf.resumeAfter o ho) (hf.sent_beyond d hd)

/-- How an attachment treats what is sent from the `count`-th delivery on: it accepts none of it, the receive that
would return one fails, and a failure is repeated. -/
structure BookObserver.Refuses (channel : Operations StreamDelivery σ ρ) (position : ρ → Nat) (o : BookObserver ρ)
    (deliveries : σ) (count : Nat) : Prop where
  accepts : ∀ d, (o.receive channel deliveries).2 = .delivered d → position o.receiver < count
  fails : o.lost = none → count ≤ position o.receiver →
    ∀ d next, channel.tryRecv deliveries o.receiver = .value d next →
      ∃ missed, (o.receive channel deliveries).2 = .failed (.continuityLost .recoveryBase missed) ∧
        (o.receive channel deliveries).1.lost = some (.continuityLost .recoveryBase missed)
  stays : ∀ e, o.lost = some e → (∃ reason missed, e = .continuityLost reason missed) ∧
    ∀ deliveries, o.receive channel deliveries = (o, .failed e)

theorem BookObserver.receive_lost {e : ObserverRecvError} (h : o.lost = some e) (deliveries : σ) :
    o.receive channel deliveries = (o, .failed e) := by
  unfold BookObserver.receive
  rw [h]

theorem BookObserver.receive_delivered {deliveries : σ} {d : StreamDelivery}
    (h : (o.receive channel deliveries).2 = .delivered d) :
    o.lost = none ∧ ∃ d' next, channel.tryRecv deliveries o.receiver = .value d' next := by
  cases hl : o.lost with
  | some e => simp [BookObserver.receive_lost hl] at h
  | none =>
    refine ⟨rfl, ?_⟩
    unfold BookObserver.receive at h
    rw [hl] at h
    dsimp only at h
    split at h
    · rename_i d' next ht
      exact ⟨d', next, ht⟩
    · cases h
    · cases h
    · unfold BookObserver.atClose at h
      split at h <;> cases h

theorem ObserverWorld.Fenced.refuses {epoch revision count : Nat} (hlaw : channel.Lawful sent position) (hi : s.Inv)
    (hf : s.Fenced sent epoch revision count) (ho : s.observer = some o) :
    o.Refuses channel position s.writer.deliveries count where
  accepts d hd := by
    obtain ⟨hl, d', next, ht⟩ := BookObserver.receive_delivered hd
    by_contra hp
    obtain ⟨missed, hfail, -⟩ := hf.receive hlaw ho hl (Nat.le_of_not_lt hp) ht
    rw [hfail] at hd
    cases hd
  fails hl hp d next ht := hf.receive hlaw ho hl hp ht
  stays e hl := ⟨hi.lost o e ho hl, BookObserver.receive_lost hl⟩

end

end PmWs
