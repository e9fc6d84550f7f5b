import PmWs.Limitless.Shard.Sessions
import Mathlib.Logic.Equiv.Basic

/-!
# What clears a reissue

One reissue state serves every connection that takes the publishing role. It is
cleared by whatever ends the role's connection, and the connection that takes
the role next was a standby's.
-/

namespace PmWs

/-! ## Where a session comes from -/

namespace Wiring

variable {w w' w'' : Wiring}

/-- Every session was there before, in its own role or in a standby's, and stays established. -/
structure Descends (w w' : Wiring) : Prop where
  next : w'.next = w.next
  origin : ∃ origin : Slot → Slot, Function.Injective origin ∧ ∀ slot session', w'.sessionAt slot = some session' →
    (origin slot = .primary → slot = .primary) ∧
    ∃ session, w.sessionAt (origin slot) = some session ∧ session.generation = session'.generation ∧
      (session.established = true → session'.established = true)

theorem Descends.refl (w : Wiring) : Descends w w :=
  ⟨rfl, id, Function.injective_id, fun _ session h => ⟨id, session, h, rfl, id⟩⟩

theorem Descends.trans (h₁ : Descends w w') (h₂ : Descends w' w'') : Descends w w'' := by
  obtain ⟨hnext₁, origin₁, hinj₁, h₁⟩ := h₁
  obtain ⟨hnext₂, origin₂, hinj₂, h₂⟩ := h₂
  refine ⟨hnext₂.trans hnext₁, origin₁ ∘ origin₂, hinj₁.comp hinj₂, ?_⟩
  intro slot last hlast
  obtain ⟨hrole₂, mid, hmid, hgen₂, hest₂⟩ := h₂ slot last hlast
  obtain ⟨hrole₁, first, hfirst, hgen₁, hest₁⟩ := h₁ (origin₂ slot) mid hmid
  exact ⟨fun h => hrole₂ (hrole₁ h), first, hfirst, hgen₁.trans hgen₂, fun h => hest₂ (hest₁ h)⟩

/-- Sessions that stay in their roles, or leave them. -/
theorem Descends.of_roles (hnext : w'.next = w.next) (h : ∀ slot session', w'.sessionAt slot = some session' →
    ∃ session, w.sessionAt slot = some session ∧ session.generation = session'.generation ∧
      (session.established = true → session'.established = true)) : Descends w w' :=
  ⟨hnext, id, Function.injective_id, fun slot session' hs => ⟨id, h slot session' hs⟩⟩

theorem Descends.of_lines (hnext : w'.next = w.next) (h : w'.lines = w.lines) : Descends w w' := by
  refine .of_roles hnext fun slot session' hs => ⟨session', ?_, rfl, id⟩
  rw [← hs, sessionAt, sessionAt, h]

/-- A role's line changes, and its session at most becomes ready. -/
theorem Descends.update {slot : Slot} {f : Line → Line} (h : ∀ line session', w.lines slot = some line →
    (f line).session = some session' → ∃ session, line.session = some session ∧
      session.generation = session'.generation ∧ (session.established = true → session'.established = true)) :
    Descends w (w.update slot f) := by
  refine .of_roles rfl fun x session' hs => ?_
  rw [sessionAt_update] at hs
  split at hs
  · rename_i heq
    obtain ⟨line, hline, hsession⟩ := Option.bind_eq_some_iff.1 hs
    obtain ⟨session, hold, hgrown⟩ := h line session' (heq ▸ hline) hsession
    exact ⟨session, by simp [sessionAt, hline, hold], hgrown⟩
  · exact ⟨session', hs, rfl, id⟩

/-- A standby's session takes the publishing role, and leaves its own empty. -/
theorem Descends.take {index : Nat} {line : Line} {session : Session} (wire : Nat)
    (hline : w.lines (.standby index) = some line) (hs : line.session = some session) :
    Descends w (w.take index session wire) := by
  refine ⟨rfl, Equiv.swap .primary (.standby index), (Equiv.swap _ _).injective, ?_⟩
  intro slot session' hsession
  unfold Wiring.take at hsession
  rw [sessionAt_update] at hsession
  split at hsession
  · obtain ⟨_, _, hnone⟩ := Option.bind_eq_some_iff.1 hsession
    cases hnone
  · rename_i hstandby
    have hsession : (w.update .primary fun _ => ⟨some session, none, wire⟩).sessionAt slot = some session' := hsession
    rw [sessionAt_update] at hsession
    split at hsession
    · rename_i hprimary
      subst hprimary
      obtain ⟨_, _, hsame⟩ := Option.bind_eq_some_iff.1 hsession
      obtain rfl := Option.some.inj hsame
      refine ⟨fun _ => rfl, session, ?_, rfl, id⟩
      rw [Equiv.swap_apply_left]
      simp [sessionAt, hline, hs]
    · rename_i hprimary
      rw [Equiv.swap_apply_of_ne_of_ne hprimary hstandby]
      exact ⟨id, session', hsession, rfl, id⟩

theorem Move.descends (h : Move w w') : Descends w w' := by
  cases h with
  | confirm slot line session hline hs =>
    refine .update fun old session' hold hready => ⟨session, ?_, ?_, ?_⟩
    · rw [Option.some.inj (hold.symm.trans hline), hs]
    · rw [← Option.some.inj hready]
      rfl
    · intro _
      rw [← Option.some.inj hready]
      rfl
  | settle slot line session version hline hs =>
    have hlines : (w.carryOn session slot).lines = w.lines := by cases slot <;> rfl
    have hnext : (w.carryOn session slot).next = w.next := by cases slot <;> rfl
    refine (Descends.of_lines hnext hlines).trans (.update fun old session' hold hready => ⟨session, ?_, ?_, ?_⟩)
    · rw [hlines] at hold
      rw [Option.some.inj (hold.symm.trans hline), hs]
    · rw [← Option.some.inj hready]
      rfl
    · intro _
      rw [← Option.some.inj hready]
      rfl
  | drop slot =>
    have hlines : (w.leave slot).lines = w.lines := by cases slot <;> rfl
    have hnext : (w.leave slot).next = w.next := by cases slot <;> rfl
    refine (Descends.of_lines hnext hlines).trans (.update fun old session' hold hs => ?_)
    cases hs
  | take index primary line session hrole hfree hline hs => exact .take _ hline hs
  | wire slot line session hline hs => exact .update fun old session' hold hs' => ⟨session', hs', rfl, id⟩
  | shed =>
    refine .of_roles rfl fun slot session' hs => ?_
    obtain ⟨line, hline, hnone⟩ := Option.bind_eq_some_iff.1 hs
    obtain ⟨old, -, rfl⟩ := Option.map_eq_some_iff.1 hline
    cases hnone
  | install | unwant | close => exact .of_lines rfl rfl

theorem moves_descend (h : Moves w w') : Descends w w' := by
  induction h with
  | refl => exact .refl w
  | tail _ hmove ih => exact ih.trans hmove.descends

/-- The publishing role is empty, or a session of `w`'s standbys has it. -/
def Yields (w w' : Wiring) : Prop :=
  ∀ session', w'.sessionAt .primary = some session' →
    ∃ index session, w.sessionAt (.standby index) = some session ∧ session.generation = session'.generation

theorem Yields.of_none (h : w'.sessionAt .primary = none) : Yields w w' := by
  intro session' hs
  rw [h] at hs
  cases hs

theorem drop_primary (w : Wiring) : (w.drop .primary).sessionAt .primary = none := by
  unfold Wiring.drop
  rw [sessionAt_update, if_pos rfl]
  cases (w.leave .primary).lines .primary <;> rfl

/-- What follows the end of the publishing session moves only the sessions that are left. -/
theorem Yields.of_drop (h : Moves (w.drop .primary) w') : Yields w w' := by
  intro session' hs
  obtain ⟨-, origin, -, horigin⟩ := moves_descend h
  obtain ⟨-, session, hsession, hgen, -⟩ := horigin .primary session' hs
  cases hslot : origin .primary with
  | primary =>
    rw [hslot, drop_primary] at hsession
    cases hsession
  | standby index =>
    rw [hslot] at hsession
    unfold Wiring.drop at hsession
    rw [sessionAt_update, if_neg (by simp)] at hsession
    exact ⟨index, session, hsession, hgen⟩

end Wiring

namespace Shard

variable {s t : Shard} {slot : Slot} {slug : String}

/-! ## What leaves the reissue alone -/

@[simp] theorem updateSlot_reissue (s : Shard) (slot : Slot) (f : ConnectionSlot → ConnectionSlot) :
    (s.updateSlot slot f).reissue = s.reissue := by
  cases slot <;> rfl

@[simp] theorem updateActive_reissue (s : Shard) (slot : Slot) (f : ActiveConnection → ActiveConnection) :
    (s.updateActive slot f).reissue = s.reissue := s.updateSlot_reissue slot _

@[simp] theorem recountRecovering_reissue (s : Shard) : s.recountRecovering.reissue = s.reissue := rfl

@[simp] theorem refreshAgreement_reissue (s : Shard) (slug : String) :
    (s.refreshAgreement slug).reissue = s.reissue := by
  unfold refreshAgreement
  induction List.range s.standbys.length generalizing s with
  | nil => rfl
  | cons index rest ih => exact ih (s.refreshShadowAgreement index slug)

@[simp] theorem publishSegmentState_reissue (s : Shard) (slug : String) :
    (s.publishSegmentState slug).reissue = s.reissue := by
  unfold publishSegmentState
  split <;> rfl

@[simp] theorem publishSegmentCommit_reissue (s : Shard) (slug : String) (commit : BookCommit) :
    (s.publishSegmentCommit slug commit).reissue = s.reissue := by
  unfold publishSegmentCommit
  split <;> rfl

@[simp] theorem close_reissue (s : Shard) (slug : String) : (s.close slug).reissue = s.reissue := by
  unfold Shard.close
  split <;> rfl

@[simp] theorem closeRemoved_reissue (s : Shard) : s.closeRemoved.reissue = s.reissue := by
  unfold closeRemoved
  generalize s.removedSlugs = slugs
  induction slugs generalizing s with
  | nil => rfl
  | cons slug rest ih => exact (ih (s.close slug)).trans (s.close_reissue slug)

@[simp] theorem carry_reissue (s : Shard) (connection : ActiveConnection)
    (subscription : MarketEntry → SubscriptionState) : (s.carry connection subscription).reissue = s.reissue := by
  unfold carry
  induction connection.markets generalizing s with
  | nil => rfl
  | cons slug rest ih => exact ih (s.updateMarket slug _)

@[simp] theorem spawnSlot_reissue (s : Shard) (slot : Slot) : (s.spawnSlot slot).reissue = s.reissue := by
  unfold spawnSlot
  split
  · rfl
  · cases slot <;> rfl

@[simp] theorem settleDial_reissue (s : Shard) (slot : Slot) : (s.settleDial slot).reissue = s.reissue := by
  unfold settleDial
  split
  · rfl
  · dsimp only
    split
    · simp
    · cases slot <;> simp [carryDialled]

@[simp] theorem reportMarketLoss_reissue (s : Shard) (slug : String) (continuity : ContinuityReason)
    (authority : AuthorityReason) : (s.reportMarketLoss slug continuity authority).reissue = s.reissue := by
  unfold reportMarketLoss
  split
  · simp
  · dsimp only
    split <;> split <;> simp [mutateMarket]

@[simp] theorem reportShardLoss_reissue (s : Shard) (continuity : ContinuityReason) (authority : AuthorityReason) :
    (s.reportShardLoss continuity authority).reissue = s.reissue := by
  unfold reportShardLoss
  split <;> rfl

theorem reportRailLoss_reissue (s : Shard) (slot : Slot) (continuity : ContinuityReason) (authority : AuthorityReason) :
    (s.reportRailLoss slot continuity authority).reissue = s.reissue := by
  cases slot with
  | primary => exact s.reportShardLoss_reissue continuity authority
  | standby index =>
    unfold reportRailLoss
    dsimp only
    split <;> simp [updateStandby]

@[simp] theorem applyAuthoritative_reissue (s : Shard) (slot : Slot) (slug : String) (candidate : Candidate)
    (settle : MarketEntry → MarketEntry) : (s.applyAuthoritative slot slug candidate settle).reissue = s.reissue := by
  unfold applyAuthoritative
  split
  · simp
  · split <;> simp [updateMarket, mutateMarket]

@[simp] theorem withdrawLicence_reissue (s : Shard) (reason : PoolDegradeReason) :
    (s.withdrawLicence reason).reissue = s.reissue := by
  unfold withdrawLicence
  split <;> rfl

theorem Mark.reissue {announced : Prop} (h : Mark announced slug s t) : t.reissue = s.reissue := by
  cases h with
  | placed | dropped | gated | noted => rfl
  | shadowed index market candidate =>
    unfold applyShadowCandidate
    split <;> rfl

theorem Frame.reissue {announced : Prop} (h : Frame announced s slot slug t) : t.reissue = s.reissue := by
  have hmarks {t : Shard} (h : Marks announced slug s t) : t.reissue = s.reissue := by
    induction h with
    | refl => rfl
    | tail _ hmark ih => exact hmark.reissue.trans ih
  cases h with
  | ignored h => exact hmarks h
  | delivered e u he haccepts h hreached =>
    refine Eq.trans ?_ (hmarks h)
    cases hreached with
    | kept => rfl
    | lost | applied | withdrawn => simp

theorem forwardResolution_reissue (s : Shard) (resolved : MarketResolved) (times : FrameTimes) (subscription : Nat) :
    (s.forwardResolution resolved times subscription).reissue = s.reissue := by
  unfold forwardResolution
  dsimp only
  split
  · rfl
  · split
    · rfl
    · split
      · rfl
      · split
        · rfl
        · split <;> rfl

theorem Changes.reissue (h : Changes s t) : t.reissue = s.reissue := by
  induction h with
  | refl => rfl
  | tail _ hchange ih =>
    refine Eq.trans ?_ ih
    cases hchange with
    | install slug installs => cases installs <;> subst_vars <;> rfl
    | unwant | queue => rfl
    | close slug => exact close_reissue _ slug

/-! ## What clears it -/

/-- The reissue stays as it is, or is cleared while no session or a standby's has the publishing role. -/
def Clears (s t : Shard) : Prop := t.reissue = s.reissue ∨ (t.reissue = .idle ∧ s.wiring.Yields t.wiring)

theorem takePublishingSlot_reissue (s : Shard) (look : Look) (h : s.reissue = .idle) :
    (s.takePublishingSlot look).reissue = .idle := by
  unfold takePublishingSlot
  split
  · exact h
  · split
    · exact h
    · show Shard.reissue (carry _ _ _) = _
      rw [carry_reissue]
      rfl

theorem onPoolSlotEnded_idle (s : Shard) (reason : ConnectionEndReason) (established handover : Bool) (clock : Clock) :
    (s.onPoolSlotEnded .primary reason established handover clock).reissue = .idle := by
  unfold onPoolSlotEnded
  dsimp only
  rw [recountRecovering_reissue]
  split
  · exact takePublishingSlot_reissue _ _ rfl
  · rfl

theorem onPoolSlotEnded_standby_reissue (s : Shard) (index : Nat) (reason : ConnectionEndReason)
    (established handover : Bool) (clock : Clock) :
    (s.onPoolSlotEnded (.standby index) reason established handover clock).reissue = s.reissue := by
  have hretired : (if established then s.retirePoolSocket (.standby index) else s).reissue = s.reissue := by
    split <;> rfl
  unfold onPoolSlotEnded
  dsimp only
  rw [recountRecovering_reissue]
  show (if established then s.retirePoolSocket (.standby index) else s).reissue = s.reissue
  exact hretired

theorem onConnectionEnded_idle (s : Shard) (reason : ConnectionEndReason) :
    (s.onConnectionEnded reason).reissue = .idle := by
  unfold onConnectionEnded
  show s.leavePublishing.closeRemoved.reissue = .idle
  rw [closeRemoved_reissue]
  rfl

theorem onPrimaryEnded_idle (s : Shard) (reason : ConnectionEndReason) (established : Bool) (clock : Clock) :
    (s.onPrimaryEnded reason established clock).reissue = .idle := by
  unfold onPrimaryEnded
  split
  · exact s.onConnectionEnded_idle reason
  · split
    · exact s.onConnectionEnded_idle reason
    · unfold promoteStandby applyPromotions
      show Shard.reissue (closeRemoved _) = .idle
      rw [closeRemoved_reissue]
      rfl

/-- The end of the publishing connection clears the reissue, and what has the role then was a standby's. -/
theorem closeSlot_clears (s : Shard) (slot : Slot) (connection : ActiveConnection) (reason : ConnectionEndReason)
    (clock : Clock) : Clears s (s.closeSlot slot connection reason clock) := by
  cases slot with
  | primary =>
    refine .inr ⟨?_, .of_drop (s.closeSlot_dropped connection reason clock)⟩
    unfold closeSlot onSlotEnded
    split
    · exact onPoolSlotEnded_idle _ _ _ _ _
    · exact onPrimaryEnded_idle _ _ _ _
  | standby index =>
    refine .inl ?_
    unfold closeSlot onSlotEnded
    split
    · rw [onPoolSlotEnded_standby_reissue]
      split
      · rw [reportShardLoss_reissue]
        rfl
      · rfl
    · rfl

theorem reconcileSlot_clears (s : Shard) (slot : Slot) (clock : Clock) : Clears s (s.reconcileSlot slot clock) := by
  unfold reconcileSlot
  split
  · exact .inl rfl
  · split
    · exact .inl rfl
    · split
      · exact .inl rfl
      · split
        · exact .inl rfl
        · split
          · exact .inl (by simp)
          · -- the connection is replaced
            dsimp only
            split
            · cases slot with
              | primary =>
                refine .inr ⟨onPoolSlotEnded_idle _ _ _ _ _, .of_drop ?_⟩
                exact onPoolSlotEnded_dropped _ _ _ _ (s.takeActive_wiring .primary)
              | standby index => exact .inl (onPoolSlotEnded_standby_reissue _ _ _ _ _ _)
            · cases slot with
              | primary =>
                refine .inr ⟨onConnectionEnded_idle _ _, .of_drop ?_⟩
                dsimp only
                rw [onConnectionEnded_wiring]
              | standby index => exact .inl rfl

theorem shedIdleConnection_clears (s : Shard) : Clears s s.shedIdleConnection := by
  unfold shedIdleConnection
  split
  · exact .inl rfl
  · refine .inr ⟨?_, .of_none ?_⟩
    · rw [recountRecovering_reissue, closeRemoved_reissue]
    · rw [(recountRecovering_plain _).wiring, closeRemoved_wiring]
      rfl

/-- What none of the notices about a command does to the reissue. -/
theorem onNotice_clears (s : Shard) (generation : Nat) {note : ConnectionNote} (look : Look)
    (hready : ∀ deadline subscription observedAt, note ≠ .ready deadline subscription observedAt)
    (hanswer : ∀ subscription, note ≠ .resubscribed subscription) : Clears s (s.onNotice generation note look) := by
  unfold onNotice
  split
  · exact .inl rfl
  · rename_i slot _
    cases note with
    | ready deadline subscription observedAt => exact absurd rfl (hready deadline subscription observedAt)
    | resubscribed subscription => exact absurd rfl (hanswer subscription)
    | heartbeat observedAt => exact .inl (updateActive_reissue _ _ _)
    | event event times subscription =>
      refine .inl ?_
      cases event with
      | orderbookUpdate update =>
        have hframe : Frame False s slot update.marketSlug _ := s.onEvent_frame slot update times subscription nofun
        exact hframe.reissue
      | marketResolved resolved =>
        dsimp only [onEvent]
        split
        · exact s.forwardResolution_reissue resolved times subscription
        · rfl
      | unknown name => rfl
    | decodeFailure bookRelevant =>
      dsimp only
      split
      · exact .inl (reportRailLoss_reissue _ _ _ _)
      · exact .inl rfl
    | overload dropped => exact .inl (reportRailLoss_reissue _ _ _ _)

/-- The connection a step hands a command to: a due reissue over an open channel. -/
def asks (self : Shard) : ShardEvent → Option Nat
  | .reissueDue look _ closed _ =>
    match (self.armReissue look.now).reissue with
    | .pending due => if due ≤ look.now ∧ closed = false then self.primary.active.map (·.generation) else none
    | _ => none
  | _ => none

theorem escalateReissue_clears (s : Shard) (clock : Clock) : Clears s (s.escalateReissue clock) := by
  unfold escalateReissue
  split
  · rename_i hnone
    refine .inr ⟨rfl, .of_none ?_⟩
    show (some s.primary.line).bind (·.session) = none
    simp [ConnectionSlot.line, hnone]
  · exact s.closeSlot_clears _ _ _ clock

/-- A due reissue asks an established connection, or asks nobody and leaves a requested one to be cleared. -/
theorem onReissueDue_asks (s : Shard) (look : Look) (grantedAt : Nat) (closed : Bool) (clock : Clock) :
    (∃ c due due', (s.armReissue look.now).reissue = .pending due ∧ s.primary.active = some c ∧
      s.asks (.reissueDue look grantedAt closed clock) = some c.generation ∧
      s.onReissueDue look grantedAt closed clock = { s.armReissue look.now with reissue := .requested due' }) ∨
    (s.asks (.reissueDue look grantedAt closed clock) = none ∧
      (Clears (s.armReissue look.now) (s.onReissueDue look grantedAt closed clock) ∨
        (∀ due, (s.armReissue look.now).reissue ≠ .requested due) ∧
          (s.onReissueDue look grantedAt closed clock).wiring = s.wiring)) := by
  unfold onReissueDue asks
  dsimp only
  have hprimary : (s.armReissue look.now).primary = s.primary := rfl
  have hwiring : (s.armReissue look.now).wiring = s.wiring := rfl
  generalize s.armReissue look.now = armed at hprimary hwiring
  cases hreissue : armed.reissue with
  | pending due =>
    simp only [Reissue.wakeAt, Option.any_some, decide_eq_true_eq]
    by_cases hdue : due ≤ look.now
    · rw [if_pos hdue]
      cases hc : s.primary.active with
      | none =>
        exact .inr ⟨by simp, .inr ⟨by simp, hwiring⟩⟩
      | some c =>
        cases closed with
        | true => exact .inr ⟨by simp, .inr ⟨by simp, hwiring⟩⟩
        | false =>
          refine .inl ⟨c, due, grantedAt + armed.config.resubscribeWindow, rfl, rfl, by simp [hdue], ?_⟩
          simp [emitReissue, hprimary, hc]
    · rw [if_neg hdue]
      exact .inr ⟨by simp [hdue], .inl (.inl rfl)⟩
  | requested due =>
    refine .inr ⟨rfl, .inl ?_⟩
    dsimp only
    split
    · exact armed.escalateReissue_clears clock
    · exact .inl rfl
  | awaiting due =>
    refine .inr ⟨rfl, ?_⟩
    dsimp only
    split
    · split
      · exact .inl (armed.escalateReissue_clears clock)
      · exact .inr ⟨by simp, hwiring⟩
    · exact .inl (.inl rfl)
  | idle | unreachable =>
    refine .inr ⟨rfl, .inl (.inl ?_)⟩
    dsimp only
    split <;> rfl

end Shard

end PmWs
