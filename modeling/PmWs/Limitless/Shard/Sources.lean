import PmWs.Limitless.Shard.Shadows

/-!
# No live market without a source

The coverage tests a shard makes when a connection ends look at slugs alone, so
between two waits a live market may be left with a connection that never dialled
it as it is installed now. Following the set repairs that. Whenever the shard is
about to wait, every live market it wants has a source.
-/

open MachineInt Tables Runs

namespace PmWs

namespace Shard

variable {s t u : Shard} {slot : Slot} {slug : String} {e e' : MarketEntry} {index : Nat}

/-- Every wanted market that is live is covered by a session, unless its revisions are spent. -/
def Sourced (s : Shard) : Prop := ∀ (slug : String) e, s.markets[slug]? = some e → e.desired = true → e.live = true →
  e.Spent ∨ s.wiring.Covered s.poolArmed slug e.member

theorem members_of_some (he : s.markets[slug]? = some e) : s.wiring.members slug = some e.member := by simp [wiring, he]

/-- Markets that go on from covered ones are covered, where the sessions that covered them still do. -/
theorem Sourced.idle (h : s.Sourced) (hi : Idle s t)
    (hmembers : ∀ slug member member', s.wiring.members slug = some member → t.wiring.members slug = some member' →
      (member'.desired = true → member.desired = true) ∧
        (s.wiring.Covered s.poolArmed slug member → t.wiring.Covered s.poolArmed slug member')) : t.Sourced := by
  intro slug e' he' hd hlive
  rcases hi.entries slug e' he' with ⟨e, he, hidle⟩ | hnew
  · obtain ⟨hdesired, hcovered⟩ := hmembers slug e.member e'.member (members_of_some he) (members_of_some he')
    have harmed : t.poolArmed = s.poolArmed := by rw [poolArmed, poolArmed, hi.redundancy]
    rw [harmed]
    exact (h slug e he (hdesired hd) (hidle.live hlive)).imp (·.idle hidle) hcovered
  · simp [hnew.live] at hlive

theorem Sourced.of_quiet (h : ∀ (slug : String) e, s.markets[slug]? = some e → e.Quiet) : s.Sourced :=
  fun slug e he _ hlive => .inl (h slug e he hlive)

theorem Sourced.plain (h : s.Sourced) (hp : Plain s t) : t.Sourced := by
  refine h.idle hp.idle fun slug member member' hm hm' => ?_
  rw [hp.wiring] at hm' ⊢
  obtain rfl := Option.some.inj (hm.symm.trans hm')
  exact ⟨id, id⟩

/-! ## Frames -/

/-- A frame that touches one market leaves the others covered. -/
theorem Sourced.touched (h : s.Sourced) (ht : Touched s t slug e e') (hwiring : t.wiring = s.wiring)
    (hown : e'.desired = true → e'.live = true → e'.Spent ∨ s.wiring.Covered s.poolArmed slug e'.member) : t.Sourced := by
  intro k e₁ he₁ hd hlive
  have harmed : t.poolArmed = s.poolArmed := by rw [poolArmed, poolArmed, ht.redundancy]
  rw [harmed, hwiring]
  by_cases hk : k = slug
  · subst hk
    obtain rfl := Option.some.inj (ht.stored.symm.trans he₁)
    exact hown hd hlive
  · exact h k e₁ (ht.others k hk ▸ he₁) hd hlive

theorem Sourced.marked (h : s.Sourced) (hm : Marked s t) : t.Sourced := by
  intro slug e' he' hd hlive
  obtain ⟨e, he, hn⟩ := hm.entries.of_some he'
  have harmed : t.poolArmed = s.poolArmed := by rw [poolArmed, poolArmed, hm.redundancy]
  rw [harmed, hm.wiring, hn.member]
  exact (h slug e he (hn.desired ▸ hd) (hn.live ▸ hlive)).imp_left hn.spent.2

/-- What a withdrawn licence leaves live is subscribed from the publishing session. -/
theorem MarketEntry.handBack_live (h : e.Sound) (running : Option Nat) (hlive : (e.handBack running).entry.live = true) :
    (e.handBack running).entry.Spent ∨ running.isSome = true ∧ (e.handBack running).entry.subscribedFrom = running := by
  revert hlive
  unfold MarketEntry.handBack
  dsimp only
  split
  · rename_i hcarried
    simp only [Bool.and_eq_true, decide_eq_true_eq] at hcarried
    exact fun _ => .inr hcarried.1
  · split
    · rename_i hout
      intro hlive
      have hlive : e.live = true := hlive
      have hterminal : e.unavailableReported = true := by simpa [h.base hlive, MarketEntry.terminal] using hout
      exact .inl (h.terminal hterminal hlive)
    · exact fun hlive => .inl (MarketEntry.reportContinuityLoss_quiet _ _ _ hlive)

theorem withdrawLicence_sourced (h : s.Sourced) (hl : s.Latched) (reason : PoolDegradeReason) :
    (s.withdrawLicence reason).Sourced := by
  have hwiring := s.withdrawLicence_wiring reason
  have hunarmed := s.withdrawLicence_unarmed reason
  intro slug e' he' hd hlive
  rw [hunarmed, hwiring]
  unfold withdrawLicence at he'
  split at he'
  · rename_i declaration sockets hredundancy
    simp only [handBackToPublishingSlot, visitMarkets, recountRecovering, updateMarkets, lookup_map,
      Option.map_map, Option.map_eq_some_iff] at he'
    obtain ⟨e, he, rfl⟩ := he'
    have hsound := (e.gate_noted none).sound (hl.entries slug e he)
    refine (MarketEntry.handBack_live hsound _ hlive).imp_right fun hkept => ?_
    obtain ⟨hrunning, hsource⟩ := hkept
    obtain ⟨generation, hgeneration⟩ := Option.isSome_iff_exists.1 hrunning
    obtain ⟨connection, hconnection, rfl⟩ := Option.map_eq_some_iff.1 hgeneration
    have hactive : s.primary.active = some connection := (Option.filter_eq_some_iff.1 hconnection).1
    refine ⟨connection.session, ?_, .inl (hsource.trans hgeneration)⟩
    simp [Wiring.sessionAt, wiring, Shard.slot, ConnectionSlot.line, hactive]
  · rename_i hother
    -- there was no licence to withdraw
    have hsame : s.withdrawLicence reason = s := by simp [withdrawLicence]
    rw [hsame] at hunarmed
    exact hunarmed ▸ h slug e' he' hd hlive

theorem poolArmed_eq (s : Shard) : s.poolArmed = s.poolLicence.isSome := by
  unfold poolArmed poolLicence Redundancy.armed
  cases s.redundancy with
  | none => rfl
  | some redundancy =>
    rw [Option.any_some]
    cases redundancy with
    | unlicensed => rfl
    | pooled declaration sockets degraded => cases degraded <;> rfl

/-- The connection whose frame a market accepts covers it. -/
theorem Accepts.covered (h : Accepts s slot slug e) : s.wiring.Covered s.poolArmed slug e.member := by
  rw [poolArmed_eq]
  cases h with
  | pooled licence harmed hcarries =>
    obtain ⟨connection, hactive, hhas⟩ := (Option.any_eq_true _ _).1 hcarries
    simp only [Bool.and_eq_true, List.contains_iff_mem] at hhas
    have hsession := s.active_session slot
    rw [hactive] at hsession
    rw [harmed]
    exact ⟨slot, connection.session, hsession.symm, hhas.1.1, hhas.2⟩
  | single hunarmed hslot hrunning hsubscribed =>
    obtain ⟨connection, hactive⟩ := Option.isSome_iff_exists.1 hrunning
    have hsession := s.active_session .primary
    rw [show s.active .primary = some connection from hactive] at hsession
    rw [hunarmed]
    exact ⟨connection.session, hsession.symm, .inl (hsubscribed.trans (by rw [hactive]; rfl))⟩

theorem Frame.sourced {announced : Prop} (h : Frame announced s slot slug t) (hs : s.Sourced) (ho : s.Orderly) :
    t.Sourced := by
  cases h with
  | ignored hmarks => exact hs.marked hmarks.marked
  | delivered e u he haccepts hmarks hreached =>
    have hmarked := hmarks.marked
    have hu := hs.marked hmarked
    have hwiring := hreached.wiring
    obtain ⟨e₁, he₁, hnoted⟩ := hmarked.entries.to_some he
    cases hreached with
    | kept => exact hu
    | lost => exact hu.plain (reportMarketLoss_plain _ _ _ _)
    | withdrawn reason => exact withdrawLicence_sourced hu (hmarked.orderly ho).latched reason
    | @applied candidate settle hsettle =>
      rcases applyAuthoritative_spec he₁ slot candidate settle with
        ⟨-, lost, hlost, htouched, hlatch⟩ | ⟨applied, commit, happly, htouched, -⟩
      · exact hu.plain (htouched.plain hlost hlatch)
      · refine hu.touched htouched hwiring fun _ _ => .inr ?_
        rw [(hsettle applied).member, applySnapshot_member happly, hnoted.member, hmarked.wiring, poolArmed,
          hmarked.redundancy]
        exact haccepts.covered

/-! ## Dials and ends -/

theorem Calm.member_desired (h : Calm s t) {member member' : Wiring.Member} (hm : s.wiring.members slug = some member)
    (hm' : t.wiring.members slug = some member') (hd : member'.desired = true) : member.desired = true := by
  have hwants := h.set.wants slug
  simpa [wants_eq, hm, hm', hd] using hwants.symm

theorem spawnSlot_sourced (h : s.Sourced) (slot : Slot) : (s.spawnSlot slot).Sourced := by
  rcases s.spawnSlot_dial slot with hsame | hdial
  · rwa [hsame]
  · have hcalm := (s.spawnSlot_arranged slot none).calm
    refine h.idle hcalm.idle fun slug member member' hm hm' => ⟨hcalm.member_desired hm hm', fun hcovered => ?_⟩
    have hmembers : (s.spawnSlot slot).wiring.members slug = s.wiring.members slug := by
      generalize (s.spawnSlot slot).wiring = w at hdial
      cases hdial
      rfl
    obtain rfl := Option.some.inj (hm.symm.trans (hmembers.symm.trans hm'))
    exact hcovered.keep (fun _ _ hs => .inl (hdial.sessionAt hs)) rfl (.inl rfl)

theorem onReady_sourced (h : s.Sourced) {connection : ActiveConnection} (hactive : s.active slot = some connection)
    (heartbeatDeadline observedAt now : Nat) : (s.onReady slot heartbeatDeadline observedAt now).Sourced := by
  have hcalm := (s.onReady_arranged slot heartbeatDeadline observedAt now none).calm
  have hreadied := onReady_readied hactive heartbeatDeadline observedAt now
  refine h.idle hcalm.idle fun slug member member' hm hm' => ⟨hcalm.member_desired hm hm', fun hcovered => ?_⟩
  obtain ⟨old, hold, -, hinstalled, hsource⟩ := hreadied.resourced slug member' hm'
  obtain rfl := Option.some.inj (hm.symm.trans hold)
  exact hcovered.keep (fun _ _ hs => hreadied.sessionAt hs) hinstalled hsource

/-- A market that is live after a session of the pool ended is in the set of another established one. -/
theorem reportLostPoolCoverage_live (hl : s.Latched) {ended : Slot} {reason : ConnectionEndReason} {look : Look}
    (he' : (s.reportLostPoolCoverage ended reason look).markets[slug]? = some e') (hlive : e'.live = true) :
    e'.Spent ∨ ∃ x connection, x ≠ ended ∧ s.active x = some connection ∧ connection.established = true ∧
      slug ∈ connection.markets := by
  have hclosed : (if decide (ended = .primary) then s.closeRemoved else s).Latched := by
    split
    · exact s.closeRemoved_calm.idle.latched hl
    · exact hl
  obtain ⟨e, he, rfl⟩ := Option.map_eq_some_iff.1 ((lookup_map _ _ _).symm.trans he')
  have hsound := hclosed.entries slug e he
  revert hlive
  unfold MarketEntry.loseCoverage
  dsimp only
  split
  · rename_i hsurvives
    intro _
    obtain ⟨markets, hmarkets, hmem⟩ := List.any_eq_true.1 hsurvives
    obtain ⟨x, hx, hset⟩ := List.mem_filterMap.1 hmarkets
    obtain ⟨connection, hconnection, rfl⟩ := Option.map_eq_some_iff.1 hset
    obtain ⟨hactive, hviable⟩ := Option.filter_eq_some_iff.1 hconnection
    simp only [Bool.and_eq_true] at hviable
    exact .inr ⟨x, connection, by simpa using (List.mem_filter.1 hx).2, hactive, hviable.1, by simpa using hmem⟩
  · intro hlive
    refine .inl (MarketEntry.endGeneration_quiet ?_ _ _ _ hlive)
    split
    · exact hsound.idle e.leaveConnection_left.toIdle
    · exact hsound

theorem takePublishingSlot_sourced (h : s.Sourced) (harmed : s.poolArmed = true) (look : Look)
    (hfree : s.wiring.sessionAt .primary = none) : (s.takePublishingSlot look).Sourced := by
  have hcalm := (s.takePublishingSlot_parts look).calm
  rcases s.takePublishingSlot_taken look with hsame | ⟨index, connection, state, hstate, hc, hwiring⟩
  · rwa [hsame]
  · refine h.idle hcalm.idle fun slug member member' hm hm' => ⟨hcalm.member_desired hm hm', fun hcovered => ?_⟩
    rw [harmed] at hcovered ⊢
    have hpooled : s.wiring.Pooled slug := hcovered
    rw [hwiring]
    refine hpooled.take _ rfl hfree ?_
    simp [Wiring.sessionAt, wiring, hstate, ConnectionSlot.line, hc]

/-- Whatever ended, what a pool leaves live is covered by another of its sessions. -/
theorem reportLostPoolCoverage_sourced (hl : s.Latched) (harmed : s.poolArmed = true) (ended : Slot)
    (reason : ConnectionEndReason) (look : Look) : (s.reportLostPoolCoverage ended reason look).Sourced := by
  intro slug e' he' _ hlive
  refine (reportLostPoolCoverage_live hl he' hlive).imp_right ?_
  rintro ⟨x, connection, -, hactive, hestablished, hmem⟩
  have harmed' : (s.reportLostPoolCoverage ended reason look).poolArmed = true := by
    rw [poolArmed, (s.reportLostPoolCoverage_parts none ended reason look).calm.idle.redundancy]
    exact harmed
  have hlines : (s.wiring.leave ended).lines = s.wiring.lines := by cases ended <;> rfl
  have hsession := s.active_session x
  rw [hactive, ← hlines] at hsession
  rw [harmed', reportLostPoolCoverage_wiring]
  exact ⟨x, connection.session, hsession.symm, hestablished, hmem⟩

/-- Lines that keep their sessions cover what they covered. -/
theorem Sourced.sessions (h : s.Sourced) (hcalm : Calm s t) (hmembers : t.wiring.members = s.wiring.members)
    (hsessions : ∀ x, t.wiring.sessionAt x = s.wiring.sessionAt x) : t.Sourced := by
  refine h.idle hcalm.idle fun slug member member' hm hm' => ⟨hcalm.member_desired hm hm', fun hcovered => ?_⟩
  obtain rfl := Option.some.inj (hm.symm.trans (hmembers ▸ hm'))
  exact hcovered.keep (fun x _ hs => .inl ((hsessions x).trans hs)) rfl (.inl rfl)

theorem leavePublishing_sessionAt (s : Shard) (x : Slot) :
    s.leavePublishing.wiring.sessionAt x = s.wiring.sessionAt x := by
  rw [leavePublishing_wiring, Wiring.sessionAt_update]
  split
  · rfl
  · rfl

theorem onPoolSlotEnded_sourced (hl : s.Latched) (harmed : s.poolArmed = true) (slot : Slot) (reason : ConnectionEndReason)
    (established handover : Bool) (clock : Clock) (hfree : s.wiring.sessionAt slot = none) :
    (s.onPoolSlotEnded slot reason established handover clock).Sourced := by
  have hretired : Plain s (if established then s.retirePoolSocket slot else s) := by
    split
    · exact s.retirePoolSocket_plain slot
    · exact .refl s
  have harmed' {t : Shard} (h : Calm s t) : t.poolArmed = true := by
    rw [poolArmed, h.idle.redundancy]
    exact harmed
  cases slot with
  | standby index =>
    have hended := hretired.calm.trans (onStandbyEnded_calm _ index)
    exact (reportLostPoolCoverage_sourced (hended.idle.latched hl) (harmed' hended) _ reason (clock .survivors)).plain
      (recountRecovering_plain _)
  | primary =>
    have hlost := reportLostPoolCoverage_sourced (hretired.latched hl) (harmed' hretired.calm) .primary reason
      (clock .survivors)
    have hcalm := hretired.calm.trans (reportLostPoolCoverage_parts _ none .primary reason (clock .survivors)).calm
    have hleft := hlost.sessions (leavePublishing_arranged _ none).calm (by rw [leavePublishing_wiring]; rfl)
      (leavePublishing_sessionAt _)
    refine Sourced.plain ?_ (recountRecovering_plain _)
    cases handover with
    | false => exact hleft
    | true =>
      refine takePublishingSlot_sourced hleft (harmed' (hcalm.trans (leavePublishing_arranged _ none).calm)) _ ?_
      rw [leavePublishing_sessionAt, reportLostPoolCoverage_wiring, hretired.wiring]
      exact hfree

theorem onConnectionEnded_sourced (hl : s.Latched) (reason : ConnectionEndReason) :
    (s.onConnectionEnded reason).Sourced := by
  refine .of_quiet fun slug e' he' => ?_
  have hclosed := ((s.leavePublishing_arranged none).calm.trans (closeRemoved_calm _)).idle.latched hl
  obtain ⟨e, he, rfl⟩ := Option.map_eq_some_iff.1 ((lookup_map _ _ _).symm.trans he')
  exact MarketEntry.endGeneration_quiet ((hclosed.entries slug e he).idle e.leaveConnection_left.toIdle) _ _ _

/-- A market that is live after a promotion had a shadow there that agreed. -/
theorem MarketEntry.promote_live {generation version : Nat} {carried : List String} {shadow : Option OrderBook}
    {ended : ConnectionEndReason} {lossy : Bool} {attempts : Nat} (h : e.Sound)
    (hlive : (e.promote generation version carried shadow ended lossy attempts slug).entry.live = true) :
    (e.promote generation version carried shadow ended lossy attempts slug).entry.Spent ∨ shadow.isSome = true := by
  revert hlive
  unfold MarketEntry.promote
  dsimp only
  split
  · rename_i hkept
    intro _
    cases shadow with
    | none => simp [promotable, shadowVerdict] at hkept
    | some shadow => exact .inr rfl
  · intro hlive
    refine .inl (MarketEntry.endGeneration_quiet ?_ _ _ _ hlive)
    exact ⟨h.base, h.terminal⟩

/-- What a promotion leaves live is subscribed from the promoted connection, or is in its set but was installed again
since. -/
theorem promoteStandby_sourced (hl : s.Latched) (hshadowed : s.Shadowed True) {connection : ActiveConnection}
    (hunarmed : s.poolArmed = false) (hactive : s.active (.standby index) = some connection)
    (ended : ConnectionEndReason) (established : Bool) :
    ((s.takeActive .primary).promoteStandby index connection ended established).Sourced := by
  obtain ⟨state, hstate, hc⟩ := Option.bind_eq_some_iff.1 hactive
  obtain ⟨standby, hstandby, rfl⟩ := Option.map_eq_some_iff.1 hstate
  have hcalm : Calm s ((s.takeActive .primary).promoteStandby index connection ended established) :=
    (s.takeActive_calm .primary).trans (promoteStandby_parts _ index connection ended established).calm
  intro slug e' he' _ hlive
  have harmed : ((s.takeActive .primary).promoteStandby index connection ended established).poolArmed = false := by
    rw [poolArmed, hcalm.idle.redundancy]
    exact hunarmed
  have hshadows : ((s.takeActive .primary).standbys[index]?.map (·.shadows)).getD ∅ = standby.shadows := by
    simp [takeActive, updateSlot, hstandby]
  unfold promoteStandby at he'
  rw [hshadows] at he'
  obtain ⟨e, he, rfl⟩ := Option.map_eq_some_iff.1 ((lookup_map _ _ _).symm.trans he')
  have hsound : e.Sound := by
    refine Latched.entries (s := closeRemoved _) ?_ slug e he
    refine ((s.takeActive_calm .primary).trans ?_).idle.latched hl
    exact (emptied_arranged _ index connection).calm.trans (closeRemoved_calm _)
  refine (MarketEntry.promote_live hsound hlive).imp_right fun hshadow => ?_
  obtain ⟨shadow, hshadow⟩ := Option.isSome_iff_exists.1 hshadow
  obtain ⟨runs, hruns, hestablished, hmem⟩ := (hshadowed index standby hstandby (by simp) slug shadow hshadow).2 trivial
  obtain rfl := Option.some.inj (hc.symm.trans hruns)
  rw [harmed, promoteStandby_wiring ended established hstate, promote_member]
  refine ⟨connection.session, Wiring.take_primary _ _ _ rfl, ?_⟩
  split
  · exact .inl rfl
  · rename_i hclaims
    exact .inr ⟨hestablished, Bool.eq_false_iff.2 hclaims⟩

theorem onStandbyEnded_sourced (h : s.Sourced) (hunarmed : s.poolArmed = false) (index : Nat) :
    ((s.takeActive (.standby index)).onStandbyEnded index).Sourced := by
  have hcalm := (s.takeActive_calm (.standby index)).trans (onStandbyEnded_calm _ index)
  refine h.idle hcalm.idle fun slug member member' hm hm' => ⟨hcalm.member_desired hm hm', fun hcovered => ?_⟩
  rw [hunarmed] at hcovered ⊢
  obtain ⟨session, hs, hfed⟩ := hcovered
  rw [onStandbyEnded_drop] at hm' ⊢
  obtain rfl := Option.some.inj (hm.symm.trans hm')
  exact ⟨session, (Wiring.drop_sessionAt _ (by simp)).trans hs, hfed⟩

theorem takeActive_free (s : Shard) (slot : Slot) : (s.takeActive slot).wiring.sessionAt slot = none := by
  rw [takeActive_wiring, Wiring.sessionAt_update, if_pos rfl]
  cases s.wiring.lines slot <;> rfl

/-! ## Steps -/

theorem Change.sourced (h : Change s t) (hs : s.Sourced) : t.Sourced := by
  have hlines : t.wiring.lines = s.wiring.lines := by
    funext slot
    cases h with
    | install slug installs => cases installs <;> subst_vars <;> rfl
    | unwant slug e => exact congrArg (Option.map ConnectionSlot.line) (s.unwant_slot slug e slot)
    | queue removing => rfl
    | close slug => exact congrArg (Option.map ConnectionSlot.line) (s.close_slot slug slot)
  have hsessions (x : Slot) : t.wiring.sessionAt x = s.wiring.sessionAt x := by rw [Wiring.sessionAt, hlines]; rfl
  refine hs.idle h.idle fun slug member member' hm hm' => ?_
  have hmember : (member'.desired = true → member.desired = true) ∧ member'.installed = member.installed ∧
      member'.source = member.source := by
    obtain ⟨e, he, rfl⟩ := Option.map_eq_some_iff.1 hm
    obtain ⟨e', he', rfl⟩ := Option.map_eq_some_iff.1 hm'
    have hsame (heq : t.markets[slug]? = s.markets[slug]?) : e' = e :=
      Option.some.inj (he'.symm.trans (heq.trans he))
    cases h with
    | install k installs habsent =>
      by_cases hk : slug = k
      · simp [hk, habsent] at he
      · rw [hsame (by cases installs <;> subst_vars <;> simp [lookup_insert, hk])]
        exact ⟨id, rfl, rfl⟩
    | unwant k e₀ he₀ =>
      simp only [Shard.unwant, retireAgreement, lookup_insert] at he'
      split at he'
      · rename_i hk
        obtain rfl := Option.some.inj he'
        obtain rfl := Option.some.inj ((hk ▸ he).symm.trans he₀)
        exact ⟨fun h => absurd h Bool.false_ne_true, rfl, rfl⟩
      · rw [Option.some.inj (he'.symm.trans he)]
        exact ⟨id, rfl, rfl⟩
    | queue removing =>
      rw [hsame rfl]
      exact ⟨id, rfl, rfl⟩
    | close k =>
      rw [close_markets] at he'
      split at he'
      · cases he'
      · rw [Option.some.inj (he'.symm.trans he)]
        exact ⟨id, rfl, rfl⟩
  exact ⟨hmember.1, fun hcovered =>
    hcovered.keep (fun x _ hx => .inl ((hsessions x).trans hx)) hmember.2.1 (.inl hmember.2.2)⟩

theorem Changes.sourced (h : Changes s t) (hs : s.Sourced) : t.Sourced := by
  induction h with
  | refl => exact hs
  | tail _ hchange ih => exact hchange.sourced ih

/-- What of a shard coverage depends on. -/
structure Tended (s : Shard) : Prop extends Wired s where
  shadowed : s.Shadowed True
  sourced : s.Sourced

theorem Call.sourced {told : List PoolCall} (h : Call s told t) (ho : s.Orderly) (hshadowed : s.Shadowed True)
    (hs : s.Sourced) : t.Sourced := by
  have htaken (slot : Slot) := (s.takeActive_calm slot).idle.latched ho.latched
  cases h with
  | reissued reissue => exact hs.plain (s.reissue_beside reissue).plain
  | heard slot observedAt => exact hs.plain (s.updateActive_plain slot _ fun _ => ⟨rfl, rfl, rfl, rfl⟩)
  | readied slot connection heartbeatDeadline observedAt now hactive => exact onReady_sourced hs hactive _ _ _
  | resolved resolved times subscription => exact hs.plain (s.forwardResolution_resolved resolved times subscription).plain
  | lost continuity authority => exact hs.plain (s.reportShardLoss_plain continuity authority)
  | forgot index => exact hs.plain (s.updateStandby_beside index (·.clear) fun _ => rfl).plain
  | followed slot =>
    have hwiring : (s.updateSlot slot fun state => { state with wireVersion := s.desiredVersion }).wiring =
        s.wiring.update slot fun line => { line with wire := s.desiredVersion } := updateSlot_wiring fun _ => rfl
    refine hs.sessions (s.updateSlot_calm slot _) (by rw [hwiring]; rfl) fun x => ?_
    rw [hwiring, Wiring.sessionAt_update]
    split
    · rfl
    · rfl
  | pooled slot u reason established handover clock harmed hu =>
    have hplain := taken_plain hu
    refine onPoolSlotEnded_sourced (hplain.latched (htaken slot)) ?_ slot reason established handover clock ?_
    · rw [poolArmed, hplain.redundancy]
      exact (s.takeActive_poolArmed slot).trans harmed
    · rw [hplain.wiring]
      exact s.takeActive_free slot
  | ended reason => exact onConnectionEnded_sourced (htaken .primary) reason
  | promoted index connection ended established hunarmed hactive =>
    exact promoteStandby_sourced ho.latched hshadowed hunarmed hactive ended established
  | standbyEnded index hunarmed => exact onStandbyEnded_sourced hs hunarmed index
  | shed hcount =>
    -- nothing is wanted
    intro slug e he hd
    have hwants := (s.shedIdleConnection_parts.calm.set.wants slug).trans (ho.counted.wants_none hcount slug)
    simp [wants, he, hd] at hwants

theorem Sourced.step (h : s.Tended) {event : ShardEvent} (hstep : s.step event = some t) : t.Sourced := by
  cases step_taken hstep with
  | spawned slot hspawn ht => exact ht ▸ spawnSlot_sourced h.sourced slot
  | called hcalls =>
    exact (hcalls.keep h.toOrderly (I := fun s => s.Shadowed True ∧ s.Sourced)
      (fun _ _ _ ho hs hcall => ⟨hcall.shadowed hs.1, hcall.sourced ho hs.1 hs.2⟩) ⟨h.shadowed, h.sourced⟩).2
  | read generation update times subscription look slot hnotice hframe => exact hframe.sourced h.sourced h.toOrderly
  | added slugs hadds ht =>
    obtain ⟨u, hchanges, -, heq⟩ := addMarkets_spec h.counted slugs
    exact ht ▸ heq ▸ (hchanges.sourced h.sourced).plain (recountRecovering_plain _)
  | removed slugs hremoves ht =>
    obtain ⟨u, hchanges, -, heq⟩ := removeMarkets_spec h.counted slugs
    exact ht ▸ heq ▸ (hchanges.sourced h.sourced).plain (recountRecovering_plain _)

theorem Tended.step (h : s.Tended) {event : ShardEvent} (hannounced : s.Announced event = true)
    (hstep : s.step event = some t) : t.Tended :=
  ⟨h.toWired.step hstep, h.shadowed.step h.toOrderly (fun _ => hannounced) hstep, Sourced.step h hstep⟩

theorem Starts.tended (h : Starts s) : s.Tended := by
  refine ⟨h.wired, h.shadowed, .of_quiet fun slug e he hlive => ?_⟩
  obtain ⟨config, levelCapacity, order, segment, made, hchanges, -, rfl⟩ := h.changes
  rcases hchanges.idle.entries slug e he with ⟨e₀, he₀, -⟩ | hnew
  · simp [empty] at he₀
  · simp [hnew.live] at hlive

/-! ## Before a wait -/

/-- The states a shard can be in, when every connection announces itself before anything it reads. -/
def Attained (s : Shard) : Prop :=
  ∃ start, Starts start ∧ Run Shard.step (fun s event => s.Announced event = true) start s

theorem Attained.tended (h : s.Attained) : s.Tended := by
  obtain ⟨start, hstart, hrun⟩ := h
  exact hrun.inv (fun _ _ _ hs hannounced hstep => hs.step hannounced hstep) hstart.tended

theorem spawnDue_version (s : Shard) (due : Slot → Bool) : (s.spawnDue due).desiredVersion = s.desiredVersion := by
  unfold spawnDue
  generalize s.slots = slots
  induction slots generalizing s with
  | nil => rfl
  | cons first rest ih =>
    refine (ih _).trans ?_
    dsimp only
    split
    · rcases s.spawnSlot_dial first with hsame | hdial
      · rw [hsame]
      · exact hdial.version
    · rfl

/-- A shard that dials what is due follows the set as it did. -/
theorem spawnDue_reconciled (h : s.wiring.Reconciled slot) (due : Slot → Bool) :
    (s.spawnDue due).wiring.Reconciled slot := by
  unfold spawnDue
  generalize s.slots = slots
  induction slots generalizing s with
  | nil => exact h
  | cons first rest ih =>
    refine ih ?_
    dsimp only
    split
    · rcases s.spawnSlot_dial first with hsame | hdial
      · rwa [hsame]
      · exact hdial.reconciled h
    · exact h

theorem Tended.spawnDue (h : s.Tended) (due : Slot → Bool) : (s.spawnDue due).Tended := by
  unfold Shard.spawnDue
  generalize s.slots = slots
  induction slots generalizing s with
  | nil => exact h
  | cons first rest ih =>
    refine ih ?_
    dsimp only
    split
    · have hstep : s.step (.spawn first) = some (s.spawnSlot first) := rfl
      exact h.step rfl hstep
    · exact h

theorem Tended.reconcileSet (h : s.Tended) (clock : Slot → Clock) : (s.reconcileSet clock).Tended := by
  unfold Shard.reconcileSet
  generalize s.slots = slots
  induction slots generalizing s with
  | nil => exact h
  | cons first rest ih =>
    have hstep : s.step (.reconcile first (clock first)) = some (s.reconcileSlot first (clock first)) := rfl
    exact ih (h.step rfl hstep)

/-- Whenever the shard is about to wait its established sessions follow the set. -/
theorem Tended.beforeWait (h : s.Tended) (clock : Slot → Clock) (due : Slot → Bool) (now : Nat)
    (hfits : (s.beforeWait clock due now).desiredVersion < u64Max) :
    (s.beforeWait clock due now).Tended ∧ ∀ slot, (s.beforeWait clock due now).wiring.Reconciled slot := by
  have hshed : s.step .shed = some s.shedIdleConnection := rfl
  have hversion : (s.beforeWait clock due now).desiredVersion = s.shedIdleConnection.desiredVersion :=
    (spawnDue_version _ due).trans (s.shedIdleConnection.reconcileSet_version _ clock)
  have hfollows := (h.step rfl hshed).reconcileSet clock
  have harmed : (((s.shedIdleConnection.reconcileSet clock).spawnDue due).step (.armReissue now)) =
      some (s.beforeWait clock due now) := rfl
  refine ⟨(hfollows.spawnDue due).step rfl harmed, fun slot => spawnDue_reconciled ?_ due⟩
  exact (h.step rfl hshed).reconcileSet_reconciled clock (hversion ▸ hfits) slot

/-- Whenever the shard is about to wait, a wanted market that is live has a source: with a pool some connection carries
it, and otherwise it is subscribed from the one in the publishing role. -/
theorem live_market_has_a_source (h : Attained s) (clock : Slot → Clock) (due : Slot → Bool) (now : Nat)
    (hfits : (s.beforeWait clock due now).desiredVersion < u64Max)
    (he : (s.beforeWait clock due now).markets[slug]? = some e) (hrevision : e.book.revision < u64Max)
    (hd : e.desired = true) (hlive : e.book.authority = .live) :
    if (s.beforeWait clock due now).poolArmed then ∃ slot, (s.beforeWait clock due now).poolCarries slot slug e = true
    else ∃ connection, (s.beforeWait clock due now).primary.active = some connection ∧
      e.subscribedFrom = some connection.generation := by
  obtain ⟨htended, hreconciled⟩ := h.tended.beforeWait clock due now hfits
  generalize s.beforeWait clock due now = t at *
  have hm := members_of_some he
  have hcovered := (htended.sourced slug e he hd (by simpa [MarketEntry.live] using hlive)).resolve_left
    (Nat.not_le.2 hrevision)
  unfold Wiring.Covered at hcovered
  split
  · rename_i harmed
    rw [if_pos harmed] at hcovered
    obtain ⟨slot, session, hs, hestablished, hclaims⟩ := hcovered.claims hreconciled hm hd
    obtain ⟨connection, hactive, rfl⟩ := Option.map_eq_some_iff.1 ((t.active_session slot).trans hs)
    simp only [Wiring.Session.claims, Bool.and_eq_true] at hclaims
    refine ⟨slot, ?_⟩
    rw [poolCarries, hactive, Option.any_some, Bool.and_eq_true, Bool.and_eq_true]
    exact ⟨⟨hestablished, hclaims.2⟩, hclaims.1⟩
  · rename_i hunarmed
    rw [if_neg hunarmed] at hcovered
    have hwanted : slug ∈ t.wiring.wanted := mem_desiredSlugs.2 (by simp [wants, he, hd])
    obtain ⟨session, hs, hsource⟩ := hcovered.source (hreconciled .primary) hm hd hwanted
    obtain ⟨connection, hactive, rfl⟩ := Option.map_eq_some_iff.1 ((t.active_session .primary).trans hs)
    exact ⟨connection, hactive, hsource⟩

/-- A promoted standby carries on with the market its shadow agreed on, and the other one is lost. -/
def examplePromoted : Shard :=
  (exec Shard.step (fun s event => s.Announced event = true) exampleStandby
    [.spawn .primary, .spawn (.standby 0), exampleReady 1, exampleReady 2, exampleFrame 1 "btc-up" "1" 10,
      exampleFrame 1 "eth-up" "1" 10, exampleFrame 2 "btc-up" "1" 10, exampleFrame 2 "eth-up" "1" 20,
      .ended .primary .socketClosed fun _ => exampleLook]).get (by decide)

theorem examplePromoted_attained : Attained examplePromoted :=
  ⟨exampleStandby, exampleStandby_starts, Run.of_exec _ (Option.some_get _).symm⟩

theorem live_market_has_a_source_example :
    ∃ e connection, (examplePromoted.beforeWait (fun _ _ => exampleLook) (fun _ => true) 0).markets["btc-up"]? = some e ∧
      e.book.authority = .live ∧
      (examplePromoted.beforeWait (fun _ _ => exampleLook) (fun _ => true) 0).primary.active = some connection ∧
      e.subscribedFrom = some connection.generation := by
  have he : (examplePromoted.beforeWait (fun _ _ => exampleLook) (fun _ => true) 0).markets["btc-up"]? =
      some (((examplePromoted.beforeWait (fun _ _ => exampleLook) (fun _ => true) 0).markets["btc-up"]?).get
        (by decide)) := (Option.some_get _).symm
  have hsource := live_market_has_a_source examplePromoted_attained (fun _ _ => exampleLook) (fun _ => true) 0 (by decide)
    he (by decide) (by decide) (by decide)
  rw [if_neg (by decide)] at hsource
  obtain ⟨connection, hactive, hsubscribed⟩ := hsource
  exact ⟨_, connection, he, by decide, hactive, hsubscribed⟩

end Shard

end PmWs
