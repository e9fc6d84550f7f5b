import PmWs.Limitless.Shard.Invariants

/-!
# The number of markets that are owed a base

The shard keeps that number beside the markets. Most functions count again
when they are done. The ones that do not either change one entry and move the
number with it, or change nothing the number depends on.
-/

open MachineInt Tables

namespace PmWs

namespace Shard

/-- The kept number is the number of markets that need a recovery. -/
def Tallied (s : Shard) : Prop := s.recovering = (keysWhere (·.needsRecovery) s.markets).card

/-- What of an entry the number depends on. -/
def SameNeed (e e' : MarketEntry) : Prop := e'.needsRecovery = e.needsRecovery

theorem SameNeed.refl (e : MarketEntry) : SameNeed e e := rfl

/-- The kept number and what it depends on are the same. -/
structure SameTally (s t : Shard) : Prop where
  recovering : t.recovering = s.recovering
  needs : ∀ slug : String, t.markets[slug]?.any (·.needsRecovery) = s.markets[slug]?.any (·.needsRecovery)

variable {a b c s t u : Shard} {slot : Slot} {slug : String} {e e' : MarketEntry}

theorem SameTally.refl (s : Shard) : SameTally s s := ⟨rfl, fun _ => rfl⟩

theorem SameTally.trans (h₁ : SameTally a b) (h₂ : SameTally b c) : SameTally a c :=
  ⟨h₂.recovering.trans h₁.recovering, fun slug => (h₂.needs slug).trans (h₁.needs slug)⟩

theorem SameTally.of_markets (hmarkets : t.markets = s.markets) (hrecovering : t.recovering = s.recovering) :
    SameTally s t := ⟨hrecovering, fun slug => by rw [hmarkets]⟩

theorem SameTally.of_related (hrecovering : t.recovering = s.recovering)
    (hentries : Related SameNeed s.markets t.markets) : SameTally s t := by
  refine ⟨hrecovering, fun slug => ?_⟩
  have h := hentries slug
  revert h
  cases s.markets[slug]? <;> cases t.markets[slug]? <;> simp [SameNeed]

theorem Tallied.same (h : s.Tallied) (hs : SameTally s t) : t.Tallied := by
  unfold Tallied
  rw [hs.recovering, h, keysWhere_congr hs.needs]

theorem recountRecovering_tallied (s : Shard) : s.recountRecovering.Tallied := (card_keysWhere _ _).symm

theorem Noted.sameNeed {e e' : MarketEntry} (h : e.Noted e') : SameNeed e e' := by
  simp only [SameNeed, MarketEntry.needsRecovery, h.desired, h.baseAccepted, h.live]

/-- No more markets need a recovery than are wanted. -/
theorem Counted.needs_le (h : s.Counted) : (keysWhere (·.needsRecovery) s.markets).card ≤ maxShardMarkets := by
  have hsubset : keysWhere (·.needsRecovery) s.markets ⊆ keysWhere (·.desired) s.markets :=
    keysWhere_mono fun e he => by
      simp only [MarketEntry.needsRecovery, Bool.and_eq_true] at he
      exact he.1.1
  exact (Finset.card_le_card hsubset).trans (h.count.symm.trans_le (h.bounded.trans h.capacity))

/-! ## One entry -/

theorem mutateMarket_tallied (h : s.Tallied) (hc : s.Counted) (he : s.markets[slug]? = some e) (e' : MarketEntry) :
    (s.mutateMarket slug e e').Tallied := by
  have hbound := hc.needs_le
  have hmem : slug ∈ keysWhere (·.needsRecovery) s.markets ↔ e.needsRecovery = true := by simp [mem_keysWhere, he]
  have hadd : saturatingAdd s.recovering 1 = s.recovering + 1 := by
    rw [show s.recovering = _ from h]
    simp only [saturatingAdd, u64Max, maxShardMarkets] at hbound ⊢
    omega
  unfold Tallied at h ⊢
  simp only [mutateMarket, hadd]
  cases hnew : e'.needsRecovery with
  | true =>
    rw [keysWhere_insert hnew]
    cases hold : e.needsRecovery with
    | true =>
      rw [Finset.insert_eq_of_mem (hmem.2 hold)]
      simpa using h
    | false =>
      rw [Finset.card_insert_of_notMem fun hin => by simp [hmem.1 hin] at hold]
      simp [h]
  | false =>
    rw [keysWhere_insert_not hnew]
    cases hold : e.needsRecovery with
    | true =>
      rw [Finset.card_erase_of_mem (hmem.2 hold)]
      simp [h, saturatingSub]
    | false =>
      rw [Finset.erase_eq_of_notMem fun hin => by simp [hmem.1 hin] at hold]
      simpa using h

theorem Beside.tally (h : Beside s t) : SameTally s t := .of_markets h.markets h.recovering

theorem reportMarketLoss_tallied (h : s.Tallied) (hc : s.Counted) (slug : String) (continuity : ContinuityReason)
    (authority : AuthorityReason) : (s.reportMarketLoss slug continuity authority).Tallied := by
  unfold reportMarketLoss
  split
  · exact h.same (s.refreshAgreement_beside slug).tally
  · rename_i e he
    dsimp only
    generalize (if e.terminal then (e.lostBase, false)
      else e.lostBase.reportContinuityLoss continuity authority) = lost
    refine (mutateMarket_tallied h hc he lost.1).same (.trans ?_ (refreshAgreement_beside _ slug).tally)
    split
    · exact (publishSegmentState_beside _ slug).tally
    · exact .refl _

theorem updateMarket_tally (s : Shard) (slug : String) {f : MarketEntry → MarketEntry}
    (hf : ∀ e, SameNeed e (f e)) : SameTally s (s.updateMarket slug f) :=
  .of_related rfl (.modify .refl fun e _ => hf e)

theorem updateSlot_tally (s : Shard) (slot : Slot) (f : ConnectionSlot → ConnectionSlot) :
    SameTally s (s.updateSlot slot f) :=
  .of_markets (by cases slot <;> rfl) (by cases slot <;> rfl)

/-! ## Frames -/

theorem applyAuthoritative_tallied (h : s.Tallied) (hc : s.Counted) (slot : Slot) (slug : String) (candidate : Candidate)
    {settle : MarketEntry → MarketEntry} (hsettle : ∀ e : MarketEntry, e.Noted (settle e)) :
    (s.applyAuthoritative slot slug candidate settle).Tallied := by
  unfold applyAuthoritative
  split
  · exact h.same (s.refreshAgreement_beside slug).tally
  · rename_i e he
    split
    · exact (reportMarketLoss_tallied h hc slug _ _).same (refreshAgreement_beside _ slug).tally
    · rename_i applied commit _
      have hmutated := mutateMarket_tallied h hc he applied
      have hbased : SameTally (s.mutateMarket slug e applied)
          (updateActive { s.mutateMarket slug e applied with railLossLatched := false } slot
            fun c => { c with producedBase := true }) :=
        .of_markets (by cases slot <;> rfl) (by cases slot <;> rfl)
      refine hmutated.same (.trans (hbased.trans (updateMarket_tally _ slug fun e => Noted.sameNeed (hsettle e))) ?_)
      exact ((publishSegmentCommit_beside _ slug commit).trans (refreshAgreement_beside _ slug)).tally

theorem withdrawLicence_tallied (h : s.Tallied) (reason : PoolDegradeReason) : (s.withdrawLicence reason).Tallied := by
  unfold withdrawLicence
  split
  · exact recountRecovering_tallied _
  · exact h

theorem Resolved.tally (h : Resolved s t) : SameTally s t := by
  cases h with
  | ignored => exact .refl s
  | placed position => exact .of_markets rfl rfl
  | noted position slug e resolution he => exact .of_related rfl (.insert .refl he (.refl _))
  | streamed position slug e resolution book cursor he hok =>
    obtain ⟨_, _, -, -, -, hbook⟩ := OrderBook.noteStreamEvent_ok hok
    refine .of_related rfl (.insert .refl he ?_)
    simp [SameNeed, MarketEntry.needsRecovery, MarketEntry.live, hbook]

/-! ## Dials and ends -/

theorem Arranged.tally {but : Option Nat} (h : Arranged but s t) : SameTally s t := by
  refine .of_related (congrArg (·.2.2.2) h.aside) (h.entries.mono fun h => ?_)
  simp only [SameNeed, MarketEntry.needsRecovery, MarketEntry.live, h.desired, h.baseAccepted, h.book]

theorem reportShardLoss_tallied (h : s.Tallied) (continuity : ContinuityReason) (authority : AuthorityReason) :
    (s.reportShardLoss continuity authority).Tallied := by
  unfold reportShardLoss
  split
  · exact h
  · exact recountRecovering_tallied _

theorem onPoolSlotEnded_tallied (s : Shard) (slot : Slot) (reason : ConnectionEndReason) (established handover : Bool)
    (clock : Clock) : (s.onPoolSlotEnded slot reason established handover clock).Tallied := by
  cases slot with
  | primary => exact recountRecovering_tallied _
  | standby index => exact recountRecovering_tallied _

/-! ## Steps -/

theorem Call.tallied {told : List PoolCall} (h : Call s told t) (hs : s.Tallied) : t.Tallied := by
  cases h with
  | reissued reissue => exact hs.same (s.reissue_beside reissue).tally
  | heard slot | followed slot => exact hs.same (s.updateSlot_tally slot _)
  | readied slot => exact hs.same (s.onReady_arranged slot _ _ _ none).tally
  | resolved resolved times subscription =>
    exact hs.same (s.forwardResolution_resolved resolved times subscription).tally
  | lost continuity authority => exact reportShardLoss_tallied hs continuity authority
  | forgot index => exact hs.same (s.forget_arranged index none).tally
  | pooled slot u => exact u.onPoolSlotEnded_tallied slot _ _ _ _
  | ended | promoted => exact recountRecovering_tallied _
  | standbyEnded index => exact hs
  | shed hcount =>
    rw [shedIdleConnection, if_neg (by omega)]
    exact recountRecovering_tallied _

theorem Marked.tally (h : Marked s t) (hrecovering : t.recovering = s.recovering) : SameTally s t :=
  .of_related hrecovering (h.entries.mono Noted.sameNeed)

theorem Marks.recovering {announced : Prop} (h : Marks announced slug s t) : t.recovering = s.recovering := by
  induction h with
  | refl => rfl
  | @tail u v _ hmark ih =>
    refine Eq.trans ?_ ih
    cases hmark with
    | placed | dropped | gated | noted => rfl
    | shadowed index market candidate => exact (u.applyShadowCandidate_beside index slug market candidate).recovering

theorem Reached.tallied (h : Reached slot slug s t) (hs : s.Tallied) (hc : s.Counted) : t.Tallied := by
  cases h with
  | kept => exact hs
  | lost => exact reportMarketLoss_tallied hs hc slug _ _
  | applied candidate hsettle => exact applyAuthoritative_tallied hs hc slot slug candidate hsettle
  | withdrawn reason => exact withdrawLicence_tallied hs reason

theorem Tallied.step (h : s.Tallied) (ho : s.Orderly) {event : ShardEvent} (hstep : s.step event = some t) :
    t.Tallied := by
  cases step_taken hstep with
  | spawned slot hspawn ht => exact ht ▸ h.same (s.spawnSlot_arranged slot none).tally
  | called hcalls => exact hcalls.inv (fun _ _ _ hs hcall => hcall.tallied hs) h
  | read generation update times subscription look slot hnotice hframe =>
    cases hframe with
    | ignored hmarks => exact h.same (hmarks.marked.tally hmarks.recovering)
    | delivered e u he haccepts hmarks hreached =>
      exact hreached.tallied (h.same (hmarks.marked.tally hmarks.recovering)) (hmarks.marked.orderly ho).counted
  | added slugs hadds ht => exact ht ▸ recountRecovering_tallied _
  | removed slugs hremoves ht => exact ht ▸ recountRecovering_tallied _

theorem Changes.recovering (h : Changes s t) : t.recovering = s.recovering := by
  induction h with
  | refl => rfl
  | tail _ hchange ih =>
    refine Eq.trans ?_ ih
    cases hchange with
    | install slug installs => cases installs <;> subst_vars <;> rfl
    | unwant | queue => rfl
    | close slug =>
      unfold Shard.close
      split <;> rfl

/-- A market just installed has no base to recover. -/
theorem Starts.tallied (h : Starts s) : s.Tallied := by
  obtain ⟨config, levelCapacity, order, segment, made, hchanges, -, rfl⟩ := h.changes
  have hnone : keysWhere (·.needsRecovery) made.markets = ∅ := by
    refine Finset.eq_empty_of_forall_notMem fun slug hslug => ?_
    obtain ⟨e, he, hneeds⟩ := (Option.any_eq_true _ _).1 (mem_keysWhere.1 hslug)
    rcases hchanges.idle.entries slug e he with ⟨e₀, he₀, -⟩ | hinstalled
    · simp [empty] at he₀
    · simp [MarketEntry.needsRecovery, hinstalled.baseAccepted] at hneeds
  show made.recovering = _
  rw [hchanges.recovering, hnone]
  rfl

theorem Reachable.tallied (h : Reachable s) : s.Tallied := by
  obtain ⟨start, hstart, hrun⟩ := h
  refine (hrun.inv (I := fun s => s.Wired ∧ s.Tallied) (fun _ _ _ hs _ hstep => ?_) ⟨hstart.wired, hstart.tallied⟩).2
  exact ⟨hs.1.step hstep, hs.2.step hs.1.toOrderly hstep⟩

/-- The queue holds as many markets as are there and not wanted. -/
theorem Counted.size_le (h : s.Counted) : s.markets.size ≤ s.config.maxMarkets + maxRemovingMarkets := by
  have hunwanted : keysWhere (fun e => !e.desired) s.markets = s.removing.toFinset := by
    ext slug
    rw [mem_keysWhere, List.mem_toFinset, h.queued.mem slug (by simp), Option.any_eq_true]
    simp
  rw [size_eq_card (·.desired) s.markets, hunwanted, List.toFinset_card_of_nodup h.queued.nodup, ← h.count]
  exact Nat.add_le_add h.bounded h.waiting

/-- The counts and the queue a shard keeps are exact, and bound the books it holds. -/
theorem bookkeeping_is_exact (h : Reachable s) :
    s.desiredCount = (keysWhere (·.desired) s.markets).card ∧ s.desiredCount ≤ s.config.maxMarkets ∧
      s.recovering = (keysWhere (·.needsRecovery) s.markets).card ∧
      (∀ slug, slug ∈ s.removing ↔ ∃ e, s.markets[slug]? = some e ∧ e.desired = false) ∧ s.removing.Nodup ∧
      s.removing.length ≤ 64 ∧ s.markets.size ≤ s.config.maxMarkets + 64 := by
  have hcounted := h.wired.counted
  exact ⟨hcounted.count, hcounted.bounded, h.tallied, fun slug => hcounted.queued.mem slug (by simp),
    hcounted.queued.nodup, hcounted.waiting, hcounted.size_le⟩

/-- Of the two markets of a connection that lost its rail, the one removed waits to be closed and the other is owed a
base. -/
def exampleWaiting : Shard :=
  exampleSingle.after [.spawn .primary, exampleReady 1, exampleFrame 1 "btc-up" "1" 10, exampleFrame 1 "eth-up" "1" 10,
    .notice 1 (.overload 1) exampleLook, .removeMarkets ["btc-up"]] (by decide)

theorem bookkeeping_is_exact_example :
    exampleWaiting.removing = ["btc-up"] ∧ exampleWaiting.recovering = 1 ∧
      exampleWaiting.recovering = (keysWhere (·.needsRecovery) exampleWaiting.markets).card :=
  ⟨by decide, by decide, (bookkeeping_is_exact (exampleSingle_starts.after _ _)).2.2.1⟩

end Shard

end PmWs
