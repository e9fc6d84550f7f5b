import PmWs.Limitless.Shard.Invariants

/-!
# Where a standby's shadows come from

A standby's shadow of a market is made by the frames of its own connection, and
is gone when that connection is. So a standby with a shadow has an established
connection with the market in its set.
-/

open MachineInt Tables Runs

namespace PmWs

namespace Shard

variable {s t u : Shard} {slot : Slot} {slug : String} {e e' : MarketEntry} {announced : Prop} {but : Option Nat}
  {index : Nat}

/-! ## Shadows and the sessions that made them -/

/-- Every shadow is of the market its slug names, and is one the standby's connection can have made where connections
are ready before their frames. -/
def Standby.Shadowed (announced : Prop) (self : Standby) : Prop :=
  ∀ (slug : String) shadow, self.shadows[slug]? = some shadow →
    marketOfSlug slug = some shadow.market ∧ (announced → self.Serves slug)

/-- Every standby's shadows, those of `but` apart, are of its own connection. -/
def ShadowedBut (announced : Prop) (but : Option Nat) (s : Shard) : Prop :=
  ∀ i x, s.standbys[i]? = some x → some i ≠ but → x.Shadowed announced

abbrev Shadowed (announced : Prop) (s : Shard) : Prop := s.ShadowedBut announced none

theorem Standby.Shadowed.fewer {x y : Standby} (h : x.Shadowed announced) (hslot : y.slot = x.slot)
    (hshadows : ∀ (slug : String) shadow, y.shadows[slug]? = some shadow → x.shadows[slug]? = some shadow) :
    y.Shadowed announced := by
  intro slug shadow hshadow
  unfold Serves
  rw [hslot]
  exact h slug shadow (hshadows slug shadow hshadow)

theorem ShadowedBut.of_standbys (h : s.ShadowedBut announced but) (heq : t.standbys = s.standbys) : t.ShadowedBut announced but :=
  fun i x hx => h i x (heq ▸ hx)

theorem ShadowedBut.map (h : s.ShadowedBut announced but) {f : Standby → Standby} (heq : t.standbys = s.standbys.map f)
    (hf : ∀ x : Standby, x.Shadowed announced → (f x).Shadowed announced) : t.ShadowedBut announced but := by
  intro i y hy hne
  rw [heq, List.getElem?_map] at hy
  obtain ⟨x, hx, rfl⟩ := Option.map_eq_some_iff.1 hy
  exact hf x (h i x hx hne)

theorem ShadowedBut.modify (h : s.ShadowedBut announced but) {f : Standby → Standby} (heq : t.standbys = s.standbys.modify index f)
    (hf : ∀ x, s.standbys[index]? = some x → x.Shadowed announced → (f x).Shadowed announced) : t.ShadowedBut announced but := by
  intro i y hy hne
  rw [heq, List.getElem?_modify] at hy
  obtain ⟨x, hx, rfl⟩ := Option.map_eq_some_iff.1 hy
  split
  · rename_i hi
    subst hi
    exact hf x hx (h index x hx hne)
  · exact h i x hx hne

theorem ShadowedBut.clear (h : s.ShadowedBut announced (some index)) {f : Standby → Standby}
    (hf : ∀ (x : Standby) (slug : String), (f x).shadows[slug]? = none) : (s.updateStandby index f).Shadowed announced := by
  intro i y hy _
  simp only [updateStandby, List.getElem?_modify] at hy
  obtain ⟨x, hx, rfl⟩ := Option.map_eq_some_iff.1 hy
  split
  · exact fun slug shadow hshadow => by simp [hf] at hshadow
  · rename_i hi
    exact h i x hx fun heq => hi (Option.some.inj heq).symm

theorem refreshShadowAgreement_shadowed (h : s.ShadowedBut announced but) (index : Nat) (slug : String) :
    (s.refreshShadowAgreement index slug).ShadowedBut announced but := by
  refine h.modify rfl fun x _ hx => ?_
  split <;> exact hx

theorem refreshAgreement_shadowed (h : s.ShadowedBut announced but) (slug : String) :
    (s.refreshAgreement slug).ShadowedBut announced but := by
  unfold refreshAgreement
  induction (List.range s.standbys.length) generalizing s with
  | nil => exact h
  | cons index rest ih => exact ih (refreshShadowAgreement_shadowed h index slug)

theorem publishSegmentState_standbys (s : Shard) (slug : String) : (s.publishSegmentState slug).standbys = s.standbys := by
  unfold publishSegmentState
  split <;> rfl

theorem publishSegmentCommit_standbys (s : Shard) (slug : String) (commit : BookCommit) :
    (s.publishSegmentCommit slug commit).standbys = s.standbys := by
  unfold publishSegmentCommit
  split <;> rfl

theorem reportMarketLoss_shadowed (h : s.ShadowedBut announced but) (slug : String) (continuity : ContinuityReason)
    (authority : AuthorityReason) : (s.reportMarketLoss slug continuity authority).ShadowedBut announced but := by
  unfold reportMarketLoss
  split
  · exact refreshAgreement_shadowed h slug
  · rename_i e he
    dsimp only
    generalize (if e.terminal then (e.lostBase, false)
      else e.lostBase.reportContinuityLoss continuity authority) = lost
    refine refreshAgreement_shadowed ?_ slug
    split
    · exact h.of_standbys (publishSegmentState_standbys _ slug)
    · exact h

theorem updateActive_shadowed (h : s.ShadowedBut announced but) (slot : Slot) {f : ActiveConnection → ActiveConnection}
    (hmarkets : ∀ c, (f c).markets = c.markets) (hf : ∀ c, c.established = true → (f c).established = true) :
    (s.updateActive slot f).ShadowedBut announced but := by
  cases slot with
  | primary => exact h
  | standby index =>
    refine h.modify rfl fun x _ hx slug shadow hshadow => (hx slug shadow hshadow).imp_right fun hserves ha => ?_
    obtain ⟨c, hc, he, hmem⟩ := hserves ha
    exact ⟨f c, by simp [hc], hf c he, (hmarkets c).symm ▸ hmem⟩

theorem applyAuthoritative_shadowed (h : s.ShadowedBut announced but) (slot : Slot) (slug : String) (candidate : Candidate)
    (settle : MarketEntry → MarketEntry) : (s.applyAuthoritative slot slug candidate settle).ShadowedBut announced but := by
  unfold applyAuthoritative
  split
  · exact refreshAgreement_shadowed h slug
  · rename_i e he
    split
    · exact refreshAgreement_shadowed (reportMarketLoss_shadowed h slug _ _) slug
    · rename_i applied commit _
      have hmutated : ShadowedBut announced but { s.mutateMarket slug e applied with railLossLatched := false } := h
      have hbased := updateActive_shadowed hmutated slot (f := fun c => { c with producedBase := true }) (fun _ => rfl)
        fun _ => id
      have hsettled := ShadowedBut.of_standbys (t := updateMarket _ slug settle) hbased rfl
      exact refreshAgreement_shadowed (hsettled.of_standbys (publishSegmentCommit_standbys _ slug commit)) slug

theorem visitMarkets_shadowed (h : s.ShadowedBut announced but) (visit : String → MarketEntry → Visit) :
    (s.visitMarkets visit).ShadowedBut announced but := h.map rfl fun _ hx => hx

theorem reportShardLoss_shadowed (h : s.ShadowedBut announced but) (continuity : ContinuityReason) (authority : AuthorityReason) :
    (s.reportShardLoss continuity authority).ShadowedBut announced but := by
  unfold reportShardLoss
  split
  · exact h
  · refine ShadowedBut.map (s := visitMarkets _ _) ?_ rfl fun _ hx => hx
    exact h.map rfl fun _ hx => hx

theorem dropShadow_shadowed {x : Standby} (h : x.Shadowed announced) (slug : String) : (x.dropShadow slug).Shadowed announced := by
  refine h.fewer rfl fun k _ hk => ?_
  by_cases heq : k = slug
  · simp [Standby.dropShadow, heq] at hk
  · simpa [Standby.dropShadow, lookup_erase, heq] using hk

theorem close_shadowed (h : s.ShadowedBut announced but) (slug : String) : (s.close slug).ShadowedBut announced but := by
  unfold Shard.close
  split
  · exact h
  · exact h.map rfl fun _ hx => dropShadow_shadowed hx slug

theorem closeRemoved_shadowed (h : s.ShadowedBut announced but) : s.closeRemoved.ShadowedBut announced but := by
  unfold closeRemoved
  generalize s.removedSlugs = slugs
  induction slugs generalizing s with
  | nil => exact h
  | cons slug rest ih => exact ih (close_shadowed h slug)

theorem Changes.shadowed (h : Changes s t) (hs : s.Shadowed announced) : t.Shadowed announced := by
  induction h with
  | refl => exact hs
  | tail _ hchange ih =>
    cases hchange with
    | install slug installs => cases installs <;> subst_vars <;> exact ih
    | unwant slug e => exact ih.map rfl fun _ hx => hx
    | queue removing => exact ih
    | close slug => exact close_shadowed ih slug

/-! ## Frames that make shadows -/

theorem applyShadowCandidate_shadowed (h : s.Shadowed announced) {market : MarketRef} (hours : marketOfSlug slug = some market)
    (candidate : Candidate) (hserves : announced → ∀ x, s.standbys[index]? = some x → x.Serves slug) :
    (s.applyShadowCandidate index slug market candidate).Shadowed announced := by
  unfold applyShadowCandidate
  split
  · exact h
  · rename_i standby hstandby
    -- the shadow before the frame, or a new one
    have hbefore : (standby.shadows[slug]?.getD (.new market)).market = market := by
      cases hshadow : standby.shadows[slug]? with
      | none => rfl
      | some shadow =>
        have hnamed := (h index standby hstandby (by simp) slug shadow hshadow).1
        exact Option.some.inj (hnamed.symm.trans hours)
    refine refreshShadowAgreement_shadowed (h.modify rfl fun x hfound hx => ?_) index slug
    split
    · rename_i shadow commit hok
      intro k shadow' hk
      by_cases heq : k = slug
      · subst heq
        obtain rfl : shadow = shadow' := by simpa using hk
        rw [OrderBook.applySnapshot_market hok, hbefore]
        exact ⟨hours, fun ha => hserves ha x hfound⟩
      · exact hx k shadow' (by simpa [lookup_insert, heq] using hk)
    · refine hx.fewer rfl fun k _ hk => ?_
      by_cases heq : k = slug
      · simp [heq] at hk
      · simpa [lookup_erase, heq] using hk

theorem withdrawLicence_shadowed (h : s.ShadowedBut announced but) (reason : PoolDegradeReason) :
    (s.withdrawLicence reason).ShadowedBut announced but := by
  unfold withdrawLicence
  split
  · exact h.map rfl fun _ hx => hx
  · exact h

/-! ## Steps -/

theorem Arranged.shadowed (h : Arranged but s t) (hs : s.ShadowedBut announced but) : t.ShadowedBut announced but := by
  intro i x' hx' hi
  have hstandby := h.standbys i hi
  rw [hx'] at hstandby
  cases hx : s.standbys[i]? with
  | none => simp [hx] at hstandby
  | some x =>
    intro slug shadow hshadow
    rcases (by simpa [hx] using hstandby : x.Tends x') with ⟨hshadows, -, hserves⟩ | ⟨hnone, -⟩
    · exact (hs i x hx hi slug shadow (hshadows ▸ hshadow)).imp_right fun hx ha => hserves slug (hx ha)
    · simp [hnone] at hshadow

theorem Part.shadowed {x y : Option Nat × Shard} {told : List PoolCall} (h : Part x told y)
    (hs : x.2.ShadowedBut announced x.1) : y.2.ShadowedBut announced y.1 := by
  cases h with
  | arranged h => exact h.shadowed hs
  | opened index s => exact fun i x hx _ => hs i x hx nofun
  | emptied index s hempty => exact ShadowedBut.clear hs fun x slug => by simp [(hempty x).1]
  | resolved h => exact hs.of_standbys (by cases h <;> rfl)
  | closed but s => exact closeRemoved_shadowed hs
  | uncovered but s | promoted but s => exact visitMarkets_shadowed hs _
  | ended but s => exact ShadowedBut.map (s := visitMarkets _ _) (visitMarkets_shadowed hs _) rfl fun _ hx => hx
  | lost but s continuity => exact reportShardLoss_shadowed hs continuity _
  | recounted | retired | moved => exact hs

theorem Call.shadowed {told : List PoolCall} (h : Call s told t) (hs : s.Shadowed announced) : t.Shadowed announced :=
  h.parts.inv (I := fun x => x.2.ShadowedBut announced x.1) (fun _ _ _ hx hpart => hpart.shadowed hx) hs

/-- A frame makes a shadow of its own market, and only for a connection that is established and has the market. -/
theorem Marks.shadowed {ready : Prop} (h : Marks ready slug s t) (ha : announced → ready) (hn : s.Named)
    (hs : s.Shadowed announced) : t.Shadowed announced := by
  induction h with
  | refl => exact hs
  | tail hmarks hmark ih =>
    cases hmark with
    | placed | gated | noted => exact ih
    | dropped index => exact ih.modify rfl fun _ _ hx => dropShadow_shadowed hx slug
    | shadowed index market candidate hserved hours =>
      obtain ⟨e, he, rfl⟩ := hours
      obtain ⟨e₀, he₀, hnoted⟩ := (Marks.marked hmarks).entries.of_some he
      refine applyShadowCandidate_shadowed ih ?_ candidate fun hannounced => hserved (ha hannounced)
      rw [hnoted.market]
      exact (hn.entries slug e₀ he₀).1

theorem Reached.shadowed (h : Reached slot slug s t) (hs : s.Shadowed announced) : t.Shadowed announced := by
  cases h with
  | kept => exact hs
  | lost => exact reportMarketLoss_shadowed hs slug _ _
  | applied candidate => exact applyAuthoritative_shadowed hs slot slug candidate _
  | withdrawn reason => exact withdrawLicence_shadowed hs reason

theorem ShadowedBut.step (h : s.Shadowed announced) (hs : s.Orderly) {event : ShardEvent}
    (hannounced : announced → s.Announced event = true) (hstep : s.step event = some t) : t.Shadowed announced := by
  cases step_taken hstep with
  | spawned slot hspawn ht => exact ht ▸ (s.spawnSlot_arranged slot none).shadowed h
  | called hcalls => exact hcalls.inv (fun _ _ _ hs hcall => hcall.shadowed hs) h
  | read generation update times subscription look slot hnotice hframe =>
    cases hframe with
    | ignored hmarks => exact hmarks.shadowed hannounced hs.named h
    | delivered e u he haccepts hmarks hreached => exact hreached.shadowed (hmarks.shadowed hannounced hs.named h)
  | added slugs hadds ht =>
    obtain ⟨u, hchanges, -, heq⟩ := addMarkets_spec hs.counted slugs
    exact ht ▸ heq ▸ hchanges.shadowed h
  | removed slugs hremoves ht =>
    obtain ⟨u, hchanges, -, heq⟩ := removeMarkets_spec hs.counted slugs
    exact ht ▸ heq ▸ hchanges.shadowed h

theorem Starts.shadowed (h : Starts s) : s.Shadowed announced := by
  obtain ⟨config, levelCapacity, order, segment, made, hchanges, -, rfl⟩ := h.changes
  refine hchanges.shadowed fun i x hx _ slug _ hshadow => ?_
  obtain ⟨-, rfl⟩ : i < config.replicas - 1 ∧ Standby.default = x := by
    simpa [empty, List.getElem?_replicate] using hx
  simp [Standby.default] at hshadow

end Shard

end PmWs
