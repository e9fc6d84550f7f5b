import PmWs.Lib.Tables
import PmWs.Limitless.Shard
import PmWs.Limitless.Shard.Visits

/-!
# What the functions of a shard keep

Every function short of applying a frame is idle: a market's entry either goes
on from the one that was there or is newly installed. Most are plain: they also
leave the set, the sessions and who carries what alone. What is left to look at
one by one are the functions that install and close markets, and those that
move connections between roles.
-/

open MachineInt Tables

namespace PmWs

namespace Shard

/-- The same connection: only its heartbeats and its base may have moved. -/
structure ActiveConnection.Same (c c' : ActiveConnection) : Prop where
  generation : c'.generation = c.generation
  markets : c'.markets = c.markets
  dialledSetVersion : c'.dialledSetVersion = c.dialledSetVersion
  established : c'.established = c.established

theorem ActiveConnection.Same.refl (c : ActiveConnection) : c.Same c := ⟨rfl, rfl, rfl, rfl⟩

theorem ActiveConnection.Same.trans {a b c : ActiveConnection} (h₁ : a.Same b) (h₂ : b.Same c) : a.Same c :=
  ⟨h₂.generation.trans h₁.generation, h₂.markets.trans h₁.markets, h₂.dialledSetVersion.trans h₁.dialledSetVersion,
    h₂.established.trans h₁.established⟩

/-- The role holds the same connection, at the same point of its dial. -/
structure SameSlot (x x' : ConnectionSlot) : Prop where
  active : Option.Rel ActiveConnection.Same x.active x'.active
  dialledVersion : x'.dialledVersion = x.dialledVersion
  wireVersion : x'.wireVersion = x.wireVersion

theorem SameSlot.refl (x : ConnectionSlot) : SameSlot x x := by
  refine ⟨?_, rfl, rfl⟩
  cases x.active with
  | none => exact .none
  | some c => exact .some (.refl c)

theorem SameSlot.trans {x y z : ConnectionSlot} (h₁ : SameSlot x y) (h₂ : SameSlot y z) : SameSlot x z := by
  refine ⟨?_, h₂.dialledVersion.trans h₁.dialledVersion, h₂.wireVersion.trans h₁.wireVersion⟩
  have hxy := h₁.active
  have hyz := h₂.active
  revert hxy hyz
  cases x.active <;> cases y.active <;> cases z.active <;> simp
  exact .trans

/-- The set version of `t` is not behind the one of `s`. -/
def Later (s t : Shard) : Prop :=
  s.desiredVersion ≤ u64Max → s.desiredVersion ≤ t.desiredVersion ∧ t.desiredVersion ≤ u64Max

/-- An entry made since `s`: nothing was applied to it yet, and no connection dialled before `s` has it in its set,
unless the set version is spent. -/
structure Installed (s t : Shard) (e : MarketEntry) : Prop where
  gate : e.gate = none
  baseAccepted : e.baseAccepted = false
  live : e.live = false
  ceased : e.unavailableReported = true → e.book.Ceased
  version : s.desiredVersion ≤ u64Max → s.desiredVersion < e.installedVersion ∨ u64Max ≤ t.desiredVersion

/-- Every book, also a retired one, is the book of the market its slug names. -/
structure Named (s : Shard) : Prop where
  entries : ∀ (slug : String) e, s.markets[slug]? = some e → marketOfSlug slug = some e.market ∧ e.book.market = e.market
  retired : ∀ (slug : String) book, s.retired[slug]? = some book → marketOfSlug slug = some book.market

/-- Every entry is sound, and while the latch holds only spent books are live. -/
structure Latched (s : Shard) : Prop where
  entries : ∀ (slug : String) e, s.markets[slug]? = some e → e.Sound
  quiet : s.railLossLatched = true → ∀ (slug : String) e, s.markets[slug]? = some e → e.live = true → e.Spent

/-- No frame was applied and the licence stands as it stood. -/
structure Idle (s t : Shard) : Prop where
  config : t.config = s.config
  standbys : t.standbys.length = s.standbys.length
  redundancy : t.redundancy = s.redundancy
  version : Later s t
  entries : ∀ (slug : String) e', t.markets[slug]? = some e' →
    (∃ e : MarketEntry, s.markets[slug]? = some e ∧ e.Idle e') ∨ Installed s t e'
  named : Named s → Named t
  latched : Latched s → Latched t

/-- The same set, the same sessions in the same roles, and the same licence. -/
structure Still (s t : Shard) : Prop where
  config : t.config = s.config
  retired : t.retired = s.retired
  removing : t.removing = s.removing
  standbys : t.standbys.length = s.standbys.length
  redundancy : t.redundancy = s.redundancy
  version : t.desiredVersion = s.desiredVersion
  count : t.desiredCount = s.desiredCount
  nextGeneration : t.nextGeneration = s.nextGeneration
  slots : ∀ slot, Option.Rel SameSlot (s.slot slot) (t.slot slot)

/-- Idle, with all that the same and every market where it was subscribed. -/
structure Plain (s t : Shard) : Prop extends Still s t where
  entries : Related MarketEntry.Plain s.markets t.markets
  latched : Latched s → Latched t

/-- What plain functions leave exactly as it is. -/
def held (s : Shard) : ShardConfig × Std.ExtTreeMap String OrderBook × List String × Option Redundancy × Nat × Nat ×
    Nat × ConnectionSlot × List ConnectionSlot :=
  (s.config, s.retired, s.removing, s.redundancy, s.desiredVersion, s.desiredCount, s.nextGeneration, s.primary,
    s.standbys.map (·.slot))

/-- Nothing changed but the shadows, the agreement, what was published and where the streams stand. -/
structure Beside (s t : Shard) : Prop where
  held : t.held = s.held
  markets : t.markets = s.markets
  latch : t.railLossLatched = s.railLossLatched
  recovering : t.recovering = s.recovering

/-- Only the entry of one market changed. The latch and the shadows may have. -/
structure Touched (s t : Shard) (slug : String) (e e' : MarketEntry) : Prop extends Still s t where
  found : s.markets[slug]? = some e
  stored : t.markets[slug]? = some e'
  others : ∀ k, k ≠ slug → t.markets[k]? = s.markets[k]?

variable {a b c s t u : Shard} {slug : String} {e e' e'' : MarketEntry}

/-! ## Composing -/

theorem Later.refl (s : Shard) : Later s s := fun h => ⟨Nat.le_refl _, h⟩

theorem Later.trans (h₁ : Later a b) (h₂ : Later b c) : Later a c := fun ha =>
  have hb := h₁ ha
  have hc := h₂ hb.2
  ⟨hb.1.trans hc.1, hc.2⟩

theorem Installed.idle {e e' : MarketEntry} (h : Installed s t e) (hst : Later s t) (htu : Later t u)
    (hi : e.Idle e') : Installed s u e' where
  gate := by
    cases hg : e'.gate with
    | none => rfl
    | some gate' =>
      obtain ⟨gate, hgate, -⟩ := hi.gate gate' hg
      simp [h.gate] at hgate
  baseAccepted := hi.baseAccepted.trans h.baseAccepted
  live := by
    have hlive := hi.holds.live
    have hout := h.live
    simp only [MarketEntry.live, decide_eq_false_iff_not] at hout ⊢
    exact fun h => hout (hlive h)
  ceased hu := by
    rcases hi.unavailable hu with hold | hnew
    · exact (h.ceased hold).holds hi.holds
    · exact hnew
  version hs := by
    rw [hi.installedVersion]
    exact (h.version hs).imp_right fun hspent => hspent.trans (htu (hst hs).2).1

theorem Installed.since {e : MarketEntry} (h : Installed t u e) (hst : Later s t) : Installed s u e :=
  { h with version := fun hs => (h.version (hst hs).2).imp_left (hst hs).1.trans_lt }

theorem Installed.sound {e : MarketEntry} (h : Installed s t e) : e.Sound :=
  ⟨fun hlive => by simp [h.live] at hlive, fun _ hlive => by simp [h.live] at hlive⟩

/-- The latch means as much over entries that go on from the old ones or are new, unless it is set. -/
theorem Latched.of_entries (h : Latched s) (hlatch : t.railLossLatched = true → s.railLossLatched = true)
    (hentries : ∀ (slug : String) e', t.markets[slug]? = some e' →
      (∃ e : MarketEntry, s.markets[slug]? = some e ∧ e.Idle e') ∨ Installed s t e') : Latched t where
  entries slug e' he' := by
    rcases hentries slug e' he' with ⟨e, he, hi⟩ | hnew
    · exact (h.entries slug e he).idle hi
    · exact hnew.sound
  quiet hl slug e' he' hlive := by
    rcases hentries slug e' he' with ⟨e, he, hi⟩ | hnew
    · exact (h.quiet (hlatch hl) slug e he (hi.live hlive)).idle hi
    · simp [hnew.live] at hlive

theorem Idle.of_entries (hconfig : t.config = s.config) (hstandbys : t.standbys.length = s.standbys.length)
    (hredundancy : t.redundancy = s.redundancy) (hversion : Later s t)
    (hlatch : t.railLossLatched = true → s.railLossLatched = true)
    (hentries : ∀ (slug : String) e', t.markets[slug]? = some e' →
      (∃ e : MarketEntry, s.markets[slug]? = some e ∧ e.Idle e') ∨ Installed s t e')
    (hnamed : Named s → Named t) : Idle s t :=
  ⟨hconfig, hstandbys, hredundancy, hversion, hentries, hnamed, fun h => h.of_entries hlatch hentries⟩

theorem Idle.refl (s : Shard) : Idle s s :=
  ⟨rfl, rfl, rfl, .refl s, fun _ e' h => .inl ⟨e', h, .refl e'⟩, id, id⟩

theorem Idle.trans (h₁ : Idle a b) (h₂ : Idle b c) : Idle a c where
  config := h₂.config.trans h₁.config
  standbys := h₂.standbys.trans h₁.standbys
  redundancy := h₂.redundancy.trans h₁.redundancy
  version := h₁.version.trans h₂.version
  entries slug e' he' := by
    rcases h₂.entries slug e' he' with ⟨e, he, hi⟩ | hnew
    · rcases h₁.entries slug e he with ⟨e₀, he₀, hi₀⟩ | hnew
      · exact .inl ⟨e₀, he₀, hi₀.trans hi⟩
      · exact .inr (hnew.idle h₁.version h₂.version hi)
    · exact .inr (hnew.since h₁.version)
  named h := h₂.named (h₁.named h)
  latched h := h₂.latched (h₁.latched h)

theorem Plain.idle (h : Plain s t) : Idle s t where
  config := h.config
  standbys := h.standbys
  redundancy := h.redundancy
  version hs := ⟨h.version.ge, h.version.trans_le hs⟩
  entries slug e' he' := by
    obtain ⟨e, he, hp⟩ := h.entries.of_some he'
    exact .inl ⟨e, he, hp.toIdle⟩
  named hn := by
    refine ⟨fun slug e' he' => ?_, h.retired ▸ hn.retired⟩
    obtain ⟨e, he, hp⟩ := h.entries.of_some he'
    obtain ⟨hslug, hbook⟩ := hn.entries slug e he
    exact ⟨by rw [hp.market, hslug], by rw [hp.holds.market, hbook, hp.market]⟩
  latched := h.latched

theorem slots_refl (s : Shard) (slot : Slot) : Option.Rel SameSlot (s.slot slot) (s.slot slot) := by
  cases s.slot slot with
  | none => exact .none
  | some x => exact .some (.refl x)

theorem Still.refl (s : Shard) : Still s s := ⟨rfl, rfl, rfl, rfl, rfl, rfl, rfl, rfl, s.slots_refl⟩

theorem Still.trans (h₁ : Still a b) (h₂ : Still b c) : Still a c where
  config := h₂.config.trans h₁.config
  retired := h₂.retired.trans h₁.retired
  removing := h₂.removing.trans h₁.removing
  standbys := h₂.standbys.trans h₁.standbys
  redundancy := h₂.redundancy.trans h₁.redundancy
  version := h₂.version.trans h₁.version
  count := h₂.count.trans h₁.count
  nextGeneration := h₂.nextGeneration.trans h₁.nextGeneration
  slots slot := by
    have hab := h₁.slots slot
    have hbc := h₂.slots slot
    revert hab hbc
    cases a.slot slot <;> cases b.slot slot <;> cases c.slot slot <;> simp
    exact .trans

theorem Plain.refl (s : Shard) : Plain s s := ⟨.refl s, .refl .refl _, id⟩

theorem Plain.trans (h₁ : Plain a b) (h₂ : Plain b c) : Plain a c :=
  ⟨h₁.toStill.trans h₂.toStill, h₁.entries.trans .trans h₂.entries, fun h => h₂.latched (h₁.latched h)⟩

/-! ## Plain functions -/

theorem slot_congr (hprimary : t.primary = s.primary)
    (hstandbys : t.standbys.map (·.slot) = s.standbys.map (·.slot)) (slot : Slot) : t.slot slot = s.slot slot := by
  cases slot with
  | primary => exact congrArg some hprimary
  | standby index =>
    have hget := congrArg (·[index]?) hstandbys
    simpa only [List.getElem?_map, Shard.slot] using hget

theorem Still.of_held (hheld : t.held = s.held) : Still s t := by
  simp only [held, Prod.mk.injEq] at hheld
  obtain ⟨hconfig, hretired, hremoving, hredundancy, hversion, hcount, hnext, hprimary, hstandbys⟩ := hheld
  refine ⟨hconfig, hretired, hremoving, ?_, hredundancy, hversion, hcount, hnext, fun slot => ?_⟩
  · simpa using congrArg List.length hstandbys
  · rw [slot_congr hprimary hstandbys slot]
    exact s.slots_refl slot

theorem Related.latched (hlatch : t.railLossLatched = true → s.railLossLatched = true)
    (hentries : Related MarketEntry.Plain s.markets t.markets) (h : Latched s) : Latched t := by
  refine h.of_entries hlatch fun slug e' he' => ?_
  obtain ⟨e, he, hp⟩ := hentries.of_some he'
  exact .inl ⟨e, he, hp.toIdle⟩

theorem Plain.of_entries (hheld : t.held = s.held) (hlatch : t.railLossLatched = s.railLossLatched)
    (hentries : Related MarketEntry.Plain s.markets t.markets) : Plain s t :=
  ⟨.of_held hheld, hentries, Related.latched hlatch.symm.trans hentries⟩

theorem Beside.refl (s : Shard) : Beside s s := ⟨rfl, rfl, rfl, rfl⟩

theorem Beside.trans (h₁ : Beside a b) (h₂ : Beside b c) : Beside a c :=
  ⟨h₂.held.trans h₁.held, h₂.markets.trans h₁.markets, h₂.latch.trans h₁.latch, h₂.recovering.trans h₁.recovering⟩

theorem Touched.trans (h₁ : Touched s t slug e e') (h₂ : Touched t u slug e' e'') : Touched s u slug e e'' :=
  ⟨h₁.toStill.trans h₂.toStill, h₁.found, h₂.stored, fun k hk => (h₂.others k hk).trans (h₁.others k hk)⟩

theorem Touched.related {R : MarketEntry → MarketEntry → Prop} (hR : ∀ e, R e e) (h : Touched s t slug e e')
    (hentry : R e e') : Related R s.markets t.markets := by
  intro k
  by_cases heq : k = slug
  · rw [heq, h.found, h.stored]
    exact .some hentry
  · rw [h.others k heq]
    exact Related.refl hR s.markets k

theorem Touched.plain (h : Touched s t slug e e') (hentry : e.Plain e') (hlatch : t.railLossLatched = s.railLossLatched) :
    Plain s t :=
  have hentries := h.related .refl hentry
  ⟨h.toStill, hentries, Related.latched hlatch.symm.trans hentries⟩

/-- A change that leaves the markets alone. -/
theorem Still.touched (h : Still s t) (hmarkets : t.markets = s.markets) (he : s.markets[slug]? = some e) :
    Touched s t slug e e :=
  ⟨h, he, hmarkets ▸ he, fun _ _ => by rw [hmarkets]⟩

theorem Beside.touched (h : Beside s t) (he : s.markets[slug]? = some e) : Touched s t slug e e :=
  Still.touched (.of_held h.held) h.markets he

theorem Touched.of_insert (hheld : t.held = s.held) (hmarkets : t.markets = s.markets.insert slug e')
    (he : s.markets[slug]? = some e) : Touched s t slug e e' :=
  ⟨.of_held hheld, he, by rw [hmarkets, lookup_insert, if_pos rfl], fun k hk => by
    rw [hmarkets, lookup_insert, if_neg hk]⟩

theorem updateMarket_touched (he : s.markets[slug]? = some e) (f : MarketEntry → MarketEntry) :
    Touched s (s.updateMarket slug f) slug e (f e) :=
  ⟨.of_held rfl, he, by simp [updateMarket, he], fun k hk => by simp [updateMarket, lookup_modify, hk]⟩

theorem Plain.of_markets (hmarkets : t.markets = s.markets) (hheld : t.held = s.held)
    (hlatch : t.railLossLatched = s.railLossLatched) : Plain s t :=
  .of_entries hheld hlatch (hmarkets ▸ .refl .refl _)

theorem Beside.plain (h : Beside s t) : Plain s t := .of_markets h.markets h.held h.latch

theorem Beside.idle (h : Beside s t) : Idle s t := h.plain.idle

theorem updateStandby_beside (s : Shard) (index : Nat) (f : Standby → Standby)
    (hf : ∀ x, (f x).slot = x.slot) : Beside s (s.updateStandby index f) := by
  refine ⟨?_, rfl, rfl, rfl⟩
  simp only [held, updateStandby, Prod.mk.injEq, true_and]
  apply List.ext_getElem? 
  intro i
  simp only [List.getElem?_map, List.getElem?_modify, Option.map_eq_map, Option.map_map]
  congr 1
  funext x
  split <;> simp [hf]

theorem updateSlot_plain (s : Shard) (slot : Slot) (f : ConnectionSlot → ConnectionSlot) (hf : ∀ x, SameSlot x (f x)) :
    Plain s (s.updateSlot slot f) := by
  cases slot with
  | primary =>
    refine ⟨⟨rfl, rfl, rfl, rfl, rfl, rfl, rfl, rfl, fun slot => ?_⟩, .refl .refl _, fun h => ⟨h.entries, h.quiet⟩⟩
    cases slot with
    | primary => exact .some (hf s.primary)
    | standby index => exact s.slots_refl (.standby index)
  | standby index =>
    refine ⟨⟨rfl, rfl, rfl, by simp [updateSlot], rfl, rfl, rfl, rfl, fun slot => ?_⟩, .refl .refl _,
      fun h => ⟨h.entries, h.quiet⟩⟩
    cases slot with
    | primary => exact s.slots_refl .primary
    | standby i =>
      simp only [Shard.slot, updateSlot, List.getElem?_modify, Option.map_eq_map, Option.map_map]
      cases s.standbys[i]? with
      | none => exact .none
      | some x =>
        by_cases heq : index = i
        · simpa [heq] using hf x.slot
        · simpa [heq] using SameSlot.refl x.slot

theorem updateActive_plain (s : Shard) (slot : Slot) (f : ActiveConnection → ActiveConnection)
    (hf : ∀ c : ActiveConnection, c.Same (f c)) : Plain s (s.updateActive slot f) := by
  refine s.updateSlot_plain slot _ fun x => ⟨?_, rfl, rfl⟩
  show Option.Rel _ x.active (x.active.map f)
  cases x.active with
  | none => exact .none
  | some c => exact .some (hf c)

theorem updateMarkets_plain (s : Shard) (f : String → MarketEntry → MarketEntry)
    (hf : ∀ slug (e : MarketEntry), e.Plain (f slug e)) : Plain s (s.updateMarkets f) :=
  .of_entries rfl rfl (.map fun slug e _ => hf slug e)

theorem visitMarkets_plain (s : Shard) (visit : String → MarketEntry → Visit)
    (hv : ∀ slug (e : MarketEntry), e.Plain (visit slug e).entry) : Plain s (s.visitMarkets visit) :=
  .of_entries (by simp [held, visitMarkets, Function.comp_def]) rfl (.map fun slug e _ => hv slug e)

theorem recountRecovering_plain (s : Shard) : Plain s s.recountRecovering := .of_markets rfl rfl rfl

theorem retireAgreement_beside (s : Shard) (slug : String) : Beside s (s.retireAgreement slug) :=
  ⟨by simp [held, retireAgreement, Function.comp_def], rfl, rfl, rfl⟩

theorem retireAllAgreement_beside (s : Shard) : Beside s s.retireAllAgreement :=
  ⟨by simp [held, retireAllAgreement, Function.comp_def], rfl, rfl, rfl⟩

theorem refreshShadowAgreement_beside (s : Shard) (index : Nat) (slug : String) :
    Beside s (s.refreshShadowAgreement index slug) := by
  refine s.updateStandby_beside index _ fun x => ?_
  split <;> rfl

theorem refreshAgreement_beside (s : Shard) (slug : String) : Beside s (s.refreshAgreement slug) := by
  unfold refreshAgreement
  -- one standby after the other
  induction (List.range s.standbys.length) generalizing s with
  | nil => exact .refl s
  | cons index rest ih => exact (s.refreshShadowAgreement_beside index slug).trans (ih _)

theorem publishSegmentState_beside (s : Shard) (slug : String) : Beside s (s.publishSegmentState slug) := by
  unfold publishSegmentState
  split
  · exact ⟨rfl, rfl, rfl, rfl⟩
  · exact .refl s

theorem publishSegmentCommit_beside (s : Shard) (slug : String) (commit : BookCommit) :
    Beside s (s.publishSegmentCommit slug commit) := by
  unfold publishSegmentCommit
  split
  · exact ⟨rfl, rfl, rfl, rfl⟩
  · exact .refl s

theorem reportMarketLoss_spec (he : s.markets[slug]? = some e) (continuity : ContinuityReason)
    (authority : AuthorityReason) : ∃ lost, e.Plain lost ∧ Touched s (s.reportMarketLoss slug continuity authority) slug e lost ∧
      (s.reportMarketLoss slug continuity authority).railLossLatched = s.railLossLatched := by
  unfold reportMarketLoss
  rw [he]
  dsimp only
  have hlost : e.Plain (if e.terminal then (e.lostBase, false)
      else e.lostBase.reportContinuityLoss continuity authority).1 := by
    split
    · exact e.lostBase_plain
    · exact e.lostBase_plain.trans (MarketEntry.reportContinuityLoss_plain _ _ _)
  generalize (if e.terminal then (e.lostBase, false)
    else e.lostBase.reportContinuityLoss continuity authority) = lost at hlost
  have hreported : Beside (s.mutateMarket slug e lost.1) ((if lost.2 then
      (s.mutateMarket slug e lost.1).publishSegmentState slug else s.mutateMarket slug e lost.1).refreshAgreement slug) := by
    refine .trans ?_ (refreshAgreement_beside _ _)
    split
    · exact publishSegmentState_beside _ _
    · exact .refl _
  have hmutated : Touched s (s.mutateMarket slug e lost.1) slug e lost.1 := .of_insert rfl rfl he
  exact ⟨lost.1, hlost, hmutated.trans (hreported.touched hmutated.stored), hreported.latch⟩

theorem reportMarketLoss_plain (s : Shard) (slug : String) (continuity : ContinuityReason)
    (authority : AuthorityReason) : Plain s (s.reportMarketLoss slug continuity authority) := by
  cases he : s.markets[slug]? with
  | none =>
    unfold reportMarketLoss
    rw [he]
    exact (s.refreshAgreement_beside slug).plain
  | some e =>
    obtain ⟨lost, hlost, htouched, hlatch⟩ := reportMarketLoss_spec he continuity authority
    exact htouched.plain hlost hlatch

theorem reportShardLoss_plain (s : Shard) (continuity : ContinuityReason) (authority : AuthorityReason) :
    Plain s (s.reportShardLoss continuity authority) := by
  unfold reportShardLoss
  split
  · exact .refl s
  · have hentries : Related MarketEntry.Plain s.markets
        (s.markets.map fun _ e => (e.loseShard continuity authority).entry) :=
      .map fun _ e _ => e.loseShard_plain continuity authority
    refine ⟨.of_held (by simp [held, visitMarkets, retireAllAgreement, recountRecovering, Function.comp_def]), hentries,
      fun h => ⟨fun slug e' he' => ?_, fun _ slug e' he' hlive => ?_⟩⟩
    · obtain ⟨e, he, hp⟩ := hentries.of_some he'
      exact (h.entries slug e he).idle hp.toIdle
    · obtain ⟨e, he, rfl⟩ := Option.map_eq_some_iff.1 ((lookup_map _ _ _).symm.trans he')
      exact (h.entries slug e he).loseShard hlive

theorem applyShadowCandidate_beside (s : Shard) (index : Nat) (slug : String) (market : MarketRef)
    (candidate : Candidate) : Beside s (s.applyShadowCandidate index slug market candidate) := by
  unfold applyShadowCandidate
  split
  · exact .refl s
  · refine .trans (updateStandby_beside _ _ _ fun x => ?_) (refreshShadowAgreement_beside _ _ _)
    split <;> rfl

/-- What a reported resolution comes to: nothing, a position, a note in the market's entry, or also an event of its
stream. -/
inductive Resolved (s : Shard) : Shard → Prop
  | ignored : Resolved s s
  | placed (position : Nat) : Resolved s { s with position }
  | noted (position : Nat) (slug : String) (e : MarketEntry) (resolution : MarketResolution)
      (found : s.markets[slug]? = some e) :
      Resolved s { s with position, markets := s.markets.insert slug { e with latestResolution := some resolution } }
  | streamed (position : Nat) (slug : String) (e : MarketEntry) (resolution : MarketResolution) (book : OrderBook)
      (cursor : MutationCursor) (found : s.markets[slug]? = some e) (taken : e.book.noteStreamEvent = .ok (book, cursor)) :
      Resolved s
        { s with
          position
          markets := s.markets.insert slug { e with latestResolution := some resolution, book }
          segment := s.segment.map fun segment =>
            segment.publishResolution slug book.revision cursor resolution book.publish }

theorem forwardResolution_resolved (s : Shard) (resolved : MarketResolved) (times : FrameTimes) (subscription : Nat) :
    Resolved s (s.forwardResolution resolved times subscription) := by
  unfold forwardResolution
  dsimp only
  split
  · exact .ignored
  · rename_i e he
    split
    · exact .ignored
    · rename_i position _
      split
      · exact .placed position
      · rename_i resolution _
        split
        · exact .noted position _ e resolution he
        · split
          · exact .noted position _ e resolution he
          · rename_i book cursor hok
            have hnoted : (s.markets.insert resolved.slug { e with latestResolution := some resolution }).insert
                resolved.slug { e with latestResolution := some resolution, book } =
                s.markets.insert resolved.slug { e with latestResolution := some resolution, book } := by
              refine Std.ExtTreeMap.ext_getElem? fun k => ?_
              simp only [lookup_insert]
              split <;> rfl
            rw [hnoted]
            exact .streamed position _ e resolution book cursor he hok

theorem Resolved.plain (h : Resolved s t) : Plain s t := by
  have hnoted (e : MarketEntry) (resolution : MarketResolution) :
      e.Plain { e with latestResolution := some resolution } := ⟨.of_eq rfl rfl rfl rfl id rfl rfl rfl, rfl⟩
  cases h with
  | ignored => exact .refl s
  | placed position => exact .of_markets rfl rfl rfl
  | noted position slug e resolution he => exact .of_entries rfl rfl (.insert .refl he (hnoted e resolution))
  | streamed position slug e resolution book cursor he hok =>
    exact .of_entries rfl rfl (.insert .refl he { hnoted e resolution with holds := .noteStreamEvent hok, unavailable := .inl })

theorem retirePoolSocket_plain (s : Shard) (slot : Slot) : Plain s (s.retirePoolSocket slot) := by
  have hended : Plain s { s with poolSessionsEnded := s.poolSessionsEnded ||| socketBit slot.index } :=
    .of_markets rfl rfl rfl
  refine hended.trans (updateMarkets_plain _ _ fun _ e => ?_)
  refine ⟨⟨⟨rfl, .refl _, rfl, rfl, .inl, fun gate' h => ?_⟩, rfl, fun socket h => ?_⟩, rfl⟩
  · obtain ⟨gate, hgate, rfl⟩ := Option.map_eq_some_iff.1 h
    exact ⟨gate, hgate, gate.retireSocket_keeps _⟩
  · -- the session that ended is the only one that leaves the published key
    have hnoted : (e.notePosition slot.index false).standsAt socket = true := h
    rw [MarketEntry.standsAt_notePosition] at hnoted
    split at hnoted
    · cases hnoted
    · exact hnoted

theorem handBackToPublishingSlot_plain (s : Shard) : Plain s s.handBackToPublishingSlot :=
  (visitMarkets_plain _ _ fun _ e => e.handBack_plain _).trans (recountRecovering_plain _)

theorem reissue_beside (s : Shard) (reissue : Reissue) : Beside s { s with reissue } := ⟨rfl, rfl, rfl, rfl⟩

theorem onResubscribed_beside (s : Shard) (slot : Slot) (now : Nat) : Beside s (s.onResubscribed slot now) := by
  unfold onResubscribed
  split
  · exact s.reissue_beside _
  · exact .refl s

end Shard

end PmWs
