import PmWs.Limitless.Shard.Invariants

/-!
# Which markets a standby could carry on

A standby keeps the set of markets whose published book its own shadow agrees
with. The set is maintained where a book or a shadow moves, and it is at all
times what comparing every market anew would give.
-/

open MachineInt Tables

namespace PmWs

namespace MarketEntry

/-- The market could be handed to a standby with this shadow of it. -/
def couldMove (e : MarketEntry) (shadow : Option OrderBook) : Bool := promotable e (shadowVerdict e shadow)

/-- Every shadow compares with the entry as it did. -/
structure SameStanding (e e' : MarketEntry) : Prop where
  couldMove : ∀ shadow, e'.couldMove shadow = e.couldMove shadow
  spent : e.Spent → e'.Spent

/-- No shadow agrees with the entry any more, unless its revisions are spent. -/
def Fallen (e : MarketEntry) : Prop := ∀ shadow, e.couldMove shadow = true → e.Spent

variable {a b c e e' : MarketEntry}

theorem SameStanding.of_eq (hdesired : e'.desired = e.desired) (hbase : e'.baseAccepted = e.baseAccepted)
    (hauthority : e'.book.authority = e.book.authority) (hmarket : e'.book.market = e.book.market)
    (hlevels : e'.book.levels = e.book.levels) (hrevision : e.book.revision ≤ e'.book.revision) : e.SameStanding e' where
  couldMove shadow := by
    have hverdict : shadowVerdict e' shadow = shadowVerdict e shadow := by
      cases shadow with
      | none => rfl
      | some shadow =>
        have hpublished : e'.book.publish.market = e.book.publish.market := hmarket
        have hcontent : e'.book.publish.levels = e.book.publish.levels := by simp only [OrderBook.publish, hlevels]
        have hequal : shadow.publish.economicallyEqual e'.book.publish = shadow.publish.economicallyEqual e.book.publish := by
          unfold PublishedBook.economicallyEqual
          rw [hpublished, hcontent]
        unfold shadowVerdict agreement
        dsimp only
        rw [hequal]
    simp only [MarketEntry.couldMove, promotable, hdesired, hbase, MarketEntry.live, hauthority, hverdict]
  spent h := Nat.le_trans h hrevision

theorem SameStanding.refl (e : MarketEntry) : e.SameStanding e := ⟨fun _ => rfl, id⟩

theorem SameStanding.trans (h₁ : a.SameStanding b) (h₂ : b.SameStanding c) : a.SameStanding c :=
  ⟨fun shadow => (h₂.couldMove shadow).trans (h₁.couldMove shadow), fun h => h₂.spent (h₁.spent h)⟩

/-- A change of bookkeeping alone. -/
theorem SameStanding.of_book (hdesired : e'.desired = e.desired) (hbase : e'.baseAccepted = e.baseAccepted)
    (hbook : e'.book = e.book) : e.SameStanding e' :=
  .of_eq hdesired hbase (by rw [hbook]) (by rw [hbook]) (by rw [hbook]) (by rw [hbook])

theorem couldMove_none (e : MarketEntry) : e.couldMove none = false := by simp [couldMove, promotable, shadowVerdict]

theorem couldMove_live {shadow : Option OrderBook} (h : e.couldMove shadow = true) :
    e.desired = true ∧ e.baseAccepted = true ∧ e.live = true := by
  simp only [couldMove, promotable, Bool.and_eq_true] at h
  exact ⟨h.1.1.1, h.1.1.2, h.1.2⟩

theorem Fallen.of_quiet (h : e.Quiet) : e.Fallen := fun _ hmove => h (couldMove_live hmove).2.2

theorem Fallen.of_baseless (h : e.baseAccepted = false) : e.Fallen := fun _ hmove => by
  simp [(couldMove_live hmove).2.1] at h

end MarketEntry

/-! ## Passes -/

/-- What a pass leaves of an entry: the same standing, or none where it retires the agreement on it. -/
structure Visit.Settles (e : MarketEntry) (visit : Visit) : Prop where
  kept : visit.retired = false → e.SameStanding visit.entry
  retired : visit.retired = true → visit.entry.Fallen

theorem Visit.Settles.of_standing {a b : MarketEntry} {visit : Visit} (hs : a.SameStanding b) (h : visit.Settles b) :
    visit.Settles a := ⟨fun hkept => hs.trans (h.kept hkept), h.retired⟩

namespace MarketEntry

variable {e : MarketEntry}

theorem keep_settles {e' : MarketEntry} (h : e.SameStanding e') : (Visit.keep e').Settles e := ⟨fun _ => h, nofun⟩

theorem reportContinuityLoss_fallen (e : MarketEntry) (continuity : ContinuityReason) (authority : AuthorityReason) :
    (e.reportContinuityLoss continuity authority).1.Fallen := .of_quiet (reportContinuityLoss_quiet _ _ _)

theorem reportEnd_fallen (e : MarketEntry) (attempts : Nat) (continuity : ContinuityReason) (authority : AuthorityReason) :
    (e.reportEnd attempts continuity authority).1.Fallen := .of_quiet (reportEnd_quiet _ _ _ _)

/-- After its generation ended, no shadow agrees with a market. -/
theorem endGeneration_fallen (e : MarketEntry) (attempts : Nat) (continuity : ContinuityReason)
    (authority : AuthorityReason) : (e.endGeneration attempts continuity authority).entry.Fallen := by
  unfold endGeneration
  dsimp only
  split
  · exact reportEnd_fallen _ _ _ _
  · rename_i hkept
    exact .of_baseless (by simpa using fun h => hkept (.inl h))

theorem endGeneration_settles (e : MarketEntry) (attempts : Nat) (continuity : ContinuityReason)
    (authority : AuthorityReason) : (e.endGeneration attempts continuity authority).Settles e := by
  refine ⟨fun hkept => ?_, fun _ => e.endGeneration_fallen attempts continuity authority⟩
  unfold endGeneration at hkept ⊢
  dsimp only at hkept ⊢
  split at hkept
  · cases hkept
  · rename_i hout
    rw [if_neg hout]
    exact .of_book rfl rfl rfl

theorem leaveConnection_standing (e : MarketEntry) : e.SameStanding e.leaveConnection := .of_book rfl rfl rfl

theorem loseCoverage_settles (e : MarketEntry) (publishing : Bool) (survivors : List (List String)) (attempts : Nat)
    (continuity : ContinuityReason) (authority : AuthorityReason) (slug : String) :
    (e.loseCoverage publishing survivors attempts continuity authority slug).Settles e := by
  unfold loseCoverage
  dsimp only
  have hleft : e.SameStanding (if publishing then e.leaveConnection else e) := by
    split
    · exact e.leaveConnection_standing
    · exact .refl e
  split
  · exact keep_settles hleft
  · exact .of_standing hleft (endGeneration_settles _ _ _ _)

theorem handBack_settles (e : MarketEntry) (running : Option Nat) : (e.handBack running).Settles e := by
  unfold handBack
  dsimp only
  split
  · exact keep_settles (.refl e)
  · split
    · exact keep_settles (.refl e)
    · exact ⟨nofun, fun _ => reportContinuityLoss_fallen _ _ _⟩

theorem promote_settles (e : MarketEntry) (generation version : Nat) (carried : List String) (shadow : Option OrderBook)
    (ended : ConnectionEndReason) (lossy : Bool) (attempts : Nat) (slug : String) :
    (e.promote generation version carried shadow ended lossy attempts slug).Settles e := by
  unfold promote
  dsimp only
  split
  · exact keep_settles (.of_book rfl rfl rfl)
  · exact ⟨nofun, fun _ => endGeneration_fallen _ _ _ _⟩

theorem loseShard_fallen (h : e.Sound) (continuity : ContinuityReason) (authority : AuthorityReason) :
    (e.loseShard continuity authority).entry.Fallen := .of_quiet h.loseShard

end MarketEntry

namespace Shard

/-- A standby's shadow of a market, and whether it counts as agreeing. -/
def Standby.view (self : Standby) (slug : String) : Option OrderBook × Bool :=
  (self.shadows[slug]?, self.agreeing.contains slug)

def shadowAt (s : Shard) (index : Nat) (slug : String) : Option (Option OrderBook × Bool) :=
  s.standbys[index]?.map (·.view slug)

/-- What counts as agreeing agrees, and the other way round unless the book's revisions are spent. -/
def Agrees (entry : Option MarketEntry) (standby : Option (Option OrderBook × Bool)) : Prop :=
  ∀ shadow agreeing, standby = some (shadow, agreeing) →
    (agreeing = true → entry.any (·.couldMove shadow) = true) ∧
      ∀ e, entry = some e → e.couldMove shadow = true → agreeing = true ∨ e.Spent

/-- The standby's set is right. -/
def AgreedAt (s : Shard) (index : Nat) : Prop := ∀ slug, Agrees s.markets[slug]? (s.shadowAt index slug)

abbrev Agreed (s : Shard) : Prop := ∀ index, s.AgreedAt index

variable {s t u : Shard} {slot : Slot} {slug : String} {e e' : MarketEntry} {standby : Option (Option OrderBook × Bool)}

/-- A forgotten shadow agrees with nothing. -/
theorem Agrees.forgotten (entry : Option MarketEntry) : Agrees entry (some (none, false)) := by
  intro shadow agreeing h
  cases h
  exact ⟨nofun, fun e _ hmove => by simp [e.couldMove_none] at hmove⟩

theorem Agrees.standing (h : Agrees (some e) standby) (hs : e.SameStanding e') : Agrees (some e') standby := by
  intro shadow agreeing hstandby
  obtain ⟨hout, hin⟩ := h shadow agreeing hstandby
  refine ⟨fun ha => by simpa [hs.couldMove] using hout ha, fun e₁ he₁ hmove => ?_⟩
  obtain rfl := Option.some.inj he₁
  exact (hin e rfl (hs.couldMove shadow ▸ hmove)).imp_right hs.spent

/-- A market no shadow agrees with counts nowhere. -/
theorem Agrees.fallen {shadow : Option OrderBook} (h : e.Fallen) : Agrees (some e) (some (shadow, false)) := by
  intro shadow agreeing hstandby
  cases hstandby
  refine ⟨nofun, fun e₁ he₁ hmove => ?_⟩
  obtain rfl := Option.some.inj he₁
  exact .inr (h _ hmove)

/-- The standbys and the standing of every market are the same. -/
structure SameAgreement (s t : Shard) : Prop where
  standbys : ∀ index slug, t.shadowAt index slug = s.shadowAt index slug
  entries : Related MarketEntry.SameStanding s.markets t.markets

theorem SameAgreement.refl (s : Shard) : SameAgreement s s := ⟨fun _ _ => rfl, .refl .refl _⟩

theorem SameAgreement.trans (h₁ : SameAgreement s t) (h₂ : SameAgreement t u) : SameAgreement s u :=
  ⟨fun index slug => (h₂.standbys index slug).trans (h₁.standbys index slug), h₁.entries.trans .trans h₂.entries⟩

theorem Agrees.related {entry entry' : Option MarketEntry} (h : Agrees entry standby)
    (hs : Option.Rel MarketEntry.SameStanding entry entry') : Agrees entry' standby := by
  cases hs with
  | none => exact h
  | some hs => exact h.standing hs

theorem AgreedAt.same {index : Nat} (h : s.AgreedAt index) (hs : SameAgreement s t) : t.AgreedAt index := by
  intro slug
  rw [hs.standbys index slug]
  exact (h slug).related (hs.entries slug)

theorem Agreed.same (h : s.Agreed) (hs : SameAgreement s t) : t.Agreed := fun index => (h index).same hs

theorem shadowAt_congr (h : ∀ slug, t.standbys.map (·.view slug) = s.standbys.map (·.view slug)) (index : Nat)
    (slug : String) : t.shadowAt index slug = s.shadowAt index slug := by
  have hget := congrArg (·[index]?) (h slug)
  simpa only [shadowAt, List.getElem?_map] using hget

theorem SameAgreement.of_markets (hmarkets : t.markets = s.markets)
    (hstandbys : ∀ slug, t.standbys.map (·.view slug) = s.standbys.map (·.view slug)) : SameAgreement s t :=
  ⟨shadowAt_congr hstandbys, hmarkets ▸ .refl .refl _⟩

/-! ## Shadows -/

theorem shadowAt_updateStandby (s : Shard) (index i : Nat) (slug : String) (f : Standby → Standby) :
    (s.updateStandby index f).shadowAt i slug =
      if i = index then s.standbys[i]?.map fun x => (f x).view slug else s.shadowAt i slug := by
  simp only [shadowAt, updateStandby, List.getElem?_modify, Option.map_eq_map, Option.map_map]
  by_cases heq : i = index
  · simp [heq, Function.comp_def]
  · simp [heq, Ne.symm heq, Function.comp_def]

theorem shadowAt_of_view {k : String} {f : Standby → Standby} (hf : ∀ x, (f x).view k = x.view k) (s : Shard)
    (index i : Nat) : (s.updateStandby index f).shadowAt i k = s.shadowAt i k := by
  rw [shadowAt_updateStandby]
  split
  · simp only [hf, shadowAt]
  · rfl

/-- Comparing anew settles one market with one standby, and leaves the others. -/
theorem refreshShadowAgreement_agrees (s : Shard) (index : Nat) (slug : String) (i : Nat) (k : String)
    (h : i ≠ index ∨ k ≠ slug → Agrees s.markets[k]? (s.shadowAt i k)) :
    Agrees s.markets[k]? ((s.refreshShadowAgreement index slug).shadowAt i k) := by
  unfold refreshShadowAgreement
  rw [shadowAt_updateStandby]
  split
  · rename_i hi
    cases hx : s.standbys[i]? with
    | none => exact fun _ _ hnone => by simp at hnone
    | some x =>
      rw [Option.map_some]
      by_cases hk : k = slug
      · -- the market itself: the comparison is what is recorded
        subst hk
        intro shadow agreeing hview
        have hshadow : x.shadows[k]? = shadow ∧ (s.markets[k]?.any (·.couldMove x.shadows[k]?)) = agreeing := by
          split at hview <;> rename_i hany <;> simp only [Standby.view, Option.some.injEq, Prod.mk.injEq] at hview
          · exact ⟨hview.1, hany.trans (by simpa using hview.2)⟩
          · exact ⟨hview.1, (Bool.eq_false_iff.2 hany).trans (by simpa using hview.2)⟩
        obtain ⟨rfl, rfl⟩ := hshadow
        exact ⟨id, fun e he hmove => .inl (by simp [he, hmove])⟩
      · have hsame : s.shadowAt i k = some (x.view k) := by simp [shadowAt, hx]
        have hview : (if (s.markets[slug]?.any fun entry => promotable entry (shadowVerdict entry x.shadows[slug]?)) = true
            then { x with agreeing := x.agreeing.insert slug }
            else { x with agreeing := x.agreeing.erase slug }).view k = x.view k := by
          split <;> simp [Standby.view, Ne.symm hk]
        rw [hview, ← hsame]
        exact h (.inr hk)
  · rename_i hi
    exact h (.inl hi)

/-- Comparing a market anew with every standby settles that market. -/
theorem refreshAgreement_agreed (s : Shard) (slug : String)
    (h : ∀ i k, k ≠ slug → Agrees s.markets[k]? (s.shadowAt i k)) : (s.refreshAgreement slug).Agreed := by
  have hall (indices : List Nat) (s : Shard) (i : Nat) (k : String)
      (h : (i ∈ indices ∧ k = slug) ∨ Agrees s.markets[k]? (s.shadowAt i k)) :
      Agrees s.markets[k]? ((indices.foldl (fun s index => s.refreshShadowAgreement index slug) s).shadowAt i k) := by
    induction indices generalizing s with
    | nil => exact h.resolve_left (by simp)
    | cons index rest ih =>
      refine ih (s.refreshShadowAgreement index slug) ?_
      by_cases hhere : i = index ∧ k = slug
      · refine .inr (s.refreshShadowAgreement_agrees index slug i k fun hne => ?_)
        simp [hhere] at hne
      · rcases h with ⟨hmem, hk⟩ | hagrees
        · exact .inl ⟨(List.mem_cons.1 hmem).resolve_left fun hi => hhere ⟨hi, hk⟩, hk⟩
        · exact .inr (s.refreshShadowAgreement_agrees index slug i k fun _ => hagrees)
  intro i k
  rw [(s.refreshAgreement_beside slug).markets]
  refine hall _ s i k ?_
  by_cases hk : k = slug
  · by_cases hi : i < s.standbys.length
    · exact .inl ⟨List.mem_range.2 hi, hk⟩
    · refine .inr fun shadow agreeing hview => ?_
      simp [shadowAt, List.getElem?_eq_none (Nat.not_lt.1 hi)] at hview
  · exact .inr (h i k hk)

theorem applyShadowCandidate_agreed (h : s.Agreed) (index : Nat) (slug : String) (market : MarketRef)
    (candidate : Candidate) : (s.applyShadowCandidate index slug market candidate).Agreed := by
  unfold applyShadowCandidate
  split
  · exact h
  · rename_i standby _
    generalize (standby.shadows[slug]?.getD (.new market)).applySnapshot candidate = result
    intro i k
    refine refreshShadowAgreement_agrees _ index slug i k fun hne => ?_
    by_cases hk : k = slug
    · have hi : i ≠ index := hne.resolve_right fun hout => hout hk
      rw [shadowAt_updateStandby, if_neg hi]
      exact h i k
    · -- the shadow that moved is the one of another market
      rw [shadowAt_of_view fun x => by
        cases result <;> simp [Standby.view, lookup_insert, lookup_erase, hk]]
      exact h i k

theorem dropShadow_agreed (h : s.Agreed) (index : Nat) (slug : String) : (s.updateStandby index (·.dropShadow slug)).Agreed := by
  intro i k
  by_cases hk : k = slug
  · rw [shadowAt_updateStandby]
    split
    · cases s.standbys[i]? with
      | none => exact fun _ _ hnone => by simp at hnone
      | some x =>
        have hview : (x.dropShadow slug).view k = (none, false) := by simp [Standby.view, Standby.dropShadow, hk]
        rw [Option.map_some, hview]
        exact Agrees.forgotten _
    · exact h i k
  · rw [shadowAt_of_view fun x => by simp [Standby.view, Standby.dropShadow, lookup_erase, hk, Ne.symm hk]]
    exact h i k

/-! ## One market -/

theorem updateMarket_agreement (s : Shard) (slug : String) {f : MarketEntry → MarketEntry}
    (hf : ∀ e : MarketEntry, e.SameStanding (f e)) : SameAgreement s (s.updateMarket slug f) :=
  ⟨fun _ _ => rfl, .modify .refl fun e _ => hf e⟩

theorem updateMarkets_agreement (s : Shard) {f : String → MarketEntry → MarketEntry}
    (hf : ∀ slug (e : MarketEntry), e.SameStanding (f slug e)) : SameAgreement s (s.updateMarkets f) :=
  ⟨fun _ _ => rfl, .map fun slug e _ => hf slug e⟩

theorem insert_agreement (he : s.markets[slug]? = some e) (h : e.SameStanding e') :
    SameAgreement s { s with markets := s.markets.insert slug e' } :=
  ⟨fun _ _ => rfl, .insert .refl he h⟩

theorem updateSlot_agreement (s : Shard) (slot : Slot) (f : ConnectionSlot → ConnectionSlot) :
    SameAgreement s (s.updateSlot slot f) := by
  cases slot with
  | primary => exact .of_markets rfl fun _ => rfl
  | standby index =>
    exact ⟨fun i k => shadowAt_of_view (f := fun x => { x with slot := f x.slot }) (fun _ => rfl) s index i, .refl .refl _⟩

theorem publishSegmentState_agreement (s : Shard) (slug : String) : SameAgreement s (s.publishSegmentState slug) := by
  unfold publishSegmentState
  split
  · exact .of_markets rfl fun _ => rfl
  · exact .refl s

theorem publishSegmentCommit_agreement (s : Shard) (slug : String) (commit : BookCommit) :
    SameAgreement s (s.publishSegmentCommit slug commit) := by
  unfold publishSegmentCommit
  split
  · exact .of_markets rfl fun _ => rfl
  · exact .refl s

/-- A changed market is settled by comparing it anew. -/
theorem Agreed.refresh (h : s.Agreed) (hothers : ∀ k, k ≠ slug → t.markets[k]? = s.markets[k]?)
    (hstandbys : ∀ i k, t.shadowAt i k = s.shadowAt i k) : (t.refreshAgreement slug).Agreed := by
  refine t.refreshAgreement_agreed slug fun i k hk => ?_
  rw [hothers k hk, hstandbys i k]
  exact h i k

theorem reportMarketLoss_agreed (h : s.Agreed) (slug : String) (continuity : ContinuityReason)
    (authority : AuthorityReason) : (s.reportMarketLoss slug continuity authority).Agreed := by
  unfold reportMarketLoss
  split
  · exact h.refresh (fun _ _ => rfl) fun _ _ => rfl
  · rename_i e he
    dsimp only
    generalize (if e.terminal then (e.lostBase, false)
      else e.lostBase.reportContinuityLoss continuity authority) = lost
    have hmutated (k : String) (hk : k ≠ slug) : (s.mutateMarket slug e lost.1).markets[k]? = s.markets[k]? := by
      simp [mutateMarket, lookup_insert, hk]
    split
    · refine h.refresh (fun k hk => ?_) fun i k => ?_
      · rw [(publishSegmentState_beside _ slug).markets, hmutated k hk]
      · exact (publishSegmentState_agreement (s.mutateMarket slug e lost.1) slug).standbys i k
    · exact h.refresh hmutated fun _ _ => rfl

theorem applyAuthoritative_agreed (h : s.Agreed) (slot : Slot) (slug : String) (candidate : Candidate)
    (settle : MarketEntry → MarketEntry) : (s.applyAuthoritative slot slug candidate settle).Agreed := by
  unfold applyAuthoritative
  split
  · exact h.refresh (fun _ _ => rfl) fun _ _ => rfl
  · rename_i e he
    split
    · exact (reportMarketLoss_agreed h slug _ _).refresh (fun _ _ => rfl) fun _ _ => rfl
    · rename_i applied commit _
      refine h.refresh (fun k hk => ?_) fun i k => ?_
      · rw [(publishSegmentCommit_beside _ slug commit).markets]
        simp only [updateMarket, lookup_modify, if_neg hk]
        cases slot <;> simp [updateActive, updateSlot, mutateMarket, lookup_insert, hk]
      · rw [(publishSegmentCommit_agreement _ slug commit).standbys i k]
        exact (updateSlot_agreement { s.mutateMarket slug e applied with railLossLatched := false } slot _).standbys i k

/-! ## Passes over the markets -/

theorem shadowAt_visitMarkets (s : Shard) (visit : String → MarketEntry → Visit) (i : Nat) (k : String) :
    (s.visitMarkets visit).shadowAt i k = (s.shadowAt i k).map fun x =>
      (x.1, x.2 && !s.markets[k]?.any fun e => (visit k e).retired) := by
  simp only [shadowAt, visitMarkets, List.getElem?_map, Option.map_map, Function.comp_def, Standby.view, contains_filter]

theorem visitMarkets_agreed {i : Nat} (h : s.AgreedAt i) {visit : String → MarketEntry → Visit}
    (hv : ∀ slug e, (visit slug e).Settles e) : (s.visitMarkets visit).AgreedAt i := by
  intro k
  have hhere := h k
  have hmarkets : (s.visitMarkets visit).markets[k]? = s.markets[k]?.map fun e => (visit k e).entry := lookup_map _ _ _
  rw [hmarkets, shadowAt_visitMarkets]
  cases hx : s.shadowAt i k with
  | none => exact fun _ _ hnone => by simp at hnone
  | some x =>
    rw [hx] at hhere
    cases he : s.markets[k]? with
    | none => simpa [he] using hhere
    | some e =>
      rw [he] at hhere
      cases hretired : (visit k e).retired with
      | false => simpa [hretired] using hhere.standing ((hv k e).kept hretired)
      | true => simpa [hretired] using Agrees.fallen ((hv k e).retired hretired)

/-- After a pass that leaves no market standing, nothing counts as agreeing. -/
theorem Agreed.of_fallen (hfallen : ∀ (slug : String) e, s.markets[slug]? = some e → e.Fallen) :
    s.retireAllAgreement.Agreed := by
  intro i k
  have hview : s.retireAllAgreement.shadowAt i k = (s.shadowAt i k).map fun x => (x.1, false) := by
    simp only [shadowAt, retireAllAgreement, List.getElem?_map, Option.map_map]
    congr 1
  rw [hview]
  intro shadow agreeing hstandby
  obtain ⟨x, -, hx⟩ := Option.map_eq_some_iff.1 hstandby
  obtain ⟨rfl, rfl⟩ := Prod.mk.inj hx
  exact ⟨by simp, fun e he hmove => .inr (hfallen k e he _ hmove)⟩

theorem recountRecovering_agreed (h : s.Agreed) : s.recountRecovering.Agreed := h

theorem reportShardLoss_agreed {i : Nat} (h : s.AgreedAt i) (hl : s.Latched) (continuity : ContinuityReason)
    (authority : AuthorityReason) : (s.reportShardLoss continuity authority).AgreedAt i := by
  unfold reportShardLoss
  split
  · exact h
  · refine recountRecovering_agreed (.of_fallen fun slug e he => ?_) i
    obtain ⟨e₀, he₀, rfl⟩ := Option.map_eq_some_iff.1 ((lookup_map _ _ _).symm.trans he)
    exact MarketEntry.loseShard_fallen (hl.entries slug e₀ he₀) continuity authority

/-! ## The set -/

theorem dropShadow_view (x : Standby) (slug k : String) :
    (x.dropShadow slug).view k = if k = slug then (none, false) else x.view k := by
  by_cases hk : k = slug
  · simp [Standby.view, Standby.dropShadow, hk]
  · simp [Standby.view, Standby.dropShadow, lookup_erase, hk, Ne.symm hk]

theorem close_agreed {i : Nat} (h : s.AgreedAt i) (slug : String) : (s.close slug).AgreedAt i := by
  intro k
  have hhere := h k
  cases he : s.markets[slug]? with
  | none =>
    have hsame : s.close slug = s := by simp [Shard.close, he]
    rw [hsame]
    exact hhere
  | some e =>
    have hshadow : (s.close slug).shadowAt i k = (s.shadowAt i k).map fun x => if k = slug then (none, false) else x := by
      simp only [Shard.close, he, shadowAt, List.getElem?_map, Option.map_map, Function.comp_def, dropShadow_view]
    rw [close_markets, hshadow]
    by_cases hk : k = slug
    · cases s.shadowAt i k with
      | none => exact fun _ _ hnone => by simp at hnone
      | some x => simpa [hk] using Agrees.forgotten none
    · simpa [hk] using hhere

theorem closeRemoved_agreed {i : Nat} (h : s.AgreedAt i) : s.closeRemoved.AgreedAt i := by
  unfold closeRemoved
  generalize s.removedSlugs = slugs
  induction slugs generalizing s with
  | nil => exact h
  | cons slug rest ih => exact ih (close_agreed h slug)

/-- A market just installed is not live, so no shadow agrees with it. -/
theorem Installs.agreed {result : Except InstallRefusal Unit} (h : Installs s slug t result) (hs : s.Agreed)
    (habsent : s.markets[slug]? = none) : t.Agreed := by
  cases h with
  | refused refusal retired segment htaken ht =>
    subst ht
    exact hs
  | installed market book segment hm hb ht =>
    subst ht
    intro i k
    have hhere := hs i k
    show Agrees (s.markets.insert slug _)[k]? (s.shadowAt i k)
    rw [lookup_insert]
    by_cases hk : k = slug
    · rw [if_pos hk]
      rw [hk, habsent] at hhere
      rw [hk]
      intro shadow agreeing hstandby
      refine ⟨fun ha => by simpa using (hhere shadow agreeing hstandby).1 ha, fun e he hmove => ?_⟩
      obtain rfl := Option.some.inj he
      exact absurd (MarketEntry.couldMove_live hmove).2.1 (by simp [MarketEntry.installed])
    · rw [if_neg hk]
      exact hhere

/-- An unwanted market agrees with no shadow, and counts nowhere. -/
theorem unwant_agreed (h : s.Agreed) (slug : String) (e : MarketEntry) : (s.unwant slug e).Agreed := by
  intro i k
  have hview (x : Standby) : Standby.view { x with agreeing := x.agreeing.erase slug } k =
      if k = slug then ((x.view k).1, false) else x.view k := by
    by_cases hk : k = slug
    · simp [Standby.view, hk]
    · simp [Standby.view, hk, Ne.symm hk]
  have hshadow : (s.unwant slug e).shadowAt i k =
      (s.shadowAt i k).map fun x => if k = slug then (x.1, false) else x := by
    simp only [shadowAt, unwant, retireAgreement, List.getElem?_map, Option.map_map, Function.comp_def, hview]
  have hmarkets : (s.unwant slug e).markets[k]? =
      if k = slug then some { e with desired := false, subscription := .removing } else s.markets[k]? := lookup_insert _ _ _ _
  rw [hmarkets, hshadow]
  by_cases hk : k = slug
  · cases s.shadowAt i k with
    | none => exact fun _ _ hnone => by simp at hnone
    | some x =>
      rw [if_pos hk, Option.map_some, if_pos hk]
      exact Agrees.fallen fun _ hmove => absurd (MarketEntry.couldMove_live hmove).1 (by simp)
  · simpa [hk] using h i k

theorem Changes.agreed (h : Changes s t) (hs : s.Agreed) : t.Agreed := by
  induction h with
  | refl => exact hs
  | tail _ hchange ih =>
    cases hchange with
    | install slug installs habsent => exact installs.agreed ih habsent
    | unwant slug e => exact unwant_agreed ih slug e
    | queue removing => exact ih
    | close slug => exact fun i => close_agreed (ih i) slug

/-! ## Frames -/

theorem withdrawLicence_agreed (h : s.Agreed) (reason : PoolDegradeReason) : (s.withdrawLicence reason).Agreed := by
  unfold withdrawLicence
  split
  · rename_i declaration sockets _
    have hlicence : SameAgreement s { s with redundancy := some (.pooled declaration sockets (some reason)) } :=
      .of_markets rfl fun _ => rfl
    have hungated := h.same (hlicence.trans (updateMarkets_agreement _ fun _ e =>
      show e.SameStanding { e with gate := none } from .of_book rfl rfl rfl))
    exact recountRecovering_agreed fun i => visitMarkets_agreed (hungated i) fun _ e => e.handBack_settles _
  · exact h

/-- A resolution moves the market's stream, and leaves its levels and its authority alone. -/
theorem Resolved.agreement (h : Resolved s t) : SameAgreement s t := by
  cases h with
  | ignored => exact .refl s
  | placed position => exact .of_markets rfl fun _ => rfl
  | noted position slug e resolution he => exact ⟨fun _ _ => rfl, .insert .refl he (.of_book rfl rfl rfl)⟩
  | streamed position slug e resolution book cursor he hok =>
    obtain ⟨_, _, -, -, -, hbook⟩ := OrderBook.noteStreamEvent_ok hok
    have hheld := OrderBook.Holds.noteStreamEvent hok
    refine ⟨fun _ _ => rfl, .insert .refl he ?_⟩
    exact .of_eq rfl rfl (by simp [hbook]) hheld.market (by simp [hbook]) hheld.revision_le

/-! ## Dials and ends -/

/-- The sets of the standbys are right, that of `but` apart. -/
def AgreedBut (but : Option Nat) (s : Shard) : Prop := ∀ i, some i ≠ but → s.AgreedAt i

theorem view_empty {x : Standby} (h : x.shadows = ∅ ∧ x.agreeing = ∅) (slug : String) : x.view slug = (none, false) := by
  simp [Standby.view, h.1, h.2]

theorem Arranged.agreed {but : Option Nat} (h : Arranged but s t) (hs : s.AgreedBut but) : t.AgreedBut but := by
  intro i hi slug
  have hentries := (h.entries.mono fun h => MarketEntry.SameStanding.of_book h.desired h.baseAccepted h.book) slug
  have hhere := (hs i hi slug).related hentries
  have hstandby := h.standbys i hi
  unfold shadowAt at hhere ⊢
  revert hhere hstandby
  cases s.standbys[i]? <;> cases t.standbys[i]? <;> simp only [Option.rel_none_none, Option.not_rel_none_some,
    Option.not_rel_some_none, Option.rel_some_some, false_implies, implies_true]
  · exact fun h _ => h
  · rename_i x x'
    rintro hhere (⟨hshadows, hagreeing, -⟩ | hempty)
    · simpa only [Option.map_some, Standby.view, hshadows, hagreeing] using hhere
    · rw [Option.map_some, view_empty hempty]
      exact Agrees.forgotten _

theorem emptied_agreed {index : Nat} (h : s.AgreedBut (some index)) {f : Standby → Standby}
    (hf : ∀ x, (f x).shadows = ∅ ∧ (f x).agreeing = ∅) : (s.updateStandby index f).Agreed := by
  intro i k
  rw [shadowAt_updateStandby]
  split
  · cases s.standbys[i]? with
    | none => exact fun _ _ hnone => by simp at hnone
    | some x =>
      rw [Option.map_some, view_empty (hf x)]
      exact Agrees.forgotten _
  · rename_i hi
    exact h i (fun heq => hi (Option.some.inj heq)) k

/-! ## Steps -/

theorem Part.agreed {x y : Option Nat × Shard} {told : List PoolCall} (h : Part x told y) (hl : x.2.Latched)
    (hs : x.2.AgreedBut x.1) : y.2.AgreedBut y.1 := by
  cases h with
  | arranged h => exact h.agreed hs
  | opened index s => exact fun i _ => hs i nofun
  | emptied index s hempty => exact fun i _ => emptied_agreed hs hempty i
  | resolved h => exact fun i hi => (hs i hi).same h.agreement
  | closed but s => exact fun i hi => closeRemoved_agreed (hs i hi)
  | uncovered but s => exact fun i hi => visitMarkets_agreed (hs i hi) fun slug e => e.loseCoverage_settles _ _ _ _ _ slug
  | ended but s =>
    refine fun i _ => Agreed.of_fallen (fun slug e he => ?_) i
    obtain ⟨e₀, -, rfl⟩ := Option.map_eq_some_iff.1 ((lookup_map _ _ _).symm.trans he)
    exact MarketEntry.endGeneration_fallen _ _ _ _
  | promoted but s =>
    exact fun i hi => visitMarkets_agreed (hs i hi) fun slug e => e.promote_settles _ _ _ _ _ _ _ slug
  | lost but s continuity => exact fun i hi => reportShardLoss_agreed (hs i hi) hl continuity _
  | recounted => exact hs
  | retired | moved => exact fun i hi => (hs i hi).same ⟨fun _ _ => rfl, .map fun _ _ _ => .of_book rfl rfl rfl⟩

theorem Call.agreed {told : List PoolCall} (h : Call s told t) (hs : s.Agreed) (hl : s.Latched) : t.Agreed := by
  have hparts := h.parts.inv (I := fun x => x.2.Latched ∧ x.2.AgreedBut x.1)
    (fun _ _ _ hx hpart => ⟨hpart.calm.idle.latched hx.1, hpart.agreed hx.1 hx.2⟩) ⟨hl, fun i _ => hs i⟩
  exact fun i => hparts.2 i nofun

theorem Mark.agreed {announced : Prop} (h : Mark announced slug s t) (hs : s.Agreed) : t.Agreed := by
  cases h with
  | placed position shadowPosition => exact hs
  | dropped index => exact dropShadow_agreed hs index slug
  | shadowed index market candidate => exact applyShadowCandidate_agreed hs index slug market candidate
  | gated e gate he => exact hs.same (insert_agreement he (.of_book rfl rfl rfl))
  | noted socket reached =>
    exact hs.same (s.updateMarket_agreement slug fun e =>
      show e.SameStanding (e.notePosition socket reached) from .of_book rfl rfl rfl)

theorem Reached.agreed (h : Reached slot slug s t) (hs : s.Agreed) : t.Agreed := by
  cases h with
  | kept => exact hs
  | lost => exact reportMarketLoss_agreed hs slug _ _
  | applied candidate => exact applyAuthoritative_agreed hs slot slug candidate _
  | withdrawn reason => exact withdrawLicence_agreed hs reason

theorem Marks.agreed {announced : Prop} (h : Marks announced slug s t) (hs : s.Agreed) : t.Agreed := by
  induction h with
  | refl => exact hs
  | tail _ hmark ih => exact hmark.agreed ih

theorem Agreed.step (h : s.Agreed) (hs : s.Orderly) {event : ShardEvent} (hstep : s.step event = some t) : t.Agreed := by
  cases step_taken hstep with
  | spawned slot hspawn ht => exact ht ▸ fun i => (s.spawnSlot_arranged slot none).agreed (fun i _ => h i) i nofun
  | called hcalls => exact hcalls.keep hs (fun _ _ _ hs h hcall => hcall.agreed h hs.latched) h
  | read generation update times subscription look slot hnotice hframe =>
    cases hframe with
    | ignored hmarks => exact hmarks.agreed h
    | delivered e u he haccepts hmarks hreached => exact hreached.agreed (hmarks.agreed h)
  | added slugs hadds ht =>
    obtain ⟨u, hchanges, -, heq⟩ := addMarkets_spec hs.counted slugs
    exact ht ▸ heq ▸ recountRecovering_agreed (hchanges.agreed h)
  | removed slugs hremoves ht =>
    obtain ⟨u, hchanges, -, heq⟩ := removeMarkets_spec hs.counted slugs
    exact ht ▸ heq ▸ recountRecovering_agreed (hchanges.agreed h)

theorem Starts.agreed (h : Starts s) : s.Agreed := by
  obtain ⟨config, levelCapacity, order, segment, made, hchanges, -, rfl⟩ := h.changes
  have hempty : (empty config levelCapacity order).Agreed := by
    intro i k shadow agreeing hview
    simp [shadowAt, empty, List.getElem?_replicate, Standby.view, Standby.default] at hview
    simp [empty, ← hview.2.2]
  exact hchanges.agreed hempty

theorem Reachable.agreed (h : Reachable s) : s.Agreed := by
  obtain ⟨start, hstart, hrun⟩ := h
  refine (hrun.inv (I := fun s => s.Wired ∧ s.Agreed) (fun _ _ _ hs _ hstep => ?_) ⟨hstart.wired, hstart.agreed⟩).2
  exact ⟨hs.1.step hstep, hs.2.step hs.1.toOrderly hstep⟩

/-- The set a standby keeps is the set of the markets that could be handed to it, each compared anew. -/
theorem agreeing_is_recomputed (h : Reachable s)
    (hfits : ∀ (slug : String) e, s.markets[slug]? = some e → e.book.revision < u64Max) {index : Nat} {standby : Standby}
    (hstandby : s.standbys[index]? = some standby) (slug : String) :
    slug ∈ standby.agreeing ↔
      ∃ e, s.markets[slug]? = some e ∧ promotable e (shadowVerdict e standby.shadows[slug]?) = true := by
  obtain ⟨hout, hin⟩ := h.agreed index slug standby.shadows[slug]? (standby.agreeing.contains slug)
    (by simp [shadowAt, hstandby, Standby.view])
  rw [← Std.ExtTreeSet.contains_iff_mem]
  constructor
  · intro hagreeing
    exact (Option.any_eq_true _ _).1 (hout hagreeing)
  · rintro ⟨e, he, hmove⟩
    exact (hin e he hmove).resolve_right (Nat.not_le.2 (hfits slug e he))

/-- Both connections delivered one market alike, and the other differently. -/
def exampleAgreed : Shard :=
  exampleStandby.after [.spawn .primary, .spawn (.standby 0), exampleReady 1, exampleReady 2,
    exampleFrame 1 "btc-up" "1" 10, exampleFrame 1 "eth-up" "1" 10, exampleFrame 2 "btc-up" "1" 10,
    exampleFrame 2 "eth-up" "1" 20] (by decide)

theorem agreeing_is_recomputed_example :
    ∃ standby, exampleAgreed.standbys[0]? = some standby ∧ "btc-up" ∈ standby.agreeing ∧ "eth-up" ∉ standby.agreeing ∧
      ∀ slug, slug ∈ standby.agreeing ↔ ∃ e, exampleAgreed.markets[slug]? = some e ∧
        promotable e (shadowVerdict e standby.shadows[slug]?) = true := by
  have hstandby : exampleAgreed.standbys[0]? = some (exampleAgreed.standbys[0]?.get (by decide)) :=
    (Option.some_get _).symm
  have hfits : exampleAgreed.markets.toList.all fun entry => decide (entry.2.book.revision < u64Max) := by decide
  refine ⟨_, hstandby, by decide, by decide,
    agreeing_is_recomputed (exampleStandby_starts.after _ _) (fun slug e he => ?_) hstandby⟩
  simpa using List.all_eq_true.1 hfits (slug, e) (Std.ExtTreeMap.mem_toList_iff_getElem?_eq_some.2 he)

end Shard

end PmWs
