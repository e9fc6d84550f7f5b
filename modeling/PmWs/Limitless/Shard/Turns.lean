import PmWs.Limitless.Shard.Invariants

/-!
# What becomes of one entry

Every function of a shard short of applying a frame takes each entry through a
few kinds of turn: bookkeeping that leaves the book's authority alone, a loss
reported to a market that is not terminal, the end of a generation, and a
promotion of a live book. What a step does to the published authority is read
off these.
-/

open MachineInt Tables Runs

namespace PmWs

namespace MarketEntry

/-- One turn of an entry. Only the end of a generation gives the terminal reason. -/
inductive Turn (e : MarketEntry) : MarketEntry → Prop
  | tended {e' : MarketEntry} (version : e'.installedVersion = e.installedVersion)
      (authority : e'.book.authority = e.book.authority) (flag : e'.unavailableReported = e.unavailableReported) : Turn e e'
  | lost (continuity : ContinuityReason) (authority : AuthorityReason) (standing : e.terminal = false)
      (ordinary : authority ≠ .recoveryBaseUnavailable) : Turn e (e.reportContinuityLoss continuity authority).1
  | ended (attempts : Nat) (continuity : ContinuityReason) (authority : AuthorityReason)
      (ordinary : authority ≠ .recoveryBaseUnavailable) : Turn e (e.reportEnd attempts continuity authority).1
  | promoted {e' : MarketEntry} (version : e'.installedVersion = e.installedVersion) (live : e.live = true)
      (book : e'.book = e.book) : Turn e e'

abbrev Turns : MarketEntry → MarketEntry → Prop := Relation.ReflTransGen Turn

variable {e e' : MarketEntry}

theorem Turn.version (h : e.Turn e') : e'.installedVersion = e.installedVersion := by
  cases h with
  | tended hversion => exact hversion
  | lost continuity authority => exact (reportContinuityLoss_plain _ _ _).installedVersion
  | ended attempts continuity authority => exact (reportEnd_plain _ _ _ _).installedVersion
  | promoted hversion => exact hversion

theorem Turns.version (h : e.Turns e') : e'.installedVersion = e.installedVersion := by
  induction h with
  | refl => rfl
  | tail _ hturn ih => exact hturn.version.trans ih

/-- Bookkeeping is one turn. -/
theorem Turns.tended (hversion : e'.installedVersion = e.installedVersion)
    (hauthority : e'.book.authority = e.book.authority) (hflag : e'.unavailableReported = e.unavailableReported) :
    e.Turns e' := .single (.tended hversion hauthority hflag)

/-! ## The passes over the markets -/

theorem endReasonMapping_ordinary (reason : ConnectionEndReason) :
    (endReasonMapping reason).2 ≠ .recoveryBaseUnavailable := by
  unfold endReasonMapping
  dsimp only
  split <;> nofun

theorem refusalReason_ordinary (verdict : StandbyState) (ended : ConnectionEndReason) :
    refusalReason verdict ended ≠ .recoveryBaseUnavailable := by
  unfold refusalReason
  split
  · nofun
  · exact endReasonMapping_ordinary ended

theorem lostBase_turns (e : MarketEntry) : e.Turns e.lostBase := .tended rfl rfl rfl

/-- A loss reported to one market, which a terminal one is spared. -/
theorem lose_turns (e : MarketEntry) (continuity : ContinuityReason) {authority : AuthorityReason}
    (hordinary : authority ≠ .recoveryBaseUnavailable) :
    e.Turns (if e.terminal then (e.lostBase, false) else e.lostBase.reportContinuityLoss continuity authority).1 := by
  split
  · exact e.lostBase_turns
  · rename_i hstanding
    have hlasts : e.lostBase.terminal = false := Bool.eq_false_iff.2 hstanding
    exact e.lostBase_turns.tail (.lost continuity authority hlasts hordinary)

theorem endGeneration_turns (e : MarketEntry) (attempts : Nat) (continuity : ContinuityReason)
    {authority : AuthorityReason} (hordinary : authority ≠ .recoveryBaseUnavailable) :
    e.Turns (e.endGeneration attempts continuity authority).entry := by
  have hspent : e.Turns e.spendAttempt := .tended rfl rfl rfl
  unfold endGeneration
  dsimp only
  split
  · exact hspent.tail (.ended attempts continuity authority hordinary)
  · exact hspent

theorem handBack_turns (e : MarketEntry) (running : Option Nat) : e.Turns (e.handBack running).entry := by
  unfold handBack
  dsimp only
  split
  · exact .refl
  · split
    · exact .refl
    · rename_i hstanding
      simp only [Bool.or_eq_true, not_or, Bool.not_eq_true] at hstanding
      refine e.lostBase_turns.tail (.lost _ _ hstanding.2 ?_)
      split <;> nofun

theorem loseShard_turns (e : MarketEntry) (continuity : ContinuityReason) {authority : AuthorityReason}
    (hordinary : authority ≠ .recoveryBaseUnavailable) : e.Turns (e.loseShard continuity authority).entry := by
  unfold loseShard
  split
  · exact .refl
  · split
    · exact e.lostBase_turns
    · rename_i hstanding
      exact e.lostBase_turns.tail (.lost continuity authority (by simpa using hstanding) hordinary)

theorem loseCoverage_turns (e : MarketEntry) (publishing : Bool) (survivors : List (List String)) (attempts : Nat)
    (continuity : ContinuityReason) {authority : AuthorityReason} (hordinary : authority ≠ .recoveryBaseUnavailable)
    (slug : String) : e.Turns (e.loseCoverage publishing survivors attempts continuity authority slug).entry := by
  have hleft : e.Turns (if publishing then e.leaveConnection else e) := by
    split
    · exact .tended rfl rfl rfl
    · exact .refl
  unfold loseCoverage
  dsimp only
  split
  · exact hleft
  · exact hleft.trans (endGeneration_turns _ _ _ hordinary)

theorem promote_turns (e : MarketEntry) (generation version : Nat) (carried : List String) (shadow : Option OrderBook)
    (ended : ConnectionEndReason) (lossy : Bool) (attempts : Nat) (slug : String) :
    e.Turns (e.promote generation version carried shadow ended lossy attempts slug).entry := by
  unfold promote
  dsimp only
  split
  · rename_i hpromotable
    simp only [promotable, Bool.and_eq_true] at hpromotable
    exact .single (.promoted rfl hpromotable.2.1.2 rfl)
  · have hreason : (if lossy then .overload else refusalReason (shadowVerdict e shadow) ended) ≠
        AuthorityReason.recoveryBaseUnavailable := by
      split
      · nofun
      · exact refusalReason_ordinary _ _
    refine .trans ?_ (endGeneration_turns _ attempts .reconnect hreason)
    exact .single (.tended rfl rfl rfl)

end MarketEntry

namespace Shard

/-! ## Every entry turned -/

/-- An entry made since `s` does not start with the terminal reason. -/
structure Made (s t : Shard) (e : MarketEntry) : Prop where
  authority : e.book.authority ≠ .stale .recoveryBaseUnavailable
  version : s.desiredVersion ≤ u64Max → s.desiredVersion < e.installedVersion ∨ u64Max ≤ t.desiredVersion

/-- Every entry turned from one that was there, or from one made in between. -/
structure Turned (s t : Shard) : Prop where
  version : Later s t
  entries : ∀ (slug : String) e', t.markets[slug]? = some e' →
    (∃ e : MarketEntry, s.markets[slug]? = some e ∧ e.Turns e') ∨ ∃ made : MarketEntry, Made s t made ∧ made.Turns e'

variable {a b c s t u : Shard} {slot : Slot} {slug : String} {e e' : MarketEntry}

theorem Turned.refl (s : Shard) : Turned s s := ⟨.refl s, fun _ e' he' => .inl ⟨e', he', .refl⟩⟩

theorem Turned.trans (h₁ : Turned a b) (h₂ : Turned b c) : Turned a c where
  version := h₁.version.trans h₂.version
  entries slug e' he' := by
    rcases h₂.entries slug e' he' with ⟨e, he, hturns⟩ | ⟨made, hmade, hturns⟩
    · rcases h₁.entries slug e he with ⟨e₀, he₀, hfirst⟩ | ⟨made, hmade, hfirst⟩
      · exact .inl ⟨e₀, he₀, hfirst.trans hturns⟩
      · refine .inr ⟨made, ⟨hmade.authority, fun ha => ?_⟩, hfirst.trans hturns⟩
        exact (hmade.version ha).imp_right fun hspent => hspent.trans (h₂.version (h₁.version ha).2).1
    · refine .inr ⟨made, ⟨hmade.authority, fun ha => ?_⟩, hturns⟩
      have hb := h₁.version ha
      exact (hmade.version hb.2).imp_left hb.1.trans_lt

theorem Turned.of_related (hversion : t.desiredVersion = s.desiredVersion)
    (hentries : Related MarketEntry.Turns s.markets t.markets) : Turned s t := by
  refine ⟨fun hs => ⟨hversion.ge, hversion.trans_le hs⟩, fun slug e' he' => .inl ?_⟩
  exact hentries.of_some he'

theorem Turned.of_markets (hversion : t.desiredVersion = s.desiredVersion) (hmarkets : t.markets = s.markets) :
    Turned s t := .of_related hversion (hmarkets ▸ .refl (fun _ => .refl) _)

theorem Beside.turned (h : Beside s t) : Turned s t := .of_markets h.plain.version h.markets

theorem Touched.turned (h : Touched s t slug e e') (hentry : e.Turns e') : Turned s t :=
  .of_related h.version (h.related (fun _ => .refl) hentry)

theorem updateMarkets_turned (s : Shard) {f : String → MarketEntry → MarketEntry} (hf : ∀ slug (e : MarketEntry), e.Turns (f slug e)) :
    Turned s (s.updateMarkets f) := .of_related rfl (.map fun slug e _ => hf slug e)

theorem visitMarkets_turned (s : Shard) {visit : String → MarketEntry → Visit}
    (hv : ∀ slug (e : MarketEntry), e.Turns (visit slug e).entry) : Turned s (s.visitMarkets visit) :=
  .of_related rfl (.map fun slug e _ => hv slug e)

theorem recountRecovering_turned (s : Shard) : Turned s s.recountRecovering := .of_markets rfl rfl

/-! ## The set -/

theorem Installs.turned {result : Except InstallRefusal Unit} (h : Installs s slug t result) : Turned s t := by
  refine ⟨h.idle.version, fun k e he => ?_⟩
  cases h with
  | refused refusal retired segment htaken ht =>
    subst ht
    exact .inl ⟨e, he, .refl⟩
  | installed market book segment hm hb ht =>
    subst ht
    rw [lookup_insert] at he
    split at he
    · obtain rfl := Option.some.inj he
      refine .inr ⟨_, ⟨?_, fun hs => ?_⟩, .refl⟩
      · rcases bookFor_cases hb with ⟨-, rfl⟩ | ⟨retired, changed, -, hloss⟩
        · nofun
        · rcases OrderBook.reportContinuityLoss_ok hloss with ⟨-, heq, -, hstale⟩ | ⟨-, -, heq⟩
          · simp [MarketEntry.installed, heq, hstale]
          · simp [MarketEntry.installed, heq]
      · simp only [MarketEntry.installed, saturatingAdd]
        omega
    · exact .inl ⟨e, he, .refl⟩

theorem Change.turned (h : Change s t) : Turned s t := by
  cases h with
  | install slug installs => exact installs.turned
  | unwant slug e he =>
    refine ⟨(unwant_idle he).version, fun k e' he' => .inl ?_⟩
    simp only [Shard.unwant, retireAgreement, lookup_insert] at he'
    split at he'
    · rename_i heq
      obtain rfl := Option.some.inj he'
      exact ⟨e, heq ▸ he, .tended rfl rfl rfl⟩
    · exact ⟨e', he', .refl⟩
  | queue removing => exact .of_markets rfl rfl
  | close slug =>
    refine ⟨(s.close_idle slug).version, fun k e' he' => .inl ⟨e', ?_, .refl⟩⟩
    rw [close_markets] at he'
    split at he'
    · cases he'
    · exact he'

theorem Changes.turned (h : Changes s t) : Turned s t := by
  induction h with
  | refl => exact .refl s
  | tail _ hchange ih => exact ih.trans hchange.turned

theorem closeRemoved_turned (s : Shard) : Turned s s.closeRemoved := s.closeRemoved_spec.1.turned

/-! ## Losses -/

theorem reportMarketLoss_turned (s : Shard) (slug : String) (continuity : ContinuityReason)
    {authority : AuthorityReason} (hordinary : authority ≠ .recoveryBaseUnavailable) :
    Turned s (s.reportMarketLoss slug continuity authority) := by
  unfold reportMarketLoss
  split
  · exact (s.refreshAgreement_beside slug).turned
  · rename_i e he
    dsimp only
    have hlost := e.lose_turns continuity hordinary
    generalize (if e.terminal then (e.lostBase, false)
      else e.lostBase.reportContinuityLoss continuity authority) = lost at hlost
    have hmutated : Touched s (s.mutateMarket slug e lost.1) slug e lost.1 := .of_insert rfl rfl he
    refine (hmutated.turned hlost).trans (.trans ?_ (refreshAgreement_beside _ slug).turned)
    split
    · exact (publishSegmentState_beside _ slug).turned
    · exact .refl _

theorem reportShardLoss_turned (s : Shard) (continuity : ContinuityReason) {authority : AuthorityReason}
    (hordinary : authority ≠ .recoveryBaseUnavailable) : Turned s (s.reportShardLoss continuity authority) := by
  unfold reportShardLoss
  split
  · exact .refl s
  · have hlatched : Turned s { s with railLossLatched := true } := .of_markets rfl rfl
    exact ((hlatched.trans (visitMarkets_turned _ fun _ e => e.loseShard_turns continuity hordinary)).trans
      (retireAllAgreement_beside _).turned).trans (recountRecovering_turned _)

theorem withdrawLicence_turned (s : Shard) (reason : PoolDegradeReason) : Turned s (s.withdrawLicence reason) := by
  unfold withdrawLicence
  split
  · rename_i declaration sockets _
    have hdegraded : Turned s { s with redundancy := some (.pooled declaration sockets (some reason)) } :=
      .of_markets rfl rfl
    have hcleared (u : Shard) : Turned u (u.updateMarkets fun _ entry => { entry with gate := none }) :=
      u.updateMarkets_turned fun _ _ => .tended rfl rfl rfl
    refine (hdegraded.trans (hcleared _)).trans ?_
    exact (visitMarkets_turned _ fun _ e => e.handBack_turns _).trans (recountRecovering_turned _)
  · exact .refl s

theorem Resolved.turned (h : Resolved s t) : Turned s t := by
  cases h with
  | ignored => exact .refl s
  | placed position => exact .of_markets rfl rfl
  | noted position slug e resolution he => exact .of_related rfl (.insert (fun _ => .refl) he (.tended rfl rfl rfl))
  | streamed position slug e resolution book cursor he hok =>
    obtain ⟨_, _, -, -, -, hbook⟩ := OrderBook.noteStreamEvent_ok hok
    exact .of_related rfl (.insert (fun _ => .refl) he (.tended rfl (by simp [hbook]) rfl))

/-! ## Dials, ends and promotions -/

theorem Arranged.turned {but : Option Nat} (h : Arranged but s t) : Turned s t :=
  .of_related (congrArg (·.1.2.2.2.2.2.1) h.aside)
    (h.entries.mono fun h => .tended h.installedVersion (by rw [h.book]) h.flag)

theorem Part.turned {x y : Option Nat × Shard} {told : List PoolCall} (h : Part x told y) : Turned x.2 y.2 := by
  cases h with
  | arranged h => exact h.turned
  | opened index s => exact .refl s
  | emptied | recounted => exact .of_markets rfl rfl
  | resolved h => exact h.turned
  | closed but s => exact s.closeRemoved_turned
  | uncovered but s publishing survivors attempts reason =>
    exact s.visitMarkets_turned fun slug e =>
      e.loseCoverage_turns _ _ _ _ (MarketEntry.endReasonMapping_ordinary reason) slug
  | ended but s attempts reason =>
    refine (s.visitMarkets_turned fun _ e => ?_).trans (retireAllAgreement_beside _).turned
    refine .trans ?_ (MarketEntry.endGeneration_turns _ _ _ (MarketEntry.endReasonMapping_ordinary reason))
    exact .single (.tended rfl rfl rfl)
  | promoted but s => exact s.visitMarkets_turned fun slug e => e.promote_turns _ _ _ _ _ _ _ slug
  | lost but s continuity hordinary => exact s.reportShardLoss_turned continuity hordinary
  | retired | moved => exact .of_related rfl (.map fun _ _ _ => .tended rfl rfl rfl)

theorem Call.turned {told : List PoolCall} (h : Call s told t) : Turned s t := h.parts.related .refl .trans Part.turned

/-! ## Frames -/

/-- A book frame turns the entries, or is applied to the book of its market and leaves the others alone. -/
inductive Fares (s : Shard) (slug : String) (t : Shard) : Prop
  | turned (turned : Turned s t)
  | applied (e e' : MarketEntry) (candidate : Candidate) (commit : BookCommit) (touched : Touched s t slug e e')
      (applied : e.Applied candidate commit e')

theorem Fares.after (h : Fares t slug u) (hst : Touched s t slug e e') (hnoted : e.Noted e') : Fares s slug u := by
  cases h with
  | turned hturned =>
    exact .turned ((hst.turned (.tended hnoted.installedVersion (by rw [hnoted.book]) hnoted.unavailable)).trans hturned)
  | applied e₁ e₂ candidate commit htouched happlied =>
    obtain rfl := Option.some.inj (hst.stored.symm.trans htouched.found)
    exact .applied e e₂ candidate commit (hst.trans htouched) (.noted hnoted happlied (.refl _))

/-- What a settled commit notes is the pool's alone. -/
theorem applyAuthoritative_fares (he : s.markets[slug]? = some e) (slot : Slot) (candidate : Candidate)
    {settle : MarketEntry → MarketEntry} (hsettle : ∀ x, MarketEntry.Noted x (settle x)) :
    Fares s slug (s.applyAuthoritative slot slug candidate settle) := by
  rcases applyAuthoritative_spec he slot candidate settle with ⟨hlost, -⟩ | ⟨applied, commit, happly, htouched, -⟩
  · rw [hlost]
    have hturned : Turned s (s.reportMarketLoss slug .localLoss .localLoss) := s.reportMarketLoss_turned slug _ nofun
    exact .turned (hturned.trans (refreshAgreement_beside _ slug).turned)
  · exact .applied e _ candidate commit htouched
      (.noted (.refl e) (MarketEntry.applySnapshot_applied happly) (hsettle applied))

theorem Marked.turned (h : Marked s t) : Turned s t :=
  .of_related h.version (h.entries.mono fun hn => .tended hn.installedVersion (by rw [hn.book]) hn.unavailable)

theorem Reached.fares (h : Reached slot slug s t) (he : s.markets[slug]? = some e) : Fares s slug t := by
  cases h with
  | kept => exact .turned (.refl s)
  | lost => exact .turned (s.reportMarketLoss_turned slug _ nofun)
  | applied candidate hsettle => exact applyAuthoritative_fares he slot candidate hsettle
  | withdrawn reason => exact .turned (s.withdrawLicence_turned reason)

theorem Frame.fares {announced : Prop} (h : Frame announced s slot slug t) : Fares s slug t := by
  cases h with
  | ignored hmarks => exact .turned hmarks.marked.turned
  | delivered e u he haccepts hmarks hreached =>
    obtain ⟨e', htouched, hnoted⟩ := hmarks.touched he
    exact (hreached.fares htouched.stored).after htouched hnoted

/-! ## Steps -/

/-- The event hands the shard a book frame of the market. -/
def ofMarket (slug : String) : ShardEvent → Prop
  | .notice _ (.event (.orderbookUpdate update) _ _) _ => update.marketSlug = slug
  | _ => False

/-- A step turns the entries, or applies a frame to the book of its market. -/
theorem step_fares (hc : s.Counted) {event : ShardEvent} (h : s.step event = some t) :
    Turned s t ∨ ∃ slug, ofMarket slug event ∧ Fares s slug t := by
  cases step_taken h with
  | spawned slot hspawn ht => exact .inl (ht ▸ (s.spawnSlot_arranged slot none).turned)
  | called hcalls =>
    exact .inl (hcalls.inv (I := fun t => Turned s t) (fun _ _ _ hs hcall => hs.trans hcall.turned) (.refl s))
  | read generation update times subscription look slot hnotice hframe =>
    exact .inr ⟨update.marketSlug, hnotice ▸ rfl, hframe.fares⟩
  | added slugs hadds ht =>
    obtain ⟨u, hchanges, hcounted, heq⟩ := addMarkets_spec hc slugs
    exact .inl (ht ▸ heq ▸ hchanges.turned.trans u.recountRecovering_turned)
  | removed slugs hremoves ht =>
    obtain ⟨u, hchanges, hcounted, heq⟩ := removeMarkets_spec hc slugs
    exact .inl (ht ▸ heq ▸ hchanges.turned.trans u.recountRecovering_turned)

end Shard

end PmWs
