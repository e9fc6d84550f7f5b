import PmWs.Limitless.Shard.Invariants
import PmWs.Limitless.Shard.Rings

/-!
# What a step does to the segment and to the pool

Every step of a shard is a sequence of a few effects: states are written and
streams go on, a commit or a resolution is written, a market is closed or
installed, a session of the pool ends or moves to the publishing socket. The
last two are what every gate of the pool is told, and a sequence of effects
carries all it said to them.
-/

open MachineInt Tables Runs

namespace PmWs

/-! ## One market -/

namespace MarketEntry

/-- The market's stream went on without taking a position. -/
def Onward (e e' : MarketEntry) : Prop := e.book.continuity.Onward e'.book.continuity

variable {a b c e e' : MarketEntry}

theorem Onward.refl (e : MarketEntry) : e.Onward e := MutationContinuity.Onward.refl _

theorem Onward.trans (h₁ : a.Onward b) (h₂ : b.Onward c) : a.Onward c := MutationContinuity.Onward.trans h₁ h₂

theorem Onward.of_book (h : e'.book = e.book) : e.Onward e' := by
  unfold Onward
  rw [h]
  exact .refl _

theorem reportContinuityLoss_onward (e : MarketEntry) (continuity : ContinuityReason) (authority : AuthorityReason) :
    e.Onward (e.reportContinuityLoss continuity authority).1 := by
  unfold reportContinuityLoss
  split
  · rename_i hok
    exact (OrderBook.reportContinuityLoss_stream hok).onward
  · exact .refl e

theorem endGeneration_onward (e : MarketEntry) (attempts : Nat) (continuity : ContinuityReason)
    (authority : AuthorityReason) : e.Onward (e.endGeneration attempts continuity authority).entry := by
  unfold endGeneration
  dsimp only
  split
  · exact e.spendAttempt.reportContinuityLoss_onward _ _
  · exact .of_book rfl

theorem handBack_onward (e : MarketEntry) (running : Option Nat) : e.Onward (e.handBack running).entry := by
  unfold handBack
  dsimp only
  split
  · exact .refl e
  · split
    · exact .refl e
    · exact e.lostBase.reportContinuityLoss_onward _ _

theorem loseCoverage_onward (e : MarketEntry) (publishing : Bool) (survivors : List (List String)) (attempts : Nat)
    (continuity : ContinuityReason) (authority : AuthorityReason) (slug : String) :
    e.Onward (e.loseCoverage publishing survivors attempts continuity authority slug).entry := by
  unfold loseCoverage
  dsimp only
  have hleft : (if publishing then e.leaveConnection else e).book = e.book := by split <;> rfl
  generalize (if publishing then e.leaveConnection else e) = left at hleft
  unfold Onward
  rw [← hleft]
  split
  · exact Onward.refl left
  · exact left.endGeneration_onward _ _ _

theorem loseShard_onward (e : MarketEntry) (continuity : ContinuityReason) (authority : AuthorityReason) :
    e.Onward (e.loseShard continuity authority).entry := by
  unfold loseShard
  split
  · exact .refl e
  · split
    · exact .of_book rfl
    · exact e.lostBase.reportContinuityLoss_onward _ _

theorem promote_onward (e : MarketEntry) (generation version : Nat) (carried : List String) (shadow : Option OrderBook)
    (ended : ConnectionEndReason) (lossy : Bool) (attempts : Nat) (slug : String) :
    e.Onward (e.promote generation version carried shadow ended lossy attempts slug).entry := by
  unfold promote
  dsimp only
  split
  · exact .of_book rfl
  · refine .trans ?_ (endGeneration_onward _ _ _ _)
    exact .of_book rfl

end MarketEntry

/-! ## One write -/

namespace SegmentWriter

/-- What a publication leaves of the shape of a segment. -/
def shape (self : SegmentWriter) : SegmentLayout × Nat := (self.layout, self.dirty.length)

variable {w w' : SegmentWriter} {handle : MarketHandle} {part : InstalledMarket}

theorem publish_shape {book : PublishedBook} (h : w.publish handle book = .ok w') : w'.shape = w.shape := by
  simp only [publish, Fallible.bind_eq_ok, Except.ok.injEq] at h
  obtain ⟨part, -, -, -, dirty, -, marked, -, generation, -, state, -, rfl⟩ := h
  simp [shape]

theorem publishEvent_shape {delivery : StreamDelivery} (h : w.publishEvent handle part delivery = .ok w') :
    w'.shape = w.shape := by
  simp only [publishEvent, Fallible.bind_eq_ok, Except.ok.injEq] at h
  obtain ⟨event, -, generation, -, stored, -, rfl⟩ := h
  rfl

theorem publishMutation_shape {revision : Nat} {cursor : MutationCursor} {mutation : BookMutation}
    (h : w.publishMutation handle revision cursor mutation = .ok w') : w'.shape = w.shape := by
  simp only [publishMutation, Fallible.bind_eq_ok] at h
  obtain ⟨part, -, -, -, h⟩ := h
  exact publishEvent_shape h

theorem publishResolution_shape {revision : Nat} {cursor : MutationCursor} {resolution : MarketResolution}
    (h : w.publishResolution handle revision cursor resolution = .ok w') : w'.shape = w.shape := by
  simp only [publishResolution, Fallible.bind_eq_ok] at h
  obtain ⟨part, -, -, -, h⟩ := h
  exact publishEvent_shape h

end SegmentWriter

namespace ShardSegment

/-- Markets were written to and none was given a place or lost its one. -/
structure Wrote (seg seg' : ShardSegment) : Prop where
  entries : seg'.entries = seg.entries
  shape : seg'.writer.shape = seg.writer.shape
  failure : seg'.failure = none → seg.failure = none

variable {seg seg' seg'' : ShardSegment}

theorem Wrote.refl (seg : ShardSegment) : seg.Wrote seg := ⟨rfl, rfl, id⟩

theorem Wrote.trans (h₁ : seg.Wrote seg') (h₂ : seg'.Wrote seg'') : seg.Wrote seg'' :=
  ⟨h₂.entries.trans h₁.entries, h₂.shape.trans h₁.shape, fun h => h₁.failure (h₂.failure h)⟩

theorem writeTo_wrote (seg : ShardSegment) (slug : String) {write : MarketHandle → Except WriterError SegmentWriter}
    (hwrite : ∀ handle w, write handle = .ok w → w.shape = seg.writer.shape) : seg.Wrote (seg.writeTo slug write) := by
  unfold writeTo
  split
  · exact .refl seg
  · split
    · exact ⟨rfl, rfl, nofun⟩
    · rename_i handle _
      cases hok : write handle with
      | ok w => exact ⟨rfl, hwrite handle w hok, id⟩
      | error error => exact ⟨rfl, rfl, nofun⟩

theorem publishState_wrote (seg : ShardSegment) (slug : String) (published : PublishedBook) :
    seg.Wrote (seg.publishState slug published) :=
  seg.writeTo_wrote slug fun _ _ => SegmentWriter.publish_shape

theorem publishCommit_wrote (seg : ShardSegment) (slug : String) (commit : BookCommit) (published : PublishedBook) :
    seg.Wrote (seg.publishCommit slug commit published) := by
  refine .trans ?_ (publishState_wrote _ slug published)
  generalize commit.mutations = records
  induction records generalizing seg with
  | nil => exact .refl seg
  | cons record rest ih => exact (seg.writeTo_wrote slug fun _ _ => SegmentWriter.publishMutation_shape).trans (ih _)

theorem publishResolution_wrote (seg : ShardSegment) (slug : String) (revision : Nat) (cursor : MutationCursor)
    (resolution : MarketResolution) (published : PublishedBook) :
    seg.Wrote (seg.publishResolution slug revision cursor resolution published) :=
  (seg.writeTo_wrote slug fun _ _ => SegmentWriter.publishResolution_shape).trans (publishState_wrote _ slug published)

end ShardSegment

namespace Shard

/-! ## Effects -/

/-- Where the stream of each of the shard's markets stands. -/
def streams (self : Shard) : Streams := fun slug => self.markets[slug]?.map (·.book.continuity)

/-- Nothing was written but states: every stream went on, and the rings are as they were. -/
structure Flows (s t : Shard) : Prop where
  streams : ∀ slug, Option.Rel MutationContinuity.Onward (s.streams slug) (t.streams slug)
  segment : ∀ segment', t.segment = some segment' → ∃ segment, s.segment = some segment ∧ segment.Same segment'

/-- What only a closing, an installation or the pool changes. -/
def kept (s : Shard) : Std.ExtTreeMap String OrderBook × BitVec 8 × Nat :=
  (s.retired, s.poolSessionsEnded, s.standbys.length)

/-- Nothing but states was written, no book was retired or taken out, and no gate was told of anything. -/
structure Quiet (s t : Shard) : Prop where
  flows : Flows s t
  segment : ∀ segment', t.segment = some segment' → ∃ segment, s.segment = some segment ∧ segment.Wrote segment'
  kept : t.kept = s.kept
  licence : ∀ licence, t.poolLicence = some licence → s.poolLicence = some licence

/-- One effect, and what the gates of the pool are told. -/
inductive Effect (s : Shard) : List PoolCall → Shard → Prop
  | quiet {t : Shard} (quiet : Quiet s t) : Effect s [] t
  | commit {u : Shard} {slug : String} {e e' : MarketEntry} {commit : BookCommit} (found : s.markets[slug]? = some e)
      (step : MutationContinuity.Step e.book.continuity e'.book.continuity (commit.mutations.map (·.cursor)))
      (stored : u.markets[slug]? = some e') (others : ∀ k, k ≠ slug → u.markets[k]? = s.markets[k]?)
      (segment : u.segment = s.segment) (kept : u.kept = s.kept) (redundancy : u.redundancy = s.redundancy) :
      Effect s [] (u.publishSegmentCommit slug commit)
  | resolution {t : Shard} {slug : String} {e e' : MarketEntry} {cursor : MutationCursor} {revision : Nat}
      {resolution : MarketResolution} {published : PublishedBook} (found : s.markets[slug]? = some e)
      (step : MutationContinuity.Step e.book.continuity e'.book.continuity [cursor])
      (markets : t.markets = s.markets.insert slug e')
      (segment : t.segment = s.segment.map (·.publishResolution slug revision cursor resolution published))
      (kept : t.kept = s.kept) (redundancy : t.redundancy = s.redundancy) : Effect s [] t
  | close (slug : String) : Effect s [] (s.close slug)
  | install (slug : String) (named : s.Named) (absent : s.markets[slug]? = none) : Effect s [] (s.install slug).1
  | retire (slot : Slot) : Effect s [.retire slot.index] (s.retirePoolSocket slot)
  | handover (index : Nat) (there : index < s.standbys.length) :
      Effect s [.reassign (index + 1) 0] (s.moveHistory (index + 1))

/-- A sequence of effects, and all the gates of the pool were told. -/
abbrev Effects (s : Shard) (calls : List PoolCall) (t : Shard) : Prop := Trace Effect s calls t

variable {a b c s t u : Shard} {slot : Slot} {slug : String} {e e' : MarketEntry}

theorem poolLicence_congr (h : t.redundancy = s.redundancy) : t.poolLicence = s.poolLicence := by
  unfold poolLicence
  rw [h]

theorem Flows.of_related (h : Related MarketEntry.Onward s.markets t.markets) (hsegment : t.segment = s.segment) :
    Flows s t where
  streams slug := by
    have hslug := h slug
    unfold Shard.streams
    revert hslug
    cases s.markets[slug]? <;> cases t.markets[slug]? <;> simp [MarketEntry.Onward]
  segment segment' h' := ⟨segment', hsegment ▸ h', .refl _⟩

theorem Flows.refl (s : Shard) : Flows s s := .of_related (.refl .refl _) rfl

theorem Flows.trans (h₁ : Flows a b) (h₂ : Flows b c) : Flows a c where
  streams slug := by
    have hab := h₁.streams slug
    have hbc := h₂.streams slug
    revert hab hbc
    cases a.streams slug <;> cases b.streams slug <;> cases c.streams slug <;> simp
    exact .trans
  segment segment'' h := by
    obtain ⟨segment', h', hsame'⟩ := h₂.segment segment'' h
    obtain ⟨segment, h, hsame⟩ := h₁.segment segment' h'
    exact ⟨segment, h, hsame.trans hsame'⟩

theorem Quiet.of_related (h : Related MarketEntry.Onward s.markets t.markets) (hsegment : t.segment = s.segment)
    (hkept : t.kept = s.kept) (hredundancy : t.redundancy = s.redundancy) : Quiet s t where
  flows := .of_related h hsegment
  segment segment' h' := ⟨segment', hsegment ▸ h', .refl _⟩
  kept := hkept
  licence _ := (poolLicence_congr hredundancy).symm.trans

theorem Quiet.of_eq (hmarkets : t.markets = s.markets) (hsegment : t.segment = s.segment) (hkept : t.kept = s.kept)
    (hredundancy : t.redundancy = s.redundancy) : Quiet s t :=
  .of_related (hmarkets ▸ .refl .refl _) hsegment hkept hredundancy

theorem Quiet.refl (s : Shard) : Quiet s s := .of_eq rfl rfl rfl rfl

theorem Quiet.trans (h₁ : Quiet a b) (h₂ : Quiet b c) : Quiet a c where
  flows := h₁.flows.trans h₂.flows
  segment segment'' h := by
    obtain ⟨segment', h', hwrote'⟩ := h₂.segment segment'' h
    obtain ⟨segment, h, hwrote⟩ := h₁.segment segment' h'
    exact ⟨segment, h, hwrote.trans hwrote'⟩
  kept := h₂.kept.trans h₁.kept
  licence licence h := h₁.licence licence (h₂.licence licence h)

theorem Quiet.effects (h : Quiet s t) : Effects s [] t := .single (.quiet h)

/-! ## What writes no event -/

theorem updateStandby_quiet (s : Shard) (index : Nat) (f : Standby → Standby) : Quiet s (s.updateStandby index f) :=
  .of_eq rfl rfl (by simp [kept, updateStandby]) rfl

theorem updateMarkets_quiet (s : Shard) {f : String → MarketEntry → MarketEntry} (hf : ∀ slug e, (f slug e).book = e.book) :
    Quiet s (s.updateMarkets f) :=
  .of_related (.map fun slug e _ => .of_book (hf slug e)) rfl rfl rfl

theorem updateMarket_quiet (s : Shard) (slug : String) {f : MarketEntry → MarketEntry} (hf : ∀ e, (f e).book = e.book) :
    Quiet s (s.updateMarket slug f) :=
  .of_related (.modify .refl fun e _ => .of_book (hf e)) rfl rfl rfl

theorem recountRecovering_quiet (s : Shard) : Quiet s s.recountRecovering := .of_eq rfl rfl rfl rfl

theorem retireAllAgreement_quiet (s : Shard) : Quiet s s.retireAllAgreement :=
  .of_eq rfl rfl (by simp [kept, retireAllAgreement]) rfl

theorem foldPublished_wrote (segment : ShardSegment) (entries : List (String × MarketEntry))
    (visit : String → MarketEntry → Visit) {R : ShardSegment → ShardSegment → Prop} (hrefl : ∀ segment, R segment segment)
    (htrans : ∀ {a b c}, R a b → R b c → R a c) (hstate : ∀ segment slug published, R segment (segment.publishState slug published)) :
    R segment (entries.foldl (fun segment entry =>
      if (visit entry.1 entry.2).published then
        segment.publishState entry.1 (visit entry.1 entry.2).entry.book.publish
      else segment) segment) := by
  induction entries generalizing segment with
  | nil => exact hrefl segment
  | cons entry rest ih =>
    refine htrans ?_ (ih _)
    dsimp only
    split
    · exact hstate segment _ _
    · exact hrefl segment

theorem visitMarkets_quiet (s : Shard) {visit : String → MarketEntry → Visit}
    (hv : ∀ slug (e : MarketEntry), e.Onward (visit slug e).entry) : Quiet s (s.visitMarkets visit) := by
  have hfold {R : ShardSegment → ShardSegment → Prop} (hrefl : ∀ segment, R segment segment)
      (htrans : ∀ {a b c}, R a b → R b c → R a c)
      (hstate : ∀ segment slug published, R segment (segment.publishState slug published)) (segment' : ShardSegment)
      (h : (s.visitMarkets visit).segment = some segment') : ∃ segment, s.segment = some segment ∧ R segment segment' := by
    obtain ⟨segment, hsegment, rfl⟩ := Option.map_eq_some_iff.1 h
    exact ⟨segment, hsegment, foldPublished_wrote segment _ visit hrefl htrans hstate⟩
  refine ⟨⟨?_, hfold .refl .trans ShardSegment.publishState_same⟩, hfold .refl .trans ShardSegment.publishState_wrote, ?_,
    fun _ => id⟩
  · exact (Flows.of_related (s := s) (t := { s with markets := s.markets.map fun slug e => (visit slug e).entry })
      (.map fun slug e _ => hv slug e) rfl).streams
  · simp [kept, visitMarkets]

theorem refreshAgreement_quiet (s : Shard) (slug : String) : Quiet s (s.refreshAgreement slug) := by
  unfold refreshAgreement
  induction (List.range s.standbys.length) generalizing s with
  | nil => exact .refl s
  | cons index rest ih => exact (s.updateStandby_quiet index _).trans (ih _)

theorem publishSegmentState_quiet (s : Shard) (slug : String) : Quiet s (s.publishSegmentState slug) := by
  unfold publishSegmentState
  split
  · rename_i segment entry hsegment _
    refine ⟨⟨(Flows.refl s).streams, fun segment' h => ⟨segment, hsegment, ?_⟩⟩,
      fun segment' h => ⟨segment, hsegment, ?_⟩, rfl, fun _ => id⟩
    · exact Option.some.inj h ▸ segment.publishState_same _ _
    · exact Option.some.inj h ▸ segment.publishState_wrote _ _
  · exact .refl s

theorem insert_quiet (he : s.markets[slug]? = some e) (hmarkets : t.markets = s.markets.insert slug e')
    (hsegment : t.segment = s.segment) (hkept : t.kept = s.kept) (hredundancy : t.redundancy = s.redundancy)
    (h : e.Onward e') : Quiet s t :=
  .of_related (hmarkets ▸ .insert .refl he h) hsegment hkept hredundancy

theorem reportMarketLoss_quiet (s : Shard) (slug : String) (continuity : ContinuityReason) (authority : AuthorityReason) :
    Quiet s (s.reportMarketLoss slug continuity authority) := by
  unfold reportMarketLoss
  split
  · exact s.refreshAgreement_quiet slug
  · rename_i e he
    dsimp only
    have honward : e.Onward (if e.terminal then (e.lostBase, false)
        else e.lostBase.reportContinuityLoss continuity authority).1 := by
      split
      · exact .of_book rfl
      · exact e.lostBase.reportContinuityLoss_onward _ _
    generalize (if e.terminal then (e.lostBase, false)
      else e.lostBase.reportContinuityLoss continuity authority) = lost at honward
    refine .trans (.trans (insert_quiet (t := s.mutateMarket slug e lost.1) he rfl rfl rfl rfl honward) ?_)
      (refreshAgreement_quiet _ slug)
    split
    · exact publishSegmentState_quiet _ slug
    · exact .refl _

theorem reportShardLoss_quiet (s : Shard) (continuity : ContinuityReason) (authority : AuthorityReason) :
    Quiet s (s.reportShardLoss continuity authority) := by
  unfold reportShardLoss
  split
  · exact .refl s
  · have hlatched : Quiet s { s with railLossLatched := true } := .of_eq rfl rfl rfl rfl
    exact ((hlatched.trans (visitMarkets_quiet _ fun _ e => e.loseShard_onward continuity authority)).trans
      (retireAllAgreement_quiet _)).trans (recountRecovering_quiet _)

theorem applyShadowCandidate_quiet (s : Shard) (index : Nat) (slug : String) (market : MarketRef) (candidate : Candidate) :
    Quiet s (s.applyShadowCandidate index slug market candidate) := by
  unfold applyShadowCandidate
  split
  · exact .refl s
  · exact (s.updateStandby_quiet index _).trans (updateStandby_quiet _ index _)

theorem handBackToPublishingSlot_quiet (s : Shard) : Quiet s s.handBackToPublishingSlot :=
  (s.visitMarkets_quiet fun _ e => e.handBack_onward _).trans (recountRecovering_quiet _)

theorem withdrawLicence_quiet (s : Shard) (reason : PoolDegradeReason) : Quiet s (s.withdrawLicence reason) := by
  unfold withdrawLicence
  split
  · rename_i declaration sockets _
    -- without a licence there is none left to withdraw
    have hdisarmed : Quiet s { s with redundancy := some (.pooled declaration sockets (some reason)) } :=
      ⟨.of_related (.refl .refl _) rfl, (Quiet.refl s).segment, rfl, nofun⟩
    refine (hdisarmed.trans (updateMarkets_quiet _ ?_)).trans (handBackToPublishingSlot_quiet _)
    exact fun _ _ => rfl
  · exact .refl s

theorem Arranged.quiet {but : Option Nat} (h : Arranged but s t) : Quiet s t := by
  have haside := h.aside
  simp only [Shard.aside, settled, Prod.mk.injEq] at haside
  obtain ⟨⟨-, hretired, -, hlength, hredundancy, -, -⟩, hsegment, hended, -⟩ := haside
  exact .of_related (h.entries.mono fun h => .of_book h.book) hsegment (by simp [kept, hretired, hended, hlength]) hredundancy

/-! ## Frames -/

theorem publishSegmentCommit_kept (s : Shard) (slug : String) (commit : BookCommit) :
    (s.publishSegmentCommit slug commit).kept = s.kept := by
  unfold publishSegmentCommit
  split <;> rfl

theorem applyAuthoritative_effects (s : Shard) (slot : Slot) (slug : String) (candidate : Candidate)
    {settle : MarketEntry → MarketEntry} (hsettle : ∀ e, (settle e).book = e.book) :
    Effects s [] (s.applyAuthoritative slot slug candidate settle) := by
  unfold applyAuthoritative
  split
  · exact (s.refreshAgreement_quiet slug).effects
  · rename_i e he
    split
    · exact ((s.reportMarketLoss_quiet slug _ _).trans (refreshAgreement_quiet _ slug)).effects
    · rename_i applied commit happly
      refine Trace.silent ?_ (refreshAgreement_quiet _ slug).effects
      have hsettled := commit_touched he slot applied settle
      have hstep := OrderBook.applySnapshot_stream (MarketEntry.applySnapshot_applied happly).book
      rw [← hsettle applied] at hstep
      refine .single (.commit he hstep hsettled.stored hsettled.others (by cases slot <;> rfl) ?_ (by cases slot <;> rfl))
      cases slot with
      | primary => rfl
      | standby index => simp [kept, mutateMarket, updateMarket, updateActive, updateSlot]

theorem Resolved.effects (h : Resolved s t) : Effects s [] t := by
  cases h with
  | ignored => exact .refl s
  | placed position => exact Quiet.effects (.of_eq rfl rfl rfl rfl)
  | noted position slug e resolution he => exact Quiet.effects (insert_quiet he rfl rfl rfl rfl (.of_book rfl))
  | streamed position slug e resolution book cursor he hok =>
    exact .single (.resolution he (OrderBook.noteStreamEvent_stream hok) rfl rfl rfl rfl)

theorem Mark.quiet {announced : Prop} (h : Mark announced slug s t) : Quiet s t := by
  cases h with
  | placed position shadowPosition => exact .of_eq rfl rfl rfl rfl
  | dropped index => exact s.updateStandby_quiet index _
  | shadowed index market candidate => exact s.applyShadowCandidate_quiet index slug market candidate
  | gated e gate he => exact insert_quiet he rfl rfl rfl rfl (.of_book rfl)
  | noted socket reached =>
    have hbook (e : MarketEntry) : (e.notePosition socket reached).book = e.book := rfl
    exact s.updateMarket_quiet slug hbook

theorem Marks.quiet {announced : Prop} (h : Marks announced slug s t) : Quiet s t := by
  induction h with
  | refl => exact .refl s
  | tail _ hmark ih => exact ih.trans hmark.quiet

theorem Reached.effects (h : Reached slot slug s t) : Effects s [] t := by
  cases h with
  | kept => exact .refl s
  | lost => exact (s.reportMarketLoss_quiet slug _ _).effects
  | applied candidate hsettle => exact s.applyAuthoritative_effects slot slug candidate fun e => (hsettle e).book
  | withdrawn reason => exact (s.withdrawLicence_quiet reason).effects

theorem Frame.effects {announced : Prop} (h : Frame announced s slot slug t) : Effects s [] t := by
  cases h with
  | ignored hmarks => exact hmarks.quiet.effects
  | delivered e u he haccepts hmarks hreached => exact hmarks.quiet.effects.silent hreached.effects

/-! ## Commands -/

theorem closeAll_effects (s : Shard) (slugs : List String) : Effects s [] (slugs.foldl close s) := by
  induction slugs generalizing s with
  | nil => exact .refl s
  | cons slug rest ih => exact (Trace.single (.close slug)).silent (ih _)

theorem closeRemoved_effects (s : Shard) : Effects s [] s.closeRemoved := s.closeAll_effects _

theorem addMarket_effects (hn : s.Named) (slug : String) : Effects s [] (s.addMarket slug).1 := by
  unfold addMarket
  dsimp only
  split
  · split
    · exact .refl s
    · split
      · exact .refl s
      · split
        · exact .refl s
        · have habsent : (s.close slug).markets[slug]? = none := by simp [close_markets]
          exact (Trace.single (.close slug)).silent (.single (.install slug ((s.close_idle slug).named hn) habsent))
  · rename_i hnone
    split
    · exact .refl s
    · exact .single (.install slug hn hnone)

theorem evictRemoved_effects (s : Shard) (fuel : Nat) : Effects s [] (s.evictRemoved fuel) := by
  induction fuel generalizing s with
  | zero => exact .refl s
  | succ fuel ih =>
    unfold evictRemoved
    split
    · exact .refl s
    · rename_i evicted rest _
      have hqueued : Quiet s { s with removing := rest } := .of_eq rfl rfl rfl rfl
      split
      · exact (hqueued.effects.silent (.single (.close evicted))).silent (ih _)
      · exact .refl s

theorem removeMarket_effects (s : Shard) (slug : String) : Effects s [] (s.removeMarket slug).1 := by
  unfold removeMarket
  split
  · exact .refl s
  · split
    · exact .refl s
    · rename_i e he
      split
      · have hunwanted : Quiet s (s.unwant slug e) :=
          insert_quiet he rfl rfl (by simp [kept, unwant, retireAgreement]) rfl (.of_book rfl)
        show Effects s [] (if _ then (s.unwant slug e).enqueueRemoval slug else (s.unwant slug e).close slug)
        split
        · unfold enqueueRemoval
          have hqueued : Quiet (s.unwant slug e)
              { s.unwant slug e with removing := (s.unwant slug e).removing.filter (· ≠ slug) ++ [slug] } :=
            .of_eq rfl rfl rfl rfl
          exact (hunwanted.trans hqueued).effects.silent (evictRemoved_effects _ _)
        · exact hunwanted.effects.silent (.single (.close slug))
      · exact .refl s

theorem eachMarket_effects {command : Shard → String → Shard × MarketStatus} (slugs : List String)
    (hcommand : ∀ s : Shard, ∀ slug, s.Counted → s.Named →
      (command s slug).1.Counted ∧ (command s slug).1.Named ∧ Effects s [] (command s slug).1)
    (hc : s.Counted) (hn : s.Named) : Effects s [] (s.eachMarket command slugs).1 := by
  induction slugs generalizing s with
  | nil => exact .refl s
  | cons slug rest ih =>
    obtain ⟨hc', hn', heffects⟩ := hcommand s slug hc hn
    exact heffects.silent (ih hc' hn')

theorem addMarkets_effects (ho : s.Orderly) (slugs : List String) : Effects s [] (s.addMarkets slugs).1 := by
  refine Trace.silent (eachMarket_effects slugs (fun s slug hc hn => ?_) ho.counted ho.named)
    (recountRecovering_quiet _).effects
  have hadded := addMarket_spec hc slug
  exact ⟨hadded.counted, hadded.changes.idle.named hn, addMarket_effects hn slug⟩

theorem removeMarkets_effects (ho : s.Orderly) (slugs : List String) : Effects s [] (s.removeMarkets slugs).1 := by
  refine Trace.silent (eachMarket_effects slugs (fun s slug hc hn => ?_) ho.counted ho.named)
    (recountRecovering_quiet _).effects
  have hremoved := removeMarket_spec hc slug
  exact ⟨hremoved.counted, hremoved.changes.idle.named hn, s.removeMarket_effects slug⟩

/-! ## Steps -/

theorem Part.effects {x y : Option Nat × Shard} {told : List PoolCall} (h : Part x told y) : Effects x.2 told y.2 := by
  cases h with
  | arranged h => exact h.quiet.effects
  | opened index s => exact .refl s
  | emptied index s => exact (s.updateStandby_quiet index _).effects
  | resolved h => exact h.effects
  | closed but s => exact s.closeRemoved_effects
  | uncovered but s => exact (s.visitMarkets_quiet fun slug e => e.loseCoverage_onward _ _ _ _ _ slug).effects
  | ended but s =>
    refine ((s.visitMarkets_quiet fun _ e => ?_).trans (retireAllAgreement_quiet _)).effects
    exact e.leaveConnection.endGeneration_onward _ _ _
  | promoted but s => exact (s.visitMarkets_quiet fun slug e => e.promote_onward _ _ _ _ _ _ _ slug).effects
  | lost but s continuity => exact (s.reportShardLoss_quiet continuity _).effects
  | recounted but s => exact s.recountRecovering_quiet.effects
  | retired but s slot => exact .single (.retire slot)
  | moved but s index hthere => exact .single (.handover index hthere)

theorem Call.effects {told : List PoolCall} (h : Call s told t) : Effects s told t :=
  h.parts.expand (·.2) fun _ _ _ => Part.effects

/-- A step is a sequence of effects, and tells the gates what its calls say. -/
theorem step_effects (ho : s.Orderly) {event : ShardEvent} (h : s.step event = some t) :
    Effects s (s.poolCalls event) t := by
  cases step_taken h with
  | spawned slot hspawn ht =>
    subst hspawn ht
    exact (s.spawnSlot_arranged slot none).quiet.effects
  | called hcalls => exact hcalls.expand id fun _ _ _ => Call.effects
  | read generation update times subscription look slot hnotice hframe =>
    subst hnotice
    exact hframe.effects
  | added slugs hadds ht =>
    subst hadds ht
    exact addMarkets_effects ho slugs
  | removed slugs hremoves ht =>
    subst hremoves ht
    exact removeMarkets_effects ho slugs

/-! ## Where runs start -/

theorem installConfigured_effects {slugs : List String} (hn : s.Named) (h : s.installConfigured slugs = .ok t) :
    Effects s [] t := by
  induction slugs generalizing s with
  | nil => exact Except.ok.inj h ▸ .refl s
  | cons slug rest ih =>
    unfold installConfigured at h
    split at h
    · exact ih hn h
    · rename_i habsent
      split at h
      · cases h
      · have hnamed := (s.install_cases slug).idle.named hn
        have hinstalled : Effects s [] (s.install slug).1 := .single (.install slug hn (by simpa using habsent))
        split at h <;> try cases h
        rename_i installed heq
        rw [heq] at hinstalled hnamed
        exact hinstalled.silent (ih hnamed h)

theorem new_effects {config : ShardConfig} {order : MarketOrder} (h : Shard.new config order = .ok s) :
    ∃ levelCapacity, Effects (empty config levelCapacity order) [] s := by
  unfold Shard.new at h
  iterate 6
    split at h
    · cases h
  split at h
  · cases h
  · split at h
    · cases h
    · exact ⟨_, installConfigured_effects (empty_orderly _ _ _).named h⟩

end Shard

end PmWs
