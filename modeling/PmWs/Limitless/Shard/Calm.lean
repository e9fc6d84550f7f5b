import PmWs.Limitless.Shard.Parts

/-!
# What ends, dials and promotions keep

Every function of a shard that neither applies a frame, withdraws the licence
nor follows a command is calm: it is idle, and the set with its count and its
queue is the one it found.
-/

open MachineInt Tables Runs

namespace PmWs

namespace Shard

/-- Idle, and the set is the same. -/
structure Calm (s t : Shard) : Prop where
  idle : Idle s t
  set : SameSet s t

variable {a b c s t u : Shard} {slot : Slot}

theorem Calm.refl (s : Shard) : Calm s s := ⟨.refl s, .refl s⟩

theorem Calm.trans (h₁ : Calm a b) (h₂ : Calm b c) : Calm a c := ⟨h₁.idle.trans h₂.idle, h₁.set.trans h₂.set⟩

theorem Plain.calm (h : Plain s t) : Calm s t := ⟨h.idle, h.sameSet⟩

theorem Calm.counted (h : Calm s t) (hc : s.Counted) : t.Counted := hc.sameSet h.set h.idle.config

theorem Beside.calm (h : Beside s t) : Calm s t := h.plain.calm

theorem Calm.of_entries (hsettled : t.settled = s.settled) (hlatch : t.railLossLatched = true → s.railLossLatched = true)
    (hentries : Related Kept s.markets t.markets) : Calm s t := by
  simp only [settled, Prod.mk.injEq] at hsettled
  obtain ⟨hconfig, hretired, hremoving, hstandbys, hredundancy, hversion, hcount⟩ := hsettled
  refine ⟨.of_entries hconfig hstandbys hredundancy ?_ hlatch (fun slug e' he' => ?_) fun hn => ⟨fun slug e' he' => ?_, ?_⟩,
    .of_related hcount hremoving (hentries.mono fun h => h.desired)⟩
  · exact fun hs => ⟨hversion.ge, hversion.trans_le hs⟩
  · obtain ⟨e, he, hk⟩ := hentries.of_some he'
    exact .inl ⟨e, he, hk.toIdle⟩
  · obtain ⟨e, he, hk⟩ := hentries.of_some he'
    obtain ⟨hslug, hbook⟩ := hn.entries slug e he
    exact ⟨by rw [hk.market, hslug], by rw [hk.holds.market, hbook, hk.market]⟩
  · exact hretired ▸ hn.retired

theorem Calm.of_markets (hmarkets : t.markets = s.markets) (hsettled : t.settled = s.settled)
    (hlatch : t.railLossLatched = true → s.railLossLatched = true) : Calm s t :=
  .of_entries hsettled hlatch (hmarkets ▸ .refl Kept.refl _)

theorem Arranged.calm {but : Option Nat} (h : Arranged but s t) : Calm s t :=
  .of_entries (congrArg (·.1) h.aside) h.latch (h.entries.mono fun h => h.toKept)

/-! ## Parts -/

theorem updateSlot_calm (s : Shard) (slot : Slot) (f : ConnectionSlot → ConnectionSlot) : Calm s (s.updateSlot slot f) := by
  cases slot with
  | primary => exact .of_markets rfl rfl id
  | standby index => exact .of_markets rfl (by simp [settled, updateSlot]) id

theorem takeActive_calm (s : Shard) (slot : Slot) : Calm s (s.takeActive slot) := s.updateSlot_calm slot _

theorem updateStandby_calm (s : Shard) (index : Nat) (f : Standby → Standby) : Calm s (s.updateStandby index f) :=
  .of_markets rfl (by simp [settled, updateStandby]) id

theorem onStandbyEnded_calm (s : Shard) (index : Nat) : Calm s (s.onStandbyEnded index) := s.updateStandby_calm index _

theorem visitMarkets_calm (s : Shard) {visit : String → MarketEntry → Visit}
    (hv : ∀ slug e, Kept e (visit slug e).entry) : Calm s (s.visitMarkets visit) :=
  .of_entries (by simp [settled, visitMarkets]) id (.map fun slug e _ => hv slug e)

theorem closeRemoved_calm (s : Shard) : Calm s s.closeRemoved :=
  ⟨s.closeRemoved_spec.1.idle, s.closeRemoved_spec.2⟩

theorem moveHistory_calm (s : Shard) (source : Nat) : Calm s (s.moveHistory source) := by
  refine .of_entries rfl id (.map fun _ e _ => ⟨⟨rfl, .refl _, rfl, rfl, .inl, fun gate' h => ?_⟩, rfl⟩)
  obtain ⟨gate, hgate, rfl⟩ := Option.map_eq_some_iff.1 h
  exact ⟨gate, hgate, gate.reassignSocket_keeps _ _⟩

variable {told : List PoolCall} {x y : Option Nat × Shard}

theorem Part.calm (h : Part x told y) : Calm x.2 y.2 := by
  cases h with
  | arranged h => exact h.calm
  | opened index s => exact .refl s
  | emptied index s => exact s.updateStandby_calm index _
  | resolved h => exact h.plain.calm
  | closed but s => exact s.closeRemoved_calm
  | uncovered but s => exact s.visitMarkets_calm fun slug e => Left.kept (e.loseCoverage_left _ _ _ _ _ slug)
  | ended but s =>
    refine (s.visitMarkets_calm fun _ e => ?_).trans (retireAllAgreement_beside _).calm
    exact Left.kept (e.leaveConnection_left.trans (MarketEntry.endGeneration_plain _ _ _ _).toLeft)
  | promoted but s =>
    exact s.visitMarkets_calm fun slug e => ⟨e.promote_idle _ _ _ _ _ _ _ slug, e.promote_desired _ _ _ _ _ _ _ slug⟩
  | lost but s continuity => exact (s.reportShardLoss_plain continuity _).calm
  | recounted but s => exact s.recountRecovering_plain.calm
  | retired but s slot => exact (s.retirePoolSocket_plain slot).calm
  | moved but s index => exact s.moveHistory_calm _

theorem Parts.calm (h : Parts x told y) : Calm x.2 y.2 := h.related .refl .trans Part.calm

theorem Call.calm (h : Call s told t) : Calm s t := h.parts.calm

end Shard

end PmWs
