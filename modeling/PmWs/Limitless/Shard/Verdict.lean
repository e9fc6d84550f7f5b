import PmWs.Limitless.Shard.Turns

/-!
# The terminal verdict of a market

A market whose recovery attempts are spent is stale for want of a base. Every
loss that follows finds the entry flagged and leaves the reason alone, until a
frame is applied to the book or the market is closed.
-/

open MachineInt Tables Runs

namespace PmWs

namespace MarketEntry

variable {e e' : MarketEntry}

/-- The book is stale for want of a base. -/
def Verdict (e : MarketEntry) : Prop := e.book.authority = .stale .recoveryBaseUnavailable

/-- The entry remembers the verdict its book carries. -/
def Flagged (e : MarketEntry) : Prop := e.Verdict → e.unavailableReported = true

/-- A turn flags every verdict it gives, and leaves one that stands. -/
structure Upholds (e e' : MarketEntry) : Prop where
  flagged : e.Flagged → e'.Flagged
  stands : e.Flagged → e.Verdict → e'.Verdict

theorem Upholds.refl (e : MarketEntry) : e.Upholds e := ⟨id, fun _ => id⟩

/-- A loss for another reason gives no verdict, and an entry that is not terminal has none to lose. -/
theorem upholds_afterLoss (continuity : ContinuityReason) {authority : AuthorityReason}
    (hstanding : e.terminal = false) (hordinary : authority ≠ .recoveryBaseUnavailable)
    (hbook : e'.book = e.book.afterLoss continuity authority) : e.Upholds e' := by
  have hnone (hflagged : e.Flagged) : ¬ e.Verdict := fun hverdict => by
    simp [terminal, hflagged hverdict] at hstanding
  refine ⟨fun hflagged hverdict => ?_, fun hflagged hverdict => absurd hverdict (hnone hflagged)⟩
  unfold Verdict at hverdict
  rw [hbook] at hverdict
  rcases e.book.afterLoss_cases continuity authority with ⟨-, hstale⟩ | ⟨hsame, -⟩
  · exact absurd (AuthorityState.stale.inj (hstale.symm.trans hverdict)) hordinary
  · exact absurd ((congrArg OrderBook.authority hsame).symm.trans hverdict) (hnone hflagged)

theorem Turn.upholds (h : e.Turn e') : e.Upholds e' := by
  cases h with
  | tended _ hauthority hflag =>
    refine ⟨fun hflagged hverdict => ?_, fun _ hverdict => hauthority.trans hverdict⟩
    exact hflag.trans (hflagged (hauthority.symm.trans hverdict))
  | lost continuity authority hstanding hordinary =>
    rw [reportContinuityLoss_book]
    exact upholds_afterLoss continuity hstanding hordinary rfl
  | ended attempts continuity authority hordinary =>
    unfold reportEnd
    dsimp only
    rw [reportContinuityLoss_book]
    dsimp only
    by_cases hterminal : attempts ≤ e.recoveryAttempts ∨ e.terminal = true
    · rw [if_pos hterminal]
      refine ⟨fun _ _ => ?_, fun _ hverdict => ?_⟩
      · simpa [terminal] using hterminal
      · rcases e.book.afterLoss_cases continuity .recoveryBaseUnavailable with ⟨-, hstale⟩ | ⟨hsame, -⟩
        · exact hstale
        · exact (congrArg OrderBook.authority hsame).trans hverdict
    · rw [if_neg hterminal]
      exact upholds_afterLoss continuity (Bool.eq_false_iff.2 fun h => hterminal (.inr h)) hordinary rfl
  | promoted _ hlive hbook =>
    have hnone : ¬ e.Verdict := fun hverdict => by
      have hstale : e.book.authority = .stale .recoveryBaseUnavailable := hverdict
      simp [live, hstale] at hlive
    refine ⟨fun _ hverdict => absurd ?_ hnone, fun _ hverdict => absurd hverdict hnone⟩
    have hstale : e'.book.authority = .stale .recoveryBaseUnavailable := hverdict
    rwa [hbook] at hstale

theorem Turns.upholds (h : e.Turns e') : e.Upholds e' := by
  induction h with
  | refl => exact .refl e
  | tail _ hturn ih =>
    exact ⟨fun hflagged => hturn.upholds.flagged (ih.flagged hflagged), fun hflagged hverdict =>
      hturn.upholds.stands (ih.flagged hflagged) (ih.stands hflagged hverdict)⟩

/-- One turn at a time, the verdict standing after each. -/
abbrev HoldsTo : MarketEntry → MarketEntry → Prop := Relation.ReflTransGen fun e e' => e.Turn e' ∧ e'.Verdict

theorem Turns.holdsTo (h : e.Turns e') (hflagged : e.Flagged) (hverdict : e.Verdict) : e.HoldsTo e' := by
  induction h with
  | refl => exact .refl
  | tail hturns hturn ih =>
    have hso := Turns.upholds hturns
    exact ih.tail ⟨hturn, hturn.upholds.stands (hso.flagged hflagged) (hso.stands hflagged hverdict)⟩

end MarketEntry

namespace Shard

variable {s t u : Shard} {slug : String} {e e' : MarketEntry}

/-- The event's frame is applied to the book of the market. -/
def AcceptsBase (s : Shard) (slug : String) (event : ShardEvent) : Prop :=
  ofMarket slug event ∧ ∃ t, s.step event = some t ∧ ∃ (e e' : MarketEntry) (candidate : Candidate) (commit : BookCommit),
    s.markets[slug]? = some e ∧ t.markets[slug]? = some e' ∧ e.Applied candidate commit e'

/-- Every verdict is flagged, and the set version is a counter's value. -/
structure Remembers (s : Shard) : Prop extends Orderly s where
  bounded : s.desiredVersion ≤ u64Max
  flagged : ∀ (k : String) e, s.markets[k]? = some e → e.Flagged

/-- The entry of the market that was installed at `version` has its verdict, as long as the set version is not spent. -/
structure Standing (slug : String) (version : Nat) (s : Shard) : Prop where
  older : s.desiredVersion < u64Max → version ≤ s.desiredVersion
  stands : s.desiredVersion < u64Max → ∀ e, s.markets[slug]? = some e → e.installedVersion = version → e.Verdict

theorem Turned.flagged (h : Turned s t) (hs : ∀ (k : String) e, s.markets[k]? = some e → e.Flagged) {k : String}
    (he : t.markets[k]? = some e) : e.Flagged := by
  rcases h.entries k e he with ⟨e₀, he₀, hturns⟩ | ⟨made, hmade, hturns⟩
  · exact hturns.upholds.flagged (hs k e₀ he₀)
  · exact hturns.upholds.flagged fun hverdict => absurd hverdict hmade.authority

/-- The entry of a market goes on under the version it was installed at. -/
theorem Turned.same_entry (h : Turned s t) (hbounded : s.desiredVersion ≤ u64Max) (hfits : t.desiredVersion < u64Max)
    (he' : t.markets[slug]? = some e') (holder : e'.installedVersion ≤ s.desiredVersion) :
    ∃ e, s.markets[slug]? = some e ∧ e.Turns e' := by
  rcases h.entries slug e' he' with hold | ⟨made, hmade, hturns⟩
  · exact hold
  · have hversion := hmade.version hbounded
    have hsame := hturns.version
    omega

/-- The entry installed at `version` was there before, and has had the verdict at every turn since. -/
def KeepsTo (slug : String) (version : Nat) (s t : Shard) : Prop :=
  t.desiredVersion < u64Max → ∀ e', t.markets[slug]? = some e' → e'.installedVersion = version →
    ∃ e, s.markets[slug]? = some e ∧ e.HoldsTo e' ∧ e'.Verdict

theorem Standing.turned {version : Nat} (h : s.Standing slug version) (hs : s.Remembers) (hturned : Turned s t) :
    KeepsTo slug version s t := by
  intro hfits e' he' hversion
  have hbefore := (hturned.version hs.bounded).1.trans_lt hfits
  obtain ⟨e, he, hturns⟩ := hturned.same_entry hs.bounded hfits he' (hversion.trans_le (h.older hbefore))
  have hflagged := hs.flagged slug e he
  have hverdict := h.stands hbefore e he (hturns.version.symm.trans hversion)
  exact ⟨e, he, hturns.holdsTo hflagged hverdict, hturns.upholds.stands hflagged hverdict⟩

theorem Standing.next {version : Nat} (h : s.Standing slug version) (hlater : s.desiredVersion ≤ t.desiredVersion)
    (hkeeps : KeepsTo slug version s t) : t.Standing slug version := by
  refine ⟨fun hfits => (h.older (hlater.trans_lt hfits)).trans hlater, fun hfits e' he' hversion => ?_⟩
  obtain ⟨-, -, -, hverdict⟩ := hkeeps hfits e' he' hversion
  exact hverdict

/-- An applied frame leaves no verdict on its own book. -/
theorem Touched.flagged (h : Touched s t slug e e') (hlive : e'.live = true)
    (hs : ∀ (k : String) e, s.markets[k]? = some e → e.Flagged) {k : String} {e₁ : MarketEntry}
    (he₁ : t.markets[k]? = some e₁) : e₁.Flagged := by
  by_cases hk : k = slug
  · subst hk
    obtain rfl := Option.some.inj (h.stored.symm.trans he₁)
    intro hverdict
    have hstale : e'.book.authority = .stale .recoveryBaseUnavailable := hverdict
    simp [MarketEntry.live, hstale] at hlive
  · exact hs k e₁ (h.others k hk ▸ he₁)

theorem Remembers.step {event : ShardEvent} (h : s.Remembers) (hstep : s.step event = some t) : t.Remembers := by
  have ht := h.toOrderly.step hstep
  have hturns (hturned : Turned s t) : t.Remembers :=
    ⟨ht, (hturned.version h.bounded).2, fun _ _ he => hturned.flagged h.flagged he⟩
  rcases step_fares h.counted hstep with hturned | ⟨k, hof, hturned | ⟨e, e', candidate, commit, htouched, happlied⟩⟩
  · exact hturns hturned
  · exact hturns hturned
  · exact ⟨ht, htouched.version.trans_le h.bounded, fun _ _ he => htouched.flagged happlied.live h.flagged he⟩

/-- A step keeps the verdict or applies a frame to the book. -/
theorem Standing.step {version : Nat} {event : ShardEvent} (h : s.Standing slug version) (hs : s.Remembers)
    (hstep : s.step event = some t) :
    KeepsTo slug version s t ∨ (s.AcceptsBase slug event ∧ ∀ e, t.markets[slug]? = some e → e.live = true) := by
  rcases step_fares hs.counted hstep with hturned | ⟨k, hof, hturned | ⟨e, e', candidate, commit, htouched, happlied⟩⟩
  · exact .inl (h.turned hs hturned)
  · exact .inl (h.turned hs hturned)
  · by_cases hk : slug = k
    · subst hk
      refine .inr ⟨⟨hof, t, hstep, e, e', candidate, commit, htouched.found, htouched.stored, happlied⟩, fun e₁ he₁ => ?_⟩
      obtain rfl := Option.some.inj (htouched.stored.symm.trans he₁)
      exact happlied.live
    · -- a frame of another market leaves the entry alone
      refine .inl fun hfits e₁ he₁ hversion => ?_
      rw [htouched.others slug hk] at he₁
      exact ⟨e₁, he₁, .refl, h.stands (htouched.version ▸ hfits) e₁ he₁ hversion⟩

/-! ## Runs -/

/-- Three generations end without a base, and a fourth connection is up. -/
def exampleExhausted : Shard :=
  exampleSingle.after
    [.spawn .primary, exampleReady 1, exampleFrame 1 "btc-up" "1" 10, .notice 1 (.overload 1) exampleLook,
      .ended .primary .socketClosed fun _ => exampleLook, .spawn .primary,
      .ended .primary .connectFailed fun _ => exampleLook, .spawn .primary,
      .ended .primary .connectFailed fun _ => exampleLook, .spawn .primary, exampleReady 4] (by decide)

end Shard

end PmWs
