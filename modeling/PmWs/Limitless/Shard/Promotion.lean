import PmWs.Limitless.Shard.Shadows

/-!
# Handing the publishing role to a standby

Without a pool, the end of the publishing connection hands its role to the
first standby that can deliver. The connection moves whatever the markets'
evidence says. What is decided market by market is whether the authority of the
published book crosses with it, and no book takes anything from a shadow.
-/

open MachineInt Tables Runs

namespace PmWs

/-- In canonical order, the books show the same sides, prices and sizes by exact value. -/
def OrderBook.SameLevels (a b : OrderBook) : Prop :=
  List.Forall₂ (fun x y : Level => x.side = y.side ∧ x.price.value.toRat = y.price.value.toRat ∧
    x.quantity.value.toRat = y.quantity.value.toRat) a.publish.levels b.publish.levels

theorem agreement_eq_agreeing {shadow book : OrderBook} :
    agreement shadow book.publish = .agreeing ↔
      shadow.authority = .live ∧ shadow.market = book.market ∧ shadow.SameLevels book := by
  have hcmp (a b : ExactDecimal) : a.cmp b = .eq ↔ a.toRat = b.toRat := by
    rw [ExactDecimal.cmp_eq, compare_eq_iff_eq]
  have hequal : shadow.publish.economicallyEqual book.publish = true ↔
      shadow.market = book.market ∧ shadow.SameLevels book := by
    simp only [PublishedBook.economicallyEqual, OrderBook.SameLevels, List.forall₂_iff_zip, Bool.and_eq_true,
      decide_eq_true_eq, List.all_eq_true, Price.cmp, hcmp, and_assoc, Prod.forall]
    rfl
  unfold agreement
  split
  · rename_i hstale
    simp [hstale]
  · rename_i hlive
    rw [← hequal, not_not.1 hlive]
    split <;> simp_all

namespace Shard

variable {s t u : Shard} {index : Nat} {slug : String} {e e' : MarketEntry}

/-- `switch_source`: the standby takes the publishing role if its connection can still deliver. -/
def switchSource (self : Shard) (index : Nat) (ended : ConnectionEndReason) (established : Bool) (look : Look) :
    Option Shard :=
  match self.active (.standby index) with
  | none => none
  | some connection =>
    if connection.isViable look then some (self.promoteStandby index connection ended established) else none

/-- The end of the publishing connection asks one standby after the other. -/
theorem onPrimaryEnded_switches (s : Shard) (reason : ConnectionEndReason) (established : Bool) (clock : Clock) :
    s.onPrimaryEnded reason established clock =
      ((List.range s.standbys.length).findSome? fun index =>
        s.switchSource index reason established (clock (.switch index))).getD (s.onConnectionEnded reason) := by
  unfold onPrimaryEnded switchIndex
  induction List.range s.standbys.length with
  | nil => rfl
  | cons index rest ih =>
    rw [List.find?_cons, List.findSome?_cons]
    cases hactive : s.active (.standby index) with
    | none => simpa [switchSource, hactive] using ih
    | some connection =>
      cases hviable : connection.isViable (clock (.switch index)) with
      | false => simpa [switchSource, hactive, hviable] using ih
      | true => simp [switchSource, hactive, hviable]

/-- The states in which the publishing role is handed over: those a shard can be in, also just after the publishing
connection was taken out of its role. -/
def Switching (u : Shard) : Prop := ∃ s, Reachable s ∧ (u = s ∨ u = s.takeActive .primary)

/-- The market's authority crosses: nothing was lost unseen, its book is live, and the standby's shadow is live with the
same levels. -/
def Crosses (s : Shard) (index : Nat) (ended : ConnectionEndReason) (established : Bool) (slug : String)
    (e : MarketEntry) : Prop :=
  ¬ (established = true ∧ ended = .noticeUndeliverable) ∧ e.book.authority = .live ∧
    ∃ x shadow, s.standbys[index]? = some x ∧ x.shadows[slug]? = some shadow ∧ shadow.authority = .live ∧
      shadow.SameLevels e.book

theorem Reachable.shadowed (h : Reachable s) : s.Shadowed False := by
  obtain ⟨start, hstart, hrun⟩ := h
  have hinv : s.Orderly ∧ s.Shadowed False := by
    refine hrun.inv (I := fun s => s.Wired ∧ s.Shadowed False) (fun s t event hs _ hstep => ?_)
      ⟨hstart.wired, hstart.shadowed⟩ |>.imp_left (·.toOrderly)
    exact ⟨hs.1.step hstep, hs.2.step hs.1.toOrderly (fun h => h.elim) hstep⟩
  exact hinv.2

/-- Both the entries and the shadows carry the market their slug names. -/
theorem Switching.same_market (h : Switching u) {x : Standby} {shadow : OrderBook} (hx : u.standbys[index]? = some x)
    (hshadow : x.shadows[slug]? = some shadow) (he : u.markets[slug]? = some e) : shadow.market = e.book.market := by
  obtain ⟨s, hs, hu⟩ := h
  have hstate : u.markets = s.markets ∧ u.standbys = s.standbys := by
    rcases hu with rfl | rfl <;> exact ⟨rfl, rfl⟩
  rw [hstate.1] at he
  rw [hstate.2] at hx
  obtain ⟨hslug, hbook⟩ := hs.wired.named.entries slug e he
  have hnamed := (hs.shadowed index x hx (by simp) slug shadow hshadow).1
  exact Option.some.inj (hnamed.symm.trans (hslug.trans (congrArg some hbook.symm)))

/-! ## One market -/

/-- A market that carries its authority across is not touched. -/
theorem promote_book (hdesired : e.desired = true) (hbase : e.baseAccepted = true) {lossy : Bool}
    {shadow : Option OrderBook}
    (h : lossy = false ∧ e.live = true ∧ shadowVerdict e shadow = .agreeing) (generation version : Nat)
    (carried : List String) (ended : ConnectionEndReason) (attempts : Nat) :
    (e.promote generation version carried shadow ended lossy attempts slug).entry.book = e.book := by
  unfold MarketEntry.promote
  dsimp only
  rw [if_pos (by simp [h, promotable, hdesired, hbase])]
  rfl

/-- Any other market with a base loses its authority. -/
theorem promote_lost (hbase : e.baseAccepted = true) {lossy : Bool} {shadow : Option OrderBook}
    (h : ¬ (lossy = false ∧ e.live = true ∧ shadowVerdict e shadow = .agreeing)) (hroom : e.book.revision < u64Max)
    (generation version : Nat) (carried : List String) (ended : ConnectionEndReason) (attempts : Nat) :
    (e.promote generation version carried shadow ended lossy attempts slug).entry.book.continuity.isLost = true ∧
      ∃ reason, (e.promote generation version carried shadow ended lossy attempts slug).entry.book.authority =
        .stale reason := by
  have hrefused : ¬ (!lossy && promotable e (shadowVerdict e shadow)) = true := by
    intro hkept
    simp only [promotable, Bool.and_eq_true, Bool.not_eq_true', decide_eq_true_eq] at hkept
    exact h ⟨hkept.1, hkept.2.1.2, hkept.2.2⟩
  unfold MarketEntry.promote
  dsimp only
  rw [if_neg hrefused]
  unfold MarketEntry.endGeneration
  dsimp only
  rw [if_pos (.inl hbase)]
  -- the book took the report: only a book without a further revision refuses one
  have hreported (lost : MarketEntry) (hbook : lost.book = e.book) (continuity : ContinuityReason)
      (authority : AuthorityReason) :
      (lost.reportContinuityLoss continuity authority).1.book.continuity.isLost = true ∧
        ∃ reason, (lost.reportContinuityLoss continuity authority).1.book.authority = .stale reason := by
    have hafter : (lost.reportContinuityLoss continuity authority).1.book = e.book.afterLoss continuity authority := by
      unfold MarketEntry.reportContinuityLoss OrderBook.afterLoss
      rw [hbook]
      cases e.book.reportContinuityLoss continuity authority <;> simp [hbook]
    rw [hafter]
    rcases e.book.afterLoss_cases continuity authority with ⟨hlost, hstale⟩ | ⟨-, hspent⟩
    · exact ⟨hlost, authority, hstale⟩
    · omega
  unfold MarketEntry.reportEnd
  exact hreported (MarketEntry.spendAttempt _) (by rfl) _ _

/-! ## The whole set -/

/-- What a handover makes of the entries. -/
theorem promoteStandby_markets (s : Shard) (index : Nat) (connection : ActiveConnection) (ended : ConnectionEndReason)
    (established : Bool) (slug : String) :
    (s.promoteStandby index connection ended established).markets[slug]? =
      (s.markets[slug]?.filter (·.desired)).map fun e =>
        (e.promote connection.generation connection.dialledSetVersion connection.markets
          ((s.standbys[index]?.map (·.shadows)).getD ∅)[slug]? ended (established && ended = .noticeUndeliverable)
          s.config.maxRecoveryAttempts slug).entry := by
  refine (lookup_map _ _ _).trans ?_
  rw [closeRemoved_markets]
  rfl

theorem closeAll_retired (slugs : List String) (s : Shard) {slug : String} {book : OrderBook}
    (h : (slugs.foldl close s).retired[slug]? = some book) :
    s.retired[slug]? = some book ∨ ∃ e, s.markets[slug]? = some e ∧ book.levels = e.book.levels := by
  induction slugs generalizing s with
  | nil => exact .inl h
  | cons k rest ih =>
    rcases ih (s.close k) h with hretired | ⟨e, he, hlevels⟩
    · unfold close at hretired
      split at hretired
      · exact .inl hretired
      · rename_i e he
        dsimp only at hretired
        split at hretired
        · rw [lookup_insert] at hretired
          split at hretired
          · rename_i heq
            exact .inr ⟨e, heq ▸ he, Option.some.inj hretired ▸ e.closedBook_holds.levels⟩
          · exact .inl hretired
        · exact .inl hretired
    · rw [close_markets] at he
      exact .inr ⟨e, (Option.ite_none_left_eq_some.1 he).2, hlevels⟩

/-- A handover keeps the books whose authority the standby's shadow proves as they are, takes the authority of every
other, and installs no level of a shadow. -/
theorem promotion_crosses_proven_authority (h : Switching u) {ended : ConnectionEndReason} {established : Bool}
    {look : Look} (hswitch : u.switchSource index ended established look = some t) :
    (∀ (slug : String) e, u.markets[slug]? = some e → e.desired = true → e.baseAccepted = true →
      ∃ e', t.markets[slug]? = some e' ∧
        (Crosses u index ended established slug e → e'.book = e.book) ∧
        (¬ Crosses u index ended established slug e → e.book.revision < u64Max →
          e'.book.continuity.isLost = true ∧ (∃ reason, e'.book.authority = .stale reason) ∧
            e'.book.levels = e.book.levels)) ∧
    (∀ (slug : String) e', t.markets[slug]? = some e' →
      ∃ e, u.markets[slug]? = some e ∧ e'.book.levels = e.book.levels) ∧
    ∀ (slug : String) book, t.retired[slug]? = some book →
      u.retired[slug]? = some book ∨ ∃ e, u.markets[slug]? = some e ∧ book.levels = e.book.levels := by
  obtain ⟨connection, hactive, ht⟩ : ∃ connection, u.active (.standby index) = some connection ∧
      t = u.promoteStandby index connection ended established := by
    unfold switchSource at hswitch
    split at hswitch
    · cases hswitch
    · rename_i connection hactive
      obtain ⟨-, hswitch⟩ := Option.ite_none_right_eq_some.1 hswitch
      exact ⟨connection, hactive, (Option.some.inj hswitch).symm⟩
  obtain ⟨x, hx, -⟩ : ∃ x, u.standbys[index]? = some x ∧ x.slot.active = some connection := by
    simpa [active, Shard.slot, Option.bind_eq_some_iff] using hactive
  have hmarkets := u.promoteStandby_markets index connection ended established
  simp only [hx, Option.map_some, Option.getD_some, ← ht] at hmarkets
  have hlevels (e : MarketEntry) (slug : String) := (e.promote_idle connection.generation connection.dialledSetVersion
    connection.markets x.shadows[slug]? ended (established && ended = .noticeUndeliverable)
    u.config.maxRecoveryAttempts slug).holds.levels
  refine ⟨fun slug e he hdesired hbase => ?_, fun slug e' he' => ?_, fun slug book hbook => ?_⟩
  · have hcrosses : Crosses u index ended established slug e ↔ (established && ended = .noticeUndeliverable) = false ∧
        e.live = true ∧ shadowVerdict e x.shadows[slug]? = .agreeing := by
      have hlossy : ¬ (established = true ∧ ended = .noticeUndeliverable) ↔
          (established && ended = .noticeUndeliverable) = false := by simp
      unfold Crosses
      rw [hlossy, MarketEntry.live, decide_eq_true_eq]
      refine and_congr_right fun _ => and_congr_right fun _ => ?_
      constructor
      · rintro ⟨x', shadow, hx', hshadow, hlive, hsame⟩
        obtain rfl := Option.some.inj (hx'.symm.trans hx)
        rw [hshadow]
        exact agreement_eq_agreeing.2 ⟨hlive, h.same_market hx hshadow he, hsame⟩
      · intro hverdict
        cases hshadow : x.shadows[slug]? with
        | none => simp [shadowVerdict, hshadow] at hverdict
        | some shadow =>
          rw [hshadow] at hverdict
          obtain ⟨hlive, -, hsame⟩ := agreement_eq_agreeing.1 hverdict
          exact ⟨x, shadow, hx, hshadow, hlive, hsame⟩
    refine ⟨_, (hmarkets slug).trans (by rw [he, Option.filter_some, if_pos hdesired]; rfl), fun hkept => ?_,
      fun hout hroom => ?_⟩
    · exact promote_book hdesired hbase (hcrosses.1 hkept) _ _ _ _ _
    · obtain ⟨hlost, hstale⟩ := promote_lost hbase (fun hkept => hout (hcrosses.2 hkept)) hroom connection.generation
        connection.dialledSetVersion connection.markets ended u.config.maxRecoveryAttempts
      exact ⟨hlost, hstale, hlevels e slug⟩
  · rw [hmarkets slug] at he'
    obtain ⟨e, he, rfl⟩ := Option.map_eq_some_iff.1 he'
    exact ⟨e, (Option.filter_eq_some_iff.1 he).1, hlevels e slug⟩
  · rw [ht] at hbook
    unfold promoteStandby applyPromotions closeRemoved at hbook
    have hclosed := closeAll_retired _ _ hbook
    exact hclosed

/-- Both connections delivered the same book of one market, and only the first has one of the other. -/
def exampleShadowed : Shard :=
  exampleStandby.after [.spawn .primary, .spawn (.standby 0), exampleReady 1, exampleReady 2,
    exampleFrame 1 "btc-up" "1" 100, exampleFrame 2 "btc-up" "1" 100, exampleFrame 1 "eth-up" "1" 100] (by decide)

def exampleSwitched : Shard :=
  ((exampleShadowed.takeActive .primary).switchSource 0 .socketClosed true exampleLook).get (by decide)

theorem promotion_crosses_proven_authority_example :
    (∃ e, exampleSwitched.markets["btc-up"]? = some e ∧ e.book.authority = .live) ∧
      ∃ e, exampleSwitched.markets["eth-up"]? = some e ∧ e.book.continuity.isLost = true := by
  have hswitching : Switching (exampleShadowed.takeActive .primary) :=
    ⟨exampleShadowed, exampleStandby_starts.after _ _, .inr rfl⟩
  obtain ⟨hmarkets, -⟩ := promotion_crosses_proven_authority hswitching
    (show _ = some exampleSwitched from (Option.some_get _).symm)
  obtain ⟨btc, hbtc, hkept, -⟩ := hmarkets "btc-up" _ (Option.some_get (by decide)).symm (by decide) (by decide)
  obtain ⟨eth, heth, -, hlost⟩ := hmarkets "eth-up" _ (Option.some_get (by decide)).symm (by decide) (by decide)
  refine ⟨⟨btc, hbtc, ?_⟩, eth, heth, (hlost ?_ (by decide)).1⟩
  · rw [hkept ⟨by simp, by decide, _, _, (Option.some_get (by decide)).symm, (Option.some_get (by decide)).symm,
      by decide, (agreement_eq_agreeing.1 (by decide)).2.2⟩]
    decide
  · rintro ⟨-, -, x, shadow, hx, hshadow, -⟩
    obtain rfl : exampleShadowed.standbys[0]?.get (by decide) = x := Option.some.inj ((Option.some_get _).trans hx)
    exact absurd (Option.isSome_of_eq_some hshadow) (by decide)

end Shard

end PmWs
