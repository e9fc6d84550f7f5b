import PmWs.Limitless.Shard.Invariants

/-!
# Which connection's frames reach which book

A notice names its connection by a generation. A book is reached only by the
connection that runs under it and dialled the market as it is installed now,
however many connections ended before it and however often the market was
removed and added again.
-/

open MachineInt Tables Runs

namespace PmWs

/-! ## What a frame reaches -/

theorem MarketEntry.handBack_book (e : MarketEntry) (running : Option Nat) :
    (e.handBack running).entry.book = e.book ∨
      ∃ authority, (e.handBack running).entry.book = e.book.afterLoss .reconnect authority := by
  unfold handBack
  dsimp only
  split
  · exact .inl rfl
  · split
    · exact .inl rfl
    · rw [reportContinuityLoss_book]
      exact .inr ⟨_, rfl⟩

namespace Shard

variable {s t : Shard} {slot : Slot} {slug : String} {e e' : MarketEntry}

/-- A withdrawn licence changes a book only by reporting a loss on it. -/
theorem withdrawLicence_lost {reason : PoolDegradeReason} (he : s.markets[slug]? = some e)
    (he' : (s.withdrawLicence reason).markets[slug]? = some e') (hchanged : e'.book ≠ e.book) :
    s.poolArmed = true ∧ e'.book.continuity.isLost = true ∧ e'.book.levels = e.book.levels := by
  unfold withdrawLicence at he'
  split at he'
  · rename_i declaration sockets hredundancy
    refine ⟨by simp [poolArmed, hredundancy, Redundancy.armed], ?_⟩
    simp only [handBackToPublishingSlot, visitMarkets, recountRecovering, updateMarkets, lookup_map, he,
      Option.map_some, Option.some.injEq] at he'
    subst he'
    rcases MarketEntry.handBack_book { e with gate := none } _ with hsame | ⟨authority, hlost⟩
    · exact absurd hsame hchanged
    · rw [hlost] at hchanged ⊢
      refine ⟨?_, (OrderBook.Holds.afterLoss _ _ _).levels⟩
      exact ((OrderBook.afterLoss_cases _ _ _).resolve_right fun hspent => hchanged hspent.1).1
  · exact absurd (Option.some.inj (he.symm.trans he')) fun heq => hchanged (by rw [heq])

/-- Whatever a frame does to its own market, it leaves the others alone or withdraws the licence. -/
theorem Reached.others (h : Reached slot slug s t) (he : s.markets[slug]? = some e) {k : String} (hk : k ≠ slug) :
    t.markets[k]? = s.markets[k]? ∨ ∃ reason, t = s.withdrawLicence reason := by
  cases h with
  | kept => exact .inl rfl
  | lost =>
    obtain ⟨lost, -, htouched, -⟩ := reportMarketLoss_spec he .localLoss .localLoss
    exact .inl (htouched.others k hk)
  | @applied candidate settle hsettle =>
    rcases applyAuthoritative_spec he slot candidate settle with
      ⟨-, lost, -, htouched, -⟩ | ⟨applied, commit, -, htouched, -⟩
    · exact .inl (htouched.others k hk)
    · exact .inl (htouched.others k hk)
  | withdrawn reason => exact .inr ⟨reason, rfl⟩

/-- What the pool notes of a market changes no book. -/
theorem Marked.same_book (h : Marked s t) (he : s.markets[slug]? = some e) (he' : t.markets[slug]? = some e') :
    e'.book = e.book := by
  obtain ⟨e₁, he₁, hnoted⟩ := h.entries.to_some he
  rw [Option.some.inj (he'.symm.trans he₁), hnoted.book]

/-- A frame changes its own market's book only where the role's connection has the market. -/
theorem Frame.own {announced : Prop} (h : Frame announced s slot slug t) (he : s.markets[slug]? = some e)
    (he' : t.markets[slug]? = some e') (hchanged : e'.book ≠ e.book) : Accepts s slot slug e := by
  cases h with
  | ignored hmarks => exact absurd (hmarks.marked.same_book he he') hchanged
  | delivered e₁ u he₁ haccepts => exact Option.some.inj (he₁.symm.trans he) ▸ haccepts

/-- Any other book it changes only by withdrawing the licence. -/
theorem Frame.other {announced : Prop} {k : String} (h : Frame announced s slot slug t) (hother : k ≠ slug)
    (he : s.markets[k]? = some e) (he' : t.markets[k]? = some e') (hchanged : e'.book ≠ e.book) :
    s.poolArmed = true ∧ t.poolArmed = false ∧ e'.book.continuity.isLost = true ∧ e'.book.levels = e.book.levels := by
  cases h with
  | ignored hmarks => exact absurd (hmarks.marked.same_book he he') hchanged
  | delivered e₁ u he₁ haccepts hmarks hreached =>
    have hmarked := hmarks.marked
    obtain ⟨e₂, he₂, -⟩ := hmarked.entries.to_some he₁
    obtain ⟨e₃, he₃, hnoted⟩ := hmarked.entries.to_some he
    rcases hreached.others he₂ hother with hsame | ⟨reason, rfl⟩
    · rw [Option.some.inj (he'.symm.trans (hsame.trans he₃)), hnoted.book] at hchanged
      exact absurd rfl hchanged
    · obtain ⟨harmed, hlost, hlevels⟩ := withdrawLicence_lost he₃ he' (hnoted.book.symm ▸ hchanged)
      refine ⟨?_, withdrawLicence_unarmed _ _, hlost, hlevels.trans (by rw [hnoted.book])⟩
      rwa [poolArmed, hmarked.redundancy] at harmed

/-- The connection whose frame reaches a book has the market in its set, at its current incarnation. -/
theorem Accepts.claims {connection : ActiveConnection} (h : Accepts s slot slug e) (hs : s.Wired)
    (he : s.markets[slug]? = some e) (hruns : s.active slot = some connection) :
    connection.session.claims slug e.member = true := by
  cases h with
  | pooled licence harmed hcarries =>
    simp only [poolCarries, hruns, Option.any_some, Bool.and_eq_true] at hcarries
    show (connection.markets.contains slug && e.claimedBy connection.dialledSetVersion) = true
    rw [hcarries.2, hcarries.1.2, Bool.and_self]
  | single hunarmed hslot hrunning hsubscribed =>
    subst hslot
    have hprimary : s.primary.active = some connection := hruns
    obtain ⟨line, session, hline, hsession, -, hclaims⟩ := hs.subscribed slug e.member connection.generation
      (by simp [wiring, he]) (by simpa [MarketEntry.member, hprimary] using hsubscribed)
    have hcurrent := s.active_session .primary
    rw [hruns, hline, Option.bind_some, hsession] at hcurrent
    have hsame : connection.session = session := Option.some.inj hcurrent
    rw [hsame]
    exact hclaims

end Shard

/-! ## Frames and the connections that read them -/

/-- A shard with every connection it dialled so far. Nothing in it reads them. -/
structure DialledShard where
  shard : Shard
  dials : List Wiring.Session

namespace DialledShard

open Shard

/-- The connections a step dialled. -/
def newDials (before after : Shard) : ShardEvent → List Wiring.Session
  | .spawn slot => if (before.active slot).isNone then ((after.active slot).map (·.session)).toList else []
  | _ => []

def step (self : DialledShard) (event : ShardEvent) : Option DialledShard :=
  (self.shard.step event).map fun shard => ⟨shard, self.dials ++ newDials self.shard shard event⟩

/-- The states of a shard, with what it dialled on the way. -/
def Reachable (w : DialledShard) : Prop := ∃ start, Starts start ∧ Run step (fun _ _ => True) ⟨start, []⟩ w

variable {w w' : DialledShard}

/-- A dial is recorded with the generation, the set and the version it was made under. -/
theorem newDials_dial {s t : Shard} {slot : Slot} (h : s.wiring.Dial slot t.wiring) :
    newDials s t (.spawn slot) = [⟨s.nextGeneration, s.desiredSlugs, s.desiredVersion, false⟩] := by
  obtain ⟨hfree, hdialled⟩ := h.dialled
  rw [← active_session] at hfree hdialled
  have hnone : s.active slot = none := by simpa using hfree
  simp only [newDials, hnone, Option.isNone_none, if_true, hdialled, Option.toList_some]
  rfl

/-- The lines follow the set, and the running connections are among the ones dialled. -/
structure Fenced (w : DialledShard) : Prop where
  wired : w.shard.Wired
  known : w.shard.nextGeneration < u64Max → w.shard.wiring.Known w.dials

theorem Fenced.step (hw : w.Fenced) {event : ShardEvent} (h : w.step event = some w') : w'.Fenced := by
  obtain ⟨t, ht, rfl⟩ := Option.map_eq_some_iff.1 h
  refine ⟨hw.wired.step ht, fun hfits => ?_⟩
  rcases step_dials hw.wired.counted ht with ⟨slot, rfl, rfl | hdial⟩ | ⟨hevent, hmoves⟩
  · have hnone : newDials w.shard w.shard (.spawn slot) = [] := by
      simp only [newDials]
      split <;> simp_all
    simpa [hnone] using hw.known hfits
  · have hnext : t.nextGeneration = saturatingAdd w.shard.nextGeneration 1 := hdial.next
    have hbefore : w.shard.nextGeneration < u64Max := by
      simp only [hnext, saturatingAdd] at hfits
      omega
    rw [newDials_dial hdial]
    exact (hw.known hbefore).dial hdial hbefore
  · have hnone : newDials w.shard t event = [] := by
      cases event with
      | spawn slot => exact absurd rfl (hevent slot)
      | _ => rfl
    rw [hnone, List.append_nil]
    have hnext : t.nextGeneration = w.shard.nextGeneration := Wiring.moves_next hmoves
    exact (hw.known (hnext ▸ hfits)).moves hmoves

theorem fenced_of_starts {start : Shard} (h : Starts start) : Fenced ⟨start, []⟩ := by
  refine ⟨h.wired, fun _ => ?_⟩
  obtain ⟨config, levelCapacity, order, segment, made, hchanges, -, rfl⟩ := h.changes
  have hempty : (empty config levelCapacity order).wiring.Known [] := by
    refine ⟨fun slot line session hline hs => ?_, by simp, by simp⟩
    obtain ⟨state, hstate, rfl⟩ := Option.map_eq_some_iff.1 hline
    rw [empty_slot config levelCapacity order hstate] at hs
    cases hs
  exact hempty.moves hchanges.moves

theorem Reachable.fenced (h : w.Reachable) : w.Fenced := by
  obtain ⟨start, hstart, hrun⟩ := h
  exact hrun.inv (fun _ _ _ hw _ hstep => hw.step hstep) (fenced_of_starts hstart)

/-- Where an update read by a connection changes a book, that connection runs in some role. If it is the book of the
update's own market, the connection dialled that market as it is installed now. Any other book it changes only by
withdrawing the pool's licence, which reports a loss and leaves the levels as they were. -/
theorem frame_is_fenced {c : Wiring.Session} {update : OrderbookUpdate} {times : FrameTimes} {subscription : Nat}
    {look : Look} {slug : String} {e e' : MarketEntry} (hw : w.Reachable) (hfits : w.shard.nextGeneration < u64Max)
    (hread : c ∈ w.dials)
    (hstep : w.step (.notice c.generation (.event (.orderbookUpdate update) times subscription) look) = some w')
    (he : w.shard.markets[slug]? = some e) (he' : w'.shard.markets[slug]? = some e')
    (hchanged : e'.book.publish ≠ e.book.publish) :
    (∃ slot connection, w.shard.active slot = some connection ∧ connection.session.ready = c.ready) ∧
      (slug = update.marketSlug → slug ∈ c.markets ∧ e.installedVersion ≤ c.version) ∧
      (slug ≠ update.marketSlug → w.shard.poolArmed = true ∧ w'.shard.poolArmed = false ∧
        e'.book.continuity.isLost = true ∧ e'.book.levels = e.book.levels) := by
  have hfenced := hw.fenced
  have hbook : e'.book ≠ e.book := fun heq => hchanged (by rw [heq])
  obtain ⟨t, ht, rfl⟩ := Option.map_eq_some_iff.1 hstep
  obtain rfl := Option.some.inj ht
  cases hslot : w.shard.slotOf c.generation with
  | none =>
    -- the connection ended: nothing changes
    simp only [onNotice, hslot] at he'
    exact absurd (Option.some.inj (he.symm.trans he')) fun heq => hbook (by rw [heq])
  | some slot =>
    obtain ⟨connection, hruns, hgeneration⟩ := slotOf_active hslot
    have hsession := w.shard.active_session slot
    rw [hruns] at hsession
    obtain ⟨line, hline, hs⟩ := Option.bind_eq_some_iff.1 hsession.symm
    have hknown := hfenced.known hfits
    obtain ⟨dial, hdial, hready⟩ := hknown.runs slot line connection.session hline hs
    have hsame : dial = c :=
      hknown.distinct dial hdial c hread ((congrArg Wiring.Session.generation hready).trans hgeneration)
    subst hsame
    have hframe : Frame False w.shard slot update.marketSlug _ :=
      w.shard.onEvent_frame slot update times subscription nofun
    simp only [onNotice, hslot] at he' ⊢
    refine ⟨⟨slot, connection, hruns, hready.symm⟩, fun hown => ?_, fun hother => hframe.other hother he he' hbook⟩
    subst hown
    have hclaims := (hframe.own he he' hbook).claims hfenced.wired he hruns
    have hmarkets : connection.markets = dial.markets := (congrArg Wiring.Session.markets hready).symm
    have hversion : connection.dialledSetVersion = dial.version := (congrArg Wiring.Session.version hready).symm
    simpa [Wiring.Session.claims, ActiveConnection.session, MarketEntry.member, hmarkets, hversion] using hclaims

/-! ## Examples -/

/-- The shard after a list of events, each of which can happen. -/
def after (start : Shard) (events : List ShardEvent)
    (h : (exec step (fun _ _ => True) ⟨start, []⟩ events).isSome = true) : DialledShard :=
  (exec step (fun _ _ => True) ⟨start, []⟩ events).get h

theorem after_reachable {start : Shard} (hs : Starts start) (events : List ShardEvent)
    (h : (exec step (fun _ _ => True) ⟨start, []⟩ events).isSome = true) : (after start events h).Reachable :=
  ⟨start, hs, Run.of_exec events (Option.some_get h).symm⟩

/-- A state of a market that is there. -/
def entryAt (w : DialledShard) (slug : String) (h : (w.shard.markets[slug]?).isSome = true) : MarketEntry :=
  (w.shard.markets[slug]?).get h

theorem entryAt_found (w : DialledShard) (slug : String) (h : (w.shard.markets[slug]?).isSome = true) :
    w.shard.markets[slug]? = some (w.entryAt slug h) :=
  (Option.some_get h).symm

def exampleDial : Wiring.Session := ⟨2, ["btc-up", "eth-up", "sol-up"], 3, false⟩

/-- A connection that was dialled again over a larger set. -/
def exampleRedialled : DialledShard :=
  after exampleSingle [.spawn .primary, exampleReady 1, .addMarkets ["sol-up"], .reconcile .primary fun _ => exampleLook,
    .spawn .primary, exampleReady 2] (by decide)

def exampleApplied : DialledShard := (exampleRedialled.step (exampleFrame 2 "sol-up" "1" 10)).get (by decide)

theorem frame_is_fenced_example :
    (exampleRedialled.dials.map (·.markets) = [["btc-up", "eth-up"], exampleDial.markets]) ∧
    "sol-up" ∈ exampleDial.markets ∧
    (exampleRedialled.entryAt "sol-up" (by decide)).installedVersion ≤ exampleDial.version := by
  have hread : exampleDial ∈ exampleRedialled.dials := by decide
  have hstep : exampleRedialled.step (exampleFrame exampleDial.generation "sol-up" "1" 10) = some exampleApplied :=
    (Option.some_get _).symm
  refine ⟨by decide, (frame_is_fenced (after_reachable exampleSingle_starts _ _) (by decide) hread hstep
    (exampleRedialled.entryAt_found "sol-up" (by decide)) (exampleApplied.entryAt_found "sol-up" (by decide))
    fun heq => ?_).2.1 rfl⟩
  exact absurd (congrArg PublishedBook.revision heq) (by decide)

/-! A pool of three. The last socket was dialled before `sol-up` was added, and became ready after the others had been
dialled again. -/

def exampleTriple : Shard := (Shard.new (exampleConfig 3 .sessionMonotone) exampleOrder).toOption.get (by decide)

theorem exampleTriple_starts : Starts exampleTriple := .made (exampleConfig 3 .sessionMonotone) exampleOrder (by rfl)

def exampleBehind : DialledShard :=
  after exampleTriple [.spawn .primary, .spawn (.standby 0), .spawn (.standby 1), exampleReady 1, exampleReady 2,
    .addMarkets ["sol-up"], .reconcile .primary fun _ => exampleLook, .reconcile (.standby 0) fun _ => exampleLook,
    .spawn .primary, .spawn (.standby 0), exampleReady 4, exampleReady 5, exampleReady 3, exampleFrame 5 "sol-up" "1" 10,
    exampleFrame 4 "btc-up" "5" 10] (by decide)

/-- The last socket contradicts the key `btc-up` published, and the licence goes. -/
def exampleWithdrawn : DialledShard := (exampleBehind.step (exampleFrame 3 "btc-up" "5" 20)).get (by decide)

/-! A hot standby that is dialled and lost again, until the generations are spent. -/

def exampleSpent (generation : Nat) : Shard := { exampleStandby with nextGeneration := generation }

/-- A driver that follows the shard's dial and its loss of the standby spends the generations one by one. -/
theorem exampleSpent_run {σ ε : Type} (move : σ → ε → Option σ) (follows : Shard → σ → Prop) (start : σ)
    (hstart : follows exampleStandby start)
    (hdial : ∀ s t w, follows s w → s.step (.spawn (.standby 0)) = some t → ∃ e w', move w e = some w' ∧ follows t w')
    (hlose : ∀ s t w, follows s w → s.step (.ended (.standby 0) .socketClosed fun _ => exampleLook) = some t →
      ∃ e w', move w e = some w' ∧ follows t w')
    (generation : Nat) (h : generation + 1 ≤ u64Max) :
    ∃ w, Run move (fun _ _ => True) start w ∧ follows (exampleSpent (generation + 1)) w := by
  induction generation with
  | zero => exact ⟨start, .refl _, hstart⟩
  | succ generation ih =>
    obtain ⟨w, hrun, hw⟩ := ih (by omega)
    have hnext : saturatingAdd (generation + 1) 1 = generation + 1 + 1 := by
      simp only [saturatingAdd]
      omega
    obtain ⟨_, dialled, hmove, hdialled⟩ := hdial _ _ w hw rfl
    obtain ⟨_, lost, hmove', hlost⟩ := hlose _ (exampleSpent (saturatingAdd (generation + 1) 1)) dialled hdialled rfl
    exact ⟨lost, .tail (.tail hrun trivial hmove) trivial hmove', hnext ▸ hlost⟩

/-- With its generations spent, the shard dials both markets, ends, loses one of them and dials the other. -/
def exampleReusing : List ShardEvent :=
  [.spawn .primary, .ended .primary .socketClosed fun _ => exampleLook, .removeMarkets ["eth-up"], .spawn .primary,
    exampleReady u64Max]

def exampleReused : Shard := (exec Shard.step (fun _ _ => True) (exampleSpent u64Max) exampleReusing).get (by decide)

def exampleEnded : Wiring.Session := ⟨u64Max, ["btc-up", "eth-up"], 2, false⟩

theorem exampleReused_reachable : ∃ dials, Reachable ⟨exampleReused, dials⟩ ∧ exampleEnded ∈ dials := by
  have hfollows (s t : Shard) (w : DialledShard) (event : ShardEvent) (hw : w.shard = s) (h : s.step event = some t) :
      ∃ e w', step w e = some w' ∧ w'.shard = t := ⟨event, _, by rw [step, hw, h]; rfl, rfl⟩
  obtain ⟨⟨_, dials⟩, hrun, rfl⟩ := exampleSpent_run step (fun s w => w.shard = s) ⟨exampleStandby, []⟩ rfl
    (fun s t w => hfollows s t w _) (fun s t w => hfollows s t w _) (u64Max - 1) (by decide)
  have hreused : Run step (fun _ _ => True) ⟨exampleSpent u64Max, dials⟩ _ := .of_exec exampleReusing rfl
  refine ⟨_, ⟨exampleStandby, exampleStandby_starts, hrun.trans hreused⟩, ?_⟩
  -- the first of the two dials
  exact List.mem_append_left _ (List.mem_append_left _ (List.mem_append_left _ (List.mem_append_left _
    (List.mem_append_right _ (List.Mem.head _)))))

/-- A frame the first of them left behind is taken for one of the second. -/
def exampleReapplied : Shard := (exampleReused.step (exampleFrame u64Max "btc-up" "1" 10)).get (by decide)

theorem exampleReused_active (slot : Slot) (connection : ActiveConnection)
    (h : exampleReused.active slot = some connection) : connection.markets = ["btc-up"] := by
  cases slot with
  | primary =>
    have hrunning : exampleReused.active .primary = some ⟨u64Max, ["btc-up"], 3, some 10, some 0, true, false⟩ := by decide
    rw [← Option.some.inj (hrunning.symm.trans h)]
  | standby index =>
    have hstandbys : exampleReused.standbys.map (·.slot) = [.default] := by decide
    have hslot := congrArg (·[index]?) hstandbys
    simp only [List.getElem?_map] at hslot
    simp only [Shard.active, Shard.slot, hslot] at h
    cases index with
    | zero => cases h
    | succ index => cases h

/-- A frame of a socket that never dialled `sol-up` changes the book of `sol-up`, and with the generations spent a frame
of a connection that ended changes a book. -/
theorem frame_is_not_fenced :
    (exampleBehind.Reachable ∧ ⟨3, ["btc-up", "eth-up"], 2, false⟩ ∈ exampleBehind.dials ∧
      exampleBehind.step (exampleFrame 3 "btc-up" "5" 20) = some exampleWithdrawn ∧
      (exampleWithdrawn.entryAt "sol-up" (by decide)).book.publish ≠
        (exampleBehind.entryAt "sol-up" (by decide)).book.publish ∧
      "sol-up" ∉ ["btc-up", "eth-up"]) ∧
    ∃ dials, Reachable ⟨exampleReused, dials⟩ ∧ exampleEnded ∈ dials ∧
      step ⟨exampleReused, dials⟩ (exampleFrame exampleEnded.generation "btc-up" "1" 10) =
        some ⟨exampleReapplied, dials⟩ ∧
      ((exampleReapplied.markets["btc-up"]?).get (by decide)).book.publish ≠
        ((exampleReused.markets["btc-up"]?).get (by decide)).book.publish ∧
      ∀ slot connection, exampleReused.active slot = some connection → connection.session.ready ≠ exampleEnded.ready := by
  refine ⟨⟨after_reachable exampleTriple_starts _ _, by decide, (Option.some_get _).symm,
    fun heq => absurd (congrArg PublishedBook.revision heq) (by decide), by decide⟩, ?_⟩
  obtain ⟨dials, hreachable, hended⟩ := exampleReused_reachable
  refine ⟨dials, hreachable, hended, ?_, fun heq => absurd (congrArg PublishedBook.revision heq) (by decide),
    fun slot connection hruns hsame => ?_⟩
  · simp only [step, newDials, List.append_nil, exampleFrame, Option.map_eq_some_iff]
    exact ⟨exampleReapplied, (Option.some_get _).symm, rfl⟩
  · have hmarkets : connection.markets = exampleEnded.markets := congrArg Wiring.Session.markets hsame
    rw [exampleReused_active slot connection hruns] at hmarkets
    exact absurd hmarkets (by decide)

end DialledShard

end PmWs
