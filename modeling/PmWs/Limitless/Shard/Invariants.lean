import PmWs.Lib.Runs
import PmWs.Limitless.Shard.Sessions

/-!
# What holds along every run of a shard

The counts and the queue are exact, every book is the book of its slug, and
the latch means what it says. Each is read off what a step comes to.
-/

open MachineInt Tables Runs

namespace PmWs

namespace Shard

variable {s t u : Shard} {slot : Slot} {slug : String} {e e' : MarketEntry}

/-! ## Frames -/

theorem withdrawLicence_plain (s : Shard) (reason : PoolDegradeReason) :
    ∃ redundancy, Plain { s with redundancy } (s.withdrawLicence reason) := by
  unfold withdrawLicence
  split
  · refine ⟨_, .trans (updateMarkets_plain _ _ fun _ e => ?_) (handBackToPublishingSlot_plain _)⟩
    exact ⟨⟨⟨rfl, .refl _, rfl, rfl, .inl, nofun⟩, rfl, fun _ => id⟩, rfl⟩
  · exact ⟨s.redundancy, .refl s⟩

theorem withdrawLicence_unarmed (s : Shard) (reason : PoolDegradeReason) : (s.withdrawLicence reason).poolArmed = false := by
  unfold withdrawLicence
  split
  · rfl
  · rename_i hother
    unfold poolArmed Redundancy.armed
    cases h : s.redundancy with
    | none => rfl
    | some redundancy =>
      rw [Option.any_some]
      split
      · exact absurd h (hother _ _)
      · rfl

/-! ## Orderly shards -/

/-- The bookkeeping of the set, the names of the books and the latch are right. -/
structure Orderly (s : Shard) : Prop where
  counted : s.Counted
  named : s.Named
  latched : s.Latched

theorem Calm.orderly (h : Calm s t) (hs : s.Orderly) : t.Orderly :=
  ⟨h.counted hs.counted, h.idle.named hs.named, h.idle.latched hs.latched⟩

theorem Marked.orderly (h : Marked s t) (hs : s.Orderly) : t.Orderly where
  counted := hs.counted.sameSet (.of_related h.count h.removing (h.entries.mono fun hn => hn.desired)) h.config
  named := by
    refine ⟨fun slug e' he' => ?_, h.retired ▸ hs.named.retired⟩
    obtain ⟨e, he, hn⟩ := h.entries.of_some he'
    rw [hn.market, hn.book]
    exact hs.named.entries slug e he
  latched := by
    refine ⟨fun slug e' he' => ?_, fun hl slug e' he' hlive => ?_⟩
    · obtain ⟨e, he, hn⟩ := h.entries.of_some he'
      exact hn.sound (hs.latched.entries slug e he)
    · obtain ⟨e, he, hn⟩ := h.entries.of_some he'
      exact hn.spent.2 (hs.latched.quiet (h.latch ▸ hl) slug e he (hn.live ▸ hlive))

/-- The licence plays no part in it. -/
theorem Orderly.redundancy (hs : s.Orderly) (redundancy : Option Redundancy) : Orderly { s with redundancy } :=
  ⟨⟨hs.counted.count, hs.counted.bounded, hs.counted.capacity, ⟨hs.counted.queued.mem, hs.counted.queued.nodup⟩,
    hs.counted.waiting⟩, ⟨hs.named.entries, hs.named.retired⟩, ⟨hs.latched.entries, hs.latched.quiet⟩⟩

/-- An applied snapshot releases the latch. -/
theorem Touched.orderly {candidate : Candidate} {commit : BookCommit} (h : Touched s t slug e e')
    (ha : e.Applied candidate commit e') (hlatch : t.railLossLatched = false) (hs : s.Orderly) : t.Orderly where
  counted := hs.counted.sameSet (.of_related h.count h.removing (h.related (fun _ => rfl) ha.desired)) h.config
  named := by
    refine ⟨fun k e₁ he₁ => ?_, h.retired ▸ hs.named.retired⟩
    by_cases heq : k = slug
    · subst heq
      obtain rfl := Option.some.inj (h.stored.symm.trans he₁)
      obtain ⟨hslug, hbook⟩ := hs.named.entries k e h.found
      exact ⟨by rw [ha.market, hslug], by rw [OrderBook.applySnapshot_market ha.book, hbook, ha.market]⟩
    · exact hs.named.entries k e₁ (h.others k heq ▸ he₁)
  latched := by
    refine ⟨fun k e₁ he₁ => ?_, fun hl => by simp [hlatch] at hl⟩
    by_cases heq : k = slug
    · subst heq
      obtain rfl := Option.some.inj (h.stored.symm.trans he₁)
      exact ha.sound
    · exact hs.latched.entries k e₁ (h.others k heq ▸ he₁)

theorem Reached.orderly (h : Reached slot slug s t) (hs : s.Orderly) : t.Orderly := by
  cases h with
  | kept => exact hs
  | lost => exact (s.reportMarketLoss_plain slug _ _).calm.orderly hs
  | withdrawn reason =>
    obtain ⟨redundancy, hplain⟩ := s.withdrawLicence_plain reason
    exact hplain.calm.orderly (hs.redundancy redundancy)
  | @applied candidate settle hsettle =>
    cases he : s.markets[slug]? with
    | none =>
      unfold applyAuthoritative
      rw [he]
      exact (s.refreshAgreement_beside slug).calm.orderly hs
    | some e =>
      rcases applyAuthoritative_spec he slot candidate settle with
        ⟨-, lost, hlost, htouched, hlatch⟩ | ⟨applied, commit, happly, htouched, hlatch⟩
      · exact (htouched.plain hlost hlatch).calm.orderly hs
      · exact htouched.orderly (.noted (.refl e) (MarketEntry.applySnapshot_applied happly) (hsettle applied)) hlatch hs

theorem Frame.orderly {announced : Prop} (h : Frame announced s slot slug t) (hs : s.Orderly) : t.Orderly := by
  cases h with
  | ignored hmarks => exact hmarks.marked.orderly hs
  | delivered e u he haccepts hmarks hreached => exact hreached.orderly (hmarks.marked.orderly hs)

/-- What every call keeps of an orderly shard, any number of them keeps. -/
theorem Calls.keep {I : Shard → Prop} {told : List PoolCall} (h : Calls s told t) (hs : s.Orderly)
    (hcall : ∀ s told t, Orderly s → I s → Call s told t → I t) (hi : I s) : I t :=
  (h.inv (I := fun s => s.Orderly ∧ I s)
    (fun _ _ _ hs h => ⟨h.calm.orderly hs.1, hcall _ _ _ hs.1 hs.2 h⟩) ⟨hs, hi⟩).2

theorem Changes.orderly (h : Changes s t) (hs : s.Orderly) (hcounted : t.Counted) : t.recountRecovering.Orderly :=
  t.recountRecovering_plain.calm.orderly ⟨hcounted, h.idle.named hs.named, h.idle.latched hs.latched⟩

theorem Orderly.step (hs : s.Orderly) {event : ShardEvent} (h : s.step event = some t) : t.Orderly := by
  cases step_taken h with
  | spawned slot hspawn ht => exact ht ▸ (s.spawnSlot_arranged slot none).calm.orderly hs
  | called hcalls => exact hcalls.inv (fun _ _ _ hs hcall => hcall.calm.orderly hs) hs
  | read generation update times subscription look slot hnotice hframe => exact hframe.orderly hs
  | added slugs hadds ht =>
    obtain ⟨u, hchanges, hcounted, heq⟩ := addMarkets_spec hs.counted slugs
    exact ht ▸ heq ▸ hchanges.orderly hs hcounted
  | removed slugs hremoves ht =>
    obtain ⟨u, hchanges, hcounted, heq⟩ := removeMarkets_spec hs.counted slugs
    exact ht ▸ heq ▸ hchanges.orderly hs hcounted

/-! ## Where runs start -/

/-- A shard as it is made, with its segment or without one. -/
inductive Starts (s : Shard) : Prop
  | made (config : ShardConfig) (order : MarketOrder) (made : Shard.new config order = .ok s)
  | published (config : ShardConfig) (order : MarketOrder) (made : Shard) (layout : SegmentLayout)
      (new : Shard.new config order = .ok made) (published : made.publishInto (.new (.create layout)) = .ok s)

theorem empty_orderly (config : ShardConfig) (levelCapacity : LevelCapacity) (order : MarketOrder) :
    (empty config levelCapacity order).Orderly where
  counted := by
    refine ⟨?_, Nat.zero_le _, Nat.min_le_right _ _, ⟨fun slug _ => ?_, List.nodup_nil⟩, Nat.zero_le _⟩
    · have hnone : keysWhere (·.desired) (empty config levelCapacity order).markets = ∅ := by
        ext slug
        simp [mem_keysWhere, empty]
      rw [hnone]
      rfl
    · simp [empty]
  named := ⟨fun _ _ h => by simp [empty] at h, fun _ _ h => by simp [empty] at h⟩
  latched := ⟨fun _ _ h => by simp [empty] at h, nofun⟩

/-- The configured markets are installed one after the other. -/
theorem installConfigured_changes {slugs : List String} (hc : s.Counted) (h : s.installConfigured slugs = .ok t) :
    Changes s t ∧ t.Counted := by
  induction slugs generalizing s with
  | nil => exact Except.ok.inj h ▸ ⟨.refl, hc⟩
  | cons slug rest ih =>
    unfold installConfigured at h
    split at h
    · exact ih hc h
    · rename_i habsent
      split at h
      · cases h
      · rename_i hroom
        have hnone : s.markets[slug]? = none := by simpa using habsent
        have hinstalls := s.install_cases slug
        split at h <;> try cases h
        rename_i installed heq
        rw [heq] at hinstalls
        obtain ⟨hchanges, hcounted⟩ := ih (hinstalls.counted hc hnone (by omega)) h
        exact ⟨.head (.install slug hinstalls hnone) hchanges, hcounted⟩

theorem new_changes {config : ShardConfig} {order : MarketOrder} (h : Shard.new config order = .ok s) :
    ∃ levelCapacity, Changes (empty config levelCapacity order) s ∧ s.Counted := by
  unfold Shard.new at h
  iterate 6
    split at h
    · cases h
  split at h
  · cases h
  · split at h
    · cases h
    · exact ⟨_, installConfigured_changes (empty_orderly _ _ _).counted h⟩

theorem publishInto_eq {segment : ShardSegment} (h : s.publishInto segment = .ok t) :
    ∃ segment', t = { s with segment := some segment' } := by
  unfold publishInto at h
  split at h
  · cases h
  · obtain ⟨segment', -, rfl⟩ := Fallible.map_eq_ok.1 h
    exact ⟨segment', rfl⟩

theorem segment_calm (s : Shard) (segment : Option ShardSegment) : Calm s { s with segment } := .of_markets rfl rfl id

/-- The lines follow the set while its version is not spent, and every market is subscribed from the session that
claims it. -/
structure Wired (s : Shard) : Prop extends Orderly s where
  current : s.desiredVersion < u64Max → s.wiring.Current
  subscribed : s.wiring.Subscribed

theorem Wired.of_moves (hs : s.Wired) (ht : t.Orderly) (hmoves : Wiring.Moves s.wiring t.wiring) : t.Wired :=
  ⟨ht, .moves hs.current hmoves, hs.subscribed.moves hmoves⟩

theorem Wired.dial (hs : s.Wired) (ht : t.Orderly) (hdial : s.wiring.Dial slot t.wiring) : t.Wired := by
  have hversion : t.desiredVersion = s.desiredVersion := hdial.version
  exact ⟨ht, fun hfits => (hs.current (hversion ▸ hfits)).dial hdial, hs.subscribed.dial hdial⟩

theorem Wired.step (hs : s.Wired) {event : ShardEvent} (h : s.step event = some t) : t.Wired := by
  have ht := hs.toOrderly.step h
  rcases step_dials hs.counted h with ⟨slot, -, rfl | hdial⟩ | ⟨-, hmoves⟩
  · exact hs
  · exact hs.dial ht hdial
  · exact hs.of_moves ht hmoves

theorem empty_slot (config : ShardConfig) (levelCapacity : LevelCapacity) (order : MarketOrder) {state : ConnectionSlot}
    (h : (empty config levelCapacity order).slot slot = some state) : state = .default := by
  cases slot with
  | primary => exact (Option.some.inj h).symm
  | standby index =>
    simp only [Shard.slot, empty, List.getElem?_replicate, Option.map_eq_some_iff, Option.ite_none_right_eq_some] at h
    obtain ⟨standby, ⟨-, hstandby⟩, rfl⟩ := h
    rw [← Option.some.inj hstandby]
    rfl

theorem empty_wired (config : ShardConfig) (levelCapacity : LevelCapacity) (order : MarketOrder) :
    (empty config levelCapacity order).Wired where
  toOrderly := empty_orderly config levelCapacity order
  current _ := by
    refine ⟨fun slot line hline => ?_, fun slug member hm => by simp [wiring, empty] at hm⟩
    obtain ⟨state, hstate, rfl⟩ := Option.map_eq_some_iff.1 hline
    rw [empty_slot config levelCapacity order hstate]
    exact .of_none rfl (Nat.zero_le _)
  subscribed slug member generation hm := by simp [wiring, empty] at hm

/-- A shard starts as the empty one with its configured markets installed, whatever segment it publishes into. -/
theorem Starts.changes (h : Starts s) : ∃ config levelCapacity order segment made,
    Changes (empty config levelCapacity order) made ∧ made.Counted ∧ s = { made with segment } := by
  cases h with
  | made config order h =>
    obtain ⟨levelCapacity, hchanges, hcounted⟩ := new_changes h
    exact ⟨config, levelCapacity, order, s.segment, s, hchanges, hcounted, rfl⟩
  | published config order made layout h hpublished =>
    obtain ⟨levelCapacity, hchanges, hcounted⟩ := new_changes h
    obtain ⟨segment, rfl⟩ := publishInto_eq hpublished
    exact ⟨config, levelCapacity, order, some segment, made, hchanges, hcounted, rfl⟩

theorem Starts.wired (h : Starts s) : s.Wired := by
  obtain ⟨config, levelCapacity, order, segment, made, hchanges, hcounted, rfl⟩ := h.changes
  have hempty := empty_wired config levelCapacity order
  have hmade : made.Orderly := ⟨hcounted, hchanges.idle.named hempty.named, hchanges.idle.latched hempty.latched⟩
  exact hempty.of_moves ((made.segment_calm segment).orderly hmade) hchanges.moves

/-- The states a shard can be in, whatever happens to it. -/
def Reachable (s : Shard) : Prop := ∃ start, Starts start ∧ Run Shard.step (fun _ _ => True) start s

theorem Reachable.wired (h : Reachable s) : s.Wired := by
  obtain ⟨start, hstart, hrun⟩ := h
  exact hrun.inv (fun _ _ _ hs _ hstep => hs.step hstep) hstart.wired

/-! A shard of two markets, and frames of its venue. -/

def exampleConfig (replicas : Nat) (semantics : DedupKeySemantics) : ShardConfig where
  markets := ["btc-up", "eth-up"]
  ingestCapacity := 16
  controlCapacity := 16
  observerCapacity := 16
  levelCapacity := 8
  maxMarkets := 4
  replicas := replicas
  dedupKey := { orderbookUpdateDedupKey with semantics }
  resubscribeWindow := 10
  maxRecoveryAttempts := 3
  daemonGeneration := 1
  dailyAttemptBudget := 1000
  minCommandIntervalMs := 0

/-- The slugs backwards. -/
def exampleOrder : MarketOrder := fun markets => ⟨markets.toList.reverse, List.reverse_perm _⟩

def exampleLook : Look := ⟨0, fun _ => false⟩

def exampleUpdate (slug version : String) (size : Fin 1000) : OrderbookUpdate where
  marketSlug := slug
  tokenId := none
  bids := [((exampleLevel .bid 3 size).price, (exampleLevel .bid 3 size).quantity)]
  asks := []
  timestamp := "2026-01-01T00:00:00Z"
  version := some version

def exampleFrame (generation : Nat) (slug version : String) (size : Fin 1000) : ShardEvent :=
  .notice generation (.event (.orderbookUpdate (exampleUpdate slug version size)) ⟨0, 0⟩ 1) exampleLook

def exampleReady (generation : Nat) : ShardEvent := .notice generation (.ready 10 1 0) exampleLook

/-- Three topologies: one connection, a hot standby, and a pool of two sockets. -/
def exampleSingle : Shard := (Shard.new (exampleConfig 1 .dedupOnly) exampleOrder).toOption.get (by decide)
def exampleStandby : Shard := (Shard.new (exampleConfig 2 .dedupOnly) exampleOrder).toOption.get (by decide)
def examplePool : Shard := (Shard.new (exampleConfig 2 .sessionMonotone) exampleOrder).toOption.get (by decide)

theorem exampleSingle_starts : Starts exampleSingle := .made (exampleConfig 1 .dedupOnly) exampleOrder (by rfl)
theorem exampleStandby_starts : Starts exampleStandby := .made (exampleConfig 2 .dedupOnly) exampleOrder (by rfl)
theorem examplePool_starts : Starts examplePool := .made (exampleConfig 2 .sessionMonotone) exampleOrder (by rfl)

/-- The shard after a list of events, each of which can happen. -/
def after (s : Shard) (events : List ShardEvent) (h : (exec Shard.step (fun _ _ => True) s events).isSome) : Shard :=
  (exec Shard.step (fun _ _ => True) s events).get h

theorem Starts.after (hs : Starts s) (events : List ShardEvent)
    (h : (exec Shard.step (fun _ _ => True) s events).isSome) : Reachable (s.after events h) :=
  ⟨s, hs, Run.of_exec events (Option.some_get h).symm⟩

/-! ## Following the set -/

theorem Wired.reconcileSlot (hs : s.Wired) (slot : Slot) (clock : Clock) : (s.reconcileSlot slot clock).Wired := by
  have hstep : s.step (.reconcile slot clock) = some (s.reconcileSlot slot clock) := rfl
  exact hs.step hstep

theorem reconcileSet_version (s : Shard) (slots : List Slot) (clock : Slot → Clock) :
    (slots.foldl (fun s slot => s.reconcileSlot slot (clock slot)) s).desiredVersion = s.desiredVersion := by
  induction slots generalizing s with
  | nil => rfl
  | cons first rest ih => exact (ih _).trans (s.reconcileSlot_wiring first (clock first)).version

/-- One role after the other is brought up to the set, and none falls back behind it. -/
theorem reconcileAll_reconciled (slots : List Slot) (hnodup : slots.Nodup) (hs : s.Wired) (clock : Slot → Clock)
    (hfits : s.desiredVersion < u64Max) (slot : Slot) (hslot : slot ∈ slots ∨ s.wiring.Reconciled slot) :
    (slots.foldl (fun s slot => s.reconcileSlot slot (clock slot)) s).wiring.Reconciled slot := by
  induction slots generalizing s with
  | nil => exact hslot.resolve_left List.not_mem_nil
  | cons first rest ih =>
    have hreconcile := s.reconcileSlot_wiring first (clock first)
    have hversion : (s.reconcileSlot first (clock first)).desiredVersion = s.desiredVersion := hreconcile.version
    refine ih (List.nodup_cons.1 hnodup).2 (hs.reconcileSlot first (clock first)) (hversion ▸ hfits) ?_
    by_cases heq : slot = first
    · exact .inr (heq ▸ hreconcile.reconciled (hs.current hfits))
    · exact hslot.imp (fun hmem => (List.mem_cons.1 hmem).resolve_left heq) (hreconcile.elsewhere heq)

theorem slots_nodup (s : Shard) : s.slots.Nodup := by
  unfold slots
  refine List.nodup_cons.2 ⟨by simp, List.nodup_range.map fun a b h => ?_⟩
  cases h
  rfl

theorem mem_slots {state : ConnectionSlot} (h : s.slot slot = some state) : slot ∈ s.slots := by
  unfold slots
  cases slot with
  | primary => exact List.mem_cons_self
  | standby index =>
    obtain ⟨standby, hstandby, -⟩ := Option.map_eq_some_iff.1 h
    obtain ⟨hlt, -⟩ := List.getElem?_eq_some_iff.1 hstandby
    simpa using hlt

theorem Wired.reconcileSet_reconciled (hs : s.Wired) (clock : Slot → Clock) (hfits : s.desiredVersion < u64Max)
    (slot : Slot) : (s.reconcileSet clock).wiring.Reconciled slot := by
  refine reconcileAll_reconciled s.slots s.slots_nodup hs clock hfits slot ?_
  cases hslot : s.slot slot with
  | none => exact .inr fun line session hline => by simp [wiring, hslot] at hline
  | some state => exact .inl (mem_slots hslot)

/-- Once the set was followed, every established connection has exactly the wanted markets, in order, each at its
current incarnation. -/
theorem reconcileSet_follows_the_set (h : Reachable s) (clock : Slot → Clock) {connection : ActiveConnection}
    (hfits : (s.reconcileSet clock).desiredVersion < u64Max)
    (hruns : (s.reconcileSet clock).active slot = some connection) (hestablished : connection.established = true) :
    connection.markets.Pairwise (fun a b => compare a b = .lt) ∧
      (∀ slug, slug ∈ connection.markets ↔ (s.reconcileSet clock).wants slug = true) ∧
      ∀ (slug : String) e, (s.reconcileSet clock).markets[slug]? = some e → e.desired = true →
        e.installedVersion ≤ connection.dialledSetVersion := by
  have hversion : (s.reconcileSet clock).desiredVersion = s.desiredVersion := s.reconcileSet_version s.slots clock
  have hreconciled := h.wired.reconcileSet_reconciled clock (hversion ▸ hfits) slot
  obtain ⟨state, hstate, hactive⟩ := Option.bind_eq_some_iff.1 hruns
  have hline : (s.reconcileSet clock).wiring.lines slot = some state.line := by simp [wiring, hstate]
  have hsession : state.line.session = some connection.session := by simp [ConnectionSlot.line, hactive]
  obtain ⟨hmarkets, hinstalled⟩ := hreconciled state.line connection.session hline hsession hestablished
  have hset : connection.markets = (s.reconcileSet clock).desiredSlugs := hmarkets
  refine ⟨hset ▸ keysIn_ordered _ _, fun slug => by rw [hset, mem_desiredSlugs], fun slug e he hd => ?_⟩
  exact hinstalled slug e.member (by simp [wiring, he]) hd

/-- One connection, after a market was removed and the set was followed. -/
def exampleShrunk : Shard :=
  exampleSingle.after [.spawn .primary, exampleReady 1, .removeMarkets ["btc-up"],
    .reconcile .primary fun _ => exampleLook, .spawn .primary, exampleReady 2] (by decide)

theorem reconcileSet_follows_the_set_example :
    ∃ connection, (exampleShrunk.reconcileSet fun _ _ => exampleLook).active .primary = some connection ∧
      ∀ slug, slug ∈ connection.markets ↔ (exampleShrunk.reconcileSet fun _ _ => exampleLook).wants slug = true := by
  have hruns : (exampleShrunk.reconcileSet fun _ _ => exampleLook).active .primary =
      some ⟨2, ["eth-up"], 3, some 10, some 0, true, false⟩ := by decide
  exact ⟨_, hruns, (reconcileSet_follows_the_set (exampleSingle_starts.after _ _) _ (by decide) hruns rfl).2.1⟩

/-! ## The latch -/

/-- After a loss of the whole shard no market is live, whether or not the latch kept the report from its walk. A session
of a pool that ended with a full queue is taken out before its loss is reported. -/
theorem reportShardLoss_leaves_none_live (h : Reachable s) (continuity : ContinuityReason) (authority : AuthorityReason)
    (hcalls : t = s ∨ ∃ slot, t = s.takeActive slot)
    (he : (t.reportShardLoss continuity authority).markets[slug]? = some e) (hfits : e.book.revision < u64Max) :
    e.book.authority ≠ .live := by
  have hlatched : t.Latched := by
    rcases hcalls with rfl | ⟨slot, rfl⟩
    · exact h.wired.latched
    · exact (s.takeActive_calm slot).idle.latched h.wired.latched
  have hreported := (t.reportShardLoss_plain continuity authority).latched hlatched
  have hlatch : (t.reportShardLoss continuity authority).railLossLatched = true := by
    unfold reportShardLoss
    split
    · assumption
    · rfl
  intro hlive
  exact absurd (hreported.quiet hlatch slug e he (by simpa [MarketEntry.live] using hlive)) (Nat.not_le.2 hfits)

/-- A connection that published both markets reports a loss twice: the second report meets the latch. -/
def exampleLost : Shard :=
  exampleSingle.after [.spawn .primary, exampleReady 1, exampleFrame 1 "btc-up" "1" 10, exampleFrame 1 "eth-up" "1" 10,
    .notice 1 (.overload 1) exampleLook] (by decide)

theorem reportShardLoss_leaves_none_live_example :
    ∃ e, (exampleLost.reportShardLoss .localLoss .overload).markets["btc-up"]? = some e ∧ e.book.authority ≠ .live := by
  refine ⟨((exampleLost.reportShardLoss .localLoss .overload).markets["btc-up"]?).get (by decide),
    (Option.some_get _).symm, ?_⟩
  exact reportShardLoss_leaves_none_live (exampleSingle_starts.after _ _) .localLoss .overload (.inl rfl)
    (Option.some_get _).symm (by decide)

end Shard

end PmWs
