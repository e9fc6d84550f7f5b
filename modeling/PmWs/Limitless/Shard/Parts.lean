import PmWs.Limitless.Shard.Calls

/-!
# What a call is made of

A call moves connections between roles, lets one carry its markets, closes what
was removed, goes over the markets once and tells the gates of the pool. Which
of these parts each function has is worked out here once, so that what a call
keeps need only be looked at part by part. Between losing its connection and
being emptied a standby holds shadows that are nobody's: the parts in between
say which standby that is.
-/

open MachineInt Tables Runs

namespace PmWs

namespace Shard

/-! ## What is only tended -/

/-- An entry goes on from the one that was there, wanted or not as before. -/
structure Kept (e e' : MarketEntry) : Prop extends e.Idle e' where
  desired : e'.desired = e.desired

/-- At most who carries the market and where its sessions stand changed. -/
structure Tends (e e' : MarketEntry) : Prop extends Kept e e' where
  book : e'.book = e.book
  flag : e'.unavailableReported = e.unavailableReported

/-- The standby has its shadows and serves what it served, or it has none. -/
def Standby.Tends (x x' : Standby) : Prop :=
  (x'.shadows = x.shadows ∧ x'.agreeing = x.agreeing ∧ ∀ slug, x.Serves slug → x'.Serves slug) ∨
    (x'.shadows = ∅ ∧ x'.agreeing = ∅)

/-- What calm functions leave as it is. -/
def settled (s : Shard) : ShardConfig × Std.ExtTreeMap String OrderBook × List String × Nat × Option Redundancy × Nat ×
    Nat :=
  (s.config, s.retired, s.removing, s.standbys.length, s.redundancy, s.desiredVersion, s.desiredCount)

/-- What tending the connections leaves as it is. -/
def aside (s : Shard) := (s.settled, s.segment, s.poolSessionsEnded, s.recovering)

/-- Connections moved and the markets they carry with them. The standby `but` may have changed in any way. -/
structure Arranged (but : Option Nat) (s t : Shard) : Prop where
  aside : t.aside = s.aside
  latch : t.railLossLatched = true → s.railLossLatched = true
  standbys : ∀ i, some i ≠ but → Option.Rel Standby.Tends s.standbys[i]? t.standbys[i]?
  entries : Related Tends s.markets t.markets

variable {a b c s t u : Shard} {slot : Slot} {slug : String} {e e' : MarketEntry} {but : Option Nat} {index : Nat}

theorem Kept.refl (e : MarketEntry) : Kept e e := ⟨.refl e, rfl⟩

theorem Left.kept (h : e.Left e') : Kept e e' := ⟨h.toIdle, h.desired⟩

theorem Tends.refl (e : MarketEntry) : Tends e e := ⟨.refl e, rfl, rfl⟩

theorem Tends.trans {e₁ e₂ e₃ : MarketEntry} (h₁ : Tends e₁ e₂) (h₂ : Tends e₂ e₃) : Tends e₁ e₃ :=
  ⟨⟨h₁.toIdle.trans h₂.toIdle, h₂.desired.trans h₁.desired⟩, h₂.book.trans h₁.book, h₂.flag.trans h₁.flag⟩

theorem Standby.Tends.refl (x : Standby) : x.Tends x := .inl ⟨rfl, rfl, fun _ => id⟩

theorem Standby.Tends.trans {x y z : Standby} (h₁ : x.Tends y) (h₂ : y.Tends z) : x.Tends z := by
  rcases h₂ with ⟨hshadows, hagreeing, hserves⟩ | hempty
  · unfold Standby.Tends
    rw [hshadows, hagreeing]
    exact h₁.imp_left fun h => ⟨h.1, h.2.1, fun slug hx => hserves slug (h.2.2 slug hx)⟩
  · exact .inr hempty

theorem standbys_refl (s : Shard) (i : Nat) : Option.Rel Standby.Tends s.standbys[i]? s.standbys[i]? := by
  cases s.standbys[i]? with
  | none => exact .none
  | some x => exact .some (.refl x)

theorem Arranged.of_entries (haside : t.aside = s.aside) (hlatch : t.railLossLatched = true → s.railLossLatched = true)
    (hstandbys : t.standbys = s.standbys) (hentries : Related Shard.Tends s.markets t.markets) : Arranged but s t :=
  ⟨haside, hlatch, fun i _ => hstandbys ▸ s.standbys_refl i, hentries⟩

theorem Arranged.of_markets (haside : t.aside = s.aside) (hlatch : t.railLossLatched = true → s.railLossLatched = true)
    (hstandbys : t.standbys = s.standbys) (hmarkets : t.markets = s.markets) : Arranged but s t :=
  .of_entries haside hlatch hstandbys (hmarkets ▸ .refl .refl _)

theorem Arranged.refl (but : Option Nat) (s : Shard) : Arranged but s s := .of_markets rfl id rfl rfl

theorem Arranged.trans (h₁ : Arranged but a b) (h₂ : Arranged but b c) : Arranged but a c where
  aside := h₂.aside.trans h₁.aside
  latch h := h₁.latch (h₂.latch h)
  standbys i hi := by
    have hab := h₁.standbys i hi
    have hbc := h₂.standbys i hi
    revert hab hbc
    cases a.standbys[i]? <;> cases b.standbys[i]? <;> cases c.standbys[i]? <;> simp
    exact .trans
  entries := h₁.entries.trans .trans h₂.entries

/-- One standby changed. -/
theorem Arranged.modify {f : Standby → Standby} (hstandbys : t.standbys = s.standbys.modify index f)
    (haside : t.aside = s.aside) (hlatch : t.railLossLatched = true → s.railLossLatched = true)
    (hmarkets : t.markets = s.markets)
    (hf : some index ≠ but → ∀ x, s.standbys[index]? = some x → x.Tends (f x)) : Arranged but s t := by
  refine ⟨haside, hlatch, fun i hi => ?_, hmarkets ▸ .refl .refl _⟩
  rw [hstandbys, List.getElem?_modify]
  cases hx : s.standbys[i]? with
  | none => exact .none
  | some x =>
    refine .some ?_
    dsimp only
    split
    · rename_i heq
      subst heq
      exact hf hi x hx
    · exact .refl x

/-- A role's connection goes on with the same markets. -/
theorem updateSlot_arranged (s : Shard) (slot : Slot) {f : ConnectionSlot → ConnectionSlot}
    (hf : ∀ state, s.slot slot = some state → ∀ connection, state.active = some connection →
      ∃ connection', (f state).active = some connection' ∧ connection'.markets = connection.markets ∧
        (connection.established = true → connection'.established = true)) : Arranged but s (s.updateSlot slot f) := by
  cases slot with
  | primary => exact .of_markets rfl id rfl rfl
  | standby index =>
    refine .modify rfl (by simp [aside, settled, updateSlot]) id rfl fun _ x hx => .inl ⟨rfl, rfl, fun slug hserves => ?_⟩
    obtain ⟨connection, hactive, hestablished, hmem⟩ := hserves
    obtain ⟨connection', hactive', hmarkets, hkept⟩ := hf x.slot (by simp [Shard.slot, hx]) connection hactive
    exact ⟨connection', hactive', hkept hestablished, hmarkets ▸ hmem⟩

theorem updateActive_arranged (s : Shard) (slot : Slot) {f : ActiveConnection → ActiveConnection}
    (hmarkets : ∀ c, (f c).markets = c.markets) (hf : ∀ c, c.established = true → (f c).established = true) :
    Arranged but s (s.updateActive slot f) :=
  s.updateSlot_arranged slot fun _ _ c hc => ⟨f c, by simp [hc], hmarkets c, hf c⟩

theorem forget_arranged (s : Shard) (index : Nat) (but : Option Nat) : Arranged but s (s.updateStandby index (·.clear)) :=
  .modify rfl (by simp [aside, settled, updateStandby]) id rfl fun _ _ _ => .inr ⟨rfl, rfl⟩

theorem carry_arranged (s : Shard) (connection : ActiveConnection) (subscription : MarketEntry → SubscriptionState) :
    Arranged but s (s.carry connection subscription) := by
  have hsubscribe (e : MarketEntry) : Tends e (subscribe connection subscription e) := by
    unfold subscribe
    split
    · exact ⟨Left.kept (.of_eq rfl rfl rfl rfl id rfl rfl rfl), rfl, rfl⟩
    · exact .refl e
  unfold carry
  generalize connection.markets = slugs
  induction slugs generalizing s with
  | nil => exact .refl but s
  | cons slug rest ih =>
    have hcarried : Arranged but s (s.updateMarket slug (subscribe connection subscription)) :=
      .of_entries rfl id rfl (.modify .refl fun e _ => hsubscribe e)
    exact hcarried.trans (ih _)

theorem spawnSlot_arranged (s : Shard) (slot : Slot) (but : Option Nat) : Arranged but s (s.spawnSlot slot) := by
  unfold spawnSlot
  split
  · exact .refl but s
  · rename_i hspawn
    have hdialled : Arranged but s { s.markDialled slot with nextGeneration := saturatingAdd s.nextGeneration 1 } := by
      cases slot with
      | primary =>
        exact .of_entries rfl id rfl (.map fun _ e _ => ⟨Left.kept (.of_eq rfl rfl rfl rfl id rfl rfl rfl), rfl, rfl⟩)
      | standby index => exact .of_markets rfl id rfl rfl
    -- the role has no connection that could have served a market
    refine hdialled.trans (updateSlot_arranged _ slot fun state hstate connection hactive => absurd (.inr ?_) hspawn)
    have hrole : s.slot slot = some state := by cases slot <;> exact hstate
    simp [hrole, hactive]

theorem settleDial_arranged (s : Shard) (slot : Slot) : Arranged but s (s.settleDial slot) := by
  have hkept (u : Shard) (f : ConnectionSlot → ConnectionSlot) (hf : ∀ state, (f state).active = state.active) :
      Arranged but u (u.updateSlot slot f) :=
    u.updateSlot_arranged slot fun state _ c hc => ⟨c, (hf state).trans hc, rfl, id⟩
  unfold settleDial
  split
  · exact .refl but s
  · have hsettled := hkept s (fun state => { state with dialledVersion := none }) fun _ => rfl
    dsimp only
    split
    · exact hsettled
    · refine (hsettled.trans ?_).trans (hkept _ _ fun _ => rfl)
      cases slot with
      | primary => exact carry_arranged _ _ _
      | standby index => exact .refl but _

theorem onReady_arranged (s : Shard) (slot : Slot) (heartbeatDeadline observedAt now : Nat) (but : Option Nat) :
    Arranged but s (s.onReady slot heartbeatDeadline observedAt now) := by
  have hready : Arranged but s (s.updateActive slot fun c =>
      { c with heartbeatDeadline := some heartbeatDeadline, lastHeartbeat := some observedAt, established := true }) :=
    s.updateActive_arranged slot (fun _ => rfl) fun _ _ => rfl
  have hsettled := hready.trans (settleDial_arranged _ slot)
  cases slot with
  | primary => exact hsettled.trans (.of_markets rfl id rfl rfl)
  | standby index => exact hsettled

theorem leavePublishing_arranged (s : Shard) (but : Option Nat) : Arranged but s s.leavePublishing := .of_markets rfl nofun rfl rfl

/-! ## Parts -/

/-- One part of a call, and what the gates of the pool are told. Beside the shard stands the standby that is being
emptied. -/
inductive Part : Option Nat × Shard → List PoolCall → Option Nat × Shard → Prop
  | arranged {but : Option Nat} {s t : Shard} (arranged : Arranged but s t) : Part (but, s) [] (but, t)
  | opened (index : Nat) (s : Shard) : Part (none, s) [] (some index, s)
  | emptied (index : Nat) (s : Shard) {f : Standby → Standby} (empties : ∀ x, (f x).shadows = ∅ ∧ (f x).agreeing = ∅) :
      Part (some index, s) [] (none, s.updateStandby index f)
  | resolved {but : Option Nat} {s t : Shard} (resolved : Resolved s t) : Part (but, s) [] (but, t)
  | closed (but : Option Nat) (s : Shard) : Part (but, s) [] (but, s.closeRemoved)
  | uncovered (but : Option Nat) (s : Shard) (publishing : Bool) (survivors : List (List String)) (attempts : Nat)
      (reason : ConnectionEndReason) :
      Part (but, s) [] (but, s.visitMarkets (MarketEntry.loseCoverage publishing survivors attempts
        (endReasonMapping reason).1 (endReasonMapping reason).2))
  | ended (but : Option Nat) (s : Shard) (attempts : Nat) (reason : ConnectionEndReason) :
      Part (but, s) [] (but, (s.visitMarkets fun _ entry => entry.leaveConnection.endGeneration attempts
        (endReasonMapping reason).1 (endReasonMapping reason).2).retireAllAgreement)
  | promoted (but : Option Nat) (s : Shard) (generation version : Nat) (carried : List String)
      (shadows : Std.ExtTreeMap String OrderBook) (ended : ConnectionEndReason) (lossy : Bool) (attempts : Nat) :
      Part (but, s) [] (but, s.visitMarkets fun slug =>
        MarketEntry.promote generation version carried shadows[slug]? ended lossy attempts slug)
  | lost (but : Option Nat) (s : Shard) (continuity : ContinuityReason) {authority : AuthorityReason}
      (ordinary : authority ≠ .recoveryBaseUnavailable) : Part (but, s) [] (but, s.reportShardLoss continuity authority)
  | recounted (but : Option Nat) (s : Shard) : Part (but, s) [] (but, s.recountRecovering)
  | retired (but : Option Nat) (s : Shard) (slot : Slot) : Part (but, s) [.retire slot.index] (but, s.retirePoolSocket slot)
  | moved (but : Option Nat) (s : Shard) (index : Nat) (there : index < s.standbys.length) :
      Part (but, s) [.reassign (index + 1) 0] (but, s.moveHistory (index + 1))

abbrev Parts : Option Nat × Shard → List PoolCall → Option Nat × Shard → Prop := Trace Part

variable {told : List PoolCall}

/-- What every part keeps, every sequence of parts keeps. -/
theorem Parts.related {R : Shard → Shard → Prop} (hrefl : ∀ s, R s s) (htrans : ∀ {a b c}, R a b → R b c → R a c)
    (hpart : ∀ {x told y}, Part x told y → R x.2 y.2) {x y : Option Nat × Shard} (h : Parts x told y) : R x.2 y.2 :=
  h.inv (I := fun y => R x.2 y.2) (fun _ _ _ hx hmove => htrans hx (hpart hmove)) (hrefl x.2)

theorem Arranged.parts (h : Arranged but s t) : Parts (but, s) [] (but, t) := .single (.arranged h)

/-- The standby whose role it is. -/
def standbyOf : Slot → Option Nat
  | .primary => none
  | .standby index => some index

theorem takeActive_parts (s : Shard) (slot : Slot) : Parts (none, s) [] (standbyOf slot, s.takeActive slot) := by
  cases slot with
  | primary => exact Arranged.parts (.of_markets rfl id rfl rfl)
  | standby index =>
    refine (Trace.single (.opened index s)).silent (Arranged.parts (.modify rfl ?_ id rfl fun h => absurd rfl h))
    simp [aside, settled, takeActive, updateSlot]

theorem chosenStandby_lt {look : Look} (h : s.chosenStandby look = some index) : index < s.standbys.length := by
  have hfound (p : Standby → Bool) (h : s.standbys.findIdx? p = some index) : index < s.standbys.length :=
    (List.findIdx?_eq_some_iff_getElem.1 h).1
  unfold chosenStandby at h
  rcases Option.or_eq_some_iff.1 h with h | ⟨-, h⟩
  · exact hfound _ h
  · exact hfound _ h

theorem moveToPrimary_arranged (s : Shard) (index : Nat) (connection : ActiveConnection) :
    Arranged (some index) s (s.moveToPrimary index connection) :=
  .modify rfl (by simp [aside, settled, moveToPrimary]) id rfl fun h => absurd rfl h

theorem takePublishingSlot_parts (s : Shard) (look : Look) :
    Parts (none, s) (s.takePublishingSlotCalls look) (none, s.takePublishingSlot look) := by
  unfold takePublishingSlot takePublishingSlotCalls
  cases hchosen : s.chosenStandby look with
  | none => exact .refl _
  | some index =>
    dsimp only
    cases s.active (.standby index) with
    | none => exact .refl _
    | some connection =>
      have hmoved := (s.moveToPrimary_arranged index connection).trans (carry_arranged _ connection fun entry =>
        if connection.established && entry.live then .established else .subscribing)
      have hthere := (chosenStandby_lt hchosen).trans_eq (congrArg (·.1.2.2.2.1) hmoved.aside).symm
      exact (((Trace.single (.opened index s)).silent hmoved.parts).after (.single (.moved _ _ index hthere))).silent
        (.single (.emptied index _ fun _ => ⟨rfl, rfl⟩))

theorem reportLostPoolCoverage_parts (s : Shard) (but : Option Nat) (ended : Slot) (reason : ConnectionEndReason)
    (look : Look) : Parts (but, s) [] (but, s.reportLostPoolCoverage ended reason look) := by
  have hclosed : Parts (but, s) [] (but, if decide (ended = .primary) then s.closeRemoved else s) := by
    split
    · exact .single (.closed but s)
    · exact .refl _
  exact hclosed.silent (.single (.uncovered but _ _ _ _ reason))

/-- A standby that lost its connection is emptied before the markets are looked at. -/
theorem onPoolSlotEnded_parts (s : Shard) (slot : Slot) (reason : ConnectionEndReason) (established handover : Bool)
    (clock : Clock) : Parts (standbyOf slot, s) (s.onPoolSlotEndedCalls slot reason established handover clock)
      (none, s.onPoolSlotEnded slot reason established handover clock) := by
  have hretired : Parts (standbyOf slot, s) (if established then [.retire slot.index] else [])
      (standbyOf slot, if established then s.retirePoolSocket slot else s) := by
    cases established with
    | true => exact .single (.retired _ s slot)
    | false => exact .refl _
  unfold onPoolSlotEnded onPoolSlotEndedCalls
  dsimp only
  generalize (if established then s.retirePoolSocket slot else s) = retired at hretired
  refine hretired.trans ?_
  cases slot with
  | primary =>
    have hended := (retired.reportLostPoolCoverage_parts none .primary reason (clock .survivors)).silent
      (leavePublishing_arranged _ none).parts
    cases handover with
    | true => exact (hended.after (takePublishingSlot_parts _ _)).silent (.single (.recounted none _))
    | false => exact hended.silent (.single (.recounted none _))
  | standby index =>
    have hended : Parts (some index, retired) [] (none, retired.onStandbyEnded index) :=
      .single (.emptied index retired fun _ => ⟨rfl, rfl⟩)
    exact (hended.silent (reportLostPoolCoverage_parts _ none _ reason _)).silent (.single (.recounted none _))

theorem onConnectionEnded_parts (s : Shard) (reason : ConnectionEndReason) :
    Parts (none, s) [] (none, s.onConnectionEnded reason) :=
  (((s.leavePublishing_arranged none).parts.silent (.single (.closed none _))).silent (.single (.ended none _ _ reason))).silent
    (.single (.recounted none _))

/-- A promotion takes the shadows with the connection. -/
theorem emptied_arranged (s : Shard) (index : Nat) (connection : ActiveConnection) : Arranged (some index) s
    { s.moveToPrimary index connection with
      railLossLatched := false
      standbys := (s.moveToPrimary index connection).standbys.modify index fun x => { x with shadows := ∅ } } :=
  (s.moveToPrimary_arranged index connection).trans
    (.modify rfl (by simp [aside, settled]) nofun rfl fun h => absurd rfl h)

theorem promoteStandby_parts (s : Shard) (index : Nat) (connection : ActiveConnection) (ended : ConnectionEndReason)
    (established : Bool) : Parts (none, s) [] (none, s.promoteStandby index connection ended established) := by
  have hemptied := (Trace.single (.opened index s)).silent (s.emptied_arranged index connection).parts
  exact (((hemptied.silent (.single (.closed _ _))).silent (.single (.promoted _ _ _ _ _ _ ended _ _))).silent
    (.single (.emptied index _ fun _ => ⟨rfl, rfl⟩))).silent (.single (.recounted none _))

theorem shedIdleConnection_parts (s : Shard) : Parts (none, s) [] (none, s.shedIdleConnection) := by
  unfold shedIdleConnection
  split
  · exact .refl _
  · refine Trace.silent (Trace.silent (Arranged.parts ?_) (.single (.closed none _))) (.single (.recounted none _))
    refine ⟨by simp [aside, settled], nofun, fun i _ => ?_, .refl .refl _⟩
    dsimp only
    rw [List.getElem?_map]
    cases s.standbys[i]? with
    | none => exact .none
    | some x => exact .some (.inr ⟨rfl, rfl⟩)

theorem Call.parts (h : Call s told t) : Parts (none, s) told (none, t) := by
  cases h with
  | reissued reissue => exact Arranged.parts (.of_markets rfl id rfl rfl)
  | heard slot observedAt => exact Arranged.parts (s.updateActive_arranged slot (fun _ => rfl) fun _ => id)
  | readied slot connection heartbeatDeadline observedAt now => exact (s.onReady_arranged slot _ _ _ none).parts
  | resolved resolved times subscription => exact .single (.resolved (s.forwardResolution_resolved resolved times subscription))
  | lost continuity authority hordinary => exact .single (.lost none s continuity hordinary)
  | forgot index => exact (s.forget_arranged index none).parts
  | followed slot => exact Arranged.parts (s.updateSlot_arranged slot fun _ _ c hc => ⟨c, hc, rfl, id⟩)
  | pooled slot u reason established handover clock harmed hu =>
    refine ((s.takeActive_parts slot).silent ?_).after (u.onPoolSlotEnded_parts slot reason established handover clock)
    rcases hu with rfl | rfl
    · exact .refl _
    · exact .single (.lost _ _ _ nofun)
  | ended reason => exact (s.takeActive_parts .primary).silent (onConnectionEnded_parts _ reason)
  | promoted index connection ended established =>
    exact (s.takeActive_parts .primary).silent (promoteStandby_parts _ index connection ended established)
  | standbyEnded index =>
    exact (s.takeActive_parts (.standby index)).silent (.single (.emptied index _ fun _ => ⟨rfl, rfl⟩))
  | shed => exact s.shedIdleConnection_parts

end Shard

end PmWs
