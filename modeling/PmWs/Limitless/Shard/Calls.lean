import PmWs.Lib.Runs
import PmWs.Limitless.Shard.Commands

/-!
# What a step is made of

A step of a shard dials a connection, follows a command, hands a book frame on,
or is a few calls one after the other. Which calls those are is worked out here
once, so that what every step keeps need only be looked at call by call.
-/

open MachineInt Tables Runs

namespace PmWs

def ConnectionNote.isReady : ConnectionNote → Bool
  | ready .. => true
  | _ => false

/-- What every gate of a pool is told when a session ends, and when one moves to another socket. -/
inductive PoolCall where
  | retire (socket : Nat)
  | reassign (source target : Nat)
  deriving DecidableEq, Repr

namespace Shard

variable {s t u : Shard} {slot : Slot} {slug : String} {e e' : MarketEntry} {announced : Prop}

/-! ## Book frames -/

/-- The standby's connection is established and has the slug in its set. -/
def Standby.Serves (self : Standby) (slug : String) : Prop :=
  ∃ connection, self.slot.active = some connection ∧ connection.established = true ∧ slug ∈ connection.markets

/-- What a frame of one market does before it reaches the book. Its connection is taken to be ready where `announced`
holds. -/
inductive Mark (announced : Prop) (slug : String) (s : Shard) : Shard → Prop
  | placed (position shadowPosition : Nat) : Mark announced slug s { s with position, shadowPosition }
  | dropped (index : Nat) : Mark announced slug s (s.updateStandby index (·.dropShadow slug))
  | shadowed (index : Nat) (market : MarketRef) (candidate : Candidate)
      (served : announced → ∀ x, s.standbys[index]? = some x → Standby.Serves x slug)
      (ours : ∃ e, s.markets[slug]? = some e ∧ e.market = market) :
      Mark announced slug s (s.applyShadowCandidate index slug market candidate)
  | gated (e : MarketEntry) (gate : PoolGate) (found : s.markets[slug]? = some e) :
      Mark announced slug s { s with markets := s.markets.insert slug { e with gate := some gate } }
  | noted (socket : Nat) (reached : Bool) : Mark announced slug s (s.updateMarket slug (·.notePosition socket reached))

abbrev Marks (announced : Prop) (slug : String) : Shard → Shard → Prop := Relation.ReflTransGen (Mark announced slug)

/-- What a frame of one market does to the books. -/
inductive Reached (slot : Slot) (slug : String) (s : Shard) : Shard → Prop
  | kept : Reached slot slug s s
  | lost : Reached slot slug s (s.reportMarketLoss slug .localLoss .localLoss)
  | applied (candidate : Candidate) {settle : MarketEntry → MarketEntry} (settles : ∀ e : MarketEntry, e.Noted (settle e)) :
      Reached slot slug s (s.applyAuthoritative slot slug candidate settle)
  | withdrawn (reason : PoolDegradeReason) : Reached slot slug s (s.withdrawLicence reason)

/-- The frame of a role reaches the book: with a pool its session carries the market, and otherwise the market is
subscribed from it. -/
inductive Accepts (s : Shard) (slot : Slot) (slug : String) (e : MarketEntry) : Prop
  | pooled (licence : DedupKeyDeclaration × Nat) (armed : s.poolLicence = some licence)
      (carries : s.poolCarries slot slug e = true)
  | single (unarmed : s.poolLicence = none) (publishing : slot = .primary) (running : s.primary.active.isSome = true)
      (subscribed : e.subscribedFrom = s.primary.active.map (·.generation))

/-- What one book frame comes to. -/
inductive Frame (announced : Prop) (s : Shard) (slot : Slot) (slug : String) (t : Shard) : Prop
  | ignored (marks : Marks announced slug s t)
  | delivered (e : MarketEntry) (u : Shard) (found : s.markets[slug]? = some e) (accepts : Accepts s slot slug e)
      (marks : Marks announced slug s u) (reached : Reached slot slug u t)

theorem poolCarries_serves {index : Nat} (h : s.poolCarries (.standby index) slug e = true) {x : Standby}
    (hx : s.standbys[index]? = some x) : x.Serves slug := by
  obtain ⟨connection, hactive, hcarries⟩ := (Option.any_eq_true _ _).1 h
  simp only [Bool.and_eq_true] at hcarries
  refine ⟨connection, ?_, hcarries.1.1, by simpa using hcarries.2⟩
  simpa [active, Shard.slot, hx] using hactive

/-- A role's own shadow follows the frames its connection carries. -/
theorem shadowPooled_marks (hcarries : s.poolCarries slot slug e = true) {market : MarketRef}
    (hfound : s.markets[slug]? = some e') (hmarket : e'.market = market) (candidate : Candidate) :
    Marks announced slug s (s.shadowPooled slot slug market candidate) := by
  cases slot with
  | primary => exact .refl
  | standby index =>
    exact .single (.shadowed index market candidate (fun _ _ hx => poolCarries_serves hcarries hx) ⟨e', hfound, hmarket⟩)

theorem judgePooled_reached (he : s.markets[slug]? = some e) (hcarries : s.poolCarries slot slug e = true)
    (gate : PoolGate) (update : OrderbookUpdate) (candidate : Candidate) :
    ∃ u, Marks announced slug s u ∧ Reached slot slug u (s.judgePooled slot slug e gate update candidate) := by
  unfold judgePooled
  dsimp only
  generalize (gate.admitArrival slot.index update.arrivalKey (candidateProjection candidate)).1 = gate'
  have hgated : Marks announced slug s { s with markets := s.markets.insert slug { e with gate := some gate' } } :=
    .single (.gated e gate' he)
  have hfound : (s.markets.insert slug { e with gate := some gate' })[slug]? = some { e with gate := some gate' } :=
    (lookup_insert _ _ _ _).trans (if_pos rfl)
  have hnotedFound (reached : Bool) : ((s.markets.insert slug { e with gate := some gate' }).modify slug
      (·.notePosition slot.index reached))[slug]? = some ({ e with gate := some gate' }.notePosition slot.index reached) := by
    rw [lookup_modify, if_pos rfl, hfound]
    rfl
  -- neither the gate nor the position changes whose frames the market takes
  have hshadowed : Marks announced slug s (shadowPooled
      { s with markets := s.markets.insert slug { e with gate := some gate' } } slot slug e.market candidate) :=
    hgated.trans (shadowPooled_marks (e := e) (by exact hcarries) hfound (by rfl) candidate)
  have hnoted (reached : Bool) : Marks announced slug s ((updateMarket
      { s with markets := s.markets.insert slug { e with gate := some gate' } } slug
        (·.notePosition slot.index reached)).shadowPooled slot slug e.market candidate) :=
    (hgated.tail (.noted slot.index reached)).trans
      (shadowPooled_marks (e := e) (by exact hcarries) (hnotedFound reached) (by rfl) candidate)
  split
  · exact ⟨_, hshadowed, .applied candidate fun e => e.notePublished_noted _ _⟩
  · split
    · exact ⟨_, hshadowed, .applied candidate fun e => e.noteRecovered_noted _⟩
    · exact ⟨_, hnoted true, .kept⟩
  · exact ⟨_, hnoted false, .kept⟩
  · exact ⟨_, hgated, .withdrawn _⟩
  · exact ⟨_, hgated, .kept⟩

theorem applyPooled_frame {licence : DedupKeyDeclaration × Nat} (harmed : s.poolLicence = some licence) (slot : Slot)
    (update : OrderbookUpdate) (times : FrameTimes) (subscription : Nat) :
    Frame announced s slot update.marketSlug
      (s.applyPooled slot update times subscription licence.1 licence.2) := by
  unfold applyPooled
  dsimp only
  split
  · exact .ignored .refl
  · rename_i e he
    split
    · exact .ignored .refl
    · rename_i hout
      have hcarries : s.poolCarries slot update.marketSlug e = true := by simpa using hout
      have haccepts : Accepts s slot update.marketSlug e := .pooled licence harmed hcarries
      split
      · exact .delivered e s he haccepts .refl .lost
      · rename_i position _
        have hplaced : Marks announced update.marketSlug s { s with position } := .single (.placed position s.shadowPosition)
        split
        · exact .delivered e _ he haccepts hplaced .lost
        · split
          · exact .delivered e _ he haccepts hplaced (.withdrawn _)
          · obtain ⟨u, hmarks, hreached⟩ := judgePooled_reached (s := { s with position }) he hcarries _ update _
            exact .delivered e u he haccepts (hplaced.trans hmarks) hreached

theorem applyUpdate_frame (hunarmed : s.poolLicence = none) (update : OrderbookUpdate) (times : FrameTimes)
    (subscription : Nat) : Frame announced s .primary update.marketSlug (s.applyUpdate update times subscription) := by
  unfold applyUpdate
  dsimp only
  split
  · exact .ignored .refl
  · rename_i e he
    split
    · exact .ignored .refl
    · rename_i hrunning
      simp only [Option.isNone_map, not_or, not_not, Bool.not_eq_true, Option.isNone_eq_false_iff] at hrunning
      have haccepts : Accepts s .primary update.marketSlug e := .single hunarmed rfl hrunning.1 hrunning.2
      split
      · exact .delivered e s he haccepts .refl .lost
      · rename_i position _
        have hplaced : Marks announced update.marketSlug s { s with position } := .single (.placed position s.shadowPosition)
        split
        · exact .delivered e _ he haccepts hplaced .lost
        · exact .delivered e _ he haccepts hplaced (.applied _ .refl)

theorem applyShadowUpdate_marks {index : Nat} (update : OrderbookUpdate) (times : FrameTimes) (subscription : Nat)
    (hready : announced → ∀ c, s.active (.standby index) = some c → c.established = true) :
    Marks announced update.marketSlug s (s.applyShadowUpdate index update times subscription) := by
  unfold applyShadowUpdate
  dsimp only
  split
  · exact .refl
  · rename_i e he
    split
    · exact .refl
    · rename_i hcarries
      have hserves (ha : announced) (x : Standby) (hx : s.standbys[index]? = some x) : x.Serves update.marketSlug := by
        obtain ⟨connection, hactive, hmem⟩ := (Option.any_eq_true _ _).1 (by simpa using hcarries)
        refine ⟨connection, by simpa [active, Shard.slot, hx] using hactive, hready ha connection hactive, ?_⟩
        simpa using hmem
      split
      · exact .single (.dropped index)
      · rename_i position _
        have hplaced : Mark announced update.marketSlug s { s with shadowPosition := position } := .placed s.position position
        split
        · exact .tail (.single hplaced) (.dropped index)
        · exact .tail (.single hplaced) (.shadowed index _ _ hserves ⟨_, he, rfl⟩)

theorem onEvent_frame (s : Shard) (slot : Slot) (update : OrderbookUpdate) (times : FrameTimes) (subscription : Nat)
    (hready : announced → ∀ c, s.active slot = some c → c.established = true) :
    Frame announced s slot update.marketSlug (s.onEvent slot (.orderbookUpdate update) times subscription) := by
  unfold onEvent
  dsimp only
  split
  · rename_i hlicence
    exact applyPooled_frame hlicence slot update times subscription
  · rename_i hlicence
    split
    · exact applyUpdate_frame hlicence update times subscription
    · exact .ignored (applyShadowUpdate_marks update times subscription hready)

/-- Nothing but what the pool knows of the markets changed. -/
structure Marked (s t : Shard) : Prop extends Still s t where
  latch : t.railLossLatched = s.railLossLatched
  entries : Related MarketEntry.Noted s.markets t.markets

theorem Marked.refl (s : Shard) : Marked s s := ⟨.refl s, rfl, .refl .refl _⟩

theorem Marked.trans (h₁ : Marked s t) (h₂ : Marked t u) : Marked s u :=
  ⟨h₁.toStill.trans h₂.toStill, h₂.latch.trans h₁.latch, h₁.entries.trans .trans h₂.entries⟩

theorem Beside.marked (h : Beside s t) : Marked s t := ⟨.of_held h.held, h.latch, h.markets ▸ .refl .refl _⟩

theorem Mark.marked (h : Mark announced slug s t) : Marked s t := by
  cases h with
  | placed position shadowPosition => exact Beside.marked ⟨rfl, rfl, rfl, rfl⟩
  | dropped index => exact (s.updateStandby_beside index (·.dropShadow slug) fun _ => rfl).marked
  | shadowed index market candidate => exact (s.applyShadowCandidate_beside index slug market candidate).marked
  | gated e gate he => exact ⟨.of_held rfl, rfl, .insert .refl he (e.gate_noted _)⟩
  | noted socket reached => exact ⟨.of_held rfl, rfl, .modify .refl fun e _ => ⟨rfl, rfl, rfl, rfl, rfl, rfl, rfl⟩⟩

theorem Marks.marked (h : Marks announced slug s t) : Marked s t := by
  induction h with
  | refl => exact .refl s
  | tail _ hmark ih => exact ih.trans hmark.marked

theorem Mark.others (h : Mark announced slug s t) {k : String} (hk : k ≠ slug) : t.markets[k]? = s.markets[k]? := by
  cases h with
  | placed | dropped => rfl
  | shadowed index market candidate => rw [(s.applyShadowCandidate_beside index slug market candidate).markets]
  | gated e gate he => exact (lookup_insert _ _ _ _).trans (if_neg hk)
  | noted socket reached => exact (lookup_modify _ _ _ _).trans (if_neg hk)

/-- Marks change what the pool knows of their own market alone. -/
theorem Marks.touched (h : Marks announced slug s t) (he : s.markets[slug]? = some e) :
    ∃ e', Touched s t slug e e' ∧ e.Noted e' := by
  have hothers (k : String) (hk : k ≠ slug) : t.markets[k]? = s.markets[k]? := by
    induction h with
    | refl => rfl
    | tail _ hmark ih => exact (hmark.others hk).trans ih
  obtain ⟨e', he', hnoted⟩ := h.marked.entries.to_some he
  exact ⟨e', ⟨h.marked.toStill, he, he', hothers⟩, hnoted⟩

/-- The changes of a commit, up to its publication, reach one entry. -/
theorem commit_touched (he : s.markets[slug]? = some e) (slot : Slot) (applied : MarketEntry)
    (settle : MarketEntry → MarketEntry) :
    Touched s (({ s.mutateMarket slug e applied with railLossLatched := false }.updateActive slot fun c =>
      { c with producedBase := true }).updateMarket slug settle) slug e (settle applied) := by
  have hmutated : Touched s { s.mutateMarket slug e applied with railLossLatched := false } slug e applied :=
    .of_insert rfl rfl he
  have hbased := hmutated.trans ((updateActive_plain _ slot (fun c => { c with producedBase := true })
    fun _ => ⟨rfl, rfl, rfl, rfl⟩).touched (by cases slot <;> rfl) hmutated.stored)
  exact hbased.trans (updateMarket_touched hbased.stored settle)

theorem applyAuthoritative_spec (he : s.markets[slug]? = some e) (slot : Slot) (candidate : Candidate)
    (settle : MarketEntry → MarketEntry) :
    (s.applyAuthoritative slot slug candidate settle =
          (s.reportMarketLoss slug .localLoss .localLoss).refreshAgreement slug ∧
        ∃ lost, e.Plain lost ∧ Touched s (s.applyAuthoritative slot slug candidate settle) slug e lost ∧
          (s.applyAuthoritative slot slug candidate settle).railLossLatched = s.railLossLatched) ∨
      ∃ applied commit, e.applySnapshot candidate = some (applied, commit) ∧
        Touched s (s.applyAuthoritative slot slug candidate settle) slug e (settle applied) ∧
        (s.applyAuthoritative slot slug candidate settle).railLossLatched = false := by
  unfold applyAuthoritative
  rw [he]
  dsimp only
  cases happly : e.applySnapshot candidate with
  | none =>
    obtain ⟨lost, hlost, htouched, hlatch⟩ := reportMarketLoss_spec he .localLoss .localLoss
    have hrefreshed := refreshAgreement_beside (s.reportMarketLoss slug .localLoss .localLoss) slug
    exact
      .inl ⟨rfl, lost, hlost, htouched.trans (hrefreshed.touched htouched.stored), hrefreshed.latch.trans hlatch⟩
  | some result =>
    obtain ⟨applied, commit⟩ := result
    dsimp only
    have hsettled := commit_touched he slot applied settle
    have hbeside (u : Shard) : Beside u ((u.publishSegmentCommit slug commit).refreshAgreement slug) :=
      (u.publishSegmentCommit_beside slug commit).trans (refreshAgreement_beside _ slug)
    exact .inr ⟨applied, commit, rfl, hsettled.trans ((hbeside _).touched hsettled.stored),
      (hbeside _).latch.trans (by cases slot <;> rfl)⟩

/-! ## What the gates are told

Each definition follows the function it is named after, and keeps of it what is
said to the gates. -/

/-- `takePublishingSlot` moves the history of the chosen socket to the publishing one. -/
def takePublishingSlotCalls (self : Shard) (look : Look) : List PoolCall :=
  match self.chosenStandby look with
  | none => []
  | some index =>
    match self.active (.standby index) with
    | none => []
    | some _ => [.reassign (index + 1) 0]

/-- `onPoolSlotEnded` retires the socket of an established session, and may hand the publishing role over. -/
def onPoolSlotEndedCalls (self : Shard) (slot : Slot) (reason : ConnectionEndReason) (established handover : Bool)
    (clock : Clock) : List PoolCall :=
  let retired := if established then self.retirePoolSocket slot else self
  (if established then [.retire slot.index] else []) ++
    match slot with
    | .primary =>
      if handover then
        (retired.reportLostPoolCoverage slot reason (clock .survivors)).leavePublishing.takePublishingSlotCalls
          (clock .publishing)
      else []
    | .standby _ => []

def onSlotEndedCalls (self : Shard) (slot : Slot) (reason : ConnectionEndReason) (established : Bool) (clock : Clock) :
    List PoolCall :=
  if self.poolArmed then
    (if established ∧ reason = .noticeUndeliverable then self.reportShardLoss .localLoss .overload else self)
      |>.onPoolSlotEndedCalls slot reason established true clock
  else []

def closeSlotCalls (self : Shard) (slot : Slot) (connection : ActiveConnection) (reason : ConnectionEndReason)
    (clock : Clock) : List PoolCall :=
  (self.takeActive slot).onSlotEndedCalls slot reason connection.established clock

def reconcileSlotCalls (self : Shard) (slot : Slot) (clock : Clock) : List PoolCall :=
  match self.slot slot with
  | none => []
  | some state =>
    if self.desiredVersion = state.wireVersion ∨ state.dialledVersion.isSome then []
    else
      match state.active with
      | none => []
      | some connection =>
        if !connection.established then []
        else if self.unchanged connection then []
        else if self.poolArmed then
          (self.takeActive slot).onPoolSlotEndedCalls slot .subscriptionReplaced true false clock
        else []

def escalateReissueCalls (self : Shard) (clock : Clock) : List PoolCall :=
  match self.primary.active with
  | none => []
  | some connection => self.closeSlotCalls .primary connection .resubscribeTimedOut clock

def onReissueDueCalls (self : Shard) (look : Look) (clock : Clock) : List PoolCall :=
  let armed := self.armReissue look.now
  if armed.reissue.wakeAt.any (· ≤ look.now) then
    match armed.reissue with
    | .requested _ => armed.escalateReissueCalls clock
    | .awaiting _ => if 0 < armed.recovering then armed.escalateReissueCalls clock else []
    | .pending _ | .idle | .unreachable => []
  else []

def fenceIfExpiredCalls (self : Shard) (slot : Slot) (look : Look) (clock : Clock) : List PoolCall :=
  match self.active slot with
  | some connection =>
    if self.expired slot look then self.closeSlotCalls slot connection .heartbeatTimeout clock else []
  | none => []

/-- Everything one step tells the gates of the pool, in order. -/
def poolCalls (self : Shard) : ShardEvent → List PoolCall
  | .reconcile slot clock => self.reconcileSlotCalls slot clock
  | .reissueDue look _ _ clock => self.onReissueDueCalls look clock
  | .expire slot look clock => self.fenceIfExpiredCalls slot look clock
  | .ended slot reason clock =>
    match self.active slot with
    | some connection => self.closeSlotCalls slot connection reason clock
    | none => []
  | .shed | .spawn _ | .armReissue _ | .notice _ _ _ | .addMarkets _ | .removeMarkets _ => []

/-! ## Calls -/

/-- One call of a step. A loss hidden by a full queue is reported before the pool's session ends. -/
inductive Call (s : Shard) : List PoolCall → Shard → Prop
  | reissued (reissue : Reissue) : Call s [] { s with reissue }
  | heard (slot : Slot) (observedAt : Nat) :
      Call s [] (s.updateActive slot fun c => { c with lastHeartbeat := some observedAt })
  | readied (slot : Slot) (connection : ActiveConnection) (heartbeatDeadline observedAt now : Nat)
      (runs : s.active slot = some connection) : Call s [] (s.onReady slot heartbeatDeadline observedAt now)
  | resolved (resolved : MarketResolved) (times : FrameTimes) (subscription : Nat) :
      Call s [] (s.forwardResolution resolved times subscription)
  | lost (continuity : ContinuityReason) (authority : AuthorityReason) (ordinary : authority ≠ .recoveryBaseUnavailable) :
      Call s [] (s.reportShardLoss continuity authority)
  | forgot (index : Nat) : Call s [] (s.updateStandby index (·.clear))
  | followed (slot : Slot) (state : ConnectionSlot) (connection : ActiveConnection) (role : s.slot slot = some state)
      (runs : state.active = some connection) (established : connection.established = true)
      (unchanged : s.unchanged connection = true) :
      Call s [] (s.updateSlot slot fun state => { state with wireVersion := s.desiredVersion })
  | pooled (slot : Slot) (u : Shard) (reason : ConnectionEndReason) (established handover : Bool) (clock : Clock)
      (armed : s.poolArmed = true)
      (taken : u = s.takeActive slot ∨ u = (s.takeActive slot).reportShardLoss .localLoss .overload) :
      Call s (u.onPoolSlotEndedCalls slot reason established handover clock)
        (u.onPoolSlotEnded slot reason established handover clock)
  | ended (reason : ConnectionEndReason) : Call s [] ((s.takeActive .primary).onConnectionEnded reason)
  | promoted (index : Nat) (connection : ActiveConnection) (ended : ConnectionEndReason) (established : Bool)
      (unarmed : s.poolArmed = false) (runs : s.active (.standby index) = some connection) :
      Call s [] ((s.takeActive .primary).promoteStandby index connection ended established)
  | standbyEnded (index : Nat) (unarmed : s.poolArmed = false) :
      Call s [] ((s.takeActive (.standby index)).onStandbyEnded index)
  | shed (unwanted : s.desiredCount = 0) : Call s [] s.shedIdleConnection

/-- What is reported between taking a pool's session out and ending it is plain. -/
theorem taken_plain (h : u = s.takeActive slot ∨ u = (s.takeActive slot).reportShardLoss .localLoss .overload) :
    Plain (s.takeActive slot) u := by
  rcases h with rfl | rfl
  · exact .refl _
  · exact reportShardLoss_plain _ _ _

/-- A few calls, and all the gates of the pool were told. -/
abbrev Calls (s : Shard) (told : List PoolCall) (t : Shard) : Prop := Trace Call s told t

theorem takeActive_poolArmed (s : Shard) (slot : Slot) : (s.takeActive slot).poolArmed = s.poolArmed := by
  cases slot <;> rfl

theorem onPrimaryEnded_calls (hunarmed : s.poolArmed = false) (reason : ConnectionEndReason) (established : Bool)
    (clock : Clock) : Calls s [] ((s.takeActive .primary).onPrimaryEnded reason established clock) := by
  unfold onPrimaryEnded
  split
  · exact .single (.ended reason)
  · split
    · exact .single (.ended reason)
    · rename_i hactive
      exact .single (.promoted _ _ reason established hunarmed hactive)

theorem closeSlot_calls (s : Shard) (slot : Slot) (connection : ActiveConnection) (reason : ConnectionEndReason)
    (clock : Clock) :
    Calls s (s.closeSlotCalls slot connection reason clock) (s.closeSlot slot connection reason clock) := by
  unfold closeSlot onSlotEnded closeSlotCalls onSlotEndedCalls
  by_cases harmed : (s.takeActive slot).poolArmed = true
  · rw [if_pos harmed, if_pos harmed]
    refine .single (.pooled slot _ reason _ true clock (s.takeActive_poolArmed slot ▸ harmed) ?_)
    split
    · exact .inr rfl
    · exact .inl rfl
  · rw [if_neg harmed, if_neg harmed]
    rw [takeActive_poolArmed, Bool.not_eq_true] at harmed
    cases slot with
    | primary => exact onPrimaryEnded_calls harmed reason _ clock
    | standby index => exact .single (.standbyEnded index harmed)

theorem reconcileSlot_calls (s : Shard) (slot : Slot) (clock : Clock) :
    Calls s (s.reconcileSlotCalls slot clock) (s.reconcileSlot slot clock) := by
  unfold reconcileSlot reconcileSlotCalls
  cases hstate : s.slot slot with
  | none => exact .refl s
  | some state =>
    dsimp only
    by_cases hfollowed : s.desiredVersion = state.wireVersion ∨ state.dialledVersion.isSome
    · rw [if_pos hfollowed, if_pos hfollowed]
      exact .refl s
    · rw [if_neg hfollowed, if_neg hfollowed]
      cases hruns : state.active with
      | none => exact .refl s
      | some connection =>
        dsimp only
        split_ifs with hdialling hunchanged harmed
        · exact .refl s
        · exact .single (.followed slot state connection hstate hruns (by simpa using hdialling) hunchanged)
        · exact .single (.pooled slot _ .subscriptionReplaced true false clock harmed (.inl rfl))
        · cases slot with
          | primary => exact .single (.ended _)
          | standby index => exact .single (.standbyEnded index (by simpa using harmed))

theorem escalateReissue_calls (s : Shard) (clock : Clock) :
    Calls s (s.escalateReissueCalls clock) (s.escalateReissue clock) := by
  unfold escalateReissue escalateReissueCalls
  cases s.primary.active with
  | none => exact .single (.reissued .idle)
  | some connection => exact s.closeSlot_calls .primary connection _ clock

theorem onReissueDue_calls (s : Shard) (look : Look) (grantedAt : Nat) (closed : Bool) (clock : Clock) :
    Calls s (s.onReissueDueCalls look clock) (s.onReissueDue look grantedAt closed clock) := by
  have harmed : Calls s [] (s.armReissue look.now) := .single (.reissued _)
  unfold onReissueDue onReissueDueCalls
  dsimp only
  refine harmed.after ?_
  generalize s.armReissue look.now = armed
  by_cases hdue : armed.reissue.wakeAt.any (· ≤ look.now)
  · rw [if_pos hdue, if_pos hdue]
    cases armed.reissue with
    | pending due => exact .single (.reissued _)
    | requested due => exact armed.escalateReissue_calls clock
    | awaiting due =>
      dsimp only
      split_ifs
      · exact armed.escalateReissue_calls clock
      · exact .single (.reissued _)
    | idle | unreachable => exact .refl armed
  · rw [if_neg hdue, if_neg hdue]
    exact .refl armed

theorem fenceIfExpired_calls (s : Shard) (slot : Slot) (look : Look) (clock : Clock) :
    Calls s (s.fenceIfExpiredCalls slot look clock) (s.fenceIfExpired slot look clock) := by
  unfold fenceIfExpired fenceIfExpiredCalls
  cases s.active slot with
  | none => exact .refl s
  | some connection =>
    dsimp only
    split_ifs
    · exact s.closeSlot_calls slot connection _ clock
    · exact .refl s

theorem reportRailLoss_calls (s : Shard) (slot : Slot) (continuity : ContinuityReason) {authority : AuthorityReason}
    (hordinary : authority ≠ .recoveryBaseUnavailable) : Calls s [] (s.reportRailLoss slot continuity authority) := by
  unfold reportRailLoss
  split
  · exact .single (.lost continuity authority hordinary)
  · refine Trace.silent ?_ (.single (.forgot _))
    split
    · exact .single (.lost continuity authority hordinary)
    · exact .refl s

/-! ## Steps -/

/-- A connection announces that it is ready before anything it reads. -/
def Announced (s : Shard) : ShardEvent → Bool
  | .notice generation note _ =>
    note.isReady || s.slots.all fun slot => (s.active slot).all fun c => c.generation ≠ generation || c.established
  | _ => true

theorem Announced.established {generation : Nat} {note : ConnectionNote} {look : Look} {connection : ActiveConnection}
    (h : s.Announced (.notice generation note look) = true) (hmark : note.isReady = false)
    (hslot : slot ∈ s.slots) (hactive : s.active slot = some connection) (hgeneration : connection.generation = generation) :
    connection.established = true := by
  simp only [Announced, hmark, Bool.false_or, List.all_eq_true] at h
  simpa [hactive, hgeneration] using h slot hslot

theorem slotOf_active {generation : Nat} (h : s.slotOf generation = some slot) :
    ∃ connection, s.active slot = some connection ∧ connection.generation = generation := by
  have hfound := List.find?_some h
  obtain ⟨connection, hc, hg⟩ := (Option.any_eq_true _ _).1 hfound
  exact ⟨connection, hc, by simpa using hg⟩

/-- What one step comes to. -/
inductive Taken (s : Shard) (event : ShardEvent) (t : Shard) : Prop
  | spawned (slot : Slot) (dials : event = .spawn slot) (result : t = s.spawnSlot slot)
  | added (slugs : List String) (commands : event = .addMarkets slugs) (result : t = (s.addMarkets slugs).1)
  | removed (slugs : List String) (commands : event = .removeMarkets slugs) (result : t = (s.removeMarkets slugs).1)
  | called (calls : Calls s (s.poolCalls event) t)
  | read (generation : Nat) (update : OrderbookUpdate) (times : FrameTimes) (subscription : Nat) (look : Look) (slot : Slot)
      (notice : event = .notice generation (.event (.orderbookUpdate update) times subscription) look)
      (frame : Frame (s.Announced event = true) s slot update.marketSlug t)

theorem onNotice_taken (s : Shard) (generation : Nat) (note : ConnectionNote) (look : Look) :
    Taken s (.notice generation note look) (s.onNotice generation note look) := by
  unfold onNotice
  split
  · exact .called (.refl s)
  · rename_i slot hslot
    obtain ⟨connection, hactive, hgeneration⟩ := slotOf_active hslot
    cases note with
    | ready heartbeatDeadline subscription observedAt =>
      exact .called (.single (.readied slot connection heartbeatDeadline observedAt look.now hactive))
    | heartbeat observedAt => exact .called (.single (.heard slot observedAt))
    | resubscribed subscription =>
      refine .called ?_
      dsimp only
      unfold onResubscribed
      split
      · exact .single (.reissued _)
      · exact .refl s
    | event event times subscription =>
      cases event with
      | orderbookUpdate update =>
        refine .read generation update times subscription look slot rfl
          (s.onEvent_frame slot update times subscription fun hannounced c hc => ?_)
        obtain rfl := Option.some.inj (hactive.symm.trans hc)
        exact Announced.established hannounced rfl (List.mem_of_find?_eq_some hslot) hactive hgeneration
      | marketResolved resolved =>
        cases slot with
        | primary => exact .called (.single (.resolved resolved times subscription))
        | standby index => exact .called (.refl s)
      | unknown name => exact .called (.refl s)
    | decodeFailure bookRelevant =>
      refine .called ?_
      dsimp only
      split
      · exact s.reportRailLoss_calls slot _ nofun
      · exact .refl s
    | overload dropped => exact .called (s.reportRailLoss_calls slot _ nofun)

theorem step_taken {event : ShardEvent} (h : s.step event = some t) : Taken s event t := by
  cases event with
  | shed =>
    obtain rfl := Option.some.inj h
    by_cases hcount : 0 < s.desiredCount
    · rw [shedIdleConnection, if_pos hcount]
      exact .called (.refl s)
    · exact .called (.single (.shed (by omega)))
  | reconcile slot clock => exact Option.some.inj h ▸ .called (s.reconcileSlot_calls slot clock)
  | spawn slot => exact .spawned slot rfl (Option.some.inj h).symm
  | armReissue now => exact Option.some.inj h ▸ .called (.single (.reissued _))
  | notice generation note look => exact Option.some.inj h ▸ s.onNotice_taken generation note look
  | reissueDue look grantedAt closed clock =>
    exact Option.some.inj h ▸ .called (s.onReissueDue_calls look grantedAt closed clock)
  | expire slot look clock => exact Option.some.inj h ▸ .called (s.fenceIfExpired_calls slot look clock)
  | ended slot reason clock =>
    obtain ⟨connection, hactive, rfl⟩ := Option.map_eq_some_iff.1 h
    refine .called ?_
    simp only [poolCalls, hactive]
    exact s.closeSlot_calls slot connection reason clock
  | addMarkets slugs => exact .added slugs rfl (Option.some.inj h).symm
  | removeMarkets slugs => exact .removed slugs rfl (Option.some.inj h).symm

end Shard

end PmWs
