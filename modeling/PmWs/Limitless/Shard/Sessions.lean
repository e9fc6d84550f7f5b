import PmWs.Limitless.Shard.Calm
import PmWs.Limitless.Shard.Wiring

/-!
# The shard refines its wiring

What each function of a shard does to the sessions and to the members of its
set, as a move of the abstract machine.
-/

open MachineInt Tables Runs

namespace PmWs

def Shard.ActiveConnection.session (self : Shard.ActiveConnection) : Wiring.Session :=
  ⟨self.generation, self.markets, self.dialledSetVersion, self.established⟩

def ConnectionSlot.line (self : ConnectionSlot) : Wiring.Line :=
  ⟨self.active.map (·.session), self.dialledVersion, self.wireVersion⟩

def MarketEntry.member (self : MarketEntry) : Wiring.Member :=
  ⟨self.desired, self.subscribedFrom, self.installedVersion⟩

theorem MarketEntry.Noted.member {e e' : MarketEntry} (h : e.Noted e') : e'.member = e.member := by
  simp only [MarketEntry.member, h.desired, h.subscribedFrom, h.installedVersion]

namespace Shard

def wiring (self : Shard) : Wiring where
  lines slot := (self.slot slot).map (·.line)
  members slug := self.markets[slug]?.map (·.member)
  wanted := self.desiredSlugs
  version := self.desiredVersion
  next := self.nextGeneration

variable {s t u : Shard} {slot : Slot} {slug : String}

/-! ## The same wiring -/

theorem mem_desiredSlugs : slug ∈ s.desiredSlugs ↔ s.wants slug = true := mem_keysIn

theorem desiredSlugs_congr (h : ∀ slug, t.wants slug = s.wants slug) : t.desiredSlugs = s.desiredSlugs :=
  keysIn_congr h

theorem wants_eq (s : Shard) (slug : String) : s.wants slug = (s.wiring.members slug).any (·.desired) := by
  simp only [wants, wiring]
  cases s.markets[slug]? <;> rfl

theorem active_session (s : Shard) (slot : Slot) :
    (s.active slot).map (·.session) = (s.wiring.lines slot).bind (·.session) := by
  simp only [active, wiring]
  cases s.slot slot <;> rfl

/-- The list of wanted markets goes by the members alone. -/
theorem wiring_ext (hlines : ∀ slot, t.wiring.lines slot = s.wiring.lines slot)
    (hmembers : ∀ slug, t.wiring.members slug = s.wiring.members slug) (hversion : t.desiredVersion = s.desiredVersion)
    (hnext : t.nextGeneration = s.nextGeneration) : t.wiring = s.wiring := by
  have hwanted : t.desiredSlugs = s.desiredSlugs :=
    desiredSlugs_congr fun slug => by rw [wants_eq, wants_eq, hmembers]
  have h₁ := funext hlines
  have h₂ := funext hmembers
  unfold wiring at h₁ h₂ ⊢
  simp only [Wiring.mk.injEq]
  exact ⟨h₁, h₂, hwanted, hversion, hnext⟩

theorem SameSlot.line {x x' : ConnectionSlot} (h : SameSlot x x') : x'.line = x.line := by
  have hactive := h.active
  unfold ConnectionSlot.line
  rw [h.dialledVersion, h.wireVersion]
  congr 1
  revert hactive
  cases x.active <;> cases x'.active <;> simp
  intro hsame
  simp [ActiveConnection.session, hsame.generation, hsame.markets, hsame.dialledSetVersion, hsame.established]

/-- The same lines and the same members. -/
theorem Still.wiring (h : Still s t) (hmembers : Related (fun e e' => e'.member = e.member) s.markets t.markets) :
    t.wiring = s.wiring := by
  refine wiring_ext (fun slot => ?_) (fun slug => ?_) h.version h.nextGeneration
  · have hslot := h.slots slot
    simp only [Shard.wiring]
    revert hslot
    cases s.slot slot <;> cases t.slot slot <;> simp
    exact SameSlot.line
  · have hentry := hmembers slug
    simp only [Shard.wiring]
    revert hentry
    cases s.markets[slug]? <;> cases t.markets[slug]? <;> simp

theorem Plain.wiring (h : Plain s t) : t.wiring = s.wiring :=
  h.toStill.wiring (h.entries.mono fun hp => by
    simp only [MarketEntry.member, hp.desired, hp.subscribedFrom, hp.installedVersion])

theorem Beside.wiring (h : Beside s t) : t.wiring = s.wiring := h.plain.wiring

/-! ## Lines -/

theorem slot_updateSlot (s : Shard) (slot x : Slot) (f : ConnectionSlot → ConnectionSlot) :
    (s.updateSlot slot f).slot x = if x = slot then (s.slot x).map f else s.slot x := by
  cases slot with
  | primary => cases x <;> simp [updateSlot, Shard.slot]
  | standby index =>
    cases x with
    | primary => simp [updateSlot, Shard.slot]
    | standby i =>
      by_cases heq : i = index
      · subst heq
        cases hi : s.standbys[i]? <;> simp [updateSlot, Shard.slot, hi]
      · simp [updateSlot, Shard.slot, heq, Ne.symm heq]

theorem slot_updateStandby (s : Shard) (index : Nat) (x : Slot) (f : Standby → Standby) :
    (s.updateStandby index f).slot x =
      if x = .standby index then s.standbys[index]?.map fun y => (f y).slot else s.slot x := by
  cases x with
  | primary => simp [updateStandby, Shard.slot]
  | standby i =>
    by_cases heq : i = index
    · subst heq
      cases hi : s.standbys[i]? <;> simp [updateStandby, Shard.slot, hi]
    · simp [updateStandby, Shard.slot, heq, Ne.symm heq]

/-- A change of the lines alone. -/
theorem wiring_of_lines {lines : Slot → Option Wiring.Line} (hlines : ∀ slot, (t.slot slot).map (·.line) = lines slot)
    (hmarkets : t.markets = s.markets) (hversion : t.desiredVersion = s.desiredVersion)
    (hnext : t.nextGeneration = s.nextGeneration) : t.wiring = { s.wiring with lines } := by
  simp only [wiring, desiredSlugs, hmarkets, hversion, hnext, Wiring.mk.injEq, and_self, and_true]
  exact funext hlines

theorem updateSlot_wiring {f : ConnectionSlot → ConnectionSlot} {g : Wiring.Line → Wiring.Line}
    (hf : ∀ x, (f x).line = g x.line) : (s.updateSlot slot f).wiring = s.wiring.update slot g := by
  refine wiring_of_lines (fun x => ?_) (by cases slot <;> rfl) (by cases slot <;> rfl) (by cases slot <;> rfl)
  rw [slot_updateSlot]
  split
  · simp only [Option.map_map, Shard.wiring]
    exact congrArg (Option.map · (s.slot x)) (funext hf)
  · rfl

theorem updateStandby_wiring {index : Nat} {f : Standby → Standby} {g : Wiring.Line → Wiring.Line}
    (hf : ∀ x, (f x).slot.line = g x.slot.line) :
    (s.updateStandby index f).wiring = s.wiring.update (.standby index) g := by
  refine wiring_of_lines (fun x => ?_) rfl rfl rfl
  rw [slot_updateStandby]
  split
  · rename_i heq
    subst heq
    cases hi : s.standbys[index]? <;> simp [wiring, Shard.slot, hi, hf]
  · rfl

theorem takeActive_wiring (s : Shard) (slot : Slot) :
    (s.takeActive slot).wiring = s.wiring.update slot fun line => { line with session := none } :=
  updateSlot_wiring fun _ => rfl

/-! ## Members -/

/-- A change of the markets that keeps which of them are wanted. -/
theorem wiring_of_members {members : String → Option Wiring.Member}
    (hmembers : ∀ slug, t.markets[slug]?.map (·.member) = members slug)
    (hwants : ∀ slug, t.wants slug = s.wants slug) (hslots : ∀ slot, t.slot slot = s.slot slot)
    (hversion : t.desiredVersion = s.desiredVersion) (hnext : t.nextGeneration = s.nextGeneration) :
    t.wiring = { s.wiring with members } := by
  simp only [wiring, desiredSlugs_congr hwants, hslots, hversion, hnext, Wiring.mk.injEq, and_self, and_true, true_and]
  exact funext hmembers

theorem close_slot (s : Shard) (slug : String) (slot : Slot) : (s.close slug).slot slot = s.slot slot := by
  unfold Shard.close
  split
  · rfl
  · apply slot_congr
    · rfl
    · simp [Standby.dropShadow, Function.comp_def]

theorem closeAll_slot (slugs : List String) (s : Shard) (slot : Slot) :
    (slugs.foldl close s).slot slot = s.slot slot := by
  induction slugs generalizing s with
  | nil => rfl
  | cons slug rest ih => rw [List.foldl_cons, ih, close_slot]

theorem closeAll_markets (slugs : List String) (s : Shard) (k : String) :
    (slugs.foldl close s).markets[k]? = if k ∈ slugs then none else s.markets[k]? := by
  induction slugs generalizing s with
  | nil => simp
  | cons slug rest ih =>
    rw [List.foldl_cons, ih, close_markets]
    by_cases heq : k = slug <;> simp [heq]

/-- What closing the markets no longer wanted leaves. -/
theorem closeRemoved_markets (s : Shard) (k : String) : s.closeRemoved.markets[k]? = s.markets[k]?.filter (·.desired) := by
  unfold closeRemoved
  rw [closeAll_markets]
  cases he : s.markets[k]? with
  | none => simp
  | some e =>
    have hmem : k ∈ s.removedSlugs ↔ e.desired = false := by simp [mem_removedSlugs, he]
    cases hd : e.desired <;> simp only [hmem, hd, Option.filter_some] <;> simp

theorem closeRemoved_slot (s : Shard) (slot : Slot) : s.closeRemoved.slot slot = s.slot slot := closeAll_slot _ _ _

theorem close_counters (s : Shard) (slug : String) :
    (s.close slug).desiredVersion = s.desiredVersion ∧ (s.close slug).nextGeneration = s.nextGeneration := by
  unfold Shard.close
  split <;> exact ⟨rfl, rfl⟩

theorem closeRemoved_counters (s : Shard) :
    s.closeRemoved.desiredVersion = s.desiredVersion ∧ s.closeRemoved.nextGeneration = s.nextGeneration := by
  unfold closeRemoved
  generalize s.removedSlugs = slugs
  induction slugs generalizing s with
  | nil => exact ⟨rfl, rfl⟩
  | cons slug rest ih =>
    obtain ⟨hversion, hnext⟩ := ih (s.close slug)
    obtain ⟨hversion', hnext'⟩ := s.close_counters slug
    exact ⟨hversion.trans hversion', hnext.trans hnext'⟩

theorem closeRemoved_wiring (s : Shard) : s.closeRemoved.wiring = s.wiring.sweep := by
  refine wiring_of_members (fun slug => ?_) (s.closeRemoved_spec).2.wants s.closeRemoved_slot s.closeRemoved_counters.1
    s.closeRemoved_counters.2
  rw [closeRemoved_markets]
  simp only [wiring]
  cases s.markets[slug]? with
  | none => rfl
  | some e => cases hd : e.desired <;> simp [hd, MarketEntry.member, Option.filter_some]

/-- A pass that keeps which markets are wanted. -/
theorem visitMarkets_wiring {visit : String → MarketEntry → Visit} {g : String → Wiring.Member → Wiring.Member}
    (hg : ∀ slug member, (g slug member).desired = member.desired)
    (hvisit : ∀ slug e, (visit slug e).entry.member = g slug e.member) :
    (s.visitMarkets visit).wiring = s.wiring.mapMembers g := by
  have hmembers (slug : String) : (s.visitMarkets visit).markets[slug]?.map (·.member) =
      (s.wiring.members slug).map (g slug) := by
    simp only [visitMarkets, lookup_map, wiring, Option.map_map]
    exact congrArg (Option.map · s.markets[slug]?) (funext (hvisit slug))
  refine wiring_of_members hmembers (fun slug => ?_) (fun slot => ?_) rfl rfl
  · rw [wants_eq, wants_eq]
    show (((s.visitMarkets visit).markets[slug]?).map (·.member)).any _ = _
    rw [hmembers]
    cases s.wiring.members slug <;> simp [hg]
  · apply slot_congr
    · rfl
    · simp [visitMarkets, Function.comp_def]

theorem member_subscribe (connection : ActiveConnection) (subscription : MarketEntry → SubscriptionState)
    (slug : String) (e : MarketEntry) (hslug : slug ∈ connection.markets) :
    (subscribe connection subscription e).member =
      if connection.session.claims slug e.member then { e.member with source := some connection.generation }
      else e.member := by
  have hclaims : connection.session.claims slug e.member = e.claimedBy connection.dialledSetVersion := by
    show (connection.markets.contains slug && decide (e.installedVersion ≤ connection.dialledSetVersion)) = _
    rw [List.contains_iff_mem.2 hslug, Bool.true_and]
    rfl
  rw [hclaims]
  unfold subscribe
  split <;> rfl

/-- Subscribing a market twice is subscribing it once. -/
theorem carryAll_markets (connection : ActiveConnection) (subscription : MarketEntry → SubscriptionState)
    (slugs : List String) (hslugs : ∀ slug ∈ slugs, slug ∈ connection.markets) (s : Shard) (k : String) :
    ((slugs.foldl (fun s slug => s.updateMarket slug (subscribe connection subscription)) s).markets[k]?).map (·.member) =
      if k ∈ slugs then ((s.markets[k]?).map (·.member)).map fun m =>
        if connection.session.claims k m then { m with source := some connection.generation } else m
      else (s.markets[k]?).map (·.member) := by
  induction slugs generalizing s with
  | nil => simp
  | cons slug rest ih =>
    rw [List.foldl_cons, ih fun x hx => hslugs x (List.mem_cons_of_mem _ hx)]
    simp only [updateMarket, lookup_modify]
    by_cases heq : k = slug
    · subst heq
      have hk := hslugs k List.mem_cons_self
      cases s.markets[k]? with
      | none => simp
      | some e =>
        simp only [if_true, Option.map_some, member_subscribe connection subscription k e hk, List.mem_cons, true_or]
        split
        · by_cases hclaims : connection.session.claims k e.member = true
          · simp only [hclaims, if_true]
            have hagain : connection.session.claims k { e.member with source := some connection.generation } = true := hclaims
            simp [hagain]
          · simp [hclaims]
        · rfl
    · simp [heq]

/-- Carrying a set changes the markets alone. -/
theorem carry_eq (s : Shard) (connection : ActiveConnection) (subscription : MarketEntry → SubscriptionState) :
    ∃ markets, s.carry connection subscription = { s with markets } := by
  unfold carry
  generalize connection.markets = slugs
  induction slugs generalizing s with
  | nil => exact ⟨s.markets, rfl⟩
  | cons slug rest ih =>
    obtain ⟨markets, heq⟩ := ih (s.updateMarket slug (subscribe connection subscription))
    exact ⟨markets, heq⟩

theorem carry_members (s : Shard) (connection : ActiveConnection) (subscription : MarketEntry → SubscriptionState)
    (k : String) : ((s.carry connection subscription).markets[k]?).map (·.member) =
      (s.wiring.carry connection.session).members k := by
  refine (carryAll_markets connection subscription connection.markets (fun _ h => h) s k).trans ?_
  simp only [Wiring.carry, Wiring.mapMembers_members, wiring]
  split
  · rfl
  · rename_i hout
    have hclaims (m : Wiring.Member) : connection.session.claims k m = false := by
      simp [Wiring.Session.claims, ActiveConnection.session, hout]
    cases s.markets[k]? <;> simp [hclaims]

theorem carry_wiring (s : Shard) (connection : ActiveConnection) (subscription : MarketEntry → SubscriptionState) :
    (s.carry connection subscription).wiring = s.wiring.carry connection.session := by
  obtain ⟨markets, heq⟩ := s.carry_eq connection subscription
  have hmembers := s.carry_members connection subscription
  refine wiring_of_members hmembers (fun slug => ?_) (fun slot => by rw [heq]; rfl) (by rw [heq]) (by rw [heq])
  rw [wants_eq, wants_eq]
  show (((s.carry connection subscription).markets[slug]?).map (·.member)).any _ = _
  rw [hmembers]
  simp only [Wiring.carry, Wiring.mapMembers_members]
  cases s.wiring.members slug with
  | none => rfl
  | some m => simp only [Option.map_some, Option.any_some]; split <;> rfl

theorem carryDialled_wiring (s : Shard) (connection : ActiveConnection) (slot : Slot) :
    (s.carryDialled connection slot).wiring = s.wiring.carryOn connection.session slot := by
  cases slot with
  | primary => exact s.carry_wiring connection _
  | standby index => rfl

/-! ## Dialling -/

theorem updateMarkets_wiring {f : String → MarketEntry → MarketEntry} (hf : ∀ slug e, (f slug e).member = e.member) :
    (s.updateMarkets f).wiring = s.wiring := by
  have hmembers (slug : String) : (s.updateMarkets f).markets[slug]?.map (·.member) = s.markets[slug]?.map (·.member) := by
    simp only [updateMarkets, lookup_map, Option.map_map]
    exact congrArg (Option.map · s.markets[slug]?) (funext (hf slug))
  exact wiring_ext (fun _ => rfl) hmembers rfl rfl

theorem spawnSlot_dial (s : Shard) (slot : Slot) :
    s.spawnSlot slot = s ∨ s.wiring.Dial slot (s.spawnSlot slot).wiring := by
  unfold spawnSlot
  dsimp only
  split
  · exact .inl rfl
  · rename_i hspawn
    refine .inr ?_
    obtain ⟨state, hstate⟩ : ∃ state, s.slot slot = some state := by
      cases h : s.slot slot with
      | none => simp [h] at hspawn
      | some state => exact ⟨state, rfl⟩
    have hfree : state.active = none := by
      cases h : state.active with
      | none => rfl
      | some c => simp [hstate, h] at hspawn
    have hdialled : (s.markDialled slot).wiring = s.wiring := by
      cases slot with
      | primary => exact updateMarkets_wiring fun _ _ => rfl
      | standby index => rfl
    rw [updateSlot_wiring (g := fun line =>
      { line with
        session := some ⟨s.nextGeneration, s.desiredSlugs, s.desiredVersion, false⟩
        dialling := some s.desiredVersion }) fun _ => rfl]
    show s.wiring.Dial slot ({ (s.markDialled slot).wiring with next := saturatingAdd s.nextGeneration 1 }.update _ _)
    rw [hdialled]
    exact .dial state.line (by simp [wiring, hstate]) (by simp [ConnectionSlot.line, hfree])

/-- The connection in a role is established from now on. -/
theorem establish_wiring {f : ActiveConnection → ActiveConnection}
    (hf : ∀ c : ActiveConnection, (f c).session = c.session.ready) :
    (s.updateActive slot f).wiring = s.wiring.update slot fun line => { line with session := line.session.map (·.ready) } := by
  refine updateSlot_wiring fun x => ?_
  simp only [ConnectionSlot.line, Wiring.Line.mk.injEq, Option.map_map, and_self, and_true]
  exact congrArg (Option.map · x.active) (funext hf)

theorem settleDial_readied {f : ActiveConnection → ActiveConnection} {connection : ActiveConnection}
    (hf : ∀ c : ActiveConnection, (f c).session = c.session.ready) (hactive : s.active slot = some connection) :
    s.wiring.Readied slot ((s.updateActive slot f).settleDial slot).wiring := by
  obtain ⟨state, hstate, hc⟩ := Option.bind_eq_some_iff.1 hactive
  have hline : s.wiring.lines slot = some state.line := by simp [wiring, hstate]
  have hsession : state.line.session = some connection.session := by simp [ConnectionSlot.line, hc]
  have hready : (s.updateActive slot f).wiring =
      s.wiring.update slot fun line => { line with session := some connection.session.ready } := by
    rw [establish_wiring hf]
    refine Wiring.update_congr fun line hl => ?_
    obtain rfl := Option.some.inj (hline.symm.trans hl)
    rw [hsession]
    rfl
  have hslot : (s.updateActive slot f).slot slot = some { state with active := some (f connection) } := by
    unfold updateActive
    rw [slot_updateSlot, if_pos rfl, hstate, Option.map_some, hc, Option.map_some]
  unfold settleDial
  rw [hslot]
  cases hd : state.dialledVersion with
  | none =>
    simp only [Option.bind_some]
    rw [hready]
    exact .confirm _ _ hline hsession hd
  | some version =>
    have hsettled : (s.updateActive slot f).active slot = some (f connection) := by
      simp [Shard.active, hslot]
    simp only [Option.bind_some, hsettled]
    have hreadied := Wiring.Readied.settle _ _ version hline hsession hd
    rw [updateSlot_wiring (g := fun line => { line with wire := version }) fun _ => rfl, carryDialled_wiring,
      updateSlot_wiring (g := fun line => { line with dialling := none }) fun _ => rfl, hready, hf]
    simp only [Wiring.carryOn_update, Wiring.carryOn_ready, Wiring.update_update]
    exact hreadied

theorem onReady_readied {connection : ActiveConnection} (hactive : s.active slot = some connection)
    (heartbeatDeadline observedAt now : Nat) :
    s.wiring.Readied slot (s.onReady slot heartbeatDeadline observedAt now).wiring := by
  have hreadied : s.wiring.Readied slot ((s.updateActive slot fun c =>
      { c with
        heartbeatDeadline := some heartbeatDeadline, lastHeartbeat := some observedAt
        established := true }).settleDial slot).wiring :=
    settleDial_readied (fun _ => rfl) hactive
  cases slot <;> exact hreadied

/-! ## Connection ends -/

theorem onStandbyEnded_wiring (s : Shard) (index : Nat) :
    (s.onStandbyEnded index).wiring = s.wiring.update (.standby index) fun line => { line with dialling := none } :=
  updateStandby_wiring fun _ => rfl

theorem leavePublishing_wiring (s : Shard) :
    s.leavePublishing.wiring = s.wiring.update .primary fun line => { line with dialling := none } := by
  show (s.updateSlot .primary fun state => { state with dialledVersion := none }).wiring = _
  exact updateSlot_wiring fun _ => rfl

theorem loseCoverage_member (publishing : Bool) (survivors : List (List String)) (attempts : Nat)
    (continuity : ContinuityReason) (authority : AuthorityReason) (slug : String) (e : MarketEntry) :
    (e.loseCoverage publishing survivors attempts continuity authority slug).entry.member =
      if publishing then { e.member with source := none } else e.member := by
  have hleft := e.loseCoverage_left publishing survivors attempts continuity authority slug
  have hsource := e.loseCoverage_subscribedFrom publishing survivors attempts continuity authority slug
  unfold MarketEntry.member
  rw [hleft.desired, hleft.installedVersion, hsource]
  split <;> rfl

theorem reportLostPoolCoverage_wiring (s : Shard) (slot : Slot) (reason : ConnectionEndReason) (look : Look) :
    (s.reportLostPoolCoverage slot reason look).wiring = s.wiring.leave slot := by
  unfold reportLostPoolCoverage
  dsimp only
  cases slot with
  | primary =>
    rw [if_pos (by simp), visitMarkets_wiring (g := fun _ member => { member with source := none }) (fun _ _ => rfl)
      fun slug e => loseCoverage_member _ _ _ _ _ slug e, closeRemoved_wiring]
    rfl
  | standby index =>
    rw [if_neg (by simp), visitMarkets_wiring (g := fun _ member => member) (fun _ _ => rfl)
      fun slug e => loseCoverage_member _ _ _ _ _ slug e]
    exact s.wiring.mapMembers_id

theorem retired_wiring (s : Shard) (slot : Slot) (established : Bool) :
    (if established then s.retirePoolSocket slot else s).wiring = s.wiring := by
  split
  · exact (s.retirePoolSocket_plain slot).wiring
  · rfl

/-- A standby's connection takes the publishing role. -/
theorem moveToPrimary_wiring {index : Nat} {state : ConnectionSlot} (connection : ActiveConnection)
    (hstate : s.slot (.standby index) = some state) :
    (s.moveToPrimary index connection).wiring =
      (s.wiring.update .primary fun _ => ⟨some connection.session, none, state.wireVersion⟩).update (.standby index)
        fun line => { line with session := none } := by
  obtain ⟨standby, hstandby, rfl⟩ := Option.map_eq_some_iff.1 hstate
  have hmoved : (s.moveToPrimary index connection).wiring =
      ((s.updateSlot .primary fun _ => ⟨some connection, none, standby.slot.wireVersion⟩).updateStandby index fun x =>
        { x with slot := { x.slot with active := none } }).wiring := by
    unfold moveToPrimary
    rw [hstandby]
    rfl
  rw [hmoved, updateStandby_wiring (g := fun line => { line with session := none }) fun _ => rfl,
    updateSlot_wiring (g := fun _ => ⟨some connection.session, none, standby.slot.wireVersion⟩) fun _ => rfl]

theorem moveHistory_wiring (s : Shard) (source : Nat) : (s.moveHistory source).wiring = s.wiring :=
  updateMarkets_wiring (s := { s with poolSessionsEnded := _ }) fun _ _ => rfl

theorem vacateStandby_wiring (s : Shard) (index : Nat) :
    (s.vacateStandby index).wiring = s.wiring.update (.standby index) fun _ => .vacant :=
  updateStandby_wiring fun _ => rfl

/-- Nothing happens, or a standby's session takes the publishing role. -/
theorem takePublishingSlot_taken (s : Shard) (look : Look) : s.takePublishingSlot look = s ∨
    ∃ index connection state, s.slot (.standby index) = some state ∧ state.active = some connection ∧
      (s.takePublishingSlot look).wiring = s.wiring.take index connection.session state.wireVersion := by
  unfold takePublishingSlot
  split
  · exact .inl rfl
  · rename_i index _
    split
    · exact .inl rfl
    · rename_i connection hactive
      obtain ⟨state, hstate, hc⟩ := Option.bind_eq_some_iff.1 hactive
      refine .inr ⟨index, connection, state, hstate, hc, ?_⟩
      rw [vacateStandby_wiring, moveHistory_wiring, carry_wiring, moveToPrimary_wiring connection hstate]
      have hrole : ((s.wiring.update .primary fun _ => ⟨some connection.session, none, state.wireVersion⟩).update
          (.standby index) fun line => { line with session := none }).carry connection.session =
          ((s.wiring.update .primary fun _ => ⟨some connection.session, none, state.wireVersion⟩).carry
            connection.session).update (.standby index) fun line => { line with session := none } := rfl
      rw [hrole, Wiring.update_update]
      rfl

theorem takePublishingSlot_moves (s : Shard) (look : Look) (hfree : s.primary.line.session = none) :
    Wiring.Moves s.wiring (s.takePublishingSlot look).wiring := by
  rcases s.takePublishingSlot_taken look with hsame | ⟨index, connection, state, hstate, hc, hwiring⟩
  · rw [hsame]
  · rw [hwiring]
    exact .single (.take index s.primary.line state.line connection.session rfl hfree (by simp [wiring, hstate])
      (by simp [ConnectionSlot.line, hc]))

/-- What the end of a pool's publishing session leaves, before another takes the role. -/
theorem onPoolSlotEnded_ended (reason : ConnectionEndReason) (established : Bool) (look : Look)
    (htaken : t.wiring = s.wiring.update .primary fun line => { line with session := none }) :
    ((if established then t.retirePoolSocket .primary else t).reportLostPoolCoverage .primary reason
      look).leavePublishing.wiring = s.wiring.drop .primary := by
  rw [leavePublishing_wiring, reportLostPoolCoverage_wiring, retired_wiring, htaken, Wiring.leave_update,
    Wiring.update_update]
  rfl

/-- Without a handover the end of a role's session drops it. -/
theorem onPoolSlotEnded_drop (slot : Slot) (reason : ConnectionEndReason) (established : Bool) (clock : Clock)
    (htaken : t.wiring = s.wiring.update slot fun line => { line with session := none }) :
    (t.onPoolSlotEnded slot reason established false clock).wiring = s.wiring.drop slot := by
  cases slot with
  | primary => exact onPoolSlotEnded_ended reason established _ htaken
  | standby index =>
    unfold onPoolSlotEnded
    dsimp only
    rw [(recountRecovering_plain _).wiring, reportLostPoolCoverage_wiring, onStandbyEnded_wiring, retired_wiring,
      htaken, Wiring.leave_update, Wiring.leave_update, Wiring.update_update]
    rfl

/-- The end of the publishing session drops it, and another may take the role. -/
theorem onPoolSlotEnded_dropped (reason : ConnectionEndReason) (established handover : Bool) (clock : Clock)
    (htaken : t.wiring = s.wiring.update .primary fun line => { line with session := none }) :
    Wiring.Moves (s.wiring.drop .primary) (t.onPoolSlotEnded .primary reason established handover clock).wiring := by
  cases handover with
  | false => rw [onPoolSlotEnded_drop .primary reason established clock htaken]
  | true =>
    have hdrop := onPoolSlotEnded_ended reason established (clock .survivors) htaken
    unfold onPoolSlotEnded
    dsimp only
    generalize ((if established then t.retirePoolSocket .primary else t).reportLostPoolCoverage .primary reason
      (clock .survivors)).leavePublishing = ended at hdrop
    rw [(recountRecovering_plain _).wiring, if_pos rfl, ← hdrop]
    refine takePublishingSlot_moves ended _ ?_
    have hline := congrFun (congrArg Wiring.lines hdrop) .primary
    rw [show ended.wiring.lines .primary = some ended.primary.line from rfl,
      show (s.wiring.drop .primary).lines .primary = some s.primary.line.idle from rfl] at hline
    rw [Option.some.inj hline]
    rfl

/-- Every end of a role's session drops it. -/
theorem onPoolSlotEnded_moves (slot : Slot) (reason : ConnectionEndReason) (established handover : Bool) (clock : Clock)
    (htaken : t.wiring = s.wiring.update slot fun line => { line with session := none }) :
    Wiring.Moves s.wiring (t.onPoolSlotEnded slot reason established handover clock).wiring := by
  cases slot with
  | primary => exact .head (.drop .primary) (onPoolSlotEnded_dropped reason established handover clock htaken)
  | standby index =>
    show Wiring.Moves s.wiring (t.onPoolSlotEnded (.standby index) reason established false clock).wiring
    rw [onPoolSlotEnded_drop _ reason established clock htaken]
    exact .single (.drop (.standby index))

theorem endGeneration_member (e : MarketEntry) (attempts : Nat) (continuity : ContinuityReason)
    (authority : AuthorityReason) : (e.endGeneration attempts continuity authority).entry.member = e.member := by
  have hplain := e.endGeneration_plain attempts continuity authority
  simp only [MarketEntry.member, hplain.desired, hplain.subscribedFrom, hplain.installedVersion]

theorem onConnectionEnded_wiring (s : Shard) (reason : ConnectionEndReason) :
    ((s.takeActive .primary).onConnectionEnded reason).wiring = s.wiring.drop .primary := by
  unfold onConnectionEnded
  rw [(recountRecovering_plain _).wiring, (retireAllAgreement_beside _).wiring,
    visitMarkets_wiring (g := fun _ member => { member with source := none }) (fun _ _ => rfl)
      fun slug e => endGeneration_member _ _ _ _,
    closeRemoved_wiring, leavePublishing_wiring, takeActive_wiring, Wiring.update_update]
  rfl

theorem onStandbyEnded_drop (s : Shard) (index : Nat) :
    ((s.takeActive (.standby index)).onStandbyEnded index).wiring = s.wiring.drop (.standby index) := by
  rw [onStandbyEnded_wiring, takeActive_wiring, Wiring.update_update]
  rfl

theorem promote_member (e : MarketEntry) (connection : ActiveConnection) (shadow : Option OrderBook)
    (ended : ConnectionEndReason) (lossy : Bool) (attempts : Nat) (slug : String) :
    (e.promote connection.generation connection.dialledSetVersion connection.markets shadow ended lossy attempts
        slug).entry.member =
      if connection.session.claims slug e.member then { e.member with source := some connection.generation }
      else { e.member with source := none } := by
  have hidle := e.promote_idle connection.generation connection.dialledSetVersion connection.markets shadow ended lossy
    attempts slug
  have hclaims : connection.session.claims slug e.member =
      (connection.markets.contains slug && e.claimedBy connection.dialledSetVersion) := rfl
  rw [hclaims]
  simp only [MarketEntry.member, MarketEntry.promote_desired, MarketEntry.promote_subscribedFrom, hidle.installedVersion]
  split <;> rfl

/-- The publishing session is dropped, and the standby's takes the role. -/
theorem promoteStandby_wiring {index : Nat} {connection : ActiveConnection} {state : ConnectionSlot}
    (ended : ConnectionEndReason) (established : Bool) (hstate : s.slot (.standby index) = some state) :
    ((s.takeActive .primary).promoteStandby index connection ended established).wiring =
      (s.wiring.drop .primary).take index connection.session state.wireVersion := by
  have hstate' : (s.takeActive .primary).slot (.standby index) = some state := hstate
  unfold promoteStandby applyPromotions
  dsimp only
  rw [(recountRecovering_plain _).wiring, vacateStandby_wiring,
    visitMarkets_wiring (g := fun slug member =>
      if connection.session.claims slug member then { member with source := some connection.generation }
      else { member with source := none }) (fun _ _ => by split <;> rfl)
      fun slug e => promote_member _ _ _ _ _ _ _, closeRemoved_wiring]
  have hmoved : wiring
      { (s.takeActive .primary).moveToPrimary index connection with
        railLossLatched := false
        standbys := ((s.takeActive .primary).moveToPrimary index connection).standbys.modify index fun x =>
          { x with shadows := ∅ } } =
      ((s.wiring.update .primary fun _ => ⟨some connection.session, none, state.wireVersion⟩).update (.standby index)
        fun line => { line with session := none }) := by
    refine (updateStandby_beside ((s.takeActive .primary).moveToPrimary index connection) index
      (fun x => { x with shadows := ∅ }) fun _ => rfl).wiring.trans ?_
    rw [moveToPrimary_wiring connection hstate', takeActive_wiring, Wiring.update_update]
    rfl
  rw [hmoved]
  have htaken : (s.wiring.drop .primary).take index connection.session state.wireVersion =
      (((s.wiring.sweep.release.update .primary fun _ => ⟨some connection.session, none, state.wireVersion⟩).carry
        connection.session).update (.standby index) fun _ => .vacant) := by
    unfold Wiring.drop Wiring.take
    rw [Wiring.update_update]
    rfl
  have hpromoted : (((s.wiring.update .primary fun _ => ⟨some connection.session, none, state.wireVersion⟩).update
      (.standby index) fun line => { line with session := none }).sweep.mapMembers fun slug member =>
        if connection.session.claims slug member then { member with source := some connection.generation }
        else { member with source := none }) =
      ((s.wiring.sweep.release.update .primary fun _ => ⟨some connection.session, none, state.wireVersion⟩).carry
        connection.session).update (.standby index) fun line => { line with session := none } :=
    (Wiring.release_carry _ connection.session).symm
  rw [hpromoted, Wiring.update_update, htaken]
  rfl

theorem promoteStandby_dropped {index : Nat} {connection : ActiveConnection} (ended : ConnectionEndReason)
    (established : Bool) (hactive : s.active (.standby index) = some connection) :
    Wiring.Moves (s.wiring.drop .primary)
      ((s.takeActive .primary).promoteStandby index connection ended established).wiring := by
  obtain ⟨state, hstate, hc⟩ := Option.bind_eq_some_iff.1 hactive
  have hline : (s.wiring.drop .primary).lines (.standby index) = some state.line := by
    show (s.slot (.standby index)).map _ = _
    rw [hstate]
    rfl
  rw [promoteStandby_wiring ended established hstate]
  exact .single (.take index s.primary.line.idle state.line connection.session rfl rfl hline
    (by simp [ConnectionSlot.line, hc]))

/-- The end of the publishing session drops it, and a standby's may take the role. -/
theorem onPrimaryEnded_dropped (s : Shard) (reason : ConnectionEndReason) (established : Bool) (clock : Clock) :
    Wiring.Moves (s.wiring.drop .primary) ((s.takeActive .primary).onPrimaryEnded reason established clock).wiring := by
  have hended : Wiring.Moves (s.wiring.drop .primary) ((s.takeActive .primary).onConnectionEnded reason).wiring := by
    rw [onConnectionEnded_wiring]
  unfold onPrimaryEnded
  split
  · exact hended
  · split
    · exact hended
    · rename_i hactive
      exact promoteStandby_dropped reason established hactive

theorem closeSlot_dropped (s : Shard) (connection : ActiveConnection) (reason : ConnectionEndReason) (clock : Clock) :
    Wiring.Moves (s.wiring.drop .primary) (s.closeSlot .primary connection reason clock).wiring := by
  unfold closeSlot onSlotEnded
  split
  · split
    · refine onPoolSlotEnded_dropped reason _ _ clock ?_
      rw [(reportShardLoss_plain _ _ _).wiring, takeActive_wiring]
    · exact onPoolSlotEnded_dropped reason _ _ clock (s.takeActive_wiring .primary)
  · exact s.onPrimaryEnded_dropped reason connection.established clock

/-! ## Following the set -/

theorem dialCarriesCurrentEntries_iff {version : Nat} : s.dialCarriesCurrentEntries version = true ↔
    ∀ (slug : String) e, s.markets[slug]? = some e → e.desired = true → e.installedVersion ≤ version := by
  simp only [dialCarriesCurrentEntries, List.all_eq_true, Prod.forall, Std.ExtTreeMap.mem_toList_iff_getElem?_eq_some,
    Bool.or_eq_true, Bool.not_eq_true', decide_eq_true_eq]
  refine forall₃_congr fun slug e he => ?_
  cases e.desired <;> simp

theorem unchanged_carries {connection : ActiveConnection} (h : s.unchanged connection = true) :
    s.wiring.Carries connection.session := by
  simp only [unchanged, Bool.and_eq_true, decide_eq_true_eq, dialCarriesCurrentEntries_iff] at h
  refine ⟨h.1.symm, fun slug member hm hd => ?_⟩
  obtain ⟨e, he, rfl⟩ := Option.map_eq_some_iff.1 hm
  exact h.2 slug e he hd

theorem reconcileSlot_wiring (s : Shard) (slot : Slot) (clock : Clock) :
    s.wiring.Reconcile slot (s.reconcileSlot slot clock).wiring := by
  unfold reconcileSlot
  split
  · rename_i hstate
    exact .keep fun line session hline => by simp [wiring, hstate] at hline
  · rename_i state hstate
    have hline : s.wiring.lines slot = some state.line := by simp [wiring, hstate]
    split
    · rename_i hcurrent
      refine .keep fun line session hline' _ _ => ?_
      obtain rfl := Option.some.inj (hline.symm.trans hline')
      exact hcurrent
    · split
      · rename_i hnone
        refine .keep fun line session hline' hs _ => ?_
        obtain rfl := Option.some.inj (hline.symm.trans hline')
        simp [ConnectionSlot.line, hnone] at hs
      · rename_i connection hc
        have hsession : state.line.session = some connection.session := by simp [ConnectionSlot.line, hc]
        split
        · rename_i hdialling
          refine .keep fun line session hline' hs he => ?_
          obtain rfl := Option.some.inj (hline.symm.trans hline')
          obtain rfl := Option.some.inj (hsession.symm.trans hs)
          simp [show connection.established = true from he] at hdialling
        · rename_i hestablished
          split
          · rename_i hunchanged
            rw [updateSlot_wiring (g := fun line => { line with wire := s.desiredVersion }) fun _ => rfl]
            exact .wire state.line connection.session hline hsession
              (by simpa [ActiveConnection.session] using hestablished) (unchanged_carries hunchanged)
          · dsimp only
            split
            · rw [onPoolSlotEnded_drop slot _ _ clock (s.takeActive_wiring slot)]
              exact .drop
            · cases slot with
              | primary =>
                dsimp only
                rw [onConnectionEnded_wiring]
                exact .drop
              | standby index =>
                dsimp only
                rw [onStandbyEnded_drop]
                exact .drop

theorem Counted.wants_none (hc : s.Counted) (hcount : s.desiredCount = 0) (slug : String) : s.wants slug = false := by
  have hempty : keysWhere (·.desired) s.markets = ∅ := Finset.card_eq_zero.1 (hc.count.symm.trans hcount)
  have hout : slug ∉ keysWhere (·.desired) s.markets := by simp [hempty]
  rw [mem_keysWhere] at hout
  simpa [wants] using hout

theorem shedIdleConnection_moves (hc : s.Counted) : Wiring.Moves s.wiring s.shedIdleConnection.wiring := by
  unfold shedIdleConnection
  split
  · exact .refl
  · rename_i hcount
    have hnone := hc.wants_none (by omega)
    rw [(recountRecovering_plain _).wiring, closeRemoved_wiring]
    have hidle : wiring
        { s with
          primary := { s.primary with active := none, dialledVersion := none }
          standbys := s.standbys.map fun x =>
            { x.clear with slot := { x.slot with active := none, dialledVersion := none } }
          reissue := .idle
          railLossLatched := false } =
        { s.wiring with lines := fun slot => (s.wiring.lines slot).map Wiring.Line.idle } := by
      refine wiring_of_lines (fun slot => ?_) rfl rfl rfl
      cases slot with
      | primary => rfl
      | standby index =>
        simp only [Shard.slot, List.getElem?_map, Option.map_map, wiring]
        rfl
    have hswept : Wiring.sweep { s.wiring with lines := fun slot => (s.wiring.lines slot).map Wiring.Line.idle } =
        { s.wiring with
          lines := fun slot => (s.wiring.lines slot).map Wiring.Line.idle, members := fun _ => none } := by
      simp only [Wiring.sweep, Wiring.mk.injEq, and_self, and_true, true_and]
      funext slug
      have hout := (s.wants_eq slug).symm.trans (hnone slug)
      cases hm : s.wiring.members slug <;> simp_all [Option.filter_some]
    rw [hidle, hswept]
    exact .single .shed

/-! ## Commands -/

/-- A change of one member under a new version of the set. -/
theorem wiring_of_change {members : String → Option Wiring.Member} {version : Nat}
    (hmembers : ∀ slug, t.markets[slug]?.map (·.member) = members slug) (hslots : ∀ slot, t.slot slot = s.slot slot)
    (hversion : t.desiredVersion = version) (hnext : t.nextGeneration = s.nextGeneration) :
    t.wiring = { s.wiring with members, wanted := t.desiredSlugs, version } := by
  simp only [wiring, hslots, hversion, hnext, Wiring.mk.injEq, and_self, and_true, true_and]
  exact funext hmembers

theorem unwant_slot (s : Shard) (slug : String) (e : MarketEntry) (slot : Slot) :
    (s.unwant slug e).slot slot = s.slot slot := by
  apply slot_congr
  · rfl
  · simp [Shard.unwant, retireAgreement, Function.comp_def]

theorem Change.moves (h : Change s t) : Wiring.Moves s.wiring t.wiring := by
  cases h with
  | install slug installs habsent =>
    cases installs with
    | refused refusal retired segment htaken ht =>
      subst ht
      exact .refl
    | installed market book segment hm hb ht =>
      have hmembers (k : String) : t.markets[k]?.map (·.member) =
          if k = slug then some ⟨true, none, saturatingAdd s.desiredVersion 1⟩ else s.wiring.members k := by
        rw [ht, lookup_insert]
        split <;> rfl
      rw [wiring_of_change hmembers (fun _ => by rw [ht]) (congrArg desiredVersion ht) (congrArg nextGeneration ht)]
      exact .single (.install slug t.desiredSlugs)
  | unwant slug e he hd =>
    have hmembers (k : String) : (s.unwant slug e).markets[k]?.map (·.member) =
        if k = slug then (s.wiring.members k).map ({ · with desired := false }) else s.wiring.members k := by
      simp only [Shard.unwant, retireAgreement, lookup_insert, wiring]
      by_cases heq : k = slug
      · subst heq
        simp [he, MarketEntry.member]
      · simp [heq]
    rw [wiring_of_change hmembers (s.unwant_slot slug e) rfl rfl]
    exact .single (.unwant slug _)
  | queue removing => exact .refl
  | close slug hout =>
    have hmembers (k : String) : (s.close slug).markets[k]?.map (·.member) =
        if k = slug then none else s.wiring.members k := by
      rw [close_markets]
      split <;> rfl
    rw [wiring_of_members hmembers (close_sameSet hout).wants (s.close_slot slug) (s.close_counters slug).1
      (s.close_counters slug).2]
    exact .single (.close slug)

theorem Changes.moves (h : Changes s t) : Wiring.Moves s.wiring t.wiring := by
  induction h with
  | refl => exact .refl
  | tail _ hchange ih => exact ih.trans hchange.moves

/-! ## Frames -/

theorem Marked.wiring (h : Marked s t) : t.wiring = s.wiring :=
  h.toStill.wiring (h.entries.mono MarketEntry.Noted.member)

theorem applySnapshot_member {e e' : MarketEntry} {candidate : Candidate} {commit : BookCommit}
    (h : e.applySnapshot candidate = some (e', commit)) : e'.member = e.member := by
  unfold MarketEntry.applySnapshot at h
  split at h
  · cases h
    rfl
  · cases h

theorem withdrawLicence_wiring (s : Shard) (reason : PoolDegradeReason) : (s.withdrawLicence reason).wiring = s.wiring := by
  unfold withdrawLicence
  split
  · rw [(handBackToPublishingSlot_plain _).wiring]
    exact updateMarkets_wiring (s := { s with redundancy := _ }) fun _ _ => rfl
  · rfl

theorem Reached.wiring (h : Reached slot slug s t) : t.wiring = s.wiring := by
  cases h with
  | kept => rfl
  | lost => exact (s.reportMarketLoss_plain slug _ _).wiring
  | withdrawn reason => exact s.withdrawLicence_wiring reason
  | @applied candidate settle hsettle =>
    cases he : s.markets[slug]? with
    | none =>
      unfold applyAuthoritative
      rw [he]
      exact (s.refreshAgreement_beside slug).wiring
    | some e =>
      rcases applyAuthoritative_spec he slot candidate settle with
        ⟨-, lost, hlost, htouched, hlatch⟩ | ⟨applied, commit, happly, htouched, -⟩
      · exact (htouched.plain hlost hlatch).wiring
      · exact htouched.toStill.wiring (htouched.related (fun _ => rfl)
          ((hsettle applied).member.trans (applySnapshot_member happly)))

theorem Frame.wiring {announced : Prop} (h : Frame announced s slot slug t) : t.wiring = s.wiring := by
  cases h with
  | ignored hmarks => exact hmarks.marked.wiring
  | delivered e u he haccepts hmarks hreached => exact hreached.wiring.trans hmarks.marked.wiring

/-! ## Steps -/

theorem Call.moves {told : List PoolCall} (h : Call s told t) (hc : s.Counted) : Wiring.Moves s.wiring t.wiring := by
  cases h with
  | reissued reissue => exact .refl
  | heard slot observedAt =>
    rw [(s.updateActive_plain slot (fun c => { c with lastHeartbeat := some observedAt }) fun _ =>
      ⟨rfl, rfl, rfl, rfl⟩).wiring]
  | readied slot connection heartbeatDeadline observedAt now hactive => exact .single (onReady_readied hactive _ _ _).move
  | resolved resolved times subscription => rw [(s.forwardResolution_resolved resolved times subscription).plain.wiring]
  | lost continuity authority => rw [(s.reportShardLoss_plain continuity authority).wiring]
  | forgot index => rw [(s.updateStandby_beside index (·.clear) fun _ => rfl).wiring]
  | followed slot state connection hstate hruns hestablished hunchanged =>
    have hline : s.wiring.lines slot = some state.line := by simp [wiring, hstate]
    rw [updateSlot_wiring (g := fun line => { line with wire := s.desiredVersion }) fun _ => rfl]
    exact (Wiring.Reconcile.wire state.line connection.session hline (by simp [ConnectionSlot.line, hruns]) hestablished
      (unchanged_carries hunchanged)).moves
  | pooled slot u reason established handover clock harmed htaken =>
    exact onPoolSlotEnded_moves slot reason established handover clock
      ((taken_plain htaken).wiring.trans (s.takeActive_wiring slot))
  | ended reason =>
    rw [onConnectionEnded_wiring]
    exact .single (.drop .primary)
  | promoted index connection ended established hunarmed hactive =>
    exact .head (.drop .primary) (promoteStandby_dropped ended established hactive)
  | standbyEnded index =>
    rw [onStandbyEnded_drop]
    exact .single (.drop (.standby index))
  | shed => exact shedIdleConnection_moves hc

theorem Calls.moves {told : List PoolCall} (h : Calls s told t) (hc : s.Counted) : Wiring.Moves s.wiring t.wiring :=
  (h.inv (I := fun t => t.Counted ∧ Wiring.Moves s.wiring t.wiring)
    (fun _ _ _ hs hcall => ⟨hcall.calm.counted hs.1, hs.2.trans (hcall.moves hs.1)⟩) ⟨hc, .refl⟩).2

/-- Every other step of a shard is a sequence of moves of its wiring. -/
theorem step_moves {event : ShardEvent} (hc : s.Counted) (hevent : ∀ slot, event ≠ .spawn slot)
    (h : s.step event = some t) : Wiring.Moves s.wiring t.wiring := by
  cases step_taken h with
  | spawned slot hspawn => exact absurd hspawn (hevent slot)
  | called hcalls => exact hcalls.moves hc
  | read generation update times subscription look slot hnotice hframe => rw [hframe.wiring]
  | added slugs hadds ht =>
    obtain ⟨u, hchanges, -, heq⟩ := addMarkets_spec hc slugs
    rw [ht, heq, (recountRecovering_plain _).wiring]
    exact hchanges.moves
  | removed slugs hremoves ht =>
    obtain ⟨u, hchanges, -, heq⟩ := removeMarkets_spec hc slugs
    rw [ht, heq, (recountRecovering_plain _).wiring]
    exact hchanges.moves

/-- A step dials a session, or leaves the sessions to the moves. -/
theorem step_dials {event : ShardEvent} (hc : s.Counted) (h : s.step event = some t) :
    (∃ slot, event = .spawn slot ∧ (t = s ∨ s.wiring.Dial slot t.wiring)) ∨
      (∀ slot, event ≠ .spawn slot) ∧ Wiring.Moves s.wiring t.wiring := by
  by_cases hevent : ∃ slot, event = .spawn slot
  · obtain ⟨slot, rfl⟩ := hevent
    obtain rfl := Option.some.inj h
    exact .inl ⟨slot, rfl, s.spawnSlot_dial slot⟩
  · have hother (slot : Slot) : event ≠ .spawn slot := fun heq => hevent ⟨slot, heq⟩
    exact .inr ⟨hother, step_moves hc hother h⟩

end Shard

end PmWs
