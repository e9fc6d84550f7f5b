import Mathlib.Logic.Relation
import PmWs.Limitless.Books
import PmWs.Limitless.Supervisor

/-!
# What a supervisor step is made of

A step applies one update, or is a sequence of writes that apply none. The
control flow of the supervisor is walked once, here, down to these writes.
What a step keeps is then a case analysis over them: the market and the roles,
a withdrawn licence, and the book's stream, which no step takes back.
-/

open MachineInt Fallible Relation

namespace PmWs

namespace Supervisor

/-- What every function keeps. -/
structure Quiet (s t : Supervisor) : Prop where
  config : t.config = s.config
  market : t.market = s.market
  standbys : t.standbys.length = s.standbys.length
  bookMarket : t.book.market = s.book.market
  book : s.book.Advances t.book
  pool : ∀ gate', t.pool = some gate' → ∃ gate, s.pool = some gate ∧
    gate'.sockets.length = gate.sockets.length ∧ (gate'.isArmed = true → gate.isArmed = true)

/-- What a function that applies no arrival keeps. -/
structure Idle (s t : Supervisor) : Prop where
  config : t.config = s.config
  market : t.market = s.market
  standbys : t.standbys.length = s.standbys.length
  holds : s.book.Holds t.book
  pool : ∀ gate', t.pool = some gate' → ∃ gate, s.pool = some gate ∧ gate.Keeps gate'

variable {own ends : Prop} {s t u : Supervisor} {e : SupervisorEvent} {pool pool' pool'' : Option PoolGate}

theorem Idle.quiet (h : Idle s t) : Quiet s t where
  config := h.config
  market := h.market
  standbys := h.standbys
  bookMarket := h.holds.market
  book := h.holds.toAdvances
  pool gate' hgate' := by
    obtain ⟨gate, hgate, hk⟩ := h.pool gate' hgate'
    exact ⟨gate, hgate, hk.sockets, fun harmed => by rwa [PoolGate.isArmed, ← hk.degraded]⟩

theorem Idle.refl (s : Supervisor) : Idle s s := ⟨rfl, rfl, rfl, .refl _, fun gate h => ⟨gate, h, .refl gate⟩⟩

theorem Idle.trans (h₁ : Idle s t) (h₂ : Idle t u) : Idle s u where
  config := h₂.config.trans h₁.config
  market := h₂.market.trans h₁.market
  standbys := h₂.standbys.trans h₁.standbys
  holds := h₁.holds.trans h₂.holds
  pool gate'' h := by
    obtain ⟨gate', h', hk'⟩ := h₂.pool gate'' h
    obtain ⟨gate, h, hk⟩ := h₁.pool gate' h'
    exact ⟨gate, h, hk.trans hk'⟩

theorem Quiet.trans (h₁ : Quiet s t) (h₂ : Quiet t u) : Quiet s u where
  config := h₂.config.trans h₁.config
  market := h₂.market.trans h₁.market
  standbys := h₂.standbys.trans h₁.standbys
  bookMarket := h₂.bookMarket.trans h₁.bookMarket
  book := h₁.book.trans h₂.book
  pool gate'' h := by
    obtain ⟨gate', h', hs', ha'⟩ := h₂.pool gate'' h
    obtain ⟨gate, h, hs, ha⟩ := h₁.pool gate' h'
    exact ⟨gate, h, hs'.trans hs, ha ∘ ha'⟩

/-- A withdrawn licence stays withdrawn. -/
theorem Quiet.disarmed (h : Quiet s t) (hs : s.poolArmed = false) : t.poolArmed = false := by
  cases hpool : t.pool with
  | none => simp [poolArmed, hpool]
  | some gate' =>
    obtain ⟨gate, hgate, -, harmed⟩ := h.pool gate' hpool
    cases ha : gate'.isArmed with
    | false => simp [poolArmed, hpool, ha]
    | true => simp [poolArmed, hgate, harmed ha] at hs

/-- Only the connections or the counters changed. -/
theorem Idle.of_eq (hc : t.config = s.config) (hm : t.market = s.market) (hl : t.standbys.length = s.standbys.length)
    (hp : t.pool = s.pool) (hb : s.book.Holds t.book) : Idle s t :=
  ⟨hc, hm, hl, hb, fun gate h => ⟨gate, hp ▸ h, .refl gate⟩⟩

/-! ## Writes -/

/-- One write of a step that applies no update. A loss that is the connection's own, or a base it produced, counts only
where `own` holds: any other report carries the verdict of spent attempts. Where `ends` holds, connections only end or
change their roles. -/
inductive Write (own ends : Prop) (s : Supervisor) : Supervisor → Prop
  | vacate (slot : Slot) : Write own ends s (s.setActive slot none)
  | gate (f : PoolGate → PoolGate) (keeps : ∀ gate : PoolGate, gate.Keeps (f gate)) : Write own ends s (s.updatePool f)
  | shadow (index : Nat) (f : Standby → Standby) (keeps : ∀ standby, (f standby).active = standby.active) :
      Write own ends s { s with standbys := s.standbys.modify index f }
  | shadowLoss (index : Nat) (continuity : ContinuityReason) (authority : AuthorityReason) :
      Write own ends s (s.reportShadowLoss index continuity authority)
  | move (index : Nat) (taken : ActiveConnection) (promoted : Bool) (left : Option ActiveConnection)
      (found : s.standbys[index]?.bind (·.active) = some taken) (live : promoted = true → s.book.authority = .live)
      (swapped : left = none ∨ left = s.primary) :
      Write own ends s { s with
        primary := some { taken with producedBase := promoted }
        standbys := s.standbys.modify index fun _ => ⟨left, .new s.market⟩ }
  | report (continuity : ContinuityReason) (authority : AuthorityReason)
      (cause : own ∨ (s.recoveryExhausted = true → authority = .recoveryBaseUnavailable)) :
      Write own ends s (s.reportLoss continuity authority)
  | flag : Write own ends s { s with unavailableReported := true }
  | spend (producedBase : Bool) (cause : producedBase = true → own) : Write own ends s (s.spendAttempt producedBase)
  | place (position : Nat) (resolution : Option MarketResolution) :
      Write own ends s { s with position, latestResolution := resolution }
  | note (book : OrderBook) (cursor : MutationCursor) (free : ¬ ends) (noted : s.book.noteStreamEvent = .ok (book, cursor)) :
      Write own ends s { s with book }
  | change (slot : Slot) (f : ActiveConnection → ActiveConnection) (free : ¬ ends)
      (keeps : ∀ c, (f c).producedBase = c.producedBase) : Write own ends s (s.updateActive slot f)
  | start (slot : Slot) (free : ¬ ends) : Write own ends s
      ({ s with nextGeneration := saturatingAdd s.nextGeneration 1 }.setActive slot (some (.spawned s.nextGeneration)))

def Writes (own ends : Prop) : Supervisor → Supervisor → Prop := ReflTransGen (Write own ends)

theorem Writes.refl (s : Supervisor) : Writes own ends s s := ReflTransGen.refl

theorem Write.once (h : Write own ends s t) : Writes own ends s t := .single h

theorem Writes.trans (h₁ : Writes own ends s t) (h₂ : Writes own ends t u) : Writes own ends s u :=
  ReflTransGen.trans h₁ h₂

theorem Write.idle (h : Write own ends s t) : Idle s t := by
  have hactive (s : Supervisor) (slot : Slot) (connection : Option ActiveConnection) :
      Idle s (s.setActive slot connection) := by
    cases slot with
    | primary => exact .of_eq rfl rfl rfl rfl (.refl _)
    | standby index => exact .of_eq rfl rfl (List.length_modify ..) rfl (.refl _)
  cases h with
  | vacate slot => exact hactive s slot none
  | gate f keeps =>
    refine ⟨rfl, rfl, rfl, .refl _, fun gate' h => ?_⟩
    obtain ⟨gate, hgate, rfl⟩ := Option.map_eq_some_iff.1 h
    exact ⟨gate, hgate, keeps gate⟩
  | shadow | shadowLoss | move => exact .of_eq rfl rfl (List.length_modify ..) rfl (.refl _)
  | report => exact .of_eq rfl rfl rfl rfl (.afterLoss _ _ _)
  | flag | spend | place => exact .of_eq rfl rfl rfl rfl (.refl _)
  | note book cursor _ noted => exact .of_eq rfl rfl rfl rfl (.noteStreamEvent noted)
  | change slot =>
    cases slot with
    | primary => exact .of_eq rfl rfl rfl rfl (.refl _)
    | standby index => exact .of_eq rfl rfl (List.length_modify ..) rfl (.refl _)
  | start slot =>
    refine .trans ?_ (hactive _ slot _)
    exact .of_eq rfl rfl rfl rfl (.refl _)

/-- What every write keeps is kept by any sequence of them. -/
theorem Writes.inv {I : Supervisor → Prop} (h : Writes own ends s t)
    (hwrite : ∀ s t, I s → Write own ends s t → I t) (hs : I s) : I t := by
  induction h with
  | refl => exact hs
  | tail _ hlast ih => exact hwrite _ _ ih hlast

theorem Writes.idle (h : Writes own ends s t) : Idle s t :=
  h.inv (fun _ _ hu hlast => hu.trans hlast.idle) (.refl s)

/-! ## Losses and roles -/

/-- A role whose losses are losses of the published book. -/
def authoritative (self : Supervisor) (slot : Slot) : Bool := self.poolArmed || slot = .primary

theorem reportSlotLoss_writes {slot : Slot} (h : s.authoritative slot = true → own) (continuity : ContinuityReason)
    (authority : AuthorityReason) : Writes own ends s (s.reportSlotLoss slot continuity authority) := by
  have hreport (hown : s.authoritative slot = true) : Writes own ends s (s.reportLoss continuity authority) :=
    (Write.report continuity authority (.inl (h hown))).once
  unfold reportSlotLoss
  split
  · rename_i harmed
    cases slot with
    | primary => exact hreport (by simp [authoritative])
    | standby index => exact (hreport (by simp [authoritative, harmed])).trans (Write.shadowLoss index _ _).once
  · cases slot with
    | primary => exact hreport (by simp [authoritative])
    | standby index => exact (Write.shadowLoss index _ _).once

theorem reportExhaustion_writes (s : Supervisor) : Writes own ends s s.reportExhaustion := by
  unfold reportExhaustion
  split
  · exact .refl s
  · exact (Write.report .reconnect .recoveryBaseUnavailable (.inr fun _ => rfl)).once.trans Write.flag.once

theorem reportIfBased_writes (s : Supervisor) (continuity : ContinuityReason) (reason : AuthorityReason) :
    Writes own ends s (if s.baseAccepted then s.reportLoss continuity (s.terminalAuthority reason) else s) := by
  split
  · refine (Write.report _ _ (.inr fun hspent => ?_)).once
    rw [terminalAuthority, if_pos hspent]
  · exact .refl s

theorem shadowed_writes (s : Supervisor) (slot : Slot) (candidate : Candidate) :
    Writes own ends s (s.shadowed slot candidate) := by
  cases slot with
  | primary => exact .refl s
  | standby index =>
    unfold shadowed applyShadow
    dsimp only
    split
    · exact .refl s
    · split
      · refine (Write.shadow index _ ?_).once
        exact fun _ => rfl
      · exact (Write.shadowLoss index _ _).once

theorem shadowed_book (s : Supervisor) (slot : Slot) (candidate : Candidate) :
    (s.shadowed slot candidate).book = s.book := by
  cases slot with
  | primary => rfl
  | standby index =>
    unfold shadowed applyShadow
    dsimp only
    split
    · rfl
    · split <;> rfl

theorem authorityIsLive_iff (s : Supervisor) : s.authorityIsLive = true ↔ s.book.authority = .live := by
  simp [authorityIsLive]

theorem exchangeWithPrimary_writes (s : Supervisor) (index : Nat) : Writes own ends s (s.exchangeWithPrimary index) := by
  unfold exchangeWithPrimary
  split
  · exact .refl s
  · rename_i taken htaken
    refine (Write.move index taken _ s.primary htaken s.authorityIsLive_iff.1 (.inr rfl)).once.trans ?_
    exact (Write.gate _ fun gate => gate.exchangeSockets_keeps _ _).once

/-- A connection that takes the publishing role has produced a base only where the book is live. -/
theorem takeOver_writes (index : Nat) {promoted : Bool} (look : Look)
    (h : promoted = true → s.book.authority = .live) : Writes own ends s (s.takeOver index promoted look).1 := by
  unfold takeOver
  split
  · exact .refl s
  · rename_i connection htaken
    split
    · refine (Write.move index connection _ none htaken h (.inl rfl)).once.trans ?_
      exact (Write.gate _ fun gate => gate.reassignSocket_keeps _ _).once
    · exact .refl s

/-! ## Connection ends -/

theorem onStandbyEnded_writes (s : Supervisor) (index : Nat) : Writes own ends s (s.onStandbyEnded index) := by
  refine .trans (Write.shadow index (fun standby => { standby with shadow := .new s.market }) ?_).once ?_
  · exact fun _ => rfl
  · exact (Write.gate _ fun gate => gate.retireSocket_keeps _).once

theorem settleExpiredStandby_writes (s : Supervisor) (clock : Clock) :
    Writes own ends s (s.settleExpiredStandby clock) := by
  unfold settleExpiredStandby
  generalize List.range s.standbys.length = indices
  induction indices generalizing s with
  | nil => exact .refl s
  | cons index rest ih =>
    have hfirst : Writes own ends s (s.fenceStandby index (clock (.expiry index))) := by
      unfold fenceStandby
      split
      · exact (Write.vacate _).once.trans (onStandbyEnded_writes _ _)
      · exact .refl s
    exact hfirst.trans (ih _)

/-- What follows the report of a refused switch. -/
theorem refuseSwitch_writes (s : Supervisor) (authority : AuthorityReason) (clock : Clock) :
    Writes own ends (if s.baseAccepted then s.reportLoss .reconnect (s.terminalAuthority authority) else s)
      (s.refuseSwitch authority clock) := by
  unfold refuseSwitch
  dsimp only
  generalize (if s.baseAccepted then s.reportLoss .reconnect (s.terminalAuthority authority) else s) = reported
  refine (reportExhaustion_writes _).trans ?_
  split
  · exact takeOver_writes _ _ fun h => by cases h
  · exact .refl _

/-- A promotion is decided over a live book only. -/
theorem decideSwitch_promote {ended : ConnectionEndReason} {look : Look} {index : Nat}
    (h : s.decideSwitch ended look = .promote index) : s.book.authority = .live := by
  unfold decideSwitch at h
  dsimp only at h
  split at h
  · rename_i found hfound
    obtain ⟨hlt, heligible, -⟩ := List.findIdx?_eq_some_iff_getElem.1 hfound
    obtain ⟨c, -, hc⟩ := (Option.any_eq_true _ _).1 heligible
    exact (of_decide_eq_true hc).2.1
  · split at h <;> cases h

theorem applySwitch_writes {switch : SourceSwitch} (ended : ConnectionEndReason) (clock : Clock)
    (h : ∀ index, switch = .promote index → s.book.authority = .live) :
    Writes own ends s (s.applySwitch switch ended clock) := by
  have hrefuse (authority : AuthorityReason) : Writes own ends s (s.refuseSwitch authority clock) :=
    (s.reportIfBased_writes _ _).trans (s.refuseSwitch_writes authority clock)
  cases switch with
  | promote index =>
    have hover : Writes own ends s (s.takeOver index true (clock .promote)).1 := takeOver_writes _ _ fun _ => h index rfl
    simp only [applySwitch]
    split
    · rename_i heq
      rwa [heq] at hover
    · exact hrefuse _
  | refuse authority => exact hrefuse authority
  | absent => exact (s.reportIfBased_writes _ _).trans (reportExhaustion_writes _)

theorem onPoolSlotEnded_writes {producedBase : Bool} (h : producedBase = true → own) (reason : ConnectionEndReason)
    (clock : Clock) : Writes own ends s (s.onPoolSlotEnded reason producedBase clock) := by
  have hretired : Writes own ends s ((if !s.authorityIsLive then s.spendAttempt producedBase else s).updatePool
      (·.retireSocket 0)) := by
    refine .trans ?_ (Write.gate _ fun gate => gate.retireSocket_keeps _).once
    split
    · exact (Write.spend producedBase h).once
    · exact .refl s
  unfold onPoolSlotEnded
  dsimp only
  refine hretired.trans ?_
  generalize (if !s.authorityIsLive then s.spendAttempt producedBase else s).updatePool (·.retireSocket 0) = retired
  have hexhausted {t : Supervisor} {c : Prop} [Decidable c] (h : Writes own ends retired t) :
      Writes own ends retired (if c then t.reportExhaustion else t) := by
    split
    · exact h.trans (reportExhaustion_writes _)
    · exact h
  refine hexhausted ?_
  split
  · exact takeOver_writes _ _ (authorityIsLive_iff _).1
  · exact retired.reportIfBased_writes _ _

theorem onPrimaryEnded_writes {producedBase : Bool} (h : producedBase = true → own) (reason : ConnectionEndReason)
    (clock : Clock) : Writes own ends s (s.onPrimaryEnded reason producedBase clock) := by
  unfold onPrimaryEnded
  split
  · exact onPoolSlotEnded_writes h _ _
  · refine ((s.settleExpiredStandby_writes clock).trans (Write.spend producedBase h).once).trans ?_
    exact applySwitch_writes _ _ fun _ => decideSwitch_promote

theorem closeSlot_writes {slot : Slot} {connection : ActiveConnection} {reason : ConnectionEndReason}
    {producedBase : Bool} (hbase : slot = .primary → producedBase = true → own)
    (hloss : s.poolArmed = true → connection.isEstablished = true → reason = .noticeUndeliverable → own) (clock : Clock) :
    Writes own ends s (s.closeSlot slot connection reason producedBase clock) := by
  have harmed : (s.setActive slot none).poolArmed = s.poolArmed := by
    cases slot <;> rfl
  refine (Write.vacate slot).once.trans ?_
  unfold closeSlot onSlotEnded
  dsimp only
  refine .trans (t := if (s.setActive slot none).poolArmed ∧ connection.isEstablished ∧ reason = .noticeUndeliverable then
    (s.setActive slot none).reportLoss .localLoss .overload else s.setActive slot none) ?_ ?_
  · split
    · rename_i hhidden
      exact (Write.report _ _ (.inl (hloss (harmed ▸ hhidden.1) hhidden.2.1 hhidden.2.2))).once
    · exact .refl _
  · cases slot with
    | primary => exact onPrimaryEnded_writes (hbase rfl) _ _
    | standby index => exact onStandbyEnded_writes _ _

theorem fenceIfExpired_writes (h : ∀ c, s.primary = some c → c.producedBase = true → own) (slot : Slot) (look : Look)
    (clock : Clock) : Writes own ends s (s.fenceIfExpired slot look clock) := by
  unfold fenceIfExpired
  split
  · rename_i connection hactive
    split
    · refine closeSlot_writes ?_ (fun _ _ h => by cases h) clock
      rintro rfl
      exact h connection hactive
    · exact .refl s
  · exact .refl s

theorem escalateRecovery_writes (s : Supervisor) (clock : Clock) : Writes own ends s (s.escalateRecovery clock) := by
  unfold escalateRecovery
  split
  · exact closeSlot_writes (fun _ h => by cases h) (fun _ _ h => by cases h) clock
  · exact .refl s

theorem armRecovery_writes (s : Supervisor) (now : Nat) (free : ¬ ends) : Writes own ends s (s.armRecovery now) := by
  refine (Write.change .primary _ free fun c => ?_).once
  split
  · rfl
  · split <;> rfl

theorem onRecoveryDue_writes (s : Supervisor) (look : Look) (grantedAt : Nat) (closed : Bool) (clock : Clock)
    (free : ¬ ends) : Writes own ends s (s.onRecoveryDue look grantedAt closed clock) := by
  refine (s.armRecovery_writes look.now free).trans ?_
  unfold onRecoveryDue
  dsimp only
  split
  · refine (Write.change .primary _ free fun c => ?_).once
    cases closed <;> rfl
  · exact escalateRecovery_writes _ _
  · exact escalateRecovery_writes _ _
  · exact .refl _
  · exact .refl _

theorem spawnDue_writes (s : Supervisor) (slot : Slot) (free : ¬ ends) : Writes own ends s (s.spawnDue slot) := by
  unfold spawnDue
  split
  · exact (Write.start slot free).once.trans (Write.gate _ fun gate => gate.resetSocket_keeps _).once
  · exact .refl s

theorem forwardResolution_writes (s : Supervisor) (resolved : MarketResolved) (times : FrameTimes)
    (generation subscription : Nat) (free : ¬ ends) :
    Writes own ends s (s.forwardResolution resolved times generation subscription) := by
  unfold forwardResolution
  split
  · exact .refl s
  · rename_i position _
    dsimp only
    split
    · exact (Write.place position s.latestResolution).once
    · rename_i resolution _
      have hplaced : Writes own ends s { s with position, latestResolution := some resolution } := (Write.place ..).once
      split
      · exact hplaced
      · split
        · rename_i book cursor hok
          refine hplaced.trans (Write.note book cursor free ?_).once
          exact hok
        · exact hplaced

/-! ## Updates -/

/-- The update yields no candidate, or one the published book refuses. -/
def refuses (self : Supervisor) (slot : Slot) (update : OrderbookUpdate) (times : FrameTimes)
    (generation subscription : Nat) : Bool :=
  match checkedAdd self.position 1 with
  | none => true
  | some position =>
    match { self with position }.candidateOf slot update times generation subscription with
    | none => true
    | some candidate => (self.book.applySnapshot candidate).toOption.isNone

/-- The gate has the same sockets and is not armed anew. -/
def Weakens (pool pool' : Option PoolGate) : Prop :=
  ∀ gate', pool' = some gate' → ∃ gate, pool = some gate ∧
    gate'.sockets.length = gate.sockets.length ∧ (gate'.isArmed = true → gate.isArmed = true)

theorem Weakens.refl (pool : Option PoolGate) : Weakens pool pool := fun gate h => ⟨gate, h, rfl, id⟩

/-- The gate has the same sockets, and its licence as before. -/
def SameLicence (pool pool' : Option PoolGate) : Prop :=
  pool'.map (fun gate => (gate.sockets.length, gate.isArmed)) = pool.map fun gate => (gate.sockets.length, gate.isArmed)

theorem SameLicence.weakens (h : SameLicence pool pool') : Weakens pool pool' := by
  rintro gate' rfl
  obtain ⟨gate, hgate, hsame⟩ := Option.map_eq_some_iff.1 (Eq.symm h)
  obtain ⟨hsockets, harmed⟩ := Prod.mk.inj hsame
  exact ⟨gate, hgate, hsockets.symm, fun h => harmed.trans h⟩

theorem SameLicence.map (pool : Option PoolGate) {f : PoolGate → PoolGate}
    (hf : ∀ gate : PoolGate, (f gate).sockets.length = gate.sockets.length ∧ (f gate).degraded = gate.degraded) :
    SameLicence pool (pool.map f) := by
  cases pool with
  | none => rfl
  | some gate => simp [SameLicence, hf gate, PoolGate.isArmed]

theorem Weakens.map {f : PoolGate → PoolGate} (hf : ∀ gate : PoolGate, (f gate).sockets.length = gate.sockets.length ∧
      ((f gate).isArmed = true → gate.isArmed = true)) : Weakens pool (pool.map f) := by
  intro gate' h
  obtain ⟨gate, hgate, rfl⟩ := Option.map_eq_some_iff.1 h
  exact ⟨gate, hgate, hf gate⟩

theorem Weakens.trans (h₁ : Weakens pool pool') (h₂ : Weakens pool' pool'') : Weakens pool pool'' := by
  intro gate'' h
  obtain ⟨gate', h', hs', ha'⟩ := h₂ gate'' h
  obtain ⟨gate, h, hs, ha⟩ := h₁ gate' h'
  exact ⟨gate, h, hs'.trans hs, ha ∘ ha'⟩

/-- What an update comes to: it is refused or set aside, it becomes the base of its role's own book, or it is applied to
the published one. -/
inductive Delivers (own : Prop) (slot : Slot) (s t : Supervisor) : Prop
  | aside (writes : Writes own True s t)
  | shadow (index : Nat) (candidate : Candidate) (role : slot = .standby index)
      (result : t = (s.shadowed slot candidate).onBaseAccepted slot false)
  | book (candidate : Candidate) (book : OrderBook) (commit : BookCommit) (pool : Option PoolGate)
      (applied : s.book.applySnapshot candidate = .ok (book, commit)) (same : SameLicence s.pool pool)
      (result : t = { s.shadowed slot candidate with book, pool }.onBaseAccepted slot true)

section
variable {slot : Slot} {candidate : Candidate}

theorem shadowed_pool (s : Supervisor) (slot : Slot) (candidate : Candidate) :
    (s.shadowed slot candidate).pool = s.pool := by
  cases slot with
  | primary => rfl
  | standby index =>
    unfold shadowed applyShadow
    dsimp only
    split
    · rfl
    · split <;> rfl

/-- A candidate for the published book. -/
theorem applyAuthoritative_delivers {f : Supervisor → Supervisor}
    (h : (s.book.applySnapshot candidate).toOption.isNone = true → own) (hpool : SameLicence s.pool pool)
    (hf : ∀ book, f { s.shadowed slot candidate with book } =
      { s.shadowed slot candidate with book, pool }.onBaseAccepted slot true) :
    Delivers own slot s (match (s.shadowed slot candidate).applyAuthoritative candidate with
      | (refused, false) => refused
      | (applied, true) => f applied) := by
  unfold applyAuthoritative
  rw [shadowed_book]
  cases hok : s.book.applySnapshot candidate with
  | error error =>
    refine .aside ((s.shadowed_writes slot candidate).trans ?_)
    exact (Write.report _ _ (.inl (h (by simp [hok, Except.toOption])))).once
  | ok result =>
    obtain ⟨book, commit⟩ := result
    exact .book candidate book commit pool hok hpool (hf book)

theorem publishPooled_delivers (h : (s.book.applySnapshot candidate).toOption.isNone = true → own)
    (key : Option DedupKey) : Delivers own slot s (s.publishPooled slot candidate key) := by
  cases key with
  | none =>
    refine applyAuthoritative_delivers (f := fun applied => applied.onBaseAccepted slot true) h rfl ?_
    intro book
    rw [← s.shadowed_pool slot candidate]
  | some key =>
    have hsame : SameLicence s.pool (s.pool.map (·.committed slot.index key)) := .map _ fun _ => ⟨List.length_modify .., rfl⟩
    refine applyAuthoritative_delivers h hsame fun book => ?_
    rw [← s.shadowed_pool slot candidate]
    rfl

theorem recoverPooled_delivers (h : (s.book.applySnapshot candidate).toOption.isNone = true → own) :
    Delivers own slot s (s.recoverPooled slot candidate) := by
  have hsame : SameLicence s.pool (s.pool.map (·.recovered slot.index)) := .map _ fun _ => ⟨List.length_modify .., rfl⟩
  refine applyAuthoritative_delivers h hsame fun book => ?_
  rw [← s.shadowed_pool slot candidate]
  rfl

theorem shadowPooled_delivers (s : Supervisor) (slot : Slot) (candidate : Candidate) :
    Delivers own slot s (s.shadowPooled slot candidate) := by
  cases slot with
  | primary => exact .aside (.refl s)
  | standby index =>
    have hwrites : Writes own True s (s.applyShadow index candidate).1 := s.shadowed_writes (.standby index) candidate
    simp only [shadowPooled]
    split
    · rename_i heq
      rw [heq] at hwrites
      exact .aside hwrites
    · rename_i applied heq
      refine .shadow index candidate rfl ?_
      simp [shadowed, heq]

theorem applyByRole_delivers
    (h : s.authoritative slot = true → (s.book.applySnapshot candidate).toOption.isNone = true → own) :
    Delivers own slot s (s.applyByRole slot candidate) := by
  cases slot with
  | primary =>
    exact applyAuthoritative_delivers (f := fun applied => applied.onBaseAccepted .primary true)
      (h (by simp [authoritative])) rfl fun _ => rfl
  | standby index => exact s.shadowPooled_delivers (.standby index) candidate

end

/-- The gate's answer keeps its sockets. -/
theorem admitArrival_sockets (gate : PoolGate) (socket : Nat) (key : Option DedupKey) (projection : CandidateProjection) :
    (gate.admitArrival socket key projection).1.sockets.length = gate.sockets.length := by
  unfold PoolGate.admitArrival
  split
  · rfl
  · split
    · rfl
    · split
      · rfl
      · simp only [PoolGate.decide, PoolGate.observe]
        split <;> dsimp only <;> split <;> simp

theorem degrade_weakens (pool : Option PoolGate) (reason : PoolDegradeReason) :
    Weakens pool (pool.map fun gate => (gate.degrade reason).1) := by
  refine .map fun gate => ?_
  unfold PoolGate.degrade
  split
  · exact ⟨rfl, id⟩
  · exact ⟨rfl, fun h => by simp [PoolGate.isArmed] at h⟩

theorem applyPooled_delivers {gate : PoolGate} {candidate : Candidate} (hgate : s.pool = some gate)
    (harmed : gate.isArmed = true) (h : (s.book.applySnapshot candidate).toOption.isNone = true → own) (slot : Slot)
    (update : OrderbookUpdate) (clock : Clock) :
    ∃ pool, Weakens s.pool pool ∧ Delivers own slot { s with pool } (s.applyPooled gate slot update candidate clock) := by
  have hjudged : Weakens s.pool
      (some (gate.admitArrival slot.index update.arrivalKey (candidateProjection candidate)).1) := by
    intro gate' h
    cases h
    exact ⟨gate, hgate, admitArrival_sockets .., fun _ => harmed⟩
  unfold applyPooled
  dsimp only
  split
  · refine ⟨_, hjudged, publishPooled_delivers ?_ _⟩
    exact h
  · split
    · refine ⟨_, hjudged, recoverPooled_delivers ?_⟩
      exact h
    · exact ⟨_, hjudged, shadowPooled_delivers ..⟩
  · exact ⟨_, hjudged, shadowPooled_delivers ..⟩
  · rename_i violation _
    refine ⟨_, hjudged.trans (degrade_weakens _ violation.reason), .aside ?_⟩
    unfold degradePool
    dsimp only
    split
    · exact exchangeWithPrimary_writes _ _
    · exact .refl _
  · refine ⟨_, hjudged, applyByRole_delivers ?_⟩
    exact fun _ => h

theorem applyUpdate_delivers {slot : Slot} {update : OrderbookUpdate} {times : FrameTimes}
    {generation subscription : Nat}
    (h : s.authoritative slot = true → s.refuses slot update times generation subscription = true → own)
    (clock : Clock) : ∃ position pool, Weakens s.pool pool ∧
      Delivers own slot { s with position, pool } (s.applyUpdate slot update times generation subscription clock) := by
  unfold refuses at h
  unfold applyUpdate
  cases hposition : checkedAdd s.position 1 with
  | none => exact ⟨s.position, s.pool, .refl _, .aside (reportSlotLoss_writes (fun hown => h hown (by simp [hposition])) _ _)⟩
  | some position =>
    simp only [hposition] at h
    refine ⟨position, ?_⟩
    dsimp only
    cases hcandidate : { s with position }.candidateOf slot update times generation subscription with
    | none =>
      refine ⟨s.pool, .refl _, .aside (reportSlotLoss_writes ?_ _ _)⟩
      exact fun hown => h hown (by simp [hcandidate])
    | some candidate =>
      simp only [hcandidate] at h
      dsimp only
      split
      · refine ⟨s.pool, .refl _, applyByRole_delivers ?_⟩
        exact h
      · rename_i gate hgate
        split
        · rename_i harmed
          have hown : s.authoritative slot = true := by
            simp [authoritative, poolArmed, show s.pool = some gate from hgate, harmed]
          exact applyPooled_delivers (s := { s with position }) hgate harmed (h hown) slot update clock
        · refine ⟨s.pool, .refl _, applyByRole_delivers ?_⟩
          exact h

theorem Delivers.quiet {slot : Slot} (h : Delivers own slot s t) : Quiet s t := by
  have hbase (s : Supervisor) (authoritative : Bool) : Quiet s (s.onBaseAccepted slot authoritative) := by
    refine Idle.quiet ?_
    cases authoritative <;> cases slot <;> exact .of_eq rfl rfl (by simp [onBaseAccepted, updateActive]) rfl (.refl _)
  cases h with
  | aside writes => exact writes.idle.quiet
  | shadow index candidate _ result =>
    have hshadowed : Writes True True s _ := s.shadowed_writes slot candidate
    exact result ▸ hshadowed.idle.quiet.trans (hbase _ _)
  | book candidate book commit pool applied same result =>
    have hshadowed := (show Writes True True s _ from s.shadowed_writes slot candidate).idle
    refine result ▸ Quiet.trans ?_ (hbase _ _)
    exact ⟨hshadowed.config, hshadowed.market, hshadowed.standbys, OrderBook.applySnapshot_market applied,
      .applySnapshot applied, same.weakens⟩

/-! ## One step -/

/-- A book frame of this market from a running connection: its generation, its role and the update. -/
structure Frame where
  generation : Nat
  slot : Slot
  update : OrderbookUpdate

def frameOf (self : Supervisor) : SupervisorEvent → Option Frame
  | .notice generation (.event (.orderbookUpdate update) _ _) _ _ =>
    if update.marketSlug = self.config.market then (self.slotOf generation).map (⟨generation, ·, update⟩) else none
  | _ => none

theorem frameOf_market {frame : Frame} (h : s.frameOf e = some frame) :
    frame.update.marketSlug = s.config.market := by
  unfold frameOf at h
  split at h
  · split at h
    · rename_i hours
      obtain ⟨_, -, rfl⟩ := Option.map_eq_some_iff.1 h
      exact hours
    · cases h
  · cases h

/-- The event is evidence of a loss on the connection's own side, or of an update the book refuses. -/
def reportsLocalLoss (self : Supervisor) : SupervisorEvent → Bool
  | .notice generation note _ _ =>
    (self.slotOf generation).any fun slot => self.authoritative slot &&
      match note with
      | .decodeFailure bookRelevant => bookRelevant
      | .overload _ => true
      | .event (.orderbookUpdate update) times subscription =>
        update.marketSlug = self.config.market && self.refuses slot update times generation subscription
      | _ => false
  | .ended slot reason _ =>
    self.poolArmed && (self.active slot).any (·.isEstablished) && reason = .noticeUndeliverable
  | _ => false

/-- A step applies one frame, or none. -/
inductive Step (own : Prop) (s : Supervisor) (e : SupervisorEvent) (t : Supervisor) : Prop
  | frame (slot : Slot) (update : OrderbookUpdate) (times : FrameTimes) (generation subscription : Nat) (look : Look)
      (clock : Clock) (event : e = .notice generation (.event (.orderbookUpdate update) times subscription) look clock)
      (routed : s.slotOf generation = some slot) (ours : update.marketSlug = s.config.market)
      (brings : s.frameOf e = some ⟨generation, slot, update⟩)
      (result : t = s.applyUpdate slot update times generation subscription clock)
      (delivers : ∃ position pool, Weakens s.pool pool ∧ Delivers own slot { s with position, pool } t)
  | other (brings : s.frameOf e = none) (writes : Writes own False s t)

theorem onNotice_step {generation : Nat} {note : ConnectionNote} {look : Look} {clock : Clock}
    (h : s.reportsLocalLoss (.notice generation note look clock) = true → own) :
    Step own s (.notice generation note look clock) (s.onNotice generation note look clock) := by
  unfold onNotice
  cases hslot : s.slotOf generation with
  | none =>
    refine .other ?_ (.refl s)
    unfold frameOf
    split
    · simp_all
    · rfl
  | some slot =>
    simp only [reportsLocalLoss, hslot, Option.any_some, Bool.and_eq_true] at h
    cases note with
    | ready | heartbeat | resubscribed =>
      refine .other rfl (Write.change slot _ id fun _ => ?_).once
      rfl
    | decodeFailure bookRelevant =>
      refine .other rfl ?_
      dsimp only
      split
      · rename_i hrelevant
        exact reportSlotLoss_writes (fun hown => h ⟨hown, hrelevant⟩) _ _
      · exact .refl s
    | overload dropped => exact .other rfl (reportSlotLoss_writes (fun hown => h ⟨hown, rfl⟩) _ _)
    | event event times subscription =>
      cases event with
      | orderbookUpdate update =>
        dsimp only [onEvent]
        by_cases hm : update.marketSlug = s.config.market
        · rw [if_pos hm]
          exact .frame slot update times generation subscription look clock rfl hslot hm (by simp [frameOf, hm, hslot])
            rfl (applyUpdate_delivers (fun hown hrefuses => h ⟨hown, by simp [hm, hrefuses]⟩) clock)
        · rw [if_neg hm]
          exact .other (by simp [frameOf, hm]) (.refl s)
      | marketResolved resolved =>
        refine .other rfl ?_
        dsimp only [onEvent]
        split
        · exact s.forwardResolution_writes _ _ _ _ id
        · exact .refl s
      | unknown name => exact .other rfl (.refl s)

theorem step_cases (hloss : s.reportsLocalLoss e = true → own)
    (hbase : ∀ c, s.primary = some c → c.producedBase = true → own) (h : s.step e = some t) : Step own s e t := by
  cases e with
  | spawn slot => exact Option.some.inj h ▸ .other rfl (s.spawnDue_writes slot id)
  | armRecovery now => exact Option.some.inj h ▸ .other rfl (s.armRecovery_writes now id)
  | notice generation note look clock => exact Option.some.inj h ▸ onNotice_step hloss
  | takeCommand generation =>
    obtain ⟨slot, -, rfl⟩ := Option.map_eq_some_iff.1 h
    refine .other rfl (Write.change slot _ id fun _ => ?_).once
    rfl
  | recoveryDue look grantedAt closed clock =>
    exact Option.some.inj h ▸ .other rfl (s.onRecoveryDue_writes _ _ _ _ id)
  | expire slot look clock => exact Option.some.inj h ▸ .other rfl (fenceIfExpired_writes hbase _ _ _)
  | ended slot reason clock =>
    obtain ⟨connection, hactive, rfl⟩ := Option.map_eq_some_iff.1 h
    refine .other rfl (closeSlot_writes ?_ ?_ clock)
    · rintro rfl
      exact hbase connection hactive
    · rintro harmed hestablished rfl
      exact hloss (by simp [reportsLocalLoss, harmed, hactive, hestablished])

theorem step_any (h : s.step e = some t) : Step True s e t :=
  step_cases (fun _ => trivial) (fun _ _ _ => trivial) h

theorem step_quiet (h : s.step e = some t) : Quiet s t := by
  cases step_any h with
  | frame _ _ _ _ _ _ _ _ _ _ _ _ delivers =>
    obtain ⟨position, pool, hpool, hdelivers⟩ := delivers
    have hplaced : Quiet s { s with position, pool } := ⟨rfl, rfl, rfl, rfl, .refl _, hpool⟩
    exact hplaced.trans hdelivers.quiet
  | other _ writes => exact writes.idle.quiet

end Supervisor

end PmWs
