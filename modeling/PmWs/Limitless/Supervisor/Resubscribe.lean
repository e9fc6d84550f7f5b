import PmWs.Limitless.Supervisor.HandBack
import PmWs.Limitless.Supervisor.Reports

/-!
# One outstanding re-emit

A connection takes commands from a channel of one place, and answers each when
it has put it on the wire. The recovery attempt of the publishing connection is
what keeps a second command from being handed over before the first is
answered. Anything that clears the attempt earlier lets the next loss hand over
another one.
-/

open MachineInt Runs

namespace PmWs

namespace Supervisor

variable {s t : Supervisor}

/-! ## Lines -/

theorem active_updateActive (s : Supervisor) (slot other : Slot) (f : ActiveConnection → ActiveConnection) :
    (s.updateActive slot f).active other = if other = slot then (s.active slot).map f else s.active other := by
  cases slot with
  | primary => cases other <;> simp [updateActive, active]
  | standby index =>
    cases other with
    | primary => simp [updateActive, active]
    | standby j =>
      simp only [updateActive, active, List.getElem?_modify, Slot.standby.injEq]
      by_cases heq : index = j
      · subst heq
        cases s.standbys[index]? <;> simp
      · simp [heq, Ne.symm heq]

theorem active_setActive {slot : Slot} (h : s.hasSlot slot = true) (connection : Option ActiveConnection) (other : Slot) :
    (s.setActive slot connection).active other = if other = slot then connection else s.active other := by
  cases slot with
  | primary => cases other <;> simp [setActive, active]
  | standby index =>
    have hlt : index < s.standbys.length := of_decide_eq_true h
    cases other with
    | primary => simp [setActive, active]
    | standby j =>
      simp only [setActive, active, List.getElem?_modify, Slot.standby.injEq]
      by_cases heq : index = j
      · subst heq
        simp [List.getElem?_eq_getElem hlt]
      · simp [heq, Ne.symm heq]

theorem slotOf_some {generation : Nat} {slot : Slot} (h : s.slotOf generation = some slot) :
    ∃ c, s.active slot = some c ∧ c.generation = generation := by
  have hfound := List.find?_some h
  obtain ⟨c, hc, heq⟩ := (Option.any_eq_true _ _).1 hfound
  exact ⟨c, hc, of_decide_eq_true heq⟩

theorem slotOf_none {generation : Nat} (h : s.slotOf generation = none) {slot : Slot} {c : ActiveConnection}
    (hc : s.active slot = some c) : c.generation ≠ generation := by
  have hslots : slot ∈ s.slots := by
    cases slot with
    | primary => simp [slots]
    | standby index =>
      obtain ⟨standby, hstandby, -⟩ := Option.bind_eq_some_iff.1 hc
      simp [slots, (List.getElem?_eq_some_iff.1 hstandby).1]
  intro heq
  have hnone := List.find?_eq_none.1 h slot hslots
  simp [hc, heq] at hnone

theorem spawnDue_line {slot : Slot} (h : s.hasSlot slot = true ∧ s.active slot = none) (other : Slot) :
    (s.spawnDue slot).line other =
      if other = slot then some (ActiveConnection.spawned s.nextGeneration).line else s.line other := by
  have hactive := active_setActive (s := { s with nextGeneration := saturatingAdd s.nextGeneration 1 }) h.1
    (some (.spawned s.nextGeneration)) other
  have hpool (u : Supervisor) (f : PoolGate → PoolGate) : (u.updatePool f).active other = u.active other := by
    cases other <;> rfl
  unfold spawnDue line
  rw [if_pos h, hpool, hactive]
  split <;> rfl

theorem spawnDue_next {slot : Slot} (h : s.hasSlot slot = true ∧ s.active slot = none) :
    (s.spawnDue slot).nextGeneration = saturatingAdd s.nextGeneration 1 := by
  unfold spawnDue
  rw [if_pos h]
  cases slot <;> rfl

/-- No command was handed over, taken or answered, and no role changed. -/
structure SameLines (s t : Supervisor) : Prop where
  next : t.nextGeneration = s.nextGeneration
  lines : ∀ slot, t.line slot = s.line slot

theorem SameLines.carries (h : SameLines s t) : Carries s t := .of_lines h.next fun slot => .inl (h.lines slot)

theorem SameLines.of_active (hnext : t.nextGeneration = s.nextGeneration) (hprimary : t.primary = s.primary)
    (hstandbys : t.standbys = s.standbys) : SameLines s t := by
  refine ⟨hnext, fun slot => ?_⟩
  cases slot with
  | primary => simp only [line, active, hprimary]
  | standby index => simp only [line, active, hstandbys]

theorem SameLines.of_standby {index : Nat} {f : Standby → Standby} (hnext : t.nextGeneration = s.nextGeneration)
    (hprimary : t.primary = s.primary) (hstandbys : t.standbys = s.standbys.modify index f)
    (hf : ∀ standby, (f standby).active.map (·.line) = standby.active.map (·.line)) : SameLines s t := by
  refine ⟨hnext, fun slot => ?_⟩
  cases slot with
  | primary => simp only [line, active, hprimary]
  | standby other =>
    simp only [line, active, hstandbys, List.getElem?_modify]
    by_cases heq : index = other
    · cases hstandby : s.standbys[other]? with
      | none => simp [heq]
      | some standby => simpa [heq] using hf standby
    · simp [heq]

theorem shadowed_lines (s : Supervisor) (slot : Slot) (candidate : Candidate) : SameLines s (s.shadowed slot candidate) := by
  cases slot with
  | primary => exact .of_active rfl rfl rfl
  | standby index =>
    unfold shadowed applyShadow
    dsimp only
    split
    · exact .of_active rfl rfl rfl
    · split
      · exact .of_standby rfl rfl rfl fun _ => rfl
      · refine .of_standby rfl rfl rfl fun _ => ?_
        rw [Option.map_map]
        rfl

theorem SameLines.trans {u : Supervisor} (h₁ : SameLines s t) (h₂ : SameLines t u) : SameLines s u :=
  ⟨h₂.next.trans h₁.next, fun slot => (h₂.lines slot).trans (h₁.lines slot)⟩

/-- What an update does to the commands: nothing, or it clears the attempt of the connection that brought it. -/
def Clears (slot : Slot) (s t : Supervisor) : Prop :=
  Carries s t ∨ ∃ mid, SameLines s mid ∧ ∃ f : ActiveConnection → ActiveConnection,
    SameLines (mid.updateActive slot f) t ∧ ∀ c, (f c).line = { c.line with recovery := none }

theorem onBaseAccepted_clears {mid : Supervisor} (h : SameLines s mid) (slot : Slot) (authoritative : Bool) :
    Clears slot s (mid.onBaseAccepted slot authoritative) := by
  refine .inr ⟨mid, h, fun c => { c with producedBase := true, recovery := none }, ?_, fun _ => rfl⟩
  cases authoritative <;> cases slot <;> exact .of_active rfl rfl rfl

theorem Delivers.clears {own : Prop} {slot : Slot} (h : Delivers own slot s t) : Clears slot s t := by
  cases h with
  | aside writes => exact .inl writes.reports.carries
  | shadow index candidate _ result => exact result ▸ onBaseAccepted_clears (s.shadowed_lines slot candidate) slot false
  | book candidate book commit pool _ _ result =>
    refine result ▸ onBaseAccepted_clears ((s.shadowed_lines slot candidate).trans ?_) slot true
    exact .of_active rfl rfl rfl

theorem forwardResolution_lines (s : Supervisor) (resolved : MarketResolved) (times : FrameTimes)
    (generation subscription : Nat) : SameLines s (s.forwardResolution resolved times generation subscription) := by
  unfold forwardResolution
  split
  · exact .of_active rfl rfl rfl
  · dsimp only
    split
    · exact .of_active rfl rfl rfl
    · split
      · exact .of_active rfl rfl rfl
      · split <;> exact .of_active rfl rfl rfl

/-- Handing the publishing connection a re-emit: a due attempt over an open channel. -/
def emits (self : Supervisor) : SupervisorEvent → Bool
  | .recoveryDue look _ closed _ => !closed &&
      ((self.armRecovery look.now).primary.bind (·.recovery)).any fun
        | .pending due => due ≤ look.now
        | _ => false
  | _ => false

/-- The event leaves the connection of a role as it was, but without an attempt. -/
def clearsAttempt (self : Supervisor) (e : SupervisorEvent) (slot : Slot) : Bool :=
  (self.step e).any fun t => t.line slot = (self.line slot).map ({ · with recovery := none })

/-- The `try_send` of a re-emit finds the channel occupied. -/
def findsFull (self : Supervisor) (e : SupervisorEvent) : Bool := self.emits e && self.primary.any (·.queued)

end Supervisor

/-! ## Commands and answers -/

/-- A supervisor, and how many commands each connection has taken off its channel and not yet answered. -/
structure CommandedSupervisor where
  supervisor : Supervisor
  writing : Nat → Nat

namespace CommandedSupervisor

def start (supervisor : Supervisor) : CommandedSupervisor := ⟨supervisor, fun _ => 0⟩

/-- Whether a command waits in the connection's channel. -/
def holdsCommand (self : CommandedSupervisor) (generation : Nat) : Bool :=
  (self.supervisor.slotOf generation).any fun slot => (self.supervisor.active slot).any (·.queued)

/-- A connection takes a command only where one waits, and answers only what it took. -/
def step (self : CommandedSupervisor) (e : SupervisorEvent) : Option CommandedSupervisor :=
  match e with
  | .takeCommand generation =>
    if self.holdsCommand generation then
      (self.supervisor.step e).map
        (⟨·, Function.update self.writing generation (self.writing generation + 1)⟩)
    else none
  | .notice generation (.resubscribed _) _ _ =>
    if 0 < self.writing generation then
      (self.supervisor.step e).map
        (⟨·, Function.update self.writing generation (self.writing generation - 1)⟩)
    else none
  | _ => (self.supervisor.step e).map (⟨·, self.writing⟩)

/-- The commands handed to a connection that it has not yet answered. -/
def owed (self : CommandedSupervisor) (l : Supervisor.Line) : Nat := l.queued.toNat + self.writing l.generation

/-- A connection numbers its subscriptions from one. -/
def numbered : SupervisorEvent → Bool
  | .notice _ (.ready _ subscription _) _ _ | .notice _ (.resubscribed subscription) _ _ => 0 < subscription
  | _ => true

/-- No book frame is accepted from a connection that still owes an answer, and no attempt is armed over a recovered
book whose publishing connection does. No generation is used twice. -/
def patient (self : CommandedSupervisor) (e : SupervisorEvent) : Bool :=
  match e with
  | .spawn _ => self.supervisor.nextGeneration < u64Max
  | .armRecovery _ | .recoveryDue .. =>
    self.supervisor.needsRecovery || self.supervisor.primary.all fun c => self.owed c.line = 0
  | _ => (self.supervisor.frameOf e).all fun frame =>
      (self.supervisor.line frame.slot).all fun l => self.owed l = 0 || !self.supervisor.clearsAttempt e frame.slot

/-- A connection that owes an answer owes one, and its attempt says so. -/
def Waits (w : CommandedSupervisor) (l : Supervisor.Line) : Prop :=
  w.owed l = 0 ∨ (w.owed l = 1 ∧ (∃ due, l.recovery = some (.requested due)) ∧ 0 < l.subscription)

/-- Generations are used once, and every running connection waits for at most one answer. -/
structure Orderly (w : CommandedSupervisor) : Prop where
  distinct : ∀ a b k l, w.supervisor.line a = some k → w.supervisor.line b = some l → k.generation = l.generation → a = b
  born : ∀ slot l, w.supervisor.line slot = some l → l.generation < w.supervisor.nextGeneration
  unborn : ∀ g, w.supervisor.nextGeneration ≤ g → w.writing g = 0
  waits : ∀ slot l, w.supervisor.line slot = some l → w.Waits l

variable {s t : Supervisor} {writing : Nat → Nat} {c : Supervisor.ActiveConnection} {slot : Slot}

theorem Orderly.carries (h : Orderly ⟨s, writing⟩) (hc : s.Carries t) : Orderly ⟨t, writing⟩ := by
  obtain ⟨hnext, origin, hlines⟩ := hc
  refine ⟨?_, ?_, ?_, ?_⟩
  · intro a b k l ha hb heq
    exact origin.injective (h.distinct _ _ k l (hlines a k ha) (hlines b l hb) heq)
  · intro slot l hl
    exact (h.born _ l (hlines slot l hl)).trans_eq hnext.symm
  · intro g hg
    exact h.unborn g (hnext ▸ hg)
  · intro slot l hl
    exact h.waits _ l (hlines slot l hl)

theorem Orderly.ends (h : Orderly ⟨s, writing⟩) (hwrites : Supervisor.Writes True True s t) : Orderly ⟨t, writing⟩ :=
  h.carries hwrites.reports.carries

/-- A change of one connection, and of what that connection has yet to answer. -/
theorem Orderly.update (h : Orderly ⟨s, writing⟩) (slot : Slot)
    (hc : s.active slot = some c) {f : Supervisor.ActiveConnection → Supervisor.ActiveConnection}
    (hf : (f c).generation = c.generation) {writing' : Nat → Nat}
    (hwriting : ∀ g, g ≠ c.generation → writing' g = writing g)
    (hwaits : Waits ⟨s, writing'⟩ (f c).line) : Orderly ⟨s.updateActive slot f, writing'⟩ := by
  have hline : s.line slot = some c.line := by simp [Supervisor.line, hc]
  have hlines : ∀ other l, (s.updateActive slot f).line other = some l →
      (other = slot ∧ l = (f c).line) ∨ (other ≠ slot ∧ s.line other = some l) := by
    intro other l hl
    simp only [Supervisor.line, Supervisor.active_updateActive] at hl
    split at hl
    · rename_i heq
      rw [hc] at hl
      exact .inl ⟨heq, (Option.some.inj hl).symm⟩
    · rename_i hne
      exact .inr ⟨hne, hl⟩
  -- every line of the result has the generation of the line it came from
  have hgeneration : ∀ other l, (s.updateActive slot f).line other = some l →
      ∃ k, s.line other = some k ∧ k.generation = l.generation := by
    intro other l hl
    rcases hlines other l hl with ⟨rfl, rfl⟩ | ⟨-, hl⟩
    · exact ⟨c.line, hline, hf.symm⟩
    · exact ⟨l, hl, rfl⟩
  have hnext : (s.updateActive slot f).nextGeneration = s.nextGeneration := by
    cases slot <;> rfl
  refine ⟨?_, ?_, ?_, ?_⟩
  · intro a b k l ha hb heq
    obtain ⟨ka, hka, hga⟩ := hgeneration a k ha
    obtain ⟨kb, hkb, hgb⟩ := hgeneration b l hb
    exact h.distinct a b ka kb hka hkb (hga.trans (heq.trans hgb.symm))
  · intro other l hl
    obtain ⟨k, hk, hg⟩ := hgeneration other l hl
    exact (hg ▸ h.born other k hk).trans_eq hnext.symm
  · intro g hg
    have hg : s.nextGeneration ≤ g := hnext ▸ hg
    have hborn : c.generation < s.nextGeneration := h.born slot c.line hline
    rw [show (CommandedSupervisor.mk _ writing').writing g = writing g from hwriting g (by omega)]
    exact h.unborn g hg
  · intro other l hl
    rcases hlines other l hl with ⟨-, rfl⟩ | ⟨hne, hl⟩
    · exact hwaits
    · have hother : l.generation ≠ c.generation := fun heq => hne (h.distinct other slot l c.line hl hline heq)
      have hwaits := h.waits other l hl
      simpa only [Waits, owed, hwriting l.generation hother] using hwaits

theorem Orderly.of_active (h : Orderly ⟨s, writing⟩) (slot : Slot)
    (hc : s.active slot = some c) : Waits ⟨s, writing⟩ c.line :=
  h.waits slot c.line (by simp [Supervisor.line, hc])

/-- A connection that was not asked to re-emit owes no answer. -/
theorem Waits.idle {w : CommandedSupervisor} {l : Supervisor.Line} (h : w.Waits l)
    (hl : ∀ due, l.recovery ≠ some (.requested due)) : w.owed l = 0 := by
  rcases h with hzero | ⟨-, ⟨due, hdue⟩, -⟩
  · exact hzero
  · exact absurd hdue (hl due)

/-! ## Steps -/

/-- A frame that is not accepted from a connection which owes an answer leaves every attempt that is waited for. -/
theorem Orderly.clears (h : Orderly ⟨s, writing⟩)
    (hkept : ∀ l, s.line slot = some l → owed ⟨s, writing⟩ l = 0 ∨ t.line slot ≠ some { l with recovery := none })
    (hclears : s.Clears slot t) : Orderly ⟨t, writing⟩ := by
  rcases hclears with hcarries | ⟨mid, hsame, f, hafter, hf⟩
  · exact h.carries hcarries
  · have hmid := h.carries hsame.carries
    refine Orderly.carries ?_ hafter.carries
    cases hc : mid.active slot with
    | none =>
      -- nobody is left in the role
      refine hmid.carries (.of_lines (by cases slot <;> rfl) fun other => .inl ?_)
      simp only [Supervisor.line, Supervisor.active_updateActive]
      split
      · rename_i heq
        simp [heq, hc]
      · rfl
    | some c =>
      have hline : s.line slot = some c.line := by
        rw [← hsame.lines slot]
        simp [Supervisor.line, hc]
      have hcleared : t.line slot = some { c.line with recovery := none } := by
        rw [hafter.lines slot]
        simp [Supervisor.line, Supervisor.active_updateActive, hc, hf]
      have hzero := (hkept c.line hline).resolve_right (not_not_intro hcleared)
      have hgeneration := congrArg Supervisor.Line.generation (hf c)
      refine hmid.update slot hc hgeneration (fun _ _ => rfl) (.inl ?_)
      rw [hf c]
      exact hzero

theorem Orderly.spawnDue (h : Orderly ⟨s, writing⟩) (hroom : s.nextGeneration < u64Max) (slot : Slot) :
    Orderly ⟨s.spawnDue slot, writing⟩ := by
  by_cases hempty : s.hasSlot slot = true ∧ s.active slot = none
  · have hnext : (s.spawnDue slot).nextGeneration = s.nextGeneration + 1 := by
      rw [Supervisor.spawnDue_next hempty]
      simp only [saturatingAdd]
      omega
    have hlines : ∀ other l, (s.spawnDue slot).line other = some l →
        (other = slot ∧ l = (Supervisor.ActiveConnection.spawned s.nextGeneration).line) ∨ s.line other = some l := by
      intro other l hl
      rw [Supervisor.spawnDue_line hempty] at hl
      split at hl
      · rename_i heq
        exact .inl ⟨heq, (Option.some.inj hl).symm⟩
      · exact .inr hl
    refine ⟨?_, ?_, ?_, ?_⟩
    · -- the new connection is the only one of its generation
      intro a b k l ha hb heq
      rcases hlines a k ha with ⟨rfl, rfl⟩ | ha' <;> rcases hlines b l hb with ⟨rfl, rfl⟩ | hb'
      · rfl
      · exact absurd heq.symm (Nat.ne_of_lt (h.born b l hb'))
      · exact absurd heq (Nat.ne_of_lt (h.born a k ha'))
      · exact h.distinct a b k l ha' hb' heq
    · intro other l hl
      refine Nat.lt_of_lt_of_eq ?_ hnext.symm
      rcases hlines other l hl with ⟨-, rfl⟩ | hl'
      · exact Nat.lt_succ_self _
      · exact (h.born other l hl').trans (Nat.lt_succ_self _)
    · intro g hg
      exact h.unborn g ((Nat.le_succ _).trans (hnext.symm.trans_le hg))
    · intro other l hl
      rcases hlines other l hl with ⟨-, rfl⟩ | hl'
      · exact .inl (by simpa [owed, Supervisor.ActiveConnection.spawned, Supervisor.ActiveConnection.line]
          using h.unborn _ (Nat.le_refl _))
      · exact h.waits other l hl'
  · rwa [Supervisor.spawnDue, if_neg hempty]

/-- Arming leaves a connection that owes an answer its attempt. -/
theorem Orderly.armRecovery (h : Orderly ⟨s, writing⟩) (now : Nat)
    (hpatient : s.needsRecovery = true ∨ ∀ c, s.primary = some c → owed ⟨s, writing⟩ c.line = 0) :
    Orderly ⟨s.armRecovery now, writing⟩ := by
  let arm : Supervisor.ActiveConnection → Supervisor.ActiveConnection := fun c =>
    if !s.needsRecovery || !c.isEstablished then { c with recovery := none }
    else if c.recovery.isSome then c else { c with recovery := some (.pending now) }
  show Orderly ⟨s.updateActive .primary arm, writing⟩
  cases hc : s.primary with
  | none =>
    refine h.carries (.of_lines rfl fun other => .inl ?_)
    cases other with
    | primary => simp [Supervisor.line, Supervisor.updateActive, Supervisor.active, hc]
    | standby index => rfl
  | some c =>
    have hwaits := h.of_active .primary hc
    have hgeneration : (arm c).generation = c.generation := by
      dsimp only [arm]
      split
      · rfl
      · split <;> rfl
    refine h.update .primary hc hgeneration (fun _ _ => rfl) ?_
    dsimp only [arm]
    split
    · rename_i hidle
      -- the attempt goes: either the book needs none, or the connection never established
      refine .inl ?_
      rcases hpatient with hneeds | hzero
      · rcases hwaits with hzero | ⟨-, -, hestablished⟩
        · exact hzero
        · have hestablished : c.isEstablished = true := decide_eq_true hestablished
          simp [hneeds, hestablished] at hidle
      · exact hzero c hc
    · split
      · exact hwaits
      · rename_i hnone
        exact .inl (hwaits.idle fun due hdue => hnone (by
          have hdue : c.recovery = some (.requested due) := hdue
          simp [hdue]))

/-- A connection with an armed attempt has established. -/
theorem armRecovery_established {now due : Nat}
    (hc : (s.armRecovery now).primary = some c) (hpending : c.recovery = some (.pending due)) :
    c.isEstablished = true := by
  obtain ⟨c₀, -, rfl⟩ := Option.map_eq_some_iff.1 hc
  split at hpending
  · cases hpending
  · rename_i hneeds
    have hestablished : c₀.isEstablished = true := by
      by_contra hnot
      simp [hnot] at hneeds
    rw [if_neg hneeds]
    split <;> exact hestablished

/-- A re-emit goes to a connection that owes nothing. -/
theorem Orderly.emitResubscribe (h : Orderly ⟨s, writing⟩) (grantedAt : Nat) (closed : Bool) {due : Nat}
    (hc : s.primary = some c) (hpending : c.recovery = some (.pending due))
    (hestablished : c.isEstablished = true) : Orderly ⟨s.emitResubscribe grantedAt closed, writing⟩ := by
  have hzero : owed ⟨s, writing⟩ c.line = 0 :=
    (h.of_active .primary hc).idle fun due' hdue' => by
      have hdue' : c.recovery = some (.requested due') := hdue'
      simp [hpending] at hdue'
  let emit : Supervisor.ActiveConnection → Supervisor.ActiveConnection := fun c =>
    if closed then { c with recovery := some .unreachable }
    else { c with recovery := some (.requested (grantedAt + s.config.resubscribeWindow)), queued := true }
  show Orderly ⟨s.updateActive .primary emit, writing⟩
  have hgeneration : (emit c).generation = c.generation := by
    dsimp only [emit]
    split <;> rfl
  refine h.update .primary hc hgeneration (fun _ _ => rfl) ?_
  dsimp only [emit]
  split
  · exact .inl hzero
  · refine .inr ⟨?_, ⟨_, rfl⟩, of_decide_eq_true hestablished⟩
    simp only [owed, Supervisor.ActiveConnection.line, Nat.add_eq_zero_iff] at hzero
    simp [owed, Supervisor.ActiveConnection.line, hzero.2]

theorem Orderly.onRecoveryDue (h : Orderly ⟨s, writing⟩) (look : Look) (grantedAt : Nat) (closed : Bool)
    (clock : Supervisor.Clock)
    (hpatient : s.needsRecovery = true ∨ ∀ c, s.primary = some c → owed ⟨s, writing⟩ c.line = 0) :
    Orderly ⟨s.onRecoveryDue look grantedAt closed clock, writing⟩ := by
  have harmed := h.armRecovery look.now hpatient
  unfold Supervisor.onRecoveryDue
  dsimp only
  split
  · rename_i due hdue
    obtain ⟨hrecovery, -⟩ := Option.filter_eq_some_iff.1 hdue
    obtain ⟨c, hc, hpending⟩ := Option.bind_eq_some_iff.1 hrecovery
    exact harmed.emitResubscribe grantedAt closed hc hpending (armRecovery_established hc hpending)
  · exact harmed.ends (Supervisor.escalateRecovery_writes _ _)
  · exact harmed.ends (Supervisor.escalateRecovery_writes _ _)
  · exact harmed
  · exact harmed

/-- A command taken off the channel is still owed. -/
theorem Orderly.takeCommand (h : Orderly ⟨s, writing⟩) (hc : s.active slot = some c) (hqueued : c.queued = true) :
    Orderly ⟨s.updateActive slot fun c => { c with queued := false },
      Function.update writing c.generation (writing c.generation + 1)⟩ := by
  have hwaits := h.of_active slot hc
  refine h.update slot hc rfl (fun g hg => Function.update_of_ne hg _ _) ?_
  simpa [Waits, owed, Supervisor.ActiveConnection.line, hqueued, Nat.add_comm] using hwaits

/-- An answer settles what was owed. -/
theorem Orderly.answered (h : Orderly ⟨s, writing⟩)
    (hc : s.active slot = some c) (hwriting : 0 < writing c.generation) (window subscription now : Nat) :
    Orderly ⟨s.updateActive slot (Supervisor.onResubscribed window subscription now),
      Function.update writing c.generation (writing c.generation - 1)⟩ := by
  have hwaits := h.of_active slot hc
  refine h.update slot hc rfl (fun g hg => Function.update_of_ne hg _ _) (.inl ?_)
  have hone : c.queued.toNat + writing c.generation = 1 := by
    rcases hwaits with hzero | ⟨hone, -⟩
    · have hzero : c.queued.toNat + writing c.generation = 0 := hzero
      omega
    · exact hone
  simp only [owed, Supervisor.ActiveConnection.line, Supervisor.onResubscribed, Function.update_self]
  omega

/-- An answer of a connection that ended is discarded. -/
theorem Orderly.discarded (h : Orderly ⟨s, writing⟩) {generation : Nat} (hnone : s.slotOf generation = none)
    (hwriting : 0 < writing generation) :
    Orderly ⟨s, Function.update writing generation (writing generation - 1)⟩ := by
  have hother : ∀ slot l, s.line slot = some l → l.generation ≠ generation := by
    intro slot l hl
    obtain ⟨c, hc, rfl⟩ := Option.map_eq_some_iff.1 hl
    exact Supervisor.slotOf_none hnone hc
  refine ⟨h.distinct, h.born, ?_, ?_⟩
  · intro g hg
    have hunborn := h.unborn g hg
    have hne : g ≠ generation := by
      rintro rfl
      have hzero : writing g = 0 := hunborn
      omega
    exact (Function.update_of_ne hne _ _).trans hunborn
  · intro slot l hl
    have hwaits := h.waits slot l hl
    simpa only [Waits, owed, Function.update_of_ne (hother slot l hl)] using hwaits

/-- A notice that answers no command. -/
theorem Orderly.onNotice (h : Orderly ⟨s, writing⟩) {generation : Nat} {note : ConnectionNote} {look : Look}
    {clock : Supervisor.Clock} (hnumbered : numbered (.notice generation note look clock) = true)
    (hpatient : patient ⟨s, writing⟩ (.notice generation note look clock) = true)
    (hanswer : ∀ subscription, note ≠ .resubscribed subscription) :
    Orderly ⟨s.onNotice generation note look clock, writing⟩ := by
  unfold Supervisor.onNotice
  cases hslot : s.slotOf generation with
  | none => exact h
  | some slot =>
    obtain ⟨c, hc, -⟩ := Supervisor.slotOf_some hslot
    cases note with
    | ready deadline subscription observedAt =>
      refine h.update slot hc rfl (fun _ _ => rfl) ?_
      rcases h.of_active slot hc with hzero | ⟨hone, hrequested, -⟩
      · exact .inl hzero
      · exact .inr ⟨hone, hrequested, of_decide_eq_true hnumbered⟩
    | heartbeat observedAt =>
      have hwaits := h.of_active slot hc
      exact h.update slot hc rfl (fun _ _ => rfl) hwaits
    | resubscribed subscription => exact absurd rfl (hanswer subscription)
    | decodeFailure bookRelevant =>
      dsimp only
      split
      · exact h.ends (Supervisor.reportSlotLoss_writes (fun _ => trivial) _ _)
      · exact h
    | overload dropped => exact h.ends (Supervisor.reportSlotLoss_writes (fun _ => trivial) _ _)
    | event event times subscription =>
      cases event with
      | orderbookUpdate update =>
        dsimp only [Supervisor.onEvent]
        split
        · rename_i hours
          have hown : s.authoritative slot = true → s.refuses slot update times generation subscription = true → True :=
            fun _ _ => trivial
          obtain ⟨position, pool, -, hdelivers⟩ := Supervisor.applyUpdate_delivers hown clock
          have hplaced : Orderly ⟨{ s with position, pool }, writing⟩ := h.carries (.of_active rfl rfl rfl)
          refine hplaced.clears (fun l hl => ?_) hdelivers.clears
          have hl : s.line slot = some l := by cases slot <;> exact hl
          simpa [patient, Supervisor.frameOf, Supervisor.clearsAttempt, Supervisor.step, Supervisor.onNotice,
            Supervisor.onEvent, hours, hslot, hl, owed] using hpatient
        · exact h
      | marketResolved resolved =>
        dsimp only [Supervisor.onEvent]
        split
        · exact h.carries (Supervisor.forwardResolution_lines _ _ _ _ _).carries
        · exact h
      | unknown name => exact h

theorem Orderly.step {w w' : CommandedSupervisor} {e : SupervisorEvent} (h : w.Orderly) (hnumbered : numbered e = true)
    (hpatient : w.patient e = true) (hmove : w.step e = some w') : w'.Orderly := by
  obtain ⟨s, writing⟩ := w
  have harm : (s.needsRecovery || s.primary.all fun c => owed ⟨s, writing⟩ c.line = 0) = true →
      s.needsRecovery = true ∨ ∀ c, s.primary = some c → owed ⟨s, writing⟩ c.line = 0 := by
    intro hor
    rcases (Bool.or_eq_true_iff ..).1 hor with hneeds | hall
    · exact .inl hneeds
    · exact .inr fun c hc => by simpa [hc] using hall
  cases e with
  | spawn slot =>
    dsimp only [CommandedSupervisor.step] at hmove
    obtain ⟨t, ht, rfl⟩ := Option.map_eq_some_iff.1 hmove
    exact Option.some.inj ht ▸ h.spawnDue (of_decide_eq_true hpatient) slot
  | armRecovery now =>
    dsimp only [CommandedSupervisor.step] at hmove
    obtain ⟨t, ht, rfl⟩ := Option.map_eq_some_iff.1 hmove
    exact Option.some.inj ht ▸ h.armRecovery now (harm hpatient)
  | recoveryDue look grantedAt closed clock =>
    dsimp only [CommandedSupervisor.step] at hmove
    obtain ⟨t, ht, rfl⟩ := Option.map_eq_some_iff.1 hmove
    exact Option.some.inj ht ▸ h.onRecoveryDue look grantedAt closed clock (harm hpatient)
  | takeCommand generation =>
    dsimp only [CommandedSupervisor.step] at hmove
    obtain ⟨hholds, hmove⟩ := Option.ite_none_right_eq_some.1 hmove
    obtain ⟨t, ht, rfl⟩ := Option.map_eq_some_iff.1 hmove
    obtain ⟨slot, hslot, rfl⟩ := Option.map_eq_some_iff.1 ht
    obtain ⟨c, hc, rfl⟩ := Supervisor.slotOf_some hslot
    have hqueued : c.queued = true := by simpa [holdsCommand, hslot, hc] using hholds
    exact h.takeCommand hc hqueued
  | expire slot look clock =>
    dsimp only [CommandedSupervisor.step] at hmove
    obtain ⟨t, ht, rfl⟩ := Option.map_eq_some_iff.1 hmove
    exact Option.some.inj ht ▸ h.ends (Supervisor.fenceIfExpired_writes (fun _ _ _ => trivial) _ _ _)
  | ended slot reason clock =>
    dsimp only [CommandedSupervisor.step] at hmove
    obtain ⟨t, ht, rfl⟩ := Option.map_eq_some_iff.1 hmove
    obtain ⟨connection, -, rfl⟩ := Option.map_eq_some_iff.1 ht
    exact h.ends (Supervisor.closeSlot_writes (fun _ _ => trivial) (fun _ _ _ => trivial) clock)
  | notice generation note look clock =>
    cases note with
    | resubscribed subscription =>
      dsimp only [CommandedSupervisor.step] at hmove
      obtain ⟨hwriting, hmove⟩ := Option.ite_none_right_eq_some.1 hmove
      obtain ⟨t, ht, rfl⟩ := Option.map_eq_some_iff.1 hmove
      cases Option.some.inj ht
      unfold Supervisor.onNotice
      cases hslot : s.slotOf generation with
      | none => exact h.discarded hslot hwriting
      | some slot =>
        obtain ⟨c, hc, rfl⟩ := Supervisor.slotOf_some hslot
        exact h.answered hc hwriting _ subscription _
    | ready | heartbeat | event | decodeFailure | overload =>
      dsimp only [CommandedSupervisor.step] at hmove
      obtain ⟨t, ht, rfl⟩ := Option.map_eq_some_iff.1 hmove
      exact Option.some.inj ht ▸ h.onNotice hnumbered hpatient fun _ heq => by cases heq

end CommandedSupervisor

section
open CommandedSupervisor

def exampleLost (generation : Nat) : SupervisorEvent :=
  .notice generation (.decodeFailure true) exampleLook fun _ => exampleLook

def exampleDue : SupervisorEvent := .recoveryDue exampleLook 0 false fun _ => exampleLook

def exampleLone : Supervisor :=
  (Supervisor.new { exampleSupervisorConfig with replicas := 1, pooled := false } false).toOption.get (by decide)

/-- A base, a loss, and a re-emit in the connection's channel. -/
def exampleAsked : List SupervisorEvent :=
  [.spawn .primary, .notice 1 (.ready 10 1 0) exampleLook fun _ => exampleLook, exampleDelivery 1 "10" 100,
    exampleLost 1, exampleDue]

/-- A frame that was in flight recovers the book, and the next loss asks again. -/
def exampleFull : CommandedSupervisor :=
  (exec step (fun _ e => numbered e = true) (start exampleLone)
    (exampleAsked ++ [exampleDelivery 1 "11" 100, exampleLost 1])).get (by decide)

end

end PmWs
