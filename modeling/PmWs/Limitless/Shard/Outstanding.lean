import PmWs.Limitless.Shard.Fences
import PmWs.Limitless.Shard.Reissue

/-!
# One outstanding reissue

A shard asks its publishing connection to send its set again over a channel of
one place, and the connection answers when it has. Only the connection in the
publishing role is asked, and only while it owes nothing: what clears the
reissue before the answer also takes the connection out of the role.
-/

open MachineInt Runs

namespace PmWs

/-- Some connection of the generation has not announced itself yet, or none runs under it. -/
def Shard.announces (self : Shard) (generation : Nat) : Bool :=
  self.slots.all (fun slot => (self.active slot).all (·.generation ≠ generation)) ||
    self.slots.any fun slot => (self.active slot).any fun c => c.generation = generation && !c.established

/-- A shard, and per generation the commands in its channel and the ones taken off it and not yet answered. -/
structure CommandedShard where
  shard : Shard
  queued : Nat → Nat
  writing : Nat → Nat

namespace CommandedShard

inductive Event where
  | shard (event : ShardEvent)
  | takeCommand (generation : Nat)

def start (shard : Shard) : CommandedShard := ⟨shard, fun _ => 0, fun _ => 0⟩

/-- A connection announces itself once, and answers only what it took. -/
def permits (self : CommandedShard) : ShardEvent → Bool
  | .notice generation (.ready ..) _ => self.shard.announces generation
  | .notice generation (.resubscribed _) _ => 0 < self.writing generation
  | _ => true

/-- The `try_send` of a command: it lands where the channel's one place is free. -/
def handedOver (self : CommandedShard) (event : ShardEvent) : Nat → Nat :=
  match self.shard.asks event with
  | some generation =>
    if self.queued generation = 0 then Function.update self.queued generation 1 else self.queued
  | none => self.queued

def answered (self : CommandedShard) : ShardEvent → Nat → Nat
  | .notice generation (.resubscribed _) _ => Function.update self.writing generation (self.writing generation - 1)
  | _ => self.writing

def step (self : CommandedShard) : Event → Option CommandedShard
  | .shard event =>
    if self.permits event then (self.shard.step event).map (⟨·, self.handedOver event, self.answered event⟩) else none
  | .takeCommand generation =>
    if 0 < self.queued generation then
      some { self with
        queued := Function.update self.queued generation (self.queued generation - 1)
        writing := Function.update self.writing generation (self.writing generation + 1) }
    else none

/-- The `try_send` finds the channel full. -/
def findsFull (self : CommandedShard) (event : ShardEvent) : Bool :=
  (self.shard.asks event).any fun generation => 0 < self.queued generation

/-- The commands handed to a connection that it has not yet answered. -/
def owed (self : CommandedShard) (generation : Nat) : Nat := self.queued generation + self.writing generation

/-- No generation is used twice. -/
def numbered (self : CommandedShard) : Event → Bool
  | .shard (.spawn _) => self.shard.nextGeneration < u64Max
  | _ => true

/-! ## What is owed -/

/-- Only the publishing connection can owe an answer among those that run, and then the reissue says so. -/
structure Waits (s : Shard) (owed : Nat → Nat) : Prop where
  wired : s.Wired
  distinct : ∀ a b k l, s.wiring.sessionAt a = some k → s.wiring.sessionAt b = some l →
    k.generation = l.generation → a = b
  born : ∀ slot l, s.wiring.sessionAt slot = some l → l.generation < s.nextGeneration
  unborn : ∀ generation, s.nextGeneration ≤ generation → owed generation = 0
  few : ∀ generation, owed generation ≤ 1
  standbys : ∀ index l, s.wiring.sessionAt (.standby index) = some l → owed l.generation = 0
  publishing : ∀ l, s.wiring.sessionAt .primary = some l →
    owed l.generation = 0 ∨ ((∃ due, s.reissue = .requested due) ∧ l.established = true)

variable {s t : Shard} {owed owed' : Nat → Nat} {slot : Slot} {now : Nat}

theorem sessionAt_active (s : Shard) (slot : Slot) :
    s.wiring.sessionAt slot = (s.active slot).map (·.session) := (s.active_session slot).symm

/-- Sessions move, and answers come in. -/
theorem Waits.pass (h : Waits s owed) (ht : t.Wired) (hmoves : s.wiring.Descends t.wiring)
    (hless : ∀ generation, owed' generation ≤ owed generation)
    (hpublishing : ∀ l, t.wiring.sessionAt .primary = some l →
      owed' l.generation = 0 ∨ ((∃ due, t.reissue = .requested due) ∧ l.established = true)) : Waits t owed' := by
  obtain ⟨hnext, origin, hinj, horigin⟩ := hmoves
  have hnext : t.nextGeneration = s.nextGeneration := hnext
  refine ⟨ht, ?_, ?_, ?_, ?_, ?_, hpublishing⟩
  · intro a b k l hk hl heq
    obtain ⟨-, k₀, hk₀, hgk, -⟩ := horigin a k hk
    obtain ⟨-, l₀, hl₀, hgl, -⟩ := horigin b l hl
    exact hinj (h.distinct _ _ k₀ l₀ hk₀ hl₀ (hgk.trans (heq.trans hgl.symm)))
  · intro slot l hl
    obtain ⟨-, l₀, hl₀, hgen, -⟩ := horigin slot l hl
    rw [← hgen, hnext]
    exact h.born _ l₀ hl₀
  · intro generation hg
    have hzero := h.unborn generation (hnext ▸ hg)
    have := hless generation
    omega
  · intro generation
    exact (hless generation).trans (h.few generation)
  · intro index l hl
    obtain ⟨hrole, l₀, hl₀, hgen, -⟩ := horigin (.standby index) l hl
    have hzero : owed l.generation = 0 := by
      cases hslot : origin (.standby index) with
      | primary => cases hrole hslot
      | standby other =>
        rw [hslot] at hl₀
        exact hgen ▸ h.standbys other l₀ hl₀
    have := hless l.generation
    omega

/-- A step that is not about commands. -/
theorem Waits.clears (h : Waits s owed) (ht : t.Wired) (hmoves : s.wiring.Descends t.wiring)
    (hclears : Shard.Clears s t) : Waits t owed := by
  refine h.pass ht hmoves (fun _ => Nat.le_refl _) ?_
  intro l hl
  rcases hclears with hsame | ⟨-, hyields⟩
  · obtain ⟨-, origin, -, horigin⟩ := hmoves
    obtain ⟨-, l₀, hl₀, hgen, hest⟩ := horigin .primary l hl
    cases hslot : origin .primary with
    | primary =>
      rw [hslot] at hl₀
      rcases h.publishing l₀ hl₀ with hzero | ⟨⟨due, hdue⟩, hestablished⟩
      · exact .inl (hgen ▸ hzero)
      · exact .inr ⟨⟨due, hsame.trans hdue⟩, hest hestablished⟩
    | standby index =>
      rw [hslot] at hl₀
      exact .inl (hgen ▸ h.standbys index l₀ hl₀)
  · obtain ⟨index, l₀, hl₀, hgen⟩ := hyields l hl
    exact .inl (hgen ▸ h.standbys index l₀ hl₀)

/-- The reissue may become anything while the publishing connection owes nothing. -/
theorem Waits.free (h : Waits s owed) (ht : t.Wired) (hmoves : s.wiring.Descends t.wiring)
    (hfree : ∀ l, s.wiring.sessionAt .primary = some l → owed l.generation = 0) : Waits t owed := by
  refine h.pass ht hmoves (fun _ => Nat.le_refl _) ?_
  intro l hl
  obtain ⟨-, origin, -, horigin⟩ := hmoves
  obtain ⟨-, l₀, hl₀, hgen, -⟩ := horigin .primary l hl
  cases hslot : origin .primary with
  | primary => exact .inl (hgen ▸ hfree l₀ (hslot ▸ hl₀))
  | standby index => exact .inl (hgen ▸ h.standbys index l₀ (hslot ▸ hl₀))

theorem Waits.idle (h : Waits s owed) (hidle : ∀ due, s.reissue ≠ .requested due) (l : Wiring.Session)
    (hl : s.wiring.sessionAt .primary = some l) : owed l.generation = 0 := by
  rcases h.publishing l hl with hzero | ⟨⟨due, hdue⟩, -⟩
  · exact hzero
  · exact absurd hdue (hidle due)

/-- The new connection has a generation of its own, which nobody was asked under. -/
theorem Waits.dial (h : Waits s owed) (ht : t.Wired) (hdial : s.wiring.Dial slot t.wiring)
    (hroom : s.nextGeneration < u64Max) (hreissue : t.reissue = s.reissue) : Waits t owed := by
  have hnext : t.nextGeneration = s.nextGeneration + 1 := by
    have hspawn : t.nextGeneration = saturatingAdd s.nextGeneration 1 := hdial.next
    simp only [saturatingAdd] at hspawn
    omega
  have hsessions : ∀ x l, t.wiring.sessionAt x = some l →
      (x = slot ∧ l.generation = s.nextGeneration) ∨ s.wiring.sessionAt x = some l := by
    intro x l hl
    generalize t.wiring = w' at hdial hl
    obtain ⟨line, hline, hfree⟩ := hdial
    rcases Option.bind_eq_some_iff.1 hl with ⟨line', hline', hs⟩
    rcases Wiring.lines_update (w := s.wiring) hline' with ⟨rfl, old, hold, rfl⟩ | ⟨-, hold⟩
    · exact .inl ⟨rfl, by rw [← Option.some.inj hs]; rfl⟩
    · exact .inr (by simp [Wiring.sessionAt, hold, hs])
  have hnew : owed s.nextGeneration = 0 := h.unborn _ (Nat.le_refl _)
  refine ⟨ht, ?_, ?_, ?_, h.few, ?_, ?_⟩
  · intro a b k l hk hl heq
    rcases hsessions a k hk with ⟨rfl, hk'⟩ | hk' <;> rcases hsessions b l hl with ⟨rfl, hl'⟩ | hl'
    · rfl
    · have := h.born b l hl'
      omega
    · have := h.born a k hk'
      omega
    · exact h.distinct a b k l hk' hl' heq
  · intro x l hl
    rw [hnext]
    rcases hsessions x l hl with ⟨-, hgen⟩ | hl'
    · omega
    · exact (h.born x l hl').trans (Nat.lt_succ_self _)
  · intro generation hg
    exact h.unborn generation (by omega)
  · intro index l hl
    rcases hsessions _ l hl with ⟨-, hgen⟩ | hl'
    · rw [hgen, hnew]
    · exact h.standbys index l hl'
  · intro l hl
    rcases hsessions _ l hl with ⟨-, hgen⟩ | hl'
    · exact .inl (by rw [hgen, hnew])
    · rw [hreissue]
      exact h.publishing l hl'

/-! ## Steps about commands -/

/-- Arming touches no reissue that was requested. -/
theorem Waits.armReissue (h : Waits s owed) (ht : (s.armReissue now).Wired) : Waits (s.armReissue now) owed := by
  have hmoves : s.wiring.Descends (s.armReissue now).wiring := .refl _
  cases hreissue : s.reissue with
  | requested due => exact h.clears ht hmoves (.inl (by simp [Shard.armReissue, hreissue]))
  | idle | pending due | awaiting due | unreachable =>
    exact h.free ht hmoves (h.idle fun due hdue => by simp [hreissue] at hdue)

/-- A connection that is asked owed nothing, is established, and owes one answer now. -/
theorem Waits.asked (h : Waits s owed) (ht : t.Wired) (hsame : t.wiring = s.wiring) {due due' : Nat}
    {c : Shard.ActiveConnection} (hc : s.primary.active = some c) (hestablished : c.established = true)
    (hpending : s.reissue = .pending due) (hrequested : t.reissue = .requested due') :
    Waits t (Function.update owed c.generation (owed c.generation + 1)) := by
  have hsession : s.wiring.sessionAt .primary = some c.session := by
    rw [sessionAt_active, show s.active .primary = some c from hc]
    rfl
  have hzero : owed c.generation = 0 := h.idle (by simp [hpending]) c.session hsession
  have hborn : c.generation < s.nextGeneration := h.born .primary c.session hsession
  have hnext : t.nextGeneration = s.nextGeneration := congrArg Wiring.next hsame
  refine ⟨ht, ?_, ?_, ?_, ?_, ?_, ?_⟩
  · rw [hsame]
    exact h.distinct
  · rw [hsame, hnext]
    exact h.born
  · intro generation hg
    rw [Function.update_of_ne (by omega)]
    exact h.unborn generation (by omega)
  · intro generation
    by_cases heq : generation = c.generation
    · rw [heq, Function.update_self, hzero]
    · rw [Function.update_of_ne heq]
      exact h.few generation
  · intro index l hl
    rw [hsame] at hl
    have hother : l.generation ≠ c.generation := by
      intro heq
      cases h.distinct _ _ l c.session hl hsession heq
    rw [Function.update_of_ne hother]
    exact h.standbys index l hl
  · intro l hl
    rw [hsame, hsession] at hl
    exact .inr ⟨⟨due', hrequested⟩, Option.some.inj hl ▸ hestablished⟩

/-- An armed reissue has an established connection to ask. -/
theorem armReissue_established {due : Nat} (h : (s.armReissue now).reissue = .pending due) :
    ∃ c, s.primary.active = some c ∧ c.established = true := by
  have hestablished : (s.primary.active.any (·.established) && s.primary.dialledVersion.isNone) = true := by
    unfold Shard.armReissue at h
    dsimp only at h
    split at h
    · split at h
      · rename_i hboth
        exact ((Bool.and_eq_true_iff ..).1 hboth).2
      · cases h
    · split at h
      · cases h
      · rename_i hnot
        simp only [Bool.or_eq_true_iff, not_or, Bool.not_eq_true', Bool.not_eq_false] at hnot
        exact hnot.2
    · split at h <;> cases h
    · rename_i hpending _
      exact (hpending due h).elim
  obtain ⟨hactive, -⟩ := (Bool.and_eq_true_iff ..).1 hestablished
  exact (Option.any_eq_true _ _).1 hactive

/-- An answer settles what was owed, whoever gave it. -/
theorem Waits.answered (h : Waits s owed) {generation subscription : Nat} {look : Look}
    (ht : (s.onNotice generation (.resubscribed subscription) look).Wired) :
    Waits (s.onNotice generation (.resubscribed subscription) look)
      (Function.update owed generation (owed generation - 1)) := by
  have hless : ∀ g, Function.update owed generation (owed generation - 1) g ≤ owed g := by
    intro g
    by_cases heq : g = generation
    · rw [heq, Function.update_self]
      omega
    · rw [Function.update_of_ne heq]
  have hstep : s.step (.notice generation (.resubscribed subscription) look) = some _ := rfl
  have hmoves := Wiring.moves_descend (Shard.step_moves h.wired.counted (fun _ => by simp) hstep)
  have hwiring : (s.onNotice generation (.resubscribed subscription) look).wiring = s.wiring := by
    unfold Shard.onNotice
    split
    · rfl
    · exact (s.onResubscribed_beside _ _).wiring
  refine h.pass ht hmoves hless ?_
  intro l hl
  rw [hwiring] at hl
  by_cases hown : l.generation = generation
  · -- the publishing connection answered
    have := h.few generation
    refine .inl ?_
    rw [hown, Function.update_self]
    omega
  · have hreissue : (s.onNotice generation (.resubscribed subscription) look).reissue = s.reissue := by
      unfold Shard.onNotice
      split
      · rfl
      · rename_i slot hslot
        cases slot with
        | standby index => rfl
        | primary =>
          obtain ⟨c, hc, hgen⟩ := Shard.slotOf_active hslot
          rw [sessionAt_active, hc] at hl
          obtain rfl : c.session = l := Option.some.inj hl
          exact absurd hgen hown
    rw [Function.update_of_ne hown, hreissue]
    exact h.publishing l hl

/-- A connection that announces itself was never asked. -/
theorem Waits.announced (h : Waits s owed) {generation deadline subscription observedAt : Nat} {look : Look}
    (ht : (s.onNotice generation (.ready deadline subscription observedAt) look).Wired)
    (hannounces : s.announces generation = true) :
    Waits (s.onNotice generation (.ready deadline subscription observedAt) look) owed := by
  have hstep : s.step (.notice generation (.ready deadline subscription observedAt) look) = some _ := rfl
  have hmoves := Wiring.moves_descend (Shard.step_moves h.wired.counted (fun _ => by simp) hstep)
  cases hslot : s.slotOf generation with
  | none =>
    refine h.clears ht hmoves (.inl ?_)
    simp only [Shard.onNotice, hslot]
  | some slot =>
    cases slot with
    | standby index =>
      refine h.clears ht hmoves (.inl ?_)
      simp [Shard.onNotice, hslot, Shard.onReady]
    | primary =>
      obtain ⟨c, hc, hgen⟩ := Shard.slotOf_active hslot
      have hsession : s.wiring.sessionAt .primary = some c.session := by
        rw [sessionAt_active, hc]
        rfl
      have hnew : c.established = false := by
        rcases (Bool.or_eq_true_iff ..).1 hannounces with hnone | hsome
        · have hall := List.all_eq_true.1 hnone .primary (List.mem_cons_self ..)
          rw [hc] at hall
          simp [hgen] at hall
        · -- no other connection runs under the generation
          obtain ⟨other, -, hother⟩ := List.any_eq_true.1 hsome
          obtain ⟨c', hc', hboth⟩ := (Option.any_eq_true _ _).1 hother
          obtain ⟨hgen', hnot⟩ := (Bool.and_eq_true_iff ..).1 hboth
          have hsession' : s.wiring.sessionAt other = some c'.session := by
            rw [sessionAt_active, hc']
            rfl
          obtain rfl := h.distinct other .primary _ _ hsession' hsession ((of_decide_eq_true hgen').trans hgen.symm)
          rw [Option.some.inj (hc.symm.trans hc')]
          simpa using hnot
      refine h.free ht hmoves ?_
      intro l hl
      rcases h.publishing l hl with hzero | ⟨-, hestablished⟩
      · exact hzero
      · rw [hsession] at hl
        rw [← Option.some.inj hl] at hestablished
        exact absurd hestablished (by simp [Shard.ActiveConnection.session, hnew])

/-- Whoever is asked owes nothing. -/
theorem Waits.asks_free (h : Waits s owed) {event : ShardEvent} {generation : Nat}
    (hasks : s.asks event = some generation) : owed generation = 0 := by
  cases event with
  | reissueDue look grantedAt closed clock =>
    have harm : s.step (.armReissue look.now) = some (s.armReissue look.now) := rfl
    rcases s.onReissueDue_asks look grantedAt closed clock with ⟨c, due, due', hpending, hc, hasks', -⟩ | ⟨hnone, -⟩
    · obtain rfl := Option.some.inj (hasks'.symm.trans hasks)
      have hsession : (s.armReissue look.now).wiring.sessionAt .primary = some c.session := by
        rw [sessionAt_active, show (s.armReissue look.now).active .primary = some c from hc]
        rfl
      exact (h.armReissue (h.wired.step harm)).idle (by simp [hpending]) c.session hsession
    · rw [hnone] at hasks
      cases hasks
  | _ => cases hasks

/-- A due reissue hands over a command, or the connection that was asked and did not answer is replaced. -/
theorem Waits.reissueDue {w : CommandedShard} (h : Waits w.shard w.owed) (look : Look) (grantedAt : Nat) (closed : Bool)
    (clock : Shard.Clock) (ht : (w.shard.onReissueDue look grantedAt closed clock).Wired) :
    Waits (w.shard.onReissueDue look grantedAt closed clock) fun generation =>
      w.handedOver (.reissueDue look grantedAt closed clock) generation + w.writing generation := by
  obtain ⟨s, queued, writing⟩ := w
  have harm : s.step (.armReissue look.now) = some (s.armReissue look.now) := rfl
  have hwaits := h.armReissue (h.wired.step harm)
  rcases s.onReissueDue_asks look grantedAt closed clock with
    ⟨c, due, due', hpending, hc, hasks, heq⟩ | ⟨hasks, hclears⟩
  · obtain ⟨c', hc', hestablished⟩ := armReissue_established hpending
    obtain rfl := Option.some.inj (hc'.symm.trans hc)
    have hzero : queued c'.generation + writing c'.generation = 0 := h.asks_free hasks
    have hfree : queued c'.generation = 0 := by omega
    have howed : (fun generation => handedOver ⟨s, queued, writing⟩ (.reissueDue look grantedAt closed clock) generation +
        writing generation) = Function.update (owed ⟨s, queued, writing⟩) c'.generation
          (owed ⟨s, queued, writing⟩ c'.generation + 1) := by
      funext generation
      simp only [handedOver, hasks, hfree, if_true]
      by_cases hgen : generation = c'.generation
      · subst hgen
        simp [owed, hfree, Nat.add_comm]
      · simp [owed, hgen]
    show Waits _ (fun generation => handedOver ⟨s, queued, writing⟩ _ generation + writing generation)
    rw [howed]
    exact hwaits.asked ht (by rw [heq]; rfl) hc hestablished hpending (by rw [heq])
  · have howed : (fun generation => handedOver ⟨s, queued, writing⟩ (.reissueDue look grantedAt closed clock) generation +
        writing generation) = owed ⟨s, queued, writing⟩ := by
      funext generation
      simp only [handedOver, hasks, owed]
    show Waits _ (fun generation => handedOver ⟨s, queued, writing⟩ _ generation + writing generation)
    rw [howed]
    have hstep : s.step (.reissueDue look grantedAt closed clock) = some _ := rfl
    have hmoves := Wiring.moves_descend (Shard.step_moves (s := s) h.wired.counted (fun _ => by simp) hstep)
    rcases hclears with hclears | ⟨hidle, -⟩
    · exact hwaits.clears ht hmoves hclears
    · exact hwaits.free ht hmoves (hwaits.idle hidle)

/-! ## Runs -/

theorem Waits.step {w w' : CommandedShard} {e : Event} (h : Waits w.shard w.owed) (hnumbered : w.numbered e = true)
    (hmove : w.step e = some w') : Waits w'.shard w'.owed := by
  obtain ⟨s, queued, writing⟩ := w
  cases e with
  | takeCommand generation =>
    dsimp only [CommandedShard.step] at hmove
    obtain ⟨hqueued, hmove⟩ := Option.ite_none_right_eq_some.1 hmove
    obtain rfl := Option.some.inj hmove
    have howed : owed ⟨s, Function.update queued generation (queued generation - 1),
        Function.update writing generation (writing generation + 1)⟩ = owed ⟨s, queued, writing⟩ := by
      funext g
      by_cases hgen : g = generation
      · subst hgen
        simp only [owed, Function.update_self]
        omega
      · simp [owed, hgen]
    show Waits s (owed ⟨s, _, _⟩)
    rw [howed]
    exact h
  | shard event =>
    dsimp only [CommandedShard.step] at hmove
    obtain ⟨hpermits, hmove⟩ := Option.ite_none_right_eq_some.1 hmove
    obtain ⟨t, hstep, rfl⟩ := Option.map_eq_some_iff.1 hmove
    have ht := h.wired.step hstep
    -- what a step that hands nothing over and is not about commands leaves
    have hplain (hevent : ∀ slot, event ≠ .spawn slot) (hclears : Shard.Clears s t) : Waits t (owed ⟨s, queued, writing⟩) :=
      h.clears ht (Wiring.moves_descend (Shard.step_moves h.wired.counted hevent hstep)) hclears
    cases event with
    | spawn slot =>
      obtain rfl := Option.some.inj hstep
      rcases s.spawnSlot_dial slot with hsame | hdial
      · show Waits (s.spawnSlot slot) (owed ⟨s, queued, writing⟩)
        rw [hsame]
        exact h
      · exact h.dial ht hdial (of_decide_eq_true hnumbered) (s.spawnSlot_reissue slot)
    | shed =>
      obtain rfl := Option.some.inj hstep
      exact hplain nofun s.shedIdleConnection_clears
    | reconcile slot clock =>
      obtain rfl := Option.some.inj hstep
      exact hplain nofun (s.reconcileSlot_clears slot clock)
    | armReissue now =>
      obtain rfl := Option.some.inj hstep
      exact h.armReissue ht
    | expire slot look clock =>
      obtain rfl := Option.some.inj hstep
      refine hplain nofun ?_
      unfold Shard.fenceIfExpired
      split
      · split
        · exact s.closeSlot_clears _ _ _ _
        · exact .inl rfl
      · exact .inl rfl
    | ended slot reason clock =>
      obtain ⟨connection, -, rfl⟩ := Option.map_eq_some_iff.1 hstep
      exact hplain nofun (s.closeSlot_clears slot connection reason clock)
    | addMarkets slugs =>
      obtain ⟨u, hchanges, -, heq⟩ := Shard.addMarkets_spec h.wired.counted slugs
      obtain rfl := heq.symm.trans (Option.some.inj hstep)
      exact hplain nofun (.inl hchanges.reissue)
    | removeMarkets slugs =>
      obtain ⟨u, hchanges, -, heq⟩ := Shard.removeMarkets_spec h.wired.counted slugs
      obtain rfl := heq.symm.trans (Option.some.inj hstep)
      exact hplain nofun (.inl hchanges.reissue)
    | reissueDue look grantedAt closed clock =>
      obtain rfl := Option.some.inj hstep
      exact Waits.reissueDue h look grantedAt closed clock ht
    | notice generation note look =>
      obtain rfl := Option.some.inj hstep
      cases note with
      | ready deadline subscription observedAt => exact h.announced ht hpermits
      | resubscribed subscription =>
        have hwriting : 0 < writing generation := of_decide_eq_true hpermits
        have howed : owed ⟨s, queued, Function.update writing generation (writing generation - 1)⟩ =
            Function.update (owed ⟨s, queued, writing⟩) generation (owed ⟨s, queued, writing⟩ generation - 1) := by
          funext g
          by_cases hgen : g = generation
          · subst hgen
            simp only [owed, Function.update_self]
            omega
          · simp [owed, hgen]
        show Waits _ (owed ⟨s, queued, Function.update writing generation (writing generation - 1)⟩)
        rw [howed]
        exact h.answered ht
      | heartbeat observedAt => exact hplain nofun (s.onNotice_clears generation look nofun nofun)
      | event event times subscription => exact hplain nofun (s.onNotice_clears generation look nofun nofun)
      | decodeFailure bookRelevant => exact hplain nofun (s.onNotice_clears generation look nofun nofun)
      | overload dropped => exact hplain nofun (s.onNotice_clears generation look nofun nofun)

theorem waits_of_starts (h : Shard.Starts s) : Waits s fun _ => 0 := by
  have hempty : ∀ slot, s.wiring.sessionAt slot = none := by
    obtain ⟨config, levelCapacity, order, segment, made, hchanges, -, rfl⟩ := h.changes
    intro slot
    by_contra hsome
    obtain ⟨l, hl⟩ := Option.ne_none_iff_exists'.1 hsome
    -- its session would have been there before the first market was installed
    obtain ⟨-, origin, -, horigin⟩ := Wiring.moves_descend hchanges.moves
    obtain ⟨-, l₀, hl₀, -⟩ := horigin slot l hl
    obtain ⟨line, hline, hs⟩ := Option.bind_eq_some_iff.1 hl₀
    obtain ⟨state, hstate, rfl⟩ := Option.map_eq_some_iff.1 hline
    rw [Shard.empty_slot config levelCapacity order hstate] at hs
    cases hs
  refine ⟨h.wired, ?_, ?_, fun _ _ => rfl, fun _ => Nat.zero_le _, ?_, ?_⟩
  all_goals simp [hempty]

/-- Handing over a command finds the channel's place free. -/
theorem Waits.finds_free {w : CommandedShard} (h : Waits w.shard w.owed) (event : ShardEvent) :
    w.findsFull event = false := by
  unfold findsFull
  cases hasks : w.shard.asks event with
  | none => rfl
  | some generation =>
    have hzero : w.queued generation + w.writing generation = 0 := h.asks_free hasks
    have hqueued : w.queued generation = 0 := by omega
    simp [hqueued]

/-- However losses, bases, timers, notices, connection ends, handovers and set changes interleave, a connection is
never handed a command before it answered the last one, and its channel is never full. -/
theorem one_reissue_outstanding {start : Shard} (hstart : Shard.Starts start) {w : CommandedShard}
    (hrun : Run step (fun w e => w.numbered e = true) (.start start) w) :
    (∀ generation, w.owed generation ≤ 1) ∧ ∀ event, w.findsFull event = false := by
  have hwaits : Waits w.shard w.owed :=
    hrun.inv (I := fun w => Waits w.shard w.owed) (fun _ _ _ h hnumbered hmove => h.step hnumbered hmove)
      (waits_of_starts hstart)
  exact ⟨hwaits.few, fun event => hwaits.finds_free event⟩

section Examples

open Shard

def exampleLoss (generation : Nat) : Event := .shard (.notice generation (.decodeFailure true) exampleLook)

def exampleDue : ShardEvent := .reissueDue exampleLook 0 false fun _ => exampleLook

/-- The events that make the publishing connection owe one answer. -/
def exampleAsking (generation : Nat) : List Event :=
  [.shard (exampleReady generation), .shard (exampleFrame generation "btc-up" "1" 10), exampleLoss generation,
    .shard exampleDue]

def exampleAsked : CommandedShard :=
  (exec step (fun w e => w.numbered e = true) (.start exampleSingle) (.shard (.spawn .primary) :: exampleAsking 1)).get
    (by decide)

theorem one_reissue_outstanding_example :
    exampleAsked.owed 1 = 1 ∧ (∀ generation, exampleAsked.owed generation ≤ 1) ∧
      ∀ event, exampleAsked.findsFull event = false :=
  ⟨by decide, one_reissue_outstanding exampleSingle_starts (.of_exec _ (Option.some_get _).symm)⟩

/-! With the generations spent, a standby is dialled under the generation of the publishing connection. Its
announcement is taken for one of that connection, which was asked and has not answered. -/

theorem exampleSpent_commanded :
    Run step (fun _ _ => True) (.start exampleStandby) (.start (DialledShard.exampleSpent u64Max)) := by
  obtain ⟨_, hrun, rfl⟩ := DialledShard.exampleSpent_run step (fun s w => w = .start s) _ rfl
    (fun s t w hw h => ⟨.shard (.spawn (.standby 0)), _, by rw [hw, step, start, h]; rfl, rfl⟩)
    (fun s t w hw h => ⟨.shard (.ended (.standby 0) .socketClosed fun _ => exampleLook), _,
      by rw [hw, step, start, h]; rfl, rfl⟩)
    (u64Max - 1) (by decide)
  exact hrun

def exampleMistaken : List Event :=
  [.shard (.spawn .primary), .shard (.spawn (.standby 0))] ++ exampleAsking u64Max ++
    [.shard (exampleFrame u64Max "btc-up" "2" 10), .shard (exampleReady u64Max), exampleLoss u64Max]

def exampleFull : CommandedShard :=
  (exec step (fun _ _ => True) (.start (DialledShard.exampleSpent u64Max)) exampleMistaken).get (by decide)

/-- The same, and the connection takes the first command before it is handed the second. -/
def exampleTwice : CommandedShard :=
  (exec step (fun _ _ => True) exampleFull [.takeCommand u64Max, .shard exampleDue]).get (by decide)

theorem two_reissues_outstanding :
    (Run step (fun _ _ => True) (.start exampleStandby) exampleFull ∧ exampleFull.findsFull exampleDue = true) ∧
      Run step (fun _ _ => True) (.start exampleStandby) exampleTwice ∧ exampleTwice.owed u64Max = 2 := by
  have hfull : Run step (fun _ _ => True) (.start exampleStandby) exampleFull :=
    exampleSpent_commanded.trans (.of_exec exampleMistaken (Option.some_get _).symm)
  exact ⟨⟨hfull, by decide⟩, hfull.trans (.of_exec _ (Option.some_get _).symm), by decide⟩

end Examples

end CommandedShard

end PmWs
