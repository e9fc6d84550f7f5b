import PmWs.Book.MutationReplay
import PmWs.Lib.Runs
import PmWs.Limitless.Supervisor.Steps

/-!
# Handing the book back to one publisher

A withdrawn licence leaves the book to whichever connection the supervisor
puts into the publishing role, and no key is read from then on. The published
key is safe exactly as far as that connection's own session has already
delivered it. The position the last publication came from does not guarantee
that: the connection there may be a replacement.
-/

open MachineInt Runs

namespace PmWs

namespace Supervisor

/-! ## Withdrawn licences -/

theorem book_updateActive (s : Supervisor) (slot : Slot) (f : ActiveConnection → ActiveConnection) :
    (s.updateActive slot f).book = s.book := by
  cases slot <;> rfl

theorem applyByRole_standby_book (s : Supervisor) (index : Nat) (candidate : Candidate) :
    (s.applyByRole (.standby index) candidate).book = s.book := by
  have hshadow : (s.applyShadow index candidate).1.book = s.book := by
    unfold applyShadow
    split
    · rfl
    · split <;> rfl
  simp only [applyByRole]
  split
  · rename_i heq
    rwa [heq] at hshadow
  · rename_i heq
    rw [heq] at hshadow
    exact (book_updateActive _ _ _).trans hshadow

/-- Without the licence, what arrives in any other role leaves the published book alone. -/
theorem applyUpdate_standby_book (s : Supervisor) (h : s.poolArmed = false) (index : Nat) (update : OrderbookUpdate)
    (times : FrameTimes) (generation subscription : Nat) (clock : Clock) :
    (s.applyUpdate (.standby index) update times generation subscription clock).book = s.book := by
  have hloss (s : Supervisor) (h : s.poolArmed = false) :
      (s.reportSlotLoss (.standby index) .localLoss .localLoss).book = s.book := by
    simp [reportSlotLoss, h, reportShadowLoss]
  unfold applyUpdate
  split
  · exact hloss s h
  · rename_i position _
    dsimp only
    split
    · exact hloss { s with position } h
    · split
      · exact applyByRole_standby_book _ _ _
      · rename_i gate hgate
        have hdisarmed : gate.isArmed = false := by simpa [poolArmed, show s.pool = some gate from hgate] using h
        rw [if_neg (by simp [hdisarmed])]
        exact applyByRole_standby_book _ _ _

/-- The step applied its frame to the published book. -/
def Applied (s t : Supervisor) : Prop := ∃ candidate commit, s.book.applySnapshot candidate = .ok (t.book, commit)

theorem slotOf_primary {s : Supervisor} {generation : Nat} (h : s.slotOf generation = some .primary) :
    s.primary.map (·.generation) = some generation := by
  have hfound := List.find?_some h
  obtain ⟨c, hc, heq⟩ := (Option.any_eq_true _ _).1 hfound
  rw [show s.primary = some c from hc, Option.map_some, of_decide_eq_true heq]

/-- Without the licence, an applied frame came from the publishing connection. -/
theorem applied_from_primary {s t : Supervisor} (h : s.poolArmed = false) {e : SupervisorEvent} {frame : Frame}
    (hf : s.frameOf e = some frame) (hmove : s.step e = some t) (happlied : Applied s t) :
    s.primary.map (·.generation) = some frame.generation := by
  cases step_any hmove with
  | other hnone _ => simp [hnone] at hf
  | frame slot update times generation subscription look clock _ hslot _ hbrings ht _ =>
    obtain rfl := Option.some.inj (hbrings.symm.trans hf)
    cases slot with
    | primary => exact slotOf_primary hslot
    | standby index =>
      -- a shadow's frame leaves the book at its revision
      obtain ⟨candidate, commit, hok⟩ := happlied
      have hsame := applyUpdate_standby_book s h index update times generation subscription clock
      have hrevision := (OrderBook.applySnapshot_revision hok).1
      rw [ht, hsame] at hrevision
      omega

/-! ## Whom a withdrawal leaves publishing -/

/-- The connection at the last publisher's position, if there is one, is not viable. -/
def PublisherGone (s : Supervisor) (clock : Clock) : Prop :=
  ∀ socket c, s.pool.bind (·.lastPublisher) = some socket → s.active (.fromIndex socket) = some c →
    c.isViable (clock .preferred) = false

/-- The connection a withdrawn licence leaves the book to: the one at the last publisher's position if it is viable, else
the publishing one if it is, else that of the first viable standby. Where none is viable the publishing role stays. -/
inductive HandsBackTo (s : Supervisor) (clock : Clock) (c : ActiveConnection) : Prop
  | publisher (socket : Nat) (last : s.pool.bind (·.lastPublisher) = some socket)
      (runs : s.active (.fromIndex socket) = some c) (viable : c.isViable (clock .preferred) = true)
  | publishing (gone : s.PublisherGone clock) (runs : s.primary = some c)
      (stays : c.isViable (clock .preferred) = true ∨ s.firstViableStandby (clock .fallback) = none)
  | standby (index : Nat) (gone : s.PublisherGone clock)
      (unfit : ∀ c', s.primary = some c' → c'.isViable (clock .preferred) = false)
      (first : s.firstViableStandby (clock .fallback) = some index) (runs : s.active (.standby index) = some c)

variable {s t u : Supervisor}

theorem exchangeWithPrimary_publisher {index : Nat} {c p : ActiveConnection} (hc : s.active (.standby index) = some c)
    (h : (s.exchangeWithPrimary index).primary = some p) : c.generation = p.generation := by
  unfold exchangeWithPrimary at h
  rw [show s.standbys[index]?.bind (·.active) = some c from hc] at h
  cases h
  rfl

theorem firstViableStandby_active {look : Look} {index : Nat} (h : s.firstViableStandby look = some index) :
    ∃ c, s.active (.standby index) = some c := by
  obtain ⟨hlt, hviable, -⟩ := List.findIdx?_eq_some_iff_getElem.1 h
  obtain ⟨c, hc, -⟩ := (Option.any_eq_true _ _).1 hviable
  exact ⟨c, by simpa [active, hlt] using hc⟩

/-- `degrade_pool` leaves that connection in the publishing role, if it leaves any. -/
theorem degradePool_publisher {reason : PoolDegradeReason} {clock : Clock} {p : ActiveConnection}
    (hprimary : u.primary = s.primary) (hstandbys : u.standbys = s.standbys)
    (hlast : u.pool.bind (·.lastPublisher) = s.pool.bind (·.lastPublisher))
    (h : (u.degradePool reason clock).primary = some p) : ∃ c, s.HandsBackTo clock c ∧ c.generation = p.generation := by
  unfold degradePool at h
  dsimp only at h
  generalize hd : u.updatePool (fun gate => (gate.degrade reason).1) = d at h
  have hactive (slot : Slot) : d.active slot = s.active slot := by
    subst hd
    cases slot with
    | primary => exact hprimary
    | standby index => simp [active, updatePool, hstandbys]
  have hfirst : d.firstViableStandby (clock .fallback) = s.firstViableStandby (clock .fallback) := by
    subst hd
    simp [firstViableStandby, updatePool, hstandbys]
  have hlast' : d.pool.bind (·.lastPublisher) = s.pool.bind (·.lastPublisher) := by
    rw [← hlast, ← hd, updatePool]
    cases u.pool with
    | none => rfl
    | some gate => simp only [Option.map_some, Option.bind_some, PoolGate.degrade]; split <;> rfl
  have hchoice : d.chooseSource clock =
      (((s.pool.bind (·.lastPublisher)).map Slot.fromIndex).filter fun slot =>
        (s.active slot).any (·.isViable (clock .preferred))).or
      ((if s.primary.any (·.isViable (clock .preferred)) then some .primary else none).or
        ((s.firstViableStandby (clock .fallback)).map .standby)) := by
    simp only [chooseSource, hactive, hfirst, hlast']
    rfl
  rw [hchoice] at h
  by_cases hgone : s.PublisherGone clock
  · have hpreferred : (((s.pool.bind (·.lastPublisher)).map Slot.fromIndex).filter fun slot =>
        (s.active slot).any (·.isViable (clock .preferred))) = none := by
      rw [Option.filter_eq_none_iff]
      rintro _ hslot
      obtain ⟨socket, hsocket, rfl⟩ := Option.map_eq_some_iff.1 hslot
      cases hc : s.active (.fromIndex socket) with
      | none => simp
      | some c => simp [hgone socket c hsocket hc]
    have hkept (hd : d.primary = some p) : s.primary = some p := (hactive .primary).symm.trans hd
    rw [hpreferred, Option.none_or] at h
    by_cases hfit : s.primary.any (·.isViable (clock .preferred)) = true
    · rw [if_pos hfit, Option.some_or] at h
      obtain ⟨c, hc, hviable⟩ := (Option.any_eq_true _ _).1 hfit
      exact ⟨c, .publishing hgone hc (.inl hviable), congrArg _ (Option.some.inj (hc.symm.trans (hkept h)))⟩
    · rw [if_neg hfit, Option.none_or] at h
      cases hfirst : s.firstViableStandby (clock .fallback) with
      | none =>
        rw [hfirst] at h
        exact ⟨p, .publishing hgone (hkept h) (.inr hfirst), rfl⟩
      | some index =>
        rw [hfirst] at h
        obtain ⟨c, hc⟩ := firstViableStandby_active hfirst
        refine ⟨c, .standby index hgone (fun c' hc' => ?_) hfirst hc, ?_⟩
        · simpa [hc'] using hfit
        · exact exchangeWithPrimary_publisher ((hactive _).trans hc) h
  · simp only [PublisherGone, not_forall, Bool.not_eq_false] at hgone
    obtain ⟨socket, c, hsocket, hc, hviable⟩ := hgone
    refine ⟨c, .publisher socket hsocket hc hviable, ?_⟩
    simp only [hsocket, Option.map_some, Option.filter_some, hc, Option.any_some, hviable, if_true, Option.some_or] at h
    cases socket with
    | zero => exact congrArg _ (Option.some.inj (((hactive .primary).trans hc).symm.trans h))
    | succ index => exact exchangeWithPrimary_publisher ((hactive _).trans hc) h

/-! ## Only a violation withdraws the licence -/

theorem Writes.armed {own ends : Prop} (h : Writes own ends s t) : t.poolArmed = s.poolArmed := by
  refine h.inv (I := fun u => u.poolArmed = s.poolArmed) (fun u v hu hwrite => ?_) rfl
  rw [← hu]
  cases hwrite with
  | gate f keeps =>
    simp only [poolArmed, updatePool]
    cases u.pool with
    | none => rfl
    | some gate => exact congrArg Option.isNone (keeps gate).degraded
  | vacate slot | change slot | start slot => cases slot <;> rfl
  | _ => rfl

/-- What an update comes to leaves the licence as it is. -/
theorem Delivers.armed {own : Prop} {slot : Slot} (h : Delivers own slot s t) : t.poolArmed = s.poolArmed := by
  have hbase (u : Supervisor) (authoritative : Bool) : (u.onBaseAccepted slot authoritative).poolArmed = u.poolArmed := by
    cases slot <;> cases authoritative <;> rfl
  cases h with
  | aside writes => exact writes.armed
  | shadow index candidate _ result =>
    have hshadowed : Writes True True s (s.shadowed slot candidate) := s.shadowed_writes slot candidate
    exact result ▸ (hbase ..).trans hshadowed.armed
  | book candidate book commit pool _ same result =>
    have harmed := congrArg (Option.any Prod.snd) same
    simp only [Option.any_map] at harmed
    exact result ▸ (hbase ..).trans harmed

/-- `degrade_pool` withdrew the licence, with every connection where it was. -/
def Withdrawn (s : Supervisor) (clock : Clock) (t : Supervisor) : Prop :=
  ∃ (u : Supervisor) (reason : PoolDegradeReason), t = u.degradePool reason clock ∧ u.primary = s.primary ∧
    u.standbys = s.standbys ∧ u.pool.bind (·.lastPublisher) = s.pool.bind (·.lastPublisher)

theorem applyPooled_withdraws {gate : PoolGate} (hpool : s.pool = some gate) (harmed : gate.degraded = none) (slot : Slot)
    (update : OrderbookUpdate) (candidate : Candidate) (clock : Clock) :
    (s.applyPooled gate slot update candidate clock).poolArmed = true ∨
      s.Withdrawn clock (s.applyPooled gate slot update candidate clock) := by
  have hjudged := PoolGate.admit_disarms_iff harmed slot.index update.arrivalKey (candidateProjection candidate)
  have hlast := gate.admit_lastPublisher slot.index update.arrivalKey (candidateProjection candidate)
  unfold applyPooled
  dsimp only
  generalize gate.admitArrival slot.index update.arrivalKey (candidateProjection candidate) = judged at hjudged hlast ⊢
  obtain ⟨judged, verdict⟩ := judged
  -- no other verdict disarms, and neither does what follows it
  have hkeeps (hverdict : ¬ ∃ violation, verdict = .degrade violation) {t : Supervisor}
      (h : Delivers True slot { s with pool := some judged } t) : t.poolArmed = true := by
    rw [h.armed]
    exact Bool.eq_true_of_not_eq_false fun hdisarmed => hverdict (hjudged.1 hdisarmed)
  cases verdict with
  | degrade violation => exact .inr ⟨_, violation.reason, rfl, rfl, rfl, by rw [hpool]; exact hlast⟩
  | publish => exact .inl (hkeeps (by simp) (publishPooled_delivers (fun _ => trivial) _))
  | duplicate =>
    dsimp only
    split
    · exact .inl (hkeeps (by simp) (recoverPooled_delivers fun _ => trivial))
    · exact .inl (hkeeps (by simp) (shadowPooled_delivers ..))
  | stale => exact .inl (hkeeps (by simp) (shadowPooled_delivers ..))
  | disarmed => exact .inl (hkeeps (by simp) (applyByRole_delivers fun _ _ => trivial))

theorem applyUpdate_withdraws (harmed : s.poolArmed = true) (slot : Slot) (update : OrderbookUpdate) (times : FrameTimes)
    (generation subscription : Nat) (clock : Clock) :
    (s.applyUpdate slot update times generation subscription clock).poolArmed = true ∨
      s.Withdrawn clock (s.applyUpdate slot update times generation subscription clock) := by
  have hloss (v : Supervisor) (hv : v.poolArmed = true) :
      (v.reportSlotLoss slot .localLoss .localLoss).poolArmed = true := by
    have hwrites : Writes True True v (v.reportSlotLoss slot .localLoss .localLoss) := reportSlotLoss_writes (by simp) _ _
    exact hwrites.armed.trans hv
  obtain ⟨gate, hpool, hgate⟩ := (Option.any_eq_true _ _).1 harmed
  unfold applyUpdate
  split
  · exact .inl (hloss s harmed)
  · rename_i position _
    dsimp only
    split
    · exact .inl (hloss { s with position } harmed)
    · simp only [hpool, hgate, if_true]
      have hnone : gate.degraded = none := Option.isNone_iff_eq_none.1 hgate
      exact applyPooled_withdraws (s := { s with position }) hpool hnone ..

/-- The connection that publishes after a withdrawal is the one the book was to be handed back to. -/
theorem step_withdraws {e : SupervisorEvent} (h : s.step e = some t) (harmed : s.poolArmed = true)
    (hdisarmed : t.poolArmed = false) : ∃ generation note look clock, e = .notice generation note look clock ∧
      ∀ p, t.primary = some p → ∃ c, s.HandsBackTo clock c ∧ c.generation = p.generation := by
  cases step_any h with
  | frame slot update times generation subscription look clock event _ _ _ result _ =>
    refine ⟨generation, _, look, clock, event, fun p hp => ?_⟩
    rcases applyUpdate_withdraws harmed slot update times generation subscription clock with hkept | hwithdrawn
    · rw [result, hkept] at hdisarmed
      cases hdisarmed
    · obtain ⟨u, reason, ht, hprimary, hstandbys, hlast⟩ := hwithdrawn
      exact degradePool_publisher hprimary hstandbys hlast (ht ▸ result ▸ hp)
  | other _ writes =>
    rw [writes.armed, harmed] at hdisarmed
    cases hdisarmed

end Supervisor

/-! ## Runs with the keys that were delivered -/

/-- A supervisor, and the last key each connection generation delivered. -/
structure WatchedSupervisor where
  supervisor : Supervisor
  keys : KeyLog

namespace WatchedSupervisor

def start (supervisor : Supervisor) : WatchedSupervisor := ⟨supervisor, fun _ _ => none⟩

/-- The keys delivered up to event `e`, its own frame included. -/
def heard (self : WatchedSupervisor) (e : SupervisorEvent) : KeyLog :=
  match self.supervisor.frameOf e with
  | some frame => self.keys.note frame.generation frame.update
  | none => self.keys

def step (self : WatchedSupervisor) (e : SupervisorEvent) : Option WatchedSupervisor :=
  (self.supervisor.step e).map fun supervisor => { supervisor, keys := self.heard e }

/-- What the venue promises: every book frame carries an integer key, not below the last one of its session. -/
def KeysAscend (w : WatchedSupervisor) (e : SupervisorEvent) : Prop :=
  ∀ frame ∈ w.supervisor.frameOf e, w.keys.Ascends frame.generation frame.update

instance (w : WatchedSupervisor) (e : SupervisorEvent) : Decidable (w.KeysAscend e) :=
  inferInstanceAs (Decidable (∀ frame ∈ w.supervisor.frameOf e, _))

/-- The last key generation `g` delivered for this market is not below `key`. -/
def StandsAt (w : WatchedSupervisor) (g key : Nat) : Prop :=
  ∃ last, w.keys g w.supervisor.config.market = some last ∧ key ≤ last

/-- A book not lost, whose last published key the connection a withdrawal at `e` hands it back to has delivered. -/
def HandsBack (w : WatchedSupervisor) (e : SupervisorEvent) : Prop :=
  ∀ generation note look clock key c, e = .notice generation note look clock →
    w.supervisor.pool.bind (·.lastPublished) = some (.integer key) →
    w.supervisor.book.continuity.isLost = false → w.supervisor.HandsBackTo clock c →
    ∃ last, w.heard e c.generation w.supervisor.config.market = some last ∧ key ≤ last

theorem step_some {w t : WatchedSupervisor} {e : SupervisorEvent} (h : w.step e = some t) :
    w.supervisor.step e = some t.supervisor ∧ t.keys = w.heard e := by
  obtain ⟨supervisor, hs, rfl⟩ := Option.map_eq_some_iff.1 h
  exact ⟨hs, rfl⟩

/-- The connection that publishes after such a withdrawal stands at the last published key. -/
theorem HandsBack.stands {w t : WatchedSupervisor} {e : SupervisorEvent} {key : Nat}
    {publisher : Supervisor.ActiveConnection} (h : w.HandsBack e) (hmove : w.step e = some t)
    (harmed : w.supervisor.poolArmed = true) (hdisarmed : t.supervisor.poolArmed = false)
    (hpublished : w.supervisor.pool.bind (·.lastPublished) = some (.integer key))
    (hintact : w.supervisor.book.continuity.isLost = false) (hpublisher : t.supervisor.primary = some publisher) :
    t.StandsAt publisher.generation key := by
  obtain ⟨hs, hkeys⟩ := step_some hmove
  obtain ⟨generation, note, look, clock, he, hback⟩ := Supervisor.step_withdraws hs harmed hdisarmed
  obtain ⟨c, hto, hsame⟩ := hback publisher hpublisher
  unfold StandsAt
  rw [hkeys, (Supervisor.step_quiet hs).config, ← hsame]
  exact h generation note look clock key c he hpublished hintact hto

/-- What holds after a hand-back to generation `g`: the licence is gone and `g` stands at `key`. -/
structure HandedBack (g key : Nat) (w : WatchedSupervisor) : Prop where
  disarmed : w.supervisor.poolArmed = false
  stands : w.StandsAt g key

theorem HandedBack.step {g key : Nat} {w t : WatchedSupervisor} (h : w.HandedBack g key) {e : SupervisorEvent}
    (hk : w.KeysAscend e) (hmove : w.step e = some t) : t.HandedBack g key := by
  obtain ⟨hs, hkeys⟩ := step_some hmove
  have hquiet := Supervisor.step_quiet hs
  refine ⟨hquiet.disarmed h.disarmed, ?_⟩
  obtain ⟨last, hlast, hle⟩ := h.stands
  unfold StandsAt
  rw [hquiet.config, hkeys]
  unfold heard
  cases hframe : w.supervisor.frameOf e with
  | some frame => exact KeyLog.stands_note (hk frame hframe) hlast hle
  | none => exact ⟨last, hlast, hle⟩

theorem advances_run {ok : WatchedSupervisor → SupervisorEvent → Prop} {w t : WatchedSupervisor}
    (h : Run step ok w t) : w.supervisor.book.Advances t.supervisor.book :=
  h.inv (I := fun u => w.supervisor.book.Advances u.supervisor.book)
    (fun _ _ _ hu _ hmove => hu.trans (Supervisor.step_quiet (step_some hmove).1).book) (.refl _)

/-- A frame applied to the book, at the epoch of the pool's withdrawal, while the connection that then held the
publishing role still does. `key` is the last key the pool's gate published. -/
structure AppliedSinceWithdrawal (config : SupervisorConfig) (segmented : Bool)
    (before withdrawn later after : WatchedSupervisor) (withdrawal event : SupervisorEvent) (key : Nat)
    (update : OrderbookUpdate) : Prop where
  runs : ∃ supervisor, Supervisor.new config segmented = .ok supervisor ∧ Run step KeysAscend (start supervisor) before
  armed : before.supervisor.poolArmed = true
  published : before.supervisor.pool.bind (·.lastPublished) = some (.integer key)
  withdraws : before.step withdrawal = some withdrawn
  disarmed : withdrawn.supervisor.poolArmed = false
  continues : Run step KeysAscend withdrawn later
  publishing : ∃ publisher, withdrawn.supervisor.primary = some publisher ∧
    later.supervisor.primary.map (·.generation) = some publisher.generation
  ascends : later.KeysAscend event
  brings : ∃ frame, later.supervisor.frameOf event = some frame ∧ frame.update = update
  moves : later.step event = some after
  applied : Supervisor.Applied later.supervisor after.supervisor
  sameEpoch : after.supervisor.book.continuity.epoch = before.supervisor.book.continuity.epoch

end WatchedSupervisor

open WatchedSupervisor in
/-- In every run whose withdrawal hands an intact book to a connection that stands at the published key, no frame below
that key is applied at the epoch of the withdrawal before the connection then publishing ends. -/
theorem hand_back_keeps_published_key {config : SupervisorConfig} {segmented : Bool}
    {before withdrawn later after : WatchedSupervisor} {withdrawal event : SupervisorEvent} {key : Nat}
    {update : OrderbookUpdate}
    (h : AppliedSinceWithdrawal config segmented before withdrawn later after withdrawal event key update)
    (hhands : before.HandsBack withdrawal) : ∃ k, update.arrivalKey = some (.integer k) ∧ key ≤ k := by
  obtain ⟨publisher, hpublisher, hpublishing⟩ := h.publishing
  obtain ⟨frame, hframe, rfl⟩ := h.brings
  obtain ⟨hwithdraws, -⟩ := step_some h.withdraws
  obtain ⟨hmoves, -⟩ := step_some h.moves
  cases hlost : before.supervisor.book.continuity.isLost with
  | true =>
    -- a lost stream only resumes at a higher epoch
    obtain ⟨candidate, commit, hok⟩ := h.applied
    have hadvances := (Supervisor.step_quiet hwithdraws).book.trans (advances_run h.continues)
    have hlater := OrderBook.Halted.applySnapshot_epoch (.inl hlost) hadvances hok
    have hsame := h.sameEpoch
    omega
  | false =>
    have hback : withdrawn.HandedBack publisher.generation key :=
      ⟨h.disarmed, hhands.stands h.withdraws h.armed h.disarmed h.published hlost hpublisher⟩
    have hback' : later.HandedBack publisher.generation key :=
      h.continues.inv (fun _ _ _ hu hok hmove => hu.step hok hmove) hback
    have hgeneration := Supervisor.applied_from_primary hback'.disarmed hframe hmoves h.applied
    have hsession : publisher.generation = frame.generation := Option.some.inj (hpublishing.symm.trans hgeneration)
    obtain ⟨last, hlast, hle⟩ := hback'.stands
    rw [hsession, ← Supervisor.frameOf_market hframe] at hlast
    obtain ⟨k, hk, hall⟩ := h.ascends frame hframe
    exact ⟨k, hk, hle.trans (hall last hlast)⟩

/-! Two sockets of one market. In `exampleReplaced` the standby's published key 10, ended, and was replaced. -/

section
open WatchedSupervisor

def exampleUpdate (version : String) (size : Fin 1000) : OrderbookUpdate where
  marketSlug := "btc-up"
  tokenId := none
  bids := [((exampleLevel .bid 3 size).price, (exampleLevel .bid 3 size).quantity)]
  asks := []
  timestamp := "2026-01-01T00:00:00Z"
  version := some version

def exampleLook : Look := ⟨0, fun _ => false⟩

def exampleSupervisorConfig : SupervisorConfig := ⟨"btc-up", exampleCapacity, 2, true, 3, 10, 1⟩

def exampleSupervisor : Supervisor := (Supervisor.new exampleSupervisorConfig false).toOption.get (by decide)

theorem exampleSupervisor_new : Supervisor.new exampleSupervisorConfig false = .ok exampleSupervisor := by rfl

def exampleDelivery (generation : Nat) (version : String) (size : Fin 1000) : SupervisorEvent :=
  .notice generation (.event (.orderbookUpdate (exampleUpdate version size)) ⟨0, 0⟩ 1) exampleLook fun _ => exampleLook

def exampleReplaced : WatchedSupervisor :=
  (exec step KeysAscend (start exampleSupervisor)
    [.spawn .primary, .spawn (.standby 0), exampleDelivery 2 "10" 100,
      .ended (.standby 0) .socketClosed fun _ => exampleLook, .spawn (.standby 0)]).get (by decide)

/-- The candidate of a frame in the publishing role. -/
def exampleCandidate (s : Supervisor) (generation : Nat) (version : String) (size : Fin 1000) : Option Candidate :=
  { s with position := s.position + 1 }.candidateOf .primary (exampleUpdate version size) ⟨0, 0⟩ generation 1

/-- The replacement's first key rewinds, and the withdrawal hands the book to the replacement. -/
def exampleRewound : WatchedSupervisor := (exampleReplaced.step (exampleDelivery 3 "7" 70)).get (by decide)

def exampleRolledBack : WatchedSupervisor := (exampleRewound.step (exampleDelivery 3 "8" 80)).get (by decide)

/-- The position of the last publisher names a replacement that never delivered key 10, and the book goes back to
key 8 within one epoch. -/
theorem hand_back_rolls_back :
    AppliedSinceWithdrawal exampleSupervisorConfig false exampleReplaced exampleRewound exampleRewound exampleRolledBack
      (exampleDelivery 3 "7" 70) (exampleDelivery 3 "8" 80) 10 (exampleUpdate "8" 80) ∧
    exampleReplaced.KeysAscend (exampleDelivery 3 "7" 70) ∧
    (exampleUpdate "8" 80).arrivalKey = some (.integer 8) := by
  refine ⟨?_, by decide, by decide⟩
  exact
    { runs := ⟨exampleSupervisor, exampleSupervisor_new, Run.of_exec _ (Option.some_get _).symm⟩
      armed := by decide
      published := by decide
      withdraws := (Option.some_get _).symm
      disarmed := by decide
      continues := .refl _
      publishing := ⟨exampleRewound.supervisor.primary.get (by decide), (Option.some_get _).symm, by decide⟩
      ascends := by decide
      brings := ⟨⟨3, .primary, exampleUpdate "8" 80⟩, by rfl, rfl⟩
      moves := (Option.some_get _).symm
      applied := ⟨(exampleCandidate exampleRewound.supervisor 3 "8" 80).get (by decide), _, rfl⟩
      sameEpoch := by decide }

/-- Both sockets run, and the publishing one published key 10. -/
def examplePublished : WatchedSupervisor :=
  (exec step KeysAscend (start exampleSupervisor)
    [.spawn .primary, .spawn (.standby 0), exampleDelivery 1 "10" 100]).get (by decide)

/-- The other socket repeats the key with another content, and the publisher keeps its role. -/
def exampleContradicted : WatchedSupervisor := (examplePublished.step (exampleDelivery 2 "10" 70)).get (by decide)

def exampleCarriedForward : WatchedSupervisor := (exampleContradicted.step (exampleDelivery 1 "11" 80)).get (by decide)

theorem hand_back_keeps_published_key_example :
    ∃ k, (exampleUpdate "11" 80).arrivalKey = some (.integer k) ∧ 10 ≤ k := by
  have happlied : AppliedSinceWithdrawal exampleSupervisorConfig false examplePublished exampleContradicted
      exampleContradicted exampleCarriedForward (exampleDelivery 2 "10" 70) (exampleDelivery 1 "11" 80) 10
      (exampleUpdate "11" 80) :=
    { runs := ⟨exampleSupervisor, exampleSupervisor_new, Run.of_exec _ (Option.some_get _).symm⟩
      armed := by decide
      published := by decide
      withdraws := (Option.some_get _).symm
      disarmed := by decide
      continues := .refl _
      publishing := ⟨exampleContradicted.supervisor.primary.get (by decide), (Option.some_get _).symm, by decide⟩
      ascends := by decide
      brings := ⟨⟨1, .primary, exampleUpdate "11" 80⟩, by rfl, rfl⟩
      moves := (Option.some_get _).symm
      applied := ⟨(exampleCandidate exampleContradicted.supervisor 1 "11" 80).get (by decide), _, rfl⟩
      sameEpoch := by decide }
  refine hand_back_keeps_published_key happlied ?_
  rintro _ _ _ clock key c ⟨⟩ hpublished _ hto
  obtain rfl : 10 = key := by
    have hten : examplePublished.supervisor.pool.bind (·.lastPublished) = some (.integer 10) := by decide
    rw [hten] at hpublished
    cases hpublished
    rfl
  have hprimary : examplePublished.supervisor.primary.map (·.generation) = some 1 := by decide
  have hgeneration : c.generation = 1 := by
    cases hto with
    | publisher socket last runs viable =>
      have hlast : examplePublished.supervisor.pool.bind (·.lastPublisher) = some 0 := by decide
      obtain rfl : 0 = socket := Option.some.inj (hlast.symm.trans last)
      simpa [show examplePublished.supervisor.primary = some c from runs] using hprimary
    | publishing gone runs stays => simpa [runs] using hprimary
    | standby index gone unfit first runs =>
      have hviable : examplePublished.supervisor.primary.any (·.isViable exampleLook) = true := by decide
      obtain ⟨c', hc', hfit⟩ := (Option.any_eq_true _ _).1 hviable
      rw [unfit c' hc'] at hfit
      cases hfit
  rw [hgeneration]
  exact ⟨10, by decide, Nat.le_refl _⟩

end

end PmWs
