import PmWs.Limitless.Supervisor.HandBack
import PmWs.Limitless.Supervisor.Reports

/-!
# A loss hidden by the end of the publishing connection

A connection whose notice queue was full ends without having reported what it
dropped. An armed pool reports that loss first. Without one the end is answered
like any other, and a standby that agrees with the book is promoted without any
report.
-/

open MachineInt Runs

namespace PmWs

namespace Supervisor

variable {s t : Supervisor} {ended : ActiveConnection} {clock : Clock}

/-! ## The hidden loss -/

/-- Standby `index`, running connection `c`, can take the place of an ended publishing connection: no deadline of its
heartbeat stands when it is looked at, its shadow agrees with the published book, and it is viable at the decision. -/
structure CanReplace (s : Supervisor) (clock : Clock) (index : Nat) (c : ActiveConnection) : Prop where
  runs : ∃ shadow, s.standbys[index]? = some ⟨some c, shadow⟩ ∧ agreement shadow s.book.publish = .agreeing
  unexpired : ∀ expiry ∈ c.heartbeatExpiry, (clock (.expiry index)).now < expiry
  viable : c.isViable (clock .decide) = true

/-- The first standby that can take the place is still viable when it is promoted. -/
def HasReplacement (s : Supervisor) (clock : Clock) : Prop :=
  ∃ index c, s.CanReplace clock index c ∧ (∀ j < index, ∀ c', ¬ s.CanReplace clock j c') ∧
    c.isViable (clock .promote) = true

theorem Writes.lost (h : Writes True True s t) (hlost : s.book.continuity.isLost = true) :
    t.book.continuity.isLost = true :=
  h.reports.book.lost hlost

/-- A role after its deadline was looked at: vacated with a fresh shadow where it stands. -/
def Standby.settled (self : Standby) (market : MarketRef) (look : Look) : Standby :=
  if (self.active.bind (·.heartbeatExpiry)).any (· ≤ look.now) then ⟨none, .new market⟩ else self

/-- What looking at the standbys' deadlines leaves of a supervisor: nothing is reported. -/
structure SettledTo (s t : Supervisor) : Prop where
  market : t.market = s.market
  book : t.book = s.book
  baseAccepted : t.baseAccepted = s.baseAccepted

theorem fenceStandby_spec (s : Supervisor) (index : Nat) (look : Look) :
    SettledTo s (s.fenceStandby index look) ∧
      (s.fenceStandby index look).standbys = s.standbys.modify index (·.settled s.market look) := by
  have hexpired : s.expired (.standby index) look =
      (s.standbys[index]?.bind fun standby => standby.active.bind (·.heartbeatExpiry)).any (· ≤ look.now) := by
    simp [expired, active, Option.bind_assoc]
  unfold fenceStandby
  split
  · rename_i hend
    refine ⟨⟨rfl, rfl, rfl⟩, List.ext_getElem? fun j => ?_⟩
    rw [hexpired] at hend
    simp only [onStandbyEnded, setActive, updatePool, List.getElem?_modify]
    split
    · subst index
      cases hrole : s.standbys[j]? with
      | none => rfl
      | some standby => simp_all [Standby.settled]
    · simp
  · rename_i hend
    refine ⟨⟨rfl, rfl, rfl⟩, List.ext_getElem? fun j => ?_⟩
    rw [hexpired] at hend
    rw [List.getElem?_modify]
    split
    · subst index
      cases hrole : s.standbys[j]? with
      | none => rfl
      | some standby => simp_all [Standby.settled]
    · simp

theorem settleExpiredStandby_spec (s : Supervisor) (clock : Clock) :
    SettledTo s (s.settleExpiredStandby clock) ∧ ∀ j : Nat, (s.settleExpiredStandby clock).standbys[j]? =
      s.standbys[j]?.map (·.settled s.market (clock (.expiry j))) := by
  unfold settleExpiredStandby
  -- after the first `n` roles, the others have not been looked at
  have hfirst (n : Nat) : let t := (List.range n).foldl (fun t index => t.fenceStandby index (clock (.expiry index))) s
      SettledTo s t ∧ ∀ j : Nat, t.standbys[j]? =
        if j < n then s.standbys[j]?.map (·.settled s.market (clock (.expiry j))) else s.standbys[j]? := by
    induction n with
    | zero => exact ⟨⟨rfl, rfl, rfl⟩, fun j => rfl⟩
    | succ n ih =>
      obtain ⟨hkept, hroles⟩ := ih
      rw [List.range_succ, List.foldl_append]
      dsimp only [List.foldl_cons, List.foldl_nil]
      generalize (List.range n).foldl _ s = t at hkept hroles
      obtain ⟨hkept', hroles'⟩ := t.fenceStandby_spec n (clock (.expiry n))
      refine ⟨⟨hkept'.market.trans hkept.market, hkept'.book.trans hkept.book,
        hkept'.baseAccepted.trans hkept.baseAccepted⟩, fun j => ?_⟩
      rw [hroles', List.getElem?_modify, hroles, hkept.market]
      rcases eq_or_ne n j with rfl | hne
      · simp
      · have hlt : j < n + 1 ↔ j < n := by omega
        simp [hne, hlt]
  obtain ⟨hkept, hroles⟩ := hfirst s.standbys.length
  refine ⟨hkept, fun j => (hroles j).trans (ite_eq_left_iff.2 fun hout => ?_)⟩
  rw [List.getElem?_eq_none (Nat.le_of_not_lt hout), Option.map_none]

/-- A switch that promotes nobody reports the loss of a based book first. -/
theorem applySwitch_lost (hbase : s.baseAccepted = true) (hroom : s.book.revision < u64Max) (switch : SourceSwitch)
    (ended : ConnectionEndReason) (clock : Clock)
    (hkept : ∀ index, switch = .promote index → (s.takeOver index true (clock .promote)).2 = false) :
    (s.applySwitch switch ended clock).book.continuity.isLost = true := by
  have hrefuse (authority : AuthorityReason) : (s.refuseSwitch authority clock).book.continuity.isLost = true := by
    refine Writes.lost (s.refuseSwitch_writes authority clock) ?_
    rw [if_pos hbase]
    exact OrderBook.afterLoss_lost hroom _ _
  cases switch with
  | promote index =>
    simp only [applySwitch]
    split
    · rename_i heq
      simp [heq] at hkept
    · exact hrefuse _
  | refuse authority => exact hrefuse authority
  | absent =>
    simp only [applySwitch, if_pos hbase]
    exact Writes.lost (reportExhaustion_writes _) (OrderBook.afterLoss_lost hroom _ _)

theorem applySwitch_promoted {index : Nat} {ended : ConnectionEndReason}
    (h : (s.takeOver index true (clock .promote)).2 = true) :
    (s.applySwitch (.promote index) ended clock).book = s.book := by
  simp only [applySwitch]
  split
  · rename_i heq
    have hbook : (s.takeOver index true (clock .promote)).1.book = s.book := by
      unfold takeOver
      split
      · rfl
      · split <;> rfl
    rwa [heq] at hbook
  · rename_i heq
    simp [heq] at h

/-- The publishing connection, established over a live book, ends having dropped notices it could not report. -/
structure HidesLoss (config : SupervisorConfig) (segmented : Bool) (s t : Supervisor) (ended : ActiveConnection)
    (clock : Clock) : Prop where
  runs : ∃ start, Supervisor.new config segmented = .ok start ∧ Run Supervisor.step (fun _ _ => True) start s
  publishing : s.primary = some ended
  established : ended.isEstablished = true
  live : s.book.authority = .live
  ends : s.step (.ended .primary .noticeUndeliverable clock) = some t

theorem HidesLoss.sound {config : SupervisorConfig} {segmented : Bool}
    (h : HidesLoss config segmented s t ended clock) : s.Sound := by
  obtain ⟨start, hnew, hrun⟩ := h.runs
  exact run_sound hnew hrun

theorem HidesLoss.result {config : SupervisorConfig} {segmented : Bool}
    (h : HidesLoss config segmented s t ended clock) :
    t = s.closeSlot .primary ended .noticeUndeliverable ended.producedBase clock := by
  obtain ⟨connection, hactive, rfl⟩ := Option.map_eq_some_iff.1 h.ends
  cases Option.some.inj (hactive.symm.trans h.publishing)
  rfl

theorem HidesLoss.lost_armed {config : SupervisorConfig} {segmented : Bool}
    (h : HidesLoss config segmented s t ended clock) (hroom : s.book.revision < u64Max) (harmed : s.poolArmed = true) :
    t.book.continuity.isLost = true := by
  rw [h.result]
  unfold closeSlot onSlotEnded
  dsimp only
  rw [if_pos ⟨harmed, h.established, rfl⟩]
  exact Writes.lost (onPrimaryEnded_writes (fun _ => trivial) _ _) (OrderBook.afterLoss_lost hroom _ _)

theorem expiry_stands_not {c : ActiveConnection} {look : Look} :
    c.heartbeatExpiry.any (· ≤ look.now) = false ↔ ∀ expiry ∈ c.heartbeatExpiry, look.now < expiry := by
  cases c.heartbeatExpiry <;> simp

section
variable {settled : Supervisor} {clock : Clock} {index : Nat} {c : ActiveConnection}
  (hroles : ∀ j : Nat, settled.standbys[j]? = s.standbys[j]?.map (·.settled s.market (clock (.expiry j))))
include hroles

/-- A standby that can take the place is still there once the deadlines have been looked at. -/
theorem CanReplace.stays (h : s.CanReplace clock index c) :
    ∃ shadow, settled.standbys[index]? = some ⟨some c, shadow⟩ ∧ agreement shadow s.book.publish = .agreeing := by
  obtain ⟨shadow, hfound, hagree⟩ := h.runs
  refine ⟨shadow, ?_, hagree⟩
  rw [hroles, hfound, Option.map_some, Standby.settled, if_neg]
  simpa using expiry_stands_not.2 h.unexpired

/-- A promotion is decided for the first standby that can take the ended connection's place. -/
theorem decideSwitch_promote_iff (hlive : s.book.authority = .live) (hbook : settled.book = s.book)
    (ended : ConnectionEndReason) (index : Nat) :
    settled.decideSwitch ended (clock .decide) = .promote index ↔
      (∃ c, s.CanReplace clock index c) ∧ ∀ j < index, ∀ c, ¬ s.CanReplace clock j c := by
  let eligible := fun standby : Standby => standby.active.any fun connection =>
    agreement standby.shadow settled.book.publish = .agreeing ∧ settled.book.publish.authority = .live ∧
      connection.isViable (clock .decide)
  have hrole (j : Nat) (hj : j < settled.standbys.length) :
      eligible settled.standbys[j] = true ↔ ∃ c, s.CanReplace clock j c := by
    constructor
    · intro heligible
      obtain ⟨role, hstands, heq⟩ := Option.map_eq_some_iff.1 ((hroles j).symm.trans (List.getElem?_eq_getElem hj))
      obtain ⟨c, hactive, hc⟩ := (Option.any_eq_true _ _).1 heligible
      rw [decide_eq_true_eq, hbook, ← heq] at hc
      have hunexpired : ¬ (role.active.bind (·.heartbeatExpiry)).any (· ≤ (clock (.expiry j)).now) = true := by
        intro hend
        rw [← heq, Standby.settled, if_pos hend] at hactive
        cases hactive
      rw [← heq, Standby.settled, if_neg hunexpired] at hactive
      rw [Standby.settled, if_neg hunexpired] at hc
      obtain ⟨active, shadow⟩ := role
      obtain rfl : active = some c := hactive
      exact ⟨c, ⟨shadow, hstands, hc.1⟩, expiry_stands_not.1 (by simpa using hunexpired), hc.2.2⟩
    · rintro ⟨c, hcan⟩
      obtain ⟨shadow, hfound, hagree⟩ := hcan.stays hroles
      obtain ⟨_, hfound⟩ := List.getElem?_eq_some_iff.1 hfound
      have hpublished : s.book.publish.authority = .live := hlive
      simp [eligible, hfound, hbook, hagree, hpublished, hcan.viable]
  have hfirst : settled.decideSwitch ended (clock .decide) = .promote index ↔
      settled.standbys.findIdx? eligible = some index := by
    unfold decideSwitch
    dsimp only
    cases settled.standbys.findIdx? eligible with
    | none => dsimp only; split <;> simp
    | some found => simp
  rw [hfirst, List.findIdx?_eq_some_iff_getElem]
  constructor
  · rintro ⟨hlt, heligible, hnone⟩
    refine ⟨(hrole index hlt).1 heligible, fun j hj c hcan => hnone j hj ?_⟩
    exact (hrole j (hj.trans hlt)).2 ⟨c, hcan⟩
  · rintro ⟨⟨c, hcan⟩, hnone⟩
    obtain ⟨shadow, hfound, -⟩ := hcan.stays hroles
    obtain ⟨hlt, -⟩ := List.getElem?_eq_some_iff.1 hfound
    refine ⟨hlt, (hrole index hlt).2 ⟨c, hcan⟩, fun j hj heligible => ?_⟩
    obtain ⟨c', hcan'⟩ := (hrole j (hj.trans hlt)).1 heligible
    exact hnone j hj c' hcan'

end

theorem takeOver_viable {index : Nat} {c : ActiveConnection} (h : s.standbys[index]?.bind (·.active) = some c)
    (promoted : Bool) (look : Look) : (s.takeOver index promoted look).2 = c.isViable look := by
  unfold takeOver
  rw [h]
  dsimp only
  split <;> simp_all

/-- Without an armed pool the end is an ordinary switch, and a promotion is silent. -/
theorem HidesLoss.lost_unarmed {config : SupervisorConfig} {segmented : Bool}
    (h : HidesLoss config segmented s t ended clock) (hroom : s.book.revision < u64Max)
    (hunarmed : s.poolArmed = false) : t.book.continuity.isLost = true ↔ ¬ s.HasReplacement clock := by
  obtain ⟨hkept, hroles⟩ := (s.setActive .primary none).settleExpiredStandby_spec clock
  rw [h.result]
  unfold closeSlot onSlotEnded onPrimaryEnded
  have hidle : (s.setActive .primary none).poolArmed = false := hunarmed
  simp only [hidle, Bool.false_eq_true, false_and, if_false]
  generalize hsettled : ((s.setActive .primary none).settleExpiredStandby clock).spendAttempt ended.producedBase = settled
  have hbook : settled.book = s.book := hsettled ▸ hkept.book
  have hbase : settled.baseAccepted = true := hsettled ▸ hkept.baseAccepted.trans (h.sound.based h.live)
  have hroles' : ∀ j : Nat, settled.standbys[j]? = s.standbys[j]?.map (·.settled s.market (clock (.expiry j))) :=
    fun j => by rw [← hsettled]; exact hroles j
  have hpromotes := decideSwitch_promote_iff hroles' h.live hbook .noticeUndeliverable
  have hover {index : Nat} {c : ActiveConnection} (hcan : s.CanReplace clock index c) :
      (settled.takeOver index true (clock .promote)).2 = c.isViable (clock .promote) := by
    obtain ⟨shadow, hfound, -⟩ := hcan.stays hroles'
    exact takeOver_viable (by rw [hfound]; rfl) _ _
  constructor
  · rintro hlost ⟨index, c, hcan, hfirst, hviable⟩
    rw [(hpromotes index).2 ⟨⟨c, hcan⟩, hfirst⟩, applySwitch_promoted ((hover hcan).trans hviable), hbook,
      h.sound.intact h.live] at hlost
    cases hlost
  · intro hnone
    refine applySwitch_lost hbase (hbook ▸ hroom) _ .noticeUndeliverable clock fun index hswitch => ?_
    obtain ⟨⟨c, hcan⟩, hfirst⟩ := (hpromotes index).1 hswitch
    rw [hover hcan]
    exact Bool.eq_false_iff.2 fun hviable => hnone ⟨index, c, hcan, hfirst, hviable⟩

end Supervisor

open Supervisor in
/-- The loss a session hid at its end is published exactly when an armed pool reports it first, or no standby is there
to take the session's place, as long as the book can take a report at all. -/
theorem hidden_loss_published_iff {config : SupervisorConfig} {segmented : Bool} {s t : Supervisor}
    {ended : ActiveConnection} {clock : Clock} (h : HidesLoss config segmented s t ended clock) :
    t.book.publish.continuity.isLost = true ↔ s.book.revision < u64Max ∧
      (s.poolArmed = true ∨ ¬ s.HasReplacement clock) := by
  show t.book.continuity.isLost = true ↔ _
  by_cases hroom : s.book.revision < u64Max
  · cases harmed : s.poolArmed with
    | true => simp [h.lost_armed hroom harmed, hroom]
    | false => simp [h.lost_unarmed hroom harmed, hroom]
  · have hsame : t.book = s.book := by
      have hwrites : Writes True True s t := h.result ▸ closeSlot_writes (fun _ _ => trivial) (fun _ _ _ => trivial) clock
      exact hwrites.reports.book.spent (Nat.le_of_not_lt hroom)
    simp [hsame, h.sound.intact h.live, hroom]

/-! Two replicas without a pool, both established, with the same book. -/

section
open Supervisor

def exampleReplicasConfig : SupervisorConfig := { exampleSupervisorConfig with pooled := false }

def exampleReplicas : Supervisor := (Supervisor.new exampleReplicasConfig false).toOption.get (by decide)

theorem exampleReplicas_new : Supervisor.new exampleReplicasConfig false = .ok exampleReplicas := by rfl

def exampleReady (generation : Nat) : SupervisorEvent :=
  .notice generation (.ready 10 1 0) exampleLook fun _ => exampleLook

/-- Both replicas delivered the same book. -/
def exampleAgreeing : Supervisor :=
  (exec Supervisor.step (fun _ _ => True) exampleReplicas
    [.spawn .primary, .spawn (.standby 0), exampleReady 1, exampleReady 2, exampleDelivery 2 "10" 100,
      exampleDelivery 1 "10" 100]).get (by decide)

def exampleNoticesLost : SupervisorEvent := .ended .primary .noticeUndeliverable fun _ => exampleLook

def exampleSwitched : Supervisor := (exampleAgreeing.step exampleNoticesLost).get (by decide)

/-- The standby agrees, takes over, and nobody reports what the ended session had dropped. -/
theorem hidden_loss_erased :
    HidesLoss exampleReplicasConfig false exampleAgreeing exampleSwitched (exampleAgreeing.primary.get (by decide))
      (fun _ => exampleLook) ∧
    exampleSwitched.book.publish.continuity.isLost = false := by
  refine ⟨?_, by decide⟩
  exact
    { runs := ⟨exampleReplicas, exampleReplicas_new, Run.of_exec _ (Option.some_get _).symm⟩
      publishing := (Option.some_get _).symm
      established := by decide
      live := by decide
      ends := (Option.some_get _).symm }

/-- The standby's task has finished by the time it is to be promoted. -/
def exampleLateClock : Clock
  | .promote => ⟨0, fun _ => true⟩
  | _ => exampleLook

def exampleAbandoned : Supervisor :=
  (exampleAgreeing.step (.ended .primary .noticeUndeliverable exampleLateClock)).get (by decide)

theorem hidden_loss_published_iff_example : exampleAbandoned.book.publish.continuity.isLost = true := by
  have hends : HidesLoss exampleReplicasConfig false exampleAgreeing exampleAbandoned
      (exampleAgreeing.primary.get (by decide)) exampleLateClock :=
    { runs := ⟨exampleReplicas, exampleReplicas_new, Run.of_exec _ (Option.some_get _).symm⟩
      publishing := (Option.some_get _).symm
      established := by decide
      live := by decide
      ends := (Option.some_get _).symm }
  refine (hidden_loss_published_iff hends).2 ⟨by decide, .inr ?_⟩
  rintro ⟨index, c, -, -, hviable⟩
  simp [ActiveConnection.isViable, exampleLateClock] at hviable

end

end PmWs
