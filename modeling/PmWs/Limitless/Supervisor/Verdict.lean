import PmWs.Limitless.Supervisor.HandBack
import PmWs.Limitless.Supervisor.Reports

/-!
# The terminal verdict

Once the recovery attempts are spent the book is stale because no base is to be
had, and every end of a connection repeats that verdict. The losses a standing
connection reports do not: a decode failure, an overload or a refused update
puts its own reason in the verdict's place.
-/

open MachineInt Runs

namespace PmWs

namespace Supervisor

variable {ends : Prop} {s t : Supervisor}

/-! ## What keeps the verdict -/

/-- The attempts are spent, the book says so, and the publishing connection has produced no base. -/
structure Standing (s : Supervisor) : Prop where
  spent : s.config.maxRecoveryAttempts ≤ s.recoveryAttempts
  attempts : s.recoveryAttempts ≤ u32Max
  stale : s.book.authority = .stale .recoveryBaseUnavailable
  produced : s.Produced

theorem Standing.not_live (h : s.Standing) : s.book.authority ≠ .live := by
  simp [h.stale]

/-- What is not the connection's own loss keeps the verdict. -/
theorem Write.standing (h : Write False ends s t) (hs : s.Standing) : t.Standing := by
  have hproduced := h.produced hs.produced
  cases h with
  | vacate slot | change slot | start slot => cases slot <;> exact ⟨hs.spent, hs.attempts, hs.stale, hproduced⟩
  | gate | shadow | shadowLoss | move | flag | place => exact ⟨hs.spent, hs.attempts, hs.stale, hproduced⟩
  | spend producedBase cause =>
    have hspent := hs.spent
    have hattempts := hs.attempts
    rw [Bool.eq_false_iff.2 cause] at hproduced ⊢
    refine ⟨?_, ?_, hs.stale, hproduced⟩ <;> simp only [spendAttempt, Bool.false_eq_true, if_false] <;> omega
  | report continuity authority cause =>
    refine ⟨hs.spent, hs.attempts, ?_, hproduced⟩
    have hverdict := cause.resolve_left id (decide_eq_true hs.spent)
    rcases s.book.afterLoss_cases continuity authority with ⟨-, hstale⟩ | ⟨heq, -⟩
    · exact hverdict ▸ hstale
    · exact (congrArg OrderBook.authority heq).trans hs.stale
  | note book cursor free noted =>
    obtain ⟨epoch, position, -, -, -, rfl⟩ := OrderBook.noteStreamEvent_ok noted
    exact ⟨hs.spent, hs.attempts, hs.stale, hproduced⟩

theorem Writes.standing (h : Writes False ends s t) (hs : s.Standing) : t.Standing :=
  h.inv (fun _ _ hu hlast => hlast.standing hu) hs

/-- The published book took a venue snapshot in this step. -/
def Accepts (s : Supervisor) (e : SupervisorEvent) : Prop := ∃ t, s.step e = some t ∧ Applied s t

/-- An update the book takes is applied, or leaves the verdict alone. -/
theorem Delivers.upheld {slot : Slot} (h : Delivers False slot s t) (hs : s.Standing) : t.Standing ∨ Applied s t := by
  cases h with
  | aside writes => exact .inl (writes.standing hs)
  | shadow index candidate role result =>
    subst role result
    have hshadowed := (show Writes False True s _ from s.shadowed_writes (.standby index) candidate).standing hs
    exact .inl ⟨hshadowed.spent, hshadowed.attempts, hshadowed.stale, hshadowed.produced⟩
  | book candidate book commit pool applied same result =>
    subst result
    refine .inr ⟨candidate, commit, ?_⟩
    rwa [onBaseAccepted, book_updateActive, if_pos rfl]

/-! ## Runs -/

/-- A step over the standing verdict keeps it or applies a venue snapshot, unless a local loss is reported. -/
theorem Standing.step {e : SupervisorEvent} (h : s.Standing) (hquiet : s.reportsLocalLoss e = false)
    (hmove : s.step e = some t) : t.Standing ∨ Applied s t := by
  have hbase : ∀ c, s.primary = some c → c.producedBase = true → False := by
    intro c hc hproduced
    exact absurd (h.produced c hc hproduced) h.not_live
  cases step_cases (fun hloss => by simp [hquiet] at hloss) hbase hmove with
  | frame slot _ _ _ _ _ _ _ _ _ _ _ delivers =>
    obtain ⟨position, pool, -, hdelivers⟩ := delivers
    exact hdelivers.upheld ⟨h.spent, h.attempts, h.stale, h.produced⟩
  | other _ writes => exact .inl (writes.standing h)

end Supervisor

open Supervisor in
/-- In every run, once the attempts are spent and the book is stale for want of a base, it stays so while no local loss
is reported, until a venue snapshot is applied, and is live then. -/
theorem terminal_verdict_stands {config : SupervisorConfig} {segmented : Bool} {start s t u : Supervisor}
    {e : SupervisorEvent} (hnew : Supervisor.new config segmented = .ok start)
    (hrun : Run Supervisor.step (fun _ _ => True) start s) (hspent : s.recoveryExhausted = true)
    (hverdict : s.book.publish.authority = .stale .recoveryBaseUnavailable)
    (hsince : Run Supervisor.step (fun s e => s.reportsLocalLoss e = false ∧ ¬ s.Accepts e) s t)
    (hquiet : t.reportsLocalLoss e = false) (hmove : t.step e = some u) :
    t.book.publish.authority = .stale .recoveryBaseUnavailable ∧
      (u.book.publish.authority = .stale .recoveryBaseUnavailable ∨ (t.Accepts e ∧ u.book.publish.authority = .live)) := by
  have hsound := run_sound hnew hrun
  have hstanding : s.Standing := ⟨of_decide_eq_true hspent, hsound.attempts, hverdict, hsound.produced⟩
  have hstands : t.Standing :=
    hsince.inv (fun _ _ _ hs hok hmove => (hs.step hok.1 hmove).resolve_right fun happlied =>
      hok.2 ⟨_, hmove, happlied⟩) hstanding
  refine ⟨hstands.stale, ?_⟩
  rcases hstands.step hquiet hmove with hkept | happlied
  · exact .inl hkept.stale
  · obtain ⟨candidate, commit, hok⟩ := happlied
    exact .inr ⟨⟨u, hmove, candidate, commit, hok⟩, OrderBook.applySnapshot_authority hok⟩

/-! One connection and a budget of one attempt. -/

section
open Supervisor

def exampleBudgetConfig : SupervisorConfig :=
  { exampleSupervisorConfig with replicas := 1, pooled := false, maxRecoveryAttempts := 1 }

def exampleBudget : Supervisor := (Supervisor.new exampleBudgetConfig false).toOption.get (by decide)

theorem exampleBudget_new : Supervisor.new exampleBudgetConfig false = .ok exampleBudget := by rfl

/-- The first connection failed, which spent the budget, and a second one is up. -/
def exampleExhausted : Supervisor :=
  (exec Supervisor.step (fun _ _ => True) exampleBudget
    [.spawn .primary, .ended .primary .connectFailed fun _ => exampleLook, .spawn .primary,
      .notice 2 (.ready 10 1 0) exampleLook fun _ => exampleLook]).get (by decide)

theorem exampleExhausted_run : Run Supervisor.step (fun _ _ => True) exampleBudget exampleExhausted :=
  Run.of_exec _ (Option.some_get _).symm

def exampleDecodeFailure : SupervisorEvent := .notice 2 (.decodeFailure true) exampleLook fun _ => exampleLook

/-- A decode failure on the second connection puts its own reason in the verdict's place. -/
theorem terminal_verdict_replaced :
    Supervisor.new exampleBudgetConfig false = .ok exampleBudget ∧
    Run Supervisor.step (fun _ _ => True) exampleBudget exampleExhausted ∧ exampleExhausted.recoveryExhausted = true ∧
    exampleExhausted.book.publish.authority = .stale .recoveryBaseUnavailable ∧
    ((exampleExhausted.step exampleDecodeFailure).get (by decide)).book.publish.authority = .stale .localLoss :=
  ⟨exampleBudget_new, exampleExhausted_run, by decide, by decide, by decide⟩

/-- The second connection ends as well. -/
def exampleEndedAgain : Supervisor :=
  (exampleExhausted.step (.ended .primary .socketClosed fun _ => exampleLook)).get (by decide)

theorem terminal_verdict_stands_example :
    exampleEndedAgain.book.publish.authority = .stale .recoveryBaseUnavailable := by
  have hstands := terminal_verdict_stands (u := exampleEndedAgain) exampleBudget_new
    exampleExhausted_run (by decide) (by decide) (.refl _) (by decide)
    (Option.some_get _).symm
  exact hstands.2.resolve_right fun haccepts => absurd haccepts.2 (by decide)

end

end PmWs
