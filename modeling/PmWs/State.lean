import PmWs.Lib.MachineInt

/-!
# Authority and mutation continuity

The two published facts about a book besides its levels: whether it is
authoritative, and where its mutation stream stands.
-/

open MachineInt

namespace PmWs

inductive AuthorityReason where
  | gap
  | disconnect
  | subscriptionLost
  | localLoss
  | orderingUnknown
  | overload
  | replicaDivergence
  | recoveryBaseUnavailable
  deriving DecidableEq, Repr

inductive AuthorityState where
  | unsubscribed
  | subscribing
  | synchronizing
  | live
  | recovering
  | stale (reason : AuthorityReason)
  deriving DecidableEq, Repr

inductive ContinuityReason where
  | overrun
  | gap
  | localLoss
  | reconnect
  | recoveryBase
  | syncDivergence
  deriving DecidableEq, Repr

inductive ReplicaError where
  | standbyCapacityZero
  | standbyCapacityExceeded
  | primaryUsedAsStandby
  | duplicateStandby
  | poolCapacityZero
  | poolCapacityExceeded
  | duplicatePoolSocket
  | epochOverflow
  | invalidTransition
  deriving DecidableEq, Repr

/-- Why a pool withdrew its own licence to publish across sockets. -/
inductive PoolDegradeReason where
  | connectionInversion
  | reconnectRewind
  | equalKeyContentMismatch
  | keyUnavailable
  deriving DecidableEq, Repr

structure MutationCursor where
  epoch : Nat
  position : Nat
  deriving DecidableEq, Repr

inductive MutationContinuity where
  | intact (epoch nextPosition : Nat)
  | lost (epoch : Nat) (reason : ContinuityReason)
  deriving DecidableEq, Repr

namespace MutationContinuity

def epoch : MutationContinuity → Nat
  | intact e _ => e
  | lost e _ => e

def isLost : MutationContinuity → Bool
  | intact _ _ => false
  | lost _ _ => true

/-- Marks the stream lost at its epoch. A stream already lost keeps its first reason. -/
def markLost (self : MutationContinuity) (reason : ContinuityReason) : MutationContinuity :=
  match self with
  | intact e _ => lost e reason
  | lost _ _ => self

/-- Opens the next epoch from a lost stream. -/
def recovered (self : MutationContinuity) (firstPosition : Nat) : Except ReplicaError MutationContinuity :=
  match self with
  | intact _ _ => .error .invalidTransition
  | lost e _ =>
    match checkedAdd e 1 with
    | some next => .ok (intact next firstPosition)
    | none => .error .epochOverflow

/-- Advances an intact stream past `emitted` deliveries. -/
def advanced (self : MutationContinuity) (emitted : Nat) : Except ReplicaError MutationContinuity :=
  match self with
  | intact e next =>
    match checkedAdd next emitted with
    | some position => .ok (intact e position)
    | none => .error .epochOverflow
  | lost _ _ => .error .invalidTransition

@[simp] theorem epoch_intact (e p : Nat) : (intact e p).epoch = e := rfl
@[simp] theorem epoch_lost (e : Nat) (r : ContinuityReason) : (lost e r).epoch = e := rfl
@[simp] theorem isLost_intact (e p : Nat) : (intact e p).isLost = false := rfl
@[simp] theorem isLost_lost (e : Nat) (r : ContinuityReason) : (lost e r).isLost = true := rfl

@[simp] theorem epoch_markLost (c : MutationContinuity) (r : ContinuityReason) : (c.markLost r).epoch = c.epoch := by
  cases c <;> rfl

@[simp] theorem isLost_markLost (c : MutationContinuity) (r : ContinuityReason) : (c.markLost r).isLost = true := by
  cases c <;> rfl

theorem recovered_ok {c c' : MutationContinuity} {p : Nat} (h : c.recovered p = .ok c') :
    c.isLost = true ∧ c.epoch + 1 ≤ u64Max ∧ c' = intact (c.epoch + 1) p := by
  cases c with
  | intact => cases h
  | lost e r =>
    simp only [recovered] at h
    split at h
    · next hn =>
      obtain ⟨hle, rfl⟩ := checkedAdd_eq_some.1 hn
      cases h
      exact ⟨rfl, hle, rfl⟩
    · cases h

theorem advanced_ok {c c' : MutationContinuity} {n : Nat} (h : c.advanced n = .ok c') :
    ∃ e p, c = intact e p ∧ p + n ≤ u64Max ∧ c' = intact e (p + n) := by
  cases c with
  | lost => cases h
  | intact e p =>
    simp only [advanced] at h
    split at h
    · next hn =>
      obtain ⟨hle, rfl⟩ := checkedAdd_eq_some.1 hn
      cases h
      exact ⟨e, p, rfl, hle, rfl⟩
    · cases h

end MutationContinuity

end PmWs
