import Mathlib.Tactic.Common

/-!
# Broadcast channels

One sender, any number of receivers, each with a place of its own in the
sequence of everything sent. The channel is a parameter: only what its laws say
of it is ever used. A bounded ring is one such channel.
-/

namespace Broadcast

/-- What one receive finds, with the receiver it leaves behind. -/
inductive Taken (α ρ : Type*) where
  | value (a : α) (next : ρ)
  | lagged (missed : Nat) (next : ρ)
  | empty
  | closed

/-- The operations of a channel of `α` with state `σ` and receivers `ρ`. -/
structure Operations (α σ ρ : Type*) where
  send : σ → α → σ
  close : σ → σ
  subscribe : σ → ρ
  resubscribe : σ → ρ → ρ
  tryRecv : σ → ρ → Taken α ρ

/-- The laws of a channel: `sent` is everything sent so far, `position` a receiver's place in it. -/
structure Operations.Lawful {α σ ρ : Type*} (ops : Operations α σ ρ) (sent : σ → List α) (position : ρ → Nat) :
    Prop where
  sent_send : ∀ channel a, sent (ops.send channel a) = sent channel ++ [a]
  sent_close : ∀ channel, sent (ops.close channel) = sent channel
  value : ∀ channel receiver a next, ops.tryRecv channel receiver = .value a next →
    (sent channel)[position receiver]? = some a

/-! ## A bounded ring -/

/-- The ring keeps the newest `capacity` values. -/
structure BoundedRing (α : Type*) where
  capacity : Nat
  sent : List α
  closed : Bool

namespace BoundedRing

variable {α : Type*}

/-- A receiver is a position. One that is too far behind is told how many values it missed and resumes at the oldest
kept one; a new one starts at the tail. -/
def operations : Operations α (BoundedRing α) Nat where
  send self a := { self with sent := self.sent ++ [a] }
  close self := { self with closed := true }
  subscribe self := self.sent.length
  resubscribe self _ := self.sent.length
  tryRecv self position :=
    if position + self.capacity < self.sent.length then
      .lagged (self.sent.length - self.capacity - position) (self.sent.length - self.capacity)
    else
      match self.sent[position]? with
      | some a => .value a (position + 1)
      | none => if self.closed then .closed else .empty

theorem lawful : (operations (α := α)).Lawful BoundedRing.sent id where
  sent_send _ _ := rfl
  sent_close _ := rfl
  value self position a next h := by
    simp only [operations] at h
    split at h
    · cases h
    · split at h
      · rename_i heq
        cases h
        exact heq
      · split at h <;> cases h

end BoundedRing

end Broadcast
