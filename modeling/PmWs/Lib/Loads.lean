import PmWs.Lib.Memory

/-!
# Programs that load from memory

A computation that loads ranges of a memory one at a time, may refuse what it
finds, and may trip an assertion. Every load may be answered by any bytes at
all, so what holds of such a program holds while somebody else writes.
-/

open Memory

variable {ε ε' α β : Type}

inductive Loads (ε α : Type) where
  | done (value : α)
  | failed (error : ε)
  | tripped
  | load (offset length : Nat) (next : List UInt8 → Loads ε α)

namespace Loads

def bind : Loads ε α → (α → Loads ε β) → Loads ε β
  | done value, f => f value
  | failed error, _ => failed error
  | tripped, _ => tripped
  | load offset length next, f => load offset length fun bytes => (next bytes).bind f

instance : Monad (Loads ε) where
  pure := done
  bind := bind

/-- The value of a result, or its error. -/
def ofExcept : Except ε α → Loads ε α
  | .ok value => done value
  | .error error => failed error

/-- `assert!`. -/
def assert (condition : Prop) [Decidable condition] : Loads ε Unit := if condition then done () else tripped

/-- The program of each item in turn. -/
def each (f : α → Loads ε β) : List α → Loads ε (List β)
  | [] => done []
  | item :: items => do
    let first ← f item
    let rest ← each f items
    done (first :: rest)

/-- What comes of a program on a memory of `size` bytes that may change before every load: `none` when an assertion
trips or a load leaves the memory. -/
def run (size : Nat) : Loads ε α → (Nat → Bytes) → Option (Except ε α)
  | done value, _ => some (.ok value)
  | failed error, _ => some (.error error)
  | tripped, _ => none
  | load offset length next, memories =>
    if offset + length ≤ size then (next (read (memories 0) offset length)).run size fun n => memories (n + 1) else none

/-! ## Staying inside -/

/-- No assertion trips and no load leaves the memory, whatever the loads return, and a value returned satisfies
`post`. -/
def Within (size : Nat) (post : α → Prop) : Loads ε α → Prop
  | done value => post value
  | failed _ => True
  | tripped => False
  | load offset length next => offset + length ≤ size ∧ ∀ bytes, (next bytes).Within size post

variable {size : Nat} {post : α → Prop} {post' : β → Prop}

theorem Within.bind {p : Loads ε α} {f : α → Loads ε β} (h : p.Within size post)
    (hf : ∀ a, post a → (f a).Within size post') : (p >>= f).Within size post' := by
  induction p with
  | done value => exact hf value h
  | failed error => trivial
  | tripped => exact h
  | load offset length next ih => exact ⟨h.1, fun bytes => ih bytes (h.2 bytes)⟩

/-- A program that stays inside returns, on every memory and however it changes. -/
theorem Within.run {p : Loads ε α} (h : p.Within size post) (memories : Nat → Bytes) :
    ∃ result, p.run size memories = some result ∧ ∀ value, result = .ok value → post value := by
  induction p generalizing memories with
  | done value => exact ⟨.ok value, rfl, fun _ hvalue => Except.ok.inj hvalue ▸ h⟩
  | failed error => exact ⟨.error error, rfl, nofun⟩
  | tripped => exact h.elim
  | load offset length next ih =>
    rw [Loads.run, if_pos h.1]
    exact ih _ (h.2 _) _

theorem within_ofExcept {result : Except ε α} (h : ∀ value, result = .ok value → post value) :
    (ofExcept result).Within size post := by
  cases result with
  | ok value => exact h value rfl
  | error error => trivial

theorem within_assert {condition : Prop} [Decidable condition] (h : condition) :
    (assert condition : Loads ε Unit).Within size fun _ => True := by
  rw [assert, if_pos h]
  trivial

/-- One program after another, nothing asked of what they return. -/
theorem Within.then {p : Loads ε α} {f : α → Loads ε β} (h : p.Within size fun _ => True)
    (hf : ∀ a, (f a).Within size post') : (p >>= f).Within size post' := h.bind fun a _ => hf a

theorem within_each {f : α → Loads ε β} {items : List α} (h : ∀ item ∈ items, (f item).Within size fun _ => True) :
    (each f items).Within size fun _ => True := by
  induction items with
  | nil => trivial
  | cons item items ih =>
    have hrest := ih fun later hlater => h later (.tail _ hlater)
    exact (h item (.head _)).then fun _ => hrest.then fun _ => trivial

/-! ## On a memory nobody writes -/

/-- What comes of a program while the memory stands still. -/
def Gives (size : Nat) (memory : Bytes) (p : Loads ε α) (result : Except ε α) : Prop :=
  p.run size (fun _ => memory) = some result

section Gives
variable {memory : Bytes}

theorem Gives.bind {p : Loads ε α} {f : α → Loads ε β} {a : α} {result : Except ε β}
    (h : Gives size memory p (.ok a)) (hf : Gives size memory (f a) result) : Gives size memory (p >>= f) result := by
  induction p with
  | done value =>
    obtain rfl : value = a := Except.ok.inj (Option.some.inj h)
    exact hf
  | failed error => cases h
  | tripped => cases h
  | load offset length next ih =>
    unfold Gives run at h
    split at h
    · rename_i hin
      show Loads.run size (.load offset length fun bytes => (next bytes).bind f) _ = _
      rw [run, if_pos hin]
      exact ih _ h
    · cases h

theorem gives_done (value : α) : Gives size memory (done value : Loads ε α) (.ok value) := rfl

end Gives

end Loads
