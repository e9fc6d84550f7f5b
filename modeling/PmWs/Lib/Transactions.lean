import Mathlib.Tactic.Common

/-!
# Checks before changes

Computations over a state that a failure leaves as far as they got. Those whose
checks all come before their first change leave the state alone when they fail.
-/

namespace Transactions

variable {ε σ α β : Type} {f : α → EStateM ε σ β} {read : σ → Except ε α} {s s' : σ} {e : ε}

/-- A step that reads the state and may fail. -/
def check (read : σ → Except ε α) : EStateM ε σ α := fun s =>
  match read s with
  | .ok a => .ok a s
  | .error e => .error e s

/-- A step that changes the state and cannot fail. -/
def update (change : σ → σ) : EStateM ε σ Unit := fun s => .ok () (change s)

/-! ## What a step gives -/

@[simp] theorem check_eq_ok {a : α} : check read s = .ok a s' ↔ read s = .ok a ∧ s' = s := by
  unfold check
  split <;> simp_all [eq_comm]

@[simp] theorem check_eq_error : check read s = .error e s' ↔ read s = .error e ∧ s' = s := by
  unfold check
  split <;> simp_all [eq_comm]

@[simp] theorem update_eq_ok {change : σ → σ} {u : Unit} :
    (update change : EStateM ε σ Unit) s = .ok u s' ↔ s' = change s := by
  simp [update, eq_comm]

@[simp] theorem update_ne_error {change : σ → σ} : ¬ update change s = .error e s' := by
  simp [update]

@[simp] theorem bind_eq_ok {x : EStateM ε σ α} {b : β} :
    (x >>= f) s = .ok b s' ↔ ∃ a s₁, x s = .ok a s₁ ∧ f a s₁ = .ok b s' := by
  change EStateM.bind x f s = _ ↔ _
  unfold EStateM.bind
  split <;> simp_all

@[simp] theorem bind_eq_error {x : EStateM ε σ α} :
    (x >>= f) s = .error e s' ↔ x s = .error e s' ∨ ∃ a s₁, x s = .ok a s₁ ∧ f a s₁ = .error e s' := by
  change EStateM.bind x f s = _ ↔ _
  unfold EStateM.bind
  split <;> simp_all

theorem check_bind_eq_ok {b : β} : (check read >>= f) s = .ok b s' ↔ ∃ a, read s = .ok a ∧ f a s = .ok b s' := by
  simp

theorem check_bind_eq_error :
    (check read >>= f) s = .error e s' ↔ (read s = .error e ∧ s' = s) ∨ ∃ a, read s = .ok a ∧ f a s = .error e s' := by
  simp

/-! ## Failing without a trace -/

/-- A failure leaves the state as it was. -/
def Atomic (x : EStateM ε σ α) : Prop := ∀ s e s', x s = .error e s' → s' = s

theorem atomic_update (change : σ → σ) : Atomic (update change : EStateM ε σ Unit) := by
  intro s e s' h
  exact absurd h update_ne_error

/-- A check in front of an atomic computation keeps it atomic. -/
theorem Atomic.check_bind (hf : ∀ a, Atomic (f a)) : Atomic (check read >>= f) := by
  intro s e s' h
  rcases bind_eq_error.1 h with hfail | ⟨a, s₁, hread, hfail⟩
  · exact (check_eq_error.1 hfail).2
  · obtain ⟨-, rfl⟩ := check_eq_ok.1 hread
    exact hf a s₁ e s' hfail

/-- The state a computation leaves, whether it fails or not. -/
def left : EStateM.Result ε σ α → σ
  | .ok _ s | .error _ s => s

/-- A check either fails, with the state as it was, or gives way to what follows it. -/
theorem left_check_bind {P : σ → Prop} (h : P s)
    (hf : ∀ a, read s = .ok a → P (left (f a s))) : P (left ((check read >>= f) s)) := by
  change P (left (EStateM.bind (check read) f s))
  unfold EStateM.bind check
  cases hread : read s with
  | ok a => exact hf a hread
  | error e => exact h

theorem Atomic.left {P : σ → Prop} {x : EStateM ε σ α} (hx : Atomic x) (h : P s)
    (hok : ∀ a s', x s = .ok a s' → P s') : P (left (x s)) := by
  cases hrun : x s with
  | ok a s' => exact hok a s' hrun
  | error e s' => exact hx s e s' hrun ▸ h

/-! ## Against a computation that returns the new state -/

/-- A computation that returns the new state, run in place: a failure leaves the state as it was. -/
def settle (result : Except ε (σ × α)) (s : σ) : EStateM.Result ε σ α :=
  match result with
  | .ok (s', a) => .ok a s'
  | .error e => .error e s

theorem settle_eq_ok {result : Except ε (σ × α)} {a : α} : settle result s = .ok a s' ↔ result = .ok (s', a) := by
  unfold settle
  split <;> simp_all [and_comm]

theorem settle_error {result : Except ε (σ × α)} (h : settle result s = .error e s') : s' = s := by
  unfold settle at h
  split at h <;> simp_all

/-- The same check in front of both. -/
theorem check_bind_settle {g : α → Except ε (σ × β)}
    (h : ∀ a, f a s = settle (g a) s) : (check read >>= f) s = settle (read s >>= g) s := by
  change EStateM.bind (check read) f s = _
  unfold EStateM.bind check
  cases read s with
  | ok a => exact h a
  | error e => rfl

theorem get_bind (f : σ → EStateM ε σ α) (s : σ) : (get >>= f) s = f s s := rfl

/-- An early return on a condition, against the branch it takes. -/
theorem refuse_bind_settle {refused : σ → Prop} [DecidablePred refused] {f : Unit → EStateM ε σ β}
    {result : Except ε (σ × β)} (h : f () s = settle result s) :
    (check (fun s => if refused s then .error e else .ok ()) >>= f) s =
      settle (if refused s then .error e else result) s := by
  change EStateM.bind (check _) f s = _
  unfold EStateM.bind check
  by_cases hrefused : refused s
  · simp only [if_pos hrefused, settle]
  · simp only [if_neg hrefused, h]

end Transactions
