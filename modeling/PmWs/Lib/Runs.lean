import Mathlib.Tactic.Common

/-!
# Runs of a guarded step function

`step s e` is what event `e` does in state `s`, or `none` where it cannot
happen. A run is a sequence of such steps, each also meeting a condition `ok`.
-/

namespace Runs

variable {σ ε : Type*}

inductive Run (step : σ → ε → Option σ) (ok : σ → ε → Prop) : σ → σ → Prop
  | refl (s : σ) : Run step ok s s
  | tail {s t u : σ} {e : ε} (run : Run step ok s t) (meets : ok t e) (moves : step t e = some u) : Run step ok s u

variable {step : σ → ε → Option σ} {ok : σ → ε → Prop}

/-- What every step keeps, every run keeps. -/
theorem Run.inv {I : σ → Prop} (hstep : ∀ s e t, I s → ok s e → step s e = some t → I t) {s t : σ}
    (h : Run step ok s t) (hs : I s) : I t := by
  induction h with
  | refl => exact hs
  | tail _ hok hmove ih => exact hstep _ _ _ ih hok hmove

theorem Run.trans {s t u : σ} (h₁ : Run step ok s t) (h₂ : Run step ok t u) : Run step ok s u := by
  induction h₂ with
  | refl => exact h₁
  | tail _ hok hmove ih => exact .tail ih hok hmove

/-- The state after a list of events, when each of them can happen and meets the condition. -/
def exec (step : σ → ε → Option σ) (ok : σ → ε → Prop) [∀ s e, Decidable (ok s e)] (s : σ) : List ε → Option σ
  | [] => some s
  | e :: rest => if ok s e then (step s e).bind fun t => exec step ok t rest else none

/-- An executed list of events is a run. -/
theorem Run.of_exec [∀ s e, Decidable (ok s e)] {s t : σ} (events : List ε) (h : exec step ok s events = some t) :
    Run step ok s t := by
  induction events generalizing s with
  | nil => exact Option.some.inj h ▸ .refl s
  | cons e rest ih =>
    obtain ⟨hok, hbind⟩ := Option.ite_none_right_eq_some.1 h
    obtain ⟨u, hu, hrest⟩ := Option.bind_eq_some_iff.1 hbind
    exact (Run.tail (.refl s) hok hu).trans (ih hrest)

/-! ## Moves that say something -/

/-- A sequence of moves, with all they said in order. -/
inductive Trace (move : σ → List ε → σ → Prop) : σ → List ε → σ → Prop
  | refl (s : σ) : Trace move s [] s
  | tail {s t u : σ} {said more : List ε} (trace : Trace move s said t) (moves : move t more u) :
      Trace move s (said ++ more) u

section
variable {move : σ → List ε → σ → Prop} {s t u : σ} {said more : List ε}

theorem Trace.single (h : move s said t) : Trace move s said t := .tail (.refl s) h

theorem Trace.trans (h₁ : Trace move s said t) (h₂ : Trace move t more u) : Trace move s (said ++ more) u := by
  induction h₂ with
  | refl => exact (List.append_nil said).symm ▸ h₁
  | tail _ hmove ih => exact List.append_assoc .. ▸ .tail ih hmove

/-- Moves that said nothing change nothing of what was said. -/
theorem Trace.silent (h₁ : Trace move s said t) (h₂ : Trace move t [] u) : Trace move s said u :=
  List.append_nil said ▸ h₁.trans h₂

theorem Trace.after (h₁ : Trace move s [] t) (h₂ : Trace move t said u) : Trace move s said u := h₁.trans h₂

/-- What every move keeps, every sequence of moves keeps. -/
theorem Trace.inv {I : σ → Prop} (hmove : ∀ s said t, I s → move s said t → I t) (h : Trace move s said t) (hs : I s) :
    I t := by
  induction h with
  | refl => exact hs
  | tail _ hm ih => exact hmove _ _ _ ih hm

/-- Where each move is a few moves of another system, so is every sequence of them. -/
theorem Trace.expand {τ : Type*} {move' : τ → List ε → τ → Prop} (f : σ → τ)
    (hmove : ∀ s said t, move s said t → Trace move' (f s) said (f t)) (h : Trace move s said t) :
    Trace move' (f s) said (f t) := by
  induction h with
  | refl => exact .refl _
  | tail _ hm ih => exact ih.trans (hmove _ _ _ hm)

end

end Runs
