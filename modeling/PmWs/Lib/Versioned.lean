import PmWs.Lib.Runs
import Mathlib.Algebra.Group.Even

/-!
# Content under a version

A writer keeps a version beside some content, and changes the content only
while the version is odd. A version that reads the same even value twice was
that value all the time between, and so was the content, however far the writer
could have gone.
-/

namespace Versioned

open Runs

variable {σ ε α : Type*}

/-- The version never falls, and the content stands where the version does and is even. -/
structure Discipline (step : σ → ε → Option σ) (inv : σ → Prop) (version : σ → Nat) (content : σ → α) : Prop where
  keeps : ∀ s e t, inv s → step s e = some t → inv t
  grows : ∀ s e t, inv s → step s e = some t → version s ≤ version t
  still : ∀ s e t, inv s → step s e = some t → Even (version s) → version t = version s → content t = content s

variable {step : σ → ε → Option σ} {ok : σ → ε → Prop} {inv : σ → Prop} {version : σ → Nat} {content : σ → α} {s t : σ}

theorem Discipline.keeps_run (h : Discipline step inv version content) (hrun : Run step ok s t) (hs : inv s) : inv t :=
  hrun.inv (fun s e t hs _ hstep => h.keeps s e t hs hstep) hs

theorem Discipline.grows_run (h : Discipline step inv version content) (hrun : Run step ok s t) (hs : inv s) :
    version s ≤ version t := by
  induction hrun with
  | refl => exact Nat.le_refl _
  | tail hrun _ hstep ih => exact Nat.le_trans ih (h.grows _ _ _ (h.keeps_run hrun hs) hstep)

/-- One even version at both ends of a run: the content is the same at both. -/
theorem Discipline.still_run (h : Discipline step inv version content) (hrun : Run step ok s t) (hs : inv s)
    (heven : Even (version s)) (hsame : version t = version s) : content t = content s := by
  induction hrun with
  | refl => rfl
  | @tail u t e hrun _ hstep ih =>
    -- the version cannot leave its value and come back
    have hmid := h.keeps_run hrun hs
    have hbefore := h.grows_run hrun hs
    have hafter := h.grows u e t hmid hstep
    have hsame' : version u = version s := by omega
    rw [h.still u e t hmid hstep (hsame' ▸ heven) (hsame.trans hsame'.symm)]
    exact ih hsame'

end Versioned
