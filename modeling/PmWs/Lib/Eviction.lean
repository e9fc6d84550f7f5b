import Mathlib.Data.List.Infix

/-!
# Windows on a sequence

A bounded window keeps the longest end of what was put into it that still fits.
Where every beginning of what fits fits too, the window can be kept up without
the sequence: the next one is the longest end of the old one and the new entry.
-/

namespace Eviction

variable {α : Type*} {Fits : List α → Prop} {kept all : List α} {a : α}

/-- The longest end that fits. -/
structure Longest (Fits : List α → Prop) (kept all : List α) : Prop where
  suffix : kept <:+ all
  fits : Fits kept
  longest : ∀ other, other <:+ all → Fits other → other <:+ kept

theorem Longest.self (h : Fits all) : Longest Fits all all := ⟨List.suffix_rfl, h, fun _ hother _ => hother⟩

/-- An entry in front of what it does not fit with changes nothing. -/
theorem Longest.cons (h : Longest Fits kept all) (hover : ¬Fits (a :: all)) : Longest Fits kept (a :: all) where
  suffix := h.suffix.trans (List.suffix_cons a all)
  fits := h.fits
  longest other hother hfits := by
    rcases List.suffix_cons_iff.1 hother with rfl | hrest
    · exact absurd hfits hover
    · exact h.longest other hrest hfits

/-- The window on a longer sequence is the window on the old window and the new entry. -/
theorem Longest.concat (hinit : ∀ l a, Fits (l ++ [a]) → Fits l) (h : Longest Fits kept all) {kept' : List α}
    (h' : Longest Fits kept' (kept ++ [a])) : Longest Fits kept' (all ++ [a]) where
  suffix := h'.suffix.trans (List.suffix_concat_iff.2 (.inr ⟨kept, rfl, h.suffix⟩))
  fits := h'.fits
  longest other hother hfits := by
    refine h'.longest other (List.suffix_concat_iff.2 ?_) hfits
    rcases List.suffix_concat_iff.1 hother with rfl | ⟨init, rfl, hsuffix⟩
    · exact .inl rfl
    · exact .inr ⟨init, rfl, h.longest init hsuffix (hinit init a hfits)⟩

end Eviction
