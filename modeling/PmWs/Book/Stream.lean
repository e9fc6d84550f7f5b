import Mathlib.Data.List.Range
import PmWs.Book.Steps
import PmWs.Observer

/-!
# Where a stream stands

A call on a book keeps its stream, breaks it, opens the next epoch, or takes
the next positions of the standing one, in order. Every cursor a stream has
handed out is behind where it stands, and every one it will hand out is not.
-/

open MachineInt Fallible

namespace PmWs

/-- `n` cursors of one epoch, from a position on. -/
def cursorsFrom (epoch position n : Nat) : List MutationCursor := (List.range' position n).map fun p => ⟨epoch, p⟩

/-- The lexicographic order of cursors. -/
def MutationCursor.Before (a b : MutationCursor) : Prop :=
  a.epoch < b.epoch ∨ (a.epoch = b.epoch ∧ a.position < b.position)

namespace MutationContinuity

/-- The stream stands past a cursor: it hands it out no more. -/
def Past (self : MutationContinuity) (cursor : MutationCursor) : Prop :=
  match self with
  | intact epoch nextPosition => cursor.Before ⟨epoch, nextPosition⟩
  | lost epoch _ => cursor.epoch ≤ epoch

/-- What one call can do to a stream, and the cursors it hands out. -/
inductive Step : MutationContinuity → MutationContinuity → List MutationCursor → Prop
  | keep (c : MutationContinuity) : Step c c []
  | lose (epoch position : Nat) (reason : ContinuityReason) : Step (intact epoch position) (lost epoch reason) []
  | recover (c : MutationContinuity) : Step c (intact (c.epoch + 1) 0) []
  | emit (epoch position n : Nat) :
      Step (intact epoch position) (intact epoch (position + n)) (cursorsFrom epoch position n)

variable {c c' : MutationContinuity} {cursors : List MutationCursor} {a b : MutationCursor}

theorem Past.epoch_le (h : c.Past a) : a.epoch ≤ c.epoch := by
  cases c with
  | intact epoch position => exact h.elim Nat.le_of_lt fun h => h.1.le
  | lost epoch reason => exact h

/-- A stream stays past what it was past. -/
theorem Step.past (h : Step c c' cursors) (ha : c.Past a) : c'.Past a := by
  cases h with
  | keep => exact ha
  | lose => exact ha.epoch_le
  | recover => exact .inl (Nat.lt_succ_of_le ha.epoch_le)
  | emit => exact ha.imp_right fun h => ⟨h.1, Nat.lt_add_right _ h.2⟩

theorem mem_cursorsFrom {epoch position n : Nat} :
    a ∈ cursorsFrom epoch position n ↔ a.epoch = epoch ∧ position ≤ a.position ∧ a.position < position + n := by
  simp only [cursorsFrom, List.mem_map, List.mem_range'_1]
  constructor
  · rintro ⟨p, hp, rfl⟩
    exact ⟨rfl, hp⟩
  · rintro ⟨rfl, hp⟩
    exact ⟨a.position, hp, rfl⟩

/-- Another stream that stands past everything this one stands past. -/
def Onward (c c' : MutationContinuity) : Prop := ∀ cursor, c.Past cursor → c'.Past cursor

theorem Onward.refl (c : MutationContinuity) : c.Onward c := fun _ => id

theorem Onward.trans {c'' : MutationContinuity} (h₁ : c.Onward c') (h₂ : c'.Onward c'') : c.Onward c'' :=
  fun cursor h => h₂ cursor (h₁ cursor h)

theorem Step.onward (h : Step c c' cursors) : c.Onward c' := fun _ => h.past

theorem markLost_step (c : MutationContinuity) (reason : ContinuityReason) : Step c (c.markLost reason) [] := by
  cases c with
  | intact epoch position => exact .lose epoch position reason
  | lost epoch reason' => exact .keep _

end MutationContinuity

theorem cursorsFrom_succ (epoch position n : Nat) :
    cursorsFrom epoch position (n + 1) = cursorsFrom epoch position n ++ [⟨epoch, position + n⟩] := by
  simp [cursorsFrom, List.range'_1_concat]

/-! ## Calls -/

/-- The records of a commit take consecutive positions. -/
theorem recordChanges_cursors
    {make : Provenance → Option Level → Option Level → Except ObservationError BookMutation}
    {rebased : Except DescriptorError Provenance} {epoch first : Nat} {changes : List LevelChange}
    {acc records : List MutationRecord} (h : recordChanges make rebased epoch first changes acc = .ok records)
    (hacc : acc.map (·.cursor) = cursorsFrom epoch first acc.length) :
    records.map (·.cursor) = cursorsFrom epoch first records.length := by
  induction changes generalizing acc with
  | nil =>
    cases h
    exact hacc
  | cons change rest ih =>
    unfold recordChanges at h
    split at h
    · exact ih h hacc
    · simp only [bind_eq_ok, orError_eq_ok, mapError_eq_ok, checkedAdd_eq_some] at h
      obtain ⟨position, ⟨-, rfl⟩, provenance, -, mutation, -, h⟩ := h
      refine ih h ?_
      rw [List.map_append, hacc, List.length_append, List.length_singleton, cursorsFrom_succ]
      rfl

namespace OrderBook

open MutationContinuity (Step)

variable {book book' : OrderBook} {candidate : Candidate} {commit : BookCommit}

theorem applySnapshot_stream (h : book.applySnapshot candidate = .ok (book', commit)) :
    Step book.continuity book'.continuity (commit.mutations.map (·.cursor)) := by
  obtain ⟨_, next, -, -, -, -, step⟩ := applySnapshot_ok h
  cases step with
  | recoveryBase => exact .recover _
  | firstBase hc => exact hc ▸ .keep _
  | checkpoint hc => exact hc ▸ .keep _
  | diff hc _ _ hderived =>
    rw [hc, recordChanges_cursors hderived rfl]
    exact .emit _ _ _

theorem applySourceDelta_stream (h : book.applySourceDelta candidate = .ok (book', commit)) :
    Step book.continuity book'.continuity (commit.mutations.map (·.cursor)) := by
  obtain ⟨_, staged, epoch, position, _, _, _, -, -, -, hc, -, -, hrecorded, -, rfl, rfl⟩ := applySourceDelta_ok h
  rw [hc, recordChanges_cursors hrecorded rfl]
  exact .emit _ _ _

theorem unsubscribe_stream {changed : Bool} (h : book.unsubscribe = .ok (book', changed)) :
    book'.continuity = book.continuity := by
  rcases unsubscribe_ok h with ⟨-, rfl⟩ | ⟨-, -, rfl⟩ <;> rfl

theorem reportContinuityLoss_stream {continuity : ContinuityReason} {authority : AuthorityReason} {changed : Bool}
    (h : book.reportContinuityLoss continuity authority = .ok (book', changed)) :
    Step book.continuity book'.continuity [] := by
  rcases reportContinuityLoss_ok h with ⟨-, rfl, -⟩ | ⟨-, -, rfl⟩
  · exact .keep _
  · exact book.continuity.markLost_step continuity

theorem noteStreamEvent_stream {cursor : MutationCursor} (h : book.noteStreamEvent = .ok (book', cursor)) :
    Step book.continuity book'.continuity [cursor] := by
  obtain ⟨epoch, position, hc, -, rfl, rfl⟩ := noteStreamEvent_ok h
  exact hc ▸ .emit epoch position 1

end OrderBook

end PmWs
