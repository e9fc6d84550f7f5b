import Mathlib

/-!
# Strict running maxima

The records of a list are the entries greater than everything before them.
-/

namespace Records

variable {α : Type*} [LinearOrder α]

/-- The entries of the list greater than everything before them and everything in `seen`. -/
def recordsAfter (seen : List α) : List α → List α
  | [] => []
  | x :: rest => if ∀ y ∈ seen, y < x then x :: recordsAfter (seen ++ [x]) rest else recordsAfter (seen ++ [x]) rest

def records (l : List α) : List α := recordsAfter [] l

theorem recordsAfter_concat (seen l : List α) (x : α) :
    recordsAfter seen (l ++ [x]) = recordsAfter seen l ++ if ∀ y ∈ seen ++ l, y < x then [x] else [] := by
  induction l generalizing seen with
  | nil => simp [recordsAfter]
  | cons z l ih =>
    simp only [List.cons_append, recordsAfter, ih, List.append_assoc, List.nil_append]
    split <;> simp

theorem records_concat (l : List α) (x : α) :
    records (l ++ [x]) = records l ++ if ∀ y ∈ l, y < x then [x] else [] :=
  recordsAfter_concat [] l x

/-- Every entry is at most some record, and every record is an entry. -/
theorem records_bound (l : List α) : (∀ x ∈ records l, x ∈ l) ∧ ∀ x ∈ l, ∃ y ∈ records l, x ≤ y := by
  induction l using List.reverseRecOn with
  | nil => simp [records, recordsAfter]
  | append_singleton l x ih =>
    rw [records_concat]
    split
    case isTrue h =>
      refine ⟨?_, ?_⟩
      · simpa using fun y hy => hy.imp_left (ih.1 y)
      · intro y hy
        rcases List.mem_append.1 hy with hy | hy
        · exact ⟨x, by simp, (h y hy).le⟩
        · exact ⟨x, by simp, (List.mem_singleton.1 hy).le⟩
    case isFalse h =>
      simp only [List.append_nil]
      refine ⟨fun y hy => List.mem_append_left _ (ih.1 y hy), fun y hy => ?_⟩
      rcases List.mem_append.1 hy with hy | hy
      · exact ih.2 y hy
      · obtain rfl := List.mem_singleton.1 hy
        simp only [not_forall, not_lt] at h
        obtain ⟨z, hz, hle⟩ := h
        obtain ⟨w, hw, hzw⟩ := ih.2 z hz
        exact ⟨w, hw, hle.trans hzw⟩

/-- A value above every record is above every entry. -/
theorem forall_lt_records_iff (l : List α) (x : α) : (∀ y ∈ records l, y < x) ↔ ∀ y ∈ l, y < x := by
  refine ⟨fun h y hy => ?_, fun h y hy => h y ((records_bound l).1 y hy)⟩
  obtain ⟨z, hz, hle⟩ := (records_bound l).2 y hy
  exact hle.trans_lt (h z hz)

/-- The last record is the maximum. -/
theorem getLast?_records [Std.LawfulOrderMax α] (l : List α) : (records l).getLast? = l.max? := by
  induction l using List.reverseRecOn with
  | nil => rfl
  | append_singleton l x ih =>
    rw [records_concat]
    split
    case isTrue h =>
      rw [List.getLast?_append, List.getLast?_singleton, Option.some_or, eq_comm, List.max?_eq_some_iff]
      refine ⟨by simp, fun y hy => ?_⟩
      rcases List.mem_append.1 hy with hy | hy
      · exact (h y hy).le
      · exact (List.mem_singleton.1 hy).le
    case isFalse h =>
      simp only [not_forall, not_lt] at h
      obtain ⟨z, hz, hle⟩ := h
      rw [List.append_nil, ih]
      cases hmax : l.max? with
      | none => simp [List.max?_eq_none_iff.1 hmax] at hz
      | some m =>
        rw [eq_comm, List.max?_eq_some_iff]
        rw [List.max?_eq_some_iff] at hmax
        refine ⟨List.mem_append_left _ hmax.1, fun y hy => ?_⟩
        rcases List.mem_append.1 hy with hy | hy
        · exact hmax.2 y hy
        · exact (List.mem_singleton.1 hy).trans_le (hle.trans (hmax.2 z hz))

end Records
