import Mathlib.Logic.Equiv.Basic
import PmWs.Lib.Runs
import PmWs.Limitless.Supervisor.Steps

/-!
# What reaches the book

Besides the updates it applies, a supervisor only ever reports losses to its
book. A function either leaves the book aside or reports, and what a live book
may rely on follows from that: it has a base, its stream is intact, and only
over a live book does the publishing connection count as having produced one.
-/

open MachineInt Runs

namespace PmWs

namespace OrderBook

/-- The book after a sequence of loss reports, whichever of them it refused. -/
def Reported (b b' : OrderBook) : Prop :=
  ∃ reports : List (ContinuityReason × AuthorityReason), b' = reports.foldl (fun b r => b.afterLoss r.1 r.2) b

variable {a b c : OrderBook}

theorem Reported.refl (b : OrderBook) : b.Reported b := ⟨[], rfl⟩

theorem Reported.afterLoss (b : OrderBook) (continuity : ContinuityReason) (authority : AuthorityReason) :
    b.Reported (b.afterLoss continuity authority) := ⟨[(continuity, authority)], rfl⟩

theorem Reported.trans (h₁ : a.Reported b) (h₂ : b.Reported c) : a.Reported c := by
  obtain ⟨first, rfl⟩ := h₁
  obtain ⟨rest, rfl⟩ := h₂
  exact ⟨first ++ rest, by rw [List.foldl_append]⟩

/-- No report goes through once the revisions are spent. -/
theorem afterLoss_spent (h : u64Max ≤ b.revision) (continuity : ContinuityReason) (authority : AuthorityReason) :
    b.afterLoss continuity authority = b := by
  unfold OrderBook.afterLoss
  split
  · rename_i book changed hok
    rcases reportContinuityLoss_ok hok with ⟨-, heq, -⟩ | ⟨-, hfits, -⟩
    · exact heq
    · omega
  · rfl

theorem Reported.spent (h : b.Reported c) (hspent : u64Max ≤ b.revision) : c = b := by
  obtain ⟨reports, rfl⟩ := h
  induction reports with
  | nil => rfl
  | cons report rest ih => rw [List.foldl_cons, afterLoss_spent hspent, ih]

theorem Reported.lost (h : b.Reported c) (hlost : b.continuity.isLost = true) : c.continuity.isLost = true := by
  obtain ⟨reports, rfl⟩ := h
  induction reports generalizing b with
  | nil => exact hlost
  | cons report rest ih =>
    have hholds := Holds.afterLoss b report.1 report.2
    refine ih ((hholds.lost hlost).resolve_right fun hlt => ?_)
    exact absurd hholds.epoch (Nat.ne_of_gt hlt)

/-- A book that is live after loss reports took none of them. -/
theorem Reported.live (h : b.Reported c) (hlive : c.authority = .live) : c = b := by
  obtain ⟨reports, rfl⟩ := h
  induction reports generalizing b with
  | nil => rfl
  | cons report rest ih =>
    have hrest := ih hlive
    rcases b.afterLoss_cases report.1 report.2 with ⟨-, hstale⟩ | ⟨heq, -⟩
    · rw [List.foldl_cons, hrest, hstale] at hlive
      cases hlive
    · exact hrest.trans heq

theorem afterLoss_lost (h : b.revision < u64Max) (continuity : ContinuityReason) (authority : AuthorityReason) :
    (b.afterLoss continuity authority).continuity.isLost = true := by
  rcases b.afterLoss_cases continuity authority with ⟨hlost, -⟩ | ⟨-, hspent⟩
  · exact hlost
  · omega

end OrderBook

namespace Supervisor

variable {own ends : Prop} {s t u : Supervisor}

/-! ## Connections -/

/-- What the commands of a connection depend on. -/
structure Line where
  generation : Nat
  subscription : Nat
  recovery : Option RecoveryAttempt
  queued : Bool
  deriving DecidableEq

def ActiveConnection.line (self : ActiveConnection) : Line :=
  ⟨self.generation, self.subscriptionGeneration, self.recovery, self.queued⟩

def line (s : Supervisor) (slot : Slot) : Option Line := (s.active slot).map (·.line)

/-- Connections ended or changed their roles, and their commands were left alone. -/
def Carries (s t : Supervisor) : Prop :=
  t.nextGeneration = s.nextGeneration ∧
    ∃ origin : Slot ≃ Slot, ∀ slot l, t.line slot = some l → s.line (origin slot) = some l

theorem Carries.refl (s : Supervisor) : Carries s s := ⟨rfl, .refl Slot, fun _ _ h => h⟩

theorem Carries.trans (h₁ : Carries s t) (h₂ : Carries t u) : Carries s u := by
  obtain ⟨hnext₁, origin₁, hlines₁⟩ := h₁
  obtain ⟨hnext₂, origin₂, hlines₂⟩ := h₂
  exact ⟨hnext₂.trans hnext₁, origin₂.trans origin₁, fun slot l h => hlines₁ _ l (hlines₂ slot l h)⟩

/-- Every role kept its connection or lost it. -/
theorem Carries.of_lines (hnext : t.nextGeneration = s.nextGeneration)
    (h : ∀ slot, t.line slot = s.line slot ∨ t.line slot = none) : Carries s t := by
  refine ⟨hnext, .refl Slot, fun slot l hl => ?_⟩
  rcases h slot with heq | hnone
  · exact heq ▸ hl
  · simp [hnone] at hl

theorem Carries.of_active (hnext : t.nextGeneration = s.nextGeneration) (hprimary : t.primary = s.primary)
    (hstandbys : t.standbys = s.standbys) : Carries s t := by
  refine .of_lines hnext fun slot => .inl ?_
  cases slot with
  | primary => simp only [line, active, hprimary]
  | standby index => simp only [line, active, hstandbys]

/-- A standby whose connection was kept or lost. -/
theorem Carries.of_standby {index : Nat} {f : Standby → Standby} (hnext : t.nextGeneration = s.nextGeneration)
    (hprimary : t.line .primary = s.line .primary) (hstandbys : t.standbys = s.standbys.modify index f)
    (hf : ∀ standby, (f standby).active.map (·.line) = standby.active.map (·.line) ∨ (f standby).active = none) :
    Carries s t := by
  refine .of_lines hnext fun slot => ?_
  cases slot with
  | primary => exact .inl hprimary
  | standby other =>
    simp only [line, active, hstandbys, List.getElem?_modify]
    by_cases heq : index = other
    · cases hstandby : s.standbys[other]? with
      | none => simp [heq]
      | some standby => simpa [heq] using hf standby
    · simp [heq]

/-- The connection of a standby went into the publishing role, and the one it replaced, if kept, into its own. -/
theorem Carries.of_swap {index : Nat} {taken : ActiveConnection} {f : Standby → Standby}
    (hnext : t.nextGeneration = s.nextGeneration) (htaken : s.standbys[index]?.bind (·.active) = some taken)
    (hprimary : t.line .primary = some taken.line) (hstandbys : t.standbys = s.standbys.modify index f)
    (hf : ∀ standby l, (f standby).active.map (·.line) = some l → s.line .primary = some l) : Carries s t := by
  refine ⟨hnext, Equiv.swap .primary (.standby index), fun slot l hl => ?_⟩
  cases slot with
  | primary =>
    rw [Equiv.swap_apply_left, ← hl, hprimary]
    simp [line, active, htaken]
  | standby other =>
    simp only [line, active, hstandbys, List.getElem?_modify] at hl
    by_cases heq : index = other
    · subst heq
      rw [Equiv.swap_apply_right]
      cases hstandby : s.standbys[index]? with
      | none => simp [hstandby] at hl
      | some standby => exact hf standby l (by simpa [hstandby] using hl)
    · rw [Equiv.swap_apply_of_ne_of_ne (by simp) (by simpa using Ne.symm heq)]
      simpa [line, active, heq] using hl

/-! ## Reports -/

/-- Only loss reports reached the book, and the commands of the connections were left alone. -/
structure Reports (s t : Supervisor) : Prop where
  book : s.book.Reported t.book
  based : t.baseAccepted = s.baseAccepted
  carries : Carries s t

theorem Write.reports (h : Write own True s t) : Reports s t := by
  cases h with
  | vacate slot =>
    cases slot with
    | primary =>
      refine ⟨.refl _, rfl, .of_lines rfl fun slot => ?_⟩
      cases slot with
      | primary => exact .inr rfl
      | standby index => exact .inl rfl
    | standby index => exact ⟨.refl _, rfl, .of_standby rfl rfl rfl fun _ => .inr rfl⟩
  | gate | flag | spend | place => exact ⟨.refl _, rfl, .of_active rfl rfl rfl⟩
  | shadow index f keeps => exact ⟨.refl _, rfl, .of_standby rfl rfl rfl fun standby => .inl (by rw [keeps])⟩
  | shadowLoss =>
    refine ⟨.refl _, rfl, .of_standby rfl rfl rfl fun standby => .inl ?_⟩
    rw [Option.map_map]
    rfl
  | move index taken promoted left found live swapped =>
    refine ⟨.refl _, rfl, .of_swap rfl found rfl rfl fun _ l hl => ?_⟩
    rcases swapped with rfl | rfl
    · cases hl
    · exact hl
  | report continuity authority =>
    refine ⟨.afterLoss _ _ _, rfl, .of_lines rfl fun slot => .inl ?_⟩
    cases slot with
    | primary => exact Option.map_map _ _ _
    | standby index => rfl
  | note _ _ free | change _ _ free | start _ free => exact absurd trivial free

theorem Writes.reports (h : Writes own True s t) : Reports s t := by
  refine h.inv (I := Reports s) (fun u v hu hlast => ?_) ⟨.refl _, rfl, .refl s⟩
  have hv := hlast.reports
  exact ⟨hu.book.trans hv.book, hv.based.trans hu.based, hu.carries.trans hv.carries⟩

/-! ## A live book -/

/-- Only over a live book has the publishing connection produced a base. -/
def Produced (s : Supervisor) : Prop := ∀ c ∈ s.primary, c.producedBase = true → s.book.authority = .live

theorem Write.produced (h : Write own ends s t) (hs : s.Produced) : t.Produced := by
  intro c hc hproduced
  cases h with
  | vacate slot =>
    cases slot with
    | primary => cases hc
    | standby index => exact hs c hc hproduced
  | gate | shadow | shadowLoss | flag | spend | place => exact hs c hc hproduced
  | move index taken promoted left found live =>
    cases hc
    exact live hproduced
  | report =>
    obtain ⟨c, -, rfl⟩ := Option.map_eq_some_iff.1 hc
    cases hproduced
  | note book cursor free noted =>
    obtain ⟨epoch, position, -, -, -, rfl⟩ := OrderBook.noteStreamEvent_ok noted
    exact hs c hc hproduced
  | change slot f free keeps =>
    cases slot with
    | primary =>
      obtain ⟨c₀, hc₀, rfl⟩ := Option.map_eq_some_iff.1 hc
      exact hs c₀ hc₀ ((keeps c₀).symm.trans hproduced)
    | standby index => exact hs c hc hproduced
  | start slot =>
    cases slot with
    | primary =>
      cases hc
      cases hproduced
    | standby index => exact hs c hc hproduced

/-- What a live book may rely on. -/
structure Sound (s : Supervisor) : Prop where
  intact : s.book.authority = .live → s.book.continuity.isLost = false
  based : s.book.authority = .live → s.baseAccepted = true
  attempts : s.recoveryAttempts ≤ u32Max
  produced : s.Produced

theorem Write.sound (h : Write own ends s t) (hs : s.Sound) : t.Sound := by
  have hproduced := h.produced hs.produced
  cases h with
  | vacate slot | change slot | start slot => cases slot <;> exact ⟨hs.intact, hs.based, hs.attempts, hproduced⟩
  | gate | shadow | shadowLoss | move | flag | place => exact ⟨hs.intact, hs.based, hs.attempts, hproduced⟩
  | spend producedBase =>
    refine ⟨hs.intact, hs.based, ?_, hproduced⟩
    unfold spendAttempt
    dsimp only
    split
    · exact Nat.zero_le _
    · exact Nat.min_le_right _ _
  | report continuity authority =>
    -- a book that is still live took no report
    refine ⟨fun hlive => ?_, fun hlive => ?_, hs.attempts, hproduced⟩
    · have hsame := (OrderBook.Reported.afterLoss s.book continuity authority).live hlive
      exact (congrArg (·.continuity.isLost) hsame).trans (hs.intact (hsame ▸ hlive))
    · exact hs.based ((OrderBook.Reported.afterLoss s.book continuity authority).live hlive ▸ hlive)
  | note book cursor free noted =>
    obtain ⟨epoch, position, -, -, -, rfl⟩ := OrderBook.noteStreamEvent_ok noted
    exact ⟨fun _ => rfl, hs.based, hs.attempts, hproduced⟩

theorem Writes.sound (h : Writes own ends s t) (hs : s.Sound) : t.Sound :=
  h.inv (fun _ _ hu hlast => hlast.sound hu) hs

/-- A base was accepted: the book is live and its attempts start again. -/
theorem onBaseAccepted_sound (hintact : s.book.continuity.isLost = false) (hlive : s.book.authority = .live)
    (slot : Slot) : (s.onBaseAccepted slot true).Sound := by
  cases slot <;> exact ⟨fun _ => hintact, fun _ => rfl, Nat.zero_le _, fun _ _ _ => hlive⟩

theorem Delivers.sound {slot : Slot} (h : Delivers own slot s t) (hs : s.Sound) : t.Sound := by
  cases h with
  | aside writes => exact writes.sound hs
  | shadow index candidate role result =>
    subst role result
    have hshadowed := (show Writes True True s _ from s.shadowed_writes (.standby index) candidate).sound hs
    exact ⟨hshadowed.intact, hshadowed.based, hshadowed.attempts, hshadowed.produced⟩
  | book candidate book commit pool applied same result =>
    subst result
    exact onBaseAccepted_sound (OrderBook.applySnapshot_intact applied) (OrderBook.applySnapshot_authority applied) slot

/-! ## Runs -/

theorem Sound.step {e : SupervisorEvent} (h : s.Sound) (hmove : s.step e = some t) : t.Sound := by
  cases step_any hmove with
  | frame _ _ _ _ _ _ _ _ _ _ _ _ delivers =>
    obtain ⟨position, pool, -, hdelivers⟩ := delivers
    exact hdelivers.sound ⟨h.intact, h.based, h.attempts, h.produced⟩
  | other _ writes => exact writes.sound h

/-- A new supervisor's book is not live and has no connection. -/
theorem new_sound {config : SupervisorConfig} {segmented : Bool} (h : Supervisor.new config segmented = .ok s) :
    s.Sound := by
  unfold Supervisor.new at h
  split at h
  · cases h
  · simp only [Fallible.bind_eq_ok] at h
    obtain ⟨_, -, _, -, h⟩ := h
    cases h
    refine ⟨?_, ?_, Nat.zero_le _, ?_⟩
    · intro hlive
      cases hlive
    · intro hlive
      cases hlive
    · intro c hc
      cases hc

theorem run_sound {config : SupervisorConfig} {segmented : Bool} {ok : Supervisor → SupervisorEvent → Prop}
    {start : Supervisor} (hnew : Supervisor.new config segmented = .ok start) (hrun : Run Supervisor.step ok start s) :
    s.Sound :=
  hrun.inv (fun _ _ _ hs _ hmove => hs.step hmove) (new_sound hnew)

end Supervisor

end PmWs
