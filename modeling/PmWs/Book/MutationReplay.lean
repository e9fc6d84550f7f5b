import PmWs.Book.Steps

/-!
# The mutation stream reproduces the book

While the stream stays intact in one epoch, folding the emitted mutations over
the levels a consumer started from gives the book's own levels, up to
coordinates that rest an exact zero. The stored map and the folded one differ
only in such coordinates, because a checkpoint adopts the venue's zero-rest
levels without emitting anything.
-/

open MachineInt Fallible Std Replay

namespace PmWs

/-! ## Economic equality -/

/-- The depth at a coordinate: nothing, for an absent coordinate and for one resting an exact zero. -/
def depth (quantity : Option Quantity) : Option Quantity := quantity.filter fun q => !q.isZero

theorem economicallyEqual_iff {left right : PhysicalLevels} :
    economicallyEqual left right = true ↔ Agree depth left right := by
  have key (levels : PhysicalLevels) : resting levels = (levels.filter fun _ q => !q.isZero).toList := by
    rw [ExtTreeMap.toList_filter]
    rfl
  have lookup (levels : PhysicalLevels) (c : Coordinate) :
      (levels.filter fun _ q => !q.isZero)[c]? = depth levels[c]? := by
    rw [ExtTreeMap.getElem?_filter']
    rfl
  simp only [economicallyEqual, decide_eq_true_eq, key, ExtTreeMap.toList_inj, Agree]
  constructor
  · intro h c
    rw [← lookup, ← lookup, h]
  · intro h
    exact ExtTreeMap.ext_getElem? fun c => by rw [lookup, lookup, h c]

/-! ## Mutations as changes -/

/-- A mutation as a change of the level map. -/
def BookMutation.toChange (mutation : BookMutation) : LevelChange :=
  ⟨mutation.coordinate, mutation.old.map Level.quantity, mutation.replacement.map Level.quantity⟩

/-- Sets a mutation's coordinate to its replacement, or deletes it. -/
def replay (levels : PhysicalLevels) (records : List MutationRecord) : PhysicalLevels :=
  records.foldl (fun levels record => record.mutation.toChange.apply levels) levels

theorem toChange_of_sides {m : BookMutation} {c : LevelChange} (hold : m.old = c.before.map (levelAt c.key))
    (hnew : m.replacement = c.after.map (levelAt c.key)) : m.toChange = c := by
  have hcoord : m.coordinate = c.key := by
    have hmem : ∀ l, m.replacement.or m.old = some l → l.coordinate = c.key := by
      intro l hl
      rw [hold, hnew] at hl
      rcases Option.or_eq_some_iff.1 hl with h | ⟨-, h⟩
      · obtain ⟨q, -, rfl⟩ := Option.map_eq_some_iff.1 h
        rfl
      · obtain ⟨q, -, rfl⟩ := Option.map_eq_some_iff.1 h
        rfl
    exact hmem _ (Option.some_get _).symm
  have hside (q : Option Quantity) : (q.map (levelAt c.key)).map Level.quantity = q := by cases q <;> rfl
  simp only [BookMutation.toChange, hcoord, hold, hnew, hside]

/-- The recorded mutations are the effective changes, in their order. -/
theorem recordChanges_changes
    {make : Provenance → Option Level → Option Level → Except ObservationError BookMutation}
    {rebased : Except DescriptorError Provenance} {epoch first : Nat} {changes : List LevelChange}
    {acc records : List MutationRecord}
    (hmake : ∀ p old new m, make p old new = .ok m → m.old = old ∧ m.replacement = new)
    (h : recordChanges make rebased epoch first changes acc = .ok records) :
    records.map (fun r => r.mutation.toChange) =
      acc.map (fun r => r.mutation.toChange) ++ changes.filter Change.effective := by
  induction changes generalizing acc with
  | nil =>
    cases h
    simp
  | cons c cs ih =>
    unfold recordChanges at h
    split at h
    · next heq =>
      rw [ih h, List.filter_cons_of_neg (by simp [Change.effective, heq])]
    · next hne =>
      simp only [bind_eq_ok, orError_eq_ok, mapError_eq_ok] at h
      obtain ⟨position, -, provenance, -, m, hm, h⟩ := h
      obtain ⟨hold, hnew⟩ := hmake _ _ _ _ hm
      rw [ih h, List.filter_cons_of_pos (by simpa [Change.effective] using hne)]
      simp [toChange_of_sides hold hnew]

theorem replay_eq_foldl (levels : PhysicalLevels) (records : List MutationRecord) :
    replay levels records = (records.map fun r => r.mutation.toChange).foldl Change.apply levels := by
  rw [List.foldl_map]
  rfl

/-! ## The changes of a commit account for it -/

theorem accounts_snapshotChanges (previous next : PhysicalLevels) :
    Accounts previous next (snapshotChanges previous next) := by
  have hkeys : (snapshotChanges previous next).map Change.key = (previous ∪ next).keys := by
    simp [snapshotChanges, Function.comp_def]
  refine ⟨?_, ?_, ?_, ?_⟩
  · rw [hkeys]
    exact ExtTreeMap.nodup_keys
  · intro c hc
    obtain ⟨k, -, rfl⟩ := List.mem_map.1 hc
    rfl
  · intro c hc
    obtain ⟨k, -, rfl⟩ := List.mem_map.1 hc
    rfl
  · intro c hc
    rw [hkeys, ExtTreeMap.mem_keys, ExtTreeMap.mem_union_iff, not_or] at hc
    rw [ExtTreeMap.getElem?_eq_none hc.1, ExtTreeMap.getElem?_eq_none hc.2]

theorem stageDelta_distinct {levels : List Level} {seen : List Coordinate} {staged : List (Coordinate × Option Quantity)}
    (h : stageDelta levels seen = .ok staged) :
    (staged.map Prod.fst).Nodup ∧ ∀ c ∈ staged.map Prod.fst, c ∉ seen := by
  induction levels generalizing seen staged with
  | nil =>
    cases h
    simp
  | cons level rest ih =>
    simp only [stageDelta, bind_eq_ok, mapError_eq_ok, ite_error_eq_ok] at h
    obtain ⟨_, -, hfresh, tail, htail, h⟩ := h
    cases h
    obtain ⟨hnodup, hnew⟩ := ih htail
    refine ⟨List.nodup_cons.2 ⟨fun hmem => hnew _ hmem List.mem_cons_self, hnodup⟩, fun c hc => ?_⟩
    rcases List.mem_cons.1 hc with rfl | hc
    · exact hfresh
    · exact fun hmem => hnew c hc (List.mem_cons_of_mem _ hmem)

theorem applyStaged_eq_foldl (levels base : PhysicalLevels) (staged : List (Coordinate × Option Quantity)) :
    OrderBook.applyStaged levels staged = (deltaChanges base staged).foldl Change.apply levels := by
  rw [OrderBook.applyStaged, deltaChanges, List.foldl_map]
  congr 1
  funext levels entry
  unfold Change.apply
  split <;> simp_all

theorem accounts_deltaChanges {levels : PhysicalLevels} {delta : List Level}
    {staged : List (Coordinate × Option Quantity)} (h : stageDelta delta [] = .ok staged) :
    Accounts levels (OrderBook.applyStaged levels staged) (deltaChanges levels staged) := by
  rw [applyStaged_eq_foldl levels levels]
  apply accounts_foldl
  · have : (deltaChanges levels staged).map Change.key = staged.map Prod.fst := by
      simp [deltaChanges, Function.comp_def]
    rw [this]
    exact (stageDelta_distinct h).1
  · intro c hc
    obtain ⟨entry, -, rfl⟩ := List.mem_map.1 hc
    rfl

/-! ## Runs -/

inductive BookCall where
  | applySnapshot (candidate : Candidate)
  | applySourceDelta (candidate : Candidate)
  | noteStreamEvent
  | unsubscribe
  | reportContinuityLoss (continuity : ContinuityReason) (authority : AuthorityReason)

/-- One call and the mutations its commit emitted. A refused call leaves the book and emits nothing. -/
def OrderBook.call (self : OrderBook) : BookCall → OrderBook × List MutationRecord
  | .applySnapshot candidate =>
    match self.applySnapshot candidate with
    | .ok (book, commit) => (book, commit.mutations)
    | .error _ => (self, [])
  | .applySourceDelta candidate =>
    match self.applySourceDelta candidate with
    | .ok (book, commit) => (book, commit.mutations)
    | .error _ => (self, [])
  | .noteStreamEvent =>
    match self.noteStreamEvent with
    | .ok (book, _) => (book, [])
    | .error _ => (self, [])
  | .unsubscribe =>
    match self.unsubscribe with
    | .ok (book, _) => (book, [])
    | .error _ => (self, [])
  | .reportContinuityLoss continuity authority =>
    match self.reportContinuityLoss continuity authority with
    | .ok (book, _) => (book, [])
    | .error _ => (self, [])

/-- A run of calls and all the mutations it emitted, in order. -/
def OrderBook.calls (self : OrderBook) : List BookCall → OrderBook × List MutationRecord
  | [] => (self, [])
  | call :: rest =>
    let after := self.call call
    let final := after.1.calls rest
    (final.1, after.2 ++ final.2)

/-- The stream has left epoch `e`, or is lost in it: no later state of the book is intact at `e`. -/
def LeftEpoch (e : Nat) (continuity : MutationContinuity) : Prop :=
  (continuity.isLost = true ∧ continuity.epoch = e) ∨ e < continuity.epoch

/-- What one call does to a based book intact at `e`: its mutations account for the level change up to zero-rest
coordinates, or the epoch is over. -/
structure Continues (e : Nat) (before after : OrderBook) (records : List MutationRecord) : Prop where
  based : after.provenance.isSome = true
  intact : ∃ p, after.continuity = .intact e p
  replays : ∀ folded, Agree depth folded before.levels →
    Expected depth folded (records.map fun r => r.mutation.toChange) ∧ Agree depth (replay folded records) after.levels

theorem Continues.of_levels {e : Nat} {before after : OrderBook} (hb : after.provenance.isSome = true)
    (hi : ∃ p, after.continuity = .intact e p) (hl : Agree depth before.levels after.levels) :
    Continues e before after [] :=
  ⟨hb, hi, fun _ hf => ⟨trivial, hf.trans hl⟩⟩

theorem Continues.of_accounts {e : Nat} {before after : OrderBook} {changes : List LevelChange}
    {records : List MutationRecord} (hb : after.provenance.isSome = true) (hi : ∃ p, after.continuity = .intact e p)
    (ha : Accounts before.levels after.levels changes)
    (hr : (records.map fun r => r.mutation.toChange) = changes.filter Change.effective) :
    Continues e before after records :=
  ⟨hb, hi, fun folded hf => by rw [replay_eq_foldl, hr]; exact ha.replay hf⟩

theorem call_continues {book : OrderBook} {e : Nat} (call : BookCall) (hbase : book.provenance.isSome = true)
    (hintact : ∃ p, book.continuity = .intact e p) :
    Continues e book (book.call call).1 (book.call call).2 ∨ LeftEpoch e (book.call call).1.continuity := by
  obtain ⟨p, hp⟩ := hintact
  have unchanged : Continues e book book [] := .of_levels hbase ⟨p, hp⟩ (Agree.refl _ _)
  cases call with
  | applySnapshot candidate =>
    simp only [OrderBook.call]
    split
    · next heq =>
      obtain ⟨_, next, -, -, -, -, step⟩ := OrderBook.applySnapshot_ok heq
      cases step with
      | recoveryBase => exact .inr (.inr (by simp [OrderBook.accepted, hp]))
      | firstBase _ hnone => rw [hnone] at hbase; cases hbase
      | checkpoint hc _ hagree =>
        cases hp.symm.trans hc
        exact .inl (.of_levels rfl ⟨p, rfl⟩ (economicallyEqual_iff.1 hagree))
      | diff hc _ _ hderived =>
        cases hp.symm.trans hc
        refine .inl (.of_accounts rfl ⟨_, rfl⟩ (accounts_snapshotChanges book.levels next) ?_)
        simpa using recordChanges_changes (fun _ _ _ _ h => BookMutation.snapshotDiff_ok h) hderived
    · exact .inl unchanged
  | applySourceDelta candidate =>
    simp only [OrderBook.call]
    split
    · next heq =>
      obtain ⟨_, staged, epoch, position, _, _, _, -, -, -, hc, hstaged, -, hrec, -, rfl, rfl⟩ :=
        OrderBook.applySourceDelta_ok heq
      cases hp.symm.trans hc
      refine .inl (.of_accounts rfl ⟨_, rfl⟩ (accounts_deltaChanges hstaged) ?_)
      simpa using recordChanges_changes (fun _ _ _ _ h => BookMutation.sourceReported_ok h) hrec
    · exact .inl unchanged
  | noteStreamEvent =>
    simp only [OrderBook.call]
    split
    · next heq =>
      obtain ⟨epoch, position, hc, -, -, rfl⟩ := OrderBook.noteStreamEvent_ok heq
      cases hp.symm.trans hc
      exact .inl (.of_levels hbase ⟨_, rfl⟩ (Agree.refl _ _))
    · exact .inl unchanged
  | unsubscribe =>
    simp only [OrderBook.call]
    split
    · next heq =>
      rcases OrderBook.unsubscribe_ok heq with ⟨-, rfl⟩ | ⟨-, -, rfl⟩
      · exact .inl unchanged
      · exact .inl (.of_levels hbase ⟨p, hp⟩ (Agree.refl _ _))
    · exact .inl unchanged
  | reportContinuityLoss c a =>
    simp only [OrderBook.call]
    split
    · next heq =>
      rcases OrderBook.reportContinuityLoss_ok heq with ⟨-, rfl, -, -⟩ | ⟨-, -, rfl⟩
      · exact .inl unchanged
      · exact .inr (.inl ⟨by simp, by simp [hp]⟩)
    · exact .inl unchanged

/-- A call moves the stream to a later epoch, or keeps the epoch and never repairs a loss in it. -/
theorem call_epoch (book : OrderBook) (call : BookCall) :
    book.continuity.epoch < (book.call call).1.continuity.epoch ∨
      ((book.call call).1.continuity.epoch = book.continuity.epoch ∧
        (book.continuity.isLost = true → (book.call call).1.continuity.isLost = true)) := by
  cases call with
  | applySnapshot candidate =>
    simp only [OrderBook.call]
    split
    · next heq =>
      obtain ⟨_, next, -, -, -, -, step⟩ := OrderBook.applySnapshot_ok heq
      cases step with
      | recoveryBase => exact .inl (by simp [OrderBook.accepted])
      | firstBase hc => exact .inr (by simp [OrderBook.accepted, hc])
      | checkpoint hc => exact .inr (by simp [OrderBook.accepted, hc])
      | diff hc => exact .inr (by simp [OrderBook.accepted, hc])
    · exact .inr ⟨rfl, id⟩
  | applySourceDelta candidate =>
    simp only [OrderBook.call]
    split
    · next heq =>
      obtain ⟨_, _, _, _, _, _, _, -, -, -, hc, -, -, -, -, rfl, rfl⟩ := OrderBook.applySourceDelta_ok heq
      exact .inr (by simp [OrderBook.accepted, hc])
    · exact .inr ⟨rfl, id⟩
  | noteStreamEvent =>
    simp only [OrderBook.call]
    split
    · next heq =>
      obtain ⟨_, _, hc, -, -, rfl⟩ := OrderBook.noteStreamEvent_ok heq
      exact .inr (by simp [hc])
    · exact .inr ⟨rfl, id⟩
  | unsubscribe =>
    simp only [OrderBook.call]
    split
    · next heq =>
      rcases OrderBook.unsubscribe_ok heq with ⟨-, rfl⟩ | ⟨-, -, rfl⟩ <;> exact .inr ⟨rfl, id⟩
    · exact .inr ⟨rfl, id⟩
  | reportContinuityLoss c a =>
    simp only [OrderBook.call]
    split
    · next heq =>
      rcases OrderBook.reportContinuityLoss_ok heq with ⟨-, rfl, -, -⟩ | ⟨-, -, rfl⟩
      · exact .inr ⟨rfl, id⟩
      · exact .inr (by simp)
    · exact .inr ⟨rfl, id⟩

theorem calls_leftEpoch {book : OrderBook} {e : Nat} (calls : List BookCall) (h : LeftEpoch e book.continuity) :
    LeftEpoch e (book.calls calls).1.continuity := by
  induction calls generalizing book with
  | nil => exact h
  | cons call rest ih =>
    apply ih
    rcases call_epoch book call with hlt | ⟨heq, hlost⟩
    · rcases h with ⟨-, rfl⟩ | hgt
      · exact .inr hlt
      · exact .inr (hgt.trans hlt)
    · rcases h with ⟨hl, rfl⟩ | hgt
      · exact .inl ⟨hlost hl, heq⟩
      · exact .inr (by omega)

theorem not_leftEpoch_intact {e p : Nat} : ¬ LeftEpoch e (.intact e p) := by
  simp [LeftEpoch]

/-- The run lemma: whatever agrees with the starting levels agrees with the final ones after replay. -/
theorem calls_replay {book : OrderBook} {e q : Nat} {calls : List BookCall} {folded : PhysicalLevels}
    (hbase : book.provenance.isSome = true) (hintact : ∃ p, book.continuity = .intact e p)
    (hend : (book.calls calls).1.continuity = .intact e q) (hfold : Agree depth folded book.levels) :
    Expected depth folded ((book.calls calls).2.map fun r => r.mutation.toChange) ∧
      Agree depth (replay folded (book.calls calls).2) (book.calls calls).1.levels := by
  induction calls generalizing book folded with
  | nil => exact ⟨trivial, hfold⟩
  | cons call rest ih =>
    rcases call_continues call hbase hintact with hc | hleft
    · obtain ⟨hexp, hagree⟩ := hc.replays folded hfold
      obtain ⟨hexp', hagree'⟩ := ih hc.based hc.intact hend hagree
      simp only [OrderBook.calls, List.map_append, replay, List.foldl_append] at hexp' hagree' ⊢
      refine ⟨hexp.append ?_, hagree'⟩
      rwa [← replay_eq_foldl]
    · have := calls_leftEpoch rest hleft
      rw [show ((book.call call).1.calls rest).1.continuity = _ from hend] at this
      exact (not_leftEpoch_intact this).elim

/-- Mutation replay reproduces the book: from a based book intact at `e`, over any calls that leave it intact at `e`,
folding the emitted mutations over the starting levels gives the final levels up to exact zeros, and each mutation's
`old` is, up to exact zeros, what the folded map holds at its coordinate. -/
theorem mutation_replay_reproduces_book (book : OrderBook) (calls : List BookCall) (e p q : Nat)
    (hbase : book.provenance.isSome = true) (hstart : book.continuity = .intact e p)
    (hend : (book.calls calls).1.continuity = .intact e q) :
    economicallyEqual (replay book.levels (book.calls calls).2) (book.calls calls).1.levels = true ∧
      ∀ before record after, (book.calls calls).2 = before ++ record :: after →
        depth (record.mutation.old.map Level.quantity) =
          depth (replay book.levels before)[record.mutation.coordinate]? := by
  obtain ⟨hexp, hagree⟩ := calls_replay hbase ⟨p, hstart⟩ hend (Agree.refl depth book.levels)
  refine ⟨economicallyEqual_iff.2 hagree, fun before record after heq => ?_⟩
  rw [heq, List.map_append, List.map_cons] at hexp
  rw [replay_eq_foldl]
  exact hexp.split

/-! A book based on one bid, then a snapshot that moves the bid and adds an ask. -/

/-- The book after its first base. -/
def exampleBook : OrderBook :=
  ((OrderBook.new exampleMarket).call (.applySnapshot (exampleSnapshot [exampleLevel .bid 3 100] (by decide)))).1

def exampleCalls : List BookCall :=
  [.applySnapshot (exampleSnapshot [exampleLevel .bid 3 150, exampleLevel .ask 5 200] (by decide)), .noteStreamEvent]

theorem mutation_replay_reproduces_exampleBook :
    (exampleBook.calls exampleCalls).2.length = 2 ∧
      economicallyEqual (replay exampleBook.levels (exampleBook.calls exampleCalls).2)
        (exampleBook.calls exampleCalls).1.levels = true :=
  ⟨by decide,
    (mutation_replay_reproduces_book exampleBook exampleCalls 0 0 3 (by decide) (by decide) (by decide)).1⟩

end PmWs
