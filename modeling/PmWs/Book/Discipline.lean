import PmWs.Book.InPlace
import PmWs.Book.MutationReplay
import PmWs.Book.Stream

/-!
# Stream discipline

A book and the calls it has accepted, over any sequence of calls. Every call is
one of five inverted steps, so what the counters, the cursors and the rail do
over a whole sequence is an induction over those steps.
-/

open MachineInt Fallible Transactions

namespace PmWs

/-- What an accepted call answers. -/
inductive BookAnswer where
  | committed (commit : BookCommit)
  | allocated (cursor : MutationCursor)
  | changed (effective : Bool)

namespace BookAnswer

/-- A commit, or a call that reports that it changed the book. -/
def effective : BookAnswer → Bool
  | committed _ => true
  | allocated _ => false
  | changed effective => effective

def recoveryBase : BookAnswer → Bool
  | committed commit => commit.recoveryBase
  | _ => false

def diverged : BookAnswer → Bool
  | committed commit => commit.divergence.isSome
  | _ => false

def mutations : BookAnswer → List MutationRecord
  | committed commit => commit.mutations
  | _ => []

/-- The cursors a call hands out. -/
def cursors : BookAnswer → List MutationCursor
  | committed commit => commit.mutations.map (·.cursor)
  | allocated cursor => [cursor]
  | changed _ => []

end BookAnswer

def BookCall.perform : BookCall → BookM BookAnswer
  | applySnapshot candidate => do return .committed (← BookM.applySnapshot candidate)
  | applySourceDelta candidate => do return .committed (← BookM.applySourceDelta candidate)
  | noteStreamEvent => do return .allocated (← BookM.noteStreamEvent)
  | unsubscribe => do return .changed (← BookM.unsubscribe)
  | reportContinuityLoss continuity authority => do return .changed (← BookM.reportContinuityLoss continuity authority)

/-- A book and the calls it accepted, oldest first. -/
structure BookHistory where
  book : OrderBook
  accepted : List (BookCall × BookAnswer)

namespace BookHistory

def start (market : MarketRef) : BookHistory := ⟨.new market, []⟩

def call (self : BookHistory) (call : BookCall) : BookHistory :=
  match call.perform self.book with
  | .ok answer book => ⟨book, self.accepted ++ [(call, answer)]⟩
  | .error _ book => { self with book }

/-- A new book after a sequence of calls. -/
def after (market : MarketRef) (calls : List BookCall) : BookHistory := calls.foldl call (start market)

def cursors (self : BookHistory) : List MutationCursor := self.accepted.flatMap (·.2.cursors)

end BookHistory

/-! ## One call -/

section Perform
variable {book book' : OrderBook}

/-- The call it performs and what that call gave. -/
inductive Performs (book book' : OrderBook) : BookCall → BookAnswer → Prop
  | snapshot {candidate : Candidate} {commit : BookCommit} (ok : book.applySnapshot candidate = .ok (book', commit)) :
      Performs book book' (.applySnapshot candidate) (.committed commit)
  | delta {candidate : Candidate} {commit : BookCommit} (ok : book.applySourceDelta candidate = .ok (book', commit)) :
      Performs book book' (.applySourceDelta candidate) (.committed commit)
  | event {cursor : MutationCursor} (ok : book.noteStreamEvent = .ok (book', cursor)) :
      Performs book book' .noteStreamEvent (.allocated cursor)
  | unsubscribe {changed : Bool} (ok : book.unsubscribe = .ok (book', changed)) :
      Performs book book' .unsubscribe (.changed changed)
  | loss {continuity : ContinuityReason} {authority : AuthorityReason} {changed : Bool}
      (ok : book.reportContinuityLoss continuity authority = .ok (book', changed)) :
      Performs book book' (.reportContinuityLoss continuity authority) (.changed changed)

theorem perform_ok {call : BookCall} {answer : BookAnswer} (h : call.perform book = .ok answer book') :
    Performs book book' call answer := by
  cases call <;> obtain ⟨_, _, hcall, ⟨⟩⟩ := Transactions.bind_eq_ok.1 h
  · exact .snapshot (settle_eq_ok.1 (BookM.applySnapshot_settle book _ ▸ hcall))
  · exact .delta (settle_eq_ok.1 (BookM.applySourceDelta_settle book _ ▸ hcall))
  · exact .event (settle_eq_ok.1 (BookM.noteStreamEvent_settle book ▸ hcall))
  · exact .unsubscribe (settle_eq_ok.1 (BookM.unsubscribe_settle book ▸ hcall))
  · exact .loss (settle_eq_ok.1 (BookM.reportContinuityLoss_settle book _ _ ▸ hcall))

theorem perform_error {call : BookCall} {error : BookError} (h : call.perform book = .error error book') :
    book' = book := by
  cases call <;> obtain hcall | ⟨_, _, -, ⟨⟩⟩ := Transactions.bind_eq_error.1 h
  · exact settle_error (BookM.applySnapshot_settle book _ ▸ hcall)
  · exact settle_error (BookM.applySourceDelta_settle book _ ▸ hcall)
  · exact settle_error (BookM.noteStreamEvent_settle book ▸ hcall)
  · exact settle_error (BookM.unsubscribe_settle book ▸ hcall)
  · exact settle_error (BookM.reportContinuityLoss_settle book _ _ ▸ hcall)

/-- A snapshot's divergence is the only thing that is counted as one. -/
theorem applySnapshot_divergences {candidate : Candidate} {commit : BookCommit}
    (h : book.applySnapshot candidate = .ok (book', commit)) :
    book'.syncDivergences = book.syncDivergences + commit.divergence.isSome.toNat := by
  unfold OrderBook.applySnapshot at h
  rw [ite_error_eq_ok] at h
  replace h := h.2
  split at h
  · cases h
  · simp only [Fallible.bind_eq_ok, orError_eq_ok] at h
    obtain ⟨next, -, revision, -, sync, hsync, continuity, -, h⟩ := h
    split at h
    · cases h
    · simp only [Fallible.bind_eq_ok] at h
      obtain ⟨mutations, -, provenance, -, advanced, -, h⟩ := h
      cases h
      split at hsync
      · next hdiverges =>
        obtain ⟨-, rfl⟩ := checkedAdd_eq_some.1 hsync
        simp [hdiverges]
      · next hagrees =>
        cases hsync
        simp [hagrees]

/-- Every record of a commit was built by `make`. -/
theorem recordChanges_made {make : Provenance → Option Level → Option Level → Except ObservationError BookMutation}
    {made : BookMutation → Prop} (hmake : ∀ p old new m, make p old new = .ok m → made m)
    {rebased : Except DescriptorError Provenance} {epoch first : Nat} {changes : List LevelChange}
    {acc records : List MutationRecord} (h : recordChanges make rebased epoch first changes acc = .ok records)
    (hacc : ∀ r ∈ acc, made r.mutation) : ∀ r ∈ records, made r.mutation := by
  induction changes generalizing acc with
  | nil =>
    cases h
    exact hacc
  | cons change rest ih =>
    unfold recordChanges at h
    split at h
    · exact ih h hacc
    · simp only [Fallible.bind_eq_ok, mapError_eq_ok] at h
      obtain ⟨position, -, provenance, -, mutation, hmade, h⟩ := h
      refine ih h fun r hr => ?_
      rcases List.mem_append.1 hr with hr | hr
      · exact hacc r hr
      · rw [List.mem_singleton.1 hr]
        exact hmake _ _ _ _ hmade

theorem sourceReported_origin {p : Provenance} {old new : Option Level} {m : BookMutation}
    (h : BookMutation.sourceReported p old new = .ok m) : m.provenance.origin = .sourceReported := by
  unfold BookMutation.sourceReported at h
  split at h
  · next horigin =>
    unfold BookMutation.coordinateChange at h
    split at h
    · split at h
      · cases h
        exact horigin
      · cases h
    · cases h
  · cases h

theorem applySourceDelta_origins {candidate : Candidate} {commit : BookCommit}
    (h : book.applySourceDelta candidate = .ok (book', commit)) :
    ∀ r ∈ commit.mutations, r.mutation.provenance.origin = .sourceReported := by
  obtain ⟨_, _, _, _, _, _, _, -, -, -, -, -, -, hrecorded, -, -, rfl⟩ := OrderBook.applySourceDelta_ok h
  exact recordChanges_made (fun _ _ _ _ => sourceReported_origin) hrecorded (List.forall_mem_nil _)

/-- On a delta rail a snapshot emits nothing. -/
theorem applySnapshot_on_rail {candidate : Candidate} {commit : BookCommit}
    (h : book.applySnapshot candidate = .ok (book', commit)) (hrail : book.deltaRail = true) : commit.mutations = [] := by
  obtain ⟨_, next, -, -, -, -, step⟩ := OrderBook.applySnapshot_ok h
  cases step with
  | recoveryBase => rfl
  | firstBase => rfl
  | checkpoint => rfl
  | diff _ _ hoff => exact absurd hrail (hoff ▸ nofun)

variable {call : BookCall} {answer : BookAnswer}

/-- What an accepted call does to the counters and the rail. -/
structure Disciplined (book book' : OrderBook) (call : BookCall) (answer : BookAnswer) : Prop where
  revision : book'.revision = book.revision + answer.effective.toNat
  epoch : book'.continuity.epoch = book.continuity.epoch + answer.recoveryBase.toNat
  stream : MutationContinuity.Step book.continuity book'.continuity answer.cursors
  divergences : book'.syncDivergences = book.syncDivergences + answer.diverged.toNat
  rail : book'.deltaRail = true ↔ book.deltaRail = true ∨ ∃ candidate, call = .applySourceDelta candidate
  origins : book.deltaRail = true → ∀ r ∈ answer.mutations, r.mutation.provenance.origin = .sourceReported
  ineffective : answer = .changed false → book' = book

theorem Performs.disciplined (h : Performs book book' call answer) : Disciplined book book' call answer := by
  cases h with
  | snapshot ok =>
    have hdivergences := applySnapshot_divergences ok
    have hstream := OrderBook.applySnapshot_stream ok
    have hrail := applySnapshot_on_rail ok
    obtain ⟨_, next, -, -, -, -, step⟩ := OrderBook.applySnapshot_ok ok
    refine ⟨?_, ?_, hstream, hdivergences, ?_, fun h r hr => ?_, by simp⟩
    · cases step <;> rfl
    · cases step <;> simp_all [OrderBook.accepted, BookAnswer.recoveryBase]
    · cases step <;> simp [OrderBook.accepted]
    · rw [BookAnswer.mutations, hrail h] at hr
      cases hr
  | delta ok =>
    have horigins := applySourceDelta_origins ok
    have hstream := OrderBook.applySourceDelta_stream ok
    obtain ⟨_, _, _, _, _, _, _, -, -, -, hc, -, -, -, -, rfl, rfl⟩ := OrderBook.applySourceDelta_ok ok
    exact ⟨rfl, by rw [hc]; rfl, hstream, rfl, by simp, fun _ => horigins, by simp⟩
  | event ok =>
    have hstream := OrderBook.noteStreamEvent_stream ok
    obtain ⟨epoch, position, hc, -, -, rfl⟩ := OrderBook.noteStreamEvent_ok ok
    exact ⟨rfl, by rw [hc]; rfl, hstream, rfl, by simp, fun _ => List.forall_mem_nil _, by simp⟩
  | unsubscribe ok =>
    have hstream := OrderBook.unsubscribe_stream ok
    rcases OrderBook.unsubscribe_ok ok with ⟨rfl, rfl⟩ | ⟨rfl, -, rfl⟩
    · exact ⟨rfl, rfl, .keep _, rfl, by simp, fun _ => List.forall_mem_nil _, fun _ => rfl⟩
    · exact ⟨rfl, rfl, .keep _, rfl, by simp, fun _ => List.forall_mem_nil _, by simp⟩
  | loss ok =>
    have hstream := OrderBook.reportContinuityLoss_stream ok
    rcases OrderBook.reportContinuityLoss_ok ok with ⟨rfl, rfl, -⟩ | ⟨rfl, -, rfl⟩
    · exact ⟨rfl, rfl, hstream, rfl, by simp, fun _ => List.forall_mem_nil _, fun _ => rfl⟩
    · exact ⟨rfl, MutationContinuity.epoch_markLost _ _, hstream, rfl, by simp, fun _ => List.forall_mem_nil _, by simp⟩

end Perform

/-! ## A sequence of calls -/

namespace MutationContinuity

variable {c c' : MutationContinuity} {earlier cursors : List MutationCursor}

/-- The cursors handed out so far are, in each epoch, the first positions in order: up to where the stream stands in
its own epoch, and none in an epoch it has not opened. -/
def Handed (c : MutationContinuity) (handed : List MutationCursor) : Prop :=
  ∃ taken : Nat → Nat,
    (∀ epoch, handed.filter (·.epoch = epoch) = cursorsFrom epoch 0 (taken epoch)) ∧
    (∀ epoch, c.epoch < epoch → taken epoch = 0) ∧
    ∀ epoch position, c = intact epoch position → taken epoch = position

theorem cursorsFrom_append (epoch position n : Nat) :
    cursorsFrom epoch 0 position ++ cursorsFrom epoch position n = cursorsFrom epoch 0 (position + n) := by
  unfold cursorsFrom
  rw [← List.map_append, ← List.range'_append_1, Nat.zero_add]

theorem filter_cursorsFrom (epoch other position n : Nat) :
    (cursorsFrom epoch position n).filter (·.epoch = other) = if epoch = other then cursorsFrom epoch position n else [] := by
  split
  · next h => exact List.filter_eq_self.2 fun cursor hcursor => decide_eq_true ((mem_cursorsFrom.1 hcursor).1.trans h)
  · next h =>
    refine List.filter_eq_nil_iff.2 fun cursor hcursor => ?_
    rw [decide_eq_true_eq, (mem_cursorsFrom.1 hcursor).1]
    exact h

/-- A call keeps the order of what was handed out. -/
theorem Step.handed (h : Step c c' cursors) (hc : c.Handed earlier) : c'.Handed (earlier ++ cursors) := by
  obtain ⟨taken, hfilter, hunopened, hstands⟩ := hc
  cases h with
  | keep => exact ⟨taken, by simpa using hfilter, hunopened, hstands⟩
  | lose epoch position reason => exact ⟨taken, by simpa using hfilter, hunopened, nofun⟩
  | recover =>
    refine ⟨taken, by simpa using hfilter, fun epoch hlt => hunopened epoch (Nat.lt_of_succ_lt hlt), ?_⟩
    rintro epoch position ⟨⟩
    exact hunopened _ (Nat.lt_succ_self _)
  | emit epoch position n =>
    refine ⟨Function.update taken epoch (position + n), fun other => ?_, fun other hlt => ?_, ?_⟩
    · rw [List.filter_append, hfilter, filter_cursorsFrom]
      by_cases hother : epoch = other
      · subst hother
        rw [if_pos rfl, Function.update_self, hstands epoch position rfl, cursorsFrom_append]
      · rw [if_neg hother, Function.update_of_ne (Ne.symm hother), List.append_nil]
    · rw [epoch_intact] at hlt
      rw [Function.update_of_ne (Nat.ne_of_gt hlt)]
      exact hunopened other hlt
    · rintro _ _ ⟨⟩
      exact Function.update_self ..

/-- A broken stream hands out nothing. -/
theorem Step.cursors_of_lost (h : Step c c' cursors) (hlost : c.isLost = true) : cursors = [] := by
  cases h with
  | keep => rfl
  | lose => rfl
  | recover => rfl
  | emit => cases hlost

end MutationContinuity

def BookCall.isDelta : BookCall → Bool
  | applySourceDelta _ => true
  | _ => false

namespace BookHistory

/-- What holds of a book and the calls it accepted. -/
structure Kept (history : BookHistory) : Prop where
  handed : history.book.continuity.Handed history.cursors
  divergences : history.book.syncDivergences = history.accepted.countP (·.2.diverged)
  rail : ∀ entry ∈ history.accepted, entry.1.isDelta = true → history.book.deltaRail = true
  origins : history.accepted.Pairwise fun earlier later =>
    earlier.1.isDelta = true → ∀ r ∈ later.2.mutations, r.mutation.provenance.origin = .sourceReported

theorem start_kept (market : MarketRef) : (start market).Kept :=
  ⟨⟨fun _ => 0, fun _ => rfl, fun _ _ => rfl, fun _ _ h => (MutationContinuity.intact.inj h).2⟩, rfl,
    List.forall_mem_nil _, .nil⟩

theorem Kept.call {self : BookHistory} (h : self.Kept) (call : BookCall) : (self.call call).Kept := by
  unfold BookHistory.call
  split
  · next answer book' hok =>
    have hstep := (perform_ok hok).disciplined
    refine ⟨?_, ?_, ?_, ?_⟩
    · have hcursors : cursors ⟨book', self.accepted ++ [(call, answer)]⟩ = self.cursors ++ answer.cursors := by
        simp [cursors]
      rw [hcursors]
      exact hstep.stream.handed h.handed
    · rw [hstep.divergences, h.divergences, List.countP_append, List.countP_singleton]
      cases answer.diverged <;> rfl
    · intro entry hentry hdelta
      rcases List.mem_append.1 hentry with hentry | hentry
      · exact hstep.rail.2 (.inl (h.rail entry hentry hdelta))
      · obtain rfl := List.mem_singleton.1 hentry
        cases call with
        | applySourceDelta candidate => exact hstep.rail.2 (.inr ⟨candidate, rfl⟩)
        | _ => cases hdelta
    · refine List.pairwise_append.2 ⟨h.origins, List.pairwise_singleton _ _, ?_⟩
      intro earlier hearlier later hlater hdelta
      obtain rfl := List.mem_singleton.1 hlater
      exact hstep.origins (h.rail earlier hearlier hdelta)
  · next error book' hfailed =>
    obtain rfl := perform_error hfailed
    exact h

theorem after_kept (market : MarketRef) (calls : List BookCall) : (after market calls).Kept := by
  have hkeeps : ∀ self : BookHistory, self.Kept → (calls.foldl BookHistory.call self).Kept := by
    induction calls with
    | nil => exact fun _ h => h
    | cons call rest ih => exact fun self h => ih _ (h.call call)
  exact hkeeps _ (start_kept market)

/-- Over any sequence of calls on a new book: a refused call changes nothing; the revision moves by one at each commit
and each effective unsubscription or loss and at nothing else; the epoch moves by one at each recovery base and at
nothing else; the cursors of each epoch are its positions from zero, in order, and the published position is the next
of them; a broken stream hands out none; after the first delta nothing is derived; and the divergences are counted. -/
theorem stream_discipline (market : MarketRef) (calls : List BookCall) :
    let history := after market calls
    let book := history.book
    (∀ call : BookCall,
      match call.perform book with
      | .error _ book' => book' = book
      | .ok answer book' =>
        book'.revision = book.revision + answer.effective.toNat ∧ (answer = .changed false → book' = book) ∧
        book'.continuity.epoch = book.continuity.epoch + answer.recoveryBase.toNat ∧
        (book.continuity.isLost = true → answer.cursors = [])) ∧
    (∀ epoch, ∃ n, history.cursors.filter (·.epoch = epoch) = cursorsFrom epoch 0 n ∧
      ∀ position, book.publish.continuity = .intact epoch position → n = position) ∧
    (history.accepted.Pairwise fun earlier later =>
      earlier.1.isDelta = true → ∀ r ∈ later.2.mutations, r.mutation.provenance.origin = .sourceReported) ∧
    book.syncDivergences = history.accepted.countP (·.2.diverged) := by
  have hkept := after_kept market calls
  refine ⟨fun call => ?_, fun epoch => ?_, hkept.origins, hkept.divergences⟩
  · split
    · next hfailed => exact perform_error hfailed
    · next answer book' hok =>
      have hstep := (perform_ok hok).disciplined
      exact ⟨hstep.revision, hstep.ineffective, hstep.epoch, hstep.stream.cursors_of_lost⟩
  · obtain ⟨taken, hfilter, -, hstands⟩ := hkept.handed
    exact ⟨taken epoch, hfilter epoch, fun position hposition => hstands epoch position hposition⟩

end BookHistory

end PmWs
