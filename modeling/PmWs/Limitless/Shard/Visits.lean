import PmWs.Limitless.Books
import PmWs.Limitless.Shard.Market

/-!
# What a shard does to one market short of applying a frame

Losses, connection ends, handovers and resolutions move a market's stream
forward without touching its levels, and leave its gate's knowledge alone. Most
of them take nothing else away either: the sessions at the published key stay
among those that were there.
-/

open MachineInt

namespace PmWs

theorem getLsbD_socketBit (socket i : Nat) : (socketBit socket).getLsbD i = (decide (i < 8) && decide (i = socket)) := by
  simp only [socketBit, BitVec.getLsbD_shiftLeft, BitVec.getLsbD_one]
  by_cases heq : i = socket
  · subst heq
    simp
  · have hne : i < socket ∨ i - socket ≠ 0 := by omega
    rcases hne with hlt | hne <;> simp [*]

/-- A masked bit tells whether the socket is in the set. -/
theorem socketBit_test (set : BitVec 8) (socket : Nat) : (set &&& socketBit socket != 0#8) = set.getLsbD socket := by
  rw [Bool.eq_iff_iff, bne_iff_ne]
  refine ⟨fun hne => ?_, fun h heq => ?_⟩
  · by_contra hout
    apply hne
    apply BitVec.eq_of_getLsbD_eq
    intro i hi
    by_cases heq : i = socket
    · simpa [heq] using fun h => absurd h hout
    · simp [getLsbD_socketBit, heq]
  · have hlt : socket < 8 := BitVec.lt_of_getLsbD h
    have hbit := congrArg (·.getLsbD socket) heq
    simp only [BitVec.getLsbD_and, h, getLsbD_socketBit, hlt, decide_true, Bool.and_self, BitVec.getLsbD_zero,
      reduceCtorEq] at hbit

namespace MarketEntry

/-! ## Sockets -/

theorem standsAt_eq (e : MarketEntry) (socket : Nat) : e.standsAt socket = e.socketsAtPublished.getLsbD socket :=
  socketBit_test _ socket

theorem standsAt_notePosition (e : MarketEntry) (socket i : Nat) (reached : Bool) :
    (e.notePosition socket reached).standsAt i = if i = socket ∧ i < 8 then reached else e.standsAt i := by
  simp only [standsAt_eq, notePosition]
  by_cases hi : i < 8
  · cases reached <;>
      simp only [Bool.false_eq_true, if_false, if_true, BitVec.getLsbD_and, BitVec.getLsbD_not, BitVec.getLsbD_or,
        getLsbD_socketBit, hi, decide_true, Bool.true_and, and_true] <;>
      by_cases heq : i = socket <;> simp [heq]
  · have hout (x : BitVec 8) : x.getLsbD i = false := BitVec.getLsbD_of_ge _ _ (by omega)
    simp [hi, hout]

/-- A wanted market is never reported as just accepted, nor as rejected. -/
theorem status_desired {e : MarketEntry} (h : e.desired = true) : e.status.isRejected = false ∧ e.status ≠ .accepted := by
  unfold status
  rw [if_neg (by simp [h])]
  split <;> exact ⟨rfl, by simp⟩

/-! ## Idle and plain changes -/

/-- Nothing was applied: the stream moved forward over the same levels, and the gate, if it is still there, knows the
same keys and contents. -/
structure Idle (e e' : MarketEntry) : Prop where
  market : e'.market = e.market
  holds : e.book.Holds e'.book
  installedVersion : e'.installedVersion = e.installedVersion
  baseAccepted : e'.baseAccepted = e.baseAccepted
  unavailable : e'.unavailableReported = true → e.unavailableReported = true ∨ e'.book.Ceased
  gate : ∀ gate', e'.gate = some gate' → ∃ gate, e.gate = some gate ∧ gate.Keeps gate'

/-- An idle change that leaves the set as it was and seats no session. -/
structure Left (e e' : MarketEntry) : Prop extends e.Idle e' where
  desired : e'.desired = e.desired
  stands : ∀ socket, e'.standsAt socket = true → e.standsAt socket = true

/-- Such a change that leaves the market with the connection that carried it. -/
structure Plain (e e' : MarketEntry) : Prop extends e.Left e' where
  subscribedFrom : e'.subscribedFrom = e.subscribedFrom

variable {a b c e e' : MarketEntry}

theorem Idle.refl (e : MarketEntry) : e.Idle e := ⟨rfl, .refl _, rfl, rfl, .inl, fun gate h => ⟨gate, h, .refl _⟩⟩

theorem Idle.trans (h₁ : a.Idle b) (h₂ : b.Idle c) : a.Idle c where
  market := h₂.market.trans h₁.market
  holds := h₁.holds.trans h₂.holds
  installedVersion := h₂.installedVersion.trans h₁.installedVersion
  baseAccepted := h₂.baseAccepted.trans h₁.baseAccepted
  unavailable hu := by
    rcases h₂.unavailable hu with hb | hc
    · exact (h₁.unavailable hb).imp_right fun hh => hh.holds h₂.holds
    · exact .inr hc
  gate gate' hgate' := by
    obtain ⟨g, hg, hk⟩ := h₂.gate gate' hgate'
    obtain ⟨gate, hgate, hk'⟩ := h₁.gate g hg
    exact ⟨gate, hgate, hk'.trans hk⟩

theorem Left.refl (e : MarketEntry) : e.Left e := ⟨.refl e, rfl, fun _ => id⟩

theorem Left.trans (h₁ : a.Left b) (h₂ : b.Left c) : a.Left c where
  toIdle := h₁.toIdle.trans h₂.toIdle
  desired := h₂.desired.trans h₁.desired
  stands socket hs := h₁.stands socket (h₂.stands socket hs)

theorem Plain.refl (e : MarketEntry) : e.Plain e := ⟨.refl e, rfl⟩

theorem Plain.trans (h₁ : a.Plain b) (h₂ : b.Plain c) : a.Plain c :=
  ⟨h₁.toLeft.trans h₂.toLeft, h₂.subscribedFrom.trans h₁.subscribedFrom⟩

/-- A change of bookkeeping alone. -/
theorem Left.of_eq (hmarket : e'.market = e.market) (hbook : e'.book = e.book)
    (hversion : e'.installedVersion = e.installedVersion) (hbase : e'.baseAccepted = e.baseAccepted)
    (hunavailable : e'.unavailableReported = true → e.unavailableReported = true) (hgate : e'.gate = e.gate)
    (hdesired : e'.desired = e.desired) (hsockets : e'.socketsAtPublished = e.socketsAtPublished) : e.Left e' where
  market := hmarket
  holds := hbook ▸ .refl _
  installedVersion := hversion
  baseAccepted := hbase
  unavailable h := .inl (hunavailable h)
  gate gate' h := ⟨gate', hgate ▸ h, .refl _⟩
  desired := hdesired
  stands socket h := by rwa [standsAt_eq, hsockets, ← standsAt_eq] at h

/-- No further report can be made on the market's book. -/
def Spent (e : MarketEntry) : Prop := u64Max ≤ e.book.revision

/-- A live market has a base, and one reported terminal is live only where its revisions are spent. -/
structure Sound (e : MarketEntry) : Prop where
  base : e.live = true → e.baseAccepted = true
  terminal : e.unavailableReported = true → e.live = true → e.Spent

theorem Idle.live (h : e.Idle e') (hlive : e'.live = true) : e.live = true := by
  simp only [MarketEntry.live, decide_eq_true_eq] at hlive ⊢
  exact h.holds.live hlive

theorem Spent.idle (h : e.Spent) (hi : e.Idle e') : e'.Spent := Nat.le_trans h hi.holds.revision_le

theorem Sound.idle (h : e.Sound) (hi : e.Idle e') : e'.Sound where
  base hlive := hi.baseAccepted.trans (h.base (hi.live hlive))
  terminal hu hlive := by
    rcases hi.unavailable hu with hold | hceased
    · exact (h.terminal hold (hi.live hlive)).idle hi
    · exact hceased.spent (by simpa [MarketEntry.live] using hlive)

/-! ## One lemma for each change -/

theorem lostBase_plain (e : MarketEntry) : e.Plain e.lostBase := ⟨.of_eq rfl rfl rfl rfl id rfl rfl rfl, rfl⟩

theorem leaveConnection_left (e : MarketEntry) : e.Left e.leaveConnection := .of_eq rfl rfl rfl rfl id rfl rfl rfl

theorem spendAttempt_plain (e : MarketEntry) : e.Plain e.spendAttempt := ⟨.of_eq rfl rfl rfl rfl id rfl rfl rfl, rfl⟩

theorem reportContinuityLoss_book (e : MarketEntry) (continuity : ContinuityReason) (authority : AuthorityReason) :
    (e.reportContinuityLoss continuity authority).1 = { e with book := e.book.afterLoss continuity authority } := by
  unfold reportContinuityLoss OrderBook.afterLoss
  cases e.book.reportContinuityLoss continuity authority <;> rfl

theorem reportContinuityLoss_plain (e : MarketEntry) (continuity : ContinuityReason) (authority : AuthorityReason) :
    e.Plain (e.reportContinuityLoss continuity authority).1 := by
  rw [reportContinuityLoss_book]
  exact ⟨⟨⟨rfl, .afterLoss _ _ _, rfl, rfl, .inl, fun gate h => ⟨gate, h, .refl _⟩⟩, rfl, fun _ => id⟩, rfl⟩

theorem closedBook_holds (e : MarketEntry) : e.book.Holds e.closedBook := by
  unfold closedBook
  split
  · rename_i hok
    exact .unsubscribe hok
  · exact .refl _

/-- The entry that goes terminal has its stream halted by the same report. -/
theorem reportEnd_plain (e : MarketEntry) (attempts : Nat) (continuity : ContinuityReason) (authority : AuthorityReason) :
    e.Plain (e.reportEnd attempts continuity authority).1 := by
  unfold reportEnd
  dsimp only
  generalize (if attempts ≤ e.recoveryAttempts ∨ e.terminal = true then AuthorityReason.recoveryBaseUnavailable
    else authority) = reported
  have hplain := e.reportContinuityLoss_plain continuity reported
  rw [reportContinuityLoss_book] at hplain ⊢
  exact { hplain with unavailable := fun _ => .inr (e.book.afterLoss_ceased _ _) }

/-- Only a market whose revisions are spent is live. -/
def Quiet (e : MarketEntry) : Prop := e.live = true → e.Spent

theorem reportContinuityLoss_quiet (e : MarketEntry) (continuity : ContinuityReason) (authority : AuthorityReason) :
    (e.reportContinuityLoss continuity authority).1.Quiet := by
  rw [reportContinuityLoss_book]
  exact fun hlive => (OrderBook.afterLoss_ceased _ _ _).spent (by simpa [MarketEntry.live] using hlive)

theorem reportEnd_quiet (e : MarketEntry) (attempts : Nat) (continuity : ContinuityReason) (authority : AuthorityReason) :
    (e.reportEnd attempts continuity authority).1.Quiet := reportContinuityLoss_quiet e continuity _

theorem endGeneration_quiet (h : e.Sound) (attempts : Nat) (continuity : ContinuityReason) (authority : AuthorityReason) :
    (e.endGeneration attempts continuity authority).entry.Quiet := by
  unfold endGeneration
  dsimp only
  split
  · exact reportEnd_quiet _ _ _ _
  · rename_i hkept
    exact fun hlive => absurd (.inl (h.base hlive)) hkept

theorem endGeneration_plain (e : MarketEntry) (attempts : Nat) (continuity : ContinuityReason)
    (authority : AuthorityReason) : e.Plain (e.endGeneration attempts continuity authority).entry := by
  unfold endGeneration
  dsimp only
  split
  · exact e.spendAttempt_plain.trans (reportEnd_plain _ _ _ _)
  · exact e.spendAttempt_plain

theorem handBack_plain (e : MarketEntry) (running : Option Nat) : e.Plain (e.handBack running).entry := by
  unfold handBack
  dsimp only
  split
  · exact .refl e
  · split
    · exact .refl e
    · exact e.lostBase_plain.trans (reportContinuityLoss_plain _ _ _)

theorem loseCoverage_left (e : MarketEntry) (publishing : Bool) (survivors : List (List String)) (attempts : Nat)
    (continuity : ContinuityReason) (authority : AuthorityReason) (slug : String) :
    e.Left (e.loseCoverage publishing survivors attempts continuity authority slug).entry := by
  unfold loseCoverage
  dsimp only
  have hleft : e.Left (if publishing then e.leaveConnection else e) := by
    split
    · exact e.leaveConnection_left
    · exact .refl e
  split
  · exact hleft
  · exact hleft.trans (endGeneration_plain _ _ _ _).toLeft

theorem loseCoverage_subscribedFrom (e : MarketEntry) (publishing : Bool) (survivors : List (List String))
    (attempts : Nat) (continuity : ContinuityReason) (authority : AuthorityReason) (slug : String) :
    (e.loseCoverage publishing survivors attempts continuity authority slug).entry.subscribedFrom =
      if publishing then none else e.subscribedFrom := by
  unfold loseCoverage
  dsimp only
  have hleft : (if publishing then e.leaveConnection else e).subscribedFrom =
      if publishing then none else e.subscribedFrom := by
    split <;> rfl
  split
  · exact hleft
  · rw [(endGeneration_plain _ _ _ _).subscribedFrom, hleft]

theorem loseShard_plain (e : MarketEntry) (continuity : ContinuityReason) (authority : AuthorityReason) :
    e.Plain (e.loseShard continuity authority).entry := by
  unfold loseShard
  split
  · exact .refl e
  · split
    · exact e.lostBase_plain
    · exact e.lostBase_plain.trans (reportContinuityLoss_plain _ _ _)

/-- After a shard-wide loss only a spent book is live. -/
theorem Sound.loseShard (h : e.Sound) {continuity : ContinuityReason} {authority : AuthorityReason}
    (hlive : (e.loseShard continuity authority).entry.live = true) :
    (e.loseShard continuity authority).entry.Spent := by
  have hbase := h.base ((e.loseShard_plain continuity authority).toIdle.live hlive)
  revert hlive
  unfold MarketEntry.loseShard
  rw [if_neg (by simp [hbase])]
  split
  · rename_i hterminal
    exact fun hlive => h.terminal hterminal hlive
  · intro hlive
    exact reportContinuityLoss_quiet _ _ _ hlive

/-- A promotion subscribes the market anew, so it is idle but not plain. -/
theorem promote_idle (e : MarketEntry) (generation version : Nat) (carried : List String) (shadow : Option OrderBook)
    (ended : ConnectionEndReason) (lossy : Bool) (attempts : Nat) (slug : String) :
    e.Idle (e.promote generation version carried shadow ended lossy attempts slug).entry := by
  unfold promote
  dsimp only
  split
  · exact ⟨rfl, .refl _, rfl, rfl, fun h => by simp [Visit.keep] at h, fun gate h => ⟨gate, h, .refl _⟩⟩
  · refine .trans ?_ (endGeneration_plain _ _ _ _).toIdle
    exact ⟨rfl, .refl _, rfl, rfl, .inl, fun gate h => ⟨gate, h, .refl _⟩⟩

theorem promote_desired (e : MarketEntry) (generation version : Nat) (carried : List String) (shadow : Option OrderBook)
    (ended : ConnectionEndReason) (lossy : Bool) (attempts : Nat) (slug : String) :
    (e.promote generation version carried shadow ended lossy attempts slug).entry.desired = e.desired := by
  unfold promote
  dsimp only
  split
  · rfl
  · exact (endGeneration_plain _ _ _ _).desired

/-- A promoted market is carried by the promoted connection exactly if that one dialled it. -/
theorem promote_subscribedFrom (e : MarketEntry) (generation version : Nat) (carried : List String)
    (shadow : Option OrderBook) (ended : ConnectionEndReason) (lossy : Bool) (attempts : Nat) (slug : String) :
    (e.promote generation version carried shadow ended lossy attempts slug).entry.subscribedFrom =
      if carried.contains slug && e.claimedBy version then some generation else none := by
  unfold promote
  dsimp only
  split
  · rfl
  · exact (endGeneration_plain _ _ _ _).subscribedFrom

/-! ## What a frame changes -/

/-- Only what the pool knows of the market changed. -/
structure Noted (e e' : MarketEntry) : Prop where
  market : e'.market = e.market
  book : e'.book = e.book
  desired : e'.desired = e.desired
  subscribedFrom : e'.subscribedFrom = e.subscribedFrom
  installedVersion : e'.installedVersion = e.installedVersion
  baseAccepted : e'.baseAccepted = e.baseAccepted
  unavailable : e'.unavailableReported = e.unavailableReported

/-- The book accepted a snapshot. -/
structure Applied (candidate : Candidate) (commit : BookCommit) (e e' : MarketEntry) : Prop where
  book : e.book.applySnapshot candidate = .ok (e'.book, commit)
  market : e'.market = e.market
  desired : e'.desired = e.desired
  subscribedFrom : e'.subscribedFrom = e.subscribedFrom
  installedVersion : e'.installedVersion = e.installedVersion
  baseAccepted : e'.baseAccepted = true
  unavailable : e'.unavailableReported = false

variable {candidate : Candidate} {commit : BookCommit}

theorem Noted.refl (e : MarketEntry) : e.Noted e := ⟨rfl, rfl, rfl, rfl, rfl, rfl, rfl⟩

theorem Noted.trans (h₁ : a.Noted b) (h₂ : b.Noted c) : a.Noted c :=
  ⟨h₂.market.trans h₁.market, h₂.book.trans h₁.book, h₂.desired.trans h₁.desired,
    h₂.subscribedFrom.trans h₁.subscribedFrom, h₂.installedVersion.trans h₁.installedVersion,
    h₂.baseAccepted.trans h₁.baseAccepted, h₂.unavailable.trans h₁.unavailable⟩

theorem Noted.live (h : e.Noted e') : e'.live = e.live := by
  simp only [MarketEntry.live, h.book]

theorem Noted.spent (h : e.Noted e') : e'.Spent ↔ e.Spent := by
  simp only [MarketEntry.Spent, h.book]

theorem Noted.sound (h : e.Noted e') (hs : e.Sound) : e'.Sound :=
  ⟨fun hlive => h.baseAccepted.trans (hs.base (h.live ▸ hlive)),
    fun hu hlive => h.spent.2 (hs.terminal (h.unavailable ▸ hu) (h.live ▸ hlive))⟩

theorem applySnapshot_applied (h : e.applySnapshot candidate = some (e', commit)) : e.Applied candidate commit e' := by
  unfold MarketEntry.applySnapshot at h
  split at h
  · rename_i book commit' hok
    cases h
    exact ⟨hok, rfl, rfl, rfl, rfl, rfl, rfl⟩
  · cases h

theorem gate_noted (e : MarketEntry) (gate : Option PoolGate) : e.Noted { e with gate } :=
  ⟨rfl, rfl, rfl, rfl, rfl, rfl, rfl⟩

theorem notePublished_noted (e : MarketEntry) (socket : Nat) (key : Option DedupKey) :
    e.Noted (e.notePublished socket key) :=
  ⟨rfl, rfl, rfl, rfl, rfl, rfl, rfl⟩

theorem noteRecovered_noted (e : MarketEntry) (socket : Nat) : e.Noted (e.noteRecovered socket) :=
  ⟨rfl, rfl, rfl, rfl, rfl, rfl, rfl⟩

/-- What the pool notes before and after changes nothing of a snapshot. -/
theorem Applied.noted (ha : a.Noted e) (h : e.Applied candidate commit e') (hb : e'.Noted b) :
    a.Applied candidate commit b where
  book := by rw [← ha.book, hb.book]; exact h.book
  market := hb.market.trans (h.market.trans ha.market)
  desired := hb.desired.trans (h.desired.trans ha.desired)
  subscribedFrom := hb.subscribedFrom.trans (h.subscribedFrom.trans ha.subscribedFrom)
  installedVersion := hb.installedVersion.trans (h.installedVersion.trans ha.installedVersion)
  baseAccepted := hb.baseAccepted.trans h.baseAccepted
  unavailable := hb.unavailable.trans h.unavailable

theorem Applied.live (h : e.Applied candidate commit e') : e'.live = true := by
  simp [MarketEntry.live, OrderBook.applySnapshot_authority h.book]

theorem Applied.sound (h : e.Applied candidate commit e') : e'.Sound :=
  ⟨fun _ => h.baseAccepted, fun hu => by simp [h.unavailable] at hu⟩

end MarketEntry

end PmWs
