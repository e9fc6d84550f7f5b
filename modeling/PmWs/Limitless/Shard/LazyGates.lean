import PmWs.Limitless.Shard.Effects

/-!
# Gates that are built when they are needed

A market of the pool has no gate before its first arrival. For the gates that
do not exist yet the shard keeps one bit a socket: whether the next session
there is a replacement. A gate built from these bits is the gate that was there
from the start, and was told of every session that ended or moved.
-/

open MachineInt Tables Runs

namespace PmWs

/-! ## A gate without an arrival -/

namespace PoolGate

def hear (self : PoolGate) : PoolCall → PoolGate
  | .retire socket => self.retireSocket socket
  | .reassign source target => self.reassignSocket source target

/-- What can happen to a gate. -/
inductive Use where
  | arrival (socket : Nat) (key : Option DedupKey) (projection : CandidateProjection)
  | committed (socket : Nat) (key : DedupKey)
  | recovered (socket : Nat)
  | told (call : PoolCall)

/-- The verdicts of a gate on the arrivals of a sequence of uses. -/
def verdicts (self : PoolGate) : List Use → List PoolVerdict
  | [] => []
  | .arrival socket key projection :: rest =>
    (self.admitArrival socket key projection).2 :: (self.admitArrival socket key projection).1.verdicts rest
  | .committed socket key :: rest => (self.committed socket key).verdicts rest
  | .recovered socket :: rest => (self.recovered socket).verdicts rest
  | .told call :: rest => (self.hear call).verdicts rest

/-- No arrival reached the gate, and a socket's next session is a replacement exactly where its bit is set. -/
structure Unused (gate : PoolGate) (declaration : DedupKeyDeclaration) (sockets : Nat) (ended : BitVec 8) : Prop where
  declaration : gate.declaration = declaration
  lastPublished : gate.lastPublished = none
  lastPublisher : gate.lastPublisher = none
  evidence : gate.evidence = .new
  degraded : gate.degraded = none
  counts : (gate.published, gate.duplicateDrops, gate.staleDrops) = (0, 0, 0)
  records : ∀ i, gate.sockets[i]? = if i < sockets then some ⟨none, ended.getLsbD i, 0⟩ else none

variable {gate gate' : PoolGate} {declaration : DedupKeyDeclaration} {sockets : Nat} {ended ended' : BitVec 8}

/-- Nothing else is to be known of such a gate. -/
theorem Unused.unique (h : gate.Unused declaration sockets ended) (h' : gate'.Unused declaration sockets ended) :
    gate = gate' := by
  have hsockets : gate.sockets = gate'.sockets := List.ext_getElem? fun i => (h.records i).trans (h'.records i).symm
  obtain ⟨hdeclaration, hpublished, hpublisher, hevidence, hdegraded, hcounts, -⟩ := h
  obtain ⟨hdeclaration', hpublished', hpublisher', hevidence', hdegraded', hcounts', -⟩ := h'
  cases gate
  cases gate'
  simp_all

theorem fresh_unused (ordered : declaration.semantics.admitsPooledPublish = true)
    (count : minPoolSockets ≤ sockets ∧ sockets ≤ maxPoolSockets) :
    (fresh declaration sockets ordered count).Unused declaration sockets 0#8 :=
  ⟨rfl, rfl, rfl, rfl, rfl, rfl, fun i => by simp [fresh, List.getElem?_replicate, SocketRecord.default]⟩

theorem Unused.retireSocket (h : gate.Unused declaration sockets ended) (hcount : sockets ≤ maxPoolSockets) (socket : Nat) :
    (gate.retireSocket socket).Unused declaration sockets (ended ||| socketBit socket) := by
  refine ⟨h.declaration, h.lastPublished, h.lastPublisher, h.evidence, h.degraded, h.counts, fun i => ?_⟩
  simp only [PoolGate.retireSocket, updateSocket, List.getElem?_modify, h.records, BitVec.getLsbD_or, getLsbD_socketBit]
  by_cases hlt : i < sockets
  · have hbit : i < 8 := hlt.trans_le (hcount.trans (by decide))
    by_cases heq : socket = i
    · simp [hlt, heq, hbit]
    · simp [hlt, heq, Ne.symm heq]
  · simp [hlt]

/-- The bits after the session of socket `source` has moved to socket 0. -/
theorem moved_bits (ended : BitVec 8) {source i : Nat} (hsource : source ≠ 0) (hlt : i < 8) :
    ((if ended &&& socketBit source != 0#8 then ended &&& ~~~socketBit 0 ||| socketBit 0 else ended &&& ~~~socketBit 0)
      ||| socketBit source).getLsbD i =
        if i = 0 then ended.getLsbD source else if i = source then true else ended.getLsbD i := by
  rw [socketBit_test]
  cases hmoved : ended.getLsbD source <;>
    simp only [Bool.false_eq_true, if_false, if_true, BitVec.getLsbD_or, BitVec.getLsbD_and, BitVec.getLsbD_not,
      getLsbD_socketBit, hlt, decide_true, Bool.true_and] <;>
    by_cases hzero : i = 0 <;> by_cases heq : i = source <;> simp_all

theorem Unused.reassignSocket (h : gate.Unused declaration sockets ended) (hcount : sockets ≤ maxPoolSockets)
    {source : Nat} (hsource : source ≠ 0) (hlt : source < sockets) :
    (gate.reassignSocket source 0).Unused declaration sockets
      ((if ended &&& socketBit source != 0#8 then ended &&& ~~~socketBit 0 ||| socketBit 0 else ended &&& ~~~socketBit 0)
        ||| socketBit source) := by
  have hpos : 0 < sockets := Nat.zero_lt_of_lt hlt
  have hmoved := (h.records source).trans (if_pos hlt)
  have hrecord := (h.records 0).trans (if_pos hpos)
  obtain ⟨hlength, -⟩ := List.getElem?_eq_some_iff.1 hmoved
  unfold PoolGate.reassignSocket
  simp only [hmoved, hrecord, if_neg hsource]
  refine ⟨h.declaration, h.lastPublished, ?_, h.evidence, h.degraded, h.counts, fun i => ?_⟩
  · simp [h.lastPublisher]
  · dsimp only
    rw [List.getElem?_set, List.getElem?_set, List.length_set, h.records]
    by_cases hi : i < sockets
    · have hbit : i < 8 := hi.trans_le (hcount.trans (by decide))
      rw [moved_bits ended hsource hbit]
      by_cases heq : source = i
      · subst heq
        simp [hlength, hlt, hsource]
      · by_cases hzero : 0 = i
        · subst hzero
          simp [hsource, Nat.zero_lt_of_lt hlength, hpos]
        · simp [heq, hzero, hi, Ne.symm heq, Ne.symm hzero]
    · have hne : source ≠ i := fun heq => hi (heq ▸ hlt)
      have hne' : 0 ≠ i := fun heq => hi (heq ▸ hpos)
      simp [hne, hne', hi]

end PoolGate

/-- The bits of the ended sessions after a call, as the shard keeps them. -/
def PoolCall.note (ended : BitVec 8) : PoolCall → BitVec 8
  | .retire socket => ended ||| socketBit socket
  | .reassign source target =>
    let cleared := ended &&& ~~~socketBit target
    (if ended &&& socketBit source != 0#8 then cleared ||| socketBit target else cleared) ||| socketBit source

/-- A call the shard makes on a gate of `sockets` sockets. -/
def PoolCall.Made (sockets : Nat) : PoolCall → Prop
  | .retire _ => True
  | .reassign source target => target = 0 ∧ source ≠ 0 ∧ source < sockets

namespace PoolGate

variable {gate : PoolGate} {declaration : DedupKeyDeclaration} {sockets : Nat} {ended : BitVec 8}

/-- What a gate without an arrival hears, the bits note. -/
theorem Unused.hear (h : gate.Unused declaration sockets ended) (hcount : sockets ≤ maxPoolSockets) {call : PoolCall}
    (hmade : call.Made sockets) : (gate.hear call).Unused declaration sockets (call.note ended) := by
  cases call with
  | retire socket => exact h.retireSocket hcount socket
  | reassign source target =>
    obtain ⟨rfl, hsource, hlt⟩ := hmade
    exact h.reassignSocket hcount hsource hlt

theorem Unused.hearAll (h : gate.Unused declaration sockets ended) (hcount : sockets ≤ maxPoolSockets)
    {calls : List PoolCall} (hmade : ∀ call ∈ calls, call.Made sockets) :
    (calls.foldl PoolGate.hear gate).Unused declaration sockets (calls.foldl PoolCall.note ended) := by
  induction calls generalizing gate ended with
  | nil => exact h
  | cons call rest ih =>
    exact ih (h.hear hcount (hmade call List.mem_cons_self)) fun other hother => hmade other (List.mem_cons_of_mem _ hother)

/-- Only the bits of the gate's own sockets count. -/
theorem Unused.congr {ended' : BitVec 8} (h : gate.Unused declaration sockets ended)
    (hbits : ∀ i < sockets, ended'.getLsbD i = ended.getLsbD i) : gate.Unused declaration sockets ended' := by
  refine { h with records := fun i => ?_ }
  rw [h.records]
  by_cases hi : i < sockets
  · rw [if_pos hi, if_pos hi, hbits i hi]
  · rw [if_neg hi, if_neg hi]

/-- A gate told of every socket below `n` whose bit is set has noted these bits. -/
theorem Unused.retireAll (h : gate.Unused declaration sockets 0#8) (hcount : sockets ≤ maxPoolSockets)
    (ended : BitVec 8) (n : Nat) :
    ∃ noted : BitVec 8, (∀ i, noted.getLsbD i = (Decidable.decide (i < n) && ended.getLsbD i)) ∧
      ((List.range n).foldl (fun gate socket =>
        if ended &&& socketBit socket != 0#8 then gate.retireSocket socket else gate) gate).Unused declaration sockets noted := by
  induction n with
  | zero => exact ⟨0#8, by simp, h⟩
  | succ n ih =>
    obtain ⟨noted, hnoted, hunused⟩ := ih
    rw [List.range_succ, List.foldl_append]
    generalize (List.range n).foldl _ gate = told at hunused
    rw [List.foldl_cons, List.foldl_nil, socketBit_test]
    cases hbit : ended.getLsbD n with
    | true =>
      refine ⟨noted ||| socketBit n, fun i => ?_, hunused.retireSocket hcount n⟩
      rw [BitVec.getLsbD_or, hnoted, getLsbD_socketBit]
      by_cases heq : i = n
      · subst heq
        simp [hbit, BitVec.lt_of_getLsbD hbit]
      · have hlt : i < n + 1 ↔ i < n := by omega
        simp [heq, hlt]
    | false =>
      refine ⟨noted, fun i => ?_, hunused⟩
      rw [hnoted]
      by_cases heq : i = n
      · subst heq
        simp [hbit]
      · have hlt : i < n + 1 ↔ i < n := by omega
        simp [hlt]

end PoolGate

namespace Shard

variable {s t : Shard} {declaration : DedupKeyDeclaration} {sockets : Nat} {calls : List PoolCall}

/-- The gate built for a market is one that no arrival reached, and that knows the bits. -/
theorem newPoolGate_unused {gate : PoolGate} (hgate : PoolGate.new declaration sockets = .ok gate) :
    ∃ built, s.newPoolGate declaration sockets = some built ∧
      built.Unused declaration sockets s.poolSessionsEnded := by
  obtain ⟨ordered, count, rfl⟩ := PoolGate.new_ok hgate
  obtain ⟨noted, hnoted, hunused⟩ :=
    (PoolGate.fresh_unused ordered count).retireAll count.2 s.poolSessionsEnded sockets
  refine ⟨_, by rw [newPoolGate, hgate]; rfl, hunused.congr fun i hi => ?_⟩
  simp [hnoted, hi]

/-! ## Bits along the runs -/

/-- The bits note every call, the roles stay, the licence may only be withdrawn, and a handover is between two of the
roles. -/
structure Notes (s : Shard) (calls : List PoolCall) (t : Shard) : Prop where
  ended : t.poolSessionsEnded = calls.foldl PoolCall.note s.poolSessionsEnded
  standbys : t.standbys.length = s.standbys.length
  licence : ∀ licence, t.poolLicence = some licence → s.poolLicence = some licence
  made : ∀ call ∈ calls, call.Made (s.standbys.length + 1)

theorem Notes.of_kept (hkept : t.kept = s.kept)
    (hlicence : ∀ licence, t.poolLicence = some licence → s.poolLicence = some licence) : Notes s [] t :=
  ⟨congrArg (·.2.1) hkept, congrArg (·.2.2) hkept, hlicence, List.forall_mem_nil _⟩

theorem Notes.of_idle (hidle : Idle s t) (hended : t.poolSessionsEnded = s.poolSessionsEnded) : Notes s [] t :=
  ⟨hended, hidle.standbys, fun _ => (poolLicence_congr hidle.redundancy).symm.trans, List.forall_mem_nil _⟩

theorem Effect.notes (h : Effect s calls t) : Notes s calls t := by
  cases h with
  | quiet hquiet => exact .of_kept hquiet.kept hquiet.licence
  | @commit u slug e e' commit hfound hstep hstored hothers hsegment hkept hredundancy =>
    refine .of_kept ((publishSegmentCommit_kept _ _ _).trans hkept) fun licence h => ?_
    have hu : (u.publishSegmentCommit slug commit).redundancy = u.redundancy := by
      unfold publishSegmentCommit
      split <;> rfl
    exact (poolLicence_congr (hu.trans hredundancy)).symm.trans h
  | resolution hfound hstep hmarkets hsegment hkept hredundancy =>
    exact .of_kept hkept fun _ => (poolLicence_congr hredundancy).symm.trans
  | close slug =>
    refine .of_idle (s.close_idle slug) ?_
    unfold Shard.close
    split <;> rfl
  | install slug hnamed habsent =>
    have hinstalls := s.install_cases slug
    refine .of_idle hinstalls.idle ?_
    generalize (s.install slug).2 = result at hinstalls
    cases hinstalls with
    | refused refusal retired segment htaken hresult => rw [hresult]
    | installed market book segment hnamed hfound hresult => rw [hresult]
  | retire slot => exact ⟨rfl, rfl, fun _ => id, List.forall_mem_singleton.2 trivial⟩
  | handover index hthere =>
    exact ⟨rfl, rfl, fun _ => id, List.forall_mem_singleton.2 ⟨rfl, Nat.succ_ne_zero _, Nat.succ_lt_succ hthere⟩⟩

theorem Notes.trans {u : Shard} {more : List PoolCall} (h₁ : Notes s calls t) (h₂ : Notes t more u) :
    Notes s (calls ++ more) u where
  ended := by rw [h₂.ended, h₁.ended, List.foldl_append]
  standbys := h₂.standbys.trans h₁.standbys
  licence licence h := h₁.licence licence (h₂.licence licence h)
  made call hcall := by
    rcases List.mem_append.1 hcall with hcall | hcall
    · exact h₁.made call hcall
    · exact h₁.standbys ▸ h₂.made call hcall

theorem Effects.notes (h : Effects s calls t) : Notes s calls t := by
  induction h with
  | refl => exact .of_kept rfl fun _ => id
  | tail _ heffect ih => exact ih.trans heffect.notes

/-- All the gates of the pool are told in a run. -/
def told (self : Shard) : List ShardEvent → List PoolCall
  | [] => []
  | event :: rest => self.poolCalls event ++ ((self.step event).map fun next => next.told rest).getD []

theorem run_notes (ho : s.Orderly) {events : List ShardEvent} (h : exec Shard.step (fun _ _ => True) s events = some t) :
    Notes s (s.told events) t := by
  induction events generalizing s with
  | nil => exact Option.some.inj h ▸ .of_kept rfl fun _ => id
  | cons event rest ih =>
    obtain ⟨-, hbind⟩ := Option.ite_none_right_eq_some.1 h
    obtain ⟨u, hstep, hrest⟩ := Option.bind_eq_some_iff.1 hbind
    have hsaid : s.told (event :: rest) = s.poolCalls event ++ u.told rest := by simp [told, hstep]
    rw [hsaid]
    exact (Effects.notes (step_effects ho hstep)).trans (ih (ho.step hstep) hrest)

/-- The pool was licensed for the key it was declared, over one socket a role. -/
def Licensed (s : Shard) : Prop := s.poolSessionsEnded = 0#8 ∧ ∀ declaration sockets,
  s.poolLicence = some (declaration, sockets) → sockets = s.standbys.length + 1 ∧
    ∃ gate, PoolGate.new declaration sockets = .ok gate

theorem empty_licensed (config : ShardConfig) (levelCapacity : LevelCapacity) (order : MarketOrder) :
    (empty config levelCapacity order).Licensed := by
  refine ⟨rfl, fun declaration sockets h => ?_⟩
  simp only [poolLicence, empty, Redundancy.licensed] at h
  split at h
  · rename_i hlicensed
    obtain ⟨hreplicas, hnew⟩ := Option.ite_none_right_eq_some.1 hlicensed
    cases h
    split at hnew
    · rename_i gate hgate
      cases hnew
      refine ⟨?_, gate, hgate⟩
      show config.replicas = (List.replicate (config.replicas - 1) Standby.default).length + 1
      rw [List.length_replicate]
      omega
    · cases hnew
    · cases hnew
  · cases h

theorem Notes.licensed (h : Notes s [] t) (hs : s.Licensed) : t.Licensed :=
  ⟨h.ended.trans hs.1, fun declaration sockets hlicence => h.standbys ▸ hs.2 declaration sockets (h.licence _ hlicence)⟩

theorem Starts.licensed (h : Starts s) : s.Licensed := by
  have hnew {config : ShardConfig} {order : MarketOrder} {made : Shard} (h : Shard.new config order = .ok made) :
      made.Licensed := by
    obtain ⟨levelCapacity, heffects⟩ := new_effects h
    exact (Effects.notes heffects).licensed (empty_licensed config levelCapacity order)
  cases h with
  | made config order h => exact hnew h
  | published config order made layout h hpublished =>
    obtain ⟨segment, rfl⟩ := publishInto_eq hpublished
    have hmade : made.Licensed := hnew h
    exact hmade

/-- **A gate built late answers like one that was there from the start.** After any run that leaves the pool armed, the
gate built for a market gives on every later sequence of uses the verdicts of a gate made when the run began and told of
every session that ended or moved since. -/
theorem late_gate_answers_alike (h : Starts s) {events : List ShardEvent}
    (hrun : exec Shard.step (fun _ _ => True) s events = some t)
    (harmed : t.poolLicence = some (declaration, sockets)) :
    ∃ first built, PoolGate.new declaration sockets = .ok first ∧ t.newPoolGate declaration sockets = some built ∧
      ∀ later, built.verdicts later = ((s.told events).foldl PoolGate.hear first).verdicts later := by
  have hnotes := run_notes h.wired.toOrderly hrun
  obtain ⟨hended, hlicensed⟩ := h.licensed
  obtain ⟨hsockets, first, hfirst⟩ := hlicensed declaration sockets (hnotes.licence _ harmed)
  obtain ⟨built, hbuilt, hunused⟩ := newPoolGate_unused (s := t) hfirst
  refine ⟨first, built, hfirst, hbuilt, fun later => ?_⟩
  obtain ⟨ordered, count, rfl⟩ := PoolGate.new_ok hfirst
  have htold := (PoolGate.fresh_unused ordered count).hearAll count.2 (hsockets ▸ hnotes.made)
  rw [← hended, ← hnotes.ended] at htold
  rw [hunused.unique htold]

/-- Both sessions of a pool are established, and the publishing one ends: the other takes its socket over. -/
def exampleHandover : List ShardEvent :=
  [.spawn .primary, .spawn (.standby 0), exampleReady 1, exampleReady 2, .ended .primary .heartbeatTimeout fun _ => exampleLook]

theorem late_gate_answers_alike_example :
    examplePool.told exampleHandover = [.retire 0, .reassign 1 0] ∧
      ∃ first built, PoolGate.new { orderbookUpdateDedupKey with semantics := .sessionMonotone } 2 = .ok first ∧
        (examplePool.after exampleHandover (by decide)).newPoolGate
          { orderbookUpdateDedupKey with semantics := .sessionMonotone } 2 = some built ∧
        ∀ later, built.verdicts later =
          (([.retire 0, .reassign 1 0] : List PoolCall).foldl PoolGate.hear first).verdicts later := by
  have htold : examplePool.told exampleHandover = [.retire 0, .reassign 1 0] := by decide
  refine ⟨htold, ?_⟩
  rw [← htold]
  exact late_gate_answers_alike examplePool_starts (Option.some_get _).symm (by decide)

end Shard

end PmWs
