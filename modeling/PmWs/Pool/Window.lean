import Mathlib.Algebra.Order.BigOperators.Group.List
import PmWs.Lib.Eviction
import PmWs.Pool.History

/-!
# What the evidence window holds

The window is bounded by a number of entries and by the bytes of their
contents. Whatever is called on the gate, it holds the newest recorded arrivals
that fit within both bounds, each key once.
-/

open MachineInt Eviction

namespace PmWs

namespace EvidenceLedger

def size (entries : List (DedupKey × CandidateProjection)) : Nat := (entries.map fun entry => entry.2.length).sum

/-- The bounds of the window. -/
structure Fits (l : List (DedupKey × CandidateProjection)) : Prop where
  entries : l.length ≤ maxEvidenceEntries
  bytes : size l ≤ maxEvidenceBytes

theorem Fits.init (l : List (DedupKey × CandidateProjection)) (entry : DedupKey × CandidateProjection)
    (h : Fits (l ++ [entry])) : Fits l := by
  obtain ⟨hentries, hbytes⟩ := h
  rw [List.length_append] at hentries
  rw [size, List.map_append, List.sum_append] at hbytes
  exact ⟨(Nat.le_add_right _ _).trans hentries, (Nat.le_add_right _ _).trans hbytes⟩

/-- Evicting from the front stops at the longest end within the bounds: one entry alone is never too large. -/
theorem trim_longest (entries : List (DedupKey × CandidateProjection))
    (h : ∀ entry ∈ entries, entry.2.length ≤ maxEvidenceProjectionBytes) :
    (trim entries (size entries)).bytes = size (trim entries (size entries)).entries ∧
      Longest Fits (trim entries (size entries)).entries entries := by
  induction entries with
  | nil => exact ⟨rfl, .self ⟨Nat.zero_le _, Nat.zero_le _⟩⟩
  | cons entry rest ih =>
    obtain ⟨hentry, hrest⟩ := List.forall_mem_cons.1 h
    have hsize : size (entry :: rest) = entry.2.length + size rest := by simp [size]
    rw [trim]
    split
    · next hover =>
      obtain ⟨hbytes, hlongest⟩ := ih hrest
      have hleft : saturatingSub (size (entry :: rest)) entry.2.length = size rest := by
        rw [hsize, saturatingSub, Nat.add_sub_cancel_left]
      rw [hleft]
      refine ⟨hbytes, hlongest.cons fun hfits => ?_⟩
      obtain ⟨hentries, hbytes'⟩ := hfits
      rw [List.length_cons] at hentries
      omega
    · next hwithin =>
      obtain ⟨hentries, hbytes⟩ := not_or.1 hwithin
      refine ⟨rfl, .self ⟨Nat.not_lt.1 hentries, ?_⟩⟩
      change size (entry :: rest) ≤ maxEvidenceBytes
      cases rest with
      | nil =>
        have hlargest : maxEvidenceProjectionBytes ≤ maxEvidenceBytes := by decide
        have hnil : size [] = 0 := rfl
        omega
      | cons =>
        rw [List.length_cons] at hbytes
        omega

/-- The window of a sequence of recorded arrivals. -/
structure Holds (window : EvidenceLedger) (recorded : List (DedupKey × CandidateProjection)) : Prop where
  unique : window.Unique
  bytes : window.bytes = size window.entries
  longest : Longest Fits window.entries recorded
  contents : ∀ entry ∈ recorded, entry.2.length ≤ maxEvidenceProjectionBytes

theorem Holds.new : new.Holds [] :=
  ⟨new_unique, rfl, .self ⟨Nat.zero_le _, Nat.zero_le _⟩, by simp⟩

/-- One more arrival, of a key the window does not hold. The byte counter is far from its end, so nothing saturates. -/
theorem Holds.record {window : EvidenceLedger} {recorded : List (DedupKey × CandidateProjection)}
    (h : window.Holds recorded) {key : DedupKey} {projection : CandidateProjection}
    (habsent : window.evidenceFor key = none) (hsize : projection.length ≤ maxEvidenceProjectionBytes) :
    (window.record key projection).Holds (recorded ++ [(key, projection)]) := by
  have hcontents : ∀ entry ∈ recorded ++ [(key, projection)], entry.2.length ≤ maxEvidenceProjectionBytes :=
    List.forall_mem_append.2 ⟨h.contents, List.forall_mem_singleton.2 hsize⟩
  have hbytes : saturatingAdd window.bytes projection.length = size (window.entries ++ [(key, projection)]) := by
    have hheld := h.longest.fits.bytes
    have hroom : maxEvidenceBytes + maxEvidenceProjectionBytes ≤ u64Max := by decide
    rw [saturatingAdd, h.bytes, Nat.min_eq_left (by omega)]
    simp [size]
  have htrim := trim_longest (window.entries ++ [(key, projection)]) fun entry hentry =>
    hcontents entry (List.mem_append.2 ((List.mem_append.1 hentry).imp_left h.longest.suffix.mem))
  have hunique := h.unique.record habsent projection
  unfold EvidenceLedger.record at hunique ⊢
  rw [hbytes] at hunique ⊢
  exact ⟨hunique, htrim.1, .concat Fits.init h.longest htrim.2, hcontents⟩

end EvidenceLedger

/-! ## The gate -/

inductive GateCall where
  | arrival (socket : Nat) (key : Option DedupKey) (projection : CandidateProjection)
  | committed (socket : Nat) (key : DedupKey)
  | recovered (socket : Nat)
  | reassign (source target : Nat)
  | exchange (a b : Nat)
  | reset (socket : Nat)
  | retire (socket : Nat)
  | degrade (reason : PoolDegradeReason)

namespace PoolGate

def perform (self : PoolGate) : GateCall → PoolGate
  | .arrival socket key projection => (self.admitArrival socket key projection).1
  | .committed socket key => self.committed socket key
  | .recovered socket => self.recovered socket
  | .reassign source target => self.reassignSocket source target
  | .exchange a b => self.exchangeSockets a b
  | .reset socket => self.resetSocket socket
  | .retire socket => self.retireSocket socket
  | .degrade reason => (self.degrade reason).1

/-- The arrival a call records: one that passes the checks, of a key the window does not hold. -/
def records (self : PoolGate) : GateCall → Option (DedupKey × CandidateProjection)
  | .arrival socket key projection =>
    if self.degraded.isSome then none
    else
      match self.sockets[socket]? with
      | none => none
      | some record =>
        match self.inspect socket record key projection with
        | .error _ => none
        | .ok key => if (self.evidence.evidenceFor key).isSome then none else some (key, projection)
  | _ => none

/-- The gate after a sequence of calls, and the arrivals it recorded. -/
def performAll (self : PoolGate) : List GateCall → PoolGate × List (DedupKey × CandidateProjection)
  | [] => (self, [])
  | call :: calls =>
    let rest := (self.perform call).performAll calls
    (rest.1, (self.records call).toList ++ rest.2)

theorem inspect_size {g : PoolGate} {socket : Nat} {record : SocketRecord} {key : Option DedupKey}
    {projection : CandidateProjection} {passed : DedupKey} (h : g.inspect socket record key projection = .ok passed) :
    projection.length ≤ maxEvidenceProjectionBytes := by
  unfold inspect at h
  cases key with
  | none => cases h
  | some key =>
    dsimp only at h
    split at h
    · cases h
    · next hreadable => exact Nat.not_lt.1 (not_or.1 hreadable).2

theorem decide_evidence (g : PoolGate) (key : DedupKey) : (g.decide key).1.evidence = g.evidence := by
  unfold decide
  split <;> rfl

/-- A call leaves the window, or puts the arrival it records into it. -/
theorem perform_evidence (g : PoolGate) (call : GateCall) :
    (g.records call = none ∧ (g.perform call).evidence = g.evidence) ∨
      ∃ key projection, g.records call = some (key, projection) ∧ g.evidence.evidenceFor key = none ∧
        projection.length ≤ maxEvidenceProjectionBytes ∧ (g.perform call).evidence = g.evidence.record key projection := by
  cases call with
  | arrival socket key projection =>
    simp only [records, perform, admitArrival]
    split
    · exact .inl ⟨rfl, rfl⟩
    · cases g.sockets[socket]? with
      | none => exact .inl ⟨rfl, rfl⟩
      | some record =>
        dsimp only
        cases hinspect : g.inspect socket record key projection with
        | error violation => exact .inl ⟨rfl, rfl⟩
        | ok key =>
          dsimp only
          rw [decide_evidence, observe]
          dsimp only
          split
          · exact .inl ⟨rfl, rfl⟩
          · next habsent =>
            exact .inr ⟨key, projection, rfl, Option.not_isSome_iff_eq_none.1 habsent, inspect_size hinspect, rfl⟩
  | committed | recovered | reset | retire => exact .inl ⟨rfl, rfl⟩
  | reassign source target => exact .inl ⟨rfl, (g.reassignSocket_keeps source target).evidence⟩
  | exchange a b => exact .inl ⟨rfl, (g.exchangeSockets_keeps a b).evidence⟩
  | degrade reason =>
    refine .inl ⟨rfl, ?_⟩
    simp only [perform, degrade]
    split <;> rfl

theorem performAll_holds {g : PoolGate} {recorded : List (DedupKey × CandidateProjection)}
    (h : g.evidence.Holds recorded) (calls : List GateCall) :
    (g.performAll calls).1.evidence.Holds (recorded ++ (g.performAll calls).2) := by
  induction calls generalizing g recorded with
  | nil => simpa [performAll] using h
  | cons call calls ih =>
    rw [performAll]
    dsimp only
    rw [← List.append_assoc]
    refine ih ?_
    obtain ⟨hnone, hkept⟩ | ⟨key, projection, hsome, habsent, hsize, hrecorded⟩ := g.perform_evidence call
    · rw [hnone, hkept]
      simpa using h
    · rw [hsome, hrecorded]
      exact h.record habsent hsize

/-- After any calls on a new gate: the window holds a key once, within both bounds, its byte counter is the size of what
it holds, and what it holds is the longest end of the recorded arrivals that the bounds allow. -/
theorem evidence_window_exact {declaration : DedupKeyDeclaration} {sockets : Nat} {gate : PoolGate}
    (hnew : new declaration sockets = .ok gate) (calls : List GateCall) :
    let window := (gate.performAll calls).1.evidence
    let recorded := (gate.performAll calls).2
    (window.entries.map Prod.fst).Nodup ∧ window.entries.length ≤ maxEvidenceEntries ∧
      window.bytes = (window.entries.map fun entry => entry.2.length).sum ∧ window.bytes ≤ maxEvidenceBytes ∧
      window.entries <:+ recorded ∧
      ∀ other, other <:+ recorded → other.length ≤ maxEvidenceEntries →
        (other.map fun entry => entry.2.length).sum ≤ maxEvidenceBytes → other.length ≤ window.entries.length := by
  intro window recorded
  obtain ⟨ordered, count, rfl⟩ := new_ok hnew
  have hheld : window.Holds ([] ++ recorded) := performAll_holds .new calls
  refine ⟨hheld.unique, hheld.longest.fits.entries, hheld.bytes, hheld.bytes ▸ hheld.longest.fits.bytes,
    hheld.longest.suffix, fun other hother hentries hbytes => ?_⟩
  exact (hheld.longest.longest other hother ⟨hentries, hbytes⟩).length_le

/-- Two sockets deliver key 5, one of them key 7: each key is held once. -/
theorem example_window :
    let pool := exampleGate.performAll [.arrival 0 (some (.integer 5)) [1], .arrival 1 (some (.integer 5)) [1],
      .committed 0 (.integer 5), .arrival 1 (some (.integer 7)) [2, 3]]
    pool.2 = [(.integer 5, [1]), (.integer 7, [2, 3])] ∧ pool.1.evidence.bytes = 3 ∧ pool.1.evidence.entries <:+ pool.2 := by
  intro pool
  obtain ⟨-, -, -, -, hsuffix, -⟩ := evidence_window_exact exampleGate_new [.arrival 0 (some (.integer 5)) [1],
    .arrival 1 (some (.integer 5)) [1], .committed 0 (.integer 5), .arrival 1 (some (.integer 7)) [2, 3]]
  exact ⟨by decide, by decide, hsuffix⟩

end PoolGate

end PmWs
