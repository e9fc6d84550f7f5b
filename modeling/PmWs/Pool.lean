import Mathlib.Data.List.Infix
import PmWs.Dedup
import PmWs.State

/-!
# The pooled publish gate

Several connections deliver one market's stream. The gate judges each arrival
by its key: the first arrival above the last published key is published, an
equal key is a duplicate, a lower one is stale. The first arrival that
contradicts the recorded ordering, or that cannot be checked, withdraws the
licence for good.
-/

open MachineInt

namespace PmWs

def minPoolSockets : Nat := 2
def maxPoolSockets : Nat := 4
def maxEvidenceEntries : Nat := 64
def maxEvidenceBytes : Nat := 2 ^ 20
def maxEvidenceProjectionBytes : Nat := 256 * 1024

/-! ## The evidence window -/

/-- What each recently observed key carried, oldest first. -/
structure EvidenceLedger where
  entries : List (DedupKey × CandidateProjection)
  bytes : Nat
  deriving DecidableEq

namespace EvidenceLedger

variable {self : EvidenceLedger} {key : DedupKey}

def new : EvidenceLedger := ⟨[], 0⟩

def evidenceFor (self : EvidenceLedger) (key : DedupKey) : Option CandidateProjection :=
  (self.entries.find? fun entry => entry.1 = key).map Prod.snd

/-- Drops the oldest entries until both bounds hold; the byte bound spares the newest entry. -/
def trim : List (DedupKey × CandidateProjection) → Nat → EvidenceLedger
  | [], bytes => ⟨[], bytes⟩
  | (key, projection) :: rest, bytes =>
    if rest.length + 1 > maxEvidenceEntries ∨ (bytes > maxEvidenceBytes ∧ rest.length + 1 > 1) then
      trim rest (saturatingSub bytes projection.length)
    else ⟨(key, projection) :: rest, bytes⟩

def record (self : EvidenceLedger) (key : DedupKey) (projection : CandidateProjection) : EvidenceLedger :=
  trim (self.entries ++ [(key, projection)]) (saturatingAdd self.bytes projection.length)

theorem trim_suffix (entries : List (DedupKey × CandidateProjection)) (bytes : Nat) :
    (trim entries bytes).entries <:+ entries := by
  induction entries generalizing bytes with
  | nil => exact List.suffix_rfl
  | cons entry rest ih =>
    simp only [trim]
    split
    · exact (ih _).trans (List.suffix_cons _ _)
    · exact List.suffix_rfl

theorem record_suffix (self : EvidenceLedger) (key : DedupKey) (projection : CandidateProjection) :
    (self.record key projection).entries <:+ self.entries ++ [(key, projection)] :=
  trim_suffix _ _

theorem mem_of_mem_record {projection : CandidateProjection}
    {entry : DedupKey × CandidateProjection} (h : entry ∈ (self.record key projection).entries) :
    entry ∈ self.entries ∨ entry = (key, projection) := by
  simpa using (self.record_suffix key projection).subset h

theorem evidenceFor_eq_none : self.evidenceFor key = none ↔ ∀ projection, (key, projection) ∉ self.entries := by
  simp only [evidenceFor, Option.map_eq_none_iff, List.find?_eq_none, decide_eq_true_eq]
  exact ⟨fun h projection hmem => h _ hmem rfl, fun h entry hmem heq => h entry.2 (heq ▸ hmem)⟩

theorem mem_of_evidenceFor {projection : CandidateProjection}
    (h : self.evidenceFor key = some projection) : (key, projection) ∈ self.entries := by
  obtain ⟨entry, hfind, rfl⟩ := Option.map_eq_some_iff.1 h
  have hkey : entry.1 = key := by simpa using List.find?_some hfind
  exact hkey ▸ List.mem_of_find?_eq_some hfind

/-- The window holds one entry a key. -/
def Unique (self : EvidenceLedger) : Prop := (self.entries.map Prod.fst).Nodup

theorem new_unique : new.Unique := List.nodup_nil

theorem Unique.record (hu : self.Unique)
    (h : self.evidenceFor key = none) (projection : CandidateProjection) : (self.record key projection).Unique := by
  refine List.Nodup.sublist ((self.record_suffix key projection).map Prod.fst).sublist ?_
  rw [List.map_append, List.map_singleton, List.nodup_append]
  refine ⟨hu, List.nodup_singleton _, ?_⟩
  rintro k hk _ hlast rfl
  obtain ⟨⟨recorded, content⟩, hmem, rfl⟩ := List.mem_map.1 hk
  obtain rfl : recorded = key := List.mem_singleton.1 hlast
  exact evidenceFor_eq_none.1 h content hmem

theorem Unique.evidenceFor_eq_some (hu : self.Unique) {projection : CandidateProjection} :
    self.evidenceFor key = some projection ↔ (key, projection) ∈ self.entries := by
  refine ⟨mem_of_evidenceFor, fun hmem => ?_⟩
  cases hfound : self.evidenceFor key with
  | none => exact absurd hmem (evidenceFor_eq_none.1 hfound projection)
  | some other =>
    have heq : (key, other) = (key, projection) := List.inj_on_of_nodup_map hu (mem_of_evidenceFor hfound) hmem rfl
    rw [(Prod.mk.inj heq).2]

end EvidenceLedger

/-! ## The gate -/

inductive PoolError where
  | keyOrdersNothing (semantics : DedupKeySemantics)
  | socketCountOutOfRange
  deriving DecidableEq, Repr

/-- What the gate observed when it withdrew the licence. -/
structure PoolViolation where
  reason : PoolDegradeReason
  socket : Nat
  observedKey : Option DedupKey
  previousKey : Option DedupKey
  publishedKey : Option DedupKey
  observedDigest : ContentDigest
  previousDigest : Option ContentDigest
  deriving DecidableEq

inductive PoolVerdict where
  | publish
  | duplicate
  | stale
  | degrade (violation : PoolViolation)
  | disarmed
  deriving DecidableEq

/-- One socket position: the last key of the session there, and whether that session is a replacement. -/
structure SocketRecord where
  lastKey : Option DedupKey
  replaced : Bool
  published : Nat
  deriving DecidableEq

def SocketRecord.default : SocketRecord := ⟨none, false, 0⟩

structure PoolGate where
  declaration : DedupKeyDeclaration
  sockets : List SocketRecord
  lastPublished : Option DedupKey
  lastPublisher : Option Nat
  evidence : EvidenceLedger
  degraded : Option PoolDegradeReason
  published : Nat
  duplicateDrops : Nat
  staleDrops : Nat
  ordered : declaration.semantics.admitsPooledPublish = true
  socketCount : minPoolSockets ≤ sockets.length ∧ sockets.length ≤ maxPoolSockets
  deriving DecidableEq

namespace PoolGate

/-- A gate that has seen nothing. -/
def fresh (declaration : DedupKeyDeclaration) (sockets : Nat)
    (ordered : declaration.semantics.admitsPooledPublish = true)
    (count : minPoolSockets ≤ sockets ∧ sockets ≤ maxPoolSockets) : PoolGate where
  declaration := declaration
  sockets := List.replicate sockets .default
  lastPublished := none
  lastPublisher := none
  evidence := .new
  degraded := none
  published := 0
  duplicateDrops := 0
  staleDrops := 0
  ordered := ordered
  socketCount := by simpa using count

def new (declaration : DedupKeyDeclaration) (sockets : Nat) : Except PoolError PoolGate :=
  if ordered : declaration.semantics.admitsPooledPublish = true then
    if count : minPoolSockets ≤ sockets ∧ sockets ≤ maxPoolSockets then .ok (fresh declaration sockets ordered count)
    else .error .socketCountOutOfRange
  else .error (.keyOrdersNothing declaration.semantics)

theorem new_ok {declaration : DedupKeyDeclaration} {sockets : Nat} {gate : PoolGate}
    (h : new declaration sockets = .ok gate) : ∃ ordered count, gate = fresh declaration sockets ordered count := by
  simp only [new] at h
  split at h
  · split at h
    · exact ⟨_, _, (Except.ok.inj h).symm⟩
    · cases h
  · cases h

variable (self : PoolGate)

/-- The violation `withdraw` reports. -/
def violation (reason : PoolDegradeReason) (socket : Nat) (observedKey previousKey : Option DedupKey)
    (observedDigest : ContentDigest) (previousDigest : Option ContentDigest) : PoolViolation :=
  { reason, socket, observedKey, previousKey, publishedKey := self.lastPublished, observedDigest, previousDigest }

def withdraw (violation : PoolViolation) : PoolGate × PoolVerdict :=
  ({ self with degraded := some violation.reason }, .degrade violation)

/-- The within-session check, or the floor a replacement's first key is held to. -/
def ordering (record : SocketRecord) (key : DedupKey) : Option (PoolDegradeReason × DedupKey) :=
  match record.lastKey with
  | some last =>
    if classifyKey self.declaration.semantics (some last) key = .inversion then some (.connectionInversion, last)
    else none
  | none =>
    match self.lastPublished with
    | some floor =>
      if record.replaced ∧ classifyKey self.declaration.semantics (some floor) key = .inversion then
        some (.reconnectRewind, floor)
      else none
    | none => none

/-- The checks of `admitArrival` that withdraw the licence, in their order. -/
def inspect (socket : Nat) (record : SocketRecord) (key : Option DedupKey)
    (projection : CandidateProjection) : Except PoolViolation DedupKey :=
  match key with
  | none => .error (self.violation .keyUnavailable socket none none (digestOf projection) none)
  | some key =>
    if key.asInteger.isNone ∨ projection.length > maxEvidenceProjectionBytes then
      .error (self.violation .keyUnavailable socket (some key) none (digestOf projection) none)
    else if (self.evidence.evidenceFor key).any (· ≠ projection) then
      .error (self.violation .equalKeyContentMismatch socket (some key) (some key) (digestOf projection)
        ((self.evidence.evidenceFor key).map digestOf))
    else
      match self.ordering record key with
      | some (reason, previous) =>
        .error (self.violation reason socket (some key) (some previous) (digestOf projection) none)
      | none => .ok key

/-- What an arrival that passed the checks leaves behind: its evidence and its session's last key. -/
def observe (socket : Nat) (record : SocketRecord) (key : DedupKey) (projection : CandidateProjection) : PoolGate :=
  let recorded := (self.evidence.evidenceFor key).isSome
  let relation := classifyKey self.declaration.semantics record.lastKey key
  { self with
    evidence := if recorded then self.evidence else self.evidence.record key projection
    sockets :=
      if relation = .first ∨ relation = .advance then self.sockets.set socket { record with lastKey := some key }
      else self.sockets
    socketCount := by split <;> simpa using self.socketCount }

/-- The publish decision, against the last published key. -/
def decide (key : DedupKey) : PoolGate × PoolVerdict :=
  match classifyKey self.declaration.semantics self.lastPublished key with
  | .first | .advance => (self, .publish)
  | .duplicate => ({ self with duplicateDrops := saturatingAdd self.duplicateDrops 1 }, .duplicate)
  | .inversion => ({ self with staleDrops := saturatingAdd self.staleDrops 1 }, .stale)
  | .unordered => (self, .disarmed)

/-- Judges one arrival on `socket`. A `publish` verdict does not advance the published key. -/
def admitArrival (socket : Nat) (key : Option DedupKey) (projection : CandidateProjection) : PoolGate × PoolVerdict :=
  if self.degraded.isSome then (self, .disarmed)
  else
    match self.sockets[socket]? with
    | none => (self, .disarmed)
    | some record =>
      match self.inspect socket record key projection with
      | .error violation => self.withdraw violation
      | .ok key => (self.observe socket record key projection).decide key

def evidenceMatches (key : DedupKey) (projection : CandidateProjection) : Bool :=
  (self.evidence.evidenceFor key).any (· = projection)

/-- Applies `f` to the record at `socket`, if there is one. -/
def updateSocket (socket : Nat) (f : SocketRecord → SocketRecord) : PoolGate :=
  { self with sockets := self.sockets.modify socket f, socketCount := by simpa using self.socketCount }

/-- One more arrival of `socket` reached the book. -/
def countPublished (socket : Nat) : PoolGate :=
  { self with published := saturatingAdd self.published 1 }.updateSocket socket
    fun record => { record with published := saturatingAdd record.published 1 }

def committed (socket : Nat) (key : DedupKey) : PoolGate :=
  { self with lastPublished := some key, lastPublisher := some socket }.countPublished socket

def recovered (socket : Nat) : PoolGate :=
  { self with duplicateDrops := saturatingSub self.duplicateDrops 1 }.countPublished socket

/-- The connection of socket `source` now occupies socket `target`; its session history moves with it. -/
def reassignSocket (source target : Nat) : PoolGate :=
  match self.sockets[source]?, self.sockets[target]? with
  | some moved, some record =>
    if source = target then self
    else
      { self with
        sockets := (self.sockets.set target { record with lastKey := moved.lastKey, replaced := moved.replaced }).set
          source { moved with lastKey := none, replaced := true }
        lastPublisher := if self.lastPublisher = some source then some target else self.lastPublisher
        socketCount := by simpa using self.socketCount }
  | _, _ => self

/-- The connections of sockets `a` and `b` exchange positions; publication counts stay in place. -/
def exchangeSockets (a b : Nat) : PoolGate :=
  match self.sockets[a]?, self.sockets[b]? with
  | some recordA, some recordB =>
    if a = b then self
    else
      { self with
        sockets := (self.sockets.set a { recordB with published := recordA.published }).set b
          { recordA with published := recordB.published }
        lastPublisher :=
          if self.lastPublisher = some a then some b
          else if self.lastPublisher = some b then some a
          else self.lastPublisher
        socketCount := by simpa using self.socketCount }
  | _, _ => self

def resetSocket (socket : Nat) : PoolGate :=
  self.updateSocket socket fun record => { record with lastKey := none }

def retireSocket (socket : Nat) : PoolGate :=
  self.updateSocket socket fun record => { record with lastKey := none, replaced := true }

/-- Withdraws the licence, and whether this call was the one that did. -/
def degrade (reason : PoolDegradeReason) : PoolGate × Bool :=
  if self.degraded.isSome then (self, false) else ({ self with degraded := some reason }, true)

def isArmed : Bool := self.degraded.isNone

/-- An armed gate loses its licence in `admitArrival` exactly when the verdict says so. -/
theorem admit_disarms_iff {g : PoolGate} (h : g.degraded = none) (socket : Nat) (key : Option DedupKey)
    (projection : CandidateProjection) :
    (g.admitArrival socket key projection).1.isArmed = false ↔ ∃ v, (g.admitArrival socket key projection).2 = .degrade v := by
  unfold admitArrival
  simp only [h, Option.isSome_none, Bool.false_eq_true, if_false]
  split
  · simp [isArmed, h]
  · split
    · simp [withdraw, isArmed]
    · unfold PoolGate.decide
      split <;> simp [isArmed, observe, h]

theorem admit_lastPublisher (g : PoolGate) (socket : Nat) (key : Option DedupKey) (projection : CandidateProjection) :
    (g.admitArrival socket key projection).1.lastPublisher = g.lastPublisher := by
  unfold admitArrival
  split
  · rfl
  · split
    · rfl
    · split
      · rfl
      · unfold PoolGate.decide
        split <;> rfl

/-! ## What the socket bookkeeping keeps -/

/-- The gate knows the same about keys and contents, and holds its licence or not as before. -/
structure Keeps (g g' : PoolGate) : Prop where
  declaration : g'.declaration = g.declaration
  evidence : g'.evidence = g.evidence
  lastPublished : g'.lastPublished = g.lastPublished
  degraded : g'.degraded = g.degraded
  sockets : g'.sockets.length = g.sockets.length

theorem Keeps.refl (g : PoolGate) : g.Keeps g := ⟨rfl, rfl, rfl, rfl, rfl⟩

theorem Keeps.trans {a b c : PoolGate} (h₁ : a.Keeps b) (h₂ : b.Keeps c) : a.Keeps c :=
  ⟨h₂.declaration.trans h₁.declaration, h₂.evidence.trans h₁.evidence, h₂.lastPublished.trans h₁.lastPublished,
    h₂.degraded.trans h₁.degraded, h₂.sockets.trans h₁.sockets⟩

theorem updateSocket_keeps (g : PoolGate) (socket : Nat) (f : SocketRecord → SocketRecord) :
    g.Keeps (g.updateSocket socket f) :=
  ⟨rfl, rfl, rfl, rfl, List.length_modify ..⟩

theorem resetSocket_keeps (g : PoolGate) (socket : Nat) : g.Keeps (g.resetSocket socket) := g.updateSocket_keeps _ _

theorem retireSocket_keeps (g : PoolGate) (socket : Nat) : g.Keeps (g.retireSocket socket) := g.updateSocket_keeps _ _

theorem reassignSocket_keeps (g : PoolGate) (source target : Nat) : g.Keeps (g.reassignSocket source target) := by
  unfold reassignSocket
  split
  · split
    · exact .refl g
    · exact ⟨rfl, rfl, rfl, rfl, by simp⟩
  · exact .refl g

theorem exchangeSockets_keeps (g : PoolGate) (a b : Nat) : g.Keeps (g.exchangeSockets a b) := by
  unfold exchangeSockets
  split
  · split
    · exact .refl g
    · exact ⟨rfl, rfl, rfl, rfl, by simp⟩
  · exact .refl g

end PoolGate

end PmWs
