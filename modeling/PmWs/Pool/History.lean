import PmWs.Lib.Pointwise
import PmWs.Pool

/-!
# The gate over connection histories

The gate keeps one last key and one flag per socket position. The venue's
contract speaks of connection-sessions, which move between positions. Here the
sessions are written out with everything they delivered, and the gate's
verdicts are characterised over them.
-/

open MachineInt

namespace PmWs

/-! ## Histories -/

/-- One connection-session: whether it replaces an earlier one, and the keys the gate read from it. -/
structure Session where
  marked : Bool
  delivered : List Nat
  deriving DecidableEq

/-- The sessions by socket position, and the keys published so far. -/
structure PoolHistory where
  sessions : List Session
  published : List Nat
  deriving DecidableEq

namespace PoolHistory

def start (sockets : Nat) : PoolHistory := ⟨List.replicate sockets ⟨false, []⟩, []⟩

def deliver (self : PoolHistory) (socket key : Nat) : PoolHistory :=
  { self with sessions := self.sessions.modify socket fun s => { s with delivered := s.delivered ++ [key] } }

def publish (self : PoolHistory) (key : Nat) : PoolHistory := { self with published := self.published ++ [key] }

/-- A fresh session that keeps the mark of the one it replaces. -/
def reset (self : PoolHistory) (socket : Nat) : PoolHistory :=
  { self with sessions := self.sessions.modify socket fun s => ⟨s.marked, []⟩ }

/-- The session ended: whatever begins there is a replacement. -/
def retire (self : PoolHistory) (socket : Nat) : PoolHistory :=
  { self with sessions := self.sessions.modify socket fun _ => ⟨true, []⟩ }

/-- The session moves with its connection; what begins on the position it left is a replacement. -/
def reassign (self : PoolHistory) (source target : Nat) : PoolHistory :=
  match self.sessions[source]?, self.sessions[target]? with
  | some moved, some _ =>
    if source = target then self
    else { self with sessions := (self.sessions.set target moved).set source ⟨true, []⟩ }
  | _, _ => self

def exchange (self : PoolHistory) (a b : Nat) : PoolHistory :=
  match self.sessions[a]?, self.sessions[b]? with
  | some sessionA, some sessionB =>
    if a = b then self else { self with sessions := (self.sessions.set a sessionB).set b sessionA }
  | _, _ => self

/-- What one judged arrival adds: its key to its session and, when published and installed, to the book. -/
def judged (self : PoolHistory) (verdict : PoolVerdict) (socket : Nat) (key : Option DedupKey) (installed : Bool) :
    PoolHistory :=
  match verdict, key with
  | .publish, some (.integer n) => if installed then (self.deliver socket n).publish n else self.deliver socket n
  | .duplicate, some (.integer n) => self.deliver socket n
  | .stale, some (.integer n) => self.deliver socket n
  | _, _ => self

end PoolHistory

/-! ## Runs of one gate -/

/-- One call on the gate. `installed` says whether the caller's book took the arrival. -/
inductive GateOp where
  | arrival (socket : Nat) (key : Option DedupKey) (projection : CandidateProjection) (installed : Bool)
  | degrade (reason : PoolDegradeReason)
  | reset (socket : Nat)
  | retire (socket : Nat)
  | reassign (source target : Nat)
  | exchange (a b : Nat)

/-- What the caller reports back after a verdict. -/
def PoolGate.settle (self : PoolGate) (verdict : PoolVerdict) (socket : Nat) (key : Option DedupKey)
    (installed : Bool) : PoolGate :=
  match verdict, key, installed with
  | .publish, some key, true => self.committed socket key
  | .duplicate, _, true => self.recovered socket
  | _, _, _ => self

/-- A gate with the history of its connections. -/
structure TrackedPool where
  gate : PoolGate
  history : PoolHistory
  deriving DecidableEq

namespace TrackedPool

def start (gate : PoolGate) : TrackedPool := ⟨gate, .start gate.sockets.length⟩

def step (self : TrackedPool) : GateOp → TrackedPool
  | .arrival socket key projection installed =>
    let (gate, verdict) := self.gate.admitArrival socket key projection
    ⟨gate.settle verdict socket key installed, self.history.judged verdict socket key installed⟩
  | .degrade reason => { self with gate := (self.gate.degrade reason).1 }
  | .reset socket => ⟨self.gate.resetSocket socket, self.history.reset socket⟩
  | .retire socket => ⟨self.gate.retireSocket socket, self.history.retire socket⟩
  | .reassign source target => ⟨self.gate.reassignSocket source target, self.history.reassign source target⟩
  | .exchange a b => ⟨self.gate.exchangeSockets a b, self.history.exchange a b⟩

def run (self : TrackedPool) (ops : List GateOp) : TrackedPool := ops.foldl step self

end TrackedPool

/-! ## What the gate's fields say about the history -/

structure SocketRecord.Tracks (record : SocketRecord) (session : Session) : Prop where
  mark : record.replaced = session.marked
  last : record.lastKey = session.delivered.getLast?.map .integer
  sorted : session.delivered.Pairwise (· ≤ ·)

structure TrackedPool.Inv (t : TrackedPool) : Prop where
  sessions : List.Forall₂ SocketRecord.Tracks t.gate.sockets t.history.sessions
  last : t.gate.lastPublished = t.history.published.getLast?.map .integer
  increasing : t.history.published.Pairwise (· < ·)
  window : t.gate.evidence.Unique

/-- The arrival carries an integer key and content the window can hold. -/
def Readable (key : Option DedupKey) (projection : CandidateProjection) (n : Nat) : Prop :=
  key = some (.integer n) ∧ projection.length ≤ maxEvidenceProjectionBytes

/-- The window holds the key with other content. -/
def EvidenceLedger.Contradicts (self : EvidenceLedger) (n : Nat) (projection : CandidateProjection) : Prop :=
  ∃ other, (.integer n, other) ∈ self.entries ∧ other ≠ projection

/-- The session already delivered a higher key. -/
def Session.Inverts (self : Session) (n : Nat) : Prop := ∃ m ∈ self.delivered, n < m

/-- A replacement opens below a published key. -/
def PoolHistory.Rewinds (self : PoolHistory) (session : Session) (n : Nat) : Prop :=
  session.marked = true ∧ session.delivered = [] ∧ ∃ m ∈ self.published, n < m

/-- Nothing about the arrival trips the wire. -/
structure TrackedPool.Clear (t : TrackedPool) (session : Session) (key : Option DedupKey)
    (projection : CandidateProjection) (n : Nat) : Prop where
  readable : Readable key projection n
  agrees : ¬ t.gate.evidence.Contradicts n projection
  ordered : ¬ session.Inverts n
  above : ¬ t.history.Rewinds session n

/-- The verdicts `admitArrival` gives on an armed gate, over the history. -/
inductive TrackedPool.Judged (t : TrackedPool) (session : Session) (key : Option DedupKey)
    (projection : CandidateProjection) : PoolVerdict → Prop
  | unavailable {v : PoolViolation} (reason : v.reason = .keyUnavailable) (unreadable : ∀ n, ¬ Readable key projection n) :
    Judged t session key projection (.degrade v)
  | mismatch {v : PoolViolation} {n : Nat} (reason : v.reason = .equalKeyContentMismatch)
    (readable : Readable key projection n) (contradicts : t.gate.evidence.Contradicts n projection) :
    Judged t session key projection (.degrade v)
  | inversion {v : PoolViolation} {n : Nat} (reason : v.reason = .connectionInversion)
    (readable : Readable key projection n) (agrees : ¬ t.gate.evidence.Contradicts n projection)
    (inverts : session.Inverts n) : Judged t session key projection (.degrade v)
  | rewind {v : PoolViolation} {n : Nat} (reason : v.reason = .reconnectRewind)
    (readable : Readable key projection n) (agrees : ¬ t.gate.evidence.Contradicts n projection)
    (rewinds : t.history.Rewinds session n) : Judged t session key projection (.degrade v)
  | publish {n : Nat} (clear : t.Clear session key projection n) (newer : ∀ m ∈ t.history.published, m < n) :
    Judged t session key projection .publish
  | duplicate {n : Nat} (clear : t.Clear session key projection n)
    (newest : n ∈ t.history.published ∧ ∀ m ∈ t.history.published, m ≤ n) : Judged t session key projection .duplicate
  | stale {n : Nat} (clear : t.Clear session key projection n) (older : ∃ m ∈ t.history.published, n < m) :
    Judged t session key projection .stale

/-! ## The verdicts -/

theorem PoolGate.classify (g : PoolGate) (last : Option Nat) (n : Nat) :
    classifyKey g.declaration.semantics (last.map .integer) (.integer n) = relate last n :=
  classifyKey_integer g.ordered last n

namespace TrackedPool.Inv

variable {t : TrackedPool} {record : SocketRecord} {session : Session}

theorem published_le (hi : t.Inv) : t.history.published.Pairwise (· ≤ ·) := hi.increasing.imp Nat.le_of_lt

theorem ordering (hi : t.Inv) (hr : record.Tracks session) (n : Nat) :
    (session.Inverts n ∧ ∃ last, t.gate.ordering record (.integer n) = some (.connectionInversion, last)) ∨
    (¬ session.Inverts n ∧ t.history.Rewinds session n ∧
      ∃ floor, t.gate.ordering record (.integer n) = some (.reconnectRewind, floor)) ∨
    (¬ session.Inverts n ∧ ¬ t.history.Rewinds session n ∧ t.gate.ordering record (.integer n) = none) := by
  simp only [Session.Inverts, PoolHistory.Rewinds, Pointwise.exists_lt_iff_getLast? hr.sorted,
    Pointwise.exists_lt_iff_getLast? hi.published_le, PoolGate.ordering, hr.last, hi.last, hr.mark]
  cases hd : session.delivered.getLast? with
  | some last =>
    have hne : session.delivered ≠ [] := fun h => by simp [h] at hd
    have hc := t.gate.classify (some last) n
    simp only [Option.map_some] at hc ⊢
    simp [hc, relate_inversion, hne]
    omega
  | none =>
    have hnil : session.delivered = [] := List.getLast?_eq_none_iff.1 hd
    cases hp : t.history.published.getLast? with
    | none => simp
    | some floor =>
      have hc := t.gate.classify (some floor) n
      simp only [Option.map_some, Option.map_none] at hc ⊢
      simp [hc, relate_inversion, hnil]
      by_cases hm : session.marked = true <;> simp [hm]
      omega

theorem contradicts (hi : t.Inv) (n : Nat) (projection : CandidateProjection) :
    (t.gate.evidence.evidenceFor (.integer n)).any (· ≠ projection) = true ↔
      t.gate.evidence.Contradicts n projection := by
  simp only [Option.any_eq_true, decide_eq_true_eq, EvidenceLedger.Contradicts, hi.window.evidenceFor_eq_some]

variable (socket : Nat) (key : Option DedupKey) (projection : CandidateProjection)

/-- The checks pass exactly a clear arrival, and name the first thing that trips otherwise. -/
theorem inspect (hi : t.Inv) (hr : record.Tracks session) :
    (∃ n, t.Clear session key projection n ∧ t.gate.inspect socket record key projection = .ok (.integer n)) ∨
    (∃ v, t.gate.inspect socket record key projection = .error v ∧ t.Judged session key projection (.degrade v)) := by
  cases key with
  | none => exact .inr ⟨_, rfl, .unavailable rfl fun n h => by simp [Readable] at h⟩
  | some key =>
    simp only [PoolGate.inspect]
    split
    case isTrue h =>
      refine .inr ⟨_, rfl, .unavailable rfl fun n hk => ?_⟩
      obtain ⟨hkey, hsize⟩ := hk
      obtain rfl := Option.some.inj hkey
      simp at h
      omega
    case isFalse h =>
      simp only [Option.isNone_iff_eq_none, not_or, gt_iff_lt, not_lt, ← ne_eq, Option.ne_none_iff_exists'] at h
      obtain ⟨⟨n, hn⟩, hsize⟩ := h
      obtain rfl := DedupKey.asInteger_eq_some.1 hn
      have hread : Readable (some (.integer n)) projection n := ⟨rfl, hsize⟩
      split
      case isTrue hc => exact .inr ⟨_, rfl, .mismatch rfl hread ((hi.contradicts n projection).1 hc)⟩
      case isFalse hc =>
        rw [hi.contradicts] at hc
        rcases hi.ordering hr n with ⟨hinv, last, ho⟩ | ⟨-, hrew, floor, ho⟩ | ⟨hinv, hrew, ho⟩ <;> rw [ho]
        · exact .inr ⟨_, rfl, .inversion rfl hread hc hinv⟩
        · exact .inr ⟨_, rfl, .rewind rfl hread hc hrew⟩
        · exact .inl ⟨n, ⟨hread, hc, hinv, hrew⟩, rfl⟩

/-- On an armed gate an arrival trips the wire, or it is clear and goes to the publish decision. -/
theorem admitArrival (hi : t.Inv) (harmed : t.gate.degraded = none) (hs : t.gate.sockets[socket]? = some record)
    (hr : record.Tracks session) :
    (∃ v, t.gate.admitArrival socket key projection = t.gate.withdraw v ∧ t.Judged session key projection (.degrade v)) ∨
    (∃ n, t.Clear session key projection n ∧ t.gate.admitArrival socket key projection =
      (t.gate.observe socket record (.integer n) projection).decide (.integer n)) := by
  simp only [PoolGate.admitArrival, harmed, Option.isSome_none, Bool.false_eq_true, if_false, hs]
  rcases hi.inspect socket key projection hr with ⟨n, hclear, h⟩ | ⟨v, h, hj⟩
  · exact .inr ⟨n, hclear, by rw [h]⟩
  · exact .inl ⟨v, by rw [h], hj⟩

end TrackedPool.Inv

/-- The publish decision over the published keys. -/
theorem PoolGate.decide_cases (g : PoolGate) {published : List Nat} (hp : published.Pairwise (· < ·))
    (hl : g.lastPublished = published.getLast?.map .integer) (n : Nat) :
    (g.decide (.integer n) = (g, .publish) ∧ ∀ m ∈ published, m < n) ∨
    (g.decide (.integer n) = ({ g with duplicateDrops := saturatingAdd g.duplicateDrops 1 }, .duplicate) ∧
      n ∈ published ∧ ∀ m ∈ published, m ≤ n) ∨
    (g.decide (.integer n) = ({ g with staleDrops := saturatingAdd g.staleDrops 1 }, .stale) ∧
      ∃ m ∈ published, n < m) := by
  have hle : published.Pairwise (· ≤ ·) := hp.imp Nat.le_of_lt
  simp only [PoolGate.decide, hl, g.classify]
  cases hrel : relate published.getLast? n with
  | first | advance =>
    exact .inl ⟨rfl, (Pointwise.forall_lt_iff_getLast? hle).2 (relate_newer.1 (by simp [hrel]))⟩
  | duplicate => exact .inr (.inl ⟨rfl, (Pointwise.getLast?_eq_some_iff_greatest hle).1 (relate_duplicate.1 hrel)⟩)
  | inversion => exact .inr (.inr ⟨rfl, (Pointwise.exists_lt_iff_getLast? hle).2 (relate_inversion.1 hrel)⟩)
  | unordered => exact absurd hrel (relate_ne_unordered _ _)

namespace TrackedPool

variable {t : TrackedPool} {record : SocketRecord} {session : Session} {socket : Nat}

theorem Inv.admit_judged (hi : t.Inv) (harmed : t.gate.degraded = none) (hs : t.gate.sockets[socket]? = some record)
    (hr : record.Tracks session) (key : Option DedupKey) (projection : CandidateProjection) :
    t.Judged session key projection (t.gate.admitArrival socket key projection).2 := by
  rcases hi.admitArrival socket key projection harmed hs hr with ⟨v, h, hj⟩ | ⟨n, hclear, h⟩ <;> rw [h]
  · exact hj
  · rcases PoolGate.decide_cases (t.gate.observe socket record (.integer n) projection) hi.increasing hi.last n with
      ⟨hd, hn⟩ | ⟨hd, hn⟩ | ⟨hd, hn⟩ <;> rw [hd]
    · exact .publish hclear hn
    · exact .duplicate hclear hn
    · exact .stale hclear hn

end TrackedPool

/-! ## Preservation -/

section Preservation

variable {t : TrackedPool} {record : SocketRecord} {session : Session} {socket : Nat}

/-- A delivered key becomes the session's last key. -/
theorem SocketRecord.Tracks.deliver (hr : record.Tracks session) {n : Nat} (hn : ∀ m ∈ session.delivered, m ≤ n)
    {last : Option DedupKey} (hl : last = some (.integer n)) :
    { record with lastKey := last }.Tracks { session with delivered := session.delivered ++ [n] } where
  mark := hr.mark
  last := by simp [hl]
  sorted := List.pairwise_append.2 ⟨hr.sorted, List.pairwise_singleton _ _, by simpa using hn⟩

/-- Whether a key inverts is read off the record. -/
theorem SocketRecord.Tracks.inverts_iff (hr : record.Tracks session) (n : Nat) :
    session.Inverts n ↔ ∃ last, record.lastKey = some (.integer last) ∧ n < last := by
  simp [Session.Inverts, Pointwise.exists_lt_iff_getLast? hr.sorted, hr.last]

theorem SocketRecord.Tracks.fresh (record : SocketRecord) (marked : Bool) :
    SocketRecord.Tracks { record with lastKey := none, replaced := marked } ⟨marked, []⟩ :=
  ⟨rfl, rfl, .nil⟩

/-- A clear arrival leaves the gate tracking the longer history. -/
theorem TrackedPool.Inv.observe (hi : t.Inv) {key : Option DedupKey} {projection : CandidateProjection} {n : Nat}
    (hs : t.gate.sockets[socket]? = some record) (hr : record.Tracks session) (hc : t.Clear session key projection n) :
    TrackedPool.Inv ⟨t.gate.observe socket record (.integer n) projection, t.history.deliver socket n⟩ where
  sessions := by
    have hle : ∀ s, record.Tracks s → ∀ m ∈ s.delivered, m ≤ n := fun s htr => by
      have hn := hc.ordered
      rw [hr.inverts_iff, ← htr.inverts_iff] at hn
      simpa [Session.Inverts] using hn
    simp only [PoolGate.observe, PoolHistory.deliver, hr.last, t.gate.classify]
    split
    · exact Pointwise.set_modify hi.sessions hs fun s htr => htr.deliver (hle s htr) rfl
    · rename_i hrel
      refine Pointwise.modify_right hi.sessions hs fun s htr => ?_
      have hsame : record.lastKey = some (.integer n) := by
        simp only [relate_newer, not_forall, Nat.not_lt] at hrel
        obtain ⟨last, hlast, hge⟩ := hrel
        rw [hr.last, hlast, Nat.le_antisymm (hle session hr last (List.mem_of_getLast? hlast)) hge]
        rfl
      exact htr.deliver (hle s htr) hsame
  last := hi.last
  increasing := hi.increasing
  window := by
    simp only [PoolGate.observe]
    split
    · exact hi.window
    · rename_i hnone
      exact hi.window.record (by simpa using hnone) projection

/-- The caller's report of an installed arrival. -/
theorem TrackedPool.Inv.published (hi : t.Inv) {n : Nat} (hn : ∀ m ∈ t.history.published, m < n) :
    TrackedPool.Inv ⟨t.gate.committed socket (.integer n), t.history.publish n⟩ where
  sessions := Pointwise.modify_left hi.sessions socket fun _ _ htr => ⟨htr.mark, htr.last, htr.sorted⟩
  last := by simp [PoolGate.committed, PoolGate.countPublished, PoolGate.updateSocket, PoolHistory.publish]
  increasing := List.pairwise_append.2 ⟨hi.increasing, List.pairwise_singleton _ _, by simpa using hn⟩
  window := hi.window

theorem TrackedPool.Inv.recovered (hi : t.Inv) : TrackedPool.Inv ⟨t.gate.recovered socket, t.history⟩ where
  sessions := Pointwise.modify_left hi.sessions socket fun _ _ htr => ⟨htr.mark, htr.last, htr.sorted⟩
  last := hi.last
  increasing := hi.increasing
  window := hi.window

theorem TrackedPool.Inv.arrival (hi : t.Inv) (socket : Nat) (key : Option DedupKey) (projection : CandidateProjection)
    (installed : Bool) : (t.step (.arrival socket key projection installed)).Inv := by
  simp only [TrackedPool.step]
  by_cases harmed : t.gate.degraded = none
  · cases hs : t.gate.sockets[socket]? with
    | none => simpa [PoolGate.admitArrival, harmed, hs, PoolGate.settle, PoolHistory.judged] using hi
    | some record =>
      obtain ⟨session, -, hr⟩ := Pointwise.getElem? hi.sessions hs
      rcases hi.admitArrival socket key projection harmed hs hr with ⟨v, h, -⟩ | ⟨n, hclear, h⟩
      · rw [h]
        exact ⟨hi.sessions, hi.last, hi.increasing, hi.window⟩
      · have ho := hi.observe hs hr hclear
        obtain rfl := hclear.readable.1
        rcases PoolGate.decide_cases (t.gate.observe socket record (.integer n) projection) hi.increasing hi.last n with
          ⟨hd, hn⟩ | ⟨hd, -⟩ | ⟨hd, -⟩ <;> rw [h, hd]
        · cases installed with
          | false => exact ho
          | true => exact ho.published hn
        · have hdup : TrackedPool.Inv ⟨{ t.gate.observe socket record (.integer n) projection with
              duplicateDrops := saturatingAdd t.gate.duplicateDrops 1 }, t.history.deliver socket n⟩ :=
            ⟨ho.sessions, ho.last, ho.increasing, ho.window⟩
          cases installed with
          | false => exact hdup
          | true => exact hdup.recovered
        · exact ⟨ho.sessions, ho.last, ho.increasing, ho.window⟩
  · simpa [PoolGate.admitArrival, Option.isSome_iff_ne_none, harmed, PoolGate.settle, PoolHistory.judged] using hi

theorem TrackedPool.Inv.step (hi : t.Inv) (op : GateOp) : (t.step op).Inv := by
  cases op with
  | arrival socket key projection installed => exact hi.arrival socket key projection installed
  | degrade reason =>
    simp only [TrackedPool.step, PoolGate.degrade]
    split <;> exact ⟨hi.sessions, hi.last, hi.increasing, hi.window⟩
  | reset socket =>
    refine ⟨Pointwise.modify hi.sessions socket fun r s htr => ?_, hi.last, hi.increasing, hi.window⟩
    exact ⟨htr.mark, rfl, .nil⟩
  | retire socket =>
    refine ⟨Pointwise.modify hi.sessions socket fun r _ _ => ?_, hi.last, hi.increasing, hi.window⟩
    exact .fresh r true
  | reassign source target =>
    simp only [TrackedPool.step, PoolGate.reassignSocket, PoolHistory.reassign]
    rcases Pointwise.getElem?_cases hi.sessions source with ⟨h1, h2⟩ | ⟨moved, session, h1, h2, hm⟩
    · simpa [h1, h2] using hi
    rcases Pointwise.getElem?_cases hi.sessions target with ⟨h3, h4⟩ | ⟨record, other, h3, h4, -⟩
    · simpa [h1, h2, h3, h4] using hi
    simp only [h1, h2, h3, h4]
    split
    · exact hi
    · refine ⟨Pointwise.set (Pointwise.set hi.sessions target ?_) source ?_, hi.last, hi.increasing, hi.window⟩
      · exact ⟨hm.mark, hm.last, hm.sorted⟩
      · exact .fresh moved true
  | exchange a b =>
    simp only [TrackedPool.step, PoolGate.exchangeSockets, PoolHistory.exchange]
    rcases Pointwise.getElem?_cases hi.sessions a with ⟨h1, h2⟩ | ⟨recordA, sessionA, h1, h2, ha⟩
    · simpa [h1, h2] using hi
    rcases Pointwise.getElem?_cases hi.sessions b with ⟨h3, h4⟩ | ⟨recordB, sessionB, h3, h4, hb⟩
    · simpa [h1, h2, h3, h4] using hi
    simp only [h1, h2, h3, h4]
    split
    · exact hi
    · refine ⟨Pointwise.set (Pointwise.set hi.sessions a ?_) b ?_, hi.last, hi.increasing, hi.window⟩
      · exact ⟨hb.mark, hb.last, hb.sorted⟩
      · exact ⟨ha.mark, ha.last, ha.sorted⟩

theorem TrackedPool.start_inv {declaration : DedupKeyDeclaration} {sockets : Nat} {gate : PoolGate}
    (h : PoolGate.new declaration sockets = .ok gate) : (TrackedPool.start gate).Inv := by
  obtain ⟨ordered, count, rfl⟩ := PoolGate.new_ok h
  refine ⟨?_, rfl, .nil, EvidenceLedger.new_unique⟩
  simpa [TrackedPool.start, PoolHistory.start, PoolGate.fresh, List.forall₂_iff_get] using fun _ _ => ⟨rfl, rfl, .nil⟩

theorem TrackedPool.Inv.run (hi : t.Inv) (ops : List GateOp) : (t.run ops).Inv := by
  induction ops generalizing t with
  | nil => exact hi
  | cons op ops ih => exact ih (hi.step op)

end Preservation

/-! ## Exactness -/

/-- The pools a run of gate calls can reach from a fresh gate. -/
def TrackedPool.Reachable (t : TrackedPool) : Prop :=
  ∃ declaration sockets gate ops, PoolGate.new declaration sockets = .ok gate ∧ t = (TrackedPool.start gate).run ops

/-- What makes `admitArrival` withdraw the licence, by the reason it reports. -/
def TrackedPool.Trips (t : TrackedPool) (session : Session) (key : Option DedupKey)
    (projection : CandidateProjection) : PoolDegradeReason → Prop
  | .keyUnavailable => ∀ n, ¬ Readable key projection n
  | .equalKeyContentMismatch => ∃ n, Readable key projection n ∧ t.gate.evidence.Contradicts n projection
  | .connectionInversion => ∃ n, Readable key projection n ∧ ¬ t.gate.evidence.Contradicts n projection ∧
      session.Inverts n
  | .reconnectRewind => ∃ n, Readable key projection n ∧ ¬ t.gate.evidence.Contradicts n projection ∧
      t.history.Rewinds session n

theorem TrackedPool.Reachable.inv {t : TrackedPool} (h : t.Reachable) : t.Inv := by
  obtain ⟨declaration, sockets, gate, ops, hnew, rfl⟩ := h
  exact (TrackedPool.start_inv hnew).run ops

theorem Readable.unique {key : Option DedupKey} {projection : CandidateProjection} {n m : Nat}
    (hn : Readable key projection n) (hm : Readable key projection m) : n = m := by
  have heq := hn.1.symm.trans hm.1
  simpa using heq

theorem exists_readable {key : Option DedupKey} {projection : CandidateProjection} {n : Nat}
    (hn : Readable key projection n) (P : Nat → Prop) : (∃ m, Readable key projection m ∧ P m) ↔ P n :=
  ⟨fun ⟨_, hm, hP⟩ => hn.unique hm ▸ hP, fun hP => ⟨n, hn, hP⟩⟩

theorem Session.Inverts.not_rewinds {session : Session} {n : Nat} (h : session.Inverts n) (history : PoolHistory) :
    ¬ history.Rewinds session n := by
  rintro ⟨-, hnil, -⟩
  simp [Session.Inverts, hnil] at h

namespace TrackedPool.Judged

variable {t : TrackedPool} {session : Session} {key : Option DedupKey} {projection : CandidateProjection}
  {verdict : PoolVerdict}

theorem degrade_iff (h : t.Judged session key projection verdict) :
    (∃ v, verdict = .degrade v) ↔ (∀ n, ¬ Readable key projection n) ∨ ∃ n, Readable key projection n ∧
      (t.gate.evidence.Contradicts n projection ∨ session.Inverts n ∨ t.history.Rewinds session n) := by
  cases h with
  | unavailable _ hu => simp [hu]
  | mismatch _ hr hc => simp [exists_readable hr, hc]
  | inversion _ hr _ hinv => simp [exists_readable hr, hinv]
  | rewind _ hr _ hrew => simp [exists_readable hr, hrew]
  | publish hc _ | duplicate hc _ | stale hc _ =>
    have hread : ¬ ∀ n, ¬ Readable key projection n := fun h => h _ hc.readable
    simp [exists_readable hc.readable, hc.agrees, hc.ordered, hc.above, hread]

/-- The reason is the first check that fails: a mismatch is reported even where the key also inverts. -/
theorem reason_iff (h : t.Judged session key projection verdict) (reason : PoolDegradeReason) :
    (∃ v, verdict = .degrade v ∧ v.reason = reason) ↔ t.Trips session key projection reason := by
  cases h with
  | unavailable hv hu => cases reason <;> simp [hv, hu, Trips]
  | mismatch hv hr hc =>
    have hread : ¬ ∀ n, ¬ Readable key projection n := fun h => h _ hr
    cases reason <;> simp [hv, Trips, exists_readable hr, hc, hread]
  | inversion hv hr hc hinv =>
    have hread : ¬ ∀ n, ¬ Readable key projection n := fun h => h _ hr
    cases reason <;> simp [hv, Trips, exists_readable hr, hc, hinv, hinv.not_rewinds, hread]
  | @rewind _ n hv hr hc hrew =>
    have hread : ¬ ∀ n, ¬ Readable key projection n := fun h => h _ hr
    have hinv : ¬ session.Inverts n := fun h => h.not_rewinds _ hrew
    cases reason <;> simp [hv, Trips, exists_readable hr, hc, hrew, hinv, hread]
  | publish hc _ | duplicate hc _ | stale hc _ =>
    have hread : ¬ ∀ n, ¬ Readable key projection n := fun h => h _ hc.readable
    cases reason <;> simp [Trips, exists_readable hc.readable, hc.agrees, hc.ordered, hc.above, hread]

/-- A clear arrival is decided by its key against the published ones. -/
theorem decided (h : t.Judged session key projection verdict) {n : Nat} (hc : t.Clear session key projection n) :
    (verdict = .publish ∧ ∀ m ∈ t.history.published, m < n) ∨
    (verdict = .duplicate ∧ n ∈ t.history.published ∧ ∀ m ∈ t.history.published, m ≤ n) ∨
    (verdict = .stale ∧ ∃ m ∈ t.history.published, n < m) := by
  cases h with
  | unavailable _ hu => exact (hu n hc.readable).elim
  | mismatch _ hr hcon => exact (hc.agrees (hr.unique hc.readable ▸ hcon)).elim
  | inversion _ hr _ hinv => exact (hc.ordered (hr.unique hc.readable ▸ hinv)).elim
  | rewind _ hr _ hrew => exact (hc.above (hr.unique hc.readable ▸ hrew)).elim
  | publish hc' hn => exact .inl ⟨rfl, hc'.readable.unique hc.readable ▸ hn⟩
  | duplicate hc' hn => exact .inr (.inl ⟨rfl, hc'.readable.unique hc.readable ▸ hn⟩)
  | stale hc' hn => exact .inr (.inr ⟨rfl, hc'.readable.unique hc.readable ▸ hn⟩)

theorem publish_iff (h : t.Judged session key projection verdict) :
    verdict = .publish ↔ ∃ n, t.Clear session key projection n ∧ ∀ m ∈ t.history.published, m < n := by
  constructor
  · rintro rfl
    cases h with
    | publish hc hn => exact ⟨_, hc, hn⟩
  · rintro ⟨n, hc, hn⟩
    rcases h.decided hc with ⟨hv, -⟩ | ⟨-, hmem, -⟩ | ⟨-, m, hm, hlt⟩
    · exact hv
    · exact absurd (hn n hmem) (Nat.lt_irrefl n)
    · exact absurd (hn m hm) (Nat.lt_asymm hlt)

theorem duplicate_iff (h : t.Judged session key projection verdict) :
    verdict = .duplicate ↔
      ∃ n, t.Clear session key projection n ∧ n ∈ t.history.published ∧ ∀ m ∈ t.history.published, m ≤ n := by
  constructor
  · rintro rfl
    cases h with
    | duplicate hc hn => exact ⟨_, hc, hn⟩
  · rintro ⟨n, hc, hmem, hge⟩
    rcases h.decided hc with ⟨-, hnew⟩ | ⟨hv, -⟩ | ⟨-, m, hm, hlt⟩
    · exact absurd (hnew n hmem) (Nat.lt_irrefl n)
    · exact hv
    · exact absurd (hge m hm) (Nat.not_le_of_lt hlt)

theorem stale_iff (h : t.Judged session key projection verdict) :
    verdict = .stale ↔ ∃ n, t.Clear session key projection n ∧ ∃ m ∈ t.history.published, n < m := by
  constructor
  · rintro rfl
    cases h with
    | stale hc hn => exact ⟨_, hc, hn⟩
  · rintro ⟨n, hc, m, hm, hlt⟩
    rcases h.decided hc with ⟨-, hnew⟩ | ⟨-, -, hge⟩ | ⟨hv, -⟩
    · exact absurd (hnew m hm) (Nat.lt_asymm hlt)
    · exact absurd (hge m hm) (Nat.not_le_of_lt hlt)
    · exact hv

end TrackedPool.Judged

/-! ## Withdrawal is final -/

@[simp] theorem PoolGate.settle_degraded (g : PoolGate) (verdict : PoolVerdict) (socket : Nat) (key : Option DedupKey)
    (installed : Bool) : (g.settle verdict socket key installed).degraded = g.degraded := by
  unfold PoolGate.settle
  split <;> rfl

theorem PoolGate.admit_of_degraded {g : PoolGate} {reason : PoolDegradeReason} (h : g.degraded = some reason)
    (socket : Nat) (key : Option DedupKey) (projection : CandidateProjection) :
    g.admitArrival socket key projection = (g, .disarmed) := by
  simp [PoolGate.admitArrival, h]

theorem TrackedPool.step_degraded {t : TrackedPool} {reason : PoolDegradeReason}
    (h : t.gate.degraded = some reason) (op : GateOp) : (t.step op).gate.degraded = some reason := by
  cases op with
  | arrival socket key projection installed =>
    simp [TrackedPool.step, PoolGate.admit_of_degraded h, h]
  | degrade other => simp [TrackedPool.step, PoolGate.degrade, h]
  | reset socket => exact h
  | retire socket => exact h
  | reassign source target =>
    simp only [TrackedPool.step, PoolGate.reassignSocket]
    split
    · split <;> exact h
    · exact h
  | exchange a b =>
    simp only [TrackedPool.step, PoolGate.exchangeSockets]
    split
    · split <;> exact h
    · exact h

theorem TrackedPool.run_degraded {t : TrackedPool} {reason : PoolDegradeReason}
    (h : t.gate.degraded = some reason) (ops : List GateOp) : (t.run ops).gate.degraded = some reason := by
  induction ops generalizing t with
  | nil => exact h
  | cons op ops ih => exact ih (TrackedPool.step_degraded h op)

/-! ## The tripwire over histories -/

/-- Over every run of a gate: an armed gate degrades exactly when the arrival is unreadable, contradicts
the window, or steps back within its session or below the floor of a replacement; otherwise the verdict is
the comparison with the published keys; and a withdrawn licence stays withdrawn. -/
theorem pool_tripwire_exact {t : TrackedPool} (ht : t.Reachable) {socket : Nat} {session : Session}
    (hs : t.history.sessions[socket]? = some session) (key : Option DedupKey) (projection : CandidateProjection) :
    (t.gate.isArmed = true →
      ((∃ v, (t.gate.admitArrival socket key projection).2 = .degrade v) ↔
        (∀ n, ¬ Readable key projection n) ∨ ∃ n, Readable key projection n ∧
          (t.gate.evidence.Contradicts n projection ∨ session.Inverts n ∨ t.history.Rewinds session n)) ∧
      (∀ reason, (∃ v, (t.gate.admitArrival socket key projection).2 = .degrade v ∧ v.reason = reason) ↔
        t.Trips session key projection reason) ∧
      ((t.gate.admitArrival socket key projection).2 = .publish ↔
        ∃ n, t.Clear session key projection n ∧ ∀ m ∈ t.history.published, m < n) ∧
      ((t.gate.admitArrival socket key projection).2 = .duplicate ↔
        ∃ n, t.Clear session key projection n ∧ n ∈ t.history.published ∧ ∀ m ∈ t.history.published, m ≤ n) ∧
      ((t.gate.admitArrival socket key projection).2 = .stale ↔
        ∃ n, t.Clear session key projection n ∧ ∃ m ∈ t.history.published, n < m) ∧
      ((t.gate.admitArrival socket key projection).1.isArmed = false ↔
        ∃ v, (t.gate.admitArrival socket key projection).2 = .degrade v)) ∧
    (t.gate.isArmed = false → ∀ ops,
      (t.run ops).gate.admitArrival socket key projection = ((t.run ops).gate, .disarmed)) := by
  refine ⟨fun harmed => ?_, fun hdisarmed ops => ?_⟩
  · have hnone : t.gate.degraded = none := Option.isNone_iff_eq_none.1 harmed
    obtain ⟨record, hrecord, hr⟩ := Pointwise.getElem? ht.inv.sessions.flip hs
    have hj := ht.inv.admit_judged hnone hrecord hr key projection
    exact ⟨hj.degrade_iff, hj.reason_iff, hj.publish_iff, hj.duplicate_iff, hj.stale_iff,
      PoolGate.admit_disarms_iff hnone socket key projection⟩
  · obtain ⟨reason, hreason⟩ := Option.isSome_iff_exists.1 (Option.isNone_eq_false_iff.1 hdisarmed)
    exact PoolGate.admit_of_degraded (t.run_degraded hreason ops) socket key projection

def exampleDeclaration : DedupKeyDeclaration := ⟨"limitless", "orderbookUpdate", "version", .sessionMonotone⟩

def exampleGate : PoolGate := .fresh exampleDeclaration 2 rfl (by decide)

theorem exampleGate_new : PoolGate.new exampleDeclaration 2 = .ok exampleGate := rfl

/-- Socket 0 has published key 5, socket 1 has delivered key 3. -/
def examplePool : TrackedPool :=
  (TrackedPool.start exampleGate).run
    [.arrival 0 (some (.integer 5)) [1] true, .arrival 1 (some (.integer 3)) [2] true]

theorem pool_tripwire_exact_examplePool :
    examplePool.gate.isArmed = true ∧ examplePool.history.sessions[0]? = some ⟨false, [5]⟩ ∧
    ∃ v, (examplePool.gate.admitArrival 0 (some (.integer 4)) [7]).2 = .degrade v ∧ v.reason = .connectionInversion := by
  have hs : examplePool.history.sessions[0]? = some ⟨false, [5]⟩ := by decide
  have hreach : examplePool.Reachable := ⟨_, _, _, _, exampleGate_new, rfl⟩
  have h := (pool_tripwire_exact hreach hs (some (.integer 4)) [7]).1 (by decide)
  refine ⟨by decide, hs, (h.2.1 .connectionInversion).2 ⟨4, ⟨rfl, by decide⟩, ?_, 5, by simp, by decide⟩⟩
  rintro ⟨other, hmem, -⟩
  have hnone : examplePool.gate.evidence.evidenceFor (.integer 4) = none := by decide
  exact EvidenceLedger.evidenceFor_eq_none.1 hnone other hmem

end PmWs
