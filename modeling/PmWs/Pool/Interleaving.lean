import PmWs.Lib.Records
import PmWs.Pool.History

/-!
# Racing sockets

Several sockets deliver the same keyed stream, in whatever order the network
chose. Whatever the interleaving, the gate publishes the strict running
maxima of the keys and accounts for every arrival once.
-/

open MachineInt Records

namespace PmWs

structure Arrival where
  socket : Nat
  key : Nat
  deriving DecidableEq, Repr

/-- One arrival through a caller whose book takes every published frame. -/
def PoolGate.receive (content : Nat → CandidateProjection) (self : PoolGate) (arrival : Arrival) :
    PoolGate × PoolVerdict :=
  let (gate, verdict) := self.admitArrival arrival.socket (some (.integer arrival.key)) (content arrival.key)
  (if verdict = .publish then gate.committed arrival.socket (.integer arrival.key) else gate, verdict)

def PoolGate.receiveAll (content : Nat → CandidateProjection) (self : PoolGate) (arrivals : List Arrival) :
    PoolGate × List PoolVerdict :=
  arrivals.foldl (fun (gate, verdicts) arrival =>
    let (gate, verdict) := gate.receive content arrival
    (gate, verdicts ++ [verdict])) (self, [])

/-- The keys one socket delivered, in order. -/
def stream (arrivals : List Arrival) (socket : Nat) : List Nat :=
  (arrivals.filter fun a => a.socket = socket).map Arrival.key

/-- The keys whose arrival was published. -/
def publishedKeys (arrivals : List Arrival) (verdicts : List PoolVerdict) : List Nat :=
  ((arrivals.zip verdicts).filter fun judged => judged.2 = .publish).map fun judged => judged.1.key

theorem stream_concat (arrivals : List Arrival) (a : Arrival) (socket : Nat) :
    stream (arrivals ++ [a]) socket = stream arrivals socket ++ if a.socket = socket then [a.key] else [] := by
  by_cases h : a.socket = socket <;> simp [stream, h]

theorem publishedKeys_concat {arrivals : List Arrival} {verdicts : List PoolVerdict}
    (h : verdicts.length = arrivals.length) (a : Arrival) (v : PoolVerdict) :
    publishedKeys (arrivals ++ [a]) (verdicts ++ [v]) =
      publishedKeys arrivals verdicts ++ if v = .publish then [a.key] else [] := by
  by_cases hv : v = .publish <;> simp [publishedKeys, List.zip_append h.symm, hv]

theorem PoolGate.receiveAll_concat (content : Nat → CandidateProjection) (g : PoolGate) (arrivals : List Arrival)
    (a : Arrival) :
    g.receiveAll content (arrivals ++ [a]) =
      (((g.receiveAll content arrivals).1.receive content a).1,
        (g.receiveAll content arrivals).2 ++ [((g.receiveAll content arrivals).1.receive content a).2]) := by
  simp only [PoolGate.receiveAll, List.foldl_append, List.foldl_cons, List.foldl_nil]

/-! ## The run invariant -/

/-- What holds after the arrivals `done`, with `history` the sessions and `verdicts` the answers so far. -/
structure RaceInv (content : Nat → CandidateProjection) (sockets : Nat) (done : List Arrival) (gate : PoolGate)
    (verdicts : List PoolVerdict) (history : PoolHistory) : Prop where
  tracks : TrackedPool.Inv ⟨gate, history⟩
  armed : gate.degraded = none
  sessions : ∀ i < sockets, history.sessions[i]? = some ⟨false, stream done i⟩
  published : history.published = records (done.map Arrival.key)
  evidence : ∀ entry ∈ gate.evidence.entries, ∃ n, entry = (.integer n, content n)
  answered : verdicts.length = done.length
  keys : publishedKeys done verdicts = history.published
  classes : verdicts.count .publish + verdicts.count .duplicate + verdicts.count .stale = verdicts.length
  publishes : gate.published = min (verdicts.count .publish) u64Max
  duplicates : gate.duplicateDrops = min (verdicts.count .duplicate) u64Max
  stales : gate.staleDrops = min (verdicts.count .stale) u64Max

theorem PoolGate.mem_observe_evidence {g : PoolGate} {socket : Nat} {record : SocketRecord} {key : DedupKey}
    {projection : CandidateProjection} {entry : DedupKey × CandidateProjection}
    (h : entry ∈ (g.observe socket record key projection).evidence.entries) :
    entry ∈ g.evidence.entries ∨ entry = (key, projection) := by
  simp only [PoolGate.observe] at h
  split at h
  · exact .inl h
  · exact EvidenceLedger.mem_of_mem_record h

/-- A saturating counter of one verdict stays the capped count of it. -/
theorem counter_concat {verdicts : List PoolVerdict} {w : PoolVerdict} {c : Nat}
    (h : c = min (verdicts.count w) u64Max) (v : PoolVerdict) :
    (if v = w then saturatingAdd c 1 else c) = min ((verdicts ++ [v]).count w) u64Max := by
  rw [h, List.count_append]
  split
  case isTrue h => simp [h, saturatingAdd_min]
  case isFalse h => simp [h]

namespace RaceInv

variable {content : Nat → CandidateProjection} {sockets : Nat} {done : List Arrival} {gate : PoolGate}
  {verdicts : List PoolVerdict} {history : PoolHistory}

theorem sessions_concat (hi : RaceInv content sockets done gate verdicts history) (a : Arrival) {i : Nat}
    (h : i < sockets) :
    (history.deliver a.socket a.key).sessions[i]? = some ⟨false, stream (done ++ [a]) i⟩ := by
  simp only [PoolHistory.deliver, List.getElem?_modify, hi.sessions i h, stream_concat]
  split <;> simp

/-- One more answered arrival: what the gate and the history must have become. -/
theorem extend (hi : RaceInv content sockets done gate verdicts history) (a : Arrival) {gate' : PoolGate}
    {history' : PoolHistory} {v : PoolVerdict} (tracks : TrackedPool.Inv ⟨gate', history'⟩)
    (armed : gate'.degraded = none) (sessions : history'.sessions = (history.deliver a.socket a.key).sessions)
    (published : history'.published = history.published ++ if v = .publish then [a.key] else [])
    (record : v = .publish ↔ ∀ y ∈ done.map Arrival.key, y < a.key)
    (evidence : ∀ entry ∈ gate'.evidence.entries, entry ∈ gate.evidence.entries ∨ entry = (.integer a.key, content a.key))
    (verdict : v = .publish ∨ v = .duplicate ∨ v = .stale)
    (publishes : gate'.published = if v = .publish then saturatingAdd gate.published 1 else gate.published)
    (duplicates : gate'.duplicateDrops = if v = .duplicate then saturatingAdd gate.duplicateDrops 1 else gate.duplicateDrops)
    (stales : gate'.staleDrops = if v = .stale then saturatingAdd gate.staleDrops 1 else gate.staleDrops) :
    RaceInv content sockets (done ++ [a]) gate' (verdicts ++ [v]) history' where
  tracks := tracks
  armed := armed
  sessions i h := by rw [sessions, hi.sessions_concat a h]
  published := by
    rw [published, hi.published, List.map_append, List.map_singleton, records_concat]
    simp only [record]
  evidence entry h := (evidence entry h).elim (hi.evidence entry) fun heq => ⟨a.key, heq⟩
  answered := by simp [hi.answered]
  keys := by rw [publishedKeys_concat hi.answered, published, hi.keys]
  classes := by
    have := hi.classes
    rcases verdict with rfl | rfl | rfl <;> simp [List.count_append] <;> omega
  publishes := publishes.trans (counter_concat hi.publishes v)
  duplicates := duplicates.trans (counter_concat hi.duplicates v)
  stales := stales.trans (counter_concat hi.stales v)

/-- An arrival that keeps its socket's stream non-decreasing trips nothing. -/
theorem clear (hi : RaceInv content sockets done gate verdicts history) {a : Arrival}
    (hmono : ∀ k ∈ stream done a.socket, k ≤ a.key) (hsize : (content a.key).length ≤ maxEvidenceProjectionBytes) :
    TrackedPool.Clear ⟨gate, history⟩ ⟨false, stream done a.socket⟩ (some (.integer a.key)) (content a.key) a.key where
  readable := ⟨rfl, hsize⟩
  agrees := by
    rintro ⟨other, hmem, hne⟩
    obtain ⟨n, heq⟩ := hi.evidence _ hmem
    obtain ⟨hkey, hother⟩ := Prod.mk.inj heq
    exact hne (hother.trans (by rw [DedupKey.integer.inj hkey]))
  ordered := fun ⟨m, hm, hlt⟩ => absurd (hmono m hm) (Nat.not_le_of_lt hlt)
  above := fun ⟨hmark, _⟩ => Bool.false_ne_true hmark

theorem step (hi : RaceInv content sockets done gate verdicts history) {a : Arrival} (hsocket : a.socket < sockets)
    (hmono : ∀ k ∈ stream done a.socket, k ≤ a.key) (hsize : (content a.key).length ≤ maxEvidenceProjectionBytes) :
    ∃ history', RaceInv content sockets (done ++ [a]) (gate.receive content a).1
      (verdicts ++ [(gate.receive content a).2]) history' := by
  obtain ⟨record, hrecord, hr⟩ := Pointwise.getElem? hi.tracks.sessions.flip (hi.sessions a.socket hsocket)
  have hc := hi.clear hmono hsize
  rcases hi.tracks.admitArrival a.socket (some (.integer a.key)) (content a.key) hi.armed hrecord hr with
    ⟨v, -, hj⟩ | ⟨n, hn, hadmit⟩
  · simpa using hj.decided hc
  obtain rfl := hn.readable.unique hc.readable
  have ho := hi.tracks.observe hrecord hr hc
  have hbelow := forall_lt_records_iff (done.map Arrival.key) a.key
  rw [← hi.published] at hbelow
  have hev := fun entry => @PoolGate.mem_observe_evidence gate a.socket record (.integer a.key) (content a.key) entry
  rcases PoolGate.decide_cases (gate.observe a.socket record (.integer a.key) (content a.key))
      hi.tracks.increasing hi.tracks.last a.key with ⟨hd, hnew⟩ | ⟨hd, hmem, -⟩ | ⟨hd, m, hm, hlt⟩ <;>
    simp only [PoolGate.receive, hadmit, hd]
  · exact ⟨_, hi.extend a (ho.published hnew) hi.armed rfl rfl (by simpa using hbelow.1 hnew) hev (.inl rfl) rfl rfl rfl⟩
  · have hnot : ¬ ∀ y ∈ done.map Arrival.key, y < a.key := fun h => absurd (hbelow.2 h _ hmem) (Nat.lt_irrefl _)
    exact ⟨_, hi.extend a ⟨ho.sessions, ho.last, ho.increasing, ho.window⟩ hi.armed rfl (List.append_nil _).symm
      (iff_of_false (by simp) hnot) hev (.inr (.inl rfl)) rfl rfl rfl⟩
  · have hnot : ¬ ∀ y ∈ done.map Arrival.key, y < a.key := fun h => absurd (hbelow.2 h m hm) (Nat.lt_asymm hlt)
    exact ⟨_, hi.extend a ⟨ho.sessions, ho.last, ho.increasing, ho.window⟩ hi.armed rfl (List.append_nil _).symm
      (iff_of_false (by simp) hnot) hev (.inr (.inr rfl)) rfl rfl rfl⟩

/-- Every run over non-decreasing streams keeps the invariant. -/
theorem run {declaration : DedupKeyDeclaration} {gate : PoolGate} (hnew : PoolGate.new declaration sockets = .ok gate)
    (hsize : ∀ key, (content key).length ≤ maxEvidenceProjectionBytes) (arrivals : List Arrival)
    (hrange : ∀ a ∈ arrivals, a.socket < sockets) (hstreams : ∀ i, (stream arrivals i).Pairwise (· ≤ ·)) :
    ∃ history, RaceInv content sockets arrivals (gate.receiveAll content arrivals).1
      (gate.receiveAll content arrivals).2 history := by
  induction arrivals using List.reverseRecOn with
  | nil =>
    obtain ⟨ordered, count, rfl⟩ := PoolGate.new_ok hnew
    exact ⟨_, {
      tracks := TrackedPool.start_inv hnew
      armed := rfl
      sessions := fun i h => by simp [PoolGate.receiveAll, PoolHistory.start, PoolGate.fresh, stream, h]
      published := rfl
      evidence := by simp [PoolGate.receiveAll, PoolGate.fresh, EvidenceLedger.new]
      answered := rfl
      keys := rfl
      classes := rfl
      publishes := rfl
      duplicates := rfl
      stales := rfl }⟩
  | append_singleton done a ih =>
    have hprefix : ∀ i, (stream done i).Pairwise (· ≤ ·) := fun i => by
      have h := hstreams i
      rw [stream_concat] at h
      exact (List.pairwise_append.1 h).1
    have hmono : ∀ k ∈ stream done a.socket, k ≤ a.key := fun k hk => by
      have h := hstreams a.socket
      rw [stream_concat, if_pos rfl] at h
      exact (List.pairwise_append.1 h).2.2 k hk a.key (List.mem_singleton_self _)
    obtain ⟨history, hi⟩ := ih (fun b hb => hrange b (List.mem_append_left _ hb)) hprefix
    rw [PoolGate.receiveAll_concat]
    exact hi.step (hrange a (by simp)) hmono (hsize a.key)

end RaceInv

/-! ## The published sequence -/

/-- Whatever the interleaving of non-decreasing streams, the gate is never degraded, publishes exactly the
strict running maxima and ends at the greatest key. Each arrival is published, a duplicate or stale, and each
counter is the number of its class as far as a `u64` counts. -/
theorem pooled_publishing_order_insensitive {declaration : DedupKeyDeclaration} {sockets : Nat} {gate : PoolGate}
    (hnew : PoolGate.new declaration sockets = .ok gate) {content : Nat → CandidateProjection}
    (hsize : ∀ key, (content key).length ≤ maxEvidenceProjectionBytes) (arrivals : List Arrival)
    (hrange : ∀ a ∈ arrivals, a.socket < sockets) (hstreams : ∀ i, (stream arrivals i).Pairwise (· ≤ ·)) :
    ∀ final verdicts, gate.receiveAll content arrivals = (final, verdicts) →
      final.degraded = none ∧
      publishedKeys arrivals verdicts = records (arrivals.map Arrival.key) ∧
      (publishedKeys arrivals verdicts).Pairwise (· < ·) ∧
      final.lastPublished = (arrivals.map Arrival.key).max?.map .integer ∧
      verdicts.count .publish + verdicts.count .duplicate + verdicts.count .stale = arrivals.length ∧
      final.published = min (verdicts.count .publish) u64Max ∧
      final.duplicateDrops = min (verdicts.count .duplicate) u64Max ∧
      final.staleDrops = min (verdicts.count .stale) u64Max := by
  intro final verdicts hrun
  obtain ⟨history, hi⟩ := RaceInv.run hnew hsize arrivals hrange hstreams
  rw [hrun] at hi
  refine ⟨hi.armed, hi.keys.trans hi.published, hi.keys ▸ hi.tracks.increasing, ?_, hi.classes.trans hi.answered,
    hi.publishes, hi.duplicates, hi.stales⟩
  rw [hi.tracks.last, hi.published, getLast?_records]

theorem pooled_publishing_order_insensitive_example :
    publishedKeys [⟨0, 5⟩, ⟨1, 3⟩, ⟨1, 5⟩, ⟨0, 7⟩]
      (exampleGate.receiveAll (fun key => [UInt8.ofNat key]) [⟨0, 5⟩, ⟨1, 3⟩, ⟨1, 5⟩, ⟨0, 7⟩]).2 = [5, 7] ∧
    (exampleGate.receiveAll (fun key => [UInt8.ofNat key]) [⟨0, 5⟩, ⟨1, 3⟩, ⟨1, 5⟩, ⟨0, 7⟩]).1.staleDrops = 1 := by
  have hsize : ∀ key, [UInt8.ofNat key].length ≤ maxEvidenceProjectionBytes := fun _ => by
    simp [maxEvidenceProjectionBytes]
  have hstreams : ∀ i, (stream [⟨0, 5⟩, ⟨1, 3⟩, ⟨1, 5⟩, ⟨0, 7⟩] i).Pairwise (· ≤ ·)
    | 0 => by decide
    | 1 => by decide
    | i + 2 => by simp [stream]
  obtain ⟨-, hkeys, -, -, -, -, -, hstale⟩ :=
    pooled_publishing_order_insensitive exampleGate_new hsize _ (by decide) hstreams _ _ rfl
  exact ⟨hkeys.trans (by decide), hstale.trans (by decide)⟩

/-! ## Saturation -/

theorem stream_replicate (n : Nat) (a : Arrival) (i : Nat) : (stream (List.replicate n a) i).Pairwise (· ≤ ·) := by
  by_cases h : a.socket = i <;> simp [stream, h, List.pairwise_replicate]

/-- The counters stop at their width, so they cannot account for more arrivals than the three hold. -/
theorem counters_saturate (n : Nat) (hn : 3 * u64Max < n) :
    (exampleGate.receiveAll (fun _ => []) (List.replicate n ⟨0, 5⟩)).1.published +
      (exampleGate.receiveAll (fun _ => []) (List.replicate n ⟨0, 5⟩)).1.duplicateDrops +
      (exampleGate.receiveAll (fun _ => []) (List.replicate n ⟨0, 5⟩)).1.staleDrops ≠
    (List.replicate n (⟨0, 5⟩ : Arrival)).length := by
  have hrange : ∀ a ∈ List.replicate n (⟨0, 5⟩ : Arrival), a.socket < 2 := fun a ha => by
    rw [List.eq_of_mem_replicate ha]; decide
  obtain ⟨history, hi⟩ := @RaceInv.run (fun _ => []) _ _ _ exampleGate_new (fun _ => by decide) _ hrange
    (stream_replicate n _)
  rw [hi.publishes, hi.duplicates, hi.stales, List.length_replicate]
  omega

theorem pooled_counters_not_exact :
    (∀ a ∈ List.replicate (3 * 2 ^ 64) (⟨0, 5⟩ : Arrival), a.socket < 2) ∧
    (∀ i, (stream (List.replicate (3 * 2 ^ 64) ⟨0, 5⟩) i).Pairwise (· ≤ ·)) ∧
    (exampleGate.receiveAll (fun _ => []) (List.replicate (3 * 2 ^ 64) ⟨0, 5⟩)).1.published +
      (exampleGate.receiveAll (fun _ => []) (List.replicate (3 * 2 ^ 64) ⟨0, 5⟩)).1.duplicateDrops +
      (exampleGate.receiveAll (fun _ => []) (List.replicate (3 * 2 ^ 64) ⟨0, 5⟩)).1.staleDrops ≠
    (List.replicate (3 * 2 ^ 64) (⟨0, 5⟩ : Arrival)).length :=
  ⟨fun a ha => by rw [List.eq_of_mem_replicate ha]; decide, stream_replicate _ _,
    counters_saturate _ (by decide)⟩

end PmWs
