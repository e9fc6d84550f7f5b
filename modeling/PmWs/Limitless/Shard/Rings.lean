import Mathlib.Logic.Function.Basic
import PmWs.Book.Stream
import PmWs.Limitless.Shard.Market
import PmWs.Lib.Tables

/-!
# The event rings of a segment

Every market has one place in the directory, and with it one event ring, for
as long as the segment lives. What was ever written into a ring is behind where
the market's stream stands now, or, while the market is closed, not past the
epoch it was closed at.
-/

open MachineInt Tables Fallible

namespace PmWs

/-! ## What the writer does to the rings -/

/-- Each installed market, with everything ever written into its ring. -/
def SegmentWriter.rings (self : SegmentWriter) : List (MarketRef × List StreamDelivery) :=
  self.installed.map fun part => (part.market, part.written)

/-- One event was written into the ring at a handle. -/
def SegmentWriter.Appends (handle : MarketHandle) (delivery : StreamDelivery) (w w' : SegmentWriter) : Prop :=
  ∃ ring, w.rings[handle]? = some ring ∧ w'.rings = w.rings.set handle (ring.1, ring.2 ++ [delivery])

namespace SegmentWriter

variable {w w' : SegmentWriter} {handle : MarketHandle} {market : MarketRef} {part : InstalledMarket}

/-- A state publication touches no ring. -/
theorem publish_rings {book : PublishedBook} (h : w.publish handle book = .ok w') : w'.rings = w.rings := by
  simp only [publish, bind_eq_ok, orError_eq_ok, Except.ok.injEq] at h
  obtain ⟨part, hpart, -, -, dirty, -, marked, -, generation, -, state, -, rfl⟩ := h
  obtain ⟨hlt, hfound⟩ := List.getElem?_eq_some_iff.1 (partFor_ok hpart).1
  apply List.ext_getElem?
  intro i
  simp only [rings, List.map_set, List.getElem?_set, List.length_map, hlt, if_true]
  split
  · rename_i heq
    simp [← heq, hlt, hfound]
  · rfl

theorem publishEvent_appends {delivery : StreamDelivery} (hpart : w.installed[handle]? = some part)
    (h : w.publishEvent handle part delivery = .ok w') : Appends handle delivery w w' := by
  simp only [publishEvent, bind_eq_ok, orError_eq_ok, Except.ok.injEq] at h
  obtain ⟨event, -, generation, -, stored, -, rfl⟩ := h
  exact ⟨(part.market, part.written), by simp [rings, hpart], by simp [rings, List.map_set]⟩

theorem publishMutation_appends {revision : Nat} {cursor : MutationCursor} {mutation : BookMutation}
    (h : w.publishMutation handle revision cursor mutation = .ok w') :
    Appends handle (.mutation revision cursor mutation) w w' := by
  simp only [publishMutation, bind_eq_ok] at h
  obtain ⟨part, hpart, -, -, h⟩ := h
  exact publishEvent_appends (partFor_ok hpart).1 h

theorem publishResolution_appends {revision : Nat} {cursor : MutationCursor} {resolution : MarketResolution}
    (h : w.publishResolution handle revision cursor resolution = .ok w') :
    Appends handle (.resolution revision cursor resolution) w w' := by
  simp only [publishResolution, bind_eq_ok] at h
  obtain ⟨part, hpart, -, -, h⟩ := h
  exact publishEvent_appends (partFor_ok hpart).1 h

/-- A new market gets an empty ring behind all others. -/
theorem install_rings (h : w.install market = .ok (w', handle)) :
    w'.rings = w.rings ++ [(market, [])] ∧ handle = w.rings.length ∧ market ∉ w.rings.map Prod.fst := by
  simp only [install, ite_error_eq_ok, Except.ok.injEq, Prod.mk.injEq] at h
  obtain ⟨hnew, -, -, -, rfl, rfl⟩ := h
  refine ⟨by simp [rings], by simp [rings], ?_⟩
  simpa [rings] using hnew

section
variable {delivery : StreamDelivery} {ring : MarketRef × List StreamDelivery}

/-- The ring at the handle has one event more, and every other is the old one. -/
theorem Appends.lookup (h : Appends handle delivery w w') (hring : w.rings[handle]? = some ring) (i : Nat) :
    w'.rings[i]? = if handle = i then some (ring.1, ring.2 ++ [delivery]) else w.rings[i]? := by
  obtain ⟨ring', hring', hrings⟩ := h
  obtain rfl := Option.some.inj (hring.symm.trans hring')
  obtain ⟨hlt, -⟩ := List.getElem?_eq_some_iff.1 hring
  rw [hrings, List.getElem?_set, if_pos hlt]

theorem Appends.markets (h : Appends handle delivery w w') : w'.rings.map Prod.fst = w.rings.map Prod.fst := by
  have hsplit := h
  obtain ⟨ring, hring, -⟩ := hsplit
  apply List.ext_getElem?
  intro i
  rw [List.getElem?_map, h.lookup hring, List.getElem?_map]
  split
  · rename_i heq
    rw [← heq, hring]
    rfl
  · rfl

end

end SegmentWriter

/-! ## What a segment says of every stream -/

/-- Where the stream of each market stands, if the market is there. -/
abbrev Streams := String → Option MutationContinuity

/-- The directory is right, every ring was written in order, and unless a write was refused the streams are past all
that was written. -/
structure ShardSegment.Tracks (seg : ShardSegment) (streams : Streams) : Prop where
  named : ∀ (slug : String) entry, seg.entries[slug]? = some entry →
    ∃ ring, seg.writer.rings[entry.handle]? = some ring ∧ marketOfSlug slug = some ring.1
  distinct : (seg.writer.rings.map Prod.fst).Nodup
  ordered : ∀ ring ∈ seg.writer.rings, (ring.2.map (·.cursor)).Pairwise MutationCursor.Before
  live : seg.failure = none → ∀ (slug : String) continuity, streams slug = some continuity →
    ∃ entry, seg.entries[slug]? = some entry ∧ entry.live = true ∧
      ∀ ring, seg.writer.rings[entry.handle]? = some ring → ∀ d ∈ ring.2, continuity.Past d.cursor
  closed : seg.failure = none → ∀ (slug : String) entry, streams slug = none → seg.entries[slug]? = some entry →
    ∀ ring, seg.writer.rings[entry.handle]? = some ring → ∀ d ∈ ring.2, d.cursor.epoch ≤ entry.retiredEpoch

/-- Neither the directory nor a ring changed, and no refusal was taken back. -/
structure ShardSegment.Same (seg seg' : ShardSegment) : Prop where
  entries : seg'.entries = seg.entries
  rings : seg'.writer.rings = seg.writer.rings
  failure : seg'.failure = none → seg.failure = none

theorem marketOfSlug_inj {a b : String} {market : MarketRef} (ha : marketOfSlug a = some market)
    (hb : marketOfSlug b = some market) : a = b := by
  have hslug {slug : String} (h : marketOfSlug slug = some market) : market.key.value.value = slug := by
    simp only [marketOfSlug, NativeText.new, Option.map_eq_some_iff, Option.dite_none_right_eq_some, Option.some.injEq] at h
    obtain ⟨_, ⟨_, rfl⟩, rfl⟩ := h
    rfl
  exact (hslug ha).symm.trans (hslug hb)

namespace ShardSegment

open MutationContinuity (Step)

variable {seg seg' seg'' : ShardSegment} {streams streams' : Streams} {slug : String} {published : PublishedBook}
  {delivery : StreamDelivery} {cursor : MutationCursor}

theorem Same.refl (seg : ShardSegment) : seg.Same seg := ⟨rfl, rfl, id⟩

theorem Same.trans (h₁ : seg.Same seg') (h₂ : seg'.Same seg'') : seg.Same seg'' :=
  ⟨h₂.entries.trans h₁.entries, h₂.rings.trans h₁.rings, fun h => h₁.failure (h₂.failure h)⟩

theorem publishState_same (seg : ShardSegment) (slug : String) (published : PublishedBook) :
    seg.Same (seg.publishState slug published) := by
  unfold publishState writeTo
  split
  · exact .refl seg
  · split
    · exact ⟨rfl, rfl, nofun⟩
    · unfold written
      split
      · rename_i w hok
        exact ⟨rfl, SegmentWriter.publish_rings hok, id⟩
      · exact ⟨rfl, rfl, nofun⟩

/-- Every stream went on without writing anything. -/
theorem Tracks.same (h : seg.Tracks streams) (hsame : seg.Same seg')
    (hstreams : ∀ slug, Option.Rel MutationContinuity.Onward (streams slug) (streams' slug)) :
    seg'.Tracks streams' where
  named := by rw [hsame.entries, hsame.rings]; exact h.named
  distinct := by rw [hsame.rings]; exact h.distinct
  ordered := by rw [hsame.rings]; exact h.ordered
  live hnone slug c' hc' := by
    rw [hsame.entries, hsame.rings]
    have hrel := hstreams slug
    rw [hc'] at hrel
    cases hc : streams slug with
    | none => simp [hc] at hrel
    | some c =>
      obtain ⟨entry, hentry, hlive, hpast⟩ := h.live (hsame.failure hnone) slug c hc
      rw [hc, Option.rel_some_some] at hrel
      exact ⟨entry, hentry, hlive, fun ring hring d hd => hrel _ (hpast ring hring d hd)⟩
  closed hnone slug entry hc' := by
    rw [hsame.entries, hsame.rings]
    have hrel := hstreams slug
    rw [hc'] at hrel
    refine h.closed (hsame.failure hnone) slug entry ?_
    cases hc : streams slug with
    | none => rfl
    | some c => simp [hc] at hrel

/-- Once a write was refused only what was written before counts. -/
theorem Tracks.failed (h : seg.Tracks streams) (hentries : seg'.entries = seg.entries)
    (hrings : seg'.writer.rings = seg.writer.rings) (hfailed : seg'.failure ≠ none) (streams' : Streams) :
    seg'.Tracks streams' where
  named := by rw [hentries, hrings]; exact h.named
  distinct := by rw [hrings]; exact h.distinct
  ordered := by rw [hrings]; exact h.ordered
  live hnone := absurd hnone hfailed
  closed hnone := absurd hnone hfailed

/-- Two markets never share a ring. -/
theorem Tracks.apart (h : seg.Tracks streams) {k : String} {entry entry' : SegmentEntry}
    (hentry : seg.entries[slug]? = some entry) (hentry' : seg.entries[k]? = some entry') (hne : k ≠ slug) :
    entry.handle ≠ entry'.handle := by
  intro heq
  obtain ⟨ring, hring, hslug⟩ := h.named slug entry hentry
  obtain ⟨ring', hring', hk⟩ := h.named k entry' hentry'
  obtain rfl := Option.some.inj (hring.symm.trans (heq ▸ hring'))
  exact hne (marketOfSlug_inj hk hslug)


/-- One event of an intact stream, at the position the stream stands at. -/
theorem Tracks.appends {epoch position : Nat} {w : SegmentWriter} {entry : SegmentEntry}
    (h : seg.Tracks streams) (hnone : seg.failure = none) (hstream : streams slug = some (.intact epoch position))
    (hcursor : delivery.cursor = ⟨epoch, position⟩) (hentry : seg.entries[slug]? = some entry)
    (happends : SegmentWriter.Appends entry.handle delivery seg.writer w) :
    Tracks { seg with writer := w } (Function.update streams slug (some (.intact epoch (position + 1)))) := by
  obtain ⟨ring, hring, hmarket⟩ := h.named slug entry hentry
  have hlookup := happends.lookup hring
  obtain ⟨_, hentry', hlive, hpast⟩ := h.live hnone slug _ hstream
  obtain rfl := Option.some.inj (hentry.symm.trans hentry')
  have hbefore : ∀ d ∈ ring.2, d.cursor.Before ⟨epoch, position⟩ := hpast ring hring
  have hapart {k : String} {other : SegmentEntry} (hother : seg.entries[k]? = some other) (hne : k ≠ slug) :
      w.rings[other.handle]? = seg.writer.rings[other.handle]? := by
    rw [hlookup, if_neg (h.apart hentry hother hne)]
  refine ⟨fun k other hother => ?_, ?_, fun ring' hmem => ?_, fun _ k continuity hk => ?_,
    fun _ k other hk hother ring' hring' d hd => ?_⟩
  · by_cases heq : k = slug
    · subst heq
      obtain rfl := Option.some.inj (hentry.symm.trans hother)
      exact ⟨(ring.1, ring.2 ++ [delivery]), (hlookup _).trans (if_pos rfl), hmarket⟩
    · obtain ⟨ring', hring', hmarket'⟩ := h.named k other hother
      exact ⟨ring', (hapart hother heq).trans hring', hmarket'⟩
  · show (w.rings.map Prod.fst).Nodup
    rw [happends.markets]
    exact h.distinct
  · obtain ⟨i, hi⟩ := List.mem_iff_getElem?.1 hmem
    have hi : w.rings[i]? = some ring' := hi
    rw [hlookup] at hi
    split at hi
    · obtain rfl := Option.some.inj hi
      rw [List.map_append, List.pairwise_append]
      refine ⟨h.ordered ring (List.mem_of_getElem? hring), List.pairwise_singleton _ _, fun a ha b hb => ?_⟩
      obtain ⟨d, hd, rfl⟩ := List.mem_map.1 ha
      obtain rfl : b = ⟨epoch, position⟩ := by simpa [hcursor] using hb
      exact hbefore d hd
    · exact h.ordered ring' (List.mem_of_getElem? hi)
  · by_cases heq : k = slug
    · subst heq
      obtain rfl : .intact epoch (position + 1) = continuity := by simpa using hk
      refine ⟨entry, hentry, hlive, fun ring' hring' d hd => ?_⟩
      obtain rfl := Option.some.inj (hring'.symm.trans ((hlookup _).trans (if_pos rfl)))
      rcases List.mem_append.1 hd with hd | hd
      · exact (hbefore d hd).imp_right fun hlt => ⟨hlt.1, Nat.lt_succ_of_lt hlt.2⟩
      · rw [List.mem_singleton.1 hd, hcursor]
        exact .inr ⟨rfl, Nat.lt_succ_self _⟩
    · rw [Function.update_of_ne heq] at hk
      obtain ⟨other, hother, hlive', hpast'⟩ := h.live hnone k continuity hk
      exact ⟨other, hother, hlive', fun ring' hring' => hpast' ring' ((hapart hother heq).symm.trans hring')⟩
  · have heq : k ≠ slug := fun heq => by simp [heq] at hk
    rw [Function.update_of_ne heq] at hk
    exact h.closed hnone k other hk hother ring' ((hapart hother heq).symm.trans hring') d hd

theorem Tracks.writeTo {epoch position : Nat}
    {write : MarketHandle → Except WriterError SegmentWriter} (h : seg.Tracks streams)
    (hstream : streams slug = some (.intact epoch position)) (hcursor : delivery.cursor = ⟨epoch, position⟩)
    (hwrite : ∀ handle w, write handle = .ok w → SegmentWriter.Appends handle delivery seg.writer w) :
    (seg.writeTo slug write).Tracks (Function.update streams slug (some (.intact epoch (position + 1)))) := by
  unfold ShardSegment.writeTo
  split
  · rename_i hfailed
    exact h.failed rfl rfl (Option.isSome_iff_ne_none.1 hfailed) _
  · rename_i hfailure
    have hnone : seg.failure = none := by simpa using hfailure
    split
    · exact h.failed (by rfl) (by rfl) (by simp) _
    · rename_i handle hhandle
      obtain ⟨entry, hentry, rfl⟩ := Option.map_eq_some_iff.1 hhandle
      cases hok : write entry.handle with
      | error error => exact h.failed (by rfl) (by rfl) (by simp [written]) _
      | ok w => exact h.appends hnone hstream hcursor hentry (hwrite _ w hok)

/-- The mutations of a commit take the stream from the first position they were given to the last. -/
theorem Tracks.publishMutations {epoch position : Nat} {records : List MutationRecord} (h : seg.Tracks streams)
    (hstream : streams slug = some (.intact epoch position))
    (hcursors : records.map (·.cursor) = cursorsFrom epoch position records.length) (revision : Nat) :
    (seg.publishMutations slug revision records).Tracks
      (Function.update streams slug (some (.intact epoch (position + records.length)))) := by
  induction records generalizing seg streams position with
  | nil =>
    have hsame : Function.update streams slug (some (.intact epoch position)) = streams := by
      rw [← hstream, Function.update_eq_self]
    simpa [ShardSegment.publishMutations, hsame] using h
  | cons record rest ih =>
    simp only [List.map_cons, List.length_cons, cursorsFrom, List.range'_succ, List.cons.injEq] at hcursors
    have hcursor : (StreamDelivery.mutation revision record.cursor record.mutation).cursor = ⟨epoch, position⟩ :=
      hcursors.1
    have hfirst := h.writeTo hstream hcursor fun handle w hok => SegmentWriter.publishMutation_appends hok
    have hrest := ih hfirst (Function.update_self _ _ _) hcursors.2
    rw [Function.update_idem, Nat.add_assoc, Nat.add_comm 1] at hrest
    exact hrest

theorem Tracks.publishState (h : seg.Tracks streams) (slug : String) (published : PublishedBook) :
    (seg.publishState slug published).Tracks streams :=
  h.same (seg.publishState_same slug published) fun k => by
    cases streams k with
    | none => exact .none
    | some c => exact .some (.refl c)

/-- One stream went on without writing anything. -/
theorem Tracks.move {c c' : MutationContinuity} (h : seg.Tracks streams) (hstream : streams slug = some c)
    (honward : c.Onward c') : seg.Tracks (Function.update streams slug (some c')) := by
  refine h.same (.refl seg) fun k => ?_
  by_cases heq : k = slug
  · rw [heq, hstream, Function.update_self]
    exact .some honward
  · rw [Function.update_of_ne heq]
    cases streams k with
    | none => exact .none
    | some c => exact .some (.refl c)

theorem Tracks.publishCommit {c c' : MutationContinuity} {commit : BookCommit} (h : seg.Tracks streams)
    (hstream : streams slug = some c) (hstep : Step c c' (commit.mutations.map (·.cursor))) (published : PublishedBook) :
    (seg.publishCommit slug commit published).Tracks (Function.update streams slug (some c')) := by
  refine Tracks.publishState ?_ slug published
  generalize hcursors : commit.mutations.map (·.cursor) = cursors at hstep
  cases hstep with
  | emit epoch position n =>
    have hlength : commit.mutations.length = n := by simpa [cursorsFrom] using congrArg List.length hcursors
    rw [← hlength] at hcursors ⊢
    exact h.publishMutations hstream hcursors commit.revision
  | keep | lose | recover =>
    rw [List.map_eq_nil_iff.1 hcursors]
    exact h.move hstream (Step.onward (by constructor))

theorem Tracks.publishResolution {c c' : MutationContinuity} (h : seg.Tracks streams)
    (hstream : streams slug = some c) (hstep : Step c c' [cursor]) (revision : Nat) (resolution : MarketResolution)
    (published : PublishedBook) :
    (seg.publishResolution slug revision cursor resolution published).Tracks
      (Function.update streams slug (some c')) := by
  refine Tracks.publishState ?_ slug published
  generalize hcursors : [cursor] = cursors at hstep
  cases hstep with
  | keep | lose | recover => cases hcursors
  | emit epoch position n =>
    obtain rfl : n = 1 := by simpa [cursorsFrom] using (congrArg List.length hcursors).symm
    obtain rfl : cursor = ⟨epoch, position⟩ := by simpa [cursorsFrom] using hcursors
    exact h.writeTo hstream rfl fun handle w hok => SegmentWriter.publishResolution_appends hok

/-! ## Retiring and installing -/

/-- A market's entry changed, but not its handle. -/
theorem Tracks.entry {entry entry' : SegmentEntry} {live : Nat} (h : seg.Tracks streams)
    (hentry : seg.entries[slug]? = some entry) (hhandle : entry'.handle = entry.handle)
    (hthere : ∀ k, k ≠ slug → streams' k = streams k)
    (hlive : seg.failure = none → ∀ c, streams' slug = some c → entry'.live = true ∧
      ∀ ring, seg.writer.rings[entry.handle]? = some ring → ∀ d ∈ ring.2, c.Past d.cursor)
    (hclosed : seg.failure = none → streams' slug = none →
      ∀ ring, seg.writer.rings[entry.handle]? = some ring → ∀ d ∈ ring.2, d.cursor.epoch ≤ entry'.retiredEpoch) :
    Tracks { seg with entries := seg.entries.insert slug entry', live } streams' := by
  refine ⟨fun k other hother => ?_, h.distinct, h.ordered, fun hnone k c hc => ?_, fun hnone k other hk hother => ?_⟩
  · rw [lookup_insert] at hother
    split at hother
    · rename_i heq
      subst heq
      obtain rfl := Option.some.inj hother
      exact hhandle ▸ h.named k entry hentry
    · exact h.named k other hother
  · show ∃ found, (seg.entries.insert slug entry')[k]? = some found ∧ _
    rw [lookup_insert]
    split
    · rename_i heq
      subst heq
      obtain ⟨hlive', hpast⟩ := hlive hnone c hc
      exact ⟨entry', rfl, hlive', hhandle ▸ hpast⟩
    · rename_i heq
      exact h.live hnone k c ((hthere k heq).symm.trans hc)
  · rw [lookup_insert] at hother
    split at hother
    · rename_i heq
      subst heq
      obtain rfl := Option.some.inj hother
      exact hhandle ▸ hclosed hnone hk
    · rename_i heq
      exact h.closed hnone k other ((hthere k heq).symm.trans hk) hother

theorem Tracks.retire {c : MutationContinuity} (h : seg.Tracks streams)
    (hstream : streams slug = some c) (hepoch : c.epoch ≤ published.continuity.epoch) :
    (seg.retire slug published).Tracks (Function.update streams slug none) := by
  have hpublished := h.publishState slug published
  unfold ShardSegment.retire
  dsimp only
  generalize seg.publishState slug published = seg at hpublished
  -- unless a write was refused the market's entry is there and live
  have hlive (hnone : seg.failure = none) := hpublished.live hnone slug c hstream
  split
  · rename_i entry hentry
    split
    · refine hpublished.entry hentry rfl (fun k hk => Function.update_of_ne hk _ _) (fun _ c' hc' => ?_) ?_
      · simp at hc'
      · intro hnone _ ring hring d hd
        obtain ⟨_, hentry', -, hpast⟩ := hlive hnone
        obtain rfl := Option.some.inj (hentry.symm.trans hentry')
        exact (hpast ring hring d hd).epoch_le.trans hepoch
    · rename_i hdead
      refine hpublished.failed rfl rfl (fun hnone => hdead ?_) _
      obtain ⟨_, hentry', hlive', -⟩ := hlive hnone
      obtain rfl := Option.some.inj (hentry.symm.trans hentry')
      exact hlive'
  · rename_i hentry
    refine hpublished.failed rfl rfl (fun hnone => ?_) _
    obtain ⟨_, hentry', -⟩ := hlive hnone
    simp [hentry] at hentry'

/-- A stream rebased past the closed one is past everything that one wrote. -/
theorem rebasedPast_past {retiredEpoch : Nat} (h : rebasedPast published retiredEpoch = true)
    (hle : cursor.epoch ≤ retiredEpoch) : published.continuity.Past cursor := by
  unfold rebasedPast at h
  cases hc : published.continuity <;> simp only [hc, decide_eq_true_eq] at h
  · exact .inl (hle.trans_lt h)
  · exact hle.trans h

/-- The place found for a market is one whose ring holds nothing its stream is not past. -/
theorem Tracks.placeFor {w : SegmentWriter} {handle : MarketHandle}
    (h : seg.Tracks streams) (live : Nat) (hnone : seg.failure = none) (habsent : streams slug = none)
    (hmarket : marketOfSlug slug = some published.market) (hplace : seg.placeFor slug published = .ok (w, handle)) :
    Tracks { seg with writer := w, entries := seg.entries.insert slug ⟨handle, true, 0⟩, live }
      (Function.update streams slug (some published.continuity)) := by
  unfold ShardSegment.placeFor at hplace
  split at hplace
  · -- the place the market had before
    rename_i entry hentry
    split at hplace
    · rename_i hrebased
      cases hplace
      refine h.entry hentry rfl (fun k hk => Function.update_of_ne hk _ _) (fun _ c hc => ⟨rfl, fun ring hring d hd => ?_⟩)
        fun _ hc => by simp at hc
      obtain rfl : published.continuity = c := by simpa using hc
      exact rebasedPast_past hrebased (h.closed hnone slug entry habsent hentry ring hring d hd)
    · cases hplace
  · -- a new place behind all others
    rename_i hnew
    obtain ⟨hrings, rfl, hfresh⟩ := SegmentWriter.install_rings (mapError_eq_ok.1 hplace)
    have hold {k : String} {other : SegmentEntry} (hother : seg.entries[k]? = some other) :
        w.rings[other.handle]? = seg.writer.rings[other.handle]? := by
      obtain ⟨ring, hring, -⟩ := h.named k other hother
      rw [hrings, List.getElem?_append_left (List.getElem?_eq_some_iff.1 hring).1]
    have hlast : w.rings[seg.writer.rings.length]? = some (published.market, []) := by simp [hrings]
    refine ⟨fun k other hother => ?_, ?_, fun ring hmem => ?_, fun _ k c hc => ?_, fun _ k other hk hother => ?_⟩
    · rw [lookup_insert] at hother
      split at hother
      · rename_i heq
        obtain rfl := Option.some.inj hother
        exact ⟨_, hlast, heq ▸ hmarket⟩
      · obtain ⟨ring, hring, hmarket'⟩ := h.named k other hother
        exact ⟨ring, (hold hother).trans hring, hmarket'⟩
    · show (w.rings.map Prod.fst).Nodup
      rw [hrings, List.map_append, List.nodup_append]
      refine ⟨h.distinct, List.nodup_singleton _, fun a ha b hb heq => hfresh ?_⟩
      rwa [heq, List.mem_singleton.1 hb] at ha
    · have hmem : ring ∈ w.rings := hmem
      rw [hrings, List.mem_append, List.mem_singleton] at hmem
      rcases hmem with hmem | rfl
      · exact h.ordered ring hmem
      · exact .nil
    · show ∃ found, (seg.entries.insert slug _)[k]? = some found ∧ _
      rw [lookup_insert]
      split
      · refine ⟨_, rfl, rfl, fun ring hring d hd => ?_⟩
        obtain rfl := Option.some.inj (hlast.symm.trans hring)
        cases hd
      · rename_i heq
        rw [Function.update_of_ne heq] at hc
        obtain ⟨other, hother, hlive, hpast⟩ := h.live hnone k c hc
        exact ⟨other, hother, hlive, fun ring hring => hpast ring ((hold hother).symm.trans hring)⟩
    · have heq : k ≠ slug := fun heq => by simp [heq] at hk
      rw [Function.update_of_ne heq] at hk
      rw [lookup_insert, if_neg heq] at hother
      exact fun ring hring => h.closed hnone k other hk hother ring ((hold hother).symm.trans hring)

/-- An installed market's stream is tracked from then on, and a refused one changes nothing. -/
theorem Tracks.install (h : seg.Tracks streams) (habsent : streams slug = none)
    (hmarket : marketOfSlug slug = some published.market) :
    match (seg.install slug published).2 with
    | .ok () => (seg.install slug published).1.Tracks (Function.update streams slug (some published.continuity))
    | .error _ => (seg.install slug published).1.Tracks streams := by
  unfold ShardSegment.install
  cases hinstallable : seg.installable slug with
  | error refusal => exact h
  | ok _ =>
    have hnone : seg.failure = none := by
      simp only [ShardSegment.installable, ite_error_eq_ok] at hinstallable
      simpa using hinstallable.2.1
    cases hplace : seg.placeFor slug published with
    | error refusal => exact h
    | ok place =>
      have hplaced := (h.placeFor (saturatingAdd seg.live 1) hnone habsent hmarket hplace).publishState slug published
      dsimp only
      generalize ShardSegment.publishState _ slug published = installed at hplaced ⊢
      cases hfailed : installed.failure with
      | none => exact hplaced
      | some error => exact hplaced.failed rfl rfl (by simp [hfailed]) streams

end ShardSegment

end PmWs
