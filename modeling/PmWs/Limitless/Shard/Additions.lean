import PmWs.Limitless.Shard.Streams

/-!
# Adding markets

Installing a market takes a retired book out, may give it a place in the
segment and publishes its first state before it is known to be accepted. A
retired book always resumes where it was closed, and its first state is always
staged, so an addition that is refused is refused before anything was written.
-/

open MachineInt Tables Runs Fallible

namespace PmWs

/-! ## Publishing a state -/

namespace SegmentWriter

/-- The counters of the segment have room for `n` more state publications. No layout has an empty dirty ring. -/
structure Ready (w : SegmentWriter) (n : Nat) : Prop where
  ring : 0 < w.layout.dirtyCapacity
  generation : w.generation + n ≤ u64Max
  dirty : ∀ slot ∈ w.dirty, slot.sequence + 2 * n ≤ u64Max
  states : ∀ part ∈ w.installed, part.state.sequence + 2 * n ≤ u64Max

variable {w w' : SegmentWriter} {handle : MarketHandle} {book : PublishedBook} {part : InstalledMarket} {n : Nat}

/-- A staged state of the market at the handle is published while the counters have room. -/
theorem publish_ready (hready : w.Ready (n + 1)) (hring : w.dirty.length = w.layout.dirtyCapacity)
    (hpart : w.installed[handle]? = some part) (hmarket : part.market = book.market)
    (hstaged : Abi.Fits w.layout.levelCapacity book) : ∃ w', w.publish handle book = .ok w' ∧ w'.Ready n := by
  have hslot : w.dirtyPosition % w.layout.dirtyCapacity < w.dirty.length := by
    rw [hring]
    exact Nat.mod_lt _ hready.ring
  have hdirty := List.getElem?_eq_getElem hslot
  have hdirtyRoom := hready.dirty _ (List.getElem_mem hslot)
  have hstateRoom := hready.states part (List.mem_of_getElem? hpart)
  have hgenerationRoom := hready.generation
  have hfor : w.partFor handle book.market = .ok part := by simp [partFor, hpart, hmarket]
  obtain ⟨staged, hstage⟩ := Abi.stage_eq_ok.2 hstaged
  have hnext : checkedAdd w.generation 1 = some (w.generation + 1) := checkedAdd_eq_some.2 ⟨by omega, rfl⟩
  refine ⟨{ w with
    installed := w.installed.set handle { part with state := ⟨part.state.sequence + 2, some book⟩ }
    generation := w.generation + 1
    dirty := w.dirty.set (w.dirtyPosition % w.layout.dirtyCapacity)
      ⟨(w.dirty[w.dirtyPosition % w.layout.dirtyCapacity]).sequence + 2, some (handle, book.revision)⟩
    dirtyPosition := (w.dirtyPosition + 1) % 2 ^ 64 }, ?_, hready.ring, ?_, fun slot hmem => ?_, fun other hmem => ?_⟩
  · have hstate := part.state.write_eq book
    have hmarked := (w.dirty[w.dirtyPosition % w.layout.dirtyCapacity]).write_eq (handle, book.revision)
    rw [if_pos (by omega)] at hstate hmarked
    simp only [publish, hfor, hstage, hdirty, orError, hnext, hstate, hmarked, ok_bind]
  · show w.generation + 1 + n ≤ u64Max
    omega
  · rcases List.mem_or_eq_of_mem_set hmem with hold | rfl
    · have hroom := hready.dirty slot hold
      omega
    · dsimp only
      omega
  · rcases List.mem_or_eq_of_mem_set hmem with hold | rfl
    · have hroom := hready.states other hold
      omega
    · dsimp only
      omega

/-- A new market is installed behind the others, with its counter at the start. -/
theorem install_ready {market : MarketRef} (hready : w.Ready n) (hring : w.dirty.length = w.layout.dirtyCapacity)
    (h : w.install market = .ok (w', handle)) :
    w'.Ready n ∧ w'.shape = w.shape ∧ ∃ part, w'.installed[handle]? = some part ∧ part.market = market := by
  simp only [install, ite_error_eq_ok, Except.ok.injEq, Prod.mk.injEq] at h
  obtain ⟨-, -, -, -, rfl, rfl⟩ := h
  -- the dirty ring is not empty, and its counters are not behind the new one
  have hslot : 0 < w.dirty.length := hring ▸ hready.ring
  have hroom := hready.dirty _ (List.getElem_mem hslot)
  refine ⟨⟨hready.ring, hready.generation, hready.dirty, fun part hmem => ?_⟩, rfl, _, List.getElem?_concat_length, rfl⟩
  rcases List.mem_append.1 hmem with hold | hnew
  · exact hready.states part hold
  · obtain rfl := List.mem_singleton.1 hnew
    show 0 + 2 * n ≤ u64Max
    omega

end SegmentWriter

/-! ## The place of a market -/

namespace ShardSegment

/-- No refusal is latched, and the counters have room for `n` more state publications. -/
structure Ready (seg : ShardSegment) (n : Nat) : Prop where
  unlatched : seg.failure = none
  writer : seg.writer.Ready n

/-- The dirty ring has the length of its layout. Every retired book fits its slot, and has a place it was closed at. -/
structure Stores (seg : ShardSegment) (retired : Std.ExtTreeMap String OrderBook) : Prop where
  ring : seg.writer.dirty.length = seg.writer.layout.dirtyCapacity
  staged : seg.failure = none → ∀ (slug : String) book, retired[slug]? = some book →
    Abi.Fits seg.writer.layout.levelCapacity book.publish
  places : seg.failure = none → ∀ (slug : String) book, retired[slug]? = some book →
    ∃ entry, seg.entries[slug]? = some entry ∧ entry.live = false ∧ entry.retiredEpoch ≤ book.continuity.epoch

variable {seg seg' : ShardSegment} {retired retired' : Std.ExtTreeMap String OrderBook} {slug : String}
  {published : PublishedBook} {n : Nat}

theorem Stores.wrote (h : seg.Stores retired) (hwrote : seg.Wrote seg') : seg'.Stores retired := by
  obtain ⟨hlayout, hlength⟩ := Prod.mk.inj hwrote.shape
  refine ⟨by rw [hlength, hlayout, h.ring], fun hnone => ?_, fun hnone => ?_⟩
  · rw [hlayout]
    exact h.staged (hwrote.failure hnone)
  · rw [hwrote.entries]
    exact h.places (hwrote.failure hnone)

/-- Fewer books are stored as well. -/
theorem Stores.fewer (h : seg.Stores retired)
    (hfewer : ∀ (slug : String) book, retired'[slug]? = some book → retired[slug]? = some book) : seg.Stores retired' :=
  ⟨h.ring, fun hnone slug book hbook => h.staged hnone slug book (hfewer slug book hbook),
    fun hnone slug book hbook => h.places hnone slug book (hfewer slug book hbook)⟩

/-- A publication that latched no refusal was staged. -/
theorem publishState_staged (h : (seg.publishState slug published).failure = none) :
    Abi.Fits seg.writer.layout.levelCapacity published := by
  unfold publishState writeTo at h
  split at h
  · rename_i hfailed
    simp [h] at hfailed
  · split at h
    · cases h
    · rename_i handle _
      cases hok : seg.writer.publish handle published with
      | error error => simp [hok, written] at h
      | ok w =>
        simp only [SegmentWriter.publish, bind_eq_ok] at hok
        obtain ⟨_, -, staged, hstaged, -⟩ := hok
        exact Abi.stage_eq_ok.1 ⟨staged, hstaged⟩

/-- A closed market keeps its place, and its book can be published there again. -/
theorem Stores.retire {streams : Streams} {c : MutationContinuity} {book : OrderBook} (h : seg.Stores retired)
    (htracks : seg.Tracks streams) (hstream : streams slug = some c) :
    (seg.retire slug book.publish).Stores (retired.insert slug book) := by
  have hwrote := seg.publishState_wrote slug book.publish
  have hstored := h.wrote hwrote
  have hlive := htracks.publishState slug book.publish
  have hstaged (hnone : (seg.publishState slug book.publish).failure = none) :
      Abi.Fits (seg.publishState slug book.publish).writer.layout.levelCapacity book.publish := by
    rw [(Prod.mk.inj hwrote.shape).1]
    exact publishState_staged hnone
  unfold ShardSegment.retire
  dsimp only
  generalize seg.publishState slug book.publish = seg at hstored hlive hstaged
  -- unless the last state was refused the market's entry is there and live
  have hfound (hnone : seg.failure = none) : ∃ entry, seg.entries[slug]? = some entry ∧ entry.live = true := by
    obtain ⟨entry, hentry, hlive, -⟩ := hlive.live hnone slug c hstream
    exact ⟨entry, hentry, hlive⟩
  have hkeeps (hnone : seg.failure = none) (k : String) (book' : OrderBook) (hk : (retired.insert slug book)[k]? = some book') :
      Abi.Fits seg.writer.layout.levelCapacity book'.publish := by
    rw [lookup_insert] at hk
    split at hk
    · exact Option.some.inj hk ▸ hstaged hnone
    · exact hstored.staged hnone k book' hk
  split
  · rename_i entry hentry
    split
    · refine ⟨hstored.ring, hkeeps, fun hnone k book' hk => ?_⟩
      show ∃ found, (seg.entries.insert slug _)[k]? = some found ∧ _
      rw [lookup_insert] at hk ⊢
      split at hk
      · rename_i heq
        obtain rfl := Option.some.inj hk
        rw [if_pos heq]
        exact ⟨_, rfl, rfl, Nat.le_refl _⟩
      · rename_i heq
        rw [if_neg heq]
        exact hstored.places hnone k book' hk
    · rename_i hdead
      refine ⟨hstored.ring, hkeeps, fun hnone => ?_⟩
      obtain ⟨_, hentry', hlive'⟩ := hfound hnone
      obtain rfl := Option.some.inj (hentry.symm.trans hentry')
      exact absurd hlive' hdead
  · rename_i hentry
    refine ⟨hstored.ring, hkeeps, fun hnone => ?_⟩
    obtain ⟨_, hentry', -⟩ := hfound hnone
    simp [hentry] at hentry'

theorem placeFor_shape {w : SegmentWriter} {handle : MarketHandle} (h : seg.placeFor slug published = .ok (w, handle)) :
    w.shape = seg.writer.shape := by
  unfold placeFor at h
  split at h
  · split at h
    · cases h
      rfl
    · cases h
  · have hinstall := mapError_eq_ok.1 h
    simp only [SegmentWriter.install, ite_error_eq_ok, Except.ok.injEq, Prod.mk.injEq] at hinstall
    obtain ⟨-, -, -, -, rfl, -⟩ := hinstall
    rfl

/-- An installation leaves every other market's book and place alone. -/
theorem Stores.install (h : seg.Stores retired) (slug : String) (published : PublishedBook) :
    (seg.install slug published).1.Stores (retired.erase slug) := by
  have hfewer : seg.Stores (retired.erase slug) := h.fewer fun k book hk => by
    rw [lookup_erase] at hk
    exact (Option.ite_none_left_eq_some.1 hk).2
  unfold ShardSegment.install
  cases seg.installable slug with
  | error refusal => exact hfewer
  | ok _ =>
    cases hplace : seg.placeFor slug published with
    | error refusal => exact hfewer
    | ok place =>
      obtain ⟨w, handle⟩ := place
      obtain ⟨hlayout, hlength⟩ := Prod.mk.inj (placeFor_shape hplace)
      have hplaced : Stores
          { seg with writer := w, entries := seg.entries.insert slug ⟨handle, true, 0⟩, live := saturatingAdd seg.live 1 }
          (retired.erase slug) := by
        refine ⟨by rw [hlength, hlayout, h.ring], fun hnone => ?_, fun hnone k book hk => ?_⟩
        · show ∀ k book, _ → Abi.Fits w.layout.levelCapacity _
          rw [hlayout]
          exact hfewer.staged hnone
        · have hne : k ≠ slug := fun heq => by simp [heq] at hk
          show ∃ entry, (seg.entries.insert slug _)[k]? = some entry ∧ _
          rw [lookup_insert, if_neg hne]
          exact hfewer.places hnone k book hk
      have hpublished := hplaced.wrote (publishState_wrote _ slug published)
      dsimp only
      split
      · exact hpublished
      · exact hpublished

end ShardSegment

namespace Shard

/-- The segment, if there is one, stores the retired books. -/
def Stored (s : Shard) : Prop := ∀ segment, s.segment = some segment → segment.Stores s.retired

variable {s t u : Shard} {slug : String} {n : Nat}

theorem kept_retired (h : t.kept = s.kept) : t.retired = s.retired := congrArg Prod.fst h

theorem Stored.wrote (hs : s.Stored) (hretired : t.retired = s.retired)
    (h : ∀ segment', t.segment = some segment' → ∃ segment, s.segment = some segment ∧ segment.Wrote segment') :
    t.Stored := by
  intro segment' hsegment'
  obtain ⟨segment, hsegment, hwrote⟩ := h segment' hsegment'
  exact hretired ▸ (hs segment hsegment).wrote hwrote

theorem publishSegmentCommit_wrote (s : Shard) (slug : String) (commit : BookCommit) (segment' : ShardSegment)
    (h : (s.publishSegmentCommit slug commit).segment = some segment') :
    ∃ segment, s.segment = some segment ∧ segment.Wrote segment' := by
  unfold publishSegmentCommit at h
  split at h
  · rename_i segment entry hsegment _
    obtain rfl := Option.some.inj h
    exact ⟨segment, hsegment, segment.publishCommit_wrote slug commit _⟩
  · exact ⟨segment', h, .refl _⟩

theorem close_stored (hs : s.Stored) (hstreamed : s.Streamed) (slug : String) : (s.close slug).Stored := by
  cases he : s.markets[slug]? with
  | none =>
    have hsame : s.close slug = s := by simp [Shard.close, he]
    exact hsame.symm ▸ hs
  | some e =>
    intro segment' h
    simp only [Shard.close, he, Option.map_eq_some_iff] at h
    obtain ⟨segment, hsegment, rfl⟩ := h
    have hretired : (s.close slug).retired = s.retired.insert slug e.closedBook := by simp [Shard.close, he, hsegment]
    have hstream : s.streams slug = some e.book.continuity := by simp [streams, he]
    exact hretired ▸ (hs segment hsegment).retire (hstreamed segment hsegment) hstream

theorem install_stored (hs : s.Stored) (slug : String) : (s.install slug).1.Stored := by
  have htaken : Stored { s with retired := s.retired.erase slug } := fun segment hsegment =>
    (hs segment hsegment).fewer fun k book hk => by
      simp only [lookup_erase] at hk
      exact (Option.ite_none_left_eq_some.1 hk).2
  unfold Shard.install
  cases marketOfSlug slug with
  | none => exact hs
  | some market =>
    dsimp only
    cases s.bookFor slug market with
    | error refusal => exact htaken
    | ok book =>
      have hinstalled (segment' : ShardSegment) (h : (installSegment s.segment slug book).1 = some segment') :
          segment'.Stores (s.retired.erase slug) := by
        cases hsegment : s.segment with
        | none => simp [installSegment, hsegment] at h
        | some segment =>
          simp only [installSegment, hsegment, Option.some.injEq] at h
          exact h ▸ (hs segment hsegment).install slug book.publish
      dsimp only
      split
      · exact hinstalled
      · exact hinstalled

theorem Stored.effect (hs : s.Stored) (hstreamed : s.Streamed) {calls : List PoolCall} (h : Effect s calls t) :
    t.Stored := by
  cases h with
  | quiet hquiet => exact hs.wrote (kept_retired hquiet.kept) hquiet.segment
  | commit hfound hstep hstored hothers hsegment hkept hredundancy =>
    refine hs.wrote (kept_retired ((publishSegmentCommit_kept _ _ _).trans hkept)) fun segment' h => ?_
    obtain ⟨segment, hu, hwrote⟩ := publishSegmentCommit_wrote _ _ _ segment' h
    exact ⟨segment, hsegment ▸ hu, hwrote⟩
  | resolution hfound hstep hmarkets hsegment hkept hredundancy =>
    refine hs.wrote (kept_retired hkept) fun segment' h => ?_
    obtain ⟨segment, hfound, rfl⟩ := Option.map_eq_some_iff.1 (hsegment.symm.trans h)
    exact ⟨segment, hfound, segment.publishResolution_wrote _ _ _ _ _⟩
  | close slug => exact close_stored hs hstreamed slug
  | install slug hnamed habsent => exact install_stored hs slug
  | retire slot => exact hs
  | handover index hthere => exact hs

/-! ## Where runs start -/

theorem installAll_stores {segment segment' : ShardSegment} (entries : List (String × MarketEntry))
    (h : segment.Stores ∅) (hinstalled : installAll segment entries = .ok segment') : segment'.Stores ∅ := by
  induction entries generalizing segment with
  | nil => exact Except.ok.inj hinstalled ▸ h
  | cons entry rest ih =>
    unfold installAll at hinstalled
    split at hinstalled
    · rename_i installed heq
      have hfirst := h.install entry.1 entry.2.book.publish
      rw [heq, erase_of_none (by simp)] at hfirst
      exact ih hfirst hinstalled
    · cases hinstalled

/-- A shard without a segment keeps no closed book. -/
def Bare (s : Shard) : Prop := s.segment = none ∧ s.retired = ∅

theorem Bare.effect (hs : s.Bare) {calls : List PoolCall} (h : Effect s calls t) : t.Bare := by
  obtain ⟨hsegment, hretired⟩ := hs
  cases h with
  | quiet hquiet =>
    refine ⟨Option.eq_none_iff_forall_ne_some.2 fun segment' h => ?_, (kept_retired hquiet.kept).trans hretired⟩
    obtain ⟨segment, hfound, -⟩ := hquiet.segment segment' h
    simp [hsegment] at hfound
  | commit hfound hstep hstored hothers hu hkept hredundancy =>
    refine ⟨?_, (kept_retired ((publishSegmentCommit_kept _ _ _).trans hkept)).trans hretired⟩
    simp [publishSegmentCommit, hu, hsegment]
  | resolution hfound hstep hmarkets ht hkept hredundancy =>
    exact ⟨by simp [ht, hsegment], (kept_retired hkept).trans hretired⟩
  | close slug =>
    unfold Bare Shard.close
    split
    · exact ⟨hsegment, hretired⟩
    · exact ⟨by simp [hsegment], by simp [hsegment, hretired]⟩
  | install slug hnamed habsent =>
    have herase : s.retired.erase slug = ∅ := by rw [hretired, erase_of_none (by simp)]
    unfold Bare Shard.install
    cases marketOfSlug slug with
    | none => exact ⟨hsegment, hretired⟩
    | some market =>
      dsimp only
      cases s.bookFor slug market with
      | error refusal => exact ⟨hsegment, herase⟩
      | ok book => exact ⟨by simp [hsegment, installSegment], by simp [hsegment, installSegment, herase]⟩
  | retire slot => exact ⟨hsegment, hretired⟩
  | handover index hthere => exact ⟨hsegment, hretired⟩

theorem new_bare {config : ShardConfig} {order : MarketOrder} (h : Shard.new config order = .ok s) : s.Bare := by
  obtain ⟨levelCapacity, heffects⟩ := new_effects h
  exact heffects.inv (fun _ _ _ hs heffect => Bare.effect hs heffect) ⟨rfl, rfl⟩

theorem Starts.stored (h : Starts s) : s.Stored := by
  cases h with
  | made config order h => exact fun segment hsegment => by simp [(new_bare h).1] at hsegment
  | published config order made layout h hpublished =>
    unfold publishInto at hpublished
    split at hpublished
    · cases hpublished
    · obtain ⟨segment, hinstalled, rfl⟩ := map_eq_ok.1 hpublished
      intro segment' hsegment
      obtain rfl := Option.some.inj hsegment
      show segment.Stores made.retired
      rw [(new_bare h).2]
      refine installAll_stores _ ⟨?_, fun _ _ _ hbook => ?_, fun _ _ _ hbook => ?_⟩ hinstalled
      · simp [ShardSegment.new, SegmentWriter.create]
      · simp at hbook
      · simp at hbook

theorem Reachable.stored (h : Reachable s) : s.Stored := by
  obtain ⟨start, hstart, hrun⟩ := h
  have hall : s.Wired ∧ s.Streamed ∧ s.Stored := by
    refine hrun.inv (I := fun s => s.Wired ∧ s.Streamed ∧ s.Stored) (fun s event t hi _ hstep => ?_)
      ⟨hstart.wired, hstart.streamed, hstart.stored⟩
    refine ⟨hi.1.step hstep, (step_effects hi.1.toOrderly hstep).inv (I := fun s => s.Streamed ∧ s.Stored)
      (fun _ _ _ hi heffect => ⟨hi.1.effect heffect, hi.2.effect hi.1 heffect⟩) hi.2⟩
  exact hall.2.2

end Shard

/-! ## Installing -/

namespace ShardSegment

variable {seg : ShardSegment} {streams : Streams} {slug : String} {published : PublishedBook} {n : Nat}

theorem publishState_ready {entry : SegmentEntry} {part : InstalledMarket} (hready : seg.Ready (n + 1))
    (hring : seg.writer.dirty.length = seg.writer.layout.dirtyCapacity) (hentry : seg.entries[slug]? = some entry)
    (hpart : seg.writer.installed[entry.handle]? = some part) (hmarket : part.market = published.market)
    (hstaged : Abi.Fits seg.writer.layout.levelCapacity published) :
    (seg.publishState slug published).Ready n := by
  obtain ⟨w, hok, hw⟩ := SegmentWriter.publish_ready hready.writer hring hpart hmarket hstaged
  have hwritten : seg.publishState slug published = { seg with writer := w } := by
    simp [publishState, writeTo, handle, hready.unlatched, hentry, hok, written]
  rw [hwritten]
  exact ⟨hready.unlatched, hw⟩

/-- The place found for a market is one the writer gave to it. -/
theorem placeFor_ready {w : SegmentWriter} {handle : MarketHandle} (hready : seg.writer.Ready n)
    (hring : seg.writer.dirty.length = seg.writer.layout.dirtyCapacity) (htracks : seg.Tracks streams)
    (hmarket : marketOfSlug slug = some published.market) (h : seg.placeFor slug published = .ok (w, handle)) :
    w.Ready n ∧ ∃ part, w.installed[handle]? = some part ∧ part.market = published.market := by
  unfold placeFor at h
  split at h
  · rename_i entry hentry
    split at h
    · cases h
      obtain ⟨ring, hfound, hnamed⟩ := htracks.named slug entry hentry
      simp only [SegmentWriter.rings, List.getElem?_map, Option.map_eq_some_iff] at hfound
      obtain ⟨part, hpart, rfl⟩ := hfound
      exact ⟨hready, part, hpart, Option.some.inj (hnamed.symm.trans hmarket)⟩
    · cases h
  · obtain ⟨hw, -, hpart⟩ := SegmentWriter.install_ready hready hring (mapError_eq_ok.1 h)
    exact ⟨hw, hpart⟩

/-- A market is refused before anything is written, or its first state is published. -/
theorem install_settles {retired : Std.ExtTreeMap String OrderBook} (hready : seg.Ready (n + 1))
    (hstores : seg.Stores retired) (htracks : seg.Tracks streams) (hmarket : marketOfSlug slug = some published.market)
    (hstaged : Abi.Fits seg.writer.layout.levelCapacity published) :
    (∃ refusal, seg.install slug published = (seg, .error refusal) ∧
        (seg.installable slug = .error refusal ∨ seg.placeFor slug published = .error refusal)) ∨
      ∃ seg' : ShardSegment, seg.install slug published = (seg', .ok ()) ∧ seg'.Ready n := by
  unfold ShardSegment.install
  cases hinstallable : seg.installable slug with
  | error refusal => exact .inl ⟨refusal, rfl, .inl rfl⟩
  | ok _ =>
    cases hplace : seg.placeFor slug published with
    | error refusal => exact .inl ⟨refusal, rfl, .inr rfl⟩
    | ok place =>
      obtain ⟨w, handle⟩ := place
      obtain ⟨hlayout, hlength⟩ := Prod.mk.inj (placeFor_shape hplace)
      obtain ⟨hw, part, hpart, hnamed⟩ := placeFor_ready hready.writer hstores.ring htracks hmarket hplace
      have hplaced : Ready
          { seg with writer := w, entries := seg.entries.insert slug ⟨handle, true, 0⟩, live := saturatingAdd seg.live 1 }
          (n + 1) := ⟨hready.unlatched, hw⟩
      have hpublished := publishState_ready hplaced (by rw [hlength, hlayout, hstores.ring])
        Std.ExtTreeMap.getElem?_insert_self hpart hnamed (hlayout ▸ hstaged)
      refine .inr ⟨_, ?_, hpublished⟩
      simp only [hpublished.unlatched]

end ShardSegment

namespace Shard

variable {s t u : Shard} {slug : String} {n : Nat}

/-- No refusal is latched, and no counter that `n` additions move overflows. -/
structure Ready (s : Shard) (n : Nat) : Prop where
  segment : ∀ segment, s.segment = some segment → segment.Ready n
  retired : ∀ (slug : String) book, s.retired[slug]? = some book → book.revision < u64Max

theorem Ready.bookFor (h : s.Ready n) (slug : String) (market : MarketRef) : ∃ book, s.bookFor slug market = .ok book := by
  unfold Shard.bookFor
  split
  · rename_i retired hretired
    have hnext : checkedAdd retired.revision 1 = some (retired.revision + 1) :=
      checkedAdd_eq_some.2 ⟨h.retired slug retired hretired, rfl⟩
    unfold resume OrderBook.reportContinuityLoss
    split
    · exact ⟨retired, rfl⟩
    · exact ⟨_, by simp only [hnext, orError]; rfl⟩
  · exact ⟨_, rfl⟩

/-- The book of a market about to be installed fits its slot. -/
theorem bookFor_staged {segment : ShardSegment} {market : MarketRef} {book : OrderBook}
    (hstores : segment.Stores s.retired) (hnone : segment.failure = none) (hb : s.bookFor slug market = .ok book) :
    Abi.Fits segment.writer.layout.levelCapacity book.publish := by
  rcases bookFor_cases hb with ⟨-, rfl⟩ | ⟨retired, changed, hretired, hloss⟩
  · exact ⟨Nat.zero_le _, nofun⟩
  · have hstaged := hstores.staged hnone slug retired hretired
    rcases OrderBook.reportContinuityLoss_ok hloss with ⟨-, rfl, -⟩ | ⟨-, -, rfl⟩
    · exact hstaged
    · exact ⟨hstaged.depth, hstaged.family⟩

/-- A retired book resumes at the place it was closed at. -/
theorem resumed_placed {segment : ShardSegment} {retired book : OrderBook} {changed : Bool}
    (hstores : segment.Stores s.retired) (hnone : segment.failure = none) (hretired : s.retired[slug]? = some retired)
    (hloss : retired.reportContinuityLoss .reconnect .subscriptionLost = .ok (book, changed)) :
    segment.installable slug = .ok () ∧ ∃ place, segment.placeFor slug book.publish = .ok place := by
  obtain ⟨entry, hentry, hclosed, hepoch⟩ := hstores.places hnone slug retired hretired
  refine ⟨by simp [ShardSegment.installable, hentry, hclosed, hnone], (segment.writer, entry.handle), ?_⟩
  have hlost : book.continuity.isLost = true ∧ book.continuity.epoch = retired.continuity.epoch := by
    rcases OrderBook.reportContinuityLoss_ok hloss with ⟨-, rfl, hlost, -⟩ | ⟨-, -, rfl⟩
    · exact ⟨hlost, rfl⟩
    · exact ⟨MutationContinuity.isLost_markLost _ _, MutationContinuity.epoch_markLost _ _⟩
  have hrebased : rebasedPast book.publish entry.retiredEpoch = true := by
    rw [← hlost.2] at hepoch
    cases hc : book.continuity with
    | intact epoch position => simp [hc, MutationContinuity.isLost] at hlost
    | lost epoch reason =>
      rw [hc] at hepoch
      simpa [rebasedPast, OrderBook.publish, hc] using hepoch
  simp [ShardSegment.placeFor, hentry, hrebased]

/-- An installation is refused before anything is written, or leaves the counters of the others their room. -/
theorem install_settles (hready : s.Ready (n + 1)) (hstreamed : s.Streamed) (hstored : s.Stored) (hn : s.Named)
    (slug : String) :
    (∃ refusal, s.install slug = (s, .error refusal)) ∨ (s.install slug).2 = .ok () ∧ (s.install slug).1.Ready n := by
  have hfewer (k : String) (book : OrderBook) (hk : (s.retired.erase slug)[k]? = some book) : book.revision < u64Max := by
    rw [lookup_erase] at hk
    exact hready.retired k book (Option.ite_none_left_eq_some.1 hk).2
  unfold Shard.install
  cases hm : marketOfSlug slug with
  | none => exact .inl ⟨_, rfl⟩
  | some market =>
    obtain ⟨book, hb⟩ := hready.bookFor slug market
    simp only [hb]
    cases hsegment : s.segment with
    | none => exact .inr ⟨rfl, fun segment h => by simp [installSegment] at h, hfewer⟩
    | some segment =>
      have hsegmentReady := hready.segment segment hsegment
      have hstores := hstored segment hsegment
      have hmarket : marketOfSlug slug = some book.publish.market := by
        rw [hm, ← bookFor_market hn hm hb]
        rfl
      have hstaged := bookFor_staged hstores hsegmentReady.unlatched hb
      rcases segment.install_settles hsegmentReady hstores (hstreamed segment hsegment) hmarket hstaged with
        ⟨refusal, hrefused, hwhy⟩ | ⟨segment', hinstalled, hready'⟩
      · -- a retired book would have resumed, so there was none to take out
        have hnone : s.retired[slug]? = none := by
          rcases bookFor_cases hb with ⟨hnone, -⟩ | ⟨retired, changed, hretired, hloss⟩
          · exact hnone
          · obtain ⟨hinstallable, place, hplace⟩ := resumed_placed hstores hsegmentReady.unlatched hretired hloss
            rcases hwhy with hwhy | hwhy
            · simp [hinstallable] at hwhy
            · simp [hplace] at hwhy
        refine .inl ⟨.ofSegment refusal, ?_⟩
        simp only [installSegment, hrefused, Except.mapError, erase_of_none hnone]
        rw [← hsegment]
      · refine .inr ?_
        simp only [installSegment, hinstalled, Except.mapError]
        exact ⟨trivial, fun segment h => Option.some.inj h ▸ hready', hfewer⟩

/-! ## Additions -/

/-- What the additions of a batch are made from: the shard is in order, and has room for `n` more. -/
structure Addable (s : Shard) (n : Nat) : Prop where
  counted : s.Counted
  named : s.Named
  streamed : s.Streamed
  stored : s.Stored
  ready : s.Ready n

theorem Ready.mono {m : Nat} (h : s.Ready n) (hle : m ≤ n) : s.Ready m where
  segment segment hsegment := by
    obtain ⟨hunlatched, hring, hgeneration, hdirty, hstates⟩ := h.segment segment hsegment
    refine ⟨hunlatched, hring, by omega, fun slot hslot => ?_, fun part hpart => ?_⟩
    · have hroom := hdirty slot hslot
      omega
    · have hroom := hstates part hpart
      omega
  retired := h.retired

/-- What one addition comes to, beside what it does to the set. -/
inductive Adds (s : Shard) (slug : String) : Shard × MarketStatus → Prop
  | wanted (e : MarketEntry) (found : s.markets[slug]? = some e) (desired : e.desired = true) : Adds s slug (s, e.status)
  | refused (rejection : MarketRejection) : Adds s slug (s, .rejected rejection)
  | accepted (u : Shard) (installed : (u.install slug).2 = .ok ()) : Adds s slug ((u.install slug).1, .accepted)

/-- A removed market that still waits is installed anew only where there is no segment, and then is never refused. -/
theorem addMarket_adds (h : s.Addable (n + 1)) (slug : String) :
    Adds s slug (s.addMarket slug) ∧ (s.addMarket slug).1.Ready n := by
  have hkept := h.ready.mono (Nat.le_succ n)
  unfold addMarket
  dsimp only
  cases he : s.markets[slug]? with
  | some e =>
    dsimp only
    split
    · rename_i hdesired
      exact ⟨.wanted e he hdesired, hkept⟩
    · split
      · exact ⟨.refused _, hkept⟩
      · cases hinstallable : s.installable slug with
        | error refusal => exact ⟨.refused _, hkept⟩
        | ok _ =>
          have hunsegmented : s.segment = none := by
            refine Option.eq_none_iff_forall_ne_some.2 fun segment hsegment => ?_
            obtain ⟨entry, hentry, hlive, -⟩ := (h.streamed segment hsegment).live
              (h.ready.segment segment hsegment).unlatched slug e.book.continuity (by simp [streams, he])
            simp [Shard.installable, hsegment, ShardSegment.installable, hentry, hlive, Except.mapError] at hinstallable
          have hclosed : (s.close slug).segment = none ∧ (s.close slug).retired = s.retired := by
            simp [Shard.close, he, hunsegmented]
          have hready : (s.close slug).Ready (n + 1) :=
            ⟨fun segment hsegment => by simp [hclosed.1] at hsegment, hclosed.2.symm ▸ h.ready.retired⟩
          rcases install_settles hready (close_streamed h.streamed slug) (close_stored h.stored h.streamed slug)
            ((s.close_idle slug).named h.named) slug with ⟨refusal, hrefused⟩ | ⟨hok, hready'⟩
          · -- the slug named a market before, and without a segment nothing else refuses
            obtain ⟨book, hb⟩ := hready.bookFor slug e.market
            simp [Shard.install, (h.named.entries slug e he).1, hb, hclosed.1, installSegment] at hrefused
          · dsimp only
            rw [hok]
            exact ⟨.accepted _ hok, hready'⟩
  | none =>
    dsimp only
    split
    · exact ⟨.refused _, hkept⟩
    · rcases install_settles h.ready h.streamed h.stored h.named slug with ⟨refusal, hrefused⟩ | ⟨hok, hready⟩
      · rw [hrefused]
        exact ⟨.refused _, hkept⟩
      · rw [hok]
        exact ⟨.accepted s hok, hready⟩

theorem addMarket_addable (h : s.Addable (n + 1)) (slug : String) : (s.addMarket slug).1.Addable n where
  counted := (addMarket_spec h.counted slug).counted
  named := (addMarket_spec h.counted slug).changes.idle.named h.named
  streamed := h.streamed.effects (addMarket_effects h.named slug)
  stored := ((addMarket_effects h.named slug).inv (I := fun s => s.Streamed ∧ s.Stored)
    (fun _ _ _ hi heffect => ⟨hi.1.effect heffect, hi.2.effect hi.1 heffect⟩) ⟨h.streamed, h.stored⟩).2
  ready := (addMarket_adds h slug).2

theorem eachMarket_addable (slugs : List String) (h : s.Addable (slugs.length + n)) :
    (s.eachMarket addMarket slugs).1.Addable n := by
  induction slugs generalizing s with
  | nil => simpa [eachMarket] using h
  | cons slug rest ih =>
    refine ih (addMarket_addable ?_ slug)
    rwa [List.length_cons, Nat.add_right_comm] at h

/-- A batch is its first part and then the rest of it. -/
theorem eachMarket_append (command : Shard → String → Shard × MarketStatus) (s : Shard) (before rest : List String) :
    s.eachMarket command (before ++ rest) =
      (((s.eachMarket command before).1.eachMarket command rest).1,
        (s.eachMarket command before).2 ++ ((s.eachMarket command before).1.eachMarket command rest).2) := by
  induction before generalizing s with
  | nil => rfl
  | cons slug before ih => simp [eachMarket, ih]

theorem eachMarket_length (command : Shard → String → Shard × MarketStatus) (s : Shard) (slugs : List String) :
    (s.eachMarket command slugs).2.length = slugs.length := by
  induction slugs generalizing s with
  | nil => rfl
  | cons slug rest ih => simp [eachMarket, ih]

/-- An installed market has a new entry, and its book is not live. -/
theorem installed_entry (h : (s.install slug).2 = .ok ()) : ∃ market book version,
    (s.install slug).1.markets[slug]? = some (.installed market book version) ∧ book.authority ≠ .live := by
  have hcases := s.install_cases slug
  rw [h] at hcases
  cases hcases with
  | installed market book segment hnamed hfound hresult =>
    rw [hresult]
    exact ⟨market, book, _, Std.ExtTreeMap.getElem?_insert_self, bookFor_authority hfound⟩

/-- **A refused addition changes nothing.** Each slug of a batch is answered in its place. One that is refused, and one
that is already wanted, leaves the shard as the ones before it left it. One that is accepted gets a new entry whose book
is not live, and no more markets are wanted than the shard may have. -/
theorem refused_addition_changes_nothing (h : Reachable s) (before : List String) (slug : String) (rest : List String)
    (hready : s.Ready (before ++ slug :: rest).length) :
    ∃ u t status, (s.eachMarket addMarket before).1 = u ∧ (s.eachMarket addMarket (before ++ [slug])).1 = t ∧
      (s.addMarkets (before ++ slug :: rest)).2[before.length]? = some ⟨slug, status⟩ ∧
      (status.isRejected = true → t = u) ∧
      (∀ e, u.markets[slug]? = some e → e.desired = true → status = e.status ∧ t = u) ∧
      (status = .accepted → u.wants slug = false ∧ ∃ market book version,
        t.markets[slug]? = some (.installed market book version) ∧ book.authority ≠ .live) ∧
      t.desiredCount ≤ t.config.maxMarkets := by
  have hwired := h.wired
  have hlength : (before ++ slug :: rest).length = before.length + (rest.length + 1) := by simp
  have haddable := eachMarket_addable before
    ⟨hwired.counted, hwired.named, h.streamed, h.stored, hlength ▸ hready⟩
  refine ⟨_, _, ((s.eachMarket addMarket before).1.addMarket slug).2, rfl, rfl, ?_, ?_⟩
  · simp [addMarkets, eachMarket_append, eachMarket_length, eachMarket]
  · have hlast : (s.eachMarket addMarket (before ++ [slug])).1 = ((s.eachMarket addMarket before).1.addMarket slug).1 := by
      simp [eachMarket_append, eachMarket]
    rw [hlast]
    generalize (s.eachMarket addMarket before).1 = u at haddable
    obtain ⟨hadds, -⟩ := addMarket_adds haddable slug
    have hspec := addMarket_spec haddable.counted slug
    refine ⟨?_, fun e he hdesired => by simp [addMarket, he, hdesired], fun haccepted => ⟨(hspec.accepted.1 haccepted).1, ?_⟩,
      hspec.counted.bounded⟩
    · generalize u.addMarket slug = result at hadds
      cases hadds with
      | wanted e hfound hdesired => exact fun _ => rfl
      | refused rejection => exact fun _ => rfl
      | accepted v hinstalled => exact fun hrejected => by cases hrejected
    · generalize u.addMarket slug = result at hadds haccepted
      cases hadds with
      | wanted e hfound hdesired => exact absurd haccepted (MarketEntry.status_desired hdesired).2
      | refused rejection => cases haccepted
      | accepted v hinstalled => exact installed_entry hinstalled

/-- A market is closed, and a batch then names one that is wanted, no market at all, and the closed one. -/
def exampleClosed : Shard :=
  exampleSegmented.after [.spawn .primary, exampleReady 1, exampleFrame 1 "btc-up" "1" 10, .removeMarkets ["btc-up"],
    .reconcile .primary fun _ => exampleLook] (by decide)

theorem exampleClosed_ready : exampleClosed.Ready 3 where
  segment segment hsegment := by
    obtain rfl : exampleClosed.segment.get (by decide) = segment := by simp [hsegment]
    exact ⟨by decide, by decide, by decide, by decide, by decide⟩
  retired slug book hbook := by
    have hall : ∀ entry ∈ exampleClosed.retired.toList, entry.2.revision < u64Max := by decide
    exact hall (slug, book) (Std.ExtTreeMap.mem_toList_iff_getElem?_eq_some.2 hbook)

theorem refused_addition_changes_nothing_example :
    (exampleClosed.addMarkets ["eth-up", "", "btc-up"]).2 =
        [⟨"eth-up", .reconciling⟩, ⟨"", .rejected .invalidIdentifier⟩, ⟨"btc-up", .accepted⟩] ∧
      (exampleClosed.eachMarket addMarket ["eth-up", ""]).1 = (exampleClosed.eachMarket addMarket ["eth-up"]).1 := by
  have houtcomes : (exampleClosed.addMarkets ["eth-up", "", "btc-up"]).2 =
      [⟨"eth-up", .reconciling⟩, ⟨"", .rejected .invalidIdentifier⟩, ⟨"btc-up", .accepted⟩] := by decide
  have hreachable : Reachable exampleClosed := exampleSegmented_starts.after _ _
  obtain ⟨u, t, status, rfl, rfl, houtcome, hrefused, -⟩ :=
    refused_addition_changes_nothing hreachable ["eth-up"] "" ["btc-up"] exampleClosed_ready
  refine ⟨houtcomes, hrefused ?_⟩
  have hstatus : status = .rejected .invalidIdentifier := by simpa [houtcomes, eq_comm] using houtcome
  rw [hstatus]
  rfl

end Shard

end PmWs
