import PmWs.Limitless.Shard.Effects

/-!
# Stream cursors along the runs of a shard

A market that is removed and added again gets a new entry but the ring it had.
What was written into that ring stays behind the market's stream through losses,
closings, resumptions and recoveries, so no cursor is ever written twice.
-/

open MachineInt Tables Runs

namespace PmWs

theorem MarketEntry.closedBook_continuity (e : MarketEntry) : e.closedBook.continuity = e.book.continuity := by
  unfold closedBook
  split
  · rename_i hok
    exact OrderBook.unsubscribe_stream hok
  · rfl

namespace Shard

/-- The segment, if there is one, tracks the streams. -/
def Streamed (s : Shard) : Prop := ∀ segment, s.segment = some segment → segment.Tracks s.streams

variable {s t u : Shard} {slot : Slot} {slug : String} {e e' : MarketEntry}

theorem Streamed.flows (hs : s.Streamed) (h : Flows s t) : t.Streamed := by
  intro segment' hsegment'
  obtain ⟨segment, hsegment, hsame⟩ := h.segment segment' hsegment'
  exact (hs segment hsegment).same hsame h.streams

/-- One market's stream moved and the segment was written accordingly. -/
theorem streams_of_touched (hstored : t.markets[slug]? = some e') (hothers : ∀ k, k ≠ slug → t.markets[k]? = s.markets[k]?) :
    t.streams = Function.update s.streams slug (some e'.book.continuity) := by
  funext k
  by_cases heq : k = slug
  · simp [streams, heq, hstored]
  · simp [streams, heq, hothers k heq]

theorem streams_of_insert (h : t.markets = s.markets.insert slug e') :
    t.streams = Function.update s.streams slug (some e'.book.continuity) := by
  funext k
  simp only [streams, h, lookup_insert, Function.update_apply]
  split <;> rfl

/-! ## Writing, closing and installing -/

theorem publishSegmentCommit_streamed {commit : BookCommit} (hs : s.Streamed) (he : s.markets[slug]? = some e)
    (hstep : MutationContinuity.Step e.book.continuity e'.book.continuity (commit.mutations.map (·.cursor)))
    (hstored : u.markets[slug]? = some e') (hothers : ∀ k, k ≠ slug → u.markets[k]? = s.markets[k]?)
    (hsegment : u.segment = s.segment) : (u.publishSegmentCommit slug commit).Streamed := by
  unfold publishSegmentCommit
  rw [hsegment, hstored]
  cases hfound : s.segment with
  | none => exact fun segment h => by simp [hsegment, hfound] at h
  | some segment =>
    intro segment' h
    obtain rfl := Option.some.inj h
    have hstreams : u.streams = Function.update s.streams slug (some e'.book.continuity) :=
      streams_of_touched hstored hothers
    exact hstreams ▸ (hs segment hfound).publishCommit (by simp [streams, he]) hstep e'.book.publish

/-- A resolution takes one position of the stream it found. -/
theorem publishResolution_streamed {cursor : MutationCursor} {revision : Nat} {resolution : MarketResolution}
    {published : PublishedBook} (hs : s.Streamed) (he : s.markets[slug]? = some e)
    (hstep : MutationContinuity.Step e.book.continuity e'.book.continuity [cursor])
    (hmarkets : t.markets = s.markets.insert slug e')
    (hsegment : t.segment = s.segment.map (·.publishResolution slug revision cursor resolution published)) :
    t.Streamed := by
  intro segment' h
  obtain ⟨segment, hfound, rfl⟩ := Option.map_eq_some_iff.1 (hsegment.symm.trans h)
  exact (streams_of_insert hmarkets).symm ▸ (hs segment hfound).publishResolution (by simp [streams, he]) hstep _ _ _

theorem close_streamed (hs : s.Streamed) (slug : String) : (s.close slug).Streamed := by
  have hstreams : (s.close slug).streams = Function.update s.streams slug none := by
    funext k
    simp only [streams, close_markets, Function.update_apply]
    split <;> rfl
  cases he : s.markets[slug]? with
  | none =>
    have hsame : s.close slug = s := by simp [Shard.close, he]
    exact hsame.symm ▸ hs
  | some e =>
    intro segment' h
    simp only [Shard.close, he, Option.map_eq_some_iff] at h
    obtain ⟨segment, hsegment, rfl⟩ := h
    have hstream : s.streams slug = some e.book.continuity := by simp [streams, he]
    refine hstreams ▸ (hs segment hsegment).retire hstream ?_
    exact Nat.le_of_eq (congrArg MutationContinuity.epoch e.closedBook_continuity).symm

theorem installed_streamed {segment : ShardSegment}
    (htracks : segment.Tracks (Function.update s.streams slug (some e.book.continuity)))
    (hmarkets : t.markets = s.markets.insert slug e) (hsegment : t.segment = some segment) : t.Streamed := by
  intro segment' h
  obtain rfl := Option.some.inj (hsegment.symm.trans h)
  exact (streams_of_insert hmarkets).symm ▸ htracks

/-- A market gets the place its stream is rebased past, or one of its own. -/
theorem install_streamed (hs : s.Streamed) (hn : s.Named) (habsent : s.markets[slug]? = none) :
    (s.install slug).1.Streamed := by
  have htaken : Streamed { s with retired := s.retired.erase slug } := hs
  unfold Shard.install
  cases hm : marketOfSlug slug with
  | none => exact hs
  | some market =>
    dsimp only
    cases hb : s.bookFor slug market with
    | error refusal => exact htaken
    | ok book =>
      dsimp only
      cases hsegment : s.segment with
      | none => exact fun segment h => by simp [installSegment] at h
      | some segment =>
        have hmarket : marketOfSlug slug = some book.publish.market := by
          rw [hm, ← bookFor_market hn hm hb]
          rfl
        have hinstalled := (hs segment hsegment).install (by simp [streams, habsent]) hmarket
        unfold installSegment
        dsimp only
        cases hresult : (segment.install slug book.publish).2 with
        | error refusal =>
          rw [hresult] at hinstalled
          exact fun segment' h => Option.some.inj h ▸ hinstalled
        | ok _ =>
          rw [hresult] at hinstalled
          exact installed_streamed hinstalled rfl rfl

/-! ## Effects -/

theorem retirePoolSocket_flows (s : Shard) (slot : Slot) : Flows s (s.retirePoolSocket slot) :=
  .of_related (.map fun _ _ _ => .of_book rfl) rfl

theorem moveHistory_flows (s : Shard) (source : Nat) : Flows s (s.moveHistory source) :=
  .of_related (.map fun _ _ _ => .of_book rfl) rfl

theorem Streamed.effect (hs : s.Streamed) {calls : List PoolCall} (h : Effect s calls t) : t.Streamed := by
  cases h with
  | quiet hquiet => exact hs.flows hquiet.flows
  | commit hfound hstep hstored hothers hsegment hkept hredundancy =>
    exact publishSegmentCommit_streamed hs hfound hstep hstored hothers hsegment
  | resolution hfound hstep hmarkets hsegment hkept hredundancy =>
    exact publishResolution_streamed hs hfound hstep hmarkets hsegment
  | close slug => exact close_streamed hs slug
  | install slug hnamed habsent => exact install_streamed hs hnamed habsent
  | retire slot => exact hs.flows (s.retirePoolSocket_flows slot)
  | handover index hthere => exact hs.flows (s.moveHistory_flows (index + 1))

theorem Streamed.effects (hs : s.Streamed) {calls : List PoolCall} (h : Effects s calls t) : t.Streamed :=
  h.inv (fun _ _ _ hs heffect => hs.effect heffect) hs

/-! ## Where runs start -/

theorem new_streamed {config : ShardConfig} {order : MarketOrder} (h : Shard.new config order = .ok s) : s.Streamed := by
  obtain ⟨levelCapacity, heffects⟩ := new_effects h
  exact Streamed.effects (fun _ h => by simp [empty] at h) heffects

theorem new_tracks (layout : SegmentLayout) : (ShardSegment.new (.create layout)).Tracks fun _ => none where
  named _ _ h := by simp [ShardSegment.new] at h
  distinct := .nil
  ordered _ h := by cases h
  live _ _ _ h := by cases h
  closed _ _ _ _ h := by simp [ShardSegment.new] at h

/-- Installing markets one after the other makes the segment track each of them. -/
theorem installAll_tracks {segment segment' : ShardSegment} {streams : Streams} (entries : List (String × MarketEntry))
    (htracks : segment.Tracks streams) (hnodup : (entries.map Prod.fst).Nodup)
    (habsent : ∀ entry ∈ entries, streams entry.1 = none)
    (hnamed : ∀ entry ∈ entries, marketOfSlug entry.1 = some entry.2.book.market)
    (h : installAll segment entries = .ok segment') :
    ∃ streams', segment'.Tracks streams' ∧ (∀ entry ∈ entries, streams' entry.1 = some entry.2.book.continuity) ∧
      ∀ k, k ∉ entries.map Prod.fst → streams' k = streams k := by
  induction entries generalizing segment streams with
  | nil => exact ⟨streams, Except.ok.inj h ▸ htracks, by simp, fun _ _ => rfl⟩
  | cons entry rest ih =>
    obtain ⟨hout, hnodup⟩ := List.nodup_cons.1 hnodup
    have hmarket : marketOfSlug entry.1 = some entry.2.book.publish.market := hnamed entry List.mem_cons_self
    have hinstalled := htracks.install (habsent entry List.mem_cons_self) hmarket
    unfold installAll at h
    split at h
    · rename_i installed heq
      rw [heq] at hinstalled
      obtain ⟨streams', htracks', hrest, hothers⟩ := ih hinstalled hnodup
        (fun other hother => by
          have hne : other.1 ≠ entry.1 := fun heq => hout (heq ▸ List.mem_map_of_mem hother)
          exact (Function.update_of_ne hne _ _).trans (habsent other (List.mem_cons_of_mem _ hother)))
        (fun other hother => hnamed other (List.mem_cons_of_mem _ hother)) h
      refine ⟨streams', htracks', fun other hother => ?_, fun k hk => ?_⟩
      · rcases List.mem_cons.1 hother with rfl | hother
        · rw [hothers _ hout, Function.update_self]
          rfl
        · exact hrest other hother
      · simp only [List.map_cons, List.mem_cons, not_or] at hk
        rw [hothers k hk.2, Function.update_of_ne hk.1]
    · cases h

theorem publishInto_streamed {layout : SegmentLayout} (hn : s.Named)
    (h : s.publishInto (.new (.create layout)) = .ok t) : t.Streamed := by
  unfold publishInto at h
  split at h
  · cases h
  · obtain ⟨segment, hinstalled, rfl⟩ := Fallible.map_eq_ok.1 h
    have hentry (entry : String × MarketEntry) : entry ∈ s.markets.toList ↔ s.markets[entry.1]? = some entry.2 :=
      Std.ExtTreeMap.mem_toList_iff_getElem?_eq_some
    obtain ⟨streams, htracks, hthere, hothers⟩ := installAll_tracks s.markets.toList (new_tracks layout)
      (by rw [Std.ExtTreeMap.map_fst_toList_eq_keys]; exact Std.ExtTreeMap.nodup_keys) (fun _ _ => rfl)
      (fun entry hmem => by
        obtain ⟨hslug, hbook⟩ := hn.entries entry.1 entry.2 ((hentry entry).1 hmem)
        rw [hslug, hbook]) hinstalled
    intro segment' h
    obtain rfl := Option.some.inj h
    have hstreams : streams = s.streams := by
      funext k
      cases he : s.markets[k]? with
      | some e => simpa [Shard.streams, he] using hthere (k, e) ((hentry (k, e)).2 he)
      | none =>
        rw [hothers k (by simpa [Std.ExtTreeMap.map_fst_toList_eq_keys, Std.ExtTreeMap.mem_keys] using he)]
        simp [Shard.streams, he]
    exact hstreams ▸ htracks

theorem Starts.streamed (h : Starts s) : s.Streamed := by
  cases h with
  | made config order h => exact new_streamed h
  | published config order made layout h hpublished => exact publishInto_streamed (Starts.made config order h).wired.named hpublished

theorem Reachable.streamed (h : Reachable s) : s.Streamed := by
  obtain ⟨start, hstart, hrun⟩ := h
  have hboth : s.Wired ∧ s.Streamed :=
    hrun.inv (I := fun s => s.Wired ∧ s.Streamed)
      (fun _ _ _ hi _ hstep => ⟨hi.1.step hstep, hi.2.effects (step_effects hi.1.toOrderly hstep)⟩) ⟨hstart.wired, hstart.streamed⟩
  exact hboth.2

/-- **No stream cursor is ever reused.** Every market has one ring in the segment, and over the segment's whole life,
through all the market's incarnations, the cursors written into it only rise. -/
theorem stream_cursors_never_reused (h : Reachable s) {segment : ShardSegment} (hsegment : s.segment = some segment) :
    (segment.writer.installed.map (·.market)).Nodup ∧
      ∀ part ∈ segment.writer.installed, (part.written.map (·.cursor)).Pairwise MutationCursor.Before := by
  have htracks := h.streamed segment hsegment
  refine ⟨by simpa [SegmentWriter.rings, Function.comp_def] using htracks.distinct, fun part hmem => ?_⟩
  exact htracks.ordered (part.market, part.written) (List.mem_map_of_mem hmem)

/-- A shard of two markets publishing into a segment with rings of four events. -/
def exampleSegmented : Shard := (exampleSingle.publishInto (.new (.create ⟨4, 4, 8, 4, 8⟩))).toOption.get (by decide)

theorem exampleSegmented_starts : Starts exampleSegmented :=
  .published (exampleConfig 1 .dedupOnly) exampleOrder exampleSingle ⟨4, 4, 8, 4, 8⟩ (by rfl) (by rfl)

/-- A market is fed, removed, closed with its connection, added again and fed by the next one. -/
def exampleResumed : Shard :=
  exampleSegmented.after [.spawn .primary, exampleReady 1, exampleFrame 1 "btc-up" "1" 10,
    exampleFrame 1 "btc-up" "2" 20, .removeMarkets ["btc-up"], .reconcile .primary fun _ => exampleLook,
    .addMarkets ["btc-up"], .spawn .primary, exampleReady 2, exampleFrame 2 "btc-up" "3" 30,
    exampleFrame 2 "btc-up" "4" 40] (by decide)

theorem stream_cursors_never_reused_example :
    ∃ segment part, exampleResumed.segment = some segment ∧ part ∈ segment.writer.installed ∧
      part.written.map (·.cursor) = [⟨0, 0⟩, ⟨1, 0⟩] ∧ (part.written.map (·.cursor)).Pairwise MutationCursor.Before := by
  have hsegment : exampleResumed.segment = some (exampleResumed.segment.get (by decide)) := (Option.some_get _).symm
  have hpart := List.mem_of_getElem? (i := 0)
    (a := ((exampleResumed.segment.get (by decide)).writer.installed[0]?).get (by decide)) (Option.some_get _).symm
  exact ⟨_, _, hsegment, hpart, by decide,
    (stream_cursors_never_reused (exampleSegmented_starts.after _ _) hsegment).2 _ hpart⟩

end Shard

end PmWs
