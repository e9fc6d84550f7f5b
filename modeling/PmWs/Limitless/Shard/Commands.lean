import Mathlib.Logic.Relation
import PmWs.Limitless.Shard.Steps

/-!
# Adding and removing markets

What the commands do to the set of wanted markets, with the count the shard
keeps of it and the queue of the ones that wait to be closed.
-/

open MachineInt Tables

namespace PmWs

namespace Shard

/-! ## The set -/

/-- The market is in the shard's desired set. -/
def wants (self : Shard) (slug : String) : Bool := self.markets[slug]?.any (·.desired)

/-- What waits to be closed, apart from `but`, are the markets that are there and not wanted. -/
structure QueuedBut (but : Option String) (s : Shard) : Prop where
  mem : ∀ slug, some slug ≠ but → (slug ∈ s.removing ↔ ∃ e, s.markets[slug]? = some e ∧ e.desired = false)
  nodup : s.removing.Nodup

/-- The queue lists exactly the markets that are there and not wanted, each once. -/
abbrev Queued (s : Shard) : Prop := s.QueuedBut none

/-- The count is the number of wanted markets, which the capacity bounds, and the queue is exact. -/
structure Counted (s : Shard) : Prop where
  count : s.desiredCount = (keysWhere (·.desired) s.markets).card
  bounded : s.desiredCount ≤ s.config.maxMarkets
  capacity : s.config.maxMarkets ≤ maxShardMarkets
  queued : s.Queued
  waiting : s.removing.length ≤ maxRemovingMarkets

structure SameSet (s t : Shard) : Prop where
  count : t.desiredCount = s.desiredCount
  wants : ∀ slug, t.wants slug = s.wants slug
  queued : s.Queued → t.Queued
  waiting : t.removing.length ≤ s.removing.length

variable {a b c s t u : Shard} {slug : String} {result : Except InstallRefusal Unit} {book : OrderBook}
  {market : MarketRef}

theorem SameSet.refl (s : Shard) : SameSet s s := ⟨rfl, fun _ => rfl, id, Nat.le_refl _⟩

theorem SameSet.trans (h₁ : SameSet a b) (h₂ : SameSet b c) : SameSet a c :=
  ⟨h₂.count.trans h₁.count, fun slug => (h₂.wants slug).trans (h₁.wants slug), fun h => h₂.queued (h₁.queued h),
    h₂.waiting.trans h₁.waiting⟩

/-- The table of markets with what of each entry the set depends on. -/
def SameDesired (e e' : MarketEntry) : Prop := e'.desired = e.desired

/-- Entries that stay wanted or unwanted leave the set as it was. -/
theorem SameSet.of_related (hcount : t.desiredCount = s.desiredCount) (hremoving : t.removing = s.removing)
    (hentries : Related SameDesired s.markets t.markets) : SameSet s t where
  count := hcount
  wants slug := by
    unfold Shard.wants
    have h := hentries slug
    revert h
    cases s.markets[slug]? <;> cases t.markets[slug]? <;> simp [SameDesired]
  queued h := by
    refine ⟨fun slug hslug => ?_, hremoving ▸ h.nodup⟩
    rw [hremoving, h.mem slug hslug]
    constructor
    · rintro ⟨e, he, hd⟩
      obtain ⟨e', he', heq⟩ := hentries.to_some he
      exact ⟨e', he', heq.trans hd⟩
    · rintro ⟨e', he', hd⟩
      obtain ⟨e, he, heq⟩ := hentries.of_some he'
      exact ⟨e, he, heq.symm.trans hd⟩
  waiting := hremoving ▸ Nat.le_refl _

theorem Plain.sameSet (h : Plain s t) : SameSet s t :=
  .of_related h.count h.removing (h.entries.mono fun hp => hp.desired)

theorem Counted.sameSet (h : s.Counted) (hs : SameSet s t) (hconfig : t.config = s.config) : t.Counted where
  count := by rw [hs.count, h.count, keysWhere_congr hs.wants]
  bounded := by rw [hs.count, hconfig]; exact h.bounded
  capacity := by rw [hconfig]; exact h.capacity
  queued := hs.queued h.queued
  waiting := hs.waiting.trans h.waiting

/-! ## Closing -/

theorem close_idle (s : Shard) (slug : String) : Idle s (s.close slug) := by
  unfold close
  split
  · exact .refl s
  · rename_i e he
    refine .of_entries rfl (by simp) rfl (.refl s) id (fun k e' he' => ?_)
      fun hn => ⟨fun k e' he' => ?_, fun k book hk => ?_⟩
    · simp only [lookup_erase, Option.ite_none_left_eq_some] at he'
      exact .inl ⟨e', he'.2, .refl e'⟩
    · simp only [lookup_erase, Option.ite_none_left_eq_some] at he'
      exact hn.entries k e' he'.2
    · -- the closed book is kept under its own slug
      dsimp only at hk
      split at hk
      · rw [lookup_insert] at hk
        split at hk
        · rename_i heq
          subst heq
          obtain ⟨hslug, hmarket⟩ := hn.entries k e he
          rw [hslug, ← Option.some.inj hk, e.closedBook_holds.market, hmarket]
        · exact hn.retired k book hk
      · exact hn.retired k book hk

theorem close_markets (s : Shard) (slug k : String) :
    (s.close slug).markets[k]? = if k = slug then none else s.markets[k]? := by
  unfold close
  split
  · rename_i hnone
    split
    · rename_i heq
      rw [heq, hnone]
    · rfl
  · exact lookup_erase _ _ _

theorem close_wants (s : Shard) (slug k : String) : (s.close slug).wants k = (s.wants k && k != slug) := by
  unfold wants
  rw [close_markets]
  by_cases h : k = slug <;> simp [h]

theorem close_removing {e : MarketEntry} (he : s.markets[slug]? = some e) :
    (s.close slug).removing = s.removing.filter (· ≠ slug) := by
  simp [close, he]

theorem QueuedBut.close (h : s.QueuedBut (some slug)) (hres : s.markets[slug]? ≠ none) : (s.close slug).Queued := by
  obtain ⟨e, he⟩ := Option.ne_none_iff_exists'.1 hres
  refine ⟨fun k _ => ?_, ?_⟩
  · rw [close_removing he, close_markets, List.mem_filter]
    by_cases heq : k = slug
    · simp [heq]
    · simpa [heq] using h.mem k (by simpa using heq)
  · rw [close_removing he]
    exact h.nodup.filter _

theorem Queued.but (h : s.Queued) (slug : String) : s.QueuedBut (some slug) :=
  ⟨fun k _ => h.mem k (by simp), h.nodup⟩

theorem Queued.close (h : s.Queued) (slug : String) : (s.close slug).Queued := by
  cases he : s.markets[slug]? with
  | none =>
    have hsame : s.close slug = s := by simp [Shard.close, he]
    rw [hsame]
    exact h
  | some e => exact (h.but slug).close (by simp [he])

theorem close_waiting (s : Shard) (slug : String) : (s.close slug).removing.length ≤ s.removing.length := by
  unfold Shard.close
  split
  · exact Nat.le_refl _
  · exact List.length_filter_le _ _

/-- Closing a market that is not wanted leaves the set as it was. -/
theorem close_sameSet (h : s.wants slug = false) : SameSet s (s.close slug) where
  count := by
    unfold close
    split
    · rfl
    · rename_i e he
      have hd : e.desired = false := by simpa [wants, he] using h
      simp [hd]
  wants k := by
    rw [close_wants]
    by_cases heq : k = slug
    · simp [heq, h]
    · simp [heq]
  queued hq := hq.close slug
  waiting := s.close_waiting slug

theorem Counted.close (h : s.Counted) (slug : String) : (s.close slug).Counted := by
  cases hw : s.wants slug with
  | false => exact h.sameSet (close_sameSet hw) (s.close_idle slug).config
  | true =>
    obtain ⟨e, he, hd⟩ := (Option.any_eq_true _ _).1 hw
    have hmem : slug ∈ keysWhere (·.desired) s.markets := mem_keysWhere.2 hw
    have hclosed : (s.close slug).markets = s.markets.erase slug ∧
        (s.close slug).desiredCount = saturatingSub s.desiredCount 1 := by
      simp [Shard.close, he, hd]
    have hcount : (s.close slug).desiredCount = s.desiredCount - 1 := hclosed.2
    refine ⟨?_, ?_, ?_, h.queued.close slug, (s.close_waiting slug).trans h.waiting⟩
    · rw [hcount, hclosed.1, keysWhere_erase, Finset.card_erase_of_mem hmem, h.count]
    · rw [hcount, (s.close_idle slug).config]
      exact (Nat.sub_le _ _).trans h.bounded
    · rw [(s.close_idle slug).config]
      exact h.capacity

/-! ## Installing -/

/-- What an installation writes: a new entry under a new set version, or nothing but the segment and the retired book. -/
inductive Installs (s : Shard) (slug : String) (t : Shard) : Except InstallRefusal Unit → Prop
  | refused (refusal : InstallRefusal) (retired : Std.ExtTreeMap String OrderBook) (segment : Option ShardSegment)
      (taken : retired = s.retired ∨ retired = s.retired.erase slug) (result : t = { s with retired, segment }) :
      Installs s slug t (.error refusal)
  | installed (market : MarketRef) (book : OrderBook) (segment : Option ShardSegment)
      (named : marketOfSlug slug = some market) (found : s.bookFor slug market = .ok book)
      (result : t =
        { s with
          retired := s.retired.erase slug
          segment
          desiredCount := saturatingAdd s.desiredCount 1
          desiredVersion := saturatingAdd s.desiredVersion 1
          markets := s.markets.insert slug (.installed market book (saturatingAdd s.desiredVersion 1)) }) :
      Installs s slug t (.ok ())

theorem install_cases (s : Shard) (slug : String) : Installs s slug (s.install slug).1 (s.install slug).2 := by
  unfold install
  cases hm : marketOfSlug slug with
  | none => exact .refused _ _ _ (.inl rfl) rfl
  | some market =>
    dsimp only
    cases hb : s.bookFor slug market with
    | error refusal => exact .refused _ _ _ (.inr rfl) rfl
    | ok book =>
      dsimp only
      cases hs : (installSegment s.segment slug book).2 with
      | error refusal => exact .refused _ _ _ (.inr rfl) rfl
      | ok _ => exact .installed market book _ hm hb rfl

/-- The book of a market about to be installed is new, or a retired one whose stream is marked lost. -/
theorem bookFor_cases (hb : s.bookFor slug market = .ok book) :
    (s.retired[slug]? = none ∧ book = .new market) ∨
      ∃ retired changed, s.retired[slug]? = some retired ∧
        retired.reportContinuityLoss .reconnect .subscriptionLost = .ok (book, changed) := by
  unfold bookFor at hb
  split at hb
  · rename_i retired hretired
    simp only [resume, Fallible.mapError_eq_ok] at hb
    cases hloss : retired.reportContinuityLoss .reconnect .subscriptionLost with
    | error _ => simp [hloss, Except.map] at hb
    | ok reported =>
      rw [hloss] at hb
      obtain rfl := Except.ok.inj hb
      exact .inr ⟨retired, reported.2, hretired, hloss⟩
  · rename_i hnone
    exact .inl ⟨hnone, (Except.ok.inj hb).symm⟩

theorem bookFor_market (h : s.Named) (hm : marketOfSlug slug = some market)
    (hb : s.bookFor slug market = .ok book) : book.market = market := by
  rcases bookFor_cases hb with ⟨-, rfl⟩ | ⟨retired, changed, hretired, hloss⟩
  · rfl
  · rw [(OrderBook.Holds.reportContinuityLoss hloss).market]
    exact Option.some.inj ((h.retired slug retired hretired).symm.trans hm)

theorem bookFor_authority (hb : s.bookFor slug market = .ok book) : book.authority ≠ .live := by
  rcases bookFor_cases hb with ⟨-, rfl⟩ | ⟨retired, changed, -, hloss⟩
  · simp [OrderBook.new]
  · rcases OrderBook.reportContinuityLoss_ok hloss with ⟨-, heq, -, hstale⟩ | ⟨-, -, heq⟩
    · simp [heq, hstale]
    · simp [heq]

theorem Named.erase_retired (h : s.Named) {k : String} (hk : (s.retired.erase slug)[k]? = some book) :
    marketOfSlug k = some book.market := by
  simp only [lookup_erase, Option.ite_none_left_eq_some] at hk
  exact h.retired k book hk.2

theorem later_bump (s t : Shard) (h : t.desiredVersion = saturatingAdd s.desiredVersion 1) : Later s t := by
  intro hs
  rw [h]
  simp only [saturatingAdd]
  omega

theorem Installs.idle (h : Installs s slug t result) : Idle s t := by
  cases h with
  | refused refusal retired segment htaken ht =>
    subst ht
    refine .of_entries rfl rfl rfl (.refl s) id (fun k e he => .inl ⟨e, he, .refl e⟩) fun hn => ⟨hn.entries, ?_⟩
    rcases htaken with rfl | rfl
    · exact hn.retired
    · exact fun k book hk => hn.erase_retired hk
  | installed market book segment hm hb ht =>
    subst ht
    refine .of_entries rfl rfl rfl (later_bump s _ rfl) id (fun k e he => ?_)
      fun hn => ⟨fun k e he => ?_, fun k book hk => ?_⟩
    · rw [lookup_insert] at he
      split at he
      · obtain rfl := Option.some.inj he
        refine .inr ⟨rfl, rfl, decide_eq_false (bookFor_authority hb),
          fun h => absurd h Bool.false_ne_true, fun hs => ?_⟩
        simp only [MarketEntry.installed, saturatingAdd]
        omega
      · exact .inl ⟨e, he, .refl e⟩
    · rw [lookup_insert] at he
      split at he
      · rename_i heq
        obtain rfl := Option.some.inj he
        rw [heq]
        exact ⟨hm, bookFor_market hn hm hb⟩
      · exact hn.entries k e he
    · exact hn.erase_retired hk

/-- After an installation the market is wanted, and it alone is new. -/
theorem Installs.wants (h : Installs s slug t result) (k : String) :
    t.wants k = (s.wants k || (k == slug && result.isOk)) := by
  cases h with
  | refused refusal retired segment htaken ht =>
    subst ht
    simp [Shard.wants, Except.isOk, Except.toBool]
  | installed market book segment hm hb ht =>
    subst ht
    simp only [Shard.wants, lookup_insert]
    by_cases heq : k = slug <;> simp [heq, MarketEntry.installed, Except.isOk, Except.toBool]

theorem Installs.counted (h : Installs s slug t result) (hc : s.Counted)
    (habsent : s.markets[slug]? = none) (hroom : s.desiredCount < s.config.maxMarkets) : t.Counted := by
  cases h with
  | refused refusal retired segment htaken ht =>
    subst ht
    exact ⟨hc.count, hc.bounded, hc.capacity, ⟨hc.queued.mem, hc.queued.nodup⟩, hc.waiting⟩
  | installed market book segment hm hb ht =>
    subst ht
    have hcapacity := hc.capacity
    simp only [maxShardMarkets] at hcapacity
    have hcount : saturatingAdd s.desiredCount 1 = s.desiredCount + 1 := by
      simp only [saturatingAdd, u64Max]
      omega
    have hnew : slug ∉ keysWhere (·.desired) s.markets := by simp [mem_keysWhere, habsent]
    refine ⟨?_, ?_, hc.capacity, ⟨fun k hk => ?_, hc.queued.nodup⟩, hc.waiting⟩
    · rw [keysWhere_insert rfl, Finset.card_insert_of_notMem hnew, ← hc.count, hcount]
    · rw [hcount]
      exact hroom
    · -- the new entry is wanted, and nothing waited under its slug
      have hold := hc.queued.mem k hk
      rw [lookup_insert]
      by_cases heq : k = slug
      · subst heq
        simpa [habsent, MarketEntry.installed] using hold
      · simpa [heq] using hold

/-! ## Changes of the set -/

/-- A market taken out of the set, before it is queued or closed. -/
def unwant (s : Shard) (slug : String) (e : MarketEntry) : Shard :=
  { s with
    markets := s.markets.insert slug { e with desired := false, subscription := .removing }
    desiredVersion := saturatingAdd s.desiredVersion 1
    desiredCount := saturatingSub s.desiredCount 1 }.retireAgreement slug

theorem unwant_idle {e : MarketEntry} (he : s.markets[slug]? = some e) : Idle s (s.unwant slug e) := by
  refine .trans ?_ (retireAgreement_beside _ slug).idle
  have hentry : e.Idle { e with desired := false, subscription := .removing } :=
    ⟨rfl, .refl _, rfl, rfl, .inl, fun gate h => ⟨gate, h, .refl _⟩⟩
  refine .of_entries rfl rfl rfl (later_bump _ _ rfl) id (fun k e' he' => ?_)
    (fun hn => ⟨fun k e' he' => ?_, hn.retired⟩) <;>
    rw [lookup_insert] at he' <;> split at he'
  · rename_i heq
    obtain rfl := Option.some.inj he'
    exact .inl ⟨e, heq ▸ he, hentry⟩
  · exact .inl ⟨e', he', .refl e'⟩
  · rename_i heq
    obtain rfl := Option.some.inj he'
    exact hn.entries k e (heq ▸ he)
  · exact hn.entries k e' he'

theorem unwant_wants (s : Shard) (slug : String) (e : MarketEntry) (k : String) :
    (s.unwant slug e).wants k = (s.wants k && k != slug) := by
  simp only [wants, unwant, retireAgreement, lookup_insert]
  by_cases heq : k = slug <;> simp [heq]

/-- The steps every command is made of, and the closing of what is no longer wanted. -/
inductive Change (s : Shard) : Shard → Prop
  | install {t : Shard} {result : Except InstallRefusal Unit} (slug : String) (installs : Installs s slug t result)
      (absent : s.markets[slug]? = none) : Change s t
  | unwant (slug : String) (e : MarketEntry) (found : s.markets[slug]? = some e) (desired : e.desired = true) :
      Change s (s.unwant slug e)
  | queue (removing : List String) : Change s { s with removing }
  | close (slug : String) (unwanted : s.wants slug = false) : Change s (s.close slug)

abbrev Changes : Shard → Shard → Prop := Relation.ReflTransGen Change

theorem removing_idle (s : Shard) (removing : List String) : Idle s { s with removing } :=
  .of_entries rfl rfl rfl (.refl s) id (fun _ e he => .inl ⟨e, he, .refl e⟩) fun hn => ⟨hn.entries, hn.retired⟩

theorem Change.idle (h : Change s t) : Idle s t := by
  cases h with
  | install slug installs => exact installs.idle
  | unwant slug e he => exact unwant_idle he
  | queue removing => exact s.removing_idle removing
  | close slug => exact s.close_idle slug

theorem Changes.idle (h : Changes s t) : Idle s t := by
  induction h with
  | refl => exact .refl s
  | tail _ hstep ih => exact ih.trans hstep.idle

/-- Closing a list of markets none of which is wanted. -/
theorem closeAll_spec (slugs : List String) (h : ∀ slug ∈ slugs, s.wants slug = false) :
    Changes s (slugs.foldl close s) ∧ SameSet s (slugs.foldl close s) := by
  induction slugs generalizing s with
  | nil => exact ⟨.refl, .refl s⟩
  | cons slug rest ih =>
    have hout := h slug List.mem_cons_self
    have hfirst := close_sameSet hout
    obtain ⟨hchanges, hs⟩ := ih (s := s.close slug) fun k hk => (hfirst.wants k).trans (h k (List.mem_cons_of_mem _ hk))
    exact ⟨.head (.close slug hout) hchanges, hfirst.trans hs⟩

theorem mem_removedSlugs {slug : String} : slug ∈ s.removedSlugs ↔ ∃ e ∈ s.markets[slug]?, e.desired = false := by
  simp only [removedSlugs, List.mem_filterMap, (s.order s.markets).2.mem_iff, Option.ite_none_left_eq_some,
    Option.some.injEq, Prod.exists, Std.ExtTreeMap.mem_toList_iff_getElem?_eq_some, Bool.not_eq_true]
  constructor
  · rintro ⟨_, e, he, hd, rfl⟩
    exact ⟨e, he, hd⟩
  · exact fun ⟨e, he, hd⟩ => ⟨slug, e, he, hd, rfl⟩

theorem closeRemoved_spec (s : Shard) : Changes s s.closeRemoved ∧ SameSet s s.closeRemoved := by
  refine closeAll_spec _ fun slug hslug => ?_
  obtain ⟨e, he, hd⟩ := mem_removedSlugs.1 hslug
  simp [wants, Option.mem_def.1 he, hd]

/-! ## Adding -/

/-- What adding one market comes to. -/
structure Added (s t : Shard) (slug : String) (status : MarketStatus) : Prop where
  changes : Changes s t
  counted : t.Counted
  wants : ∀ k, t.wants k = (s.wants k || (k == slug && !status.isRejected))
  accepted : status = .accepted ↔ s.wants slug = false ∧ status.isRejected = false

theorem Installs.added (h : Installs s slug t result) (hc : s.Counted)
    (habsent : s.markets[slug]? = none) (hroom : s.desiredCount < s.config.maxMarkets) :
    Added s t slug (statusOf result) where
  changes := .single (.install slug h habsent)
  counted := h.counted hc habsent hroom
  wants k := by
    rw [h.wants k]
    cases result <;> rfl
  accepted := by
    have hout : s.wants slug = false := by simp [Shard.wants, habsent]
    cases result <;> simp [hout, statusOf, MarketStatus.isRejected]

theorem Added.refused (hc : s.Counted) (rejection : MarketRejection) : Added s s slug (.rejected rejection) :=
  ⟨.refl, hc, fun k => by simp [MarketStatus.isRejected], by simp [MarketStatus.isRejected]⟩

theorem addMarket_spec (hc : s.Counted) (slug : String) : Added s (s.addMarket slug).1 slug (s.addMarket slug).2 := by
  unfold addMarket
  dsimp only
  split
  · rename_i e he
    split
    · -- already wanted
      rename_i hd
      have hw : s.wants slug = true := by simp [wants, he, hd]
      obtain ⟨hrejected, haccepted⟩ := MarketEntry.status_desired hd
      refine ⟨.refl, hc, fun k => ?_, by simp [hw, haccepted]⟩
      by_cases heq : k = slug <;> simp [heq, hw]
    · rename_i hd
      split
      · exact .refused hc _
      · rename_i hroom
        split
        · exact .refused hc _
        · -- a removed market that still waits is closed first
          have hout : s.wants slug = false := by simpa [wants, he] using hd
          have hclosed := close_sameSet hout
          have hinstalled := install_cases (s.close slug) slug
          have hadded := hinstalled.added (hc.close slug) (by rw [close_markets, if_pos rfl])
            (by rw [hclosed.count, (s.close_idle slug).config]; omega)
          refine ⟨.head (.close slug hout) hadded.changes, hadded.counted, fun k => ?_, ?_⟩
          · rw [hadded.wants k, hclosed.wants k]
          · rw [hadded.accepted, hclosed.wants slug]
  · rename_i hnone
    split
    · exact .refused hc _
    · rename_i hroom
      exact (s.install_cases slug).added hc hnone (by omega)

/-! ## Removing -/

/-- Evictions close the first markets of the queue, and leave no more than the bound. -/
theorem evictRemoved_spec (fuel : Nat) (hq : s.Queued) (hfuel : s.removing.length ≤ fuel) :
    ∃ evicted : List String, s.evictRemoved fuel = evicted.foldl close s ∧
      (∀ slug ∈ evicted, s.wants slug = false) ∧ (s.evictRemoved fuel).removing.length ≤ maxRemovingMarkets := by
  induction fuel generalizing s with
  | zero => exact ⟨[], rfl, by simp, hfuel.trans (Nat.zero_le _)⟩
  | succ fuel ih =>
    unfold evictRemoved
    split
    · rename_i hremoving
      exact ⟨[], rfl, by simp, by simp [hremoving]⟩
    · rename_i evicted rest hremoving
      split
      · obtain ⟨e, he, hd⟩ := (hq.mem evicted (by simp)).1 (by simp [hremoving])
        have hout : s.wants evicted = false := by simp [wants, he, hd]
        -- taking it off the queue is what closing it does anyway
        have hclose : Shard.close { s with removing := rest } evicted = s.close evicted := by
          simp [Shard.close, he, hremoving]
        have hshorter : (s.close evicted).removing.length ≤ rest.length := by
          rw [close_removing he, hremoving, List.filter_cons_of_neg (by simp)]
          exact List.length_filter_le _ _
        have hlonger : s.removing.length = rest.length + 1 := by simp [hremoving]
        obtain ⟨others, heq, hothers, hbound⟩ := ih (hq.close evicted) (by omega)
        rw [hclose]
        refine ⟨evicted :: others, heq, fun slug hslug => ?_, hbound⟩
        rcases List.mem_cons.1 hslug with rfl | hslug
        · exact hout
        · rw [← (close_sameSet hout).wants slug]
          exact hothers slug hslug
      · rename_i hfits
        exact ⟨[], rfl, by simp, by omega⟩

/-- A market that is no longer wanted joins the queue, and older ones may be closed to make room. -/
theorem enqueueRemoval_spec {e : MarketEntry} (hq : s.QueuedBut (some slug)) (he : s.markets[slug]? = some e)
    (hd : e.desired = false) :
    ∃ (removing evicted : List String), s.enqueueRemoval slug = evicted.foldl close { s with removing } ∧
      (∀ k ∈ evicted, s.wants k = false) ∧ Queued { s with removing } ∧
      (s.enqueueRemoval slug).removing.length ≤ maxRemovingMarkets := by
  unfold enqueueRemoval
  dsimp only
  generalize hqueue : s.removing.filter (· ≠ slug) ++ [slug] = queue
  have hqueued : Queued { s with removing := queue } := by
    refine ⟨fun k _ => ?_, ?_⟩
    · show k ∈ queue ↔ _
      rw [← hqueue, List.mem_append, List.mem_filter, List.mem_singleton]
      by_cases heq : k = slug
      · simp [heq, he, hd]
      · simpa [heq] using hq.mem k (by simpa using heq)
    · show queue.Nodup
      rw [← hqueue, List.nodup_append]
      refine ⟨hq.nodup.filter _, List.nodup_singleton _, ?_⟩
      rintro k hk _ hlast rfl
      simp only [List.mem_filter, decide_eq_true_eq] at hk
      exact hk.2 (List.mem_singleton.1 hlast)
  obtain ⟨evicted, heq, hout, hbound⟩ :=
    evictRemoved_spec (s := { s with removing := queue }) queue.length hqueued (Nat.le_refl _)
  exact ⟨queue, evicted, heq, hout, hqueued, hbound⟩

/-- What removing one market comes to. -/
structure Removed (s t : Shard) (slug : String) : Prop where
  changes : Changes s t
  counted : t.Counted
  wants : ∀ k, t.wants k = (s.wants k && !(k == slug && isMarketSlug slug))

section
variable {e : MarketEntry}

theorem unwant_queued (hc : s.Counted) : (s.unwant slug e).QueuedBut (some slug) := by
  refine ⟨fun k hk => ?_, hc.queued.nodup⟩
  have hne : k ≠ slug := fun h => hk (by rw [h])
  simpa [unwant, retireAgreement, lookup_insert, hne] using hc.queued.mem k (by simp)

/-- The count and the set shrink together. -/
theorem unwant_counted (hc : s.Counted) (he : s.markets[slug]? = some e) (hd : e.desired = true)
    (hcount : t.desiredCount = (s.unwant slug e).desiredCount) (hwants : ∀ k, t.wants k = (s.unwant slug e).wants k)
    (hconfig : t.config = s.config) (hqueued : t.Queued) (hwaiting : t.removing.length ≤ maxRemovingMarkets) :
    t.Counted := by
  have hmem : slug ∈ keysWhere (·.desired) s.markets := mem_keysWhere.2 (by simp [he, hd])
  have hset : keysWhere (·.desired) t.markets = (keysWhere (·.desired) s.markets).erase slug := by
    ext k
    rw [Finset.mem_erase, mem_keysWhere, mem_keysWhere]
    have hk := (hwants k).trans (unwant_wants s slug e k)
    unfold wants at hk
    rw [hk]
    by_cases heq : k = slug <;> simp [heq]
  have hless : t.desiredCount = s.desiredCount - 1 := hcount
  refine ⟨?_, ?_, hconfig ▸ hc.capacity, hqueued, hwaiting⟩
  · rw [hset, Finset.card_erase_of_mem hmem, ← hc.count, hless]
  · rw [hless, hconfig]
    exact (Nat.sub_le _ _).trans hc.bounded

end

theorem Removed.kept (hc : s.Counted) (hout : s.wants slug = false ∨ isMarketSlug slug = false) : Removed s s slug := by
  refine ⟨.refl, hc, fun k => ?_⟩
  rcases hout with hout | hslug
  · by_cases heq : k = slug <;> simp [heq, hout]
  · simp [hslug]

/-- A market that was wanted is closed, or queued where a connection still carries it. -/
theorem Removed.unwanted {e : MarketEntry} (hc : s.Counted) (hslug : isMarketSlug slug = true)
    (he : s.markets[slug]? = some e) (hd : e.desired = true) (hchanges : Changes (s.unwant slug e) t)
    (hcount : t.desiredCount = (s.unwant slug e).desiredCount) (hwants : ∀ k, t.wants k = (s.unwant slug e).wants k)
    (hqueued : t.Queued) (hwaiting : t.removing.length ≤ maxRemovingMarkets) : Removed s t slug := by
  have hall : Changes s t := .head (.unwant slug e he hd) hchanges
  refine ⟨hall, unwant_counted hc he hd hcount hwants hall.idle.config hqueued hwaiting, fun k => ?_⟩
  rw [hwants k, unwant_wants]
  by_cases heq : k = slug <;> simp [heq, hslug, bne]

theorem removeMarket_spec (hc : s.Counted) (slug : String) : Removed s (s.removeMarket slug).1 slug := by
  unfold removeMarket
  by_cases hslug : isMarketSlug slug
  · rw [if_neg (by simp [hslug])]
    split
    · rename_i hnone
      exact .kept hc (.inl (by simp [wants, hnone]))
    · rename_i e he
      split
      · rename_i hd
        have hthere : (s.unwant slug e).markets[slug]? =
            some { e with desired := false, subscription := .removing } := by
          simp [unwant, retireAgreement]
        have hout : (s.unwant slug e).wants slug = false := by simp [unwant_wants]
        show Removed s (if _ then (s.unwant slug e).enqueueRemoval slug else (s.unwant slug e).close slug) slug
        split
        · obtain ⟨removing, evicted, heq, hunwanted, hqueued, hwaiting⟩ :=
            enqueueRemoval_spec (unwant_queued hc) hthere rfl
          rw [heq] at hwaiting ⊢
          obtain ⟨hchanges, hset⟩ := closeAll_spec (s := { s.unwant slug e with removing }) evicted hunwanted
          exact .unwanted hc hslug he hd (.head (.queue removing) hchanges) hset.count hset.wants (hset.queued hqueued)
            hwaiting
        · have hclosed := close_sameSet hout
          exact .unwanted hc hslug he hd (.single (.close slug hout)) hclosed.count hclosed.wants
            ((unwant_queued hc).close (by simp [hthere])) (hclosed.waiting.trans hc.waiting)
      · rename_i hd
        exact .kept hc (.inl (by simpa [wants, he] using hd))
  · rw [if_pos (by simpa using hslug)]
    exact .kept hc (.inr (by simpa using hslug))

/-! ## Batches -/

theorem eachMarket_spec {command : Shard → String → Shard × MarketStatus} (slugs : List String)
    (hcommand : ∀ s : Shard, ∀ slug, s.Counted → Changes s (command s slug).1 ∧ (command s slug).1.Counted)
    (hc : s.Counted) : Changes s (s.eachMarket command slugs).1 ∧ (s.eachMarket command slugs).1.Counted := by
  induction slugs generalizing s with
  | nil => exact ⟨.refl, hc⟩
  | cons slug rest ih =>
    obtain ⟨hfirst, hcounted⟩ := hcommand s slug hc
    obtain ⟨hrest, hall⟩ := ih hcounted
    exact ⟨hfirst.trans hrest, hall⟩

/-- A command is a sequence of changes of the set and one count. -/
theorem addMarkets_spec (hc : s.Counted) (slugs : List String) :
    ∃ u, Changes s u ∧ u.Counted ∧ (s.addMarkets slugs).1 = u.recountRecovering := by
  obtain ⟨hchanges, hcounted⟩ := eachMarket_spec slugs
    (fun s slug hc => ⟨(addMarket_spec hc slug).changes, (addMarket_spec hc slug).counted⟩) hc
  exact ⟨_, hchanges, hcounted, rfl⟩

theorem removeMarkets_spec (hc : s.Counted) (slugs : List String) :
    ∃ u, Changes s u ∧ u.Counted ∧ (s.removeMarkets slugs).1 = u.recountRecovering := by
  obtain ⟨hchanges, hcounted⟩ := eachMarket_spec slugs
    (fun s slug hc => ⟨(removeMarket_spec hc slug).changes, (removeMarket_spec hc slug).counted⟩) hc
  exact ⟨_, hchanges, hcounted, rfl⟩

end Shard

end PmWs
