import Mathlib.Data.List.Chain
import Mathlib.Data.List.Forall2
import PmWs.Book.Snapshots
import PmWs.Limitless.Decode

/-!
# From a frame's bytes to a book's levels

The decoder's conditions are the book's: a book event that decodes has prices
within the unit and no price twice on a side, so its snapshot is never refused
for its levels, and what the book then rests on is what the lexemes denote.
-/

open MachineInt Fallible PmWs.Wire

namespace PmWs

/-! ## What a frame reports -/

/-- The lexemes of one reported level: its price and its size. -/
def Wire.LexicalValue.Reports (entry : LexicalValue) (lexemes : String × String) : Prop :=
  entry.field "price" = some (.number ⟨lexemes.1⟩) ∧ entry.field "size" = some (.number ⟨lexemes.2⟩)

/-- The lexemes of one side of the book a frame reports, in the venue's order. -/
def Wire.DecodedFrame.Reports (frame : DecodedFrame) (field : String) (lexemes : List (String × String)) : Prop :=
  ∃ payload orderbook entries, frame.payload = some payload ∧ payload.field "orderbook" = some orderbook ∧
    orderbook.field field = some (.array entries) ∧ List.Forall₂ LexicalValue.Reports entries lexemes

/-- The lexemes of one side of the book that a frame's bytes report. -/
def BytesReport (bytes : List UInt8) (opcode : WebSocketOpcode) (limits : LexicalLimits) (field : String)
    (lexemes : List (String × String)) : Prop :=
  ∃ frame, decodeFrame bytes opcode limits = .ok frame ∧ frame.Reports field lexemes

/-- A reported level by its exact values. -/
def exactLevel (side : Side) (level : Price × Quantity) : Side × ℚ × ℚ := (side, level.1.value.toRat, level.2.value.toRat)

/-- The level two lexemes denote. -/
def denotedLevel (side : Side) (lexemes : String × String) : Side × ℚ × ℚ :=
  (side, ExactDecimal.denoted lexemes.1.toList, ExactDecimal.denoted lexemes.2.toList)

def Level.exact (level : Level) : Side × ℚ × ℚ := exactLevel level.side (level.price, level.quantity)

/-! ## One entry -/

variable {levels : List (Price × Quantity)} {update : OrderbookUpdate} {side : Side} {frame : DecodedFrame}

theorem numberField_ok {value : LexicalValue} {field lexeme : String} (h : numberField value field = .ok lexeme) :
    value.field field = some (.number ⟨lexeme⟩) := by
  unfold numberField at h
  rw [orError_eq_ok, Option.map_eq_some_iff] at h
  obtain ⟨⟨_⟩, hnumber, rfl⟩ := h
  obtain ⟨present, hfield, hpresent⟩ := Option.bind_eq_some_iff.1 hnumber
  cases present <;> cases hpresent
  exact hfield

theorem Price.parse_ok {lexeme : List Char} {grammar : DecimalGrammar} {price : Price}
    (h : Price.parse lexeme grammar = .ok price) : ExactDecimal.parse lexeme grammar.unsigned = .ok price.value := by
  unfold Price.parse at h
  split at h
  · next hparse =>
    cases h
    exact hparse
  · cases h

theorem Quantity.parse_ok {lexeme : List Char} {grammar : DecimalGrammar} {quantity : Quantity}
    (h : Quantity.parse lexeme grammar = .ok quantity) : ExactDecimal.parse lexeme grammar.unsigned = .ok quantity.value := by
  unfold Quantity.parse at h
  split at h
  · next hparse =>
    cases h
    exact hparse
  · cases h

theorem Price.cmp_eq (a b : Price) : a.cmp b = compare a.value.toRat b.value.toRat := ExactDecimal.cmp_eq a.value b.value

/-- A price the book can complement. -/
def Price.InDomain (price : Price) : Prop := price.value.toRat ≤ 1 ∧ price.value.scale ≤ 18

theorem decodeLevel_ok {entry : LexicalValue} {level : Price × Quantity}
    (h : decodeLevel side levels entry = .ok level) :
    (∃ lexemes, entry.Reports lexemes ∧ exactLevel side level = denotedLevel side lexemes) ∧ level.1.InDomain ∧
      ∀ last ∈ levels.getLast?, side.follows level.1 last.1 = true := by
  unfold decodeLevel at h
  simp only [bind_eq_ok, mapError_eq_ok, ite_error_eq_ok] at h
  obtain ⟨priceLexeme, hprice, price, hparse, hdomain, sizeLexeme, hsize, quantity, hparse', hordered, h⟩ := h
  cases h
  obtain ⟨hvalue, hscale⟩ := ExactDecimal.parse_value (Price.parse_ok hparse)
  obtain ⟨hvalue', -⟩ := ExactDecimal.parse_value (Quantity.parse_ok hparse')
  refine ⟨⟨(priceLexeme, sizeLexeme), ⟨numberField_ok hprice, numberField_ok hsize⟩, ?_⟩, ⟨?_, hscale⟩, fun last hlast => ?_⟩
  · unfold exactLevel denotedLevel
    rw [hvalue, hvalue']
  · have hone : domainUpperBound.value.toRat = 1 := by norm_num [domainUpperBound, unitPrice, ExactDecimal.toRat]
    rw [Price.cmp_eq, compare_gt_iff_gt, hone] at hdomain
    exact not_lt.1 hdomain
  · simp only [Option.any_eq_true, not_exists, not_and, Bool.not_eq_true, Bool.not_eq_false'] at hordered
    exact hordered last hlast

/-! ## One side -/

/-- The prices of two levels in the venue's order on a side. -/
def Side.Orders (side : Side) (before after : Price × Quantity) : Prop :=
  match side with
  | .bid => after.1.value.toRat < before.1.value.toRat
  | .ask => before.1.value.toRat < after.1.value.toRat

theorem follows_iff {before after : Price × Quantity} :
    side.follows after.1 before.1 = true ↔ side.Orders before after := by
  cases side with
  | bid => rw [Side.follows, decide_eq_true_eq, Price.cmp_eq, compare_lt_iff_lt, Side.Orders]
  | ask => rw [Side.follows, decide_eq_true_eq, Price.cmp_eq, compare_gt_iff_gt, Side.Orders]

instance (side : Side) : Trans side.Orders side.Orders side.Orders where
  trans {a b c} hab hbc := by
    cases side with
    | bid => exact lt_trans hbc hab
    | ask => exact lt_trans hab hbc

/-- Going on from decoded levels keeps the venue's order and adds one level for each entry. -/
theorem decodeEntries_ok {entries : List LexicalValue} {result : List (Price × Quantity)}
    (h : decodeEntries side entries levels = .ok result) (hordered : levels.IsChain side.Orders)
    (hdomain : ∀ level ∈ levels, level.1.InDomain) :
    (∃ lexemes, List.Forall₂ LexicalValue.Reports entries lexemes ∧
      result.map (exactLevel side) = levels.map (exactLevel side) ++ lexemes.map (denotedLevel side)) ∧
    result.IsChain side.Orders ∧ ∀ level ∈ result, level.1.InDomain := by
  induction entries generalizing levels with
  | nil =>
    cases h
    exact ⟨⟨[], .nil, (List.append_nil _).symm⟩, hordered, hdomain⟩
  | cons entry entries ih =>
    unfold decodeEntries at h
    obtain ⟨level, hlevel, h⟩ := bind_eq_ok.1 h
    obtain ⟨⟨lexemes, hreports, hexact⟩, hinDomain, hfollows⟩ := decodeLevel_ok hlevel
    have hordered' : (levels ++ [level]).IsChain side.Orders := by
      refine List.isChain_append.2 ⟨hordered, .singleton _, fun last hlast next hnext => ?_⟩
      cases hnext
      exact follows_iff.1 (hfollows last hlast)
    have hdomain' : ∀ later ∈ levels ++ [level], later.1.InDomain :=
      List.forall_mem_append.2 ⟨hdomain, List.forall_mem_singleton.2 hinDomain⟩
    obtain ⟨⟨more, hmore, hresult⟩, hrest⟩ := ih h hordered' hdomain'
    refine ⟨⟨lexemes :: more, .cons hreports hmore, ?_⟩, hrest⟩
    rw [hresult, List.map_append, List.map_singleton, hexact, List.append_assoc]
    rfl

/-- A decoded side: one level for each entry, in the venue's strict order, every price complementable. -/
theorem decodeLevels_ok {orderbook : LexicalValue} {field : String}
    (h : decodeLevels orderbook field side = .ok levels) :
    (∃ entries lexemes, orderbook.field field = some (.array entries) ∧
      List.Forall₂ LexicalValue.Reports entries lexemes ∧
      levels.map (exactLevel side) = lexemes.map (denotedLevel side)) ∧
    levels.Pairwise side.Orders ∧ ∀ level ∈ levels, level.1.InDomain := by
  unfold decodeLevels at h
  simp only [bind_eq_ok, orError_eq_ok, Option.bind_eq_some_iff] at h
  obtain ⟨entries, ⟨present, hfield, hpresent⟩, h⟩ := h
  cases present <;> cases hpresent
  obtain ⟨⟨lexemes, hreports, hexact⟩, hordered, hdomain⟩ := decodeEntries_ok h .nil (List.forall_mem_nil _)
  exact ⟨⟨entries, lexemes, hfield, hreports, hexact⟩, List.isChain_iff_pairwise.1 hordered, hdomain⟩

/-! ## The whole update -/

/-- What a decoded book guarantees the book that takes it. -/
structure OrderbookUpdate.Decoded (update : OrderbookUpdate) (bids asks : List (String × String)) : Prop where
  exact : update.levels.map Level.exact = bids.map (denotedLevel .bid) ++ asks.map (denotedLevel .ask)
  distinct : (update.levels.map Level.coordinate).Nodup
  inDomain : ∀ level ∈ update.levels, level.price.InDomain

theorem orders_nodup (h : levels.Pairwise side.Orders) :
    (levels.map fun level => ((side, level.1) : Coordinate)).Nodup := by
  refine List.Pairwise.map _ (fun before after horders heq => ?_) h
  have hprice : before.1 = after.1 := (Prod.mk.inj heq).2
  cases side with
  | bid => exact horders.ne (congrArg (fun price : Price => price.value.toRat) hprice.symm)
  | ask => exact horders.ne (congrArg (fun price : Price => price.value.toRat) hprice)

theorem decodeOrderbookUpdate_ok (h : decodeOrderbookUpdate frame = .ok update) :
    ∃ bids asks, frame.Reports "bids" bids ∧ frame.Reports "asks" asks ∧ update.Decoded bids asks := by
  unfold decodeOrderbookUpdate at h
  simp only [bind_eq_ok, orError_eq_ok] at h
  obtain ⟨payload, hpayload, slug, -, orderbook, horderbook, token, -, bids, hbids, asks, hasks, timestamp, -, version, -, h⟩ := h
  cases h
  obtain ⟨⟨bidEntries, bidLexemes, hbidField, hbidReports, hbidExact⟩, hbidOrdered, hbidDomain⟩ := decodeLevels_ok hbids
  obtain ⟨⟨askEntries, askLexemes, haskField, haskReports, haskExact⟩, haskOrdered, haskDomain⟩ := decodeLevels_ok hasks
  refine ⟨bidLexemes, askLexemes, ⟨payload, orderbook, bidEntries, hpayload, horderbook, hbidField, hbidReports⟩,
    ⟨payload, orderbook, askEntries, hpayload, horderbook, haskField, haskReports⟩, ⟨?_, ?_, ?_⟩⟩
  · rw [← hbidExact, ← haskExact]
    simp only [OrderbookUpdate.levels, List.map_append, List.map_map]
    rfl
  · simp only [OrderbookUpdate.levels, List.map_append, List.map_map]
    refine List.nodup_append'.2 ⟨orders_nodup hbidOrdered, orders_nodup haskOrdered, fun coordinate hbid hask => ?_⟩
    obtain ⟨_, -, rfl⟩ := List.mem_map.1 hbid
    obtain ⟨_, -, heq⟩ := List.mem_map.1 hask
    cases (Prod.mk.inj heq).1
  · unfold OrderbookUpdate.levels
    refine List.forall_mem_append.2 ⟨List.forall_mem_map.2 hbidDomain, List.forall_mem_map.2 haskDomain⟩

theorem decodeEvent_orderbookUpdate
    (h : decodeEvent frame = .ok (.orderbookUpdate update)) : decodeOrderbookUpdate frame = .ok update := by
  unfold decodeEvent at h
  rw [ite_error_eq_ok, bind_eq_ok] at h
  obtain ⟨-, name, -, h⟩ := h
  split at h
  · obtain ⟨_, hupdate, ⟨⟩⟩ := map_eq_ok.1 h
    exact hupdate
  · split at h
    · obtain ⟨_, -, h⟩ := map_eq_ok.1 h
      cases h
    · cases h

theorem OrderbookUpdate.snapshotCandidate_exists {p : Provenance} {capacity : LevelCapacity}
    (hrepresentation : p.representation = .venueNative) (horigin : p.origin = .sourceReported)
    (hcapacity : update.bids.length + update.asks.length ≤ capacity.value) :
    ∃ candidate levels, update.snapshotCandidate p capacity = .ok candidate ∧ candidate.provenance = p ∧
      candidate.operation = .snapshot levels ∧ levels.levels = update.levels := by
  have hlength : update.levels.length ≤ capacity.value := by
    unfold OrderbookUpdate.levels
    rwa [List.length_append, List.length_map, List.length_map]
  have hbounded : BoundedLevels.new update.levels capacity = .ok ⟨update.levels, capacity, hlength⟩ := dif_pos hlength
  have hadmits : (CandidateOperation.snapshot ⟨update.levels, capacity, hlength⟩).admits p = true := by
    unfold CandidateOperation.admits
    dsimp only
    rw [horigin]
  have hcandidate : Candidate.snapshot p ⟨update.levels, capacity, hlength⟩ = .ok ⟨p, .snapshot _, hadmits⟩ := dif_pos hadmits
  refine ⟨⟨p, .snapshot ⟨update.levels, capacity, hlength⟩, hadmits⟩, _, ?_, rfl, rfl, rfl⟩
  unfold OrderbookUpdate.snapshotCandidate
  rw [if_pos ⟨hrepresentation, horigin⟩, hbounded, ok_bind, hcandidate]

theorem Coordinate.cmp_lt_iff {a b : Coordinate} : Coordinate.cmp a b = .lt ↔
    a.1.rank < b.1.rank ∨ a.1 = b.1 ∧ a.2.value.toRat < b.2.value.toRat := by
  have hrank : a.1.rank = b.1.rank ↔ a.1 = b.1 := by
    cases a.1 <;> cases b.1 <;> decide
  rw [Coordinate.cmp, Ordering.then_eq_lt, compare_lt_iff_lt, compare_eq_iff_eq, hrank, Price.cmp_eq, compare_lt_iff_lt]

/-- From a frame's bytes to a book's levels: an order-book event that decodes makes a candidate for every provenance
and capacity it can have, no book of the market refuses the candidate for its levels, and where one takes it, it rests
on one level for each reported bid and ask, of exactly the values the reported lexemes denote, in order. -/
theorem orderbook_frame_levels {bytes : List UInt8} {opcode : WebSocketOpcode} {limits : LexicalLimits}
    {frame : DecodedFrame} {update : OrderbookUpdate} (hframe : decodeFrame bytes opcode limits = .ok frame)
    (hevent : decodeEvent frame = .ok (.orderbookUpdate update)) (book : OrderBook) (p : Provenance)
    (capacity : LevelCapacity) (hmarket : p.market = book.market) (hrepresentation : p.representation = .venueNative)
    (horigin : p.origin = .sourceReported) (hcapacity : update.bids.length + update.asks.length ≤ capacity.value) :
    ∃ candidate bids asks, update.snapshotCandidate p capacity = .ok candidate ∧
      BytesReport bytes opcode limits "bids" bids ∧ BytesReport bytes opcode limits "asks" asks ∧
      (∀ e, book.applySnapshot candidate = .error e → e ≠ .unsupportedCandidateOperation ∧
        e ≠ .duplicateLevelCoordinate ∧ ∀ source, e ≠ .nonComplementablePrice source) ∧
      ∀ book' commit, book.applySnapshot candidate = .ok (book', commit) →
        (book'.publish.levels.map Level.exact).Perm (bids.map (denotedLevel .bid) ++ asks.map (denotedLevel .ask)) ∧
        book'.publish.levels.Pairwise fun a b =>
          a.side.rank < b.side.rank ∨ a.side = b.side ∧ a.price.value.toRat < b.price.value.toRat := by
  obtain ⟨bids, asks, hbids, hasks, hdecoded⟩ := decodeOrderbookUpdate_ok (decodeEvent_orderbookUpdate hevent)
  obtain ⟨candidate, levels, hcandidate, rfl, hop, hlevels⟩ :=
    OrderbookUpdate.snapshotCandidate_exists hrepresentation horigin hcapacity
  have hcomplement : ∀ level ∈ levels.levels, ∃ complement, complementPrice level.price = .ok complement := by
    intro level hlevel
    obtain ⟨hunit, hscale⟩ := hdecoded.inDomain level (hlevels ▸ hlevel)
    exact complementPrice_iff.2 ⟨hunit, by omega⟩
  obtain ⟨hrefused, htaken⟩ :=
    OrderBook.applySnapshot_levels hmarket hop hcomplement (hlevels ▸ hdecoded.distinct)
  refine ⟨candidate, bids, asks, hcandidate, ⟨frame, hframe, hbids⟩, ⟨frame, hframe, hasks⟩, fun e he => ?_, fun book' commit hok => ?_⟩
  · have hpast := hrefused e he
    refine ⟨?_, ?_, fun source => ?_⟩ <;> rintro rfl <;> cases hpast
  · obtain ⟨hperm, hordered⟩ := htaken book' commit hok
    refine ⟨?_, hordered.imp Coordinate.cmp_lt_iff.1⟩
    rw [← hdecoded.exact, ← hlevels]
    exact hperm.map _

/-- An update of two bids and two asks, some of them written with more than they need. -/
def exampleFrameBytes : List UInt8 := word
  ("42/markets,[\"orderbookUpdate\",\x7b\"marketSlug\":\"btc-up\",\"orderbook\":\x7b\"bids\":" ++
    "[\x7b\"price\":0.50,\"size\":1e2\x7d,\x7b\"price\":0.3,\"size\":7\x7d],\"asks\":" ++
    "[\x7b\"price\":0.6,\"size\":20\x7d,\x7b\"price\":8e-1,\"size\":5.0\x7d]\x7d,\"timestamp\":\"t\"\x7d]")

def exampleFrameLevels : List Level :=
  [exampleLevel .bid 2 7, exampleLevel .bid 4 100, exampleLevel .ask 5 20, exampleLevel .ask 7 5]

/-- The update in a frame's bytes and the new book it makes, when they report four levels. -/
def reportedBook (bytes : List UInt8) : Option (List Level) :=
  match decodeFrame bytes .text .venuePayload with
  | .error _ => none
  | .ok frame =>
    match decodeEvent frame with
    | .ok (.orderbookUpdate update) =>
      match update.snapshotCandidate exampleProvenance ⟨4, by decide⟩ with
      | .error _ => none
      | .ok candidate =>
        match (OrderBook.new exampleMarket).applySnapshot candidate with
        | .error _ => none
        | .ok (book, _) => if update.bids.length + update.asks.length = 4 then some book.publish.levels else none
    | _ => none

theorem example_frame_levels : ∃ bids asks,
    BytesReport exampleFrameBytes .text .venuePayload "bids" bids ∧
    BytesReport exampleFrameBytes .text .venuePayload "asks" asks ∧
    (exampleFrameLevels.map Level.exact).Perm (bids.map (denotedLevel .bid) ++ asks.map (denotedLevel .ask)) := by
  have hbook : reportedBook exampleFrameBytes = some exampleFrameLevels := by decide +kernel
  unfold reportedBook at hbook
  split at hbook
  · cases hbook
  · next frame hframe =>
    split at hbook
    · next update hevent =>
      split at hbook
      · cases hbook
      · next candidate hcandidate =>
        split at hbook
        · cases hbook
        · next book commit hok =>
          obtain ⟨hfour, hlevels⟩ := Option.ite_none_right_eq_some.1 hbook
          obtain ⟨candidate', bids, asks, hcandidate', hbids, hasks, -, htaken⟩ := orderbook_frame_levels hframe hevent
            (OrderBook.new exampleMarket) exampleProvenance ⟨4, by decide⟩ (by decide) (by decide) (by decide) hfour.le
          obtain rfl := Except.ok.inj (hcandidate.symm.trans hcandidate')
          exact ⟨bids, asks, hbids, hasks, Option.some.inj hlevels ▸ (htaken book commit hok).1⟩
    · cases hbook

end PmWs
