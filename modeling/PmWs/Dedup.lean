import PmWs.Lib.Framing
import PmWs.Observation

/-!
# Dedup keys and content projections

A venue key identifies a frame and, under an ordering declaration, orders the
frames of one connection-session. A projection is the exact content one
candidate reported, as bytes: equal projections of one market are equal
content, with no fingerprint in between.
-/

open MachineInt

namespace PmWs

/-! ## Keys -/

def maxDedupLexemeBytes : Nat := 128

inductive DedupKeyError where
  | empty
  | tooLong
  | notAnExactInteger
  | outOfRange
  | unsupportedCharacter
  deriving DecidableEq, Repr

/-- A non-integer venue key: printable ASCII without spaces. -/
structure DedupLexeme where
  value : String
  nonempty : value ≠ ""
  size_le : value.utf8ByteSize ≤ maxDedupLexemeBytes
  printable : value.toList.all fun c => '!' ≤ c && c ≤ '~'

instance : DecidableEq DedupLexeme := fun a b =>
  decidable_of_iff (a.value = b.value) (by cases a; cases b; simp)

inductive DedupKey where
  | integer (value : Nat)
  | lexeme (value : DedupLexeme)
  deriving DecidableEq

namespace DedupKey

/-- Reads an integer key from its lexeme, exactly: digits only, within `u64`. -/
def parseExactInteger (lexeme : String) : Except DedupKeyError DedupKey :=
  if lexeme = "" then .error .empty
  else if !lexeme.toList.all Char.isDigit then .error .notAnExactInteger
  else if Nat.ofDigitChars 10 lexeme.toList 0 ≤ u64Max then .ok (.integer (Nat.ofDigitChars 10 lexeme.toList 0))
  else .error .outOfRange

def asInteger : DedupKey → Option Nat
  | integer value => some value
  | lexeme _ => none

@[simp] theorem asInteger_integer (n : Nat) : (integer n).asInteger = some n := rfl

theorem asInteger_eq_some {k : DedupKey} {n : Nat} : k.asInteger = some n ↔ k = .integer n := by
  cases k <;> simp [asInteger]

end DedupKey

/-- What a venue declares its key is evidence of. -/
inductive DedupKeySemantics where
  | dedupOnly
  | sessionMonotone
  | orderingProven
  deriving DecidableEq, Repr

def DedupKeySemantics.ordersWithinSession : DedupKeySemantics → Bool
  | .dedupOnly => false
  | .sessionMonotone | .orderingProven => true

def DedupKeySemantics.admitsPooledPublish (self : DedupKeySemantics) : Bool := self.ordersWithinSession

structure DedupKeyDeclaration where
  venue : String
  family : String
  field : String
  semantics : DedupKeySemantics
  deriving DecidableEq, Repr

inductive KeyRelation where
  | first
  | duplicate
  | advance
  | inversion
  | unordered
  deriving DecidableEq, Repr

/-- Classifies `next` against `last` under the declared semantics. -/
def classifyKey (semantics : DedupKeySemantics) (last : Option DedupKey) (next : DedupKey) : KeyRelation :=
  match last with
  | none => .first
  | some last =>
    if last = next then .duplicate
    else
      match last.asInteger, next.asInteger with
      | some l, some n => if semantics.ordersWithinSession then if n > l then .advance else .inversion else .unordered
      | _, _ => .unordered

/-- How an integer key relates to an earlier one. -/
def relate (last : Option Nat) (next : Nat) : KeyRelation :=
  match last with
  | none => .first
  | some l => if l = next then .duplicate else if l < next then .advance else .inversion

theorem classifyKey_integer {semantics : DedupKeySemantics} (h : semantics.ordersWithinSession = true)
    (last : Option Nat) (next : Nat) :
    classifyKey semantics (last.map .integer) (.integer next) = relate last next := by
  cases last with
  | none => rfl
  | some l => simp [classifyKey, relate, h, DedupKey.asInteger]

theorem relate_inversion {last : Option Nat} {n : Nat} :
    relate last n = .inversion ↔ ∃ l, last = some l ∧ n < l := by
  cases last with
  | none => simp [relate]
  | some l =>
    simp only [relate]
    split
    · simp; omega
    · split <;> simp <;> omega

theorem relate_newer {last : Option Nat} {n : Nat} :
    relate last n = .first ∨ relate last n = .advance ↔ ∀ l, last = some l → l < n := by
  cases last with
  | none => simp [relate]
  | some l =>
    simp only [relate]
    split
    · simp; omega
    · split <;> simp <;> omega

theorem relate_duplicate {last : Option Nat} {n : Nat} : relate last n = .duplicate ↔ last = some n := by
  cases last with
  | none => simp [relate]
  | some l =>
    simp only [relate]
    split
    · simpa
    · split <;> simpa

theorem relate_ne_unordered (last : Option Nat) (n : Nat) : relate last n ≠ .unordered := by
  cases last with
  | none => simp [relate]
  | some l =>
    simp only [relate]
    split
    · simp
    · split <;> simp

/-! ## Projections -/

def fieldSeparator : UInt8 := 0x1f
def recordSeparator : UInt8 := 0x1e

/-- `str::as_bytes`. -/
def asBytes (text : List Char) : List UInt8 := text.flatMap String.utf8EncodeChar

abbrev CandidateProjection := List UInt8

def sideTag : Side → UInt8
  | .bid => 66
  | .ask => 65

theorem sideTag_inj {a b : Side} (h : sideTag a = sideTag b) : a = b := by
  cases a <;> cases b <;> simp_all [sideTag]

/-- One level of a projection: side, price, quantity in canonical decimal form. -/
def projectLevel (level : Level) : List UInt8 :=
  sideTag level.side :: fieldSeparator :: asBytes level.price.value.canonical ++
    fieldSeparator :: asBytes level.quantity.value.canonical ++ [recordSeparator]

def operationTag : CandidateOperation → UInt8
  | .snapshot _ => 83
  | .sourceDelta _ => 68

def CandidateOperation.levels : CandidateOperation → List Level
  | .snapshot levels => levels.levels
  | .sourceDelta levels => levels.levels

def projectMarket (market : MarketRef) : List UInt8 :=
  asBytes market.venue.value.toList ++ fieldSeparator :: asBytes market.key.kind.value.toList ++
    fieldSeparator :: asBytes market.key.value.value.toList ++ [recordSeparator]

/-- Projects exactly what one candidate reported. Provenance takes no part beyond the market. -/
def candidateProjection (candidate : Candidate) : CandidateProjection :=
  projectMarket candidate.provenance.market ++ operationTag candidate.operation :: recordSeparator ::
    candidate.operation.levels.flatMap projectLevel

theorem utf8EncodeChar_ascii {c : Char} (h : c.val.toNat < 128) :
    String.utf8EncodeChar c = [UInt8.ofNat c.val.toNat] := by
  unfold String.utf8EncodeChar
  simp only
  rw [if_pos (by omega)]

/-- The characters a canonical decimal is spelled with. -/
theorem canonical_ascii {d : ExactDecimal} {c : Char} (h : c ∈ d.canonical) :
    32 < c.val.toNat ∧ c.val.toNat < 128 := by
  rcases ExactDecimal.canonical_chars h with h | rfl | rfl
  · simp only [Char.isDigit, ge_iff_le, Bool.and_eq_true, decide_eq_true_eq, UInt32.le_iff_toNat_le] at h
    have h1 : (48 : Nat) ≤ c.val.toNat := h.1
    have h2 : c.val.toNat ≤ 57 := h.2
    omega
  · decide
  · decide

theorem asBytes_canonical (d : ExactDecimal) :
    asBytes d.canonical = d.canonical.map fun c => UInt8.ofNat c.val.toNat := by
  rw [asBytes, List.map_eq_flatMap]
  exact List.flatMap_congr fun c hc => utf8EncodeChar_ascii (canonical_ascii hc).2

theorem notMem_asBytes_canonical (d : ExactDecimal) {b : UInt8} (hb : b.toNat ≤ 32) : b ∉ asBytes d.canonical := by
  rw [asBytes_canonical, List.mem_map]
  rintro ⟨c, hc, rfl⟩
  have := canonical_ascii hc
  rw [UInt8.toNat_ofNat'] at hb
  omega

/-- The bytes of a canonical decimal read back as its characters. -/
theorem asBytes_canonical_reads (d : ExactDecimal) :
    (asBytes d.canonical).map (fun b => Char.ofNat b.toNat) = d.canonical := by
  rw [asBytes_canonical, List.map_map]
  refine (List.map_congr_left fun c hc => ?_).trans (List.map_id _)
  have hsmall : (UInt8.ofNat c.val.toNat).toNat = c.toNat := by
    rw [UInt8.toNat_ofNat']
    exact Nat.mod_eq_of_lt (by have := (canonical_ascii hc).2; omega)
  rw [Function.comp_apply, hsmall, Char.ofNat_toNat, id]

theorem asBytes_canonical_inj {a b : ExactDecimal} (ha : 0 ≤ a.coefficient) (hb : 0 ≤ b.coefficient)
    (h : asBytes a.canonical = asBytes b.canonical) : a = b := by
  refine ExactDecimal.canonical_inj ha hb ?_
  rw [← asBytes_canonical_reads a, h, asBytes_canonical_reads b]

theorem projectLevel_inj (a b : Level) (x y : List UInt8) (h : projectLevel a ++ x = projectLevel b ++ y) :
    a = b ∧ x = y := by
  have hsep {d : ExactDecimal} : fieldSeparator ∉ asBytes d.canonical := notMem_asBytes_canonical d (by decide)
  have hrec {d : ExactDecimal} : recordSeparator ∉ asBytes d.canonical := notMem_asBytes_canonical d (by decide)
  simp only [projectLevel, List.cons_append, List.append_assoc, List.cons.injEq, true_and, List.nil_append] at h
  obtain ⟨hside, h⟩ := h
  obtain ⟨hprice, h⟩ := Framing.append_cons_inj hsep hsep h
  obtain ⟨hquantity, h⟩ := Framing.append_cons_inj hrec hrec h
  refine ⟨?_, h⟩
  obtain ⟨sa, pa, qa⟩ := a
  obtain ⟨sb, pb, qb⟩ := b
  have hs : sa = sb := sideTag_inj hside
  have hp := Price.ext_value (asBytes_canonical_inj pa.nonneg pb.nonneg hprice)
  have hq := Quantity.ext_value (asBytes_canonical_inj qa.nonneg qb.nonneg hquantity)
  rw [hs, hp, hq]

/-- Two candidates of one market with equal projections reported the same levels in the same order. -/
theorem candidateProjection_levels {a b : Candidate} (hm : a.provenance.market = b.provenance.market)
    (h : candidateProjection a = candidateProjection b) : a.operation.levels = b.operation.levels := by
  simp only [candidateProjection, hm, List.append_cancel_left_eq, List.cons.injEq, true_and] at h
  exact Framing.flatMap_inj (fun level => by simp [projectLevel]) projectLevel_inj h.2

def CandidateOperation.isSnapshot : CandidateOperation → Bool
  | .snapshot _ => true
  | .sourceDelta _ => false

theorem operationTag_inj {a b : CandidateOperation} : operationTag a = operationTag b ↔ a.isSnapshot = b.isSnapshot := by
  cases a <;> cases b <;> simp [operationTag, CandidateOperation.isSnapshot]

/-- Two levels of one side whose price and quantity are the same numbers. -/
def Level.SameValues (a b : Level) : Prop :=
  a.side = b.side ∧ a.price.value.toRat = b.price.value.toRat ∧ a.quantity.value.toRat = b.quantity.value.toRat

theorem Level.sameValues_iff {a b : Level} : a.SameValues b ↔ a = b := by
  refine ⟨fun ⟨hside, hprice, hquantity⟩ => ?_, fun h => h ▸ ⟨rfl, rfl, rfl⟩⟩
  obtain ⟨side, ⟨price, _⟩, ⟨quantity, _⟩⟩ := a
  obtain ⟨side', ⟨price', _⟩, ⟨quantity', _⟩⟩ := b
  obtain rfl : side = side' := hside
  obtain rfl : price = price' := ExactDecimal.toRat_inj hprice
  obtain rfl : quantity = quantity' := ExactDecimal.toRat_inj hquantity
  rfl

/-- Two candidates of one market project alike exactly where they carry one operation and the same levels, value for
value, in the same order. -/
theorem candidateProjection_exact {a b : Candidate} (hm : a.provenance.market = b.provenance.market) :
    candidateProjection a = candidateProjection b ↔ a.operation.isSnapshot = b.operation.isSnapshot ∧
      List.Forall₂ Level.SameValues a.operation.levels b.operation.levels := by
  have hvalues : List.Forall₂ Level.SameValues a.operation.levels b.operation.levels ↔
      a.operation.levels = b.operation.levels := by
    have hsame : Level.SameValues = Eq := funext₂ fun _ _ => propext Level.sameValues_iff
    rw [hsame, List.forall₂_eq_eq_eq]
  rw [hvalues]
  refine ⟨fun h => ⟨?_, candidateProjection_levels hm h⟩, fun ⟨hkind, hlevels⟩ => ?_⟩
  · simp only [candidateProjection, hm, List.append_cancel_left_eq, List.cons.injEq] at h
    exact operationTag_inj.1 h.1
  · unfold candidateProjection
    rw [hm, hlevels, operationTag_inj.2 hkind]

/-- A frame and its copy from a standby, then a frame whose size differs. -/
theorem example_projections :
    candidateProjection (exampleSnapshot [exampleLevel .bid 3 100] (by decide)) =
        candidateProjection ⟨{ exampleProvenance with replica := .hotStandby, valid := by decide },
          .snapshot ⟨[exampleLevel .bid 3 100], ⟨8, by decide⟩, by decide⟩, by rfl⟩ ∧
      candidateProjection (exampleSnapshot [exampleLevel .bid 3 100] (by decide)) ≠
        candidateProjection (exampleSnapshot [exampleLevel .bid 3 101] (by decide)) := by
  refine ⟨(candidateProjection_exact rfl).2 ⟨rfl, .cons ⟨rfl, rfl, rfl⟩ .nil⟩, fun h => ?_⟩
  have hmarket : (exampleSnapshot [exampleLevel .bid 3 100] (by decide)).provenance.market =
      (exampleSnapshot [exampleLevel .bid 3 101] (by decide)).provenance.market := rfl
  rcases (candidateProjection_exact hmarket).1 h with ⟨-, _ | ⟨⟨-, -, hquantity⟩, -⟩⟩
  exact absurd (ExactDecimal.toRat_inj hquantity) (by decide)

/-! ## Fingerprints -/

/-- FNV-1a, carried for reading and never for gating. -/
def absorb (state : Nat) (bytes : List UInt8) : Nat :=
  bytes.foldl (fun state byte => ((state ^^^ byte.toNat) * 0x100000001b3) % 2 ^ 64) state

abbrev ContentDigest := Nat

def digestOf (projection : CandidateProjection) : ContentDigest := absorb 0xcbf29ce484222325 projection

end PmWs
