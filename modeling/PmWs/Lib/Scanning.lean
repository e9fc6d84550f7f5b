import Mathlib.Tactic.Common

/-!
# Scanners over a list

A scanner moves an offset along a fixed input and may fail. `Reads` says exactly
when it succeeds: what stands at its offset splits into what it takes and what
it leaves, and the two are related to its result. Scanners in sequence read
what their relations compose to, so a scanner and a grammar are compared piece
by piece, both ways at once.
-/

namespace Scanning

variable {τ ε α β : Type}

/-- A scanner: it starts at an offset and stops at one. -/
abbrev Scan (ε α : Type) := StateT Nat (Except ε) α

def peek (input : List τ) : Scan ε (Option τ) := fun offset => .ok (input[offset]?, offset)

/-- The token there, without moving past it. -/
def peekOr (input : List τ) (error : Nat → ε) : Scan ε τ := fun offset =>
  match input[offset]? with
  | some t => .ok (t, offset)
  | none => .error (error offset)

def advance (n : Nat) : Scan ε Unit := fun offset => .ok ((), offset + n)

/-- Moves past every token that passes the test. -/
def skipWhile (input : List τ) (test : τ → Bool) : Scan ε Unit := fun offset =>
  .ok ((), offset + ((input.drop offset).takeWhile test).length)

/-- Fails on a condition. -/
def refuse (condition : Prop) [Decidable condition] (error : ε) : Scan ε Unit :=
  if condition then throw error else pure ()

/-- Fails without a value. -/
def require (value : Option α) (error : ε) : Scan ε α :=
  match value with
  | some a => pure a
  | none => throw error

/-- The scanner succeeds exactly by taking a `used` and leaving a `rest` its relation admits. -/
def Reads (input : List τ) (x : Scan ε α) (offset : Nat) (relation : List τ → List τ → α → Prop) : Prop :=
  ∀ a stop, x offset = .ok (a, stop) ↔
    ∃ used rest, input.drop offset = used ++ rest ∧ stop = offset + used.length ∧ relation used rest a

variable {input : List τ} {x : Scan ε α} {offset : Nat} {relation : List τ → List τ → α → Prop}
  {used rest text : List τ} {error : ε}

theorem drop_after (h : input.drop offset = used ++ rest) : input.drop (offset + used.length) = rest := by
  rw [← List.drop_drop, h, List.drop_left]

theorem drop_succ {t : τ} (h : input.drop offset = t :: text) : input.drop (offset + 1) = text :=
  drop_after (show input.drop offset = [t] ++ text from h)

/-! ## In sequence -/

theorem stop_le (hdrop : input.drop offset = used ++ rest) (hoffset : offset ≤ input.length) :
    offset + used.length ≤ input.length := by
  have hlength := congrArg List.length hdrop
  rw [List.length_drop, List.length_append] at hlength
  omega

theorem bind_eq_ok {f : α → Scan ε β} {b : β} {stop : Nat} :
    (x >>= f) offset = .ok (b, stop) ↔ ∃ a middle, x offset = .ok (a, middle) ∧ f a middle = .ok (b, stop) := by
  change StateT.bind x f offset = _ ↔ _
  unfold StateT.bind
  cases x offset with
  | error e => exact ⟨nofun, fun ⟨_, _, h, _⟩ => nomatch h⟩
  | ok result =>
    obtain ⟨a, middle⟩ := result
    exact ⟨fun h => ⟨a, middle, rfl, h⟩, fun ⟨_, _, hx, h⟩ => by cases hx; exact h⟩

/-- A scanner and what follows it read a relation when the first takes the start of everything the relation admits, and
the second goes on from there. -/
theorem Reads.bind {f : α → Scan ε β} {whole : List τ → List τ → β → Prop} (hx : Reads input x offset relation)
    (hsplit : ∀ used rest b, input.drop offset = used ++ rest → whole used rest b →
      ∃ first second a, used = first ++ second ∧ relation first (second ++ rest) a)
    (hf : ∀ first left a, input.drop offset = first ++ left → relation first left a →
      Reads input (f a) (offset + first.length) fun second rest b => whole (first ++ second) rest b) :
    Reads input (x >>= f) offset whole := by
  intro b stop
  rw [bind_eq_ok]
  constructor
  · rintro ⟨a, middle, hfirst, hsecond⟩
    obtain ⟨first, left, hdrop, rfl, hrelation⟩ := (hx a middle).1 hfirst
    obtain ⟨second, rest, hleft, rfl, hwhole⟩ := (hf first left a hdrop hrelation b stop).1 hsecond
    rw [drop_after hdrop] at hleft
    subst hleft
    refine ⟨first ++ second, rest, ?_, ?_, hwhole⟩
    · rw [hdrop, List.append_assoc]
    · rw [List.length_append, Nat.add_assoc]
  · rintro ⟨used, rest, hdrop, rfl, hwhole⟩
    obtain ⟨first, second, a, rfl, hrelation⟩ := hsplit used rest b hdrop hwhole
    rw [List.append_assoc] at hdrop
    refine ⟨a, _, (hx a _).2 ⟨first, second ++ rest, hdrop, rfl, hrelation⟩, ?_⟩
    refine (hf first _ a hdrop hrelation b _).2 ⟨second, rest, drop_after hdrop, ?_, hwhole⟩
    rw [List.length_append, Nat.add_assoc]

/-- An equivalent relation, where it matters. -/
theorem Reads.congr {relation' : List τ → List τ → α → Prop} (hx : Reads input x offset relation)
    (h : ∀ used rest a, input.drop offset = used ++ rest → (relation used rest a ↔ relation' used rest a)) :
    Reads input x offset relation' := by
  intro a stop
  rw [hx a stop]
  refine exists₂_congr fun used rest => and_congr_right fun hdrop => ?_
  rw [h used rest a hdrop]

theorem reads_pure (a : α) : Reads input (pure a : Scan ε α) offset fun used _ result => used = [] ∧ result = a := by
  intro result stop
  constructor
  · rintro ⟨⟩
    exact ⟨[], input.drop offset, rfl, rfl, rfl, rfl⟩
  · rintro ⟨_, rest, -, rfl, rfl, rfl⟩
    rfl

/-- A scanner that fails reads whatever there is nothing of. -/
theorem reads_fail {e : ε} (h : x offset = .error e)
    (hnone : ∀ used rest a, input.drop offset = used ++ rest → ¬ relation used rest a) : Reads input x offset relation := by
  intro a stop
  rw [h]
  exact ⟨nofun, fun ⟨used, rest, hdrop, _, hrelation⟩ => (hnone used rest a hdrop hrelation).elim⟩

theorem Reads.refuse {condition : Prop} [Decidable condition] {f : Unit → Scan ε α}
    (hrefused : condition → ∀ used rest a, input.drop offset = used ++ rest → ¬ relation used rest a)
    (h : ¬ condition → Reads input (f ()) offset relation) :
    Reads input (Scanning.refuse condition error >>= f) offset relation := by
  unfold Scanning.refuse
  split
  · next hcondition => exact reads_fail rfl (hrefused hcondition)
  · next hcondition => exact h hcondition

theorem Reads.require {value : Option β} {f : β → Scan ε α}
    (hnone : value = none → ∀ used rest a, input.drop offset = used ++ rest → ¬ relation used rest a)
    (h : ∀ b, value = some b → Reads input (f b) offset relation) :
    Reads input (Scanning.require value error >>= f) offset relation := by
  cases value with
  | none => exact reads_fail rfl (hnone rfl)
  | some b => exact h b rfl

theorem reads_require (value : Option α) (error : ε) :
    Reads input (require value error : Scan ε α) offset fun used _ a => used = [] ∧ value = some a := by
  cases value with
  | none => exact reads_fail rfl fun _ _ _ _ h => nomatch h.2
  | some a =>
    refine (reads_pure a).congr fun used _ result _ => and_congr_right fun _ => ?_
    rw [Option.some.injEq, eq_comm]

/-- A scanner takes one thing. -/
theorem Reads.unique (hx : Reads input x offset relation) {used' rest' : List τ} {a a' : α}
    (hdrop : input.drop offset = used ++ rest) (hdrop' : input.drop offset = used' ++ rest')
    (hrelation : relation used rest a) (hrelation' : relation used' rest' a') : used = used' ∧ rest = rest' ∧ a = a' := by
  have hok := (hx a _).2 ⟨used, rest, hdrop, rfl, hrelation⟩
  have hok' := (hx a' _).2 ⟨used', rest', hdrop', rfl, hrelation'⟩
  obtain ⟨ha, hstop⟩ := Prod.mk.inj (Except.ok.inj (hok.symm.trans hok'))
  obtain ⟨hused, hrest⟩ := List.append_inj (hdrop.symm.trans hdrop') (Nat.add_left_cancel hstop)
  exact ⟨hused, hrest, ha⟩

/-- Scanners in sequence, each with a relation of its own. -/
theorem Reads.seq {f : α → Scan ε β} (hx : Reads input x offset relation) (next : α → List τ → List τ → β → Prop)
    (hf : ∀ first left a, input.drop offset = first ++ left → relation first left a →
      Reads input (f a) (offset + first.length) (next a)) :
    Reads input (x >>= f) offset fun used rest b =>
      ∃ first second a, used = first ++ second ∧ relation first (second ++ rest) a ∧ next a second rest b := by
  refine hx.bind (fun _ _ _ _ ⟨first, second, a, hused, hrelation, _⟩ => ⟨first, second, a, hused, hrelation⟩) ?_
  intro first left a hdrop hrelation
  refine (hf first left a hdrop hrelation).congr fun second rest b hleft => ?_
  rw [drop_after hdrop] at hleft
  subst hleft
  constructor
  · exact fun hnext => ⟨first, second, a, rfl, hrelation, hnext⟩
  · rintro ⟨first', second', a', hused, hrelation', hnext⟩
    have hdrop' : input.drop offset = first' ++ (second' ++ rest) := by
      rw [hdrop, ← List.append_assoc, hused, List.append_assoc]
    obtain ⟨rfl, -, rfl⟩ := hx.unique hdrop hdrop' hrelation hrelation'
    rw [List.append_cancel_left hused]
    exact hnext

/-- What is decided about a result without moving on. -/
theorem Reads.settle {f : α → Scan ε β} (hx : Reads input x offset relation) (gives : α → β → Prop)
    (hf : ∀ a middle b stop, f a middle = .ok (b, stop) ↔ stop = middle ∧ gives a b) :
    Reads input (x >>= f) offset fun used rest b => ∃ a, relation used rest a ∧ gives a b := by
  intro b stop
  rw [bind_eq_ok]
  constructor
  · rintro ⟨a, middle, hfirst, hsecond⟩
    obtain ⟨used, rest, hdrop, rfl, hrelation⟩ := (hx a middle).1 hfirst
    obtain ⟨rfl, hgives⟩ := (hf a _ b stop).1 hsecond
    exact ⟨used, rest, hdrop, rfl, a, hrelation, hgives⟩
  · rintro ⟨used, rest, hdrop, rfl, a, hrelation, hgives⟩
    exact ⟨a, _, (hx a _).2 ⟨used, rest, hdrop, rfl, hrelation⟩, (hf a _ b _).2 ⟨rfl, hgives⟩⟩

theorem Reads.returns (hx : Reads input x offset relation) (f : α → β) :
    Reads input (x >>= fun a => pure (f a)) offset fun used rest b => ∃ a, relation used rest a ∧ b = f a :=
  hx.settle _ fun a middle b stop => by
    constructor
    · rintro ⟨⟩
      exact ⟨rfl, rfl⟩
    · rintro ⟨rfl, rfl⟩
      rfl

theorem require_eq_ok {value : Option α} {a : α} {stop : Nat} :
    (require value error : Scan ε α) offset = .ok (a, stop) ↔ stop = offset ∧ value = some a := by
  cases value with
  | none => exact ⟨nofun, nofun⟩
  | some b => exact ⟨by rintro ⟨⟩; exact ⟨rfl, rfl⟩, by rintro ⟨rfl, ⟨⟩⟩; rfl⟩

theorem refuse_bind_eq_ok {condition : Prop} [Decidable condition] {f : Unit → Scan ε α} {a : α} {stop : Nat} :
    (refuse condition error >>= f) offset = .ok (a, stop) ↔ ¬ condition ∧ f () offset = .ok (a, stop) := by
  unfold refuse
  split
  · next h => exact ⟨nofun, fun hnot => absurd h hnot.1⟩
  · next h => exact ⟨fun hf => ⟨h, hf⟩, fun hf => hf.2⟩

/-! ## Looking and moving -/

theorem Reads.peek {f : Option τ → Scan ε α} (h : Reads input (f (input.drop offset).head?) offset relation) :
    Reads input (Scanning.peek input >>= f) offset relation := by
  rw [List.head?_drop] at h
  exact h

theorem Reads.get {f : Nat → Scan ε α} (h : Reads input (f offset) offset relation) :
    Reads input (MonadState.get >>= f) offset relation := h

theorem Reads.peekOr {error : Nat → ε} {f : τ → Scan ε α} (hend : input.drop offset = [] → ∀ a, ¬ relation [] [] a)
    (h : ∀ t text, input.drop offset = t :: text → Reads input (f t) offset relation) :
    Reads input (Scanning.peekOr input error >>= f) offset relation := by
  have hpeek : (Scanning.peekOr input error >>= f) offset = match input[offset]? with
      | some t => f t offset
      | none => .error (error offset) := by
    change StateT.bind _ f offset = _
    unfold StateT.bind Scanning.peekOr
    cases input[offset]? <;> rfl
  rw [← List.head?_drop] at hpeek
  cases htext : input.drop offset with
  | nil =>
    rw [htext] at hpeek
    refine reads_fail hpeek fun used rest a hdrop => ?_
    obtain ⟨rfl, rfl⟩ := List.append_eq_nil_iff.1 (hdrop.symm.trans htext)
    exact hend htext a
  | cons t text =>
    have hat : (Scanning.peekOr input error >>= f) offset = f t offset := by rw [hpeek, htext]; rfl
    intro a stop
    rw [hat]
    exact h t text htext a stop

theorem reads_advance {known : List τ} {n : Nat} (htext : input.drop offset = known ++ text)
    (hn : known.length = n) : Reads input (advance n : Scan ε Unit) offset fun used _ _ => used = known := by
  subst hn
  intro a stop
  constructor
  · rintro ⟨⟩
    exact ⟨known, text, htext, rfl, rfl⟩
  · rintro ⟨used, rest, -, rfl, rfl⟩
    rfl

/-- Past what is known to stand there, and what the relation starts with. -/
theorem Reads.advance {known : List τ} {n : Nat} {f : Unit → Scan ε α} (htext : input.drop offset = known ++ text)
    (hn : known.length = n)
    (hknown : ∀ used rest a, input.drop offset = used ++ rest → relation used rest a → ∃ more, used = known ++ more)
    (h : Reads input (f ()) (offset + n) fun more rest a => relation (known ++ more) rest a) :
    Reads input (Scanning.advance n >>= f) offset relation := by
  refine (reads_advance htext hn).bind ?_ ?_
  · intro used rest a hdrop hrelation
    obtain ⟨more, hmore⟩ := hknown used rest a hdrop hrelation
    exact ⟨known, more, (), hmore, rfl⟩
  · rintro first left ⟨⟩ - rfl
    exact hn ▸ h

theorem Reads.advance_one {t : τ} {f : Unit → Scan ε α} (htext : input.drop offset = t :: text)
    (hne : ∀ rest a, ¬ relation [] rest a)
    (h : Reads input (f ()) (offset + 1) fun more rest a => relation (t :: more) rest a) :
    Reads input (Scanning.advance 1 >>= f) offset relation := by
  refine Reads.advance (show input.drop offset = [t] ++ text from htext) rfl (fun used rest a hdrop hrelation => ?_) h
  cases used with
  | nil => exact absurd hrelation (hne rest a)
  | cons t' more => exact ⟨more, by rw [(List.cons.inj (htext.symm.trans hdrop)).1]; rfl⟩

theorem takeWhile_eq_iff {test : τ → Bool} (h : text = used ++ rest) :
    (text.takeWhile test).length = used.length ↔ (∀ t ∈ used, test t = true) ∧ ∀ t ∈ rest.head?, test t = false := by
  subst h
  induction used with
  | nil =>
    cases rest with
    | nil => simp
    | cons t rest => cases ht : test t <;> simp [ht]
  | cons t used ih =>
    cases ht : test t <;> simp [ht, ih]

theorem reads_skipWhile (test : τ → Bool) : Reads input (skipWhile input test : Scan ε Unit) offset fun used rest _ =>
    (∀ t ∈ used, test t = true) ∧ ∀ t ∈ rest.head?, test t = false := by
  intro a stop
  constructor
  · rintro ⟨⟩
    refine ⟨_, _, (List.takeWhile_append_dropWhile ..).symm, rfl, ?_⟩
    exact (takeWhile_eq_iff (List.takeWhile_append_dropWhile ..).symm).1 rfl
  · rintro ⟨used, rest, hdrop, rfl, h⟩
    unfold skipWhile
    rw [(takeWhile_eq_iff hdrop).2 h]

/-! ## Pieces of a grammar -/

/-- One item after another. -/
inductive Repeated (item : List τ → α → Prop) : List τ → List α → Prop
  | nil : Repeated item [] []
  | cons {used more : List τ} {a : α} {as : List α} (head : item used a) (tail : Repeated item more as) :
      Repeated item (used ++ more) (a :: as)

/-- At least one item, with a separator between any two. -/
inductive Separated (separator : τ) (item : List τ → α → Prop) : List τ → List α → Prop
  | one {used : List τ} {a : α} (only : item used a) : Separated separator item used [a]
  | cons {used more : List τ} {a : α} {as : List α} (head : item used a) (tail : Separated separator item more as) :
      Separated separator item (used ++ separator :: more) (a :: as)

end Scanning
