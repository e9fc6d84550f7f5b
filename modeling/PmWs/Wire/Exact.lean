import Mathlib
import PmWs.Wire.Grammar

/-!
# The parser accepts exactly its grammar

Each function of the scanner reads one piece of the grammar. They are composed
as the scanner composes them, so both directions come out of one induction over
the depth.
-/

open Scanning Utf8

namespace PmWs.Wire

/-! ## Characters -/

theorem utf8Width_toNat (byte : UInt8) : utf8Width byte =
    if byte.toNat ≤ 0x7f then 1
    else if 0xc2 ≤ byte.toNat ∧ byte.toNat ≤ 0xdf then 2
    else if 0xe0 ≤ byte.toNat ∧ byte.toNat ≤ 0xef then 3
    else if 0xf0 ≤ byte.toNat ∧ byte.toNat ≤ 0xf4 then 4
    else 0 := by
  simp [utf8Width, UInt8.le_iff_toNat_le]

/-- What the first byte of a character says about it. -/
theorem encodeChar_first (char : Char) : ∃ byte more, String.utf8EncodeChar char = byte :: more ∧
    utf8Width byte = more.length + 1 ∧
    (more = [] ∧ byte.toNat = char.toNat ∨ 0x80 ≤ byte.toNat ∧ 0x80 ≤ char.toNat) := by
  have hval : char.val.toNat = char.toNat := rfl
  have hmax : char.toNat < 0x110000 := by
    rcases char.valid with h | h <;> omega
  have hsmall : ∀ n < 256, (UInt8.ofNat n).toNat = n := fun n hn => by simp [Nat.mod_eq_of_lt hn]
  unfold String.utf8EncodeChar
  change ∃ byte more, (if char.toNat ≤ 127 then _ else if char.toNat ≤ 2047 then _ else if char.toNat ≤ 65535 then _ else _) =
    byte :: more ∧ _
  -- One case per width.
  split
  · refine ⟨_, _, rfl, ?_, .inl ⟨rfl, hsmall _ (by omega)⟩⟩
    rw [utf8Width_toNat, hsmall _ (by omega), if_pos (by omega)]
    rfl
  · split
    · refine ⟨_, _, rfl, ?_, .inr ⟨by rw [hsmall _ (by omega)]; omega, by omega⟩⟩
      rw [utf8Width_toNat, hsmall _ (by omega), if_neg (by omega), if_pos (by omega)]
      rfl
    · split
      · refine ⟨_, _, rfl, ?_, .inr ⟨by rw [hsmall _ (by omega)]; omega, by omega⟩⟩
        rw [utf8Width_toNat, hsmall _ (by omega), if_neg (by omega), if_neg (by omega), if_pos (by omega)]
        rfl
      · refine ⟨_, _, rfl, ?_, .inr ⟨by rw [hsmall _ (by omega)]; omega, by omega⟩⟩
        rw [utf8Width_toNat, hsmall _ (by omega), if_neg (by omega), if_neg (by omega), if_neg (by omega),
          if_pos (by omega)]
        rfl

theorem hexDigit_lt {byte : UInt8} {digit : Nat} (h : hexDigit byte = some digit) : digit < 16 := by
  have h0 : (ascii '0').toNat = 48 := rfl
  have h9 : (ascii '9').toNat = 57 := rfl
  have ha : (ascii 'a').toNat = 97 := rfl
  have hf : (ascii 'f').toNat = 102 := rfl
  have hA : (ascii 'A').toNat = 65 := rfl
  have hF : (ascii 'F').toNat = 70 := rfl
  simp only [hexDigit, UInt8.le_iff_toNat_le] at h
  split at h
  · cases h
    omega
  · split at h
    · cases h
      omega
    · split at h
      · cases h
        omega
      · cases h

theorem hexValue_lt {digits : List UInt8} {value : Nat} (h : hexValue digits = some value) :
    value < 16 ^ digits.length := by
  have hfold : ∀ {digits : List UInt8} {start value : Nat},
      digits.foldlM (fun value byte => (hexDigit byte).map (value * 16 + ·)) start = some value →
      value < (start + 1) * 16 ^ digits.length := by
    intro digits
    induction digits with
    | nil =>
      rintro start _ ⟨⟩
      simp
    | cons byte digits ih =>
      intro start value hvalue
      rw [List.foldlM_cons] at hvalue
      obtain ⟨_, hstep, hrest⟩ := Option.bind_eq_some_iff.1 hvalue
      obtain ⟨digit, hdigit, rfl⟩ := Option.map_eq_some_iff.1 hstep
      have hlt := hexDigit_lt hdigit
      calc value < (start * 16 + digit + 1) * 16 ^ digits.length := ih hrest
        _ ≤ ((start + 1) * 16) * 16 ^ digits.length := Nat.mul_le_mul_right _ (by omega)
        _ = (start + 1) * 16 ^ (byte :: digits).length := by rw [List.length_cons, Nat.pow_succ', Nat.mul_assoc]
  have hlt := hfold h
  rwa [Nat.zero_add, Nat.one_mul] at hlt

theorem charFromU32_eq_some {value : Nat} {char : Char} (hvalid : value.isValidChar) :
    charFromU32 value = some char ↔ char = Char.ofNat value := by
  rw [charFromU32, if_pos hvalid, Option.some.injEq, eq_comm]

/-- Four digits outside the surrogates name a character. -/
theorem unit_valid {digits : List UInt8} {value : Nat} (hfour : digits.length = 4) (hvalue : hexValue digits = some value)
    (hhigh : isHighSurrogate value = false) (hlow : isLowSurrogate value = false) : value.isValidChar := by
  have hlt := hexValue_lt hvalue
  rw [hfour] at hlt
  simp only [isHighSurrogate, isLowSurrogate, decide_eq_false_iff_not] at hhigh hlow
  unfold Nat.isValidChar
  omega

theorem pair_valid {first second : Nat} (hhigh : isHighSurrogate first = true) (hlow : isLowSurrogate second = true) :
    (combineSurrogates first second).isValidChar := by
  simp only [isHighSurrogate, isLowSurrogate, decide_eq_true_eq] at hhigh hlow
  unfold Nat.isValidChar combineSurrogates
  rw [Nat.shiftLeft_eq]
  omega

/-! ## Leaves of the scanner -/

namespace Scanner

variable {bytes used rest : List UInt8} {byte : UInt8} {limits : LexicalLimits} {offset : Nat}

theorem expect_reads (byte : UInt8) : Reads bytes (expect bytes byte) offset fun used _ _ => used = [byte] := by
  refine Reads.peekOr (fun _ _ => nofun) fun found text htext => Reads.get (Reads.refuse ?_ ?_)
  · rintro hne used rest - hdrop rfl
    exact hne (List.cons.inj (htext.symm.trans hdrop)).1
  · intro heq
    obtain rfl : found = byte := not_not.1 heq
    exact reads_advance (show bytes.drop offset = [found] ++ text from htext) rfl

theorem literal_reads (known : List UInt8) :
    Reads bytes (literal bytes known) offset fun used _ _ => used = known := by
  refine Reads.get (Reads.get (Reads.refuse ?_ ?_))
  · rintro hne used rest - hdrop rfl
    exact hne (List.isPrefixOf_iff_prefix.2 ⟨rest, hdrop.symm⟩)
  · intro hprefix
    obtain ⟨text, htext⟩ := List.isPrefixOf_iff_prefix.1 (not_not.1 hprefix)
    exact reads_advance htext.symm rfl

theorem hex4_reads : Reads bytes (hex4 bytes) offset fun used _ value => used.length = 4 ∧ hexValue used = some value := by
  have htake : ∀ {used rest : List UInt8}, bytes.drop offset = used ++ rest → used.length = 4 →
      (bytes.drop offset).take 4 = used := by
    rintro used rest hdrop hfour
    rw [hdrop, ← hfour, List.take_left]
  refine Reads.get (Reads.refuse ?_ fun hlong => Reads.require ?_ fun value hvalue => ?_)
  · rintro hshort used rest - hdrop ⟨hfour, -⟩
    have hlength := congrArg List.length hdrop
    rw [List.length_drop, List.length_append] at hlength
    omega
  · rintro hnone used rest value hdrop ⟨hfour, hvalue⟩
    rw [htake hdrop hfour, hvalue] at hnone
    cases hnone
  · have hfour : ((bytes.drop offset).take 4).length = 4 := by
      rw [List.length_take, List.length_drop]
      omega
    refine Reads.advance (List.take_append_drop 4 _).symm hfour ?_ ((reads_pure value).congr ?_)
    · rintro used rest - hdrop ⟨hlength, -⟩
      exact ⟨[], by rw [htake hdrop hlength, List.append_nil]⟩
    · rintro more rest result -
      constructor
      · rintro ⟨rfl, rfl⟩
        rw [List.append_nil]
        exact ⟨hfour, hvalue⟩
      · rintro ⟨hlength, hresult⟩
        rw [List.length_append, hfour] at hlength
        obtain rfl : more = [] := List.eq_nil_of_length_eq_zero (by omega)
        rw [List.append_nil, hvalue] at hresult
        exact ⟨rfl, (Option.some.inj hresult).symm⟩

theorem escapeByte_reads (byte : UInt8) (start : Nat) :
    Reads bytes (escapeByte bytes byte start) offset fun used _ _ => used = [byte] := by
  refine Reads.peek (Reads.refuse ?_ ?_)
  · rintro hne used rest - hdrop rfl
    exact hne (by rw [hdrop]; rfl)
  · intro heq
    obtain ⟨text, htext⟩ := List.head?_eq_some_iff.1 (not_not.1 heq)
    exact reads_advance (show bytes.drop offset = [byte] ++ text from htext) rfl

theorem lowSurrogate_reads (first start : Nat) (hfirst : isHighSurrogate first = true) :
    Reads bytes (lowSurrogate bytes first start) offset fun used _ char =>
      ∃ digits second, used = ascii '\\' :: ascii 'u' :: digits ∧ digits.length = 4 ∧ hexValue digits = some second ∧
        isLowSurrogate second = true ∧ char = Char.ofNat (combineSurrogates first second) := by
  refine (escapeByte_reads _ _).bind ?_ ?_
  · rintro _ rest char - ⟨digits, second, rfl, -⟩
    exact ⟨[_], _, (), rfl, rfl⟩
  rintro _ left ⟨⟩ - rfl
  refine (escapeByte_reads _ _).bind ?_ ?_
  · rintro _ rest char - ⟨digits, second, ⟨⟩, -⟩
    exact ⟨[_], _, (), rfl, rfl⟩
  rintro _ left ⟨⟩ - rfl
  refine (hex4_reads.settle (fun second char => isLowSurrogate second = true ∧
    char = Char.ofNat (combineSurrogates first second)) fun second middle char stop => ?_).congr ?_
  · rw [refuse_bind_eq_ok, not_not, require_eq_ok, and_left_comm]
    refine and_congr_right fun _ => and_congr_right fun hlow => ?_
    rw [charFromU32_eq_some (pair_valid hfirst hlow)]
  · rintro digits rest char -
    simp only [List.singleton_append, List.cons.injEq, true_and]
    constructor
    · rintro ⟨second, ⟨hfour, hvalue⟩, hlow, hchar⟩
      exact ⟨digits, second, rfl, hfour, hvalue, hlow, hchar⟩
    · rintro ⟨_, second, rfl, hfour, hvalue, hlow, hchar⟩
      exact ⟨second, ⟨hfour, hvalue⟩, hlow, hchar⟩

theorem unicodeText_append {digits more : List UInt8} {first : Nat} {char : Char} (hfour : digits.length = 4)
    (hfirst : hexValue digits = some first) : UnicodeText (digits ++ more) char ↔
    (more = [] ∧ isHighSurrogate first = false ∧ isLowSurrogate first = false ∧ char = Char.ofNat first) ∨
    (isHighSurrogate first = true ∧ ∃ digits' second, more = ascii '\\' :: ascii 'u' :: digits' ∧ digits'.length = 4 ∧
      hexValue digits' = some second ∧ isLowSurrogate second = true ∧
      char = Char.ofNat (combineSurrogates first second)) := by
  constructor
  · generalize hbytes : digits ++ more = bytes
    rintro (⟨hlength, hvalue, hhigh, hlow⟩ | ⟨hlength, hlength', hvalue, hvalue', hhigh, hlow⟩)
    · rw [← hbytes, List.length_append, hfour] at hlength
      obtain rfl : more = [] := List.eq_nil_of_length_eq_zero (by omega)
      rw [← hbytes, List.append_nil, hfirst] at hvalue
      cases hvalue
      exact .inl ⟨rfl, hhigh, hlow, rfl⟩
    · obtain ⟨rfl, rfl⟩ := List.append_inj hbytes (hfour.trans hlength.symm)
      rw [hfirst] at hvalue
      cases hvalue
      exact .inr ⟨hhigh, _, _, rfl, hlength', hvalue', hlow, rfl⟩
  · rintro (⟨rfl, hhigh, hlow, hchar⟩ | ⟨hhigh, digits', second, rfl, hlength, hvalue, hlow, hchar⟩)
    · rw [List.append_nil, hchar]
      exact .unit hfour hfirst hhigh hlow
    · rw [hchar]
      exact .pair hfour hlength hfirst hvalue hhigh hlow

theorem not_high_of_low {value : Nat} (h : isLowSurrogate value = true) : isHighSurrogate value = false := by
  rw [isLowSurrogate, decide_eq_true_eq] at h
  rw [isHighSurrogate, decide_eq_false_iff_not]
  omega

theorem unicodeEscape_reads (start : Nat) :
    Reads bytes (unicodeEscape bytes start) offset fun used _ char => UnicodeText used char := by
  refine hex4_reads.bind ?_ ?_
  · rintro _ rest _ - (⟨hfour, hvalue, -, -⟩ | ⟨hfour, -, hvalue, -, -, -⟩)
    · exact ⟨_, [], _, (List.append_nil _).symm, hfour, hvalue⟩
    · exact ⟨_, _, _, rfl, hfour, hvalue⟩
  rintro digits left first - ⟨hfour, hfirst⟩
  refine Reads.refuse ?_ fun hlow => ?_
  · rintro hlow more rest char - htext
    rcases (unicodeText_append hfour hfirst).1 htext with ⟨-, -, hnot, -⟩ | ⟨hhigh, -⟩
    · exact absurd hlow (by rw [hnot]; decide)
    · exact absurd hhigh (by rw [not_high_of_low hlow]; decide)
  · have hlow := Bool.eq_false_iff.2 hlow
    split
    · next hhigh =>
      refine (lowSurrogate_reads first start hhigh).congr fun more rest char _ => ?_
      rw [unicodeText_append hfour hfirst]
      simp [hhigh]
    · next hhigh =>
      have hhigh := Bool.eq_false_iff.2 hhigh
      refine (reads_require _ _).congr fun more rest char _ => ?_
      rw [unicodeText_append hfour hfirst, charFromU32_eq_some (unit_valid hfour hfirst hhigh hlow)]
      simp [hhigh, hlow]

theorem charText_escaped {char : Char} : CharText (ascii '\\' :: used) char ↔
    (∃ byte, used = [byte] ∧ simpleEscape byte = some char) ∨
      ∃ digits, used = ascii 'u' :: digits ∧ UnicodeText digits char := by
  constructor
  · generalize hbytes : ascii '\\' :: used = bytes
    rintro (⟨-, -, hbackslash⟩ | hletter | hunicode)
    · obtain ⟨byte, more, hencode, -, h⟩ := encodeChar_first char
      rw [← hbytes] at hencode
      obtain ⟨rfl, -⟩ := List.cons.inj hencode
      rcases h with ⟨-, hchar⟩ | ⟨hbyte, -⟩
      · exact absurd (Char.toNat_inj.1 (hchar.symm.trans rfl)) hbackslash
      · exact absurd hbyte (by decide)
    · obtain ⟨-, rfl⟩ := List.cons.inj hbytes
      exact .inl ⟨_, rfl, hletter⟩
    · obtain ⟨-, rfl⟩ := List.cons.inj hbytes
      exact .inr ⟨_, rfl, hunicode⟩
  · rintro (⟨byte, rfl, hletter⟩ | ⟨digits, rfl, hunicode⟩)
    · exact .letter hletter
    · exact .unicode hunicode

theorem escape_reads : Reads bytes (escape bytes) offset fun used _ char => CharText (ascii '\\' :: used) char := by
  have hne : ∀ char, ¬ CharText [ascii '\\'] char := by
    intro char h
    rcases charText_escaped.1 h with ⟨_, h, -⟩ | ⟨_, h, -⟩ <;> cases h
  refine Reads.get (Reads.peekOr (fun _ char => hne char) fun byte text htext => ?_)
  refine Reads.advance_one htext (fun _ char => hne char) ?_
  split
  · next hbyte =>
    subst hbyte
    refine (unicodeEscape_reads offset).congr fun more rest char _ => ?_
    rw [charText_escaped]
    constructor
    · exact fun h => .inr ⟨more, rfl, h⟩
    · rintro (⟨byte, ⟨⟩, hletter⟩ | ⟨digits, ⟨⟩, h⟩)
      · cases (show (none : Option Char) = some char from hletter)
      · exact h
  · next hbyte =>
    refine (reads_require _ _).congr fun more rest char _ => ?_
    rw [charText_escaped]
    constructor
    · rintro ⟨rfl, hletter⟩
      exact .inl ⟨byte, rfl, hletter⟩
    · rintro (⟨_, ⟨⟩, hletter⟩ | ⟨digits, hmore, -⟩)
      · exact ⟨rfl, hletter⟩
      · exact absurd (List.cons.inj hmore).1 hbyte

theorem chunk_reads {text : List UInt8} (htext : bytes.drop offset = byte :: text) :
    Reads bytes (chunk bytes byte) offset fun used _ chunk =>
      ∃ char, used = String.utf8EncodeChar char ∧ chunk = String.ofList [char] := by
  -- Every character that can stand here is as wide as its first byte says.
  have hwidth : ∀ {char : Char} {rest : List UInt8}, bytes.drop offset = String.utf8EncodeChar char ++ rest →
      (String.utf8EncodeChar char).length = utf8Width byte ∧
        (bytes.drop offset).take (utf8Width byte) = encode [char] := by
    intro char rest hdrop
    obtain ⟨first, more, hencode, hfirst, -⟩ := encodeChar_first char
    obtain rfl : byte = first := by
      rw [htext, hencode] at hdrop
      exact (List.cons.inj hdrop).1
    have hlength : (String.utf8EncodeChar char).length = utf8Width byte := by rw [hencode, hfirst, List.length_cons]
    refine ⟨hlength, ?_⟩
    rw [hdrop, ← hlength, List.take_left]
    simp [encode]
  refine Reads.get (Reads.refuse ?_ fun hlong => Reads.require ?_ fun chunk hchunk => ?_)
  · rintro hbad _ rest chunk hdrop ⟨char, rfl, -⟩
    have hpos := List.length_pos_iff.2 (String.utf8EncodeChar_ne_nil : String.utf8EncodeChar char ≠ [])
    have hlength := congrArg List.length hdrop
    rw [List.length_append, (hwidth hdrop).1] at hlength
    rw [(hwidth hdrop).1] at hpos
    omega
  · rintro hnone _ rest chunk hdrop ⟨char, rfl, -⟩
    rw [(hwidth hdrop).2, fromUtf8_eq_some.2 ⟨[char], rfl, rfl⟩] at hnone
    cases hnone
  · obtain ⟨chars, htake, rfl⟩ := fromUtf8_eq_some.1 hchunk
    have hsplit := (List.take_append_drop (utf8Width byte) (bytes.drop offset)).symm
    rw [htake] at hsplit
    have hlength : (encode chars).length = utf8Width byte := by
      rw [← htake, List.length_take]
      omega
    cases chars with
    | nil => exact absurd hlength.symm (not_or.1 hlong).1
    | cons char more =>
      have hcons : encode (char :: more) = String.utf8EncodeChar char ++ encode more := rfl
      -- The first character alone fills the chunk.
      have hfirst := hwidth (hsplit.trans (by rw [hcons, List.append_assoc]))
      rw [hcons, List.length_append, hfirst.1] at hlength
      obtain rfl := encode_eq_nil (List.eq_nil_of_length_eq_zero (by omega : (encode more).length = 0))
      rw [hcons, show encode [] = [] from rfl, List.append_nil] at hsplit
      have hone : ∀ char, encode [char] = String.utf8EncodeChar char := fun char => List.append_nil _
      have hsame : ∀ {other : Char} {rest : List UInt8}, bytes.drop offset = String.utf8EncodeChar other ++ rest →
          encode [other] = encode [char] := fun hdrop => (hwidth hdrop).2.symm.trans hfirst.2
      refine Reads.advance hsplit hfirst.1 ?_ ((reads_pure _).congr ?_)
      · rintro _ rest result hdrop ⟨other, rfl, -⟩
        exact ⟨[], by rw [← hone, ← hone, hsame hdrop, List.append_nil]⟩
      · intro more rest result hleft
        constructor
        · rintro ⟨rfl, rfl⟩
          exact ⟨char, List.append_nil _, rfl⟩
        · rintro ⟨other, hother, rfl⟩
          rw [List.drop_drop, hleft, ← List.append_assoc, hother] at hsplit
          have heq := hsame hsplit
          rw [hone, hone, ← hother] at heq
          exact ⟨List.append_right_eq_self.1 heq, encode_inj (hsame hsplit)⟩

/-! ## Strings -/

/-- A character's text never starts like the end of a string or a control character. -/
theorem charText_first {char : Char} (h : CharText used char) :
    ∃ byte more, used = byte :: more ∧ byte ≠ ascii '"' ∧ ¬ byte ≤ 0x1f ∧
      (byte ≠ ascii '\\' → used = String.utf8EncodeChar char) := by
  cases h with
  | plain hprintable hquote hbackslash =>
    obtain ⟨byte, more, hencode, -, h⟩ := encodeChar_first char
    refine ⟨byte, more, hencode, ?_, ?_, fun _ => rfl⟩
    · rintro rfl
      rcases h with ⟨-, hchar⟩ | ⟨hbyte, -⟩
      · exact hquote (Char.toNat_inj.1 (hchar.symm.trans rfl))
      · exact absurd hbyte (by decide)
    · rw [UInt8.le_iff_toNat_le]
      have h1f : (0x1f : UInt8).toNat = 0x1f := rfl
      omega
  | letter => exact ⟨_, _, rfl, by decide, by decide, fun h => absurd rfl h⟩
  | unicode => exact ⟨_, _, rfl, by decide, by decide, fun h => absurd rfl h⟩

theorem charText_plain {more : List UInt8} {char : Char}
    (hencode : String.utf8EncodeChar char = byte :: more) (hquote : byte ≠ ascii '"') (hbackslash : byte ≠ ascii '\\')
    (hcontrol : ¬ byte ≤ 0x1f) : CharText (String.utf8EncodeChar char) char := by
  obtain ⟨byte', more', hencode', -, h⟩ := encodeChar_first char
  obtain ⟨rfl, -⟩ := List.cons.inj (hencode.symm.trans hencode')
  rcases h with ⟨rfl, hchar⟩ | ⟨-, hchar⟩
  · have hne : ∀ c : Char, byte ≠ UInt8.ofNat c.toNat → char ≠ c := by
      rintro c hbyte rfl
      rw [← hchar, UInt8.ofNat_toNat] at hbyte
      exact hbyte rfl
    refine .plain ?_ (hne _ hquote) (hne _ hbackslash)
    rw [UInt8.le_iff_toNat_le, show (0x1f : UInt8).toNat = 0x1f from rfl] at hcontrol
    omega
  · have hne : ∀ c : Char, c.toNat < 0x80 → char ≠ c := by
      rintro c hc rfl
      omega
    exact .plain (by omega) (hne _ (by decide)) (hne _ (by decide))

/-- The end of a string, of which `output` has been read. -/
def TextTail (limits : LexicalLimits) (output : String) (used : List UInt8) (text : String) : Prop :=
  ∃ body chars, used = body ++ [ascii '"'] ∧ Repeated CharText body chars ∧ text = output ++ String.ofList chars ∧
    text.utf8ByteSize ≤ limits.maxStringBytes

theorem textTail_iff {output text : String} : TextTail limits output used text ↔
    (used = [ascii '"'] ∧ text = output ∧ output.utf8ByteSize ≤ limits.maxStringBytes) ∨
      ∃ first second char, used = first ++ second ∧ CharText first char ∧
        TextTail limits (output ++ String.ofList [char]) second text := by
  constructor
  · rintro ⟨_, _, rfl, (_ | ⟨hhead, htail⟩), rfl, hsize⟩
    · rw [show String.ofList [] = "" from rfl, String.append_empty] at hsize ⊢
      exact .inl ⟨rfl, rfl, hsize⟩
    · refine .inr ⟨_, _, _, List.append_assoc .., hhead, _, _, rfl, htail, ?_, hsize⟩
      rw [String.append_assoc, ← String.ofList_append]
      rfl
  · rintro (⟨rfl, rfl, hsize⟩ | ⟨first, _, char, rfl, hhead, body, chars, rfl, htail, rfl, hsize⟩)
    · exact ⟨[], [], rfl, .nil, (String.append_empty).symm, hsize⟩
    · refine ⟨first ++ body, char :: chars, (List.append_assoc ..).symm, .cons hhead htail, ?_, hsize⟩
      rw [String.append_assoc, ← String.ofList_append]
      rfl

theorem textTail_ne_nil {output text : String} : ¬ TextTail limits output [] text := by
  rintro ⟨body, chars, h, -⟩
  exact absurd h.symm (by simp)

theorem textLoop_reads {start rounds : Nat} {output : String} (hrounds : (bytes.drop offset).length < rounds) :
    Reads bytes (textLoop bytes limits start rounds output) offset fun used _ text => TextTail limits output used text := by
  induction rounds generalizing offset output with
  | zero => cases hrounds
  | succ rounds ih =>
    -- After at least one byte there are rounds enough for what is left.
    have hleft : ∀ first left : List UInt8, first ≠ [] → bytes.drop offset = first ++ left →
        (bytes.drop (offset + first.length)).length < rounds := by
      intro first left hne hdrop
      have hpos := List.length_pos_iff.2 hne
      rw [drop_after hdrop]
      rw [hdrop, List.length_append] at hrounds
      omega
    refine Reads.refuse ?_ fun hsize => Reads.peekOr (fun _ _ => textTail_ne_nil) fun byte text htext => ?_
    · rintro hsize used rest text - ⟨body, chars, -, -, rfl, hfits⟩
      rw [String.utf8ByteSize_append] at hfits
      omega
    split
    · next hquote =>
      subst hquote
      refine Reads.advance_one htext (fun _ _ => textTail_ne_nil) ((reads_pure output).congr ?_)
      rintro more rest text -
      rw [textTail_iff]
      constructor
      · rintro ⟨rfl, rfl⟩
        exact .inl ⟨rfl, rfl, Nat.le_of_not_lt hsize⟩
      · rintro (⟨⟨⟩, rfl, -⟩ | ⟨first, second, char, hfirst, hchar, -⟩)
        · exact ⟨rfl, rfl⟩
        · obtain ⟨byte, _, rfl, hbyte, -⟩ := charText_first hchar
          exact absurd (List.cons.inj hfirst).1.symm hbyte
    · next hquote =>
      split
      · next hbackslash =>
        subst hbackslash
        refine Reads.advance_one htext (fun _ _ => textTail_ne_nil) ?_
        refine (escape_reads.seq (fun char used _ text => TextTail limits (output.push char) used text) ?_).congr ?_
        · intro first left char hdrop _
          rw [drop_succ htext] at hdrop
          refine ih ?_
          have hrest := hleft (ascii '\\' :: first) left nofun (by rw [htext, hdrop]; rfl)
          rwa [List.length_cons, Nat.add_comm _ 1, ← Nat.add_assoc] at hrest
        · rintro more rest text -
          rw [textTail_iff]
          constructor
          · rintro ⟨first, second, char, rfl, hchar, htail⟩
            exact .inr ⟨_, second, char, rfl, hchar, by rwa [String.push_eq_append] at htail⟩
          · rintro (⟨h, -⟩ | ⟨first, second, char, hmore, hchar, htail⟩)
            · exact absurd (List.cons.inj h).1 hquote
            · obtain ⟨byte, first, rfl, -⟩ := charText_first hchar
              obtain ⟨rfl, rfl⟩ := List.cons.inj hmore
              exact ⟨first, second, char, rfl, hchar, by rwa [String.push_eq_append]⟩
      · next hbackslash =>
        have hfirst : ∀ {used rest : List UInt8} {text : String}, bytes.drop offset = used ++ rest →
            TextTail limits output used text → ∃ more second char, used = byte :: more ++ second ∧
              CharText (byte :: more) char ∧ TextTail limits (output ++ String.ofList [char]) second text := by
          intro used rest text hdrop htail
          rcases textTail_iff.1 htail with ⟨rfl, -⟩ | ⟨first, second, char, rfl, hchar, hrest⟩
          · exact absurd (List.cons.inj (htext.symm.trans hdrop)).1 hquote
          · obtain ⟨byte', more, rfl, -⟩ := charText_first hchar
            obtain rfl := (List.cons.inj (htext.symm.trans hdrop)).1
            exact ⟨more, second, char, rfl, hchar, hrest⟩
        refine Reads.get (Reads.refuse ?_ fun hcontrol => ?_)
        · rintro hcontrol used rest text hdrop htail
          obtain ⟨more, second, char, -, hchar, -⟩ := hfirst hdrop htail
          obtain ⟨_, _, heq, -, hnot, -⟩ := charText_first hchar
          exact hnot ((List.cons.inj heq).1 ▸ hcontrol)
        · refine ((chunk_reads htext).seq (fun chunk used _ text => TextTail limits (output ++ chunk) used text) ?_).congr ?_
          · rintro first left chunk hdrop ⟨char, rfl, -⟩
            exact ih (hleft _ left String.utf8EncodeChar_ne_nil hdrop)
          · intro used rest text hdrop
            constructor
            · rintro ⟨_, second, _, rfl, ⟨char, rfl, rfl⟩, htail⟩
              obtain ⟨byte', more, hencode, -, -⟩ := encodeChar_first char
              have hbyte : byte = byte' := by
                rw [htext, hencode] at hdrop
                exact (List.cons.inj hdrop).1
              subst hbyte
              exact textTail_iff.2 (.inr ⟨_, second, char, rfl, charText_plain hencode hquote hbackslash hcontrol, htail⟩)
            · intro htail
              obtain ⟨more, second, char, rfl, hchar, htail⟩ := hfirst hdrop htail
              obtain ⟨_, _, heq, -, -, hplain⟩ := charText_first hchar
              exact ⟨_, second, _, rfl, ⟨char, hplain ((List.cons.inj heq).1 ▸ hbackslash), rfl⟩, htail⟩

/-- A quoted string, within its limit. -/
theorem text_reads : Reads bytes (text bytes limits) offset fun used _ text =>
    Quoted used text ∧ text.utf8ByteSize ≤ limits.maxStringBytes := by
  refine Reads.get ((expect_reads _).bind ?_ ?_)
  · rintro _ rest text - ⟨⟨body, chars, rfl, -⟩, -⟩
    exact ⟨[_], _, (), rfl, rfl⟩
  rintro _ left ⟨⟩ - rfl
  refine (textLoop_reads ?_).congr fun used rest text _ => ?_
  · rw [List.length_drop]
    omega
  · constructor
    · rintro ⟨body, chars, rfl, hbody, rfl, hsize⟩
      rw [String.empty_append] at hsize ⊢
      exact ⟨⟨body, chars, rfl, hbody, rfl⟩, hsize⟩
    · rintro ⟨⟨body, chars, hused, hbody, rfl⟩, hsize⟩
      exact ⟨body, chars, (List.cons.inj hused).2, hbody, (String.empty_append).symm, hsize⟩

/-! ## Numbers -/

/-- What comes next is not one more of these bytes. -/
def Stops (test : UInt8 → Bool) (rest : List UInt8) : Prop := ∀ byte ∈ rest.head?, test byte = false

def SignAt (signs : List UInt8) (used rest : List UInt8) : Prop :=
  (∃ byte ∈ signs, used = [byte]) ∨ used = [] ∧ Stops signs.contains rest

def IntegerAt (used rest : List UInt8) : Prop :=
  used = [ascii '0'] ∨ (Digits used ∧ used.head? ≠ some (ascii '0')) ∧ Stops isAsciiDigit rest

def FractionAt (used rest : List UInt8) : Prop :=
  (∃ digits, used = ascii '.' :: digits ∧ Digits digits ∧ Stops isAsciiDigit rest) ∨
    used = [] ∧ Stops isPoint rest

def ExponentAt (used rest : List UInt8) : Prop :=
  (∃ letter sign digits, used = letter :: (sign ++ digits) ∧ isExponentLetter letter = true ∧
    SignAt [ascii '+', ascii '-'] sign (digits ++ rest) ∧ Digits digits ∧ Stops isAsciiDigit rest) ∨
    used = [] ∧ Stops isExponentLetter rest

/-- A number and where the scanner leaves it. -/
def NumberAt (used rest : List UInt8) : Prop :=
  ∃ sign integer fraction exponent, used = sign ++ (integer ++ (fraction ++ exponent)) ∧
    SignAt [ascii '-'] sign (integer ++ (fraction ++ exponent) ++ rest) ∧
    IntegerAt integer (fraction ++ exponent ++ rest) ∧ FractionAt fraction (exponent ++ rest) ∧ ExponentAt exponent rest

/-- A scanner that takes a byte of a kind where one stands, and nothing otherwise. -/
theorem optional_reads {x : ScanM Unit} {test : UInt8 → Bool} {relation : List UInt8 → List UInt8 → Prop}
    (htaken : ∀ byte text, bytes.drop offset = byte :: text → test byte = true →
      Reads bytes x offset fun used rest _ => relation used rest)
    (hstarts : ∀ used rest, relation used rest → ∃ byte more, used = byte :: more ∧ test byte = true) :
    Reads bytes (do if (← peek bytes).any test then x else pure ()) offset fun used rest _ =>
      relation used rest ∨ used = [] ∧ Stops test rest := by
  refine Reads.peek ?_
  cases htext : bytes.drop offset with
  | nil =>
    refine (reads_pure ()).congr fun used rest _ hdrop => ?_
    obtain ⟨rfl, rfl⟩ := List.append_eq_nil_iff.1 (hdrop.symm.trans htext)
    refine ⟨fun _ => .inr ⟨rfl, nofun⟩, fun _ => ⟨rfl, rfl⟩⟩
  | cons byte text =>
    have hhead : ∀ {used rest : List UInt8}, bytes.drop offset = used ++ rest → used = [] → rest.head? = some byte := by
      rintro _ rest hdrop rfl
      rw [List.nil_append] at hdrop
      rw [← hdrop, htext]
      rfl
    cases hbyte : test byte with
    | true =>
      simp only [List.head?_cons, Option.any_some, hbyte, if_true]
      refine (htaken byte text htext hbyte).congr fun used rest _ hdrop => ⟨.inl, ?_⟩
      rintro (hrelation | ⟨hused, hstops⟩)
      · exact hrelation
      · exact absurd (hstops byte (hhead hdrop hused)) (by rw [hbyte]; decide)
    | false =>
      simp only [List.head?_cons, Option.any_some, hbyte]
      refine (reads_pure ()).congr fun used rest _ hdrop => ⟨?_, ?_⟩
      · rintro ⟨hused, -⟩
        refine .inr ⟨hused, fun byte' hbyte' => ?_⟩
        rw [hhead hdrop hused, Option.mem_some] at hbyte'
        exact hbyte' ▸ hbyte
      · rintro (hrelation | ⟨hused, -⟩)
        · obtain ⟨byte', more, rfl, htest⟩ := hstarts used rest hrelation
          obtain rfl := (List.cons.inj (htext.symm.trans hdrop)).1
          exact absurd htest (by rw [hbyte]; decide)
        · exact ⟨hused, rfl⟩

theorem sign_reads (signs : List UInt8) :
    Reads bytes (sign bytes signs) offset fun used rest _ => SignAt signs used rest := by
  refine optional_reads (fun byte text htext hbyte => ?_) fun used rest => ?_
  · refine (reads_advance (show bytes.drop offset = [byte] ++ text from htext) rfl).congr fun used rest _ hdrop => ?_
    constructor
    · rintro rfl
      exact ⟨byte, List.contains_iff_mem.1 hbyte, rfl⟩
    · rintro ⟨byte', -, rfl⟩
      rw [(List.cons.inj (htext.symm.trans hdrop)).1]
  · rintro ⟨byte, hbyte, rfl⟩
    exact ⟨byte, [], rfl, List.contains_iff_mem.2 hbyte⟩

theorem skipDigits_reads : Reads bytes (skipDigits bytes) offset fun used rest _ =>
    (∀ byte ∈ used, isAsciiDigit byte = true) ∧ Stops isAsciiDigit rest := reads_skipWhile _

theorem someDigits_reads (start : Nat) : Reads bytes (someDigits bytes start) offset fun used rest _ =>
    Digits used ∧ Stops isAsciiDigit rest := by
  refine Reads.peek (Reads.refuse ?_ fun hdigit => skipDigits_reads.congr fun used rest _ hdrop => ?_)
  · rintro hnone used rest - hdrop ⟨⟨hne, hdigits⟩, -⟩
    cases used with
    | nil => exact hne rfl
    | cons byte more =>
      rw [hdrop] at hnone
      exact hnone (hdigits byte (.head _))
  · refine and_congr_left fun hstops => ⟨fun hdigits => ⟨?_, hdigits⟩, fun hdigits => hdigits.2⟩
    rintro rfl
    rw [hdrop, List.nil_append, not_not] at hdigit
    obtain ⟨byte, hbyte, htest⟩ := (Option.any_eq_true _ _).1 hdigit
    exact absurd htest (by rw [hstops byte hbyte]; decide)

theorem integerPart_reads (start : Nat) :
    Reads bytes (integerPart bytes start) offset fun used rest _ => IntegerAt used rest := by
  have hne : ∀ rest, ¬ IntegerAt [] rest := by
    rintro rest (h | ⟨⟨⟨hne, -⟩, -⟩, -⟩)
    · cases h
    · exact hne rfl
  refine Reads.peekOr (fun _ _ => hne []) fun byte text htext => ?_
  have hfirst : ∀ {used rest : List UInt8}, bytes.drop offset = used ++ rest → used ≠ [] → used.head? = some byte := by
    intro used rest hdrop hused
    cases used with
    | nil => exact absurd rfl hused
    | cons byte' more => rw [(List.cons.inj (htext.symm.trans hdrop)).1, List.head?_cons]
  split
  · next hzero =>
    subst hzero
    refine (reads_advance (show bytes.drop offset = [_] ++ text from htext) rfl).congr fun used rest _ hdrop => ⟨.inl, ?_⟩
    rintro (hzero | ⟨⟨⟨hused, -⟩, hhead⟩, -⟩)
    · exact hzero
    · exact absurd (hfirst hdrop hused) hhead
  · next hzero =>
    refine Reads.refuse ?_ fun hdigit => skipDigits_reads.congr fun used rest _ hdrop => ?_
    · rintro hnot used rest - hdrop (rfl | ⟨⟨⟨hused, hdigits⟩, -⟩, -⟩)
      · exact hzero (List.cons.inj (htext.symm.trans hdrop)).1
      · obtain ⟨more, rfl⟩ := List.head?_eq_some_iff.1 (hfirst hdrop hused)
        exact hnot (hdigits byte (.head _))
    · constructor
      · rintro ⟨hdigits, hstops⟩
        have hused : used ≠ [] := by
          rintro rfl
          rw [List.nil_append] at hdrop
          exact hdigit (hstops byte (by rw [← hdrop, htext]; rfl) ▸ nofun)
        exact .inr ⟨⟨⟨hused, hdigits⟩, fun hhead => hzero (Option.some.inj ((hfirst hdrop hused).symm.trans hhead))⟩, hstops⟩
      · rintro (rfl | ⟨⟨⟨-, hdigits⟩, -⟩, hstops⟩)
        · exact absurd (List.cons.inj (htext.symm.trans hdrop)).1 hzero
        · exact ⟨hdigits, hstops⟩

theorem fraction_reads (start : Nat) :
    Reads bytes (fraction bytes start) offset fun used rest _ => FractionAt used rest := by
  refine optional_reads (fun byte text htext hbyte => ?_) fun used rest => ?_
  · obtain rfl : byte = ascii '.' := of_decide_eq_true hbyte
    refine Reads.advance_one htext (fun _ _ ⟨_, h, _⟩ => nomatch h) ((someDigits_reads start).congr fun used rest _ _ => ?_)
    constructor
    · exact fun h => ⟨used, rfl, h⟩
    · rintro ⟨_, ⟨⟩, h⟩
      exact h
  · rintro ⟨digits, rfl, -⟩
    exact ⟨_, _, rfl, rfl⟩

theorem exponent_reads (start : Nat) :
    Reads bytes (exponent bytes start) offset fun used rest _ => ExponentAt used rest := by
  refine optional_reads (fun byte text htext hbyte => ?_) fun used rest => ?_
  · refine Reads.advance_one htext (fun _ _ ⟨_, _, _, h, _⟩ => nomatch h) ?_
    refine ((sign_reads _).seq _ fun _ _ _ _ _ => someDigits_reads start).congr fun used rest _ _ => ?_
    constructor
    · rintro ⟨sign, digits, _, rfl, hsign, hdigits⟩
      exact ⟨byte, sign, digits, rfl, hbyte, hsign, hdigits⟩
    · rintro ⟨_, sign, digits, ⟨⟩, -, hsign, hdigits⟩
      exact ⟨sign, digits, (), rfl, hsign, hdigits⟩
  · rintro ⟨letter, sign, digits, rfl, hletter, -⟩
    exact ⟨letter, _, rfl, hletter⟩

theorem numberBody_reads (start : Nat) :
    Reads bytes (numberBody bytes start) offset fun used rest _ => NumberAt used rest := by
  refine ((sign_reads _).seq _ fun _ _ _ _ _ => (integerPart_reads start).seq _ fun _ _ _ _ _ =>
    (fraction_reads start).seq _ fun _ _ _ _ _ => exponent_reads start).congr fun used rest _ _ => ?_
  constructor
  · rintro ⟨sign, _, _, rfl, hsign, integer, _, _, rfl, hinteger, fraction, exponent, _, rfl, hfraction, hexponent⟩
    exact ⟨sign, integer, fraction, exponent, rfl, hsign, hinteger, hfraction, hexponent⟩
  · rintro ⟨sign, integer, fraction, exponent, rfl, hsign, hinteger, hfraction, hexponent⟩
    exact ⟨sign, _, (), rfl, hsign, integer, _, (), rfl, hinteger, fraction, exponent, (), rfl, hfraction, hexponent⟩

/-! What a number is followed by decides only where it ends. -/

theorem stops_cons {test : UInt8 → Bool} : Stops test (byte :: rest) ↔ test byte = false := by
  simp [Stops]

/-- Digits do not start with a sign. -/
theorem stops_digits {signs digits rest : List UInt8} (hsigns : (signs.all fun byte => !isAsciiDigit byte) = true)
    (h : Digits digits) : Stops signs.contains (digits ++ rest) := by
  cases digits with
  | nil => exact absurd rfl h.1
  | cons byte digits =>
    refine stops_cons.2 (Bool.eq_false_iff.2 fun hcontains => ?_)
    have hdigit := h.2 byte (.head _)
    have hsign := List.all_eq_true.1 hsigns byte (List.contains_iff_mem.1 hcontains)
    rw [hdigit] at hsign
    cases hsign

theorem digits_of_integer {integer : List UInt8} (h : Integer integer) : Digits integer := by
  rcases h with rfl | ⟨h, -⟩
  · exact ⟨nofun, by simp; rfl⟩
  · exact h

/-- No byte that could go on a number comes next. -/
def Ends (rest : List UInt8) : Prop := Stops isAsciiDigit rest ∧ Stops isPoint rest ∧ Stops isExponentLetter rest

theorem NumberAt.number (h : NumberAt used rest) : Number used := by
  obtain ⟨sign, integer, fraction, exponent, rfl, hsign, hinteger, hfraction, hexponent⟩ := h
  refine ⟨sign, integer, fraction, exponent, rfl, ?_, ?_, ?_, ?_⟩
  · rcases hsign with ⟨byte, hbyte, rfl⟩ | ⟨rfl, -⟩
    · exact .inr (by rw [List.mem_singleton.1 hbyte])
    · exact .inl rfl
  · exact hinteger.imp_right And.left
  · rcases hfraction with ⟨digits, rfl, hdigits, -⟩ | ⟨rfl, -⟩
    · exact .inr ⟨digits, rfl, hdigits⟩
    · exact .inl rfl
  · rcases hexponent with ⟨letter, sign, digits, rfl, hletter, hsign, hdigits, -⟩ | ⟨rfl, -⟩
    · refine .inr ⟨letter, sign, digits, rfl, of_decide_eq_true hletter, ?_, hdigits⟩
      rcases hsign with ⟨byte, hbyte, rfl⟩ | ⟨rfl, -⟩
      · simp only [List.mem_cons, List.not_mem_nil, or_false] at hbyte
        exact .inr (hbyte.imp (fun h => by rw [h]) fun h => by rw [h])
      · exact .inl rfl
    · exact .inl rfl

theorem numberAt_of_number (h : Number used) (hends : Ends rest) : NumberAt used rest := by
  obtain ⟨sign, integer, fraction, exponent, rfl, hsign, hinteger, hfraction, hexponent⟩ := h
  obtain ⟨hdigit, hpoint, hletter⟩ := hends
  have hletters : ∀ {letter : UInt8}, letter = ascii 'e' ∨ letter = ascii 'E' →
      isExponentLetter letter = true ∧ isAsciiDigit letter = false ∧ isPoint letter = false := by
    rintro letter (rfl | rfl) <;> exact ⟨rfl, rfl, rfl⟩
  -- Each part ends where the next one starts, and the last where the number does.
  have hexponentAt : ExponentAt exponent rest := by
    rcases hexponent with rfl | ⟨letter, sign, digits, rfl, hletter', hsign, hdigits⟩
    · exact .inr ⟨rfl, hletter⟩
    · refine .inl ⟨letter, sign, digits, rfl, (hletters hletter').1, ?_, hdigits, hdigit⟩
      rcases hsign with rfl | rfl | rfl
      · exact .inr ⟨rfl, stops_digits rfl hdigits⟩
      · exact .inl ⟨_, by simp, rfl⟩
      · exact .inl ⟨_, by simp, rfl⟩
  have hafterFraction : Stops isAsciiDigit (exponent ++ rest) ∧ Stops isPoint (exponent ++ rest) := by
    rcases hexponent with rfl | ⟨letter, sign, digits, rfl, hletter', -, -⟩
    · exact ⟨hdigit, hpoint⟩
    · exact ⟨stops_cons.2 (hletters hletter').2.1, stops_cons.2 (hletters hletter').2.2⟩
  have hfractionAt : FractionAt fraction (exponent ++ rest) := by
    rcases hfraction with rfl | ⟨digits, rfl, hdigits⟩
    · exact .inr ⟨rfl, hafterFraction.2⟩
    · exact .inl ⟨digits, rfl, hdigits, hafterFraction.1⟩
  have hafterInteger : Stops isAsciiDigit (fraction ++ exponent ++ rest) := by
    rw [List.append_assoc]
    rcases hfraction with rfl | ⟨digits, rfl, -⟩
    · exact hafterFraction.1
    · exact stops_cons.2 rfl
  refine ⟨sign, integer, fraction, exponent, rfl, ?_, ?_, hfractionAt, hexponentAt⟩
  · rcases hsign with rfl | rfl
    · rw [List.append_assoc]
      exact .inr ⟨rfl, stops_digits rfl (digits_of_integer hinteger)⟩
    · exact .inl ⟨_, List.mem_singleton_self _, rfl⟩
  · exact hinteger.imp_right fun h => ⟨h, hafterInteger⟩

theorem number_ascii (h : Number used) : ∀ byte ∈ used, byte.toNat < 0x80 := by
  have hdigits : ∀ {digits : List UInt8}, Digits digits → ∀ byte ∈ digits, byte.toNat < 0x80 := by
    intro digits h byte hbyte
    have hdigit := of_decide_eq_true (h.2 byte hbyte)
    rw [UInt8.le_iff_toNat_le, UInt8.le_iff_toNat_le, show (ascii '9').toNat = 57 from rfl] at hdigit
    omega
  obtain ⟨sign, integer, fraction, exponent, rfl, hsign, hinteger, hfraction, hexponent⟩ := h
  simp only [List.forall_mem_append]
  have hmark : ∀ {mark : UInt8}, mark.toNat < 0x80 → ∀ byte ∈ [mark], byte.toNat < 0x80 := fun h =>
    List.forall_mem_singleton.2 h
  refine ⟨?_, hdigits (digits_of_integer hinteger), ?_, ?_⟩
  · rcases hsign with rfl | rfl
    · exact List.forall_mem_nil _
    · exact hmark (by decide)
  · rcases hfraction with rfl | ⟨digits, rfl, h⟩
    · exact List.forall_mem_nil _
    · exact List.forall_mem_cons.2 ⟨by decide, hdigits h⟩
  · rcases hexponent with rfl | ⟨letter, sign, digits, rfl, hletter, hsign, h⟩
    · exact List.forall_mem_nil _
    · refine List.forall_mem_cons.2 ⟨?_, List.forall_mem_append.2 ⟨?_, hdigits h⟩⟩
      · rcases hletter with rfl | rfl <;> decide
      · rcases hsign with rfl | rfl | rfl
        · exact List.forall_mem_nil _
        · exact hmark (by decide)
        · exact hmark (by decide)

theorem fromUtf8_number (h : Number used) : fromUtf8 used = some (asciiText used) :=
  fromUtf8_eq_some.2 ⟨_, (encode_ascii (number_ascii h)).symm, rfl⟩

theorem number_reads : Reads bytes (number bytes limits) offset fun used rest lexeme =>
    NumberAt used rest ∧ used.length ≤ limits.maxNumberBytes ∧ lexeme = ⟨asciiText used⟩ := by
  refine Reads.get ((numberBody_reads offset).bind ?_ ?_)
  · rintro used rest lexeme - ⟨hnumber, -, -⟩
    exact ⟨used, [], (), (List.append_nil _).symm, hnumber⟩
  rintro first left ⟨⟩ hdrop hfirst
  have hlexeme : (bytes.drop offset).take (offset + first.length - offset) = first := by
    rw [Nat.add_sub_cancel_left, hdrop, List.take_left]
  have hnil : ∀ {second rest : List UInt8}, bytes.drop (offset + first.length) = second ++ rest →
      NumberAt (first ++ second) rest → second = [] := by
    intro second rest hleft hnumber
    have hdrop' : bytes.drop offset = (first ++ second) ++ rest := by
      rw [drop_after hdrop] at hleft
      rw [hdrop, hleft, List.append_assoc]
    obtain ⟨hsame, -, -⟩ : first = first ++ second ∧ left = rest ∧ () = () :=
      (numberBody_reads offset).unique hdrop hdrop' hfirst hnumber
    exact List.append_right_eq_self.1 hsame.symm
  refine Reads.get ?_
  rw [hlexeme]
  refine Reads.refuse ?_ fun hsize => Reads.require ?_ fun text htext => (reads_pure _).congr ?_
  · rintro hsize second rest lexeme hleft ⟨hnumber, hfits, -⟩
    obtain rfl := hnil hleft hnumber
    rw [List.append_nil] at hfits
    omega
  · rintro hnone - - - - -
    rw [fromUtf8_number hfirst.number] at hnone
    cases hnone
  · intro second rest lexeme hleft
    rw [fromUtf8_number hfirst.number] at htext
    obtain rfl := Option.some.inj htext
    constructor
    · rintro ⟨rfl, rfl⟩
      rw [drop_after hdrop, List.nil_append] at hleft
      subst hleft
      rw [List.append_nil]
      exact ⟨hfirst, Nat.le_of_not_lt hsize, rfl⟩
    · rintro ⟨hnumber, -, rfl⟩
      obtain rfl := hnil hleft hnumber
      rw [List.append_nil]
      exact ⟨rfl, rfl⟩

/-! ## Values -/

section Values
variable {value : LexicalValue} {values : List LexicalValue} {entries : List (String × LexicalValue)}
  {element : ScanM LexicalValue} {depth room : Nat}

theorem depth_le (h : Fits limits depth value) : depth ≤ limits.maxDepth := by
  cases h <;> assumption

/-- The bytes a value's text can start with. -/
def opens (byte : UInt8) : LexicalValue → Bool
  | .null => byte = ascii 'n'
  | .bool true => byte = ascii 't'
  | .bool false => byte = ascii 'f'
  | .number _ => byte = ascii '-' ∨ isAsciiDigit byte = true
  | .text _ => byte = ascii '"'
  | .array _ => byte = ascii '['
  | .object _ => byte = ascii '{'

theorem number_first (h : Number used) :
    ∃ byte more, used = byte :: more ∧ (byte = ascii '-' ∨ isAsciiDigit byte = true) := by
  obtain ⟨sign, integer, fraction, exponent, rfl, hsign, hinteger, -, -⟩ := h
  rcases hsign with rfl | rfl
  · have hdigits := digits_of_integer hinteger
    cases integer with
    | nil => exact absurd rfl hdigits.1
    | cons byte integer => exact ⟨byte, _, rfl, .inr (hdigits.2 byte (.head _))⟩
  · exact ⟨_, _, rfl, .inl rfl⟩

theorem json_first (h : Json used value) : ∃ byte more, used = byte :: more ∧ opens byte value = true := by
  cases h with
  | number h =>
    obtain ⟨byte, more, rfl, hbyte⟩ := number_first h
    exact ⟨byte, more, rfl, decide_eq_true hbyte⟩
  | text h =>
    obtain ⟨body, chars, rfl, -⟩ := h
    exact ⟨_, _, rfl, rfl⟩
  | _ => exact ⟨_, _, rfl, rfl⟩

theorem opens_not_blank (h : opens byte value = true) : isWhitespace byte = false := by
  refine Bool.eq_false_iff.2 fun hblank => ?_
  rcases of_decide_eq_true hblank with rfl | rfl | rfl | rfl <;>
    rcases value with _ | (_ | _) | _ | _ | _ | _ <;> cases h

/-- A value of the grammar, within the limits, and where the scanner leaves it. -/
def ValueAt (limits : LexicalLimits) (depth : Nat) (used rest : List UInt8) (value : LexicalValue) : Prop :=
  Json used value ∧ Fits limits depth value ∧ ∀ lexeme, value = .number lexeme → NumberAt used rest

theorem valueAt_of_json (hjson : Json used value)
    (hfits : Fits limits depth value) (hends : Ends rest) : ValueAt limits depth used rest value := by
  refine ⟨hjson, hfits, ?_⟩
  rintro lexeme rfl
  cases hjson with
  | number h => exact numberAt_of_number h hends

/-- Whitespace in front of something that does not start with any. -/
theorem blank_reads {α : Type} {x : ScanM α} {relation : List UInt8 → List UInt8 → α → Prop}
    (hx : ∀ offset, Reads bytes x offset relation)
    (hstart : ∀ used rest a, relation used rest a → Stops isWhitespace (used ++ rest)) :
    Reads bytes (skipWhitespace bytes >>= fun _ => x) offset fun used rest a =>
      ∃ before more, used = before ++ more ∧ Blank before ∧ relation more rest a := by
  refine ((reads_skipWhile isWhitespace).seq _ fun _ _ _ _ _ => hx _).congr fun used rest a _ => ?_
  constructor
  · rintro ⟨before, more, _, rfl, ⟨hblank, -⟩, hmore⟩
    exact ⟨before, more, rfl, hblank, hmore⟩
  · rintro ⟨before, more, rfl, hblank, hmore⟩
    exact ⟨before, more, (), rfl, ⟨hblank, hstart more rest a hmore⟩, hmore⟩

theorem ends_of_blank {before more : List UInt8} (hblank : Blank before) (hmore : Ends more) : Ends (before ++ more) := by
  cases before with
  | nil => exact hmore
  | cons byte before =>
    have hbyte := of_decide_eq_true (hblank byte (.head _))
    refine ⟨stops_cons.2 ?_, stops_cons.2 ?_, stops_cons.2 ?_⟩ <;> rcases hbyte with rfl | rfl | rfl | rfl <;> rfl

theorem afterItem_reads {close : UInt8} {more : ScanM LexicalValue} {whole : LexicalValue}
    {relation : List UInt8 → List UInt8 → LexicalValue → Prop} (hclose : close ≠ ascii ',')
    (hmore : ∀ offset, Reads bytes more offset relation) :
    Reads bytes (afterItem bytes close more whole) offset fun used rest value =>
      (used = [close] ∧ value = whole) ∨ ∃ tail, used = ascii ',' :: tail ∧ relation tail rest value := by
  refine Reads.peekOr (fun _ _ => ?_) fun byte text htext => ?_
  · rintro (⟨h, -⟩ | ⟨_, h, -⟩) <;> cases h
  split
  · next hcomma =>
    subst hcomma
    refine Reads.advance_one htext (fun _ _ => ?_) ((hmore _).congr fun used rest value _ => ?_)
    · rintro (⟨h, -⟩ | ⟨_, h, -⟩) <;> cases h
    · constructor
      · exact fun h => .inr ⟨used, rfl, h⟩
      · rintro (⟨h, -⟩ | ⟨_, ⟨⟩, h⟩)
        · exact absurd (List.cons.inj h).1.symm hclose
        · exact h
  · next hcomma =>
    refine Reads.get (Reads.refuse ?_ fun hbyte => ?_)
    · rintro hne used rest value hdrop (⟨rfl, -⟩ | ⟨_, rfl, -⟩)
      · exact hne (List.cons.inj (htext.symm.trans hdrop)).1
      · exact hcomma (List.cons.inj (htext.symm.trans hdrop)).1
    · obtain rfl := not_not.1 hbyte
      refine Reads.advance_one htext (fun _ _ => ?_) ((reads_pure whole).congr fun used rest value _ => ?_)
      · rintro (⟨h, -⟩ | ⟨_, h, -⟩) <;> cases h
      · constructor
        · rintro ⟨rfl, rfl⟩
          exact .inl ⟨rfl, rfl⟩
        · rintro (⟨⟨⟩, rfl⟩ | ⟨_, h, -⟩)
          · exact ⟨rfl, rfl⟩
          · exact absurd (List.cons.inj h).1 hcomma

/-- An item's texts may be preceded by whitespace, and start neither with whitespace nor with the end. -/
structure Leads (close : UInt8) (tail : List UInt8 → LexicalValue → Prop) : Prop where
  blank : ∀ {before used value}, Blank before → tail used value → tail (before ++ used) value
  first : ∀ {used value}, tail used value → ∃ before byte more, used = before ++ byte :: more ∧ Blank before ∧
    isWhitespace byte = false ∧ byte ≠ close ∧ tail (byte :: more) value

theorem Leads.not_close {close : UInt8} {tail : List UInt8 → LexicalValue → Prop} (h : Leads close tail)
    (hclose : isWhitespace close = false) (htail : tail used value) :
    ∃ byte more, used = byte :: more ∧ byte ≠ close := by
  obtain ⟨before, byte, more, rfl, hblank, -, hbyte, -⟩ := h.first htail
  cases before with
  | nil => exact ⟨byte, more, rfl, hbyte⟩
  | cons first before =>
    refine ⟨first, _, rfl, ?_⟩
    rintro rfl
    have hfirst := hblank first (.head _)
    rw [hclose] at hfirst
    cases hfirst

theorem container_reads {opening close : UInt8} {empty : LexicalValue} {items : ScanM LexicalValue}
    {tail : List UInt8 → LexicalValue → Prop} (hclose : isWhitespace close = false) (hleads : Leads close tail)
    (hitems : ∀ offset, Reads bytes items offset fun used _ value => tail used value) :
    Reads bytes (container bytes opening close empty items) offset fun used _ value => ∃ more, used = opening :: more ∧
      ((∃ blank, more = blank ++ [close] ∧ Blank blank ∧ value = empty) ∨ tail more value) := by
  -- The closing byte is there at once, or the items are.
  have hinside : ∀ offset, Reads bytes (do
      if (← peek bytes) = some close then do
        advance 1
        return empty
      else items) offset fun used _ value => (used = [close] ∧ value = empty) ∨ tail used value := by
    intro offset
    refine Reads.peek ?_
    split
    · next hhead =>
      obtain ⟨text, htext⟩ := List.head?_eq_some_iff.1 hhead
      refine Reads.advance_one htext ?_ ((reads_pure empty).congr ?_)
      · rintro rest value (⟨h, -⟩ | htail)
        · cases h
        · obtain ⟨_, _, h, -⟩ := hleads.not_close hclose htail
          cases h
      · rintro used rest value -
        constructor
        · rintro ⟨rfl, rfl⟩
          exact .inl ⟨rfl, rfl⟩
        · rintro (⟨⟨⟩, rfl⟩ | htail)
          · exact ⟨rfl, rfl⟩
          · obtain ⟨_, _, h, hne⟩ := hleads.not_close hclose htail
            exact absurd (List.cons.inj h).1.symm hne
    · next hhead =>
      refine (hitems offset).congr fun used rest value hdrop => ⟨.inr, ?_⟩
      rintro (⟨rfl, -⟩ | htail)
      · exact absurd (by rw [hdrop]; rfl) hhead
      · exact htail
  refine ((expect_reads opening).seq _ fun _ _ _ _ _ => (reads_skipWhile isWhitespace).seq _ fun _ _ _ _ _ =>
    hinside _).congr fun used rest value _ => ?_
  constructor
  · rintro ⟨_, _, _, rfl, rfl, before, more, _, rfl, ⟨hblank, -⟩, (⟨rfl, rfl⟩ | htail)⟩
    · exact ⟨_, rfl, .inl ⟨before, rfl, hblank, rfl⟩⟩
    · exact ⟨before ++ more, rfl, .inr (hleads.blank hblank htail)⟩
  · rintro ⟨_, rfl, (⟨blank, rfl, hblank, rfl⟩ | htail)⟩
    · exact ⟨[opening], _, (), rfl, rfl, blank, [close], (), rfl, ⟨hblank, stops_cons.2 hclose⟩, .inl ⟨rfl, rfl⟩⟩
    · obtain ⟨before, byte, more, rfl, hblank, hbyte, -, htail⟩ := hleads.first htail
      exact ⟨[opening], _, (), rfl, rfl, before, byte :: more, (), rfl, ⟨hblank, stops_cons.2 hbyte⟩, .inr htail⟩

/-- The end of an array of which `values` have been read, with room for so many more. -/
def ArrayTail (limits : LexicalLimits) (depth room : Nat) (values : List LexicalValue) (used : List UInt8)
    (value : LexicalValue) : Prop :=
  ∃ body more, used = body ++ [ascii ']'] ∧ Separated (ascii ',') (Padded Json) body more ∧
    value = .array (values ++ more) ∧ more.length ≤ room ∧ ∀ element ∈ more, Fits limits depth element

/-- What follows an element: the end, or a comma and more. -/
def AfterElement (limits : LexicalLimits) (depth room : Nat) (values : List LexicalValue) (used : List UInt8)
    (value : LexicalValue) : Prop :=
  (used = [ascii ']'] ∧ value = .array values) ∨ ∃ more, used = ascii ',' :: more ∧ ArrayTail limits depth room values more value

theorem arrayTail_succ :
    ArrayTail limits depth (room + 1) values used value ↔
      ∃ before item after tail element, used = before ++ (item ++ (after ++ tail)) ∧ Blank before ∧ Json item element ∧
        Fits limits depth element ∧ Blank after ∧ AfterElement limits depth room (values ++ [element]) tail value := by
  constructor
  · rintro ⟨_, _, rfl, (⟨⟨hleft, hinside, hright⟩⟩ | ⟨⟨hleft, hinside, hright⟩, htail⟩), rfl, hroom, hfits⟩
    · exact ⟨_, _, _, _, _, by simp only [List.append_assoc], hleft, hinside, hfits _ (.head _), hright, .inl ⟨rfl, rfl⟩⟩
    · refine ⟨_, _, _, ascii ',' :: (_ ++ [ascii ']']), _, by simp only [List.append_assoc, List.cons_append], hleft,
        hinside, hfits _ (.head _), hright, .inr ⟨_, rfl, _, _, rfl, htail, ?_, Nat.le_of_succ_le_succ hroom, ?_⟩⟩
      · rw [List.append_assoc]
        rfl
      · exact fun element helement => hfits element (.tail _ helement)
  · rintro ⟨before, item, after, _, element, rfl, hleft, hinside, hfits, hright, (⟨rfl, rfl⟩ | ⟨_, rfl, hmore⟩)⟩
    · refine ⟨before ++ (item ++ after), [element], by simp only [List.append_assoc], .one (.intro hleft hinside hright), rfl,
        Nat.succ_le_succ (Nat.zero_le _), ?_⟩
      exact fun other hother => List.mem_singleton.1 hother ▸ hfits
    · obtain ⟨body, more, rfl, hseparated, rfl, hroom, hall⟩ := hmore
      refine ⟨before ++ (item ++ after) ++ ascii ',' :: body, element :: more, by simp only [List.append_assoc, List.cons_append],
        .cons (.intro hleft hinside hright) hseparated, by rw [List.append_assoc]; rfl, Nat.succ_le_succ hroom, ?_⟩
      exact List.forall_mem_cons.2 ⟨hfits, hall⟩

theorem afterElement_first
    (h : AfterElement limits depth room values used value) : Stops isWhitespace (used ++ rest) ∧ Ends (used ++ rest) := by
  rcases h with ⟨rfl, -⟩ | ⟨more, rfl, -⟩ <;>
    exact ⟨stops_cons.2 rfl, stops_cons.2 rfl, stops_cons.2 rfl, stops_cons.2 rfl⟩

theorem elements_reads {depth start room : Nat}
    (helement : ∀ offset, Reads bytes element offset (ValueAt limits depth)) :
    Reads bytes (elements bytes limits element start room values) offset fun used _ value =>
      ArrayTail limits depth room values used value := by
  induction room generalizing values offset with
  | zero =>
    refine reads_fail rfl ?_
    rintro used rest value - ⟨body, more, -, hseparated, -, hroom, -⟩
    cases hseparated <;> exact absurd hroom (by simp)
  | succ room ih =>
    have hrest : ∀ item offset, Reads bytes (skipWhitespace bytes >>= fun _ =>
        afterItem bytes (ascii ']') (elements bytes limits element start room (values ++ [item])) (.array (values ++ [item])))
        offset fun used _ value => ∃ after tail, used = after ++ tail ∧ Blank after ∧
          AfterElement limits depth room (values ++ [item]) tail value := fun item offset =>
      blank_reads (fun _ => afterItem_reads (by decide) fun _ => ih) fun _ _ _ h => (afterElement_first h).1
    refine (blank_reads (fun _ => (helement _).seq _ fun _ _ item _ _ => hrest item _) ?_).congr fun used rest value _ => ?_
    · rintro _ rest value ⟨item, more, element, rfl, ⟨hjson, -⟩, -⟩
      obtain ⟨byte, _, rfl, hbyte⟩ := json_first hjson
      exact stops_cons.2 (opens_not_blank hbyte)
    · rw [arrayTail_succ]
      constructor
      · rintro ⟨before, _, rfl, hbefore, item, _, element, rfl, ⟨hjson, hfits, -⟩, after, tail, rfl, hafter, htail⟩
        exact ⟨before, item, after, tail, element, rfl, hbefore, hjson, hfits, hafter, htail⟩
      · rintro ⟨before, item, after, tail, element, rfl, hbefore, hjson, hfits, hafter, htail⟩
        refine ⟨before, _, rfl, hbefore, item, _, element, rfl, valueAt_of_json hjson hfits ?_, after, tail, rfl, hafter, htail⟩
        rw [List.append_assoc]
        exact ends_of_blank hafter (afterElement_first htail).2

theorem arrayTail_leads : Leads (ascii ']') fun used value => ArrayTail limits depth room [] used value := by
  have hroom : ∀ {used value}, ¬ ArrayTail limits depth 0 [] used value := by
    rintro used value ⟨body, more, -, hseparated, -, hroom, -⟩
    cases hseparated <;> exact absurd hroom (by simp)
  cases room with
  | zero => exact ⟨fun _ h => absurd h hroom, fun h => absurd h hroom⟩
  | succ room =>
    refine ⟨fun hblank htail => ?_, fun htail => ?_⟩
    · obtain ⟨before, item, after, tail, element, rfl, hbefore, hrest⟩ := arrayTail_succ.1 htail
      refine arrayTail_succ.2 ⟨_, item, after, tail, element, (List.append_assoc ..).symm, ?_, hrest⟩
      exact List.forall_mem_append.2 ⟨hblank, hbefore⟩
    · obtain ⟨before, item, after, tail, element, rfl, hbefore, hjson, hrest⟩ := arrayTail_succ.1 htail
      obtain ⟨byte, more, rfl, hbyte⟩ := json_first hjson
      refine ⟨before, byte, _, rfl, hbefore, opens_not_blank hbyte, ?_, ?_⟩
      · rintro rfl
        rcases element with _ | (_ | _) | _ | _ | _ | _ <;> cases hbyte
      · exact arrayTail_succ.2 ⟨[], byte :: more, after, tail, element, rfl, List.forall_mem_nil _, hjson, hrest⟩

theorem array_reads (hdepth : depth ≤ limits.maxDepth)
    (helement : ∀ offset, Reads bytes element offset (ValueAt limits (depth + 1))) :
    Reads bytes (array bytes limits element) offset fun used _ value =>
      ∃ values, value = .array values ∧ Json used value ∧ Fits limits depth value := by
  refine Reads.get ((container_reads rfl arrayTail_leads fun _ => elements_reads helement).congr fun used rest value _ => ?_)
  constructor
  · rintro ⟨_, rfl, (⟨blank, rfl, hblank, rfl⟩ | ⟨body, values, rfl, hseparated, rfl, hroom, hfits⟩)⟩
    · exact ⟨[], rfl, .emptyArray hblank, .array hdepth (Nat.zero_le _) (List.forall_mem_nil _)⟩
    · exact ⟨values, rfl, .array hseparated, .array hdepth hroom hfits⟩
  · rintro ⟨values, rfl, hjson, hfits⟩
    cases hfits with
    | array _ hroom hfits =>
      cases hjson with
      | emptyArray hblank => exact ⟨_, rfl, .inl ⟨_, rfl, hblank, rfl⟩⟩
      | array hseparated => exact ⟨_, rfl, .inr ⟨_, values, rfl, hseparated, rfl, hroom, hfits⟩⟩

/-! ## Objects -/

/-- The end of an object of which `entries` have been read, with room for so many more. -/
def ObjectTail (limits : LexicalLimits) (depth room : Nat) (entries : List (String × LexicalValue)) (used : List UInt8)
    (value : LexicalValue) : Prop :=
  ∃ body more, used = body ++ [ascii '}'] ∧ Separated (ascii ',') (Member Json) body more ∧
    value = .object (entries ++ more) ∧ more.length ≤ room ∧ ((entries ++ more).map Prod.fst).Nodup ∧
    ∀ entry ∈ more, entry.1.utf8ByteSize ≤ limits.maxStringBytes ∧ Fits limits depth entry.2

/-- What follows a member: the end, or a comma and more. -/
def AfterMember (limits : LexicalLimits) (depth room : Nat) (entries : List (String × LexicalValue)) (used : List UInt8)
    (value : LexicalValue) : Prop :=
  (used = [ascii '}'] ∧ value = .object entries) ∨
    ∃ more, used = ascii ',' :: more ∧ ObjectTail limits depth room entries more value

/-- What follows a key: a colon and a value, each between whitespace, and what follows the member. -/
def AfterKey (limits : LexicalLimits) (depth room : Nat) (entries : List (String × LexicalValue)) (key : String)
    (used : List UInt8) (value : LexicalValue) : Prop :=
  ∃ gap gap' item after tail element, used = gap ++ ascii ':' :: (gap' ++ (item ++ (after ++ tail))) ∧ Blank gap ∧
    Blank gap' ∧ Json item element ∧ Fits limits depth element ∧ Blank after ∧
    AfterMember limits depth room (entries ++ [(key, element)]) tail value

theorem nodup_push {key : String} {element : LexicalValue} :
    ((entries ++ [(key, element)]).map Prod.fst).Nodup ↔ (entries.map Prod.fst).Nodup ∧ key ∉ entries.map Prod.fst := by
  rw [List.map_append, List.map_singleton, List.nodup_append_comm, List.singleton_append, List.nodup_cons, and_comm]

theorem objectTail_succ
    (hentries : (entries.map Prod.fst).Nodup) : ObjectTail limits depth (room + 1) entries used value ↔
      ∃ before name more key, used = before ++ (name ++ more) ∧ Blank before ∧ Quoted name key ∧
        key.utf8ByteSize ≤ limits.maxStringBytes ∧ key ∉ entries.map Prod.fst ∧
        AfterKey limits depth room entries key more value := by
  constructor
  · rintro ⟨_, _, rfl, (⟨⟨⟨hleft, hname, hright⟩, hleft', hitem, hright'⟩⟩ |
      ⟨⟨⟨hleft, hname, hright⟩, hleft', hitem, hright'⟩, htail⟩), rfl, hroom, hnodup, hall⟩
    · obtain ⟨hsize, hfits⟩ := hall _ (.head _)
      refine ⟨_, _, _, _, ?_, hleft, hname, hsize, (nodup_push.1 hnodup).2, _, _, _, _, [ascii '}'], _, rfl, hright, hleft',
        hitem, hfits, hright', .inl ⟨rfl, rfl⟩⟩
      simp only [List.append_assoc, List.cons_append]
    · obtain ⟨hsize, hfits⟩ := hall _ (.head _)
      rw [List.append_cons] at hnodup
      have hprefix := hnodup.sublist (List.map_append .. ▸ List.sublist_append_left ..)
      refine ⟨_, _, _, _, ?_, hleft, hname, hsize, (nodup_push.1 hprefix).2, _, _, _, _, ascii ',' :: (_ ++ [ascii '}']), _, rfl,
        hright, hleft', hitem, hfits, hright',
        .inr ⟨_, rfl, _, _, rfl, htail, ?_, Nat.le_of_succ_le_succ hroom, hnodup, fun entry hentry => hall entry (.tail _ hentry)⟩⟩
      · simp only [List.append_assoc, List.cons_append]
      · rw [List.append_cons]
  · rintro ⟨before, name, _, key, rfl, hbefore, hname, hsize, hkey, gap, gap', item, after, _, element, rfl, hgap, hgap', hitem,
      hfits, hafter, hrest⟩
    have hmember : Member Json (before ++ (name ++ gap) ++ ascii ':' :: (gap' ++ (item ++ after))) (key, element) :=
      .intro (.intro hbefore hname hgap) (.intro hgap' hitem hafter)
    rcases hrest with ⟨rfl, rfl⟩ | ⟨_, rfl, body, more, rfl, hseparated, rfl, hroom, hnodup, hall⟩
    · refine ⟨_, [(key, element)], ?_, .one hmember, rfl, Nat.succ_le_succ (Nat.zero_le _), nodup_push.2 ⟨hentries, hkey⟩, ?_⟩
      · simp only [List.append_assoc, List.cons_append]
      · exact fun entry hentry => List.mem_singleton.1 hentry ▸ ⟨hsize, hfits⟩
    · refine ⟨_, (key, element) :: more, ?_, .cons hmember hseparated, ?_, Nat.succ_le_succ hroom, ?_, ?_⟩
      · simp only [List.append_assoc, List.cons_append]
      · rw [List.append_assoc, List.singleton_append]
      · rwa [List.append_cons]
      · exact List.forall_mem_cons.2 ⟨⟨hsize, hfits⟩, hall⟩

theorem quoted_first {text : String} (h : Quoted used text) : ∃ more, used = ascii '"' :: more := by
  obtain ⟨body, chars, rfl, -⟩ := h
  exact ⟨_, rfl⟩

theorem afterMember_first (h : AfterMember limits depth room entries used value) :
    Stops isWhitespace (used ++ rest) ∧ Ends (used ++ rest) := by
  rcases h with ⟨rfl, -⟩ | ⟨more, rfl, -⟩ <;>
    exact ⟨stops_cons.2 rfl, stops_cons.2 rfl, stops_cons.2 rfl, stops_cons.2 rfl⟩

theorem afterKey_reads {key : String} {more : LexicalValue → ScanM LexicalValue}
    (helement : ∀ offset, Reads bytes element offset (ValueAt limits depth))
    (hmore : ∀ item offset, Reads bytes (more item) offset fun used _ value =>
      ObjectTail limits depth room (entries ++ [(key, item)]) used value) :
    Reads bytes (do
      skipWhitespace bytes
      expect bytes (ascii ':')
      skipWhitespace bytes
      let item ← element
      skipWhitespace bytes
      afterItem bytes (ascii '}') (more item) (.object (entries ++ [(key, item)]))) offset fun used _ value =>
        AfterKey limits depth room entries key used value := by
  have hafter : ∀ item offset, Reads bytes (skipWhitespace bytes >>= fun _ =>
      afterItem bytes (ascii '}') (more item) (.object (entries ++ [(key, item)]))) offset fun used _ value =>
        ∃ after tail, used = after ++ tail ∧ Blank after ∧
          AfterMember limits depth room (entries ++ [(key, item)]) tail value := fun item offset =>
    blank_reads (fun _ => afterItem_reads (by decide) (hmore item)) fun _ _ _ h => (afterMember_first h).1
  refine (blank_reads (fun _ => (expect_reads _).seq _ fun _ _ _ _ _ =>
    blank_reads (fun _ => (helement _).seq _ fun _ _ item _ _ => hafter item _) ?_) ?_).congr fun used rest value _ => ?_
  · rintro _ rest value ⟨item, _, element, rfl, ⟨hjson, -⟩, -⟩
    obtain ⟨byte, _, rfl, hbyte⟩ := json_first hjson
    exact stops_cons.2 (opens_not_blank hbyte)
  · rintro _ rest value ⟨_, _, _, rfl, rfl, -⟩
    exact stops_cons.2 rfl
  · constructor
    · rintro ⟨gap, _, rfl, hgap, _, _, _, rfl, rfl, gap', _, rfl, hgap', item, _, element, rfl, ⟨hjson, hfits, -⟩, after, tail, rfl,
        hafter, htail⟩
      exact ⟨gap, gap', item, after, tail, element, rfl, hgap, hgap', hjson, hfits, hafter, htail⟩
    · rintro ⟨gap, gap', item, after, tail, element, rfl, hgap, hgap', hjson, hfits, hafter, htail⟩
      refine ⟨gap, _, rfl, hgap, [_], _, (), rfl, rfl, gap', _, rfl, hgap', item, _, element, rfl, ?_, after, tail, rfl, hafter,
        htail⟩
      refine valueAt_of_json hjson hfits ?_
      rw [List.append_assoc]
      exact ends_of_blank hafter (afterMember_first htail).2

theorem members_reads {depth start room : Nat}
    (helement : ∀ offset, Reads bytes element offset (ValueAt limits depth)) (hentries : (entries.map Prod.fst).Nodup) :
    Reads bytes (members bytes limits element start room entries) offset fun used _ value =>
      ObjectTail limits depth room entries used value := by
  induction room generalizing entries offset with
  | zero =>
    refine reads_fail rfl ?_
    rintro used rest value - ⟨body, more, -, hseparated, -, hroom, -⟩
    cases hseparated <;> exact absurd hroom (by simp)
  | succ room ih =>
    refine (blank_reads (fun _ => Reads.get (text_reads.seq (fun key used rest value => key ∉ entries.map Prod.fst ∧
      AfterKey limits depth room entries key used value) fun _ _ key _ _ => ?_)) ?_).congr fun used rest value _ => ?_
    · have hmem : (entries.any fun entry => entry.1 = key) = true ↔ key ∈ entries.map Prod.fst := by
        rw [List.any_eq_true, List.mem_map]
        exact exists_congr fun _ => and_congr_right fun _ => decide_eq_true_iff
      refine Reads.refuse (fun hduplicate used rest value _ h => h.1 (hmem.1 hduplicate)) fun hfresh => ?_
      have hkey := mt hmem.2 hfresh
      refine (afterKey_reads helement fun item _ => ih (nodup_push.2 ⟨hentries, hkey⟩)).congr fun used rest value _ => ?_
      exact ⟨fun h => ⟨hkey, h⟩, fun h => h.2⟩
    · rintro _ rest value ⟨name, more, key, rfl, ⟨hquoted, -⟩, -⟩
      obtain ⟨_, rfl⟩ := quoted_first hquoted
      exact stops_cons.2 rfl
    · rw [objectTail_succ hentries]
      constructor
      · rintro ⟨before, _, rfl, hbefore, name, more, key, rfl, ⟨hname, hsize⟩, hrest⟩
        exact ⟨before, name, more, key, rfl, hbefore, hname, hsize, hrest⟩
      · rintro ⟨before, name, more, key, rfl, hbefore, hname, hsize, hrest⟩
        exact ⟨before, _, rfl, hbefore, name, more, key, rfl, ⟨hname, hsize⟩, hrest⟩

theorem objectTail_leads : Leads (ascii '}') fun used value => ObjectTail limits depth room [] used value := by
  have hnone : (List.map Prod.fst ([] : List (String × LexicalValue))).Nodup := .nil
  have hroom : ∀ {used value}, ¬ ObjectTail limits depth 0 [] used value := by
    rintro used value ⟨body, more, -, hseparated, -, hroom, -⟩
    cases hseparated <;> exact absurd hroom (by simp)
  cases room with
  | zero => exact ⟨fun _ h => absurd h hroom, fun h => absurd h hroom⟩
  | succ room =>
    refine ⟨fun hblank htail => ?_, fun htail => ?_⟩
    · obtain ⟨before, name, more, key, rfl, hbefore, hrest⟩ := (objectTail_succ hnone).1 htail
      refine (objectTail_succ hnone).2 ⟨_, name, more, key, (List.append_assoc ..).symm, ?_, hrest⟩
      exact List.forall_mem_append.2 ⟨hblank, hbefore⟩
    · obtain ⟨before, name, more, key, rfl, hbefore, hname, hrest⟩ := (objectTail_succ hnone).1 htail
      obtain ⟨name, rfl⟩ := quoted_first hname
      refine ⟨before, ascii '"', _, rfl, hbefore, rfl, by decide, ?_⟩
      exact (objectTail_succ hnone).2 ⟨[], _, more, key, rfl, List.forall_mem_nil _, hname, hrest⟩

theorem object_reads (hdepth : depth ≤ limits.maxDepth)
    (helement : ∀ offset, Reads bytes element offset (ValueAt limits (depth + 1))) :
    Reads bytes (object bytes limits element) offset fun used _ value =>
      ∃ entries, value = .object entries ∧ Json used value ∧ Fits limits depth value := by
  refine Reads.get ((container_reads rfl objectTail_leads fun _ => members_reads helement .nil).congr
    fun used rest value _ => ?_)
  constructor
  · rintro ⟨_, rfl, (⟨blank, rfl, hblank, rfl⟩ | ⟨body, entries, rfl, hseparated, rfl, hroom, hnodup, hall⟩)⟩
    · exact ⟨[], rfl, .emptyObject hblank,
        .object hdepth (Nat.zero_le _) (List.forall_mem_nil _) .nil (List.forall_mem_nil _)⟩
    · exact ⟨entries, rfl, .object hseparated,
        .object hdepth hroom (fun entry h => (hall entry h).1) hnodup fun entry h => (hall entry h).2⟩
  · rintro ⟨entries, rfl, hjson, hfits⟩
    cases hfits with
    | object _ hroom hkeys hnodup hfits =>
      cases hjson with
      | emptyObject hblank => exact ⟨_, rfl, .inl ⟨_, rfl, hblank, rfl⟩⟩
      | object hseparated =>
        exact ⟨_, rfl, .inr ⟨_, entries, rfl, hseparated, rfl, hroom, hnodup, fun entry h => ⟨hkeys entry h, hfits entry h⟩⟩⟩

end Values

/-! ## The whole input -/

theorem asciiText_size (h : Number used) : (asciiText used).utf8ByteSize = used.length := by
  unfold asciiText
  rw [utf8ByteSize_ofList, encode_ascii (number_ascii h)]

/-- A scanner reads values where it reads those that the next byte opens. -/
theorem valueAt_reads {depth : Nat} {x : ScanM LexicalValue} {text : List UInt8}
    {relation : List UInt8 → List UInt8 → LexicalValue → Prop} (htext : bytes.drop offset = byte :: text)
    (hx : Reads bytes x offset relation)
    (hsound : ∀ used rest value, relation used rest value → ValueAt limits depth used rest value)
    (hcomplete : ∀ used rest value, opens byte value = true → ValueAt limits depth used rest value →
      relation used rest value) : Reads bytes x offset (ValueAt limits depth) := by
  refine hx.congr fun used rest value hdrop => ⟨hsound used rest value, fun hvalue => ?_⟩
  refine hcomplete used rest value ?_ hvalue
  obtain ⟨first, more, rfl, hfirst⟩ := json_first hvalue.1
  rwa [(List.cons.inj (htext.symm.trans hdrop)).1]

theorem literal_value_reads {depth : Nat} {text known : List UInt8} {value : LexicalValue}
    (htext : bytes.drop offset = byte :: text) (hvalue : ∀ rest, ValueAt limits depth known rest value)
    (honly : ∀ used other, opens byte other = true → Json used other → used = known ∧ other = value) :
    Reads bytes (literal bytes known >>= fun _ => pure value) offset (ValueAt limits depth) := by
  refine valueAt_reads htext ((literal_reads known).returns fun _ => value) ?_ ?_
  · rintro used rest _ ⟨_, rfl, rfl⟩
    exact hvalue rest
  · rintro used rest other hopens ⟨hjson, -⟩
    obtain ⟨rfl, rfl⟩ := honly used other hopens hjson
    exact ⟨(), rfl, rfl⟩

theorem text_value_reads {depth : Nat} {text : List UInt8} (htext : bytes.drop offset = ascii '"' :: text)
    (hdepth : depth ≤ limits.maxDepth) :
    Reads bytes (Scanner.text bytes limits >>= fun text => pure (.text text)) offset (ValueAt limits depth) := by
  refine valueAt_reads htext (text_reads.returns LexicalValue.text) ?_ ?_
  · rintro used rest _ ⟨text, ⟨hquoted, hsize⟩, rfl⟩
    exact ⟨.text hquoted, .text hdepth hsize, nofun⟩
  · rintro used rest (_ | (_ | _) | _ | text | _ | _) hopens ⟨hjson, hfits, -⟩ <;> try cases hopens
    cases hjson with
    | text hquoted =>
      cases hfits with
      | text _ hsize => exact ⟨text, ⟨hquoted, hsize⟩, rfl⟩

theorem number_value_reads {depth : Nat} {text : List UInt8} (htext : bytes.drop offset = byte :: text)
    (honly : ∀ value, opens byte value = true → ∃ lexeme, value = .number lexeme) (hdepth : depth ≤ limits.maxDepth) :
    Reads bytes (number bytes limits >>= fun lexeme => pure (.number lexeme)) offset (ValueAt limits depth) := by
  refine valueAt_reads htext (number_reads.returns LexicalValue.number) ?_ ?_
  · rintro used rest _ ⟨_, ⟨hnumber, hsize, rfl⟩, rfl⟩
    refine ⟨.number hnumber.number, .number hdepth ?_, fun _ _ => hnumber⟩
    rwa [asciiText_size hnumber.number]
  · rintro used rest value hopens ⟨hjson, hfits, hnumber⟩
    obtain ⟨lexeme, rfl⟩ := honly value hopens
    have hat := hnumber lexeme rfl
    cases hjson with
    | number h =>
      cases hfits with
      | number _ hsize => exact ⟨_, ⟨hat, asciiText_size h ▸ hsize, rfl⟩, rfl⟩

theorem value_reads {levels depth : Nat} (hlevels : depth + levels = limits.maxDepth + 1) :
    Reads bytes (value bytes limits levels) offset (ValueAt limits depth) := by
  induction levels generalizing depth offset with
  | zero =>
    refine reads_fail rfl ?_
    rintro used rest value - ⟨-, hfits, -⟩
    have := depth_le hfits
    omega
  | succ levels ih =>
    have hdepth : depth ≤ limits.maxDepth := by omega
    have helement : ∀ offset, Reads bytes (value bytes limits levels) offset (ValueAt limits (depth + 1)) :=
      fun offset => ih (by omega)
    refine Reads.peekOr (fun _ value hvalue => ?_) fun byte text htext => ?_
    · obtain ⟨_, _, h, -⟩ := json_first hvalue.1
      cases h
    -- One scanner for each byte that opens a value.
    split
    · next hbyte =>
      subst hbyte
      refine literal_value_reads htext (fun _ => ⟨.null, .null hdepth, nofun⟩) ?_
      rintro used (_ | (_ | _) | _ | _ | _ | _) hopens hjson <;> cases hopens
      cases hjson
      exact ⟨rfl, rfl⟩
    split
    · next hbyte =>
      subst hbyte
      refine literal_value_reads htext (fun _ => ⟨.true, .bool hdepth, nofun⟩) ?_
      rintro used (_ | (_ | _) | _ | _ | _ | _) hopens hjson <;> cases hopens
      cases hjson
      exact ⟨rfl, rfl⟩
    split
    · next hbyte =>
      subst hbyte
      refine literal_value_reads htext (fun _ => ⟨.false, .bool hdepth, nofun⟩) ?_
      rintro used (_ | (_ | _) | _ | _ | _ | _) hopens hjson <;> cases hopens
      cases hjson
      exact ⟨rfl, rfl⟩
    split
    · next hbyte => exact text_value_reads (hbyte ▸ htext) hdepth
    split
    · next hbyte =>
      subst hbyte
      refine valueAt_reads htext (array_reads hdepth helement) ?_ ?_
      · rintro used rest _ ⟨values, rfl, hjson, hfits⟩
        exact ⟨hjson, hfits, nofun⟩
      · rintro used rest (_ | (_ | _) | _ | _ | values | _) hopens ⟨hjson, hfits, -⟩ <;> cases hopens
        exact ⟨values, rfl, hjson, hfits⟩
    split
    · next hbyte =>
      subst hbyte
      refine valueAt_reads htext (object_reads hdepth helement) ?_ ?_
      · rintro used rest _ ⟨entries, rfl, hjson, hfits⟩
        exact ⟨hjson, hfits, nofun⟩
      · rintro used rest (_ | (_ | _) | _ | _ | _ | entries) hopens ⟨hjson, hfits, -⟩ <;> cases hopens
        exact ⟨entries, rfl, hjson, hfits⟩
    · next hnull htrue hfalse hquote hbracket hbrace =>
      have honly : ∀ value, opens byte value = true →
          (∃ lexeme, value = .number lexeme) ∧ (byte = ascii '-' ∨ isAsciiDigit byte = true) := by
        rintro (_ | (_ | _) | lexeme | _ | _ | _) hopens
        · exact absurd (of_decide_eq_true hopens) hnull
        · exact absurd (of_decide_eq_true hopens) hfalse
        · exact absurd (of_decide_eq_true hopens) htrue
        · exact ⟨⟨lexeme, rfl⟩, of_decide_eq_true hopens⟩
        · exact absurd (of_decide_eq_true hopens) hquote
        · exact absurd (of_decide_eq_true hopens) hbracket
        · exact absurd (of_decide_eq_true hopens) hbrace
      refine Reads.get (Reads.refuse (fun hother used rest value hdrop hvalue => hother ?_) fun _ => ?_)
      · obtain ⟨first, more, rfl, hfirst⟩ := json_first hvalue.1
        rw [(List.cons.inj (htext.symm.trans hdrop)).1] at honly ⊢
        exact (honly value hfirst).2
      · exact number_value_reads htext (fun value hopens => (honly value hopens).1) hdepth

theorem ending_reads {value : LexicalValue} (hoffset : offset ≤ bytes.length) :
    Reads bytes (do
      skipWhitespace bytes
      refuse ((← get) ≠ bytes.length) (.trailingBytes (← get))
      return value) offset fun used rest result => Blank used ∧ rest = [] ∧ result = value := by
  refine ((reads_skipWhile isWhitespace).seq (fun _ used rest result => used = [] ∧ rest = [] ∧ result = value)
    fun blank left _ hdrop _ => ?_).congr fun used rest result _ => ?_
  · have hstop := stop_le hdrop hoffset
    refine Reads.get (Reads.get (Reads.refuse ?_ fun hend => ?_))
    · rintro hne used rest result hleft ⟨rfl, rfl, rfl⟩
      exact hne (Nat.le_antisymm hstop (List.drop_eq_nil_iff.1 hleft))
    · refine (reads_pure value).congr fun used rest result hleft => ?_
      rw [List.drop_of_length_le (Nat.le_of_eq (not_not.1 hend).symm)] at hleft
      obtain ⟨rfl, rfl⟩ := List.append_eq_nil_iff.1 hleft.symm
      exact and_congr_right fun _ => (and_iff_right rfl).symm
  · constructor
    · rintro ⟨blank, _, _, rfl, ⟨hblank, -⟩, rfl, hrest, hresult⟩
      rw [List.append_nil]
      exact ⟨hblank, hrest, hresult⟩
    · rintro ⟨hblank, rfl, hresult⟩
      exact ⟨used, [], (), (List.append_nil _).symm, ⟨hblank, nofun⟩, rfl, rfl, hresult⟩

theorem whole_reads : Reads bytes (whole bytes limits) 0 fun used rest value =>
    rest = [] ∧ Padded Json used value ∧ Fits limits 0 value := by
  refine ((reads_skipWhile isWhitespace).seq _ fun blank left _ hdrop _ =>
    (value_reads (Nat.zero_add _)).seq _ fun item more value hmore _ =>
      ending_reads (stop_le hmore (stop_le hdrop (Nat.zero_le _)))).congr fun used rest value _ => ?_
  constructor
  · rintro ⟨before, _, _, rfl, ⟨hbefore, -⟩, item, after, _, rfl, ⟨hjson, hfits, -⟩, hafter, rfl, rfl⟩
    exact ⟨rfl, .intro hbefore hjson hafter, hfits⟩
  · rintro ⟨rfl, ⟨hbefore, hjson, hafter⟩, hfits⟩
    obtain ⟨first, more, rfl, hfirst⟩ := json_first hjson
    refine ⟨_, _, (), rfl, ⟨hbefore, stops_cons.2 (opens_not_blank hfirst)⟩, _, _, value, rfl, ?_, hafter, rfl, rfl⟩
    exact valueAt_of_json hjson hfits (ends_of_blank hafter ⟨nofun, nofun, nofun⟩)

end Scanner

theorem parseLexical_ok {bytes : List UInt8} {limits : LexicalLimits} {value : LexicalValue}
    (h : parseLexical bytes limits = .ok value) :
    bytes.length ≤ limits.maxBytes ∧ Padded Json bytes value ∧ Fits limits 0 value := by
  unfold parseLexical at h
  rw [Fallible.ite_error_eq_ok, Fallible.ite_error_eq_ok, Fallible.map_eq_ok] at h
  obtain ⟨-, hsize, ⟨_, stop⟩, hok, rfl⟩ := h
  obtain ⟨used, rest, hdrop, -, rfl, hpadded, hfits⟩ := (Scanner.whole_reads _ stop).1 hok
  rw [List.drop_zero, List.append_nil] at hdrop
  exact ⟨Nat.not_lt.1 hsize, hdrop ▸ hpadded, hfits⟩

theorem padded_json_first {bytes : List UInt8} {value : LexicalValue} (h : Padded Json bytes value) :
    ∃ byte more, bytes = byte :: more ∧ (isWhitespace byte = true ∨ Scanner.opens byte value = true) := by
  obtain ⟨hbefore, hjson, -⟩ := h
  next before used after =>
  cases before with
  | nil =>
    obtain ⟨first, more, rfl, hfirst⟩ := Scanner.json_first hjson
    exact ⟨first, _, rfl, .inr hfirst⟩
  | cons byte before => exact ⟨byte, _, rfl, .inl (hbefore byte (.head _))⟩

/-- The parser accepts an input exactly when the input is within its byte limit and is a value of the grammar between
whitespace that fits the limits, and it gives that value. -/
theorem parseLexical_exact (bytes : List UInt8) (limits : LexicalLimits) (value : LexicalValue) :
    parseLexical bytes limits = .ok value ↔
      bytes.length ≤ limits.maxBytes ∧ Padded Json bytes value ∧ Fits limits 0 value := by
  refine ⟨parseLexical_ok, fun ⟨hsize, hpadded, hfits⟩ => ?_⟩
  have hne : bytes ≠ [] := by
    obtain ⟨first, more, rfl, -⟩ := padded_json_first hpadded
    exact List.cons_ne_nil _ _
  unfold parseLexical
  rw [if_neg hne, if_neg (Nat.not_lt.2 hsize), Fallible.map_eq_ok]
  have hread : bytes.drop 0 = bytes ++ [] := (List.append_nil _).symm
  exact ⟨_, (Scanner.whole_reads value _).2 ⟨bytes, [], hread, rfl, rfl, hpadded, hfits⟩, rfl⟩

end PmWs.Wire
