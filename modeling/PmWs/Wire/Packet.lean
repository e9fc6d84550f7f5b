import PmWs.Lib.Framing
import PmWs.Wire.Exact
import PmWs.Wire.SocketIo

/-!
# Socket.IO packets by their grammar

A packet is its parts, each as it is written: the kind's digit, the attachment
count of the binary kinds, a namespace, an acknowledgment id, a JSON text. The
decoder peels these off one by one and takes nothing else, but for the plus its
library integer parser allows in front of an attachment count.
-/

open MachineInt Fallible Utf8

namespace PmWs.Wire

/-! ## The grammar -/

/-- The number some ASCII digits denote. -/
def digitsValue (digits : List UInt8) : Nat := Nat.ofDigitChars 10 (digits.map fun byte => Char.ofNat byte.toNat) 0

/-- The parts of a Socket.IO packet. -/
structure Packet (limits : LexicalLimits) where
  digit : UInt8
  kind : SocketIoPacket
  count : List UInt8
  namespacePath : Option String
  acknowledgment : List UInt8
  text : List UInt8
  value : Option LexicalValue
  digit_names : SocketIoPacket.fromWireDigit digit = some kind
  counted : if kind.carriesBinaryAttachments then Digits count ∧ digitsValue count ≤ u16Max else count = []
  slashed : ∀ path ∈ namespacePath, (encode path.toList).head? = some (ascii '/') ∧ ascii ',' ∉ encode path.toList
  numbered : (∀ byte ∈ acknowledgment, isAsciiDigit byte = true) ∧ digitsValue acknowledgment ≤ u64Max
  run_ends : ∀ byte ∈ text.head?, isAsciiDigit byte = false
  parsed : (text = [] ∧ value = none) ∨ ∃ json, parseLexical text limits = .ok json ∧ value = some json
  enveloped : kind.carriesEventName = true → ∃ name arguments, value = some (.array (.text name :: arguments))

namespace Packet

variable {limits : LexicalLimits}

/-- The packet from its namespace on. -/
def tail (p : Packet limits) : List UInt8 :=
  (p.namespacePath.map fun path => encode path.toList ++ [ascii ',']).getD [] ++ (p.acknowledgment ++ p.text)

/-- A count as it is written, after what stands in front of its digits. -/
def countText (p : Packet limits) (before : List UInt8) : List UInt8 :=
  if p.kind.carriesBinaryAttachments then before ++ (p.count ++ [ascii '-']) else []

def bytes (p : Packet limits) : List UInt8 := p.digit :: (p.countText [] ++ p.tail)

/-- An event's name, argument and further arguments; any other packet's payload. -/
def contents (p : Packet limits) : Option String × Option LexicalValue × List LexicalValue :=
  match p.kind.carriesEventName, p.value with
  | true, some (.array (.text name :: arguments)) => (some name, arguments.head?, arguments.drop 1)
  | _, _ => (none, p.value, [])

def frame (p : Packet limits) : DecodedFrame where
  engineIo := some .message
  socketIo := some p.kind
  namespacePath := p.namespacePath
  acknowledgmentId := if p.acknowledgment = [] then none else some (digitsValue p.acknowledgment)
  binaryAttachments := if p.kind.carriesBinaryAttachments then digitsValue p.count else 0
  eventName := p.contents.1
  payload := p.contents.2.1
  extraArguments := p.contents.2.2

end Packet

/-! ## Integers -/

theorem isAsciiDigit_iff {byte : UInt8} : isAsciiDigit byte = true ↔ 48 ≤ byte.toNat ∧ byte.toNat ≤ 57 := by
  unfold isAsciiDigit
  rw [decide_eq_true_eq, UInt8.le_iff_toNat_le, UInt8.le_iff_toNat_le]
  exact Iff.rfl

theorem isDigit_iff {c : Char} : c.isDigit = true ↔ 48 ≤ c.toNat ∧ c.toNat ≤ 57 := by
  unfold Char.isDigit
  rw [Bool.and_eq_true, decide_eq_true_eq, decide_eq_true_eq]
  exact Iff.rfl

theorem isDigit_ofNat {byte : UInt8} (h : isAsciiDigit byte = true) : (Char.ofNat byte.toNat).isDigit = true := by
  obtain ⟨hlow, hhigh⟩ := isAsciiDigit_iff.1 h
  have hvalid : byte.toNat.isValidChar := .inl (by omega)
  rw [isDigit_iff, Char.ofNat, dif_pos hvalid]
  exact ⟨hlow, hhigh⟩

/-- A digit character is the ASCII byte it is encoded as. -/
theorem exists_digit_byte {c : Char} (h : c.isDigit = true) :
    ∃ byte : UInt8, isAsciiDigit byte = true ∧ c = Char.ofNat byte.toNat := by
  obtain ⟨hlow, hhigh⟩ := isDigit_iff.1 h
  have htoNat : (UInt8.ofNat c.toNat).toNat = c.toNat := by
    rw [UInt8.toNat_ofNat']
    omega
  refine ⟨UInt8.ofNat c.toNat, isAsciiDigit_iff.2 (by omega), ?_⟩
  rw [htoNat, Char.ofNat_toNat]

theorem exists_digit_bytes {chars : List Char} (h : ∀ c ∈ chars, c.isDigit = true) :
    ∃ digits : List UInt8, (∀ byte ∈ digits, isAsciiDigit byte = true) ∧
      chars = digits.map fun byte => Char.ofNat byte.toNat := by
  induction chars with
  | nil => exact ⟨[], List.forall_mem_nil _, rfl⟩
  | cons c chars ih =>
    obtain ⟨hc, hchars⟩ := List.forall_mem_cons.1 h
    obtain ⟨byte, hbyte, rfl⟩ := exists_digit_byte hc
    obtain ⟨digits, hdigits, rfl⟩ := ih hchars
    exact ⟨byte :: digits, List.forall_mem_cons.2 ⟨hbyte, hdigits⟩, rfl⟩

theorem encode_digits {digits : List UInt8} (h : ∀ byte ∈ digits, isAsciiDigit byte = true) :
    encode (digits.map fun byte => Char.ofNat byte.toNat) = digits :=
  encode_ascii fun byte hbyte => by
    have := (isAsciiDigit_iff.1 (h byte hbyte)).2
    omega

/-- What `str::parse` takes: digits that fit, and a plus in front of them if there is one. -/
theorem parseUnsigned_iff {max n : Nat} {text : List Char} :
    parseUnsigned max text = some n ↔ ∃ before digits, (before = [] ∨ before = ['+']) ∧ text = before ++ digits ∧
      digits ≠ [] ∧ (∀ c ∈ digits, c.isDigit = true) ∧ Nat.ofDigitChars 10 digits 0 ≤ max ∧
      n = Nat.ofDigitChars 10 digits 0 := by
  have hparts {digits : List Char} :
      (if digits = [] ∨ ¬ digits.all Char.isDigit then none else fit max (Nat.ofDigitChars 10 digits 0)) = some n ↔
        digits ≠ [] ∧ (∀ c ∈ digits, c.isDigit = true) ∧ Nat.ofDigitChars 10 digits 0 ≤ max ∧
          n = Nat.ofDigitChars 10 digits 0 := by
    rw [Option.ite_none_left_eq_some, fit_eq_some, not_or, not_not, List.all_eq_true, and_assoc]
    exact and_congr_right fun _ => and_congr_right fun _ => and_congr_right fun _ => eq_comm
  unfold parseUnsigned
  dsimp only
  split
  · rw [hparts]
    constructor
    · exact fun h => ⟨['+'], _, .inr rfl, rfl, h⟩
    · rintro ⟨before, digits, rfl | rfl, htext, h⟩
      · -- A plus is no digit.
        rw [List.nil_append] at htext
        exact absurd (h.2.1 '+' (htext ▸ .head _)) (by decide)
      · cases htext
        exact h
  · next hplain =>
    rw [hparts]
    constructor
    · exact fun h => ⟨[], text, .inl rfl, rfl, h⟩
    · rintro ⟨before, digits, rfl | rfl, htext, h⟩
      · rw [htext, List.nil_append]
        exact h
      · exact (hplain _ htext).elim

/-- The same of the bytes of a text. -/
theorem parseUnsignedBytes_iff {max n : Nat} {bytes : List UInt8} :
    parseUnsignedBytes max bytes = .ok n ↔ ∃ before digits, (before = [] ∨ before = [ascii '+']) ∧
      bytes = before ++ digits ∧ Digits digits ∧ digitsValue digits ≤ max ∧ n = digitsValue digits := by
  unfold parseUnsignedBytes
  simp only [bind_eq_ok, orError_eq_ok]
  constructor
  · rintro ⟨text, htext, hparse⟩
    obtain ⟨chars, rfl, rfl⟩ := fromUtf8_eq_some.1 htext
    rw [String.toList_ofList] at hparse
    obtain ⟨before, digits, hbefore, rfl, hne, hdigits, hfits, rfl⟩ := parseUnsigned_iff.1 hparse
    obtain ⟨digits, hbytes, rfl⟩ := exists_digit_bytes hdigits
    refine ⟨encode before, digits, ?_, ?_, ⟨fun hnil => hne (by rw [hnil]; rfl), hbytes⟩, hfits, rfl⟩
    · rcases hbefore with rfl | rfl
      · exact .inl rfl
      · exact .inr (by decide)
    · unfold encode
      rw [List.flatMap_append]
      exact congrArg _ (encode_digits hbytes)
  · rintro ⟨before, digits, hbefore, rfl, hdigits, hfits, rfl⟩
    have hchars : ∃ chars, (chars = [] ∨ chars = ['+']) ∧ encode chars = before := by
      rcases hbefore with rfl | rfl
      · exact ⟨[], .inl rfl, rfl⟩
      · exact ⟨['+'], .inr rfl, by decide⟩
    obtain ⟨chars, hchars, rfl⟩ := hchars
    have hencode : encode chars ++ digits = encode (chars ++ digits.map fun byte => Char.ofNat byte.toNat) := by
      unfold encode
      rw [List.flatMap_append]
      exact congrArg _ (encode_digits hdigits.2).symm
    refine ⟨_, fromUtf8_eq_some.2 ⟨_, hencode, rfl⟩, ?_⟩
    rw [String.toList_ofList]
    refine parseUnsigned_iff.2 ⟨chars, _, hchars, rfl, ?_, ?_, hfits, rfl⟩
    · simpa using hdigits.1
    · intro c hc
      obtain ⟨byte, hbyte, rfl⟩ := List.mem_map.1 hc
      exact isDigit_ofNat (hdigits.2 byte hbyte)

/-! ## One part at a time -/

variable {bytes rest digits : List UInt8}

theorem splitAt_iff {separator : UInt8} {field : List UInt8} :
    splitAt separator bytes = some (field, rest) ↔ bytes = field ++ separator :: rest ∧ separator ∉ field := by
  unfold splitAt
  constructor
  · intro h
    by_cases hmem : separator ∈ bytes
    · obtain ⟨before, after, rfl, hbefore⟩ := List.eq_append_cons_of_mem hmem
      rw [Framing.findIdx?_separator hbefore] at h
      simp only [Option.map_some, List.take_left, Option.some.injEq, Prod.mk.injEq] at h
      obtain ⟨rfl, rfl⟩ := h
      refine ⟨?_, hbefore⟩
      rw [List.drop_append]
      simp
    · rw [Framing.findIdx?_none hmem] at h
      cases h
  · rintro ⟨rfl, hfield⟩
    rw [Framing.findIdx?_separator hfield]
    simp [List.drop_append]

/-- Digits and a plus hold no dash. -/
theorem dash_not_mem_count {before : List UInt8} (hbefore : before = [] ∨ before = [ascii '+']) (h : Digits digits) :
    ascii '-' ∉ before ++ digits := by
  intro hmem
  rcases List.mem_append.1 hmem with hmem | hmem
  · rcases hbefore with rfl | rfl
    · cases hmem
    · exact absurd (List.mem_singleton.1 hmem) (by decide)
  · exact absurd (h.2 _ hmem) (by decide)

theorem attachmentCount_iff {kind : SocketIoPacket} {n : Nat} :
    attachmentCount kind bytes = .ok (n, rest) ↔ ∃ before count, (before = [] ∨ before = [ascii '+']) ∧
      (if kind.carriesBinaryAttachments then Digits count ∧ digitsValue count ≤ u16Max else count = []) ∧
      bytes = (if kind.carriesBinaryAttachments then before ++ (count ++ [ascii '-']) else []) ++ rest ∧
      n = if kind.carriesBinaryAttachments then digitsValue count else 0 := by
  unfold attachmentCount
  split
  · simp only [bind_eq_ok, orError_eq_ok, Prod.exists, splitAt_iff, parseUnsignedBytes_iff]
    constructor
    · rintro ⟨_, rest, ⟨rfl, -⟩, _, ⟨before, count, hbefore, rfl, hcount, hfits, rfl⟩, h⟩
      cases h
      exact ⟨before, count, hbefore, ⟨hcount, hfits⟩, by simp, rfl⟩
    · rintro ⟨before, count, hbefore, ⟨hcount, hfits⟩, rfl, rfl⟩
      exact ⟨before ++ count, rest, ⟨by simp, dash_not_mem_count hbefore hcount⟩, _,
        ⟨before, count, hbefore, rfl, hcount, hfits, rfl⟩, rfl⟩
  · constructor
    · intro h
      cases h
      exact ⟨[], [], .inl rfl, rfl, rfl, rfl⟩
    · rintro ⟨_, _, -, -, rfl, rfl⟩
      rfl

theorem head?_encode_append {path : List UInt8} {separator : UInt8} (hseparator : separator ≠ ascii '/') :
    (path ++ separator :: rest).head? = some (ascii '/') ↔ path.head? = some (ascii '/') := by
  cases path with
  | nil => exact ⟨fun h => absurd (Option.some.inj h) hseparator, nofun⟩
  | cons byte path => exact Iff.rfl

theorem namespaceOf_iff {path : Option String} :
    namespaceOf bytes = .ok (path, rest) ↔ (path = none → rest.head? ≠ some (ascii '/')) ∧
      (∀ text ∈ path, (encode text.toList).head? = some (ascii '/') ∧ ascii ',' ∉ encode text.toList) ∧
      bytes = (path.map fun text => encode text.toList ++ [ascii ',']).getD [] ++ rest := by
  have hcomma : ascii ',' ≠ ascii '/' := by decide
  have hsplit (text : String) : encode text.toList ++ [ascii ','] ++ rest = encode text.toList ++ ascii ',' :: rest := by simp
  unfold namespaceOf
  split
  · next hslash =>
    simp only [bind_eq_ok, orError_eq_ok, Prod.exists, splitAt_iff]
    constructor
    · rintro ⟨_, rest, ⟨rfl, hpath⟩, text, htext, h⟩
      cases h
      obtain ⟨chars, rfl, rfl⟩ := fromUtf8_eq_some.1 htext
      rw [head?_encode_append hcomma] at hslash
      refine ⟨by simp, ?_, by simp⟩
      rintro _ ⟨⟩
      rw [String.toList_ofList]
      exact ⟨hslash, hpath⟩
    · rintro ⟨hplain, hpath, rfl⟩
      cases path with
      | none => exact absurd hslash (hplain rfl)
      | some text =>
        exact ⟨_, _, ⟨hsplit text, (hpath text rfl).2⟩, text, fromUtf8_eq_some.2 ⟨_, rfl, String.ofList_toList.symm⟩, rfl⟩
  · next hplain =>
    constructor
    · intro h
      cases h
      exact ⟨fun _ => hplain, by simp, rfl⟩
    · rintro ⟨-, hpath, rfl⟩
      cases path with
      | none => rfl
      | some text =>
        refine absurd ?_ hplain
        rw [Option.map_some, Option.getD_some, hsplit, head?_encode_append hcomma]
        exact (hpath text rfl).1

theorem takeWhile_run (hdigits : ∀ byte ∈ digits, isAsciiDigit byte = true)
    (hends : ∀ byte ∈ rest.head?, isAsciiDigit byte = false) : (digits ++ rest).takeWhile isAsciiDigit = digits := by
  have hrest : rest.takeWhile isAsciiDigit = [] := by
    cases rest with
    | nil => rfl
    | cons byte rest => exact List.takeWhile_cons_of_neg (by rw [hends byte rfl]; decide)
  rw [List.takeWhile_append_of_pos hdigits, hrest, List.append_nil]

theorem parseUnsignedBytes_digits {max n : Nat} (h : Digits digits) :
    parseUnsignedBytes max digits = .ok n ↔ digitsValue digits ≤ max ∧ n = digitsValue digits := by
  rw [parseUnsignedBytes_iff]
  constructor
  · rintro ⟨before, digits', rfl | rfl, rfl, -, hvalue⟩
    · exact hvalue
    · exact absurd (h.2 (ascii '+') (.head _)) (by decide)
  · exact fun hvalue => ⟨[], digits, .inl rfl, rfl, h, hvalue⟩

/-- The run of digits a packet's tail starts with is its acknowledgment id. -/
theorem acknowledgmentOf_iff {id : Option Nat} :
    acknowledgmentOf bytes = .ok (id, rest) ↔ ∃ digits, bytes = digits ++ rest ∧
      (∀ byte ∈ digits, isAsciiDigit byte = true) ∧ digitsValue digits ≤ u64Max ∧
      (∀ byte ∈ rest.head?, isAsciiDigit byte = false) ∧ id = if digits = [] then none else some (digitsValue digits) := by
  unfold acknowledgmentOf
  constructor
  · intro h
    have hsplit : bytes = bytes.takeWhile isAsciiDigit ++ bytes.dropWhile isAsciiDigit :=
      (List.takeWhile_append_dropWhile ..).symm
    obtain ⟨hdigits, hends⟩ := (Scanning.takeWhile_eq_iff hsplit).1 rfl
    generalize bytes.takeWhile isAsciiDigit = digits at h hsplit hdigits
    generalize bytes.dropWhile isAsciiDigit = tail at hsplit hends
    subst hsplit
    dsimp only at h
    rw [List.drop_left] at h
    split at h
    · next hsome =>
      have hne : digits ≠ [] := List.ne_nil_of_length_pos hsome
      rw [bind_eq_ok] at h
      obtain ⟨id, hid, h⟩ := h
      cases h
      obtain ⟨hfits, rfl⟩ := (parseUnsignedBytes_digits ⟨hne, hdigits⟩).1 hid
      exact ⟨digits, rfl, hdigits, hfits, hends, by rw [if_neg hne]⟩
    · next hnone =>
      obtain rfl : digits = [] := List.eq_nil_of_length_eq_zero (by omega)
      cases h
      exact ⟨[], rfl, hdigits, Nat.zero_le _, hends, rfl⟩
  · rintro ⟨digits, rfl, hdigits, hfits, hends, rfl⟩
    rw [takeWhile_run hdigits hends]
    dsimp only
    by_cases hne : digits = []
    · subst hne
      rfl
    · rw [if_pos (List.length_pos_iff.2 hne), if_neg hne,
        (parseUnsignedBytes_digits ⟨hne, hdigits⟩).2 ⟨hfits, rfl⟩, List.drop_left]
      rfl

theorem payloadOf_iff {limits : LexicalLimits} {payload : Option LexicalValue} :
    payloadOf bytes limits = .ok payload ↔
      (bytes = [] ∧ payload = none) ∨ ∃ json, parseLexical bytes limits = .ok json ∧ payload = some json := by
  unfold payloadOf
  split
  · next hempty =>
    subst hempty
    constructor
    · intro h
      cases h
      exact .inl ⟨rfl, rfl⟩
    · rintro (⟨-, rfl⟩ | ⟨json, hjson, -⟩)
      · rfl
      · cases hjson
  · next hsome =>
    simp only [map_eq_ok, mapError_eq_ok]
    constructor
    · rintro ⟨json, hjson, rfl⟩
      exact .inr ⟨json, hjson, rfl⟩
    · rintro (⟨hempty, -⟩ | ⟨json, hjson, rfl⟩)
      · exact absurd hempty hsome
      · exact ⟨json, hjson, rfl⟩

theorem eventEnvelope_iff {payload argument : Option LexicalValue} {name : String} {extra : List LexicalValue} :
    eventEnvelope payload = .ok (name, argument, extra) ↔ ∃ arguments,
      payload = some (.array (.text name :: arguments)) ∧ argument = arguments.head? ∧ extra = arguments.drop 1 := by
  unfold eventEnvelope
  simp only [bind_eq_ok, orError_eq_ok, Option.bind_eq_some_iff]
  constructor
  · rintro ⟨values, ⟨value, rfl, hvalues⟩, name, ⟨first, hfirst, hname⟩, h⟩
    cases value <;> cases hvalues
    cases values with
    | nil => cases hfirst
    | cons first arguments =>
      cases hfirst
      cases first <;> cases hname
      cases h
      exact ⟨arguments, rfl, List.head?_eq_getElem?.symm, rfl⟩
  · rintro ⟨arguments, rfl, rfl, rfl⟩
    refine ⟨_, ⟨_, rfl, rfl⟩, name, ⟨_, rfl, rfl⟩, ?_⟩
    rw [List.head?_eq_getElem?]
    rfl

/-! ## Whole packets -/

theorem parseLexical_not_slash {limits : LexicalLimits} {value : LexicalValue} :
    parseLexical (ascii '/' :: rest) limits ≠ .ok value := by
  intro h
  obtain ⟨byte, more, hbytes, hfirst⟩ := padded_json_first (parseLexical_ok h).2.1
  obtain ⟨rfl, -⟩ := List.cons.inj hbytes
  rcases hfirst with hblank | hopens
  · exact absurd hblank (by decide)
  · rcases value with _ | (_ | _) | _ | _ | _ | _ <;> cases hopens

variable {limits : LexicalLimits}

/-- What follows the namespace does not start like one. -/
theorem Packet.no_slash (p : Packet limits) : (p.acknowledgment ++ p.text).head? ≠ some (ascii '/') := by
  intro hslash
  cases hack : p.acknowledgment with
  | nil =>
    rw [hack, List.nil_append] at hslash
    rcases p.parsed with ⟨hempty, -⟩ | ⟨json, hjson, -⟩
    · rw [hempty] at hslash
      cases hslash
    · cases htext : p.text with
      | nil =>
        rw [htext] at hslash
        cases hslash
      | cons byte rest =>
        rw [htext] at hslash hjson
        cases hslash
        exact parseLexical_not_slash hjson
  | cons byte rest =>
    rw [hack] at hslash
    cases hslash
    exact absurd (p.numbered.1 (ascii '/') (by rw [hack]; exact .head _)) (by decide)

/-- The decoder takes exactly the packets, and those with a plus in front of their attachment count. -/
theorem decodeSocketIo_iff {frame : DecodedFrame} :
    decodeSocketIo .message bytes limits = .ok frame ↔ ∃ (p : Packet limits) (before : List UInt8),
      (before = [] ∨ before = [ascii '+']) ∧ bytes = p.digit :: (p.countText before ++ p.tail) ∧ frame = p.frame := by
  constructor
  · intro h
    unfold decodeSocketIo at h
    cases bytes with
    | nil => cases h
    | cons digit bytes =>
      simp only [bind_eq_ok, orError_eq_ok, Prod.exists, attachmentCount_iff, namespaceOf_iff, acknowledgmentOf_iff,
        payloadOf_iff] at h
      obtain ⟨kind, hkind, _, _, ⟨before, count, hbefore, hcounted, rfl, rfl⟩, path, _, ⟨-, hpath, rfl⟩, _, text,
        ⟨digits, rfl, hdigits, hfits, hends, rfl⟩, payload, hpayload, h⟩ := h
      split at h
      · next hevent =>
        simp only [bind_eq_ok, Prod.exists, eventEnvelope_iff] at h
        obtain ⟨name, _, _, ⟨arguments, rfl, rfl, rfl⟩, h⟩ := h
        cases h
        refine ⟨⟨digit, kind, count, path, digits, text, _, hkind, hcounted, hpath, ⟨hdigits, hfits⟩, hends, hpayload,
          fun _ => ⟨name, arguments, rfl⟩⟩, before, hbefore, rfl, ?_⟩
        simp only [Packet.frame, Packet.contents, hevent]
      · next hplain =>
        cases h
        refine ⟨⟨digit, kind, count, path, digits, text, _, hkind, hcounted, hpath, ⟨hdigits, hfits⟩, hends, hpayload,
          fun hevent => absurd hevent hplain⟩, before, hbefore, rfl, ?_⟩
        simp only [Packet.frame, Packet.contents, Bool.eq_false_iff.2 hplain]
  · rintro ⟨p, before, hbefore, rfl, rfl⟩
    unfold decodeSocketIo
    simp only [bind_eq_ok, orError_eq_ok, Prod.exists, attachmentCount_iff, namespaceOf_iff, acknowledgmentOf_iff,
      payloadOf_iff]
    refine ⟨p.kind, p.digit_names, _, p.tail, ⟨before, p.count, hbefore, p.counted, rfl, rfl⟩, p.namespacePath,
      p.acknowledgment ++ p.text, ⟨fun _ => p.no_slash, p.slashed, rfl⟩, _, p.text,
      ⟨p.acknowledgment, rfl, p.numbered.1, p.numbered.2, p.run_ends, rfl⟩, p.value, p.parsed, ?_⟩
    split
    · next hevent =>
      obtain ⟨name, arguments, hvalue⟩ := p.enveloped hevent
      simp only [bind_eq_ok, Prod.exists, eventEnvelope_iff]
      refine ⟨name, _, _, ⟨arguments, hvalue, rfl, rfl⟩, ?_⟩
      simp only [Packet.frame, Packet.contents, hevent, hvalue]
      rfl
    · next hplain =>
      simp only [Packet.frame, Packet.contents, Bool.eq_false_iff.2 hplain]
      rfl

theorem decodeFrame_message :
    decodeFrame (ascii '4' :: bytes) .text limits = decodeSocketIo .message bytes limits := rfl

/-- A binary packet written with a plus in front of its attachment count. -/
def PlusCounted (limits : LexicalLimits) (bytes : List UInt8) : Prop :=
  ∃ (p : Packet limits), p.kind.carriesBinaryAttachments = true ∧
    bytes = p.digit :: (ascii '+' :: (p.count ++ [ascii '-']) ++ p.tail)

/-- No packet is written like that. -/
theorem Packet.bytes_ne_plus (h : PlusCounted limits bytes) (p : Packet limits) : p.bytes ≠ bytes := by
  obtain ⟨q, hbinary, rfl⟩ := h
  intro hbytes
  obtain ⟨hdigit, htail⟩ := List.cons.inj hbytes
  have hkind : p.kind = q.kind := Option.some.inj (p.digit_names.symm.trans (hdigit ▸ q.digit_names))
  have hcounted := p.counted
  unfold countText at htail
  rw [hkind, if_pos hbinary] at hcounted htail
  cases hcount : p.count with
  | nil => exact hcounted.1.1 hcount
  | cons byte count =>
    rw [hcount] at htail hcounted
    obtain ⟨rfl, -⟩ := List.cons.inj htail
    exact absurd (hcounted.1.2 _ (.head _)) (by decide)

/-- A text frame of an engine message decodes exactly as the grammar has it, unless it is a binary packet with a plus in
front of its attachment count: that one is accepted too. -/
theorem message_frame_by_grammar_iff (bytes : List UInt8) (limits : LexicalLimits) :
    (∀ frame, decodeFrame (ascii '4' :: bytes) .text limits = .ok frame ↔
      ∃ p : Packet limits, p.bytes = bytes ∧ p.frame = frame) ↔ ¬ PlusCounted limits bytes := by
  simp only [decodeFrame_message, decodeSocketIo_iff]
  constructor
  · rintro hgrammar ⟨p, hbinary, hbytes⟩
    have htext : bytes = p.digit :: (p.countText [ascii '+'] ++ p.tail) := by
      unfold Packet.countText
      rw [if_pos hbinary]
      exact hbytes
    obtain ⟨q, hq, -⟩ := (hgrammar p.frame).1 ⟨p, [ascii '+'], .inr rfl, htext, rfl⟩
    exact q.bytes_ne_plus ⟨p, hbinary, hbytes⟩ hq
  · intro hplain frame
    constructor
    · rintro ⟨p, before, rfl | rfl, hbytes, rfl⟩
      · exact ⟨p, hbytes.symm, rfl⟩
      · -- Only a binary packet has a count for a plus to stand in front of.
        by_cases hbinary : p.kind.carriesBinaryAttachments = true
        · unfold Packet.countText at hbytes
          rw [if_pos hbinary] at hbytes
          exact absurd ⟨p, hbinary, hbytes⟩ hplain
        · refine ⟨p, ?_, rfl⟩
          unfold Packet.countText at hbytes
          unfold Packet.bytes Packet.countText
          rw [if_neg hbinary] at hbytes ⊢
          exact hbytes.symm
    · rintro ⟨p, rfl, rfl⟩
      exact ⟨p, [], .inl rfl, rfl, rfl⟩

/-- A binary acknowledgment of one attachment, with no id and no payload. -/
def exampleAck : Packet .venuePayload where
  digit := ascii '6'
  kind := .binaryAck
  count := [ascii '1']
  namespacePath := none
  acknowledgment := []
  text := []
  value := none
  digit_names := rfl
  counted := ⟨⟨List.cons_ne_nil _ _, List.forall_mem_singleton.2 rfl⟩, by decide⟩
  slashed := nofun
  numbered := ⟨List.forall_mem_nil _, by decide⟩
  run_ends := nofun
  parsed := .inl ⟨rfl, rfl⟩
  enveloped := nofun

/-- Its count may be written `+1`. -/
theorem plus_counted_frame_accepted :
    decodeFrame (word "46+1-") .text .venuePayload = .ok exampleAck.frame ∧
      ¬ ∃ p : Packet .venuePayload, p.bytes = word "6+1-" := by
  have hplus : PlusCounted .venuePayload (word "6+1-") := ⟨exampleAck, rfl, by decide⟩
  have hmessage : word "46+1-" = ascii '4' :: word "6+1-" := by decide
  have hbytes : word "6+1-" = exampleAck.digit :: (exampleAck.countText [ascii '+'] ++ exampleAck.tail) := by decide
  refine ⟨?_, fun ⟨p, hp⟩ => p.bytes_ne_plus hplus hp⟩
  rw [hmessage, decodeFrame_message]
  exact decodeSocketIo_iff.2 ⟨exampleAck, [ascii '+'], .inr rfl, hbytes, rfl⟩

end PmWs.Wire
