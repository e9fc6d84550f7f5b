import Mathlib

/-!
# Bytes packed into words

Bytes are or-ed into 64-bit words eight to a word, least significant first, and
shifted out again. The words may pass through 64-bit cells in between.
-/

namespace Packing

/-- The words after or-ing in each byte at its position. -/
def packFrom (words : List Nat) (bytes : List (UInt8 × Nat)) : List Nat :=
  bytes.foldl (fun words entry => words.modify (entry.2 / 8) (· ||| entry.1.toNat <<< (entry.2 % 8 * 8))) words

def pack (count : Nat) (bytes : List UInt8) : List Nat := packFrom (List.replicate count 0) bytes.zipIdx

def byteAt (words : List Nat) (position : Nat) : UInt8 :=
  UInt8.ofNat (words.getD (position / 8) 0 >>> (position % 8 * 8))

def unpack (length : Nat) (words : List Nat) : List UInt8 := (List.range length).map (byteAt words)

/-! ## Bit by bit -/

/-- One byte shifted to its place has its bits there and none elsewhere. -/
theorem testBit_shifted (byte : UInt8) {place slot bit : Nat} (hbit : bit < 8) :
    (byte.toNat <<< (place * 8)).testBit (slot * 8 + bit) = (decide (place = slot) && byte.toNat.testBit bit) := by
  have hbyte : byte.toNat < 2 ^ 8 := byte.toNat_lt
  rw [Nat.testBit_shiftLeft]
  rcases Nat.lt_trichotomy place slot with h | h | h
  -- A lower byte has no bit this high.
  · rw [Nat.testBit_lt_two_pow (i := slot * 8 + bit - place * 8)
      (Nat.lt_of_lt_of_le hbyte (Nat.pow_le_pow_right (by decide) (by omega)))]
    simp [Nat.ne_of_lt h]
  · subst h
    simp
  · simp [Nat.ne_of_gt h, show ¬ place * 8 ≤ slot * 8 + bit by omega]

theorem getD_modify (words : List Nat) (index j : Nat) (f : Nat → Nat) (hf : j < words.length) :
    (words.modify index f).getD j 0 = if index = j then f (words.getD j 0) else words.getD j 0 := by
  simp only [List.getD_eq_getElem?_getD, List.getElem?_modify, List.getElem?_eq_getElem hf]
  split <;> simp_all

/-- The bit of the byte at one position, counting from `start`. -/
def bitFrom (bytes : List UInt8) (start position bit : Nat) : Bool :=
  decide (start ≤ position) && ((bytes[position - start]?).any fun byte => byte.toNat.testBit bit)

theorem bitFrom_cons (byte : UInt8) (bytes : List UInt8) (start position bit : Nat) :
    bitFrom (byte :: bytes) start position bit =
      (decide (start = position) && byte.toNat.testBit bit || bitFrom bytes (start + 1) position bit) := by
  unfold bitFrom
  rcases Nat.lt_trichotomy start position with h | h | h
  · have hsub : position - start = position - (start + 1) + 1 := by omega
    rw [hsub, List.getElem?_cons_succ]
    simp [Nat.ne_of_lt h, Nat.le_of_lt h, show start + 1 ≤ position from h]
  · subst h
    simp [show ¬ start + 1 ≤ start by omega]
  · simp [Nat.ne_of_gt h, show ¬ start ≤ position by omega, show ¬ start + 1 ≤ position by omega]

/-- Packing keeps the bits that are there and adds those of each byte. -/
theorem testBit_packFrom (bytes : List UInt8) (words : List Nat) (start : Nat) {position bit : Nat}
    (hposition : position / 8 < words.length) (hbit : bit < 8) :
    ((packFrom words (bytes.zipIdx start)).getD (position / 8) 0).testBit (position % 8 * 8 + bit) =
      ((words.getD (position / 8) 0).testBit (position % 8 * 8 + bit) || bitFrom bytes start position bit) := by
  induction bytes generalizing words start with
  | nil => simp [packFrom, bitFrom]
  | cons byte bytes ih =>
    rw [List.zipIdx_cons, packFrom, List.foldl_cons, ← packFrom, ih _ _ (by simpa using hposition), bitFrom_cons,
      ← Bool.or_assoc, getD_modify _ _ _ _ hposition]
    congr 1
    split
    -- The byte goes into this word: it is this byte when the places agree too.
    · rename_i hword
      rw [Nat.testBit_or, testBit_shifted byte hbit]
      congr 2
      exact decide_eq_decide.2 ⟨fun h => by omega, fun h => by omega⟩
    · rename_i hword
      simp [show start ≠ position by rintro rfl; exact hword rfl]

/-! ## The round trip -/

/-- Words that passed through 64-bit cells unpack to the bytes that were packed. -/
theorem unpack_pack {count : Nat} {bytes : List UInt8} {words : List Nat} (hfit : bytes.length ≤ count * 8)
    (hwords : ∀ j < count, words.getD j 0 = (pack count bytes).getD j 0 % 256 ^ 8) :
    unpack bytes.length words = bytes := by
  apply List.ext_getElem (by simp [unpack])
  intro position _ hposition
  have hword : position / 8 < count := by omega
  simp only [unpack, List.getElem_map, List.getElem_range, byteAt, hwords _ hword]
  apply UInt8.toNat_inj.1
  rw [UInt8.toNat_ofNat']
  apply Nat.eq_of_testBit_eq
  intro bit
  rw [Nat.testBit_mod_two_pow, Nat.testBit_shiftRight, show (256 : Nat) ^ 8 = 2 ^ 64 from rfl, Nat.testBit_mod_two_pow]
  by_cases hbit : bit < 8
  · have hlow : position % 8 * 8 + bit < 64 := by omega
    have hbits := testBit_packFrom bytes (List.replicate count 0) 0 (by simpa using hword) hbit
    have hblank : (List.replicate count 0).getD (position / 8) 0 = 0 := by
      simp [List.getD_eq_getElem?_getD, hword]
    rw [hblank, Nat.zero_testBit, Bool.false_or] at hbits
    rw [pack, hbits]
    simp [hbit, hlow, bitFrom, hposition]
  · have hbyte : bytes[position].toNat < 2 ^ bit :=
      Nat.lt_of_lt_of_le (bytes[position]).toNat_lt (Nat.pow_le_pow_right (by decide) (by omega : 8 ≤ bit))
    simp [hbit, Nat.testBit_lt_two_pow hbyte]

end Packing
