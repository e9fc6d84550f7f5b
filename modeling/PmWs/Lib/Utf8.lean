import Mathlib.Tactic.Common

/-!
# UTF-8 texts as byte lists
-/

namespace Utf8

/-- The text some bytes spell, if they spell one. -/
def fromUtf8 (bytes : List UInt8) : Option String := String.fromUTF8? ⟨bytes.toArray⟩

def encode (chars : List Char) : List UInt8 := chars.flatMap String.utf8EncodeChar

theorem toByteArray_encode (chars : List Char) : (⟨(encode chars).toArray⟩ : ByteArray) = chars.utf8Encode := by
  apply ByteArray.ext
  rw [← Array.toList_inj]
  simp [encode, List.utf8Encode]

theorem fromUtf8_eq_some {bytes : List UInt8} {text : String} :
    fromUtf8 bytes = some text ↔ ∃ chars, bytes = encode chars ∧ text = String.ofList chars := by
  unfold fromUtf8 String.fromUTF8?
  constructor
  · intro h
    split at h
    · next hvalid =>
      obtain ⟨chars, hchars⟩ := hvalid
      cases h
      refine ⟨chars, ?_, String.toByteArray_inj.1 hchars⟩
      rw [← toByteArray_encode] at hchars
      exact List.toArray_inj (congrArg ByteArray.data hchars)
    · cases h
  · rintro ⟨chars, rfl, rfl⟩
    rw [dif_pos (toByteArray_encode chars ▸ ByteArray.isValidUTF8_utf8Encode)]
    exact congrArg some (String.toByteArray_inj.1 (toByteArray_encode chars))

theorem encode_eq_nil {chars : List Char} (h : encode chars = []) : chars = [] := by
  cases chars with
  | nil => rfl
  | cons char chars => exact absurd (List.append_eq_nil_iff.1 h).1 String.utf8EncodeChar_ne_nil

theorem encode_inj {chars chars' : List Char} (h : encode chars = encode chars') :
    String.ofList chars = String.ofList chars' := by
  have hsome := fromUtf8_eq_some.2 ⟨chars, rfl, rfl⟩
  have hsome' := fromUtf8_eq_some.2 ⟨chars', rfl, rfl⟩
  rw [h, hsome'] at hsome
  exact (Option.some.inj hsome).symm

theorem utf8ByteSize_ofList (chars : List Char) : (String.ofList chars).utf8ByteSize = (encode chars).length := by
  rw [← String.size_toByteArray, String.toByteArray_ofList, ← toByteArray_encode]
  rfl

/-- An ASCII byte is the whole encoding of its character. -/
theorem encodeChar_ascii {byte : UInt8} (h : byte.toNat < 0x80) : String.utf8EncodeChar (Char.ofNat byte.toNat) = [byte] := by
  have hvalid : byte.toNat.isValidChar := .inl (by omega)
  have hval : (Char.ofNat byte.toNat).val.toNat = byte.toNat := by
    rw [Char.ofNat, dif_pos hvalid]
    rfl
  unfold String.utf8EncodeChar
  dsimp only
  rw [if_pos (by omega), hval, UInt8.ofNat_toNat]

theorem encode_ascii {bytes : List UInt8} (h : ∀ byte ∈ bytes, byte.toNat < 0x80) :
    encode (bytes.map fun byte => Char.ofNat byte.toNat) = bytes := by
  induction bytes with
  | nil => rfl
  | cons byte bytes ih =>
    have hrest := ih fun later hlater => h later (.tail _ hlater)
    show String.utf8EncodeChar _ ++ encode _ = _
    rw [encodeChar_ascii (h byte (.head _)), hrest]
    rfl

end Utf8
