import ScriptMailbox.Proofs.Text.Calm
import ScriptMailbox.Text.Utf8

/-!
# Texts and their bytes

The bytes of a text determine it, and the bytes of a character below U+0080 occur in no other
character. So a calm text has calm bytes.
-/

namespace ScriptMailbox.Text.Utf8

/-- The bytes of a text are those of its characters, one after the other. -/
@[simp] theorem encode_ofList (text : List Char) :
    encode (String.ofList text) = text.flatMap String.utf8EncodeChar := by
  simp [encode, List.utf8Encode]

/-- The same for a text that is not given by its characters. -/
theorem encode_eq_flatMap (text : String) :
    encode text = text.toList.flatMap String.utf8EncodeChar := by
  rw [← encode_ofList, String.ofList_toList]

/-- The bytes of a text are those that the core library gives it. -/
theorem toByteArray_encode (text : String) : (encode text).toByteArray = text.toByteArray :=
  ByteArray.ext List.data_toByteArray

/-- Bytes stand for a text exactly when they are its bytes. -/
theorem decode?_eq_some_iff {bytes : Bytes} {text : String} :
    decode? bytes = some text ↔ bytes = encode text := by
  rw [← List.toByteArray_inj, toByteArray_encode, decode?, String.fromUTF8?]
  constructor
  · intro h
    split at h
    · rw [← Option.some.inj h]
      rfl
    · cases h
  · intro h
    rw [dif_pos (h ▸ text.isValidUTF8), Option.some.injEq, ← String.toByteArray_inj]
    exact h

/-- Texts with the same bytes are equal. -/
theorem encode_injective {text other : String} (h : encode text = encode other) : text = other := by
  rw [← Option.some_inj, ← decode?_eq_some_iff.mpr h, decode?_eq_some_iff.mpr rfl]

/-- Only the empty text has no bytes. -/
theorem encode_eq_nil_iff {text : String} : encode text = [] ↔ text = "" := by
  simp [encode_eq_flatMap, List.flatMap_eq_nil_iff, ← List.eq_nil_iff_forall_not_mem]

/-- The byte of a closing bracket occurs in no other character. -/
theorem bracket_not_mem {c : Char} (h : c ≠ ']') : (0x5D : UInt8) ∉ String.utf8EncodeChar c := by
  have hne : c.val.toNat ≠ 0x5D := fun hval => h (Char.ext (UInt32.toNat_inj.mp hval))
  have hval : c.toNat = c.val.toNat := rfl
  unfold String.utf8EncodeChar
  dsimp only
  split_ifs <;> simp [← UInt8.toNat_inj] <;> omega

/-- The bytes of a text that is calm about closing brackets are calm about theirs. -/
theorem calm_encode {text : List Char} (h : Calm ']' text) :
    Calm (0x5D : UInt8) (encode (String.ofList text)) := by
  rw [encode_ofList]
  exact h.flatMap (by decide) (fun _ => bracket_not_mem) fun _ => String.utf8EncodeChar_ne_nil

end ScriptMailbox.Text.Utf8
