import BlockLang.Text.Bytes

/-!
# Texts as bytes

A text is read back from its bytes, and only from these.
-/

namespace BlockLang.Text

theorem bytes_append (t u : Text) : bytes (t ++ u) = bytes t ++ bytes u := by
  simp [bytes, String.ofList_append]

theorem fromUTF8?_bytes (t : Text) : String.fromUTF8? (bytes t) = some (String.ofList t) := by
  unfold String.fromUTF8? bytes
  simp only [String.toUTF8_eq_toByteArray, (String.ofList t).isValidUTF8, dif_pos]
  rfl

theorem bytes_of_fromUTF8? {b : ByteArray} {x : String} (h : String.fromUTF8? b = some x) :
    bytes x.toList = b := by
  unfold String.fromUTF8? at h
  split at h
  · cases h
    simp [bytes, String.fromUTF8]
  · cases h

theorem bytes_injective {t u : Text} (h : bytes t = bytes u) : t = u := by
  have hread : some (String.ofList t) = some (String.ofList u) := by
    rw [← fromUTF8?_bytes, ← fromUTF8?_bytes, h]
  simpa using congrArg (Option.map String.toList) hread

theorem byteLength_reverse (t : Text) : byteLength t.reverse = byteLength t := by
  induction t with
  | nil => rfl
  | cons c t ih =>
      rw [List.reverse_cons, byteLength_append, ih]
      simp [byteLength]
      omega

end BlockLang.Text
