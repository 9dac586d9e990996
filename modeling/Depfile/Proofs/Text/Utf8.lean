import Depfile.Text.Utf8

/-!
# Text and its bytes

Writing a text as bytes and reading the bytes gives the text back, and no other bytes give it. So
a file is text exactly if its bytes are those of some text.
-/

namespace Depfile.Utf8

variable {bytes : ByteArray} {text : Text}

theorem decode?_encode (text : Text) : decode? (encode text) = some text := by
  have hvalid : (encode text).IsValidUTF8 := (String.ofList text).isValidUTF8
  have hsame : String.fromUTF8 (encode text) hvalid = String.ofList text := rfl
  have hread : String.fromUTF8? (encode text) = some (String.ofList text) := by
    simp only [String.fromUTF8?, hvalid, dif_pos, hsame]
  simp [decode?, hread]

theorem decode?_eq_some_iff : decode? bytes = some text ↔ bytes = encode text := by
  constructor
  · intro h
    by_cases hvalid : bytes.IsValidUTF8
    · have htext : (String.fromUTF8 bytes hvalid).toList = text := by
        simpa [decode?, String.fromUTF8?, hvalid] using h
      simp [encode, ← htext, String.fromUTF8]
    · simp [decode?, String.fromUTF8?, hvalid] at h
  · intro h
    subst h
    exact decode?_encode text

end Depfile.Utf8
