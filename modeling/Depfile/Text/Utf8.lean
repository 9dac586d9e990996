import Depfile.Text.Blank

/-!
# UTF-8

Files hold bytes. A file is text if its bytes are well-formed UTF-8; there is also a reading
for display that never fails and shows each malformed sequence as the replacement character.
-/

namespace Depfile.Utf8

/-- The bytes of a text. -/
def encode (text : Text) : ByteArray :=
  (String.ofList text).toUTF8

/-- The number of bytes of a text. -/
def size (text : Text) : Nat :=
  text.foldl (fun size c => size + c.utf8Size) 0

/-- The text that the bytes encode, if they are well-formed. -/
def decode? (bytes : ByteArray) : Option Text :=
  (String.fromUTF8? bytes).map String.toList

/-! ## Reading for display -/

/-- An inclusive range of byte values. -/
structure ByteRange where
  first : Nat
  last : Nat

/-- The bytes that continue a character without a restriction of their own. -/
def continuation : ByteRange := ⟨0x80, 0xBF⟩

/-- What a first byte promises: its payload and the ranges of the bytes that have to follow. The
range of the second byte excludes overlong forms, surrogates and values beyond the last
character. -/
def lead? (b : Nat) : Option (Nat × List ByteRange) :=
  if b < 0x80 then
    some (b, [])
  else if b < 0xC2 then
    none
  else if b < 0xE0 then
    some (b - 0xC0, [continuation])
  else if b < 0xF0 then
    let second : ByteRange :=
      if b = 0xE0 then ⟨0xA0, 0xBF⟩ else if b = 0xED then ⟨0x80, 0x9F⟩ else continuation
    some (b - 0xE0, [second, continuation])
  else if b < 0xF5 then
    let second : ByteRange :=
      if b = 0xF0 then ⟨0x90, 0xBF⟩ else if b = 0xF4 then ⟨0x80, 0x8F⟩ else continuation
    some (b - 0xF0, [second, continuation, continuation])
  else
    none

/-- Take the bytes that have to follow as far as they do. The value is complete if none of
them is missing. -/
def complete : List ByteRange → Nat → List UInt8 → Option Nat × List UInt8
  | [], value, bytes => (some value, bytes)
  | _ :: _, _, [] => (none, [])
  | range :: ranges, value, b :: bytes =>
    if range.first ≤ b.toNat ∧ b.toNat ≤ range.last then
      complete ranges (value * 64 + (b.toNat - 0x80)) bytes
    else
      (none, b :: bytes)

theorem length_complete_le (ranges : List ByteRange) (value : Nat) (bytes : List UInt8) :
    (complete ranges value bytes).2.length ≤ bytes.length := by
  induction ranges generalizing value bytes with
  | nil => exact Nat.le_refl _
  | cons range ranges ih =>
    cases bytes with
    | nil => exact Nat.le_refl _
    | cons b bytes =>
      rw [complete]
      split
      · exact Nat.le_succ_of_le (ih _ bytes)
      · exact Nat.le_refl _

/-- The character shown for bytes that encode nothing. -/
def replacement : Char := '\uFFFD'

/-- The text that the bytes encode, where each longest start of a character that is not
completed, and each byte that starts none, is shown as the replacement character. -/
def decodeLossy : List UInt8 → Text
  | [] => []
  | b :: bytes =>
    match lead? b.toNat with
    | none => replacement :: decodeLossy bytes
    | some (payload, ranges) =>
      let shown :=
        match (complete ranges payload bytes).1 with
        | some value => Char.ofNat value
        | none => replacement
      shown :: decodeLossy (complete ranges payload bytes).2
termination_by bytes => bytes.length
decreasing_by
  all_goals simp only [List.length_cons]
  · exact Nat.lt_succ_self _
  · exact Nat.lt_succ_of_le (length_complete_le ranges payload bytes)

end Depfile.Utf8
