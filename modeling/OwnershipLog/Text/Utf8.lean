import OwnershipLog.Bytes

/-!
# Text as bytes

Text is written in UTF-8. `text? bs` is the text that `bs` spells, if it spells
one. `textLossy bs` always answers: every longest run of bytes that begins a
character but cannot finish it, and every byte that begins none, reads as one
replacement character.
-/

namespace OwnershipLog

/-- The UTF-8 bytes of a text. -/
def utf8 (s : String) : Bytes := s.toUTF8.data.toList

/-- The text whose UTF-8 bytes are `bs`; none if `bs` is no UTF-8. -/
def text? (bs : Bytes) : Option String := String.fromUTF8? ⟨bs.toArray⟩

@[simp] theorem text?_utf8 (s : String) : text? (utf8 s) = some s := by
  have hbytes : (⟨(utf8 s).toArray⟩ : ByteArray) = s.toUTF8 := by simp [utf8]
  unfold text? String.fromUTF8?
  rw [hbytes]
  rw [dif_pos (show s.toUTF8.IsValidUTF8 from s.isValidUTF8)]
  rfl

theorem utf8_of_text? {bs : Bytes} {s : String} (h : text? bs = some s) : utf8 s = bs := by
  unfold text? String.fromUTF8? at h
  split at h
  · cases h
    simp [utf8, String.toUTF8, String.fromUTF8]
  · cases h

/-- A text is determined by its bytes. -/
theorem text?_eq_some_iff {bs : Bytes} {s : String} : text? bs = some s ↔ bs = utf8 s :=
  ⟨fun h => (utf8_of_text? h).symm, fun h => h ▸ text?_utf8 s⟩

theorem utf8_inj {s t : String} : utf8 s = utf8 t ↔ s = t := by
  constructor
  · intro h
    have := congrArg text? h
    simpa using this
  · rintro rfl
    rfl

namespace Utf8

/-- A character begun and not yet finished: how many bytes it still owes, the
bounds of the next one, and the bits read so far. -/
structure Pending where
  owed : Nat
  low : UInt8
  high : UInt8
  bits : Nat

/-- What a byte does at the start of a character. -/
inductive Lead where
  /-- A whole character. -/
  | whole (c : Char)
  /-- The beginning of a longer one. -/
  | begins (p : Pending)
  /-- No character begins with this byte. -/
  | stray

/-- How a character may begin. The bounds on the second byte exclude overlong
forms, surrogates and numbers above the last code point. -/
def lead (b : UInt8) : Lead :=
  let bits (mask : UInt8) : Nat := (b &&& mask).toNat
  if b < 0x80 then .whole (Char.ofNat b.toNat)
  else if b < 0xC2 then .stray
  else if b < 0xE0 then .begins ⟨1, 0x80, 0xBF, bits 0x1F⟩
  else if b = 0xE0 then .begins ⟨2, 0xA0, 0xBF, bits 0x0F⟩
  else if b = 0xED then .begins ⟨2, 0x80, 0x9F, bits 0x0F⟩
  else if b < 0xF0 then .begins ⟨2, 0x80, 0xBF, bits 0x0F⟩
  else if b = 0xF0 then .begins ⟨3, 0x90, 0xBF, bits 0x07⟩
  else if b < 0xF4 then .begins ⟨3, 0x80, 0xBF, bits 0x07⟩
  else if b = 0xF4 then .begins ⟨3, 0x80, 0x8F, bits 0x07⟩
  else .stray

/-- The replacement character. -/
def replacement : Char := '\uFFFD'

/-- The text read so far, and the character under way. -/
structure Reading where
  text : String
  pending : Option Pending

/-- Read `b` where no character is under way. -/
def Reading.fresh (text : String) (b : UInt8) : Reading :=
  match lead b with
  | .whole c => ⟨text.push c, none⟩
  | .begins p => ⟨text, some p⟩
  | .stray => ⟨text.push replacement, none⟩

/-- Read one more byte. A byte that the character under way cannot take ends it
as one replacement character and is read afresh. -/
def Reading.step (r : Reading) (b : UInt8) : Reading :=
  match r.pending with
  | none => .fresh r.text b
  | some p =>
    if p.low ≤ b ∧ b ≤ p.high then
      let bits := p.bits * 64 + (b &&& 0x3F).toNat
      if p.owed ≤ 1 then ⟨r.text.push (Char.ofNat bits), none⟩
      else ⟨r.text, some ⟨p.owed - 1, 0x80, 0xBF, bits⟩⟩
    else .fresh (r.text.push replacement) b

/-- The text at the end of the bytes; a character under way is cut short. -/
def Reading.finish (r : Reading) : String :=
  match r.pending with
  | none => r.text
  | some _ => r.text.push replacement

end Utf8

/-- The text that `bs` spells, with a replacement character for each invalid part. -/
def textLossy (bs : Bytes) : String := (bs.foldl Utf8.Reading.step ⟨"", none⟩).finish

end OwnershipLog
