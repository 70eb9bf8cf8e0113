import Mathlib.Tactic.NormNum
import OwnershipLog.Text.Utf8

/-!
# Text survives a lossy reading

The bytes of a text are those of its characters one after another. Read by the lossy
machine, the bytes of a character take it from the start of a character back to the
start of the next one, with just that character read (`foldl_utf8EncodeChar`), so a
text reads back as itself (`textLossy_utf8`).
-/

namespace OwnershipLog

namespace Utf8

/-! ## The first byte of a character -/

theorem toNat_and_of_mask {b mask : UInt8} {k : Nat} (hmask : mask.toNat = 2 ^ k - 1) :
    (b &&& mask).toNat = b.toNat % 2 ^ k := by
  rw [UInt8.toNat_and, hmask, Nat.and_two_pow_sub_one_eq_mod]

theorem not_lt_of_toNat_le {b c : UInt8} (h : c.toNat ≤ b.toNat) : ¬ b < c := by
  rw [UInt8.lt_iff_toNat_lt]
  exact Nat.not_lt.2 h

theorem lead_of_lt {b : UInt8} (h : b.toNat < 0x80) : lead b = .whole (Char.ofNat b.toNat) := by
  have hlt : b < 0x80 := UInt8.lt_iff_toNat_lt.2 h
  rw [lead]
  simp only [hlt, if_true]

theorem lead_of_two {b : UInt8} (hlow : 0xC2 ≤ b.toNat) (hhigh : b.toNat < 0xE0) :
    lead b = .begins ⟨1, 0x80, 0xBF, b.toNat % 32⟩ := by
  have h₁ : ¬ b < 0x80 := not_lt_of_toNat_le (Nat.le_trans (by decide) hlow)
  have h₂ : ¬ b < 0xC2 := not_lt_of_toNat_le hlow
  have h₃ : b < 0xE0 := UInt8.lt_iff_toNat_lt.2 hhigh
  have hbits : (b &&& 0x1F).toNat = b.toNat % 32 := toNat_and_of_mask (k := 5) rfl
  rw [lead]
  simp only [h₁, h₂, h₃, if_true, if_false, hbits]

/-- What the second of three bytes may be depends on the first: no overlong form, no surrogate. -/
theorem lead_of_three {b : UInt8} (hlow : 0xE0 ≤ b.toNat) (hhigh : b.toNat < 0xF0) :
    lead b = .begins ⟨2, if b = 0xE0 then 0xA0 else 0x80, if b = 0xED then 0x9F else 0xBF,
      b.toNat % 16⟩ := by
  have h₁ : ¬ b < 0x80 := not_lt_of_toNat_le (Nat.le_trans (by decide) hlow)
  have h₂ : ¬ b < 0xC2 := not_lt_of_toNat_le (Nat.le_trans (by decide) hlow)
  have h₃ : ¬ b < 0xE0 := not_lt_of_toNat_le hlow
  have h₄ : b < 0xF0 := UInt8.lt_iff_toNat_lt.2 hhigh
  have hbits : (b &&& 0x0F).toNat = b.toNat % 16 := toNat_and_of_mask (k := 4) rfl
  rw [lead]
  simp only [h₁, h₂, h₃, h₄, if_true, if_false, hbits]
  by_cases hfirst : b = 0xE0
  · subst hfirst
    rfl
  · by_cases hlast : b = 0xED
    · subst hlast
      rfl
    · simp only [hfirst, hlast, if_false]

/-- The same for four bytes: no overlong form, nothing above the last code point. -/
theorem lead_of_four {b : UInt8} (hlow : 0xF0 ≤ b.toNat) (hhigh : b.toNat ≤ 0xF4) :
    lead b = .begins ⟨3, if b = 0xF0 then 0x90 else 0x80, if b = 0xF4 then 0x8F else 0xBF,
      b.toNat % 8⟩ := by
  have h₁ : ¬ b < 0x80 := not_lt_of_toNat_le (Nat.le_trans (by decide) hlow)
  have h₂ : ¬ b < 0xC2 := not_lt_of_toNat_le (Nat.le_trans (by decide) hlow)
  have h₃ : ¬ b < 0xE0 := not_lt_of_toNat_le (Nat.le_trans (by decide) hlow)
  have h₄ : ¬ b < 0xF0 := not_lt_of_toNat_le hlow
  have h₅ : b ≠ 0xE0 := by rintro rfl; exact absurd hlow (by decide)
  have h₆ : b ≠ 0xED := by rintro rfl; exact absurd hlow (by decide)
  have hbits : (b &&& 0x07).toNat = b.toNat % 8 := toNat_and_of_mask (k := 3) rfl
  rw [lead]
  simp only [h₁, h₂, h₃, h₄, h₅, h₆, if_false, hbits]
  by_cases hfirst : b = 0xF0
  · subst hfirst
    rfl
  · by_cases hlast : b = 0xF4
    · subst hlast
      rfl
    · have h₇ : b < 0xF4 := by
        have hne : b.toNat ≠ 0xF4 := fun heq => hlast (UInt8.toNat_inj.1 heq)
        rw [UInt8.lt_iff_toNat_lt]
        exact Nat.lt_of_le_of_ne hhigh hne
      simp only [hfirst, hlast, h₇, if_true, if_false]

/-! ## The bytes that follow -/

theorem fresh_of_begins (t : String) {b : UInt8} {p : Pending} (h : lead b = .begins p) :
    Reading.step ⟨t, none⟩ b = ⟨t, some p⟩ := by
  show Reading.fresh t b = _
  rw [Reading.fresh, h]

theorem toNat_and_low (b : UInt8) : (b &&& 0x3F).toNat = b.toNat % 64 :=
  toNat_and_of_mask (k := 6) rfl

/-- A byte in bounds that is not the last one of its character. -/
theorem step_of_more (t : String) {p : Pending} {b : UInt8} (hlow : p.low.toNat ≤ b.toNat)
    (hhigh : b.toNat ≤ p.high.toNat) (howed : 1 < p.owed) :
    Reading.step ⟨t, some p⟩ b =
      ⟨t, some ⟨p.owed - 1, 0x80, 0xBF, p.bits * 64 + b.toNat % 64⟩⟩ := by
  have hin : p.low ≤ b ∧ b ≤ p.high := ⟨UInt8.le_iff_toNat_le.2 hlow, UInt8.le_iff_toNat_le.2 hhigh⟩
  show (if p.low ≤ b ∧ b ≤ p.high then _ else _ : Reading) = _
  rw [if_pos hin]
  simp only [if_neg (Nat.not_le.2 howed), toNat_and_low]

/-- The last byte of a character. -/
theorem step_of_last (t : String) {p : Pending} {b : UInt8} (hlow : p.low.toNat ≤ b.toNat)
    (hhigh : b.toNat ≤ p.high.toNat) (howed : p.owed ≤ 1) :
    Reading.step ⟨t, some p⟩ b = ⟨t.push (Char.ofNat (p.bits * 64 + b.toNat % 64)), none⟩ := by
  have hin : p.low ≤ b ∧ b ≤ p.high := ⟨UInt8.le_iff_toNat_le.2 hlow, UInt8.le_iff_toNat_le.2 hhigh⟩
  show (if p.low ≤ b ∧ b ≤ p.high then _ else _ : Reading) = _
  rw [if_pos hin]
  simp only [if_pos howed, toNat_and_low]

/-! ## Characters and texts -/

theorem toNat_byte {n : Nat} (h : n < 256) : (UInt8.ofNat n).toNat = n := UInt8.toNat_ofNat_of_lt' h

theorem toNat_trail (n : Nat) : (UInt8.ofNat (n % 64 + 0x80)).toNat = n % 64 + 0x80 :=
  toNat_byte (by omega)

theorem low_le_trail (n : Nat) : (0x80 : UInt8).toNat ≤ (UInt8.ofNat (n % 64 + 0x80)).toNat := by
  rw [toNat_trail]
  exact Nat.le_add_left 0x80 _

theorem trail_le_high (n : Nat) : (UInt8.ofNat (n % 64 + 0x80)).toNat ≤ (0xBF : UInt8).toNat := by
  have hlt : n % 64 < 64 := Nat.mod_lt n (by decide)
  rw [toNat_trail]
  exact Nat.add_le_add_right (Nat.le_of_lt_succ hlt) 0x80

/-- The lower bound on a second byte, when one first byte has its own. -/
theorem ite_le_trail {b first low : UInt8} {n : Nat}
    (h : b.toNat = first.toNat → low.toNat ≤ n % 64 + 0x80) :
    (if b = first then low else 0x80).toNat ≤ (UInt8.ofNat (n % 64 + 0x80)).toNat := by
  split
  · rename_i heq
    rw [toNat_trail]
    exact h (congrArg UInt8.toNat heq)
  · exact low_le_trail n

theorem trail_le_ite {b first high : UInt8} {n : Nat}
    (h : b.toNat = first.toNat → n % 64 + 0x80 ≤ high.toNat) :
    (UInt8.ofNat (n % 64 + 0x80)).toNat ≤ (if b = first then high else 0xBF).toNat := by
  split
  · rename_i heq
    rw [toNat_trail]
    exact h (congrArg UInt8.toNat heq)
  · exact trail_le_high n

theorem foldl_two (t : String) {v : Nat} (hlow : 0x7F < v) (hhigh : v ≤ 0x7FF) :
    [UInt8.ofNat (v / 64 % 0x20 + 0xC0), UInt8.ofNat (v % 64 + 0x80)].foldl Reading.step
      ⟨t, none⟩ = ⟨t.push (Char.ofNat v), none⟩ := by
  have hfirst : (UInt8.ofNat (v / 64 % 0x20 + 0xC0)).toNat = v / 64 % 0x20 + 0xC0 :=
    toNat_byte (by omega)
  have hbits : (v / 64 % 0x20 + 0xC0) % 32 * 64 + (v % 64 + 0x80) % 64 = v := by omega
  rw [List.foldl_cons, fresh_of_begins t (lead_of_two (by omega) (by omega)), List.foldl_cons,
    step_of_last t (low_le_trail v) (trail_le_high v) (Nat.le_refl 1), List.foldl_nil,
    toNat_trail, hfirst, hbits]

theorem foldl_three (t : String) {v : Nat} (hlow : 0x7FF < v) (hhigh : v ≤ 0xFFFF)
    (hvalid : v < 0xD800 ∨ 0xDFFF < v) :
    [UInt8.ofNat (v / 4096 % 0x10 + 0xE0), UInt8.ofNat (v / 64 % 64 + 0x80),
      UInt8.ofNat (v % 64 + 0x80)].foldl Reading.step ⟨t, none⟩ =
      ⟨t.push (Char.ofNat v), none⟩ := by
  have hfirst : (UInt8.ofNat (v / 4096 % 0x10 + 0xE0)).toNat = v / 4096 % 0x10 + 0xE0 :=
    toNat_byte (by omega)
  have hbits : ((v / 4096 % 0x10 + 0xE0) % 16 * 64 + (v / 64 % 64 + 0x80) % 64) * 64 +
      (v % 64 + 0x80) % 64 = v := by omega
  -- The narrower bounds on the second byte leave out what has a shorter form, and surrogates.
  have hoverlong : v / 4096 % 0x10 + 0xE0 = 0xE0 → 0xA0 ≤ v / 64 % 64 + 0x80 := by omega
  have hsurrogate : v / 4096 % 0x10 + 0xE0 = 0xED → v / 64 % 64 + 0x80 ≤ 0x9F := by omega
  rw [List.foldl_cons, fresh_of_begins t (lead_of_three (by omega) (by omega)), List.foldl_cons,
    step_of_more t (ite_le_trail (by rwa [hfirst])) (trail_le_ite (by rwa [hfirst]))
      (Nat.lt_succ_self 1), List.foldl_cons,
    step_of_last t (low_le_trail v) (trail_le_high v) (Nat.le_refl 1), List.foldl_nil,
    toNat_trail, toNat_trail, hfirst, hbits]

theorem foldl_four (t : String) {v : Nat} (hlow : 0xFFFF < v) (hhigh : v < 0x110000) :
    [UInt8.ofNat (v / 262144 % 0x08 + 0xF0), UInt8.ofNat (v / 4096 % 64 + 0x80),
      UInt8.ofNat (v / 64 % 64 + 0x80), UInt8.ofNat (v % 64 + 0x80)].foldl Reading.step
      ⟨t, none⟩ = ⟨t.push (Char.ofNat v), none⟩ := by
  have hfirst : (UInt8.ofNat (v / 262144 % 0x08 + 0xF0)).toNat = v / 262144 % 0x08 + 0xF0 :=
    toNat_byte (by omega)
  have hbits : (((v / 262144 % 0x08 + 0xF0) % 8 * 64 + (v / 4096 % 64 + 0x80) % 64) * 64 +
      (v / 64 % 64 + 0x80) % 64) * 64 + (v % 64 + 0x80) % 64 = v := by omega
  have hoverlong : v / 262144 % 0x08 + 0xF0 = 0xF0 → 0x90 ≤ v / 4096 % 64 + 0x80 := by omega
  have habove : v / 262144 % 0x08 + 0xF0 = 0xF4 → v / 4096 % 64 + 0x80 ≤ 0x8F := by omega
  rw [List.foldl_cons, fresh_of_begins t (lead_of_four (by omega) (by omega)), List.foldl_cons,
    step_of_more t (ite_le_trail (by rwa [hfirst])) (trail_le_ite (by rwa [hfirst]))
      (Nat.lt_trans (Nat.lt_succ_self 1) (Nat.lt_succ_self 2)),
    List.foldl_cons, step_of_more t (low_le_trail _) (trail_le_high _) (Nat.lt_succ_self 1),
    List.foldl_cons, step_of_last t (low_le_trail v) (trail_le_high v) (Nat.le_refl 1),
    List.foldl_nil, toNat_trail, toNat_trail, toNat_trail, hfirst, hbits]

/-- The bytes of a character are read as just that character. -/
theorem foldl_utf8EncodeChar (t : String) (c : Char) :
    (String.utf8EncodeChar c).foldl Reading.step ⟨t, none⟩ = ⟨t.push c, none⟩ := by
  have hvalid : c.val.toNat < 0xD800 ∨ 0xDFFF < c.val.toNat ∧ c.val.toNat < 0x110000 := c.valid
  have hchar : Char.ofNat c.val.toNat = c := Char.ofNat_toNat c
  rw [String.utf8EncodeChar]
  generalize c.val.toNat = v at hvalid hchar ⊢
  subst hchar
  split
  · rename_i hone
    have hbyte : (UInt8.ofNat v).toNat = v := toNat_byte (by omega)
    show Reading.fresh t (UInt8.ofNat v) = _
    rw [Reading.fresh, lead_of_lt (by omega), hbyte]
  · rename_i hone
    split
    · exact foldl_two t (Nat.not_le.1 hone) ‹_›
    · rename_i htwo
      split
      · exact foldl_three t (Nat.not_le.1 htwo) ‹_› (hvalid.imp_right And.left)
      · exact foldl_four t (by omega) (by omega)

theorem foldl_flatMap (cs : List Char) (t : String) :
    (cs.flatMap String.utf8EncodeChar).foldl Reading.step ⟨t, none⟩ =
      ⟨t ++ String.ofList cs, none⟩ := by
  induction cs generalizing t with
  | nil => simp
  | cons c cs ih =>
      rw [List.flatMap_cons, List.foldl_append, foldl_utf8EncodeChar, ih]
      congr 1
      apply String.toList_inj.1
      simp

end Utf8

theorem utf8_eq_flatMap (s : String) : utf8 s = s.toList.flatMap String.utf8EncodeChar := by
  have h : s.toUTF8 = (s.toList.flatMap String.utf8EncodeChar).toByteArray :=
    String.utf8Encode_toList.symm
  rw [utf8, h]
  simp

/-- A text reads back from its bytes. -/
theorem textLossy_utf8 (s : String) : textLossy (utf8 s) = s := by
  rw [textLossy, utf8_eq_flatMap, Utf8.foldl_flatMap]
  simp [Utf8.Reading.finish]

end OwnershipLog
