import OwnershipLog.Bytes

/-!
# Hexadecimal text

Bytes written in base sixteen, two lower-case digits for each.
-/

namespace OwnershipLog

/-- The digit for a number below sixteen. -/
def hexDigit (n : Nat) : Char := Char.ofNat (if n < 10 then '0'.toNat + n else 'a'.toNat + (n - 10))

/-- The digits of bytes. -/
def hexDigits : Bytes → List Char
  | [] => []
  | b :: bytes => hexDigit (b.toNat / 16) :: hexDigit (b.toNat % 16) :: hexDigits bytes

/-- Bytes as hexadecimal text. -/
def hex (bytes : Bytes) : String := String.ofList (hexDigits bytes)

theorem length_hexDigits (bytes : Bytes) : (hexDigits bytes).length = 2 * bytes.length := by
  induction bytes with
  | nil => rfl
  | cons b bytes ih => simp [hexDigits, ih]; omega

theorem length_hex (bytes : Bytes) : (hex bytes).length = 2 * bytes.length := by
  simp [hex, length_hexDigits]

end OwnershipLog
