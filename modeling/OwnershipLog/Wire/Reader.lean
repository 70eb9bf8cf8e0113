import OwnershipLog.Wire.Error

/-!
# Reading and writing fields

A `Reader` takes fields from the front of a byte string and leaves the rest. A
field that does not fit is refused and nothing is consumed, except that
`prefixed` has already taken the length that it could not honour. `decodeAll`
runs a reader on a whole byte string and refuses what it leaves.

Beside each reader stands the writer whose bytes it reads back, whatever
follows them.
-/

namespace OwnershipLog

/-- A computation that consumes bytes from the front of its input. -/
abbrev Reader := EStateM WireError Bytes

/-- The longest field that a two-byte length can announce. -/
def maxField : Nat := 65535

namespace Reader

/-- The next `n` bytes. -/
def exact (n : Nat) : Reader (Octets n) := fun input =>
  if h : (input.take n).length = n then .ok ⟨input.take n, h⟩ (input.drop n)
  else .error .short input

/-- The next byte. -/
def byte : Reader UInt8
  | [] => .error .short []
  | b :: rest => .ok b rest

/-- The number that the next `width` bytes spell. -/
def number (width : Nat) : Reader Nat := do
  let field ← exact width
  return ofBigEndian field.toBytes

/-- The next 64-bit word. -/
def word : Reader UInt64 := do
  return (← number 8).toUInt64

/-- The next digest. -/
def digest : Reader Digest := exact 32

/-- A two-byte length, then that many bytes. -/
def prefixed : Reader Bytes := do
  let field ← exact (← number 2)
  return field.toBytes

/-- All that is left. -/
def rest : Reader Bytes := fun input => .ok input []

/-- How many bytes are left; none is consumed. -/
def remaining : Reader Nat := fun input => .ok input.length input

/-- Nothing may be left. -/
def finish : Reader Unit := fun input =>
  if input.isEmpty then .ok () input else .error .trailing input

/-- The next `n` digests, put after those in `found`, which are in reverse order. -/
def digestsOnto : (n : Nat) → (found : List Digest) → Reader (List Digest)
  | 0, found => return found.reverse
  | n + 1, found => do digestsOnto n ((← digest) :: found)

/-- The next `n` digests. -/
def digests (n : Nat) : Reader (List Digest) := digestsOnto n []

/-- What `reader` makes of the bytes, whatever it leaves. -/
def decode {α : Type} (reader : Reader α) (input : Bytes) : Except WireError α :=
  match reader input with
  | .ok a _ => .ok a
  | .error e _ => .error e

/-- What `reader` makes of the bytes if it consumes them all. -/
def decodeAll {α : Type} (reader : Reader α) (input : Bytes) : Except WireError α :=
  decode (do let a ← reader; finish; return a) input

/-- A field that must itself be one whole artifact. -/
def nested {α : Type} (artifact : Bytes → Except WireError α) : Reader α := do
  let field ← prefixed
  match artifact field with
  | .ok a => return a
  | .error e => throw e

theorem bind_of_ok {α β : Type} {first : Reader α} {next : α → Reader β} {input left : Bytes}
    {a : α} (h : first input = .ok a left) : (first >>= next) input = next a left := by
  show EStateM.bind first next input = _
  unfold EStateM.bind
  rw [h]

theorem bind_of_error {α β : Type} {first : Reader α} {next : α → Reader β} {input left : Bytes}
    {e : WireError} (h : first input = .error e left) :
    (first >>= next) input = .error e left := by
  show EStateM.bind first next input = _
  unfold EStateM.bind
  rw [h]

@[simp] theorem pure_apply {α : Type} (a : α) (input : Bytes) :
    (pure a : Reader α) input = .ok a input := rfl

theorem exact_append {n : Nat} (field : Octets n) (tail : Bytes) :
    exact n (field.toBytes ++ tail) = .ok field tail := by
  obtain ⟨field, rfl⟩ := field
  unfold exact
  rw [dif_pos (by simp)]
  simp

theorem number_append {width n : Nat} (h : n < 256 ^ width) (tail : Bytes) :
    number width (bigEndian width n ++ tail) = .ok n tail := by
  unfold number
  rw [bind_of_ok (exact_append ⟨bigEndian width n, length_bigEndian width n⟩ tail)]
  simp [ofBigEndian_bigEndian h]

theorem word_append (x : UInt64) (tail : Bytes) : word (word64 x ++ tail) = .ok x tail := by
  unfold word word64
  rw [bind_of_ok (number_append x.toNat_lt tail)]
  simp

end Reader

/-- A field behind its two-byte length; a longer field has no such form. -/
def prefixed (field : Bytes) : Except WireError Bytes :=
  if field.length ≤ maxField then .ok (bigEndian 2 field.length ++ field)
  else .error (.tooLong field.length maxField)

theorem prefixed_of_le {field : Bytes} (h : field.length ≤ maxField) :
    prefixed field = .ok (bigEndian 2 field.length ++ field) := if_pos h

theorem prefixed_of_lt {field : Bytes} (h : maxField < field.length) :
    prefixed field = .error (.tooLong field.length maxField) := if_neg (Nat.not_le.2 h)

theorem Reader.prefixed_append {field : Bytes} (h : field.length ≤ maxField) (tail : Bytes) :
    Reader.prefixed (bigEndian 2 field.length ++ field ++ tail) = .ok field tail := by
  have hn : field.length < 256 ^ 2 := by unfold maxField at h; omega
  unfold Reader.prefixed
  rw [List.append_assoc, bind_of_ok (number_append hn (field ++ tail)),
    bind_of_ok (exact_append ⟨field, rfl⟩ tail)]
  rfl

end OwnershipLog
