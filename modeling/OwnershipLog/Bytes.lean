/-!
# Byte strings

Everything the log hashes, signs, stores or sends is a byte string. `Bytes` is the
list of its bytes, `Octets n` a byte string of exactly `n` bytes, and
`bigEndian` the fixed-width, most significant byte first spelling of a number,
read back by `ofBigEndian`.
-/

namespace OwnershipLog

/-- A power of a number is that of the core library, also beside the powers of a monoid. -/
@[default_instance 10001]
instance (priority := high) corePow {α : Type} [NatPow α] : Pow α Nat := instPowNat

/-- A string of bytes of any length. -/
abbrev Bytes := List UInt8

/-- A string of exactly `n` bytes. -/
structure Octets (n : Nat) where
  toBytes : Bytes
  length_toBytes : toBytes.length = n
deriving DecidableEq

/-- The hash of a byte string, of a leaf or of an inner node. -/
abbrev Digest := Octets 32

/-- The public half of a signing key. -/
abbrev PublicKey := Octets 32

/-- A signature over a digest. -/
abbrev Signature := Octets 64

/-- The secret bytes that a signing key pair comes from. -/
abbrev Seed := Octets 32

/-- The secret key that payloads are sealed under. -/
abbrev SealingKey := Octets 32

/-- The bytes that make two sealings of one payload differ; never to be used twice. -/
abbrev Nonce := Octets 12

namespace Octets

@[ext] theorem ext {n : Nat} {a b : Octets n} (h : a.toBytes = b.toBytes) : a = b := by
  cases a; cases b; cases h; rfl

/-- The bytes `bs`, if there are exactly `n` of them. -/
def ofBytes? (n : Nat) (bs : Bytes) : Option (Octets n) :=
  if h : bs.length = n then some ⟨bs, h⟩ else none

/-- The string of `n` equal bytes. -/
def replicate (n : Nat) (b : UInt8) : Octets n := ⟨List.replicate n b, by simp⟩

/-- The string of `n` zero bytes. -/
def zero (n : Nat) : Octets n := replicate n 0

instance {n : Nat} : Inhabited (Octets n) := ⟨zero n⟩

theorem ofBytes?_eq_some_iff {n : Nat} {bs : Bytes} {o : Octets n} :
    ofBytes? n bs = some o ↔ o.toBytes = bs := by
  unfold ofBytes?
  split
  · rename_i h
    constructor
    · intro e
      cases e
      rfl
    · intro e
      cases o
      cases e
      rfl
  · rename_i h
    constructor
    · intro e
      cases e
    · intro e
      exact absurd (e ▸ o.length_toBytes) h

@[simp] theorem ofBytes?_toBytes {n : Nat} (o : Octets n) : ofBytes? n o.toBytes = some o :=
  ofBytes?_eq_some_iff.2 rfl

end Octets

/-- The digest of no content: the hash that stands for a range with no leaf yet. -/
def Digest.zero : Digest := Octets.zero 32

/-- The `width` low bytes of `n`, most significant first. -/
def bigEndian : (width n : Nat) → Bytes
  | 0, _ => []
  | width + 1, n => (n / 256 ^ width).toUInt8 :: bigEndian width n

/-- The number that a byte string spells, most significant byte first. -/
def ofBigEndian : Bytes → Nat
  | [] => 0
  | b :: bs => b.toNat * 256 ^ bs.length + ofBigEndian bs

/-- The number that a byte string spells, least significant byte first. -/
def ofLittleEndian (bs : Bytes) : Nat := ofBigEndian bs.reverse

/-- The `width` low bytes of `n`, least significant first. -/
def littleEndian (width n : Nat) : Bytes := (bigEndian width n).reverse

@[simp] theorem bigEndian_zero (n : Nat) : bigEndian 0 n = [] := rfl

@[simp] theorem ofBigEndian_nil : ofBigEndian [] = 0 := rfl

theorem ofBigEndian_cons (b : UInt8) (bs : Bytes) :
    ofBigEndian (b :: bs) = b.toNat * 256 ^ bs.length + ofBigEndian bs := rfl

@[simp] theorem length_bigEndian (width n : Nat) : (bigEndian width n).length = width := by
  induction width with
  | zero => rfl
  | succ width ih => simp [bigEndian, ih]

theorem ofBigEndian_lt (bs : Bytes) : ofBigEndian bs < 256 ^ bs.length := by
  induction bs with
  | nil => simp
  | cons b bs ih =>
    have hb : b.toNat < 256 := b.toNat_lt
    have hstep : (b.toNat + 1) * 256 ^ bs.length ≤ 256 * 256 ^ bs.length :=
      Nat.mul_le_mul_right _ hb
    simp only [ofBigEndian_cons, List.length_cons, Nat.pow_succ]
    rw [Nat.add_mul] at hstep
    omega

/-- Writing keeps exactly the low bytes of the number. -/
theorem ofBigEndian_bigEndian_mod (width n : Nat) :
    ofBigEndian (bigEndian width n) = n % 256 ^ width := by
  induction width with
  | zero => simp [Nat.mod_one]
  | succ width ih =>
    have hpow : (256 : Nat) ^ (width + 1) = 256 ^ width * 256 := Nat.pow_succ ..
    simp only [bigEndian, ofBigEndian_cons, length_bigEndian, ih, hpow]
    have hb : (n / 256 ^ width).toUInt8.toNat = n / 256 ^ width % 256 := by
      simp
    rw [hb, Nat.mod_mul, Nat.mul_comm]
    omega

theorem ofBigEndian_bigEndian {width n : Nat} (h : n < 256 ^ width) :
    ofBigEndian (bigEndian width n) = n := by
  rw [ofBigEndian_bigEndian_mod, Nat.mod_eq_of_lt h]

/-- Reading loses nothing: the bytes are the spelling of the number read. -/
theorem bigEndian_ofBigEndian (bs : Bytes) : bigEndian bs.length (ofBigEndian bs) = bs := by
  have low : ∀ (width m k : Nat), bigEndian width (m * 256 ^ width + k) = bigEndian width k := by
    intro width
    induction width with
    | zero => intros; rfl
    | succ width ih =>
      intro m k
      have hsplit : m * 256 ^ (width + 1) = (m * 256) * 256 ^ width := by
        rw [Nat.pow_succ, Nat.mul_assoc, Nat.mul_comm 256]
      have hdiv : (m * 256 ^ (width + 1) + k) / 256 ^ width = m * 256 + k / 256 ^ width := by
        rw [hsplit, Nat.add_comm, Nat.add_mul_div_right _ _ (Nat.pos_of_ne_zero (by simp)),
          Nat.add_comm]
      simp only [bigEndian, hdiv]
      congr 1
      · apply UInt8.toNat_inj.1
        simp
      · rw [hsplit]
        exact ih (m * 256) k
  induction bs with
  | nil => rfl
  | cons b bs ih =>
    have hpos : 0 < (256 : Nat) ^ bs.length := Nat.pos_of_ne_zero (by simp)
    simp only [List.length_cons, bigEndian, ofBigEndian_cons]
    congr 1
    · rw [Nat.add_comm, Nat.add_mul_div_right _ _ hpos,
        Nat.div_eq_of_lt (ofBigEndian_lt bs), Nat.zero_add]
      simp
    · rw [low, ih]

/-- The eight bytes of a 64-bit word, most significant first. -/
def word64 (x : UInt64) : Bytes := bigEndian 8 x.toNat

@[simp] theorem length_word64 (x : UInt64) : (word64 x).length = 8 := length_bigEndian ..

theorem ofBigEndian_word64 (x : UInt64) : ofBigEndian (word64 x) = x.toNat :=
  ofBigEndian_bigEndian x.toNat_lt

theorem word64_inj {x y : UInt64} : word64 x = word64 y ↔ x = y := by
  constructor
  · intro h
    have := congrArg ofBigEndian h
    rw [ofBigEndian_word64, ofBigEndian_word64] at this
    exact UInt64.toNat_inj.1 this
  · rintro rfl
    rfl

end OwnershipLog
