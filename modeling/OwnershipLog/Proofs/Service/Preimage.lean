import OwnershipLog.Proofs.Service.Signed
import OwnershipLog.Proofs.Wire.Domain
import OwnershipLog.Suite.Standard

/-!
# The strings behind checksums

Three kinds of artifact have a checksum that is signed: heads, ownerships at an instant,
and leaves. The string that is hashed for one begins with a byte of its kind
(`Signable.firstByte`), two kinds with a tag and leaves with the version of their instant,
and within a kind it is a spelling of the signed fields. So the strings of two artifacts
are one exactly when the artifacts are of one kind and agree in every signed field, and
their checksums agree by a collision otherwise.
-/

namespace OwnershipLog

/-- An artifact with a checksum to sign. -/
inductive Signable where
  | head (h : TreeHead)
  | ownership (timestamp : Timestamp) (o : Ownership)
  | leaf (l : Leaf)

namespace Signable

/-- The artifact can be written: its name is not too long, and a leaf has a byte form. -/
def Encodable : Signable → Prop
  | head _ => True
  | ownership _ o => o.name.utf8ByteSize ≤ 255
  | leaf l => ∃ bytes, l.encode = .ok bytes

/-- The string that is hashed for an artifact. -/
def preimage : Signable → Except WireError Bytes
  | head h => .ok h.preimage
  | ownership timestamp o => o.preimage timestamp
  | leaf l => l.encode

/-- The checksum of an artifact. -/
def checksum (hash : HashFunction) : Signable → Except WireError Digest
  | head h => .ok (h.checksum hash)
  | ownership timestamp o => o.checksum hash timestamp
  | leaf l => l.checksum hash

/-- Two artifacts of one kind agree in every signed field. The signature of a head is not signed. -/
def Agrees : Signable → Signable → Prop
  | head h, head h' => h.size = h'.size ∧ h.timestamp = h'.timestamp ∧ h.root = h'.root
  | ownership t o, ownership t' o' => t = t' ∧ o = o'
  | leaf l, leaf l' => l = l'
  | _, _ => False

/-- The first byte of the string for a kind of artifact. -/
def firstByte : Signable → UInt8
  | head _ => 115
  | ownership _ _ => 111
  | leaf _ => Timestamp.version

variable {a b : Signable} {x y : Bytes}

theorem head?_of_preimage (h : a.preimage = .ok x) : x.head? = some a.firstByte := by
  cases a with
  | head _ =>
      cases h
      rfl
  | ownership timestamp o =>
      obtain ⟨bytes, -, rfl⟩ := Ownership.preimage_eq_ok_iff.1 h
      rfl
  | leaf l =>
      obtain ⟨ownership, -, rfl, -⟩ := Leaf.encode_eq_ok_iff.1 h
      rfl

/-- Artifacts that agree are hashed from one string. -/
theorem preimage_congr (h : a.Agrees b) : a.preimage = b.preimage := by
  cases a with
  | head h₁ =>
      cases b with
      | head h₂ =>
          obtain ⟨hsize, htimestamp, hroot⟩ := h
          simp only [preimage, TreeHead.preimage, hsize, htimestamp, hroot]
      | ownership _ _ => exact h.elim
      | leaf _ => exact h.elim
  | ownership t o =>
      cases b with
      | head _ => exact h.elim
      | ownership _ _ =>
          obtain ⟨rfl, rfl⟩ := h
          rfl
      | leaf _ => exact h.elim
  | leaf l =>
      cases b with
      | head _ => exact h.elim
      | ownership _ _ => exact h.elim
      | leaf _ =>
          cases (h : l = _)
          rfl

/-- Artifacts that are hashed from one string agree. -/
theorem agrees_of_preimage (ha : a.preimage = .ok x) (hb : b.preimage = .ok x) : a.Agrees b := by
  have hkind : a.firstByte = b.firstByte :=
    Option.some.inj ((head?_of_preimage ha).symm.trans (head?_of_preimage hb))
  -- of two kinds the first bytes differ; within a kind the fields can be read off the string
  cases a with
  | head h =>
      cases b with
      | head h' => exact TreeHead.preimage_inj (Except.ok.inj (ha.trans hb.symm))
      | ownership t o => exact absurd hkind (show (115 : UInt8) ≠ 111 by decide)
      | leaf l => exact absurd hkind (show (115 : UInt8) ≠ 1 by decide)
  | ownership t o =>
      cases b with
      | head h => exact absurd hkind (show (111 : UInt8) ≠ 115 by decide)
      | ownership t' o' => exact Ownership.preimage_inj ha hb
      | leaf l => exact absurd hkind (show (111 : UInt8) ≠ 1 by decide)
  | leaf l =>
      cases b with
      | head h => exact absurd hkind (show (1 : UInt8) ≠ 115 by decide)
      | ownership t o => exact absurd hkind (show (1 : UInt8) ≠ 111 by decide)
      | leaf l' => exact Leaf.encode_inj ha hb

theorem preimage_eq_iff (ha : a.preimage = .ok x) (hb : b.preimage = .ok y) :
    x = y ↔ a.Agrees b := by
  constructor
  · rintro rfl
    exact agrees_of_preimage ha hb
  · intro h
    exact Except.ok.inj (ha.symm.trans ((preimage_congr h).trans hb))

/-- What can be written has a string to hash. -/
theorem Encodable.exists_preimage (h : a.Encodable) : ∃ x, a.preimage = .ok x := by
  cases a with
  | head _ => exact ⟨_, rfl⟩
  | ownership timestamp o =>
      obtain ⟨bytes, hencode⟩ := (Ownership.exists_encode_iff o).2 h
      exact ⟨_, Ownership.preimage_eq_ok_iff.2 ⟨bytes, hencode, rfl⟩⟩
  | leaf l => exact h

theorem checksum_of_preimage (hash : HashFunction) (h : a.preimage = .ok x) :
    a.checksum hash = .ok (hash x) := by
  cases a with
  | head _ =>
      cases h
      rfl
  | ownership timestamp o => exact Ownership.checksum_of_ok hash h
  | leaf l =>
      have hencode : l.encode = .ok x := h
      rw [checksum, Leaf.checksum, hencode]
      rfl

/-- The checksums of two artifacts are hashes of strings that are one exactly when the artifacts are
of one kind and agree in every signed field. So equal checksums tell that they do, or that the two
strings are different and collide. -/
theorem checksum_determines_fields (hash : HashFunction) {a b : Signable} (ha : a.Encodable)
    (hb : b.Encodable) :
    ∃ x y, a.preimage = .ok x ∧ b.preimage = .ok y ∧ a.checksum hash = .ok (hash x) ∧
      b.checksum hash = .ok (hash y) ∧ (x = y ↔ a.Agrees b) ∧
      (a.checksum hash = b.checksum hash → a.Agrees b ∨ x ≠ y ∧ hash x = hash y) := by
  obtain ⟨x, hx⟩ := ha.exists_preimage
  obtain ⟨y, hy⟩ := hb.exists_preimage
  have hiff := preimage_eq_iff hx hy
  have hcheck := checksum_of_preimage hash hx
  have hcheck' := checksum_of_preimage hash hy
  refine ⟨x, y, hx, hy, hcheck, hcheck', hiff, ?_⟩
  intro heq
  rw [hcheck, hcheck'] at heq
  by_cases hxy : x = y
  · exact Or.inl (hiff.1 hxy)
  · exact Or.inr ⟨hxy, Except.ok.inj heq⟩

/-- A leaf with a key of its owner and private data. -/
def ownedLeaf : Leaf := ⟨Timestamp.epoch, ⟨Digest.zero, "ada"⟩, [1], [2, 3], []⟩

/-- Under the standard hash, a leaf and the ownership in it at its instant, which the authority
signs for a private registration, are hashed from two strings, so equal checksums would tell a
collision; and so are a head and a head of one leaf more. -/
theorem checksum_determines_fields_leaf :
    (leaf ownedLeaf).Encodable ∧ (ownership ownedLeaf.created ownedLeaf.ownership).Encodable ∧
    (head ⟨4, Timestamp.epoch, Digest.zero, none⟩).Encodable ∧
    (head ⟨5, Timestamp.epoch, Digest.zero, none⟩).Encodable ∧
    (∃ x y, ownedLeaf.encode = .ok x ∧
      ownedLeaf.ownership.preimage ownedLeaf.created = .ok y ∧ x ≠ y ∧
      (ownedLeaf.checksum Suite.standard.hash =
          ownedLeaf.ownership.checksum Suite.standard.hash ownedLeaf.created →
        Suite.standard.hash x = Suite.standard.hash y)) ∧
    ∃ x y, (head ⟨4, Timestamp.epoch, Digest.zero, none⟩).preimage = .ok x ∧
      (head ⟨5, Timestamp.epoch, Digest.zero, none⟩).preimage = .ok y ∧ x ≠ y := by
  have hleaf : (leaf ownedLeaf).Encodable := (Leaf.exists_encode_iff _).2 (by decide)
  have hownership : (ownership ownedLeaf.created ownedLeaf.ownership).Encodable :=
    show "ada".utf8ByteSize ≤ 255 by decide
  refine ⟨hleaf, hownership, trivial, trivial, ?_, ?_⟩
  · obtain ⟨x, y, hx, hy, -, -, hiff, hequal⟩ :=
      checksum_determines_fields Suite.standard.hash hleaf hownership
    refine ⟨x, y, hx, hy, fun heq => hiff.1 heq, fun heq => ?_⟩
    exact (hequal heq).elim False.elim And.right
  · obtain ⟨x, y, hx, hy, -, -, hiff, -⟩ := checksum_determines_fields Suite.standard.hash
      (a := head ⟨4, Timestamp.epoch, Digest.zero, none⟩)
      (b := head ⟨5, Timestamp.epoch, Digest.zero, none⟩) trivial trivial
    refine ⟨x, y, hx, hy, fun heq => ?_⟩
    exact absurd (hiff.1 heq).1 (by decide)

end Signable

end OwnershipLog
