import OwnershipLog.Proofs.Wire.RoundTrip

/-!
# Which values have a written form

A written form is exact (`ExactForm`) when the values that fit are the ones that have
bytes, every other value is refused because something in it is too long, and the bytes
read back as the value. The formats of the library are exact: instants and heads
always fit, an ownership fits when its name does, a leaf when in addition all of it
fits behind a two-byte length, and a proof when its leaf fits and its hashes can be
counted in two bytes.
-/

namespace OwnershipLog

/-- The cause is that something is too long. -/
def WireError.IsTooLong (e : WireError) : Prop := ∃ got max, e = .tooLong got max

theorem WireError.isTooLong_tooLong (got max : Nat) : (tooLong got max).IsTooLong :=
  ⟨got, max, rfl⟩

/-- The values that fit are written, the others are too long, and what is written reads back. -/
structure ExactForm {α : Type} (encode : α → Except WireError Bytes)
    (decode : Bytes → Except WireError α) (Fits : α → Prop) : Prop where
  exists_encode_iff : ∀ a, (∃ bytes, encode a = .ok bytes) ↔ Fits a
  isTooLong_of_encode : ∀ a e, encode a = .error e → e.IsTooLong
  decode_of_encode : ∀ a bytes, encode a = .ok bytes → decode bytes = .ok a

/-- A sequence fails when one of its parts does. -/
theorem bind_eq_error_iff {ε α β : Type} {first : Except ε α} {next : α → Except ε β} {e : ε} :
    (first >>= next) = .error e ↔ first = .error e ∨ ∃ a, first = .ok a ∧ next a = .error e := by
  cases first with
  | error e' =>
      constructor
      · intro h
        cases h
        exact Or.inl rfl
      · rintro (h | ⟨a, h, -⟩)
        · cases h
          rfl
        · cases h
  | ok a =>
      constructor
      · intro h
        exact Or.inr ⟨a, rfl, h⟩
      · rintro (h | ⟨a', h, hnext⟩)
        · cases h
        · cases h
          exact hnext

/-- A form that every value has. -/
theorem ExactForm.of_total {α : Type} {encode : α → Bytes} {decode : Bytes → Except WireError α}
    (h : ∀ a, decode (encode a) = .ok a) :
    ExactForm (fun a => .ok (encode a)) decode fun _ => True where
  exists_encode_iff a := by simp
  isTooLong_of_encode a e hencode := by simp at hencode
  decode_of_encode a bytes hencode := by
    cases hencode
    exact h a

theorem isTooLong_of_prefixed {field : Bytes} {e : WireError}
    (h : prefixed field = .error e) : e.IsTooLong := by
  rw [prefixed] at h
  split at h
  · cases h
  · cases h
    exact WireError.isTooLong_tooLong _ _

/-! ## Instants and ownerships -/

theorem Timestamp.decode_encode (t : Timestamp) : decode t.encode = .ok t := by
  have hread := reader_append t []
  rw [List.append_nil] at hread
  exact Reader.decodeAll_of_ok hread

namespace Ownership

theorem exists_encode_iff (o : Ownership) :
    (∃ bytes, o.encode = .ok bytes) ↔ o.name.utf8ByteSize ≤ maxName := by
  have hlength : (utf8 o.name).length = o.name.utf8ByteSize := by simp [utf8]
  simp [encode_eq_ok_iff, hlength]

theorem isTooLong_of_encode {o : Ownership} {e : WireError} (h : o.encode = .error e) :
    e.IsTooLong := by
  simp only [encode] at h
  split at h
  · cases h
  · cases h
    exact WireError.isTooLong_tooLong _ _

end Ownership

namespace SignedOwnership

theorem exists_encode_iff (s : SignedOwnership) :
    (∃ bytes, s.encode = .ok bytes) ↔ ∃ ownership, s.ownership.encode = .ok ownership := by
  simp only [encode_eq_ok_iff]
  constructor
  · rintro ⟨bytes, ownership, hownership, -⟩
    exact ⟨ownership, hownership⟩
  · rintro ⟨ownership, hownership⟩
    exact ⟨_, ownership, hownership, rfl⟩

theorem isTooLong_of_encode {s : SignedOwnership} {e : WireError} (h : s.encode = .error e) :
    e.IsTooLong := by
  rw [encode, bind_eq_error_iff] at h
  rcases h with hownership | ⟨ownership, -, hrest⟩
  · exact Ownership.isTooLong_of_encode hownership
  · cases hrest

end SignedOwnership

/-! ## Leaves and proofs -/

namespace Leaf

/-- How many bytes the written form of a leaf takes. -/
def wireSize (leaf : Leaf) : Nat :=
  56 + leaf.ownership.name.utf8ByteSize + leaf.publicKey.length + leaf.privateData.length +
    leaf.publicData.length

theorem length_layout_of_encode {leaf : Leaf} {ownership : Bytes}
    (h : leaf.ownership.encode = .ok ownership) :
    (leaf.layout ownership).length = leaf.wireSize := by
  have hname : (utf8 leaf.ownership.name).length = leaf.ownership.name.utf8ByteSize := by
    simp [utf8]
  rw [length_layout, Ownership.length_of_encode h, hname, wireSize]
  omega

theorem exists_encode_iff (leaf : Leaf) :
    (∃ bytes, leaf.encode = .ok bytes) ↔
      leaf.ownership.name.utf8ByteSize ≤ maxName ∧ leaf.wireSize ≤ maxField := by
  rw [← Ownership.exists_encode_iff]
  simp only [encode_eq_ok_iff]
  constructor
  · rintro ⟨bytes, ownership, hownership, rfl, hle⟩
    rw [length_layout_of_encode hownership] at hle
    exact ⟨⟨ownership, hownership⟩, hle⟩
  · rintro ⟨⟨ownership, hownership⟩, hle⟩
    rw [← length_layout_of_encode hownership] at hle
    exact ⟨_, ownership, hownership, rfl, hle⟩

theorem isTooLong_of_fields {leaf : Leaf} {e : WireError} (h : leaf.fields = .error e) :
    e.IsTooLong := by
  simp only [fields, bind_eq_error_iff] at h
  rcases h with h | ⟨_, _, h | ⟨_, _, h | ⟨_, _, h | ⟨_, _, h | ⟨_, _, h⟩⟩⟩⟩⟩
  · exact Ownership.isTooLong_of_encode h
  · exact isTooLong_of_prefixed h
  · exact isTooLong_of_prefixed h
  · exact isTooLong_of_prefixed h
  · exact isTooLong_of_prefixed h
  · cases h

theorem isTooLong_of_encode {leaf : Leaf} {e : WireError} (h : leaf.encode = .error e) :
    e.IsTooLong := by
  rw [encode, bind_eq_error_iff] at h
  rcases h with hfields | ⟨bytes, -, hlength⟩
  · exact isTooLong_of_fields hfields
  · split at hlength
    · cases hlength
    · cases hlength
      exact WireError.isTooLong_tooLong _ _

end Leaf

namespace InclusionProof

theorem exists_encode_iff (p : InclusionProof) :
    (∃ bytes, p.encode = .ok bytes) ↔
      p.hashes.length ≤ maxHashes ∧ ∃ leaf, p.leaf.encode = .ok leaf := by
  constructor
  · rintro ⟨bytes, h⟩
    exact ⟨length_hashes_of_encode h, leaf_of_encode h⟩
  · rintro ⟨hhashes, leaf, hleaf⟩
    exact ⟨_, encode_of_leaf hleaf hhashes⟩

theorem isTooLong_of_encode {p : InclusionProof} {e : WireError} (h : p.encode = .error e) :
    e.IsTooLong := by
  rw [encode] at h
  split at h
  · cases h
    exact WireError.isTooLong_tooLong _ _
  · simp only [bind_eq_error_iff] at h
    rcases h with h | ⟨_, _, h | ⟨_, _, h | ⟨_, _, h⟩⟩⟩
    · exact Leaf.isTooLong_of_encode h
    · exact isTooLong_of_prefixed h
    · exact isTooLong_of_prefixed h
    · cases h

end InclusionProof

/-! ## All formats -/

/-- Every format is exact. An instant has any seconds, those included whose shift to the year 1
wraps around, and any nanoseconds of a second; a head has a signature or none. -/
theorem formats_exact :
    ExactForm (fun t => .ok (Timestamp.encode t)) Timestamp.decode (fun _ => True) ∧
    ExactForm (fun h => .ok (TreeHead.encode h)) TreeHead.decode (fun _ => True) ∧
    ExactForm Ownership.encode Ownership.decode (fun o => o.name.utf8ByteSize ≤ 255) ∧
    ExactForm SignedOwnership.encode SignedOwnership.decode
      (fun s => s.ownership.name.utf8ByteSize ≤ 255) ∧
    ExactForm Leaf.encode Leaf.decode (fun leaf => leaf.ownership.name.utf8ByteSize ≤ 255 ∧
      56 + leaf.ownership.name.utf8ByteSize + leaf.publicKey.length + leaf.privateData.length +
        leaf.publicData.length ≤ 65535) ∧
    ExactForm InclusionProof.encode InclusionProof.decode
      (fun p => p.hashes.length ≤ 65535 ∧ ∃ leaf, p.leaf.encode = .ok leaf) := by
  refine ⟨.of_total Timestamp.decode_encode, .of_total TreeHead.decode_encode, ?_, ?_, ?_, ?_⟩
  · exact ⟨Ownership.exists_encode_iff, fun _ _ => Ownership.isTooLong_of_encode,
      fun _ _ => Ownership.decode_encode⟩
  · refine ⟨fun s => ?_, fun _ _ => SignedOwnership.isTooLong_of_encode,
      fun _ _ => SignedOwnership.decode_encode⟩
    rw [SignedOwnership.exists_encode_iff]
    exact Ownership.exists_encode_iff s.ownership
  · exact ⟨Leaf.exists_encode_iff, fun _ _ => Leaf.isTooLong_of_encode,
      fun _ _ => Leaf.decode_encode⟩
  · exact ⟨InclusionProof.exists_encode_iff, fun _ _ => InclusionProof.isTooLong_of_encode,
      fun _ _ => InclusionProof.decode_encode⟩

end OwnershipLog
