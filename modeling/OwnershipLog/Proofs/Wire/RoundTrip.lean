import OwnershipLog.InclusionProof

/-!
# Reading back what was written

Each artifact has a form `encode_eq_ok_iff` that says when it has bytes and which,
and a form `reader_append` or `decode_encode` that says those bytes read back as the
artifact itself. The readers of fields take them from the front whatever follows,
so an artifact inside another needs nothing new.

Since reading back gives the whole artifact, its bytes determine it
(`Leaf.encode_inj` and the like).
-/

namespace OwnershipLog

/-- A sequence succeeds when both its parts do. -/
theorem bind_eq_ok_iff {ε α β : Type} {first : Except ε α} {next : α → Except ε β} {b : β} :
    (first >>= next) = .ok b ↔ ∃ a, first = .ok a ∧ next a = .ok b := by
  cases first with
  | error e =>
      constructor
      · intro h
        cases h
      · rintro ⟨a, h, -⟩
        cases h
  | ok a =>
      constructor
      · intro h
        exact ⟨a, rfl, h⟩
      · rintro ⟨a', h, hnext⟩
        cases h
        exact hnext

theorem prefixed_eq_ok_iff {field bytes : Bytes} :
    prefixed field = .ok bytes ↔
      field.length ≤ maxField ∧ bytes = bigEndian 2 field.length ++ field := by
  unfold prefixed
  split
  · rename_i h
    constructor
    · intro heq
      cases heq
      exact ⟨h, rfl⟩
    · rintro ⟨-, rfl⟩
      rfl
  · rename_i h
    constructor
    · intro heq
      cases heq
    · rintro ⟨hle, -⟩
      exact absurd hle h

namespace Reader

variable {α : Type}

theorem finish_nil : finish [] = .ok () [] := rfl

theorem rest_apply (input : Bytes) : rest input = .ok input [] := rfl

theorem remaining_apply (input : Bytes) : remaining input = .ok input.length input := rfl

theorem decodeAll_of_ok {reader : Reader α} {input : Bytes} {a : α}
    (h : reader input = .ok a []) : decodeAll reader input = .ok a := by
  rw [decodeAll, decode, bind_of_ok h, bind_of_ok finish_nil]
  rfl

theorem decode_of_ok {reader : Reader α} {input left : Bytes} {a : α}
    (h : reader input = .ok a left) : decode reader input = .ok a := by
  rw [decode, h]

theorem nested_append {artifact : Bytes → Except WireError α} {field : Bytes} {a : α}
    (hfield : field.length ≤ maxField) (h : artifact field = .ok a) (tail : Bytes) :
    nested artifact (bigEndian 2 field.length ++ field ++ tail) = .ok a tail := by
  rw [nested, bind_of_ok (Reader.prefixed_append hfield tail), h]
  rfl

theorem byte_cons (b : UInt8) (tail : Bytes) : byte (b :: tail) = .ok b tail := rfl

theorem digestsOnto_append (ds found : List Digest) (tail : Bytes) :
    digestsOnto ds.length found (ds.flatMap Octets.toBytes ++ tail) =
      .ok (found.reverse ++ ds) tail := by
  induction ds generalizing found with
  | nil => simp [digestsOnto]
  | cons d ds ih =>
      rw [List.length_cons, digestsOnto, List.flatMap_cons, List.append_assoc, digest,
        bind_of_ok (exact_append d _), ih]
      simp

theorem digests_append (ds : List Digest) (tail : Bytes) :
    digests ds.length (ds.flatMap Octets.toBytes ++ tail) = .ok ds tail := by
  rw [digests, digestsOnto_append]
  rfl

end Reader

open Reader

/-! ## Timestamps -/

namespace Timestamp

theorem ofUnix_self (t : Timestamp) : ofUnix t.secs t.nanos = .ok t := by
  rw [ofUnix, dif_pos t.nanos_lt]

/-- The zone offset that is written: minus one. -/
def zoneMarker : Octets 2 := ⟨[0xFF, 0xFF], rfl⟩

/-- The bytes of an instant before the zone offset. -/
def front (t : Timestamp) : Bytes :=
  version :: (word64 (t.secs + epochOffset).toUInt64 ++ bigEndian 4 t.nanos.toNat)

theorem length_front (t : Timestamp) : t.front.length = 13 := by simp [front]

theorem encode_eq_front (t : Timestamp) : t.encode = t.front ++ zoneMarker.toBytes := rfl

/-- An instant is read back whatever its zone offset is. -/
theorem reader_front_append (t : Timestamp) (zone : Octets 2) (tail : Bytes) :
    reader (t.front ++ (zone.toBytes ++ tail)) = .ok t tail := by
  have hnanos : t.nanos.toNat < 256 ^ 4 := t.nanos.toNat_lt
  rw [reader, front, List.cons_append, bind_of_ok (byte_cons _ _), if_neg (by simp),
    List.append_assoc]
  show (Reader.word >>= _) _ = _
  rw [bind_of_ok (word_append _ _), bind_of_ok (number_append hnanos _),
    bind_of_ok (exact_append zone tail)]
  simp [Int64.add_sub_cancel, ofUnix_self]

theorem reader_append (t : Timestamp) (tail : Bytes) : reader (t.encode ++ tail) = .ok t tail := by
  rw [encode_eq_front, List.append_assoc, reader_front_append]

theorem encode_inj {t u : Timestamp} (h : t.encode = u.encode) : t = u := by
  have ht := reader_append t []
  rw [h, reader_append] at ht
  cases ht
  rfl

end Timestamp

/-! ## Ownerships -/

namespace Ownership

theorem encode_eq_ok_iff {o : Ownership} {bytes : Bytes} :
    o.encode = .ok bytes ↔ (utf8 o.name).length ≤ maxName ∧
      bytes = o.contentHash.toBytes ++ bigEndian 1 (utf8 o.name).length ++ utf8 o.name := by
  unfold encode
  simp only
  split
  · rename_i h
    constructor
    · intro heq
      cases heq
      exact ⟨h, rfl⟩
    · rintro ⟨-, rfl⟩
      rfl
  · rename_i h
    constructor
    · intro heq
      cases heq
    · rintro ⟨hle, -⟩
      exact absurd hle h

theorem length_of_encode {o : Ownership} {bytes : Bytes} (h : o.encode = .ok bytes) :
    bytes.length = 33 + (utf8 o.name).length := by
  obtain ⟨-, rfl⟩ := encode_eq_ok_iff.1 h
  simp [Octets.length_toBytes]
  omega

theorem length_le_maxField {o : Ownership} {bytes : Bytes} (h : o.encode = .ok bytes) :
    bytes.length ≤ maxField := by
  have hname := (encode_eq_ok_iff.1 h).1
  rw [length_of_encode h]
  unfold maxName at hname
  unfold maxField
  omega

theorem reader_append {o : Ownership} {bytes : Bytes} (h : o.encode = .ok bytes) (tail : Bytes) :
    reader (bytes ++ tail) = .ok o tail := by
  obtain ⟨hname, rfl⟩ := encode_eq_ok_iff.1 h
  have hcount : (utf8 o.name).length < 256 ^ 1 := by unfold maxName at hname; omega
  have hfield : exact (utf8 o.name).length (utf8 o.name ++ tail) = .ok ⟨utf8 o.name, rfl⟩ tail :=
    exact_append ⟨utf8 o.name, rfl⟩ tail
  rw [reader, List.append_assoc, List.append_assoc, digest, bind_of_ok (exact_append _ _),
    bind_of_ok (number_append hcount _), bind_of_ok hfield]
  simp

theorem decode_encode {o : Ownership} {bytes : Bytes} (h : o.encode = .ok bytes) :
    decode bytes = .ok o := by
  have hread := reader_append h []
  rw [List.append_nil] at hread
  exact decodeAll_of_ok hread

theorem encode_inj {o o' : Ownership} {bytes : Bytes} (h : o.encode = .ok bytes)
    (h' : o'.encode = .ok bytes) : o = o' := by
  have hread := decode_encode h
  rw [decode_encode h'] at hread
  cases hread
  rfl

end Ownership

/-! ## Signed ownerships -/

namespace SignedOwnership

theorem encode_eq_ok_iff {s : SignedOwnership} {bytes : Bytes} :
    s.encode = .ok bytes ↔ ∃ ownership, s.ownership.encode = .ok ownership ∧
      bytes = s.timestamp.encode ++ ownership ++ s.signature.toBytes := by
  rw [encode, bind_eq_ok_iff]
  constructor
  · rintro ⟨ownership, hownership, heq⟩
    cases heq
    exact ⟨ownership, hownership, rfl⟩
  · rintro ⟨ownership, hownership, rfl⟩
    exact ⟨ownership, hownership, rfl⟩

theorem decode_encode {s : SignedOwnership} {bytes : Bytes} (h : s.encode = .ok bytes) :
    decode bytes = .ok s := by
  obtain ⟨ownership, hownership, rfl⟩ := encode_eq_ok_iff.1 h
  have hsignature : exact 64 s.signature.toBytes = .ok s.signature [] := by
    have happend := exact_append s.signature []
    rwa [List.append_nil] at happend
  apply decodeAll_of_ok
  rw [reader, List.append_assoc, bind_of_ok (Timestamp.reader_append _ _),
    bind_of_ok (Ownership.reader_append hownership _), bind_of_ok hsignature]
  rfl

end SignedOwnership

/-! ## Tree heads -/

namespace TreeHead

theorem signatureOf_signatureBytes (signature : Option Signature) :
    signatureOf (signatureBytes signature) = .ok signature := by
  cases signature with
  | none => rfl
  | some signature =>
      have hlength := signature.length_toBytes
      have hne : signature.toBytes.isEmpty = false := by
        rw [List.isEmpty_eq_false_iff]
        intro hnil
        rw [hnil] at hlength
        cases hlength
      simp [signatureBytes, signatureOf, hne]

theorem decode_encode (h : TreeHead) : decode h.encode = .ok h := by
  have hread : reader h.encode = .ok h [] := by
    rw [reader, encode, List.append_assoc, List.append_assoc, bind_of_ok (word_append _ _),
      bind_of_ok (Timestamp.reader_append _ _), digest, bind_of_ok (exact_append _ _),
      bind_of_ok (rest_apply _), signatureOf_signatureBytes]
    rfl
  exact decode_of_ok hread

theorem length_encode_le (h : TreeHead) : h.encode.length ≤ 119 := by
  have hsignature : (signatureBytes h.signature).length ≤ 64 := by
    cases h.signature with
    | none => simp [signatureBytes]
    | some signature => exact Nat.le_of_eq signature.length_toBytes
  simp only [encode, List.length_append, length_word64, Timestamp.length_encode,
    h.root.length_toBytes]
  omega

end TreeHead

/-! ## Leaves -/

namespace Leaf

/-- The fields of a leaf one after another, each behind its length. -/
def layout (leaf : Leaf) (ownership : Bytes) : Bytes :=
  leaf.created.encode ++ (bigEndian 2 ownership.length ++ ownership ++
    (bigEndian 2 leaf.publicKey.length ++ leaf.publicKey ++
      (bigEndian 2 leaf.privateData.length ++ leaf.privateData ++
        (bigEndian 2 leaf.publicData.length ++ leaf.publicData))))

theorem length_layout (leaf : Leaf) (ownership : Bytes) :
    (leaf.layout ownership).length = 23 + ownership.length + leaf.publicKey.length +
      leaf.privateData.length + leaf.publicData.length := by
  simp only [layout, List.length_append, length_bigEndian, Timestamp.length_encode]
  omega

/-- The fields of a leaf are written when each of them fits. -/
theorem fields_of_le {leaf : Leaf} {ownership : Bytes}
    (hownership : leaf.ownership.encode = .ok ownership) (hkey : leaf.publicKey.length ≤ maxField)
    (hprivate : leaf.privateData.length ≤ maxField)
    (hpublic : leaf.publicData.length ≤ maxField) :
    leaf.fields = .ok (leaf.layout ownership) := by
  rw [fields, bind_eq_ok_iff]
  refine ⟨ownership, hownership, ?_⟩
  rw [prefixed_of_le (Ownership.length_le_maxField hownership), prefixed_of_le hkey,
    prefixed_of_le hprivate, prefixed_of_le hpublic]
  show Except.ok _ = Except.ok _
  simp only [layout, List.append_assoc]

theorem encode_of_fields_of_lt {leaf : Leaf} {bytes : Bytes} (h : leaf.fields = .ok bytes)
    (hlt : maxField < bytes.length) : leaf.encode = .error (.tooLong bytes.length maxField) := by
  rw [encode, h]
  exact if_neg (Nat.not_le.2 hlt)

/-- A leaf has bytes when its name fits, and the whole fits behind a two-byte length. -/
theorem encode_eq_ok_iff {leaf : Leaf} {bytes : Bytes} :
    leaf.encode = .ok bytes ↔ ∃ ownership, leaf.ownership.encode = .ok ownership ∧
      bytes = leaf.layout ownership ∧ bytes.length ≤ maxField := by
  constructor
  · intro h
    obtain ⟨all, hfields, hall⟩ := bind_eq_ok_iff.1 h
    obtain ⟨ownership, hownership, h₁⟩ := bind_eq_ok_iff.1 hfields
    obtain ⟨first, hfirst, h₂⟩ := bind_eq_ok_iff.1 h₁
    obtain ⟨second, hsecond, h₃⟩ := bind_eq_ok_iff.1 h₂
    obtain ⟨third, hthird, h₄⟩ := bind_eq_ok_iff.1 h₃
    obtain ⟨fourth, hfourth, h₅⟩ := bind_eq_ok_iff.1 h₄
    obtain ⟨-, rfl⟩ := prefixed_eq_ok_iff.1 hfirst
    obtain ⟨-, rfl⟩ := prefixed_eq_ok_iff.1 hsecond
    obtain ⟨-, rfl⟩ := prefixed_eq_ok_iff.1 hthird
    obtain ⟨-, rfl⟩ := prefixed_eq_ok_iff.1 hfourth
    cases h₅
    split at hall
    · rename_i hle
      cases hall
      refine ⟨ownership, hownership, ?_, hle⟩
      simp only [layout, List.append_assoc]
    · cases hall
  · rintro ⟨ownership, hownership, rfl, hle⟩
    have hlength := hle
    rw [length_layout] at hlength
    have hfields := fields_of_le hownership (by omega) (by omega) (by omega)
    rw [encode, bind_eq_ok_iff]
    exact ⟨_, hfields, by rw [if_pos hle]; rfl⟩

theorem length_le_maxField {leaf : Leaf} {bytes : Bytes} (h : leaf.encode = .ok bytes) :
    bytes.length ≤ maxField := by
  obtain ⟨-, -, -, hle⟩ := encode_eq_ok_iff.1 h
  exact hle

theorem decode_encode {leaf : Leaf} {bytes : Bytes} (h : leaf.encode = .ok bytes) :
    decode bytes = .ok leaf := by
  obtain ⟨ownership, hownership, rfl, hle⟩ := encode_eq_ok_iff.1 h
  rw [length_layout] at hle
  have hlast : Reader.prefixed (bigEndian 2 leaf.publicData.length ++ leaf.publicData) =
      .ok leaf.publicData [] := by
    have hpublic : leaf.publicData.length ≤ maxField := by omega
    have happend := Reader.prefixed_append hpublic []
    rwa [List.append_nil] at happend
  apply decodeAll_of_ok
  rw [reader, layout, bind_of_ok (Timestamp.reader_append _ _),
    bind_of_ok (nested_append (by omega) (Ownership.decode_encode hownership) _),
    bind_of_ok (Reader.prefixed_append (by omega) _),
    bind_of_ok (Reader.prefixed_append (by omega) _), bind_of_ok hlast]
  rfl

/-- The bytes of a leaf determine every field of it. -/
theorem encode_inj {leaf leaf' : Leaf} {bytes : Bytes} (h : leaf.encode = .ok bytes)
    (h' : leaf'.encode = .ok bytes) : leaf = leaf' := by
  have hread := decode_encode h
  rw [decode_encode h'] at hread
  cases hread
  rfl

end Leaf

/-! ## Inclusion proofs -/

namespace InclusionProof

/-- A proof with few enough hashes has bytes when its leaf does. -/
theorem encode_of_leaf {p : InclusionProof} {leaf : Bytes} (hleaf : p.leaf.encode = .ok leaf)
    (hhashes : p.hashes.length ≤ maxHashes) :
    p.encode = .ok ((bigEndian 2 p.head.encode.length ++ p.head.encode) ++
      (word64 p.index ++ ((bigEndian 2 leaf.length ++ leaf) ++
        (bigEndian 2 p.hashes.length ++ p.hashes.flatMap Octets.toBytes)))) := by
  have hhead : p.head.encode.length ≤ maxField :=
    Nat.le_trans (TreeHead.length_encode_le _) (by decide)
  rw [encode, if_neg (Nat.not_lt.2 hhashes)]
  show (p.leaf.encode >>= _) = _
  rw [hleaf]
  show (OwnershipLog.prefixed p.head.encode >>= _) = _
  rw [prefixed_of_le hhead]
  show (OwnershipLog.prefixed leaf >>= _) = _
  rw [prefixed_of_le (Leaf.length_le_maxField hleaf)]
  rfl

theorem length_hashes_of_encode {p : InclusionProof} {bytes : Bytes} (h : p.encode = .ok bytes) :
    p.hashes.length ≤ maxHashes := by
  rw [encode] at h
  split at h
  · cases h
  · rename_i hle
    exact Nat.not_lt.1 hle

theorem leaf_of_encode {p : InclusionProof} {bytes : Bytes} (h : p.encode = .ok bytes) :
    ∃ leaf, p.leaf.encode = .ok leaf := by
  rw [encode, if_neg (Nat.not_lt.2 (length_hashes_of_encode h))] at h
  obtain ⟨leaf, hleaf, -⟩ := bind_eq_ok_iff.1 h
  exact ⟨leaf, hleaf⟩

theorem length_flatMap_toBytes (ds : List Digest) :
    (ds.flatMap Octets.toBytes).length = 32 * ds.length := by
  induction ds with
  | nil => rfl
  | cons d ds ih =>
      rw [List.flatMap_cons, List.length_append, d.length_toBytes, ih, List.length_cons]
      omega

theorem decode_encode {p : InclusionProof} {bytes : Bytes} (h : p.encode = .ok bytes) :
    decode bytes = .ok p := by
  have hhashes := length_hashes_of_encode h
  obtain ⟨leaf, hleaf⟩ := leaf_of_encode h
  rw [encode_of_leaf hleaf hhashes] at h
  cases h
  have hhead : p.head.encode.length ≤ maxField :=
    Nat.le_trans (TreeHead.length_encode_le _) (by decide)
  have hcount : p.hashes.length < 256 ^ 2 := by unfold maxHashes at hhashes; omega
  have hdigests : digests p.hashes.length (p.hashes.flatMap Octets.toBytes) = .ok p.hashes [] := by
    have happend := digests_append p.hashes []
    rwa [List.append_nil] at happend
  apply decodeAll_of_ok
  rw [reader, bind_of_ok (nested_append hhead (TreeHead.decode_encode _) _),
    bind_of_ok (word_append _ _),
    bind_of_ok (nested_append (Leaf.length_le_maxField hleaf) (Leaf.decode_encode hleaf) _),
    bind_of_ok (number_append hcount _), bind_of_ok (remaining_apply _), length_flatMap_toBytes,
    if_neg (by simp)]
  show (digests _ >>= _) _ = _
  rw [bind_of_ok hdigests]
  rfl

end InclusionProof

end OwnershipLog
