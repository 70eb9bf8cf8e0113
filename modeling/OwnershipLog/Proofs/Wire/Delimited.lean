import OwnershipLog.Proofs.Wire.Spelling

/-!
# Strings that delimit themselves

A reader `Takes` some bytes when it reads the same from them whatever follows, and finds
every proper prefix of them too short. It `Delimits` what it reads if it takes exactly the
bytes that it consumes. Fields do, and a sequence of readers that do is one that does, a
nested artifact included: its bytes are all there before it is looked at. So a string that
a strict decoder accepts tells its own end (`SelfDelimiting`).

Two formats end otherwise. A proof announces its hashes by their count, and the bytes after
the count are measured before one is read. A head has a signature or none, and the length
alone tells which.
-/

namespace OwnershipLog

namespace Reader

variable {α β : Type}

/-- The reader makes `a` of these bytes whatever follows them, and finds each proper prefix of them
too short. -/
structure Takes (reader : Reader α) (taken : Bytes) (a : α) : Prop where
  append : ∀ tail, reader (taken ++ tail) = .ok a tail
  short : ∀ cut, cut <+: taken → cut ≠ taken → ∃ left, reader cut = .error .short left

/-- Whatever the reader consumes, it takes. -/
def Delimits (reader : Reader α) : Prop :=
  ∀ input a left, reader input = .ok a left → ∃ taken, input = taken ++ left ∧ reader.Takes taken a

/-- What is cut off inside the first field is too short for the sequence. -/
theorem Takes.short_bind {first : Reader α} {taken : Bytes} {a : α} (h : first.Takes taken a)
    (next : α → Reader β) {cut : Bytes} (hcut : cut <+: taken) (hne : cut ≠ taken) :
    ∃ left, (first >>= next) cut = .error .short left := by
  obtain ⟨left, hshort⟩ := h.short cut hcut hne
  exact ⟨left, bind_of_error hshort⟩

theorem Takes.bind {first : Reader α} {next : α → Reader β} {taken taken' : Bytes} {a : α} {b : β}
    (h : first.Takes taken a) (h' : (next a).Takes taken' b) :
    (first >>= next).Takes (taken ++ taken') b where
  append tail := by rw [List.append_assoc, bind_of_ok (h.append _), h'.append]
  short cut hcut hne := by
    rcases List.prefix_or_prefix_of_prefix hcut (List.prefix_append taken taken') with
      hinside | ⟨rest, rfl⟩
    · by_cases hwhole : cut = taken
      · -- the cut is between the two fields
        subst hwhole
        have hnil : [] ≠ taken' := by
          rintro rfl
          exact hne (List.append_nil _).symm
        obtain ⟨left, hshort⟩ := h'.short [] List.nil_prefix hnil
        refine ⟨left, ?_⟩
        rw [← hshort, ← List.append_nil cut, bind_of_ok (h.append [])]
      · exact h.short_bind next hinside hwhole
    · rw [List.prefix_append_right_inj] at hcut
      obtain ⟨left, hshort⟩ := h'.short rest hcut fun heq => hne (by rw [heq])
      exact ⟨left, by rw [bind_of_ok (h.append rest), hshort]⟩

theorem Delimits.bind {first : Reader α} {next : α → Reader β} (h : first.Delimits)
    (hnext : ∀ a, (next a).Delimits) : (first >>= next).Delimits := by
  intro input b left hread
  obtain ⟨a, rest, hfirst, hrest⟩ := bind_ok_iff.1 hread
  obtain ⟨taken, rfl, htaken⟩ := h _ _ _ hfirst
  obtain ⟨taken', rfl, htaken'⟩ := hnext a _ _ _ hrest
  exact ⟨taken ++ taken', (List.append_assoc ..).symm, htaken.bind htaken'⟩

theorem delimits_pure (a : α) : Delimits (pure a) := by
  intro input b left hread
  obtain ⟨rfl, rfl⟩ := pure_ok_iff.1 hread
  exact ⟨[], rfl, fun tail => rfl, fun cut hcut hne => absurd (List.prefix_nil.1 hcut) hne⟩

theorem delimits_throw (e : WireError) : Delimits (throw e : Reader α) := by
  intro input a left hread
  cases hread

theorem delimits_throw_bind (e : WireError) (next : α → Reader β) :
    Delimits (throw e >>= next) := by
  intro input b left hread
  cases hread

/-! ## Fields -/

theorem takes_exact {n : Nat} (field : Octets n) : (exact n).Takes field.toBytes field where
  append := exact_append field
  short cut hcut hne := by
    have hlt : cut.length < n := by
      rw [← field.length_toBytes]
      exact Nat.lt_of_le_of_ne hcut.length_le fun hlength => hne (hcut.eq_of_length hlength)
    refine ⟨cut, ?_⟩
    rw [exact, dif_neg (by rw [List.length_take]; omega)]

theorem delimits_exact (n : Nat) : (exact n).Delimits := by
  intro input field left hread
  exact ⟨field.toBytes, exact_ok_iff.1 hread, takes_exact field⟩

theorem delimits_byte : byte.Delimits := by
  intro input b left hread
  refine ⟨[b], byte_ok_iff.1 hread, byte_cons b, ?_⟩
  intro cut hcut hne
  rcases List.prefix_cons_iff.1 hcut with rfl | ⟨rest, rfl, hrest⟩
  · exact ⟨[], rfl⟩
  · rw [List.prefix_nil.1 hrest] at hne
    exact absurd rfl hne

theorem delimits_number (width : Nat) : (number width).Delimits :=
  (delimits_exact width).bind fun _ => delimits_pure _

theorem delimits_word : word.Delimits := (delimits_number 8).bind fun _ => delimits_pure _

theorem delimits_prefixed : Reader.prefixed.Delimits :=
  (delimits_number 2).bind fun n => (delimits_exact n).bind fun _ => delimits_pure _

/-- A nested artifact is looked at once all its bytes are there. -/
theorem delimits_nested (artifact : Bytes → Except WireError α) : (nested artifact).Delimits := by
  refine delimits_prefixed.bind fun field => ?_
  cases artifact field with
  | ok a => exact delimits_pure a
  | error e => exact delimits_throw e

/-! ## Whole strings -/

theorem decodeAll_of_error {reader : Reader α} {input left : Bytes} {e : WireError}
    (h : reader input = .error e left) : decodeAll reader input = .error e := by
  rw [decodeAll, decode, bind_of_error h]

theorem decodeAll_of_left {reader : Reader α} {input left : Bytes} {a : α}
    (h : reader input = .ok a left) (hne : left ≠ []) :
    decodeAll reader input = .error .trailing := by
  have hfinish : finish left = .error .trailing left := by
    rw [finish, if_neg (by simpa using hne)]
  rw [decodeAll, decode, bind_of_ok h, bind_of_error hfinish]

end Reader

/-- Of an accepted string every proper prefix is too short, and in every proper extension bytes are
left. -/
structure SelfDelimiting {α : Type} (decode : Bytes → Except WireError α) : Prop where
  short_of_cut : ∀ bytes a, decode bytes = .ok a →
    ∀ cut, cut <+: bytes → cut ≠ bytes → decode cut = .error .short
  trailing_of_append : ∀ bytes a, decode bytes = .ok a →
    ∀ more, more ≠ [] → decode (bytes ++ more) = .error .trailing

open Reader

theorem Reader.Delimits.decodeAll {α : Type} {reader : Reader α} (h : reader.Delimits) :
    SelfDelimiting (decodeAll reader) where
  short_of_cut bytes a hdecode cut hcut hne := by
    obtain ⟨taken, htaken, htakes⟩ := h _ _ _ (decodeAll_ok_iff.1 hdecode)
    rw [List.append_nil] at htaken
    subst htaken
    obtain ⟨left, hshort⟩ := htakes.short cut hcut hne
    exact decodeAll_of_error hshort
  trailing_of_append bytes a hdecode more hne := by
    obtain ⟨taken, htaken, htakes⟩ := h _ _ _ (decodeAll_ok_iff.1 hdecode)
    rw [List.append_nil] at htaken
    subst htaken
    exact decodeAll_of_left (htakes.append more) hne

/-! ## Instants, ownerships and leaves -/

theorem Timestamp.delimits_reader : Timestamp.reader.Delimits := by
  refine delimits_byte.bind fun v => ?_
  split
  · exact delimits_throw_bind _ _
  · refine delimits_word.bind fun seconds => (delimits_number 4).bind fun nanos =>
      (delimits_exact 2).bind fun _ => ?_
    split
    · exact delimits_pure _
    · exact delimits_throw _

theorem Ownership.delimits_reader : Ownership.reader.Delimits := by
  refine (delimits_exact 32).bind fun _ => (delimits_number 1).bind fun n =>
    (delimits_exact n).bind fun field => ?_
  cases text? field.toBytes with
  | none => exact delimits_throw _
  | some name => exact delimits_pure _

theorem SignedOwnership.delimits_reader : SignedOwnership.reader.Delimits :=
  Timestamp.delimits_reader.bind fun _ => Ownership.delimits_reader.bind fun _ =>
    (delimits_exact 64).bind fun _ => delimits_pure _

theorem Leaf.delimits_reader : Leaf.reader.Delimits :=
  Timestamp.delimits_reader.bind fun _ => (delimits_nested _).bind fun _ =>
    delimits_prefixed.bind fun _ => delimits_prefixed.bind fun _ =>
      delimits_prefixed.bind fun _ => delimits_pure _

/-! ## Proofs and heads -/

namespace InclusionProof

/-- What a proof holds before its hashes, and how many hashes it announces. -/
def opening : Reader ((List Digest → InclusionProof) × Nat) := do
  let head ← nested TreeHead.decode
  let index ← word
  let leaf ← nested Leaf.decode
  let count ← number 2
  return (fun hashes => ⟨head, index, leaf, hashes⟩, count)

theorem delimits_opening : opening.Delimits :=
  (delimits_nested _).bind fun _ => delimits_word.bind fun _ => (delimits_nested _).bind fun _ =>
    (delimits_number 2).bind fun _ => delimits_pure _

/-- The hashes of a proof that announces `count` of them. -/
def announced (count : Nat) : Reader (List Digest) := do
  let left ← remaining
  if left ≠ 32 * count then throw (.invalidLength (32 * count) left)
  digests count

theorem reader_eq_opening :
    reader = opening >>= fun (close, count) =>
      announced count >>= fun hashes => pure (close hashes) := by
  simp only [reader, opening, announced, bind_assoc, pure_bind]
  refine bind_congr fun head => bind_congr fun index => bind_congr fun leaf =>
    bind_congr fun count => bind_congr fun left => ?_
  split
  · rfl
  · rfl

/-- The count is the last that is read before the hashes. -/
theorem opening_ok {input left : Bytes} {close : List Digest → InclusionProof} {count : Nat}
    (h : opening input = .ok (close, count) left) :
    bigEndian 2 count ++ left <:+ input ∧ ∀ hashes, (close hashes).hashes = hashes := by
  obtain ⟨head, rest₁, hhead, h₁⟩ := bind_ok_iff.1 h
  obtain ⟨index, rest₂, hindex, h₂⟩ := bind_ok_iff.1 h₁
  obtain ⟨leaf, rest₃, hleaf, h₃⟩ := bind_ok_iff.1 h₂
  obtain ⟨n, rest₄, hcount, hpure⟩ := bind_ok_iff.1 h₃
  obtain ⟨heq, rfl⟩ := pure_ok_iff.1 hpure
  cases heq
  obtain ⟨first, rfl, -⟩ := delimits_nested _ _ _ _ hhead
  obtain ⟨second, rfl, -⟩ := delimits_word _ _ _ hindex
  obtain ⟨third, rfl, -⟩ := delimits_nested _ _ _ _ hleaf
  obtain ⟨-, rfl⟩ := number_ok_iff.1 hcount
  exact ⟨⟨first ++ (second ++ third), by simp⟩, fun hashes => rfl⟩

theorem announced_ok {count : Nat} {input left : Bytes} {hashes : List Digest}
    (h : announced count input = .ok hashes left) :
    hashes.length = count ∧ input = hashes.flatMap Octets.toBytes ++ left := by
  rw [announced, bind_of_ok (remaining_apply input)] at h
  split at h
  · cases h
  · exact digests_ok_iff.1 h

/-- An accepted proof is its opening, which ends with the count, and then the hashes. -/
theorem exists_opening_of_decode {bytes : Bytes} {p : InclusionProof} (h : decode bytes = .ok p) :
    ∃ front close, opening.Takes front (close, p.hashes.length) ∧
      bigEndian 2 p.hashes.length <:+ front ∧ bytes = front ++ p.hashes.flatMap Octets.toBytes := by
  rw [decode, decodeAll_ok_iff, reader_eq_opening] at h
  obtain ⟨⟨close, count⟩, tail, hopening, hrest⟩ := bind_ok_iff.1 h
  obtain ⟨hashes, rest, hannounced, hpure⟩ := bind_ok_iff.1 hrest
  obtain ⟨rfl, rfl⟩ := pure_ok_iff.1 hpure
  obtain ⟨rfl, rfl⟩ := announced_ok hannounced
  obtain ⟨front, rfl, htakes⟩ := delimits_opening _ _ _ hopening
  obtain ⟨hsuffix, hhashes⟩ := opening_ok (htakes.append [])
  rw [List.append_nil, List.append_nil] at hsuffix
  exact ⟨front, close, by rwa [hhashes], by rwa [hhashes], by rw [hhashes, List.append_nil]⟩

/-- Bytes after the count that are not the announced hashes are measured, not read. -/
theorem decode_of_length_ne {front tail : Bytes} {close : List Digest → InclusionProof}
    {count : Nat} (hfront : opening.Takes front (close, count)) (hne : tail.length ≠ 32 * count) :
    decode (front ++ tail) = .error (.invalidLength (32 * count) tail.length) := by
  have hannounced :
      announced count tail = .error (.invalidLength (32 * count) tail.length) tail := by
    rw [announced, bind_of_ok (remaining_apply tail), if_pos hne]
    rfl
  have hread : reader (front ++ tail) = .error (.invalidLength (32 * count) tail.length) tail := by
    rw [reader_eq_opening, bind_of_ok (hfront.append tail)]
    exact bind_of_error hannounced
  exact decodeAll_of_error hread

/-- A cut before the hashes is too short; one inside them leaves other bytes than were announced. -/
theorem decode_of_cut {bytes cut : Bytes} {p : InclusionProof} (h : decode bytes = .ok p)
    (hcut : cut <+: bytes) (hne : cut ≠ bytes) :
    decode cut = .error .short ∨
      ∃ got, decode cut = .error (.invalidLength (32 * p.hashes.length) got) := by
  obtain ⟨front, close, htakes, -, rfl⟩ := exists_opening_of_decode h
  have hafter : ∀ tail, cut = front ++ tail →
      decode cut = .error (.invalidLength (32 * p.hashes.length) tail.length) := by
    rintro tail rfl
    rw [List.prefix_append_right_inj] at hcut
    apply decode_of_length_ne htakes
    rw [← length_flatMap_toBytes]
    exact fun hlength => hne (by rw [hcut.eq_of_length hlength])
  rcases List.prefix_or_prefix_of_prefix hcut (List.prefix_append front _) with
    hinside | ⟨tail, hbeyond⟩
  · by_cases hwhole : cut = front
    · exact Or.inr ⟨_, hafter [] (by rw [hwhole, List.append_nil])⟩
    · obtain ⟨left, hshort⟩ := htakes.short_bind _ hinside hwhole
      rw [← reader_eq_opening] at hshort
      exact Or.inl (decodeAll_of_error hshort)
  · exact Or.inr ⟨_, hafter tail hbeyond.symm⟩

end InclusionProof

/-- A head takes 55 bytes, or 119 with its signature. -/
theorem TreeHead.length_of_decode {bytes : Bytes} {h : TreeHead} (hdecode : decode bytes = .ok h) :
    bytes.length = 55 ∨ bytes.length = 119 := by
  obtain ⟨zone, rfl⟩ := decode_eq_ok_iff.1 hdecode
  rw [length_spelled, tail, List.length_append, h.root.length_toBytes]
  cases h.signature with
  | none => exact Or.inl rfl
  | some signature =>
      right
      rw [signatureBytes, signature.length_toBytes]

/-! ## All formats -/

/-- Whatever string a format accepts, not only what is written in it, no proper prefix and no
proper extension of the string is accepted; but a head without a signature is the front of signed
ones. -/
theorem accepted_strings_delimit_themselves :
    SelfDelimiting Timestamp.decode ∧ SelfDelimiting Ownership.decode ∧
    SelfDelimiting SignedOwnership.decode ∧ SelfDelimiting Leaf.decode ∧
    (∀ bytes p, InclusionProof.decode bytes = .ok p →
      (∀ cut, cut <+: bytes → cut ≠ bytes → InclusionProof.decode cut = .error .short ∨
        ∃ expected got, InclusionProof.decode cut = .error (.invalidLength expected got)) ∧
      ∃ front, bigEndian 2 p.hashes.length <:+ front ∧
        bytes = front ++ p.hashes.flatMap Octets.toBytes ∧ ∀ more, more ≠ [] →
        InclusionProof.decode (bytes ++ more) =
          .error (.invalidLength (32 * p.hashes.length) ((bytes ++ more).length - front.length))) ∧
    ∀ bytes bytes' h h', TreeHead.decode bytes = .ok h → TreeHead.decode bytes' = .ok h' →
      bytes <+: bytes' → bytes ≠ bytes' → bytes.length = 55 ∧ bytes'.length = 119 := by
  refine ⟨Timestamp.delimits_reader.decodeAll, Ownership.delimits_reader.decodeAll,
    SignedOwnership.delimits_reader.decodeAll, Leaf.delimits_reader.decodeAll, ?_, ?_⟩
  · intro bytes p h
    refine ⟨fun cut hcut hne => ?_, ?_⟩
    · rcases InclusionProof.decode_of_cut h hcut hne with hshort | ⟨got, hlength⟩
      · exact Or.inl hshort
      · exact Or.inr ⟨_, got, hlength⟩
    · obtain ⟨front, close, htakes, hcount, rfl⟩ := InclusionProof.exists_opening_of_decode h
      refine ⟨front, hcount, rfl, fun more hmore => ?_⟩
      have hmany : 0 < more.length := List.length_pos_iff.2 hmore
      have hlength : (p.hashes.flatMap Octets.toBytes ++ more).length ≠ 32 * p.hashes.length := by
        rw [List.length_append, InclusionProof.length_flatMap_toBytes]
        omega
      rw [List.append_assoc, InclusionProof.decode_of_length_ne htakes hlength]
      simp only [List.length_append, Nat.add_sub_cancel_left]
  · intro bytes bytes' h h' hdecode hdecode' hfront hne
    have hlt : bytes.length < bytes'.length :=
      Nat.lt_of_le_of_ne hfront.length_le fun hlength => hne (hfront.eq_of_length hlength)
    have hlength := TreeHead.length_of_decode hdecode
    have hlength' := TreeHead.length_of_decode hdecode'
    omega

/-- A proof with one hash. -/
def InclusionProof.oneHash : InclusionProof :=
  ⟨⟨2, Timestamp.epoch, Digest.zero, none⟩, 0,
    ⟨Timestamp.epoch, ⟨Digest.zero, "ada"⟩, [], [], []⟩, [Digest.zero]⟩

/-- It loses its last byte, or has one more behind it; so has its leaf. -/
theorem accepted_strings_delimit_themselves_oneHash :
    ∃ bytes leaf, InclusionProof.oneHash.encode = .ok bytes ∧
      InclusionProof.oneHash.leaf.encode = .ok leaf ∧
      (InclusionProof.decode bytes.dropLast = .error .short ∨
        ∃ expected got, InclusionProof.decode bytes.dropLast =
          .error (.invalidLength expected got)) ∧
      (∃ got, InclusionProof.decode (bytes ++ [0]) = .error (.invalidLength 32 got)) ∧
      Leaf.decode (leaf ++ [0]) = .error .trailing := by
  obtain ⟨leaf, hleaf⟩ : ∃ leaf, InclusionProof.oneHash.leaf.encode = .ok leaf :=
    (Leaf.exists_encode_iff _).2 (by decide)
  obtain ⟨bytes, hbytes⟩ : ∃ bytes, InclusionProof.oneHash.encode = .ok bytes :=
    (InclusionProof.exists_encode_iff _).2 ⟨by decide, leaf, hleaf⟩
  obtain ⟨-, -, -, hleaves, hproofs, -⟩ := accepted_strings_delimit_themselves
  obtain ⟨hcut, front, -, hfront, hmore⟩ := hproofs _ _ (InclusionProof.decode_encode hbytes)
  have hlength : bytes.length = front.length + 32 := by
    rw [hfront, List.length_append, InclusionProof.length_flatMap_toBytes]
    rfl
  have hne : bytes.dropLast ≠ bytes := by
    intro heq
    have hshorter := congrArg List.length heq
    rw [List.length_dropLast] at hshorter
    omega
  exact ⟨bytes, leaf, hbytes, hleaf, hcut _ (List.dropLast_prefix _) hne,
    ⟨_, hmore [0] (by simp)⟩,
    hleaves.trailing_of_append _ _ (Leaf.decode_encode hleaf) [0] (by simp)⟩

end OwnershipLog
