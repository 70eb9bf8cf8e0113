import OwnershipLog.Proofs.Wire.RoundTrip

/-!
# What a reader takes

Each `_ok_iff` says from which bytes, and from no others, a field is read, and what is left
then: the bytes are those that the field is written as. A sequence of readers takes the
bytes of the first and then those of the second (`bind_ok_iff`), so what an artifact is
read from follows field by field.
-/

namespace OwnershipLog

namespace Reader

variable {α β : Type} {input left : Bytes}

theorem bind_ok_iff {first : Reader α} {next : α → Reader β} {b : β} :
    (first >>= next) input = .ok b left ↔
      ∃ a rest, first input = .ok a rest ∧ next a rest = .ok b left := by
  cases hfirst : first input with
  | ok a rest =>
      rw [bind_of_ok hfirst]
      constructor
      · intro hnext
        exact ⟨a, rest, rfl, hnext⟩
      · rintro ⟨a', rest', heq, hnext⟩
        cases heq
        exact hnext
  | error e rest =>
      rw [bind_of_error hfirst]
      constructor
      · intro h
        cases h
      · rintro ⟨a, rest', heq, -⟩
        cases heq

theorem pure_ok_iff {a b : α} :
    (pure a : Reader α) input = .ok b left ↔ a = b ∧ input = left := by
  rw [pure_apply, EStateM.Result.ok.injEq]

theorem byte_ok_iff {b : UInt8} : byte input = .ok b left ↔ input = b :: left := by
  cases input with
  | nil => simp [byte]
  | cons b' rest => simp [byte]

theorem exact_ok_iff {n : Nat} {field : Octets n} :
    exact n input = .ok field left ↔ input = field.toBytes ++ left := by
  constructor
  · intro h
    unfold exact at h
    split at h
    · cases h
      exact (List.take_append_drop n input).symm
    · cases h
  · rintro rfl
    exact exact_append field left

theorem number_ok_iff {width n : Nat} :
    number width input = .ok n left ↔ n < 256 ^ width ∧ input = bigEndian width n ++ left := by
  constructor
  · intro h
    obtain ⟨field, rest, hfield, hpure⟩ := bind_ok_iff.1 h
    obtain ⟨rfl, rfl⟩ := pure_ok_iff.1 hpure
    have hlt := ofBigEndian_lt field.toBytes
    have hback := bigEndian_ofBigEndian field.toBytes
    rw [field.length_toBytes] at hlt hback
    refine ⟨hlt, ?_⟩
    rw [hback]
    exact exact_ok_iff.1 hfield
  · rintro ⟨hlt, rfl⟩
    exact number_append hlt left

theorem word_ok_iff {x : UInt64} : word input = .ok x left ↔ input = word64 x ++ left := by
  constructor
  · intro h
    obtain ⟨n, rest, hnumber, hpure⟩ := bind_ok_iff.1 h
    obtain ⟨rfl, rfl⟩ := pure_ok_iff.1 hpure
    obtain ⟨hlt, rfl⟩ := number_ok_iff.1 hnumber
    have hn : n.toUInt64.toNat = n := Nat.mod_eq_of_lt hlt
    rw [word64, hn]
  · rintro rfl
    exact word_append x left

theorem prefixed_ok_iff {field : Bytes} :
    Reader.prefixed input = .ok field left ↔
      field.length ≤ maxField ∧ input = bigEndian 2 field.length ++ field ++ left := by
  constructor
  · intro h
    obtain ⟨n, rest, hnumber, hfield⟩ := bind_ok_iff.1 h
    obtain ⟨octets, rest', hexact, hpure⟩ := bind_ok_iff.1 hfield
    obtain ⟨rfl, rfl⟩ := pure_ok_iff.1 hpure
    obtain ⟨hlt, rfl⟩ := number_ok_iff.1 hnumber
    obtain rfl := exact_ok_iff.1 hexact
    rw [octets.length_toBytes]
    refine ⟨?_, (List.append_assoc ..).symm⟩
    unfold maxField
    omega
  · rintro ⟨hle, rfl⟩
    exact Reader.prefixed_append hle left

theorem nested_ok_iff {artifact : Bytes → Except WireError α} {a : α} :
    nested artifact input = .ok a left ↔
      ∃ field, field.length ≤ maxField ∧ artifact field = .ok a ∧
        input = bigEndian 2 field.length ++ field ++ left := by
  constructor
  · intro h
    obtain ⟨field, rest, hprefixed, hartifact⟩ := bind_ok_iff.1 h
    obtain ⟨hle, rfl⟩ := prefixed_ok_iff.1 hprefixed
    cases hfield : artifact field with
    | error e =>
        rw [hfield] at hartifact
        cases hartifact
    | ok a' =>
        rw [hfield] at hartifact
        cases hartifact
        exact ⟨field, hle, hfield, rfl⟩
  · rintro ⟨field, hle, hfield, rfl⟩
    exact nested_append hle hfield left

theorem finish_ok_iff : finish input = .ok () left ↔ input = [] ∧ left = [] := by
  cases input with
  | nil => simp [finish, eq_comm]
  | cons b rest => simp [finish]

theorem digestsOnto_ok_iff {n : Nat} {found ds : List Digest} :
    digestsOnto n found input = .ok ds left ↔
      ∃ more : List Digest, more.length = n ∧ ds = found.reverse ++ more ∧
        input = more.flatMap Octets.toBytes ++ left := by
  constructor
  · intro h
    induction n generalizing found input with
    | zero =>
        obtain ⟨rfl, rfl⟩ := pure_ok_iff.1 h
        exact ⟨[], rfl, (List.append_nil _).symm, rfl⟩
    | succ n ih =>
        obtain ⟨d, rest, hdigest, hmore⟩ := bind_ok_iff.1 h
        obtain rfl := exact_ok_iff.1 hdigest
        obtain ⟨more, rfl, rfl, rfl⟩ := ih hmore
        exact ⟨d :: more, rfl, by simp, by simp⟩
  · rintro ⟨more, rfl, rfl, rfl⟩
    exact digestsOnto_append more found left

theorem digests_ok_iff {n : Nat} {ds : List Digest} :
    digests n input = .ok ds left ↔
      ds.length = n ∧ input = ds.flatMap Octets.toBytes ++ left := by
  rw [digests, digestsOnto_ok_iff]
  constructor
  · rintro ⟨more, hlength, rfl, rfl⟩
    exact ⟨hlength, rfl⟩
  · rintro ⟨hlength, rfl⟩
    exact ⟨ds, hlength, rfl, rfl⟩

theorem decode_ok_iff {reader : Reader α} {a : α} :
    decode reader input = .ok a ↔ ∃ left, reader input = .ok a left := by
  rw [decode]
  cases reader input with
  | ok a' rest => simp
  | error e rest => simp

/-- A reader that must consume its input accepts what it reads with nothing left. -/
theorem decodeAll_ok_iff {reader : Reader α} {a : α} :
    decodeAll reader input = .ok a ↔ reader input = .ok a [] := by
  constructor
  · intro h
    obtain ⟨left, hread⟩ := decode_ok_iff.1 h
    obtain ⟨a', rest, hreader, hfinish⟩ := bind_ok_iff.1 hread
    obtain ⟨u, rest', hend, hpure⟩ := bind_ok_iff.1 hfinish
    obtain ⟨rfl, rfl⟩ := pure_ok_iff.1 hpure
    obtain ⟨rfl, -⟩ := finish_ok_iff.1 hend
    exact hreader
  · exact decodeAll_of_ok

end Reader

end OwnershipLog
