import OwnershipLog.Proofs.Wire.Domain
import OwnershipLog.Proofs.Wire.Reading

/-!
# One spelling for each value

The zone offset of an instant is ignored when it is read. Beside the offset the formats
leave no choice: a value and the offsets of its instants determine the bytes it is read
from (`decode_eq_ok_iff` for each format), so bytes that were accepted are those that are
written again, up to the offsets (`OneSpelling`). `AgreeOutside` compares byte strings
position by position, away from the offsets.
-/

namespace OwnershipLog

/-! ## Agreeing away from some positions -/

/-- Two byte strings of one length have the same bytes at all positions but these. -/
def AgreeOutside (positions : List Nat) (b b' : Bytes) : Prop :=
  b.length = b'.length ∧ ∀ i, i ∉ positions → b[i]? = b'[i]?

theorem agreeOutside_nil_iff {b b' : Bytes} : AgreeOutside [] b b' ↔ b' = b := by
  constructor
  · rintro ⟨-, hsame⟩
    exact (List.ext_getElem? fun i => hsame i List.not_mem_nil).symm
  · rintro rfl
    exact ⟨rfl, fun _ _ => rfl⟩

/-- To agree outside two sets of positions is to change the bytes at one and then at the other. -/
theorem agreeOutside_append_iff {xs ys : List Nat} {b b' : Bytes} :
    AgreeOutside (xs ++ ys) b b' ↔ ∃ c, AgreeOutside xs b c ∧ AgreeOutside ys c b' := by
  constructor
  · rintro ⟨hlength, hsame⟩
    -- halfway stands `b` with the bytes of `b'` at the positions `xs`
    refine ⟨b.mapIdx fun i x => if i ∈ xs then b'.getD i 0 else x, ⟨by simp, ?_⟩, by simpa, ?_⟩
    · intro i hi
      simp [List.getElem?_mapIdx, hi]
    · intro i hi
      by_cases hx : i ∈ xs
      · rcases Nat.lt_or_ge i b.length with hlt | hge
        · simp [hx, hlt, hlength ▸ hlt]
        · rw [List.getElem?_eq_none (by simpa), List.getElem?_eq_none (by omega)]
      · rw [← hsame i (by simp [hx, hi])]
        simp [List.getElem?_mapIdx, hx]
  · rintro ⟨c, ⟨hlength, hsame⟩, hlength', hsame'⟩
    refine ⟨hlength.trans hlength', ?_⟩
    intro i hi
    rw [List.mem_append, not_or] at hi
    rw [hsame i hi.1, hsame' i hi.2]

/-- Away from a two-byte field the bytes before and after it are the same. -/
theorem agreeOutside_field_iff {front tail b : Bytes} {field : Octets 2} {n : Nat}
    (hn : front.length = n) :
    AgreeOutside [n, n + 1] (front ++ (field.toBytes ++ tail)) b ↔
      ∃ field' : Octets 2, b = front ++ (field'.toBytes ++ tail) := by
  subst hn
  have hfield := field.length_toBytes
  constructor
  · rintro ⟨hlength, hsame⟩
    simp only [List.length_append] at hlength
    have hmiddle : ((b.drop front.length).take 2).length = 2 := by
      rw [List.length_take, List.length_drop]
      omega
    have hfront : b.take front.length = front := by
      apply List.ext_getElem?
      intro i
      rcases Nat.lt_or_ge i front.length with hlt | hge
      · rw [List.getElem?_take_of_lt hlt, ← hsame i (by simp; omega),
          List.getElem?_append_left hlt]
      · rw [List.getElem?_eq_none (by rw [List.length_take]; omega), List.getElem?_eq_none hge]
    have htail : (b.drop front.length).drop 2 = tail := by
      apply List.ext_getElem?
      intro i
      rw [List.getElem?_drop, List.getElem?_drop, ← hsame _ (by simp; omega),
        List.getElem?_append_right (by omega), List.getElem?_append_right (by omega)]
      congr 1
      omega
    refine ⟨⟨_, hmiddle⟩, ?_⟩
    calc b = b.take front.length ++ b.drop front.length := (List.take_append_drop ..).symm
      _ = b.take front.length ++
          ((b.drop front.length).take 2 ++ (b.drop front.length).drop 2) := by
        rw [List.take_append_drop 2]
      _ = _ := by rw [hfront, htail]
  · rintro ⟨field', rfl⟩
    have hfield' := field'.length_toBytes
    refine ⟨by simp [hfield, hfield'], ?_⟩
    intro i hi
    simp only [List.mem_cons, List.not_mem_nil, or_false, not_or] at hi
    rcases Nat.lt_or_ge i front.length with hlt | hge
    · rw [List.getElem?_append_left hlt, List.getElem?_append_left hlt]
    · rw [List.getElem?_append_right hge, List.getElem?_append_right hge,
        List.getElem?_append_right (by omega), List.getElem?_append_right (by omega), hfield,
        hfield']

/-! ## One spelling -/

/-- What is written is accepted. Whatever is accepted is, away from the zone offsets, what is
written for its value, with minus one at the offsets; unless it is too long for that, which its
length then tells. And what else reads as the same value differs from it at the offsets only. -/
structure OneSpelling {α : Type} (encode : α → Except WireError Bytes)
    (decode : Bytes → Except WireError α) (offsets : Bytes → List Nat) (Short : Bytes → Prop) :
    Prop where
  decode_of_encode : ∀ a b, encode a = .ok b → decode b = .ok a
  encode_of_decode : ∀ b a, decode b = .ok a → Short b →
    ∃ again, encode a = .ok again ∧ AgreeOutside (offsets b) b again ∧
      ∀ i ∈ offsets b, again[i]? = some 0xFF
  tooLong_of_decode : ∀ b a, decode b = .ok a → ¬ Short b →
    encode a = .error (.tooLong b.length 65535)
  decode_eq_decode_iff : ∀ b a, decode b = .ok a →
    ∀ b', decode b' = decode b ↔ AgreeOutside (offsets b) b b'

/-- It is enough to know all spellings of a value, one for each choice `z` of the zone offsets. -/
theorem OneSpelling.of_spelled {α ζ : Type} {encode : α → Except WireError Bytes}
    {decode : Bytes → Except WireError α} {offsets : Bytes → List Nat} {Short : Bytes → Prop}
    (Fits : α → Prop) (spelled : ζ → α → Bytes) (marker : ζ)
    (hwritten : ∀ a b, encode a = .ok b → decode b = .ok a)
    (hdecode : ∀ b a, decode b = .ok a ↔ Fits a ∧ ∃ z, b = spelled z a)
    (hagree : ∀ a z b, Fits a → (AgreeOutside (offsets (spelled z a)) (spelled z a) b ↔
      ∃ z', b = spelled z' a))
    (hmarker : ∀ a z, Fits a → ∀ i ∈ offsets (spelled z a), (spelled marker a)[i]? = some 0xFF)
    (hencode : ∀ a z, Fits a → Short (spelled z a) → encode a = .ok (spelled marker a))
    (htooLong : ∀ a z, Fits a → ¬ Short (spelled z a) →
      encode a = .error (.tooLong (spelled z a).length 65535)) :
    OneSpelling encode decode offsets Short where
  decode_of_encode := hwritten
  encode_of_decode b a h hshort := by
    obtain ⟨hfits, z, rfl⟩ := (hdecode b a).1 h
    exact ⟨spelled marker a, hencode a z hfits hshort, (hagree a z _ hfits).2 ⟨marker, rfl⟩,
      hmarker a z hfits⟩
  tooLong_of_decode b a h hlong := by
    obtain ⟨hfits, z, rfl⟩ := (hdecode b a).1 h
    exact htooLong a z hfits hlong
  decode_eq_decode_iff b a h b' := by
    obtain ⟨hfits, z, rfl⟩ := (hdecode b a).1 h
    rw [h, hdecode, hagree a z b' hfits]
    exact and_iff_right hfits

open Timestamp (zoneMarker)

theorem getElem?_zoneMarker {front tail : Bytes} {n : Nat} (hn : front.length = n) :
    ∀ i ∈ [n, n + 1], (front ++ (zoneMarker.toBytes ++ tail))[i]? = some 0xFF := by
  subst hn
  intro i hi
  simp only [List.mem_cons, List.not_mem_nil, or_false] at hi
  rcases hi with rfl | rfl
  · rw [List.getElem?_append_right (Nat.le_refl _), Nat.sub_self]
    rfl
  · rw [List.getElem?_append_right (Nat.le_add_right _ _), Nat.add_sub_cancel_left]
    rfl

/-- A format with one instant in it, whose zone offset stands behind `n` bytes. -/
theorem OneSpelling.of_zone {α : Type} {encode : α → Except WireError Bytes}
    {decode : Bytes → Except WireError α} {Short : Bytes → Prop} (Fits : α → Prop)
    (front tail : α → Bytes) {n : Nat} (hn : ∀ a, (front a).length = n)
    (hwritten : ∀ a b, encode a = .ok b → decode b = .ok a)
    (hdecode : ∀ b a, decode b = .ok a ↔
      Fits a ∧ ∃ zone : Octets 2, b = front a ++ (zone.toBytes ++ tail a))
    (hencode : ∀ a (zone : Octets 2), Fits a → Short (front a ++ (zone.toBytes ++ tail a)) →
      encode a = .ok (front a ++ (zoneMarker.toBytes ++ tail a)))
    (htooLong : ∀ a (zone : Octets 2), Fits a → ¬ Short (front a ++ (zone.toBytes ++ tail a)) →
      encode a = .error (.tooLong (front a ++ (zone.toBytes ++ tail a)).length 65535)) :
    OneSpelling encode decode (fun _ => [n, n + 1]) Short :=
  .of_spelled Fits (fun (zone : Octets 2) a => front a ++ (zone.toBytes ++ tail a)) zoneMarker
    hwritten hdecode
    (fun a _ _ _ => agreeOutside_field_iff (hn a)) (fun a _ _ => getElem?_zoneMarker (hn a))
    hencode htooLong

/-! ## The formats -/

open Reader

namespace Timestamp

theorem ofUnix_ok_iff {secs : Int64} {nanos : UInt32} {t : Timestamp} :
    ofUnix secs nanos = .ok t ↔ t.secs = secs ∧ t.nanos = nanos := by
  constructor
  · intro h
    unfold ofUnix at h
    split at h
    · cases h
      exact ⟨rfl, rfl⟩
    · cases h
  · rintro ⟨rfl, rfl⟩
    exact ofUnix_self t

/-- An instant is read from its bytes with any zone offset, and from no others. -/
theorem reader_ok_iff {t : Timestamp} {input left : Bytes} :
    reader input = .ok t left ↔
      ∃ zone : Octets 2, input = t.front ++ (zone.toBytes ++ left) := by
  constructor
  · intro h
    obtain ⟨v, rest, hbyte, hversion⟩ := bind_ok_iff.1 h
    split at hversion
    · cases hversion
    · rename_i hv
      obtain ⟨x, rest₁, hword, hsecs⟩ := bind_ok_iff.1 hversion
      obtain ⟨n, rest₂, hnumber, hnanos⟩ := bind_ok_iff.1 hsecs
      obtain ⟨zone, rest₃, hzone, hunix⟩ := bind_ok_iff.1 hnanos
      obtain rfl := byte_ok_iff.1 hbyte
      obtain rfl := word_ok_iff.1 hword
      obtain ⟨hlt, rfl⟩ := number_ok_iff.1 hnumber
      obtain rfl := exact_ok_iff.1 hzone
      obtain rfl : v = version := Classical.not_not.1 hv
      cases hinstant : ofUnix (x.toInt64 - epochOffset) n.toUInt32 with
      | error e =>
          rw [hinstant] at hunix
          cases hunix
      | ok t' =>
          rw [hinstant] at hunix
          cases hunix
          obtain ⟨hsecs', hnanos'⟩ := ofUnix_ok_iff.1 hinstant
          have hx : (t.secs + epochOffset).toUInt64 = x := by simp [hsecs']
          have hn : t.nanos.toNat = n := by
            rw [hnanos']
            exact Nat.mod_eq_of_lt hlt
          exact ⟨zone, by simp [front, hx, hn]⟩
  · rintro ⟨zone, rfl⟩
    exact reader_front_append t zone left

theorem decode_eq_ok_iff {b : Bytes} {t : Timestamp} :
    decode b = .ok t ↔ ∃ zone : Octets 2, b = t.front ++ (zone.toBytes ++ []) := by
  rw [decode, decodeAll_ok_iff, reader_ok_iff]

theorem oneSpelling :
    OneSpelling (fun t => .ok (encode t)) decode (fun _ => [13, 14]) (fun _ => True) := by
  refine .of_zone (fun _ => True) front (fun _ => []) length_front ?_ ?_ ?_ ?_
  · intro t b h
    cases h
    exact decode_encode t
  · intro b t
    rw [decode_eq_ok_iff, true_and]
  · intro t zone _ _
    rfl
  · intro t zone _ hlong
    exact absurd trivial hlong

end Timestamp

namespace Ownership

/-- The bytes of an ownership, if its name is not too long. -/
def layout (o : Ownership) : Bytes :=
  o.contentHash.toBytes ++ bigEndian 1 (utf8 o.name).length ++ utf8 o.name

/-- An ownership is read from the bytes it is written as, and from no others. -/
theorem reader_ok_iff {o : Ownership} {input left : Bytes} :
    reader input = .ok o left ↔ o.encode = .ok o.layout ∧ input = o.layout ++ left := by
  constructor
  · intro h
    obtain ⟨contentHash, rest, hdigest, hlength⟩ := bind_ok_iff.1 h
    obtain ⟨n, rest₁, hnumber, hname⟩ := bind_ok_iff.1 hlength
    obtain ⟨field, rest₂, hfield, htext⟩ := bind_ok_iff.1 hname
    obtain rfl := exact_ok_iff.1 hdigest
    obtain ⟨hlt, rfl⟩ := number_ok_iff.1 hnumber
    obtain rfl := exact_ok_iff.1 hfield
    cases hutf8 : text? field.toBytes with
    | none =>
        rw [hutf8] at htext
        cases htext
    | some name =>
        rw [hutf8] at htext
        cases htext
        have hbytes := utf8_of_text? hutf8
        have hn : (utf8 name).length = n := by rw [hbytes, field.length_toBytes]
        refine ⟨encode_eq_ok_iff.2 ⟨?_, rfl⟩, ?_⟩
        · show (utf8 name).length ≤ maxName
          unfold maxName
          omega
        · simp [layout, hbytes, field.length_toBytes]
  · rintro ⟨hencode, rfl⟩
    exact reader_append hencode left

theorem decode_eq_ok_iff {b : Bytes} {o : Ownership} :
    decode b = .ok o ↔ o.encode = .ok o.layout ∧ b = o.layout := by
  rw [decode, decodeAll_ok_iff, reader_ok_iff, List.append_nil]

theorem oneSpelling : OneSpelling encode decode (fun _ => []) (fun _ => True) := by
  refine .of_spelled (fun o => o.encode = .ok o.layout) (fun (_ : Unit) o => o.layout) ()
    (fun _ _ => decode_encode) ?_ ?_ ?_ ?_ ?_
  · intro b o
    rw [decode_eq_ok_iff, exists_const]
  · intro o _ b _
    rw [agreeOutside_nil_iff, exists_const]
  · intro o _ _ i hi
    cases hi
  · intro o _ hencode _
    exact hencode
  · intro o _ _ hlong
    exact absurd trivial hlong

end Ownership

namespace SignedOwnership

theorem decode_eq_ok_iff {b : Bytes} {s : SignedOwnership} :
    decode b = .ok s ↔ s.ownership.encode = .ok s.ownership.layout ∧ ∃ zone : Octets 2,
      b = s.timestamp.front ++ (zone.toBytes ++ (s.ownership.layout ++ s.signature.toBytes)) := by
  rw [decode, decodeAll_ok_iff, reader]
  constructor
  · intro h
    obtain ⟨timestamp, rest, htimestamp, hownership⟩ := bind_ok_iff.1 h
    obtain ⟨o, rest₁, ho, hsignature⟩ := bind_ok_iff.1 hownership
    obtain ⟨signature, rest₂, hexact, hpure⟩ := bind_ok_iff.1 hsignature
    obtain ⟨rfl, rfl⟩ := pure_ok_iff.1 hpure
    obtain ⟨zone, rfl⟩ := Timestamp.reader_ok_iff.1 htimestamp
    obtain ⟨hencode, rfl⟩ := Ownership.reader_ok_iff.1 ho
    obtain rfl := exact_ok_iff.1 hexact
    exact ⟨hencode, zone, by rw [List.append_nil]⟩
  · rintro ⟨hencode, zone, rfl⟩
    have hsignature : exact 64 s.signature.toBytes = .ok s.signature [] :=
      exact_ok_iff.2 (List.append_nil _).symm
    rw [bind_of_ok (Timestamp.reader_front_append _ zone _),
      bind_of_ok (Ownership.reader_append hencode _), bind_of_ok hsignature]
    rfl

theorem oneSpelling : OneSpelling encode decode (fun _ => [13, 14]) (fun _ => True) := by
  refine .of_zone (fun s => s.ownership.encode = .ok s.ownership.layout)
    (fun s => s.timestamp.front) (fun s => s.ownership.layout ++ s.signature.toBytes)
    (fun s => s.timestamp.length_front) (fun _ _ => decode_encode) (fun _ _ => decode_eq_ok_iff)
    ?_ ?_
  · intro s zone hencode _
    rw [encode_eq_ok_iff]
    exact ⟨_, hencode, by simp [Timestamp.encode_eq_front]⟩
  · intro s zone _ hlong
    exact absurd trivial hlong

end SignedOwnership

namespace TreeHead

theorem signatureOf_ok_iff {field : Bytes} {signature : Option Signature} :
    signatureOf field = .ok signature ↔ field = signatureBytes signature := by
  constructor
  · intro h
    rw [signatureOf] at h
    split at h
    · rename_i hempty
      cases h
      exact List.isEmpty_iff.1 hempty
    · cases hbytes : Octets.ofBytes? 64 field with
      | none =>
          rw [hbytes] at h
          cases h
      | some bytes =>
          rw [hbytes] at h
          cases h
          exact (Octets.ofBytes?_eq_some_iff.1 hbytes).symm
  · rintro rfl
    exact signatureOf_signatureBytes signature

/-- The bytes of a head before the zone offset of its instant. -/
def front (h : TreeHead) : Bytes := word64 h.size ++ h.timestamp.front

/-- The bytes of a head after the zone offset of its instant. -/
def tail (h : TreeHead) : Bytes := h.root.toBytes ++ signatureBytes h.signature

theorem length_front (h : TreeHead) : h.front.length = 21 := by
  simp [front, Timestamp.length_front]

/-- The bytes of a head with this zone offset in its instant. -/
def spelled (zone : Octets 2) (h : TreeHead) : Bytes := h.front ++ (zone.toBytes ++ h.tail)

theorem encode_eq_spelled (h : TreeHead) : h.encode = h.spelled zoneMarker := by
  simp [encode, spelled, front, tail, Timestamp.encode_eq_front]

theorem length_spelled (zone : Octets 2) (h : TreeHead) :
    (h.spelled zone).length = 23 + h.tail.length := by
  simp only [spelled, List.length_append, length_front, zone.length_toBytes]
  omega

theorem decode_eq_ok_iff {b : Bytes} {h : TreeHead} :
    decode b = .ok h ↔ ∃ zone : Octets 2, b = h.spelled zone := by
  rw [decode, decode_ok_iff, reader]
  constructor
  · rintro ⟨left, hread⟩
    obtain ⟨size, rest, hsize, htimestamp⟩ := bind_ok_iff.1 hread
    obtain ⟨timestamp, rest₁, hinstant, hroot⟩ := bind_ok_iff.1 htimestamp
    obtain ⟨root, rest₂, hdigest, hrest⟩ := bind_ok_iff.1 hroot
    obtain ⟨field, rest₃, hfield, hsignature⟩ := bind_ok_iff.1 hrest
    obtain rfl := word_ok_iff.1 hsize
    obtain ⟨zone, rfl⟩ := Timestamp.reader_ok_iff.1 hinstant
    obtain rfl := exact_ok_iff.1 hdigest
    cases hfield
    cases hlast : signatureOf rest₂ with
    | error e =>
        rw [hlast] at hsignature
        cases hsignature
    | ok signature =>
        rw [hlast] at hsignature
        cases hsignature
        obtain rfl := signatureOf_ok_iff.1 hlast
        exact ⟨zone, by simp [spelled, front, tail]⟩
  · rintro ⟨zone, rfl⟩
    refine ⟨[], ?_⟩
    rw [spelled, front, List.append_assoc, bind_of_ok (word_append _ _),
      bind_of_ok (Timestamp.reader_front_append _ zone _), tail, digest,
      bind_of_ok (exact_append _ _), bind_of_ok (rest_apply _), signatureOf_signatureBytes]
    rfl

theorem oneSpelling :
    OneSpelling (fun h => .ok (encode h)) decode (fun _ => [21, 22]) (fun _ => True) := by
  refine .of_zone (fun _ => True) front tail length_front ?_ ?_ ?_ ?_
  · intro h b heq
    cases heq
    exact decode_encode h
  · intro b h
    rw [decode_eq_ok_iff, true_and]
    rfl
  · intro h zone _ _
    exact congrArg Except.ok h.encode_eq_spelled
  · intro h zone _ hlong
    exact absurd trivial hlong

end TreeHead

namespace Leaf

/-- Every field of a leaf fits behind its length. -/
structure FieldsFit (leaf : Leaf) : Prop where
  encode_ownership : leaf.ownership.encode = .ok leaf.ownership.layout
  publicKey_le : leaf.publicKey.length ≤ maxField
  privateData_le : leaf.privateData.length ≤ maxField
  publicData_le : leaf.publicData.length ≤ maxField

/-- The bytes of a leaf after the zone offset of its instant. -/
def tail (leaf : Leaf) : Bytes :=
  bigEndian 2 leaf.ownership.layout.length ++ leaf.ownership.layout ++
    (bigEndian 2 leaf.publicKey.length ++ leaf.publicKey ++
      (bigEndian 2 leaf.privateData.length ++ leaf.privateData ++
        (bigEndian 2 leaf.publicData.length ++ leaf.publicData)))

/-- The bytes of a leaf with this zone offset in its instant. -/
def spelled (zone : Octets 2) (leaf : Leaf) : Bytes :=
  leaf.created.front ++ (zone.toBytes ++ leaf.tail)

theorem length_spelled (zone : Octets 2) (leaf : Leaf) :
    (leaf.spelled zone).length = 15 + leaf.tail.length := by
  simp only [spelled, List.length_append, Timestamp.length_front, zone.length_toBytes]
  omega

theorem layout_eq_spelled (leaf : Leaf) :
    leaf.layout leaf.ownership.layout = leaf.spelled zoneMarker := by
  simp [layout, spelled, tail, Timestamp.encode_eq_front]

theorem decode_eq_ok_iff {b : Bytes} {leaf : Leaf} :
    decode b = .ok leaf ↔ leaf.FieldsFit ∧ ∃ zone : Octets 2, b = leaf.spelled zone := by
  rw [decode, decodeAll_ok_iff, reader]
  constructor
  · intro h
    obtain ⟨created, rest, hcreated, hownership⟩ := bind_ok_iff.1 h
    obtain ⟨o, rest₁, hnested, hkey⟩ := bind_ok_iff.1 hownership
    obtain ⟨key, rest₂, hfirst, hprivate⟩ := bind_ok_iff.1 hkey
    obtain ⟨privateData, rest₃, hsecond, hpublic⟩ := bind_ok_iff.1 hprivate
    obtain ⟨publicData, rest₄, hthird, hpure⟩ := bind_ok_iff.1 hpublic
    obtain ⟨rfl, rfl⟩ := pure_ok_iff.1 hpure
    obtain ⟨zone, rfl⟩ := Timestamp.reader_ok_iff.1 hcreated
    obtain ⟨field, -, hfield, rfl⟩ := nested_ok_iff.1 hnested
    obtain ⟨hencode, rfl⟩ := Ownership.decode_eq_ok_iff.1 hfield
    obtain ⟨hkeyle, rfl⟩ := prefixed_ok_iff.1 hfirst
    obtain ⟨hprivatele, rfl⟩ := prefixed_ok_iff.1 hsecond
    obtain ⟨hpublicle, rfl⟩ := prefixed_ok_iff.1 hthird
    exact ⟨⟨hencode, hkeyle, hprivatele, hpublicle⟩, zone, by rw [List.append_nil]; rfl⟩
  · rintro ⟨⟨hencode, hkey, hprivate, hpublic⟩, zone, rfl⟩
    have hlast : Reader.prefixed (bigEndian 2 leaf.publicData.length ++ leaf.publicData) =
        .ok leaf.publicData [] := prefixed_ok_iff.2 ⟨hpublic, (List.append_nil _).symm⟩
    rw [spelled, tail, bind_of_ok (Timestamp.reader_front_append _ zone _),
      bind_of_ok (nested_append (Ownership.length_le_maxField hencode)
        (Ownership.decode_encode hencode) _),
      bind_of_ok (Reader.prefixed_append hkey _), bind_of_ok (Reader.prefixed_append hprivate _),
      bind_of_ok hlast]
    rfl

/-- A leaf whose fields fit is written as long as the whole fits too. -/
theorem FieldsFit.encode_of_le {leaf : Leaf} (h : leaf.FieldsFit) (zone : Octets 2)
    (hle : (leaf.spelled zone).length ≤ maxField) :
    leaf.encode = .ok (leaf.spelled zoneMarker) := by
  rw [encode_eq_ok_iff]
  rw [length_spelled] at hle
  exact ⟨_, h.encode_ownership, leaf.layout_eq_spelled.symm, by rwa [length_spelled]⟩

theorem FieldsFit.encode_of_lt {leaf : Leaf} (h : leaf.FieldsFit) (zone : Octets 2)
    (hlt : maxField < (leaf.spelled zone).length) :
    leaf.encode = .error (.tooLong (leaf.spelled zone).length maxField) := by
  have hfields := fields_of_le h.encode_ownership h.publicKey_le h.privateData_le h.publicData_le
  have hlength : (leaf.layout leaf.ownership.layout).length = (leaf.spelled zone).length := by
    rw [layout_eq_spelled, length_spelled, length_spelled]
  rw [← hlength] at hlt ⊢
  exact encode_of_fields_of_lt hfields hlt

theorem oneSpelling :
    OneSpelling encode decode (fun _ => [13, 14]) (fun b => b.length ≤ maxField) := by
  refine .of_zone FieldsFit (fun leaf => leaf.created.front) tail
    (fun leaf => leaf.created.length_front) (fun _ _ => decode_encode)
    (fun _ _ => decode_eq_ok_iff) ?_ ?_
  · intro leaf zone h hshort
    exact h.encode_of_le zone hshort
  · intro leaf zone h hlong
    exact h.encode_of_lt zone (Nat.not_le.1 hlong)

end Leaf

namespace InclusionProof

/-- The head and the leaf of a proof fit behind their lengths, and the hashes can be counted. -/
structure FieldsFit (p : InclusionProof) : Prop where
  leaf : p.leaf.FieldsFit
  length_leaf_le : (p.leaf.spelled zoneMarker).length ≤ maxField
  length_hashes_le : p.hashes.length ≤ maxHashes

/-- The bytes of a proof before the zone offset in its head. -/
def front (p : InclusionProof) : Bytes := bigEndian 2 (23 + p.head.tail.length) ++ p.head.front

/-- The bytes of a proof between its two zone offsets. -/
def between (p : InclusionProof) : Bytes :=
  p.head.tail ++ (word64 p.index ++ (bigEndian 2 (15 + p.leaf.tail.length) ++ p.leaf.created.front))

/-- The bytes of a proof after the zone offset in its leaf. -/
def tail (p : InclusionProof) : Bytes :=
  p.leaf.tail ++ (bigEndian 2 p.hashes.length ++ p.hashes.flatMap Octets.toBytes)

/-- The bytes of a proof with these zone offsets in its head and in its leaf. -/
def spelled (zones : Octets 2 × Octets 2) (p : InclusionProof) : Bytes :=
  p.front ++ (zones.1.toBytes ++ (p.between ++ (zones.2.toBytes ++ p.tail)))

/-- A proof is spelled by a head and a leaf behind their lengths. -/
theorem spelled_eq (zones : Octets 2 × Octets 2) (p : InclusionProof) :
    p.spelled zones = bigEndian 2 (p.head.spelled zones.1).length ++ p.head.spelled zones.1 ++
      (word64 p.index ++ (bigEndian 2 (p.leaf.spelled zones.2).length ++ p.leaf.spelled zones.2 ++
        (bigEndian 2 p.hashes.length ++ p.hashes.flatMap Octets.toBytes))) := by
  simp only [spelled, front, between, tail, TreeHead.length_spelled, Leaf.length_spelled]
  simp only [TreeHead.spelled, Leaf.spelled, List.append_assoc]

theorem decode_eq_ok_iff {b : Bytes} {p : InclusionProof} :
    decode b = .ok p ↔ p.FieldsFit ∧ ∃ zones, b = p.spelled zones := by
  rw [decode, decodeAll_ok_iff, reader]
  constructor
  · intro h
    obtain ⟨head, rest, hhead, hindex⟩ := bind_ok_iff.1 h
    obtain ⟨index, rest₁, hword, hleaf⟩ := bind_ok_iff.1 hindex
    obtain ⟨leaf, rest₂, hnested, hcount⟩ := bind_ok_iff.1 hleaf
    obtain ⟨count, rest₃, hnumber, hleft⟩ := bind_ok_iff.1 hcount
    obtain ⟨left, rest₄, hremaining, hlength⟩ := bind_ok_iff.1 hleft
    split at hlength
    · cases hlength
    · obtain ⟨hashes, rest₅, hdigests, hpure⟩ := bind_ok_iff.1 hlength
      obtain ⟨rfl, rfl⟩ := pure_ok_iff.1 hpure
      cases hremaining
      obtain ⟨headBytes, -, hheadBytes, rfl⟩ := nested_ok_iff.1 hhead
      obtain ⟨zone, rfl⟩ := TreeHead.decode_eq_ok_iff.1 hheadBytes
      obtain rfl := word_ok_iff.1 hword
      obtain ⟨leafBytes, hle, hleafBytes, rfl⟩ := nested_ok_iff.1 hnested
      obtain ⟨hfits, zone', rfl⟩ := Leaf.decode_eq_ok_iff.1 hleafBytes
      obtain ⟨hlt, rfl⟩ := number_ok_iff.1 hnumber
      obtain ⟨rfl, rfl⟩ := digests_ok_iff.1 hdigests
      refine ⟨⟨hfits, ?_, ?_⟩, (zone, zone'), ?_⟩
      · rwa [Leaf.length_spelled] at hle ⊢
      · show hashes.length ≤ maxHashes
        unfold maxHashes
        omega
      · rw [spelled_eq, List.append_nil]
  · rintro ⟨⟨hfits, hle, hhashes⟩, zones, rfl⟩
    have hhead : (p.head.spelled zones.1).length ≤ maxField := by
      have hlength := TreeHead.length_encode_le p.head
      rw [TreeHead.encode_eq_spelled, TreeHead.length_spelled] at hlength
      rw [TreeHead.length_spelled]
      exact Nat.le_trans hlength (by decide)
    have hleaf : (p.leaf.spelled zones.2).length ≤ maxField := by
      rwa [Leaf.length_spelled] at hle ⊢
    have hcount : p.hashes.length < 256 ^ 2 := by
      unfold maxHashes at hhashes
      omega
    have hdigests : digests p.hashes.length (p.hashes.flatMap Octets.toBytes) = .ok p.hashes [] :=
      digests_ok_iff.2 ⟨rfl, (List.append_nil _).symm⟩
    rw [spelled_eq, bind_of_ok (nested_append hhead (TreeHead.decode_eq_ok_iff.2 ⟨_, rfl⟩) _),
      bind_of_ok (word_append _ _),
      bind_of_ok (nested_append hleaf (Leaf.decode_eq_ok_iff.2 ⟨hfits, _, rfl⟩) _),
      bind_of_ok (number_append hcount _), bind_of_ok (remaining_apply _), length_flatMap_toBytes,
      if_neg (by simp)]
    show (digests _ >>= _) _ = _
    rw [bind_of_ok hdigests]
    rfl

/-- A proof that was read is written again, with minus one at its offsets. -/
theorem FieldsFit.encode_eq {p : InclusionProof} (h : p.FieldsFit) :
    p.encode = .ok (p.spelled (zoneMarker, zoneMarker)) := by
  have hleaf := h.leaf.encode_of_le zoneMarker h.length_leaf_le
  rw [encode_of_leaf hleaf h.length_hashes_le, spelled_eq, TreeHead.encode_eq_spelled]

/-- Where the zone offsets of a proof stand. The length of its head, which comes first, decides
about the second one. -/
def offsets (b : Bytes) : List Nat :=
  [23, 24, ofBigEndian (b.take 2) + 25, ofBigEndian (b.take 2) + 26]

theorem length_front (p : InclusionProof) : p.front.length = 23 := by
  simp [front, TreeHead.length_front]

theorem length_between (p : InclusionProof) : p.between.length = 23 + p.head.tail.length := by
  simp only [between, List.length_append, length_word64, length_bigEndian, Timestamp.length_front]
  omega

theorem offsets_spelled (zones : Octets 2 × Octets 2) (p : InclusionProof) :
    offsets (p.spelled zones) =
      [23, 23 + 1] ++ [48 + p.head.tail.length, 48 + p.head.tail.length + 1] := by
  have hhead : 23 + p.head.tail.length < 256 ^ 2 := by
    have hlength := TreeHead.length_encode_le p.head
    rw [TreeHead.encode_eq_spelled, TreeHead.length_spelled] at hlength
    omega
  -- a head is at most 119 bytes long, so its length is not cut to two bytes
  have htake : (p.spelled zones).take 2 = bigEndian 2 (23 + p.head.tail.length) := by
    rw [spelled, front, List.append_assoc, List.take_left' (length_bigEndian _ _)]
  rw [offsets, htake, ofBigEndian_bigEndian hhead]
  simp only [List.cons_append, List.nil_append]
  congr 3
  · omega
  · congr 1
    omega

theorem agreeOutside_offsets_iff {p : InclusionProof} {zones : Octets 2 × Octets 2} {b : Bytes} :
    AgreeOutside (offsets (p.spelled zones)) (p.spelled zones) b ↔
      ∃ zones', b = p.spelled zones' := by
  have hsecond : ∀ zone : Octets 2,
      (p.front ++ (zone.toBytes ++ p.between)).length = 48 + p.head.tail.length := by
    intro zone
    simp only [List.length_append, length_front, length_between, zone.length_toBytes]
    omega
  have hassoc : ∀ zone zone' : Octets 2, p.spelled (zone, zone') =
      (p.front ++ (zone.toBytes ++ p.between)) ++ (zone'.toBytes ++ p.tail) := by
    intro zone zone'
    simp only [spelled, List.append_assoc]
  rw [offsets_spelled, agreeOutside_append_iff]
  constructor
  · rintro ⟨c, hfirst, hrest⟩
    obtain ⟨zone, rfl⟩ := (agreeOutside_field_iff p.length_front).1 hfirst
    have hspelled : p.front ++ (zone.toBytes ++ (p.between ++ (zones.2.toBytes ++ p.tail))) =
        p.spelled (zone, zones.2) := rfl
    rw [hspelled, hassoc, agreeOutside_field_iff (hsecond zone)] at hrest
    obtain ⟨zone', rfl⟩ := hrest
    exact ⟨(zone, zone'), (hassoc zone zone').symm⟩
  · rintro ⟨zones', rfl⟩
    refine ⟨p.spelled (zones'.1, zones.2),
      (agreeOutside_field_iff p.length_front).2 ⟨zones'.1, rfl⟩, ?_⟩
    rw [hassoc, agreeOutside_field_iff (hsecond _)]
    exact ⟨zones'.2, hassoc _ _⟩

theorem getElem?_offsets (p : InclusionProof) (zones : Octets 2 × Octets 2) :
    ∀ i ∈ offsets (p.spelled zones), (p.spelled (zoneMarker, zoneMarker))[i]? = some 0xFF := by
  intro i hi
  rw [offsets_spelled, List.mem_append] at hi
  rcases hi with hfirst | hsecond
  · exact getElem?_zoneMarker p.length_front i hfirst
  · have hlength : (p.front ++ (zoneMarker.toBytes ++ p.between)).length =
        48 + p.head.tail.length := by
      simp only [List.length_append, length_front, length_between, zoneMarker.length_toBytes]
      omega
    have hassoc : p.spelled (zoneMarker, zoneMarker) =
        (p.front ++ (zoneMarker.toBytes ++ p.between)) ++ (zoneMarker.toBytes ++ p.tail) := by
      simp only [spelled, List.append_assoc]
    rw [hassoc]
    exact getElem?_zoneMarker hlength i hsecond

theorem oneSpelling : OneSpelling encode decode offsets (fun _ => True) := by
  refine .of_spelled FieldsFit spelled (zoneMarker, zoneMarker) (fun _ _ => decode_encode)
    (fun _ _ => decode_eq_ok_iff) (fun _ _ _ _ => agreeOutside_offsets_iff) ?_ ?_ ?_
  · intro p zones _
    exact p.getElem?_offsets zones
  · intro p zones h _
    exact h.encode_eq
  · intro p zones _ hlong
    exact absurd trivial hlong

end InclusionProof

/-! ## All formats -/

/-- Bytes that an artifact was read from are, away from the zone offsets of its instants, the bytes
that it is written as, and no other bytes are read as it. Only a leaf of more than 65535 bytes can
be read and not be written. -/
theorem formats_have_one_spelling :
    OneSpelling (fun t => .ok (Timestamp.encode t)) Timestamp.decode (fun _ => [13, 14])
      (fun _ => True) ∧
    OneSpelling Ownership.encode Ownership.decode (fun _ => []) (fun _ => True) ∧
    OneSpelling SignedOwnership.encode SignedOwnership.decode (fun _ => [13, 14]) (fun _ => True) ∧
    OneSpelling (fun h => .ok (TreeHead.encode h)) TreeHead.decode (fun _ => [21, 22])
      (fun _ => True) ∧
    OneSpelling Leaf.encode Leaf.decode (fun _ => [13, 14]) (fun b => b.length ≤ 65535) ∧
    OneSpelling InclusionProof.encode InclusionProof.decode
      (fun b => [23, 24, ofBigEndian (b.take 2) + 25, ofBigEndian (b.take 2) + 26])
      (fun _ => True) :=
  ⟨Timestamp.oneSpelling, Ownership.oneSpelling, SignedOwnership.oneSpelling, TreeHead.oneSpelling,
    Leaf.oneSpelling, InclusionProof.oneSpelling⟩

end OwnershipLog
