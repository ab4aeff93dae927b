/-
The identity field in both directions.

A field is a vector of UTF-8 octets, and both directions refuse the same lengths, so writing under a
limit and reading under it describe one relation between identities and fields:

* `IdentityField.encode_eq_ok_iff` — which field an identity has;
* `IdentityField.decode_eq_ok_iff` — which identity a field has;
* `IdentityField.encode_decode_exact` — so what is written is what is read, and the other way round.
-/
import PskHandshake.Proofs.Wire
import PskHandshake.Exchange

namespace PskHandshake.IdentityField

variable {identity : String} {field : Bytes} {limit : Nat}

/-- An identity within the limit has the field that carries its octets. -/
theorem encode_eq_ok_iff :
    encode identity limit = .ok field ↔
      identity.utf8ByteSize ≤ limit ∧ Wire.Carries field (Wire.utf8 identity) := by
  rw [encode, Wire.carries_iff, Wire.length_utf8]
  split
  next h =>
    refine iff_of_false (by simp) ?_
    rintro ⟨hlimit, -, hsize⟩
    omega
  next h =>
    constructor
    · intro hfield
      exact ⟨by omega, (Except.ok.inj hfield).symm, by omega⟩
    · rintro ⟨-, rfl, -⟩
      rfl

/-- The limit on vectors applies beside the limit given, and the smaller one decides. -/
theorem encode_eq_ok_iff_le_min :
    encode identity limit = .ok field ↔
      identity.utf8ByteSize ≤ min limit Wire.maxUint16 ∧
        field = Wire.vector16 (Wire.utf8 identity) := by
  rw [encode_eq_ok_iff, Wire.carries_iff, Wire.length_utf8, le_min_iff]
  constructor
  · rintro ⟨hlimit, hfield, hsize⟩
    exact ⟨⟨hlimit, hsize⟩, hfield⟩
  · rintro ⟨⟨hlimit, hsize⟩, hfield⟩
    exact ⟨hlimit, hfield, hsize⟩

/-- An identity that is refused is reported with its length and with the limit given, also where the
limit on vectors is the smaller one. -/
theorem encode_eq_error_iff {error : EncodeError} :
    encode identity limit = .error error ↔
      min limit Wire.maxUint16 < identity.utf8ByteSize ∧
        error = .tooLong identity.utf8ByteSize limit := by
  rw [encode, min_lt_iff]
  split
  next h =>
    rw [Except.error.injEq, eq_comm]
    exact (and_iff_right h).symm
  next h =>
    refine iff_of_false (by simp) ?_
    rintro ⟨hsize, -⟩
    exact h hsize

/-- A field that carries the octets of an identity within the limit has that identity. -/
theorem decode_eq_ok_iff :
    decode field limit = .ok identity ↔
      identity.utf8ByteSize ≤ limit ∧ Wire.Carries field (Wire.utf8 identity) := by
  constructor
  · intro h
    -- a field without a whole word is refused
    match field, h with
    | high :: low :: bytes, h =>
      rw [decode] at h
      split at h
      · contradiction
      next hlength =>
      split at h
      · contradiction
      next hlimit =>
      split at h
      next text htext =>
        obtain rfl := Except.ok.inj h
        obtain rfl := Wire.ofUtf8?_eq_some_iff.mp htext
        rw [not_ne_iff, eq_comm] at hlength
        refine ⟨?_, high, low, rfl, hlength⟩
        rw [← Wire.length_utf8, ← hlength]
        exact Nat.le_of_not_lt hlimit
      · contradiction
  · rintro ⟨hlimit, high, low, rfl, hlength⟩
    have hutf8 : Wire.ofUtf8? (Wire.utf8 identity) = some identity :=
      Wire.ofUtf8?_eq_some_iff.mpr rfl
    rw [decode, hlength, if_neg (by simp), if_neg (by simpa using hlimit), hutf8]

/-! ### Both directions -/

/-- Within a limit, the fields that are written are those that are read. -/
theorem encode_eq_ok_iff_decode_eq_ok :
    encode identity limit = .ok field ↔ decode field limit = .ok identity := by
  rw [encode_eq_ok_iff, decode_eq_ok_iff]

/-- A field has an identity when its octets after the length spell it, and their number is that
length and within the limit. -/
theorem decode_eq_ok_iff_exists :
    decode field limit = .ok identity ↔
      ∃ high low bytes, field = high :: low :: bytes ∧ bytes.length = Wire.uint16Value high low ∧
        Wire.uint16Value high low ≤ limit ∧
          bytes = identity.toList.flatMap String.utf8EncodeChar := by
  rw [decode_eq_ok_iff, ← Wire.utf8_eq_flatMap, ← Wire.length_utf8]
  constructor
  · rintro ⟨hlimit, high, low, rfl, hlength⟩
    exact ⟨high, low, _, rfl, hlength.symm, hlength ▸ hlimit, rfl⟩
  · rintro ⟨high, low, _, rfl, hlength, hlimit, rfl⟩
    exact ⟨hlength ▸ hlimit, high, low, rfl, hlength.symm⟩

/-- **The identity field is exact in both directions.**  An identity is written exactly when it has
no more octets than the limit and a vector allow, and what is written is read, under any limit, as
this identity exactly when its octets are within that limit.  A field is read as an identity exactly
when it is the length of some octets, within the limit, and these octets, and they are those of the
characters of the identity one after the other; then it is also what is written for the identity.
So under one limit the fields that are written are the fields that are read. -/
theorem encode_decode_exact :
    (∀ identity limit, (∃ field, encode identity limit = .ok field) ↔
      identity.utf8ByteSize ≤ min limit Wire.maxUint16) ∧
    (∀ identity limit field, encode identity limit = .ok field → ∀ limit' identity',
      decode field limit' = .ok identity' ↔
        identity' = identity ∧ identity.utf8ByteSize ≤ limit') ∧
    (∀ field limit identity, decode field limit = .ok identity ↔
      ∃ high low bytes, field = high :: low :: bytes ∧ bytes.length = Wire.uint16Value high low ∧
        Wire.uint16Value high low ≤ limit ∧
          bytes = identity.toList.flatMap String.utf8EncodeChar) ∧
    (∀ field limit identity, decode field limit = .ok identity →
      encode identity limit = .ok field) ∧
    ∀ limit, {field | ∃ identity, encode identity limit = .ok field} =
      {field | ∃ identity, decode field limit = .ok identity} := by
  refine ⟨?_, ?_, ?_, ?_, ?_⟩
  · intro identity limit
    simp only [encode_eq_ok_iff_le_min, exists_and_left, exists_eq, and_true]
  · intro identity limit field hfield limit' identity'
    obtain ⟨-, hcarries⟩ := encode_eq_ok_iff.mp hfield
    rw [decode_eq_ok_iff]
    constructor
    · rintro ⟨hlimit', hcarries'⟩
      -- one field does not carry the octets of two identities
      obtain ⟨hoctets, -⟩ := hcarries'.append_inj hcarries (rfl : field ++ [] = field ++ [])
      obtain rfl := Wire.utf8_injective hoctets
      exact ⟨rfl, hlimit'⟩
    · rintro ⟨rfl, hlimit'⟩
      exact ⟨hlimit', hcarries⟩
  · intro field limit identity
    exact decode_eq_ok_iff_exists
  · intro field limit identity hidentity
    exact encode_eq_ok_iff_decode_eq_ok.mpr hidentity
  · intro limit
    ext field
    simp only [Set.mem_ofPred_eq, encode_eq_ok_iff_decode_eq_ok]

/-- Two characters of two and three octets, at the limit and one octet below it. -/
theorem encode_decode_exact_umlaut :
    encode "ü€" 5 = .ok [0, 5, 0xc3, 0xbc, 0xe2, 0x82, 0xac] ∧
      decode [0, 5, 0xc3, 0xbc, 0xe2, 0x82, 0xac] 5 = .ok "ü€" ∧
        ¬decode [0, 5, 0xc3, 0xbc, 0xe2, 0x82, 0xac] 4 = .ok "ü€" := by
  obtain ⟨-, hread, -, hwrite, -⟩ := encode_decode_exact
  have hdecode : decode [0, 5, 0xc3, 0xbc, 0xe2, 0x82, 0xac] 5 = .ok "ü€" := by decide +kernel
  have hencode := hwrite _ _ _ hdecode
  refine ⟨hencode, hdecode, ?_⟩
  rw [hread _ _ _ hencode]
  decide +kernel

/-- Octets that are too long for a character, those of a surrogate, and those of a character that is
cut off are no text. -/
example : decode [0, 2, 0xc0, 0x80] 9 = .error .notUtf8 ∧
    decode [0, 3, 0xed, 0xa0, 0x80] 9 = .error .notUtf8 ∧
      decode [0, 2, 0xe2, 0x82] 9 = .error .notUtf8 := by
  decide +kernel

end PskHandshake.IdentityField
