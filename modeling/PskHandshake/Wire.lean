/-
Octets on the wire: 16-bit words in network order, and vectors that carry their own length.

Main statements: `uint16Value_uint16`, a word that fits reads back, and `uint16_uint16Value`, every
pair of octets is the word of its value.
-/

namespace PskHandshake

/-- A string of octets. -/
abbrev Bytes := List UInt8

namespace Wire

/-- The largest number that a 16-bit word holds. -/
def maxUint16 : Nat := 65535

/-- The low 16 bits of a number as two octets, high octet first. -/
def uint16 (n : Nat) : Bytes := [UInt8.ofNat (n / 256), UInt8.ofNat n]

/-- The number that two octets stand for, high octet first. -/
def uint16Value (high low : UInt8) : Nat := high.toNat * 256 + low.toNat

/-- Octets preceded by their number as a 16-bit word. -/
def vector16 (bytes : Bytes) : Bytes := uint16 bytes.length ++ bytes

/-- The UTF-8 octets of a text. -/
def utf8 (text : String) : Bytes := text.toByteArray.data.toList

/-- The text whose UTF-8 octets are given, if there is one. -/
def ofUtf8? (bytes : Bytes) : Option String := String.fromUTF8? (ByteArray.mk bytes.toArray)

@[simp] theorem length_uint16 (n : Nat) : (uint16 n).length = 2 := rfl

@[simp] theorem length_vector16 (bytes : Bytes) : (vector16 bytes).length = 2 + bytes.length := by
  simp [vector16]

/-- A word reads back as the number it was made of, up to its 16 bits. -/
theorem uint16Value_uint16 (n : Nat) :
    uint16Value (UInt8.ofNat (n / 256)) (UInt8.ofNat n) = n % 65536 := by
  simp [uint16Value]; omega

theorem uint16Value_le (high low : UInt8) : uint16Value high low ≤ maxUint16 := by
  have := high.toNat_lt; have := low.toNat_lt
  simp only [uint16Value, maxUint16]; omega

theorem uint16_uint16Value (high low : UInt8) : uint16 (uint16Value high low) = [high, low] := by
  have h := high.toNat_lt; have l := low.toNat_lt
  have hdiv : (high.toNat * 256 + low.toNat) / 256 = high.toNat := by omega
  simp only [uint16, uint16Value, hdiv, List.cons.injEq, and_true]
  exact ⟨UInt8.toNat_inj.mp (by simp), UInt8.toNat_inj.mp (by simp)⟩

@[simp] theorem length_utf8 (text : String) : (utf8 text).length = text.utf8ByteSize := by
  rfl

end Wire

end PskHandshake
