/-
Vectors and texts on the wire, read as descriptions of octets.

`Wire.Carries field bytes` says what a vector is without saying how one is written: a 16-bit word,
and as many octets after it as the word says.

* `Wire.carries_iff` — such a field is the one that `Wire.vector16` writes, and its octets fit a
  16-bit length;
* `Wire.ofUtf8?_eq_some_iff` — octets spell a text exactly when they are the octets of the text.
-/
import Mathlib
import PskHandshake.Wire

namespace PskHandshake.Wire

/-- The field is a vector of the octets: their number as a word, and then the octets themselves. -/
def Carries (field bytes : Bytes) : Prop :=
  ∃ high low, field = high :: low :: bytes ∧ uint16Value high low = bytes.length

theorem Carries.length_le {field bytes : Bytes} (h : Carries field bytes) :
    bytes.length ≤ maxUint16 := by
  obtain ⟨high, low, -, hlength⟩ := h
  rw [← hlength]
  exact uint16Value_le high low

/-- A vector carries octets exactly when it is the one written for them, without truncation. -/
theorem carries_iff {field bytes : Bytes} :
    Carries field bytes ↔ field = vector16 bytes ∧ bytes.length ≤ maxUint16 := by
  constructor
  · intro h
    refine ⟨?_, h.length_le⟩
    -- the two octets are those that are written for their value
    obtain ⟨high, low, rfl, hlength⟩ := h
    rw [vector16, ← hlength, uint16_uint16Value]
    rfl
  · rintro ⟨rfl, hlength⟩
    refine ⟨_, _, rfl, ?_⟩
    rw [uint16Value_uint16]
    exact Nat.mod_eq_of_lt (Nat.lt_succ_of_le hlength)

/-- Where a vector ends and what follows it can be told from the octets. -/
theorem Carries.append_inj {field field' bytes bytes' rest rest' : Bytes}
    (h : Carries field bytes) (h' : Carries field' bytes')
    (happend : field ++ rest = field' ++ rest') : bytes = bytes' ∧ rest = rest' := by
  obtain ⟨high, low, rfl, hlength⟩ := h
  obtain ⟨high', low', rfl, hlength'⟩ := h'
  simp only [List.cons_append, List.cons.injEq] at happend
  obtain ⟨rfl, rfl, happend⟩ := happend
  -- both words are the same, and so are the lengths that they say
  have hsame : bytes.length = bytes'.length := by rw [← hlength, ← hlength']
  exact List.append_inj happend hsame

theorem utf8_ofList (chars : List Char) :
    utf8 (String.ofList chars) = chars.flatMap String.utf8EncodeChar := by
  rw [utf8, String.toByteArray_ofList, List.utf8Encode, List.toList_data_toByteArray]

/-- The octets of a text are those of its characters, one after the other. -/
theorem utf8_eq_flatMap (text : String) :
    utf8 text = text.toList.flatMap String.utf8EncodeChar := by
  rw [← utf8_ofList, String.ofList_toList]

/-- Octets spell a text exactly when they are the octets of the text. -/
theorem ofUtf8?_eq_some_iff {bytes : Bytes} {text : String} :
    ofUtf8? bytes = some text ↔ bytes = utf8 text := by
  rw [ofUtf8?, String.fromUTF8?]
  constructor
  · intro h
    obtain ⟨hvalid, htext⟩ := Option.dite_none_right_eq_some.mp h
    rw [utf8, ← Option.some_inj.mp htext]
    rfl
  · rintro rfl
    have hbytes : ByteArray.mk (utf8 text).toArray = text.toByteArray := rfl
    rw [dif_pos (hbytes ▸ text.isValidUTF8), Option.some_inj, ← String.toByteArray_inj]
    rfl

theorem utf8_injective : Function.Injective utf8 := by
  intro text text' h
  have htext : ofUtf8? (utf8 text) = some text := ofUtf8?_eq_some_iff.mpr rfl
  have htext' : ofUtf8? (utf8 text) = some text' := ofUtf8?_eq_some_iff.mpr h
  rw [htext] at htext'
  exact Option.some_inj.mp htext'

end PskHandshake.Wire
