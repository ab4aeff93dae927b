/-
Host names in canonical form.

A host name is kept in lower case, and what is kept is a host name again that reads as itself:

* `HostName.defect?_map_toAsciiLower` — which defect octets have does not depend on letter case;
* `HostName.utf8_of_read` — a host name that is read has the octets it was read from, in lower case;
* `HostName.canonical_of_read` — and is canonical.
-/
import PskHandshake.Proofs.LetterCase
import PskHandshake.Proofs.Wire
import PskHandshake.Sni.Entry

namespace PskHandshake.Sni.HostName

/-- A text that reads as itself when its octets are read as a host name. -/
def Canonical (name : String) : Prop := read (Wire.utf8 name) = .ok name

/-! ### Octets without a defect -/

/-- Octets have no defect when none of the four is there. -/
theorem defect?_eq_none_iff {bytes : Bytes} :
    defect? bytes = none ↔
      (0 < bytes.length ∧ bytes.length ≤ maxLength) ∧ (∀ octet ∈ bytes, octet < 128) ∧
        bytes.getLast? ≠ some '.'.toUInt8 ∧ isIpLiteral (asciiText bytes) = false := by
  have hlength : ¬(bytes.length = 0 ∨ maxLength < bytes.length) ↔
      0 < bytes.length ∧ bytes.length ≤ maxLength := by omega
  have hascii : ¬bytes.any (128 ≤ ·) ↔ ∀ octet ∈ bytes, octet < 128 := by
    simp [UInt8.not_le]
  rw [defect?, ← hlength, ← hascii]
  -- the checks are taken off in the order in which they are made
  by_cases h₁ : bytes.length = 0 ∨ maxLength < bytes.length
  · rw [if_pos h₁]
    exact iff_of_false (by simp) fun h => h.1 h₁
  rw [if_neg h₁]
  by_cases h₂ : bytes.any (128 ≤ ·) = true
  · rw [if_pos h₂]
    exact iff_of_false (by simp) fun h => h.2.1 h₂
  rw [if_neg h₂]
  by_cases h₃ : bytes.getLast? = some '.'.toUInt8
  · rw [if_pos h₃]
    exact iff_of_false (by simp) fun h => h.2.2.1 h₃
  rw [if_neg h₃]
  by_cases h₄ : isIpLiteral (asciiText bytes) = true
  · rw [if_pos h₄]
    exact iff_of_false (by simp) fun h => by simp [h₄] at h
  rw [if_neg h₄]
  exact iff_of_true rfl ⟨h₁, h₂, h₃, by simpa using h₄⟩

theorem utf8_asciiText {bytes : Bytes} (h : ∀ octet ∈ bytes, octet < 128) :
    Wire.utf8 (String.ofList (asciiText bytes)) = bytes := by
  rw [Wire.utf8_ofList]
  induction bytes with
  | nil => rfl
  | cons octet bytes ih =>
    rw [List.forall_mem_cons] at h
    have hoctet : String.utf8EncodeChar (Char.ofUInt8 octet) = [octet] := by
      rw [String.utf8EncodeChar_eq_singleton]
      · simp [Char.ofUInt8]
      · rw [Char.utf8Size_eq_one_iff, UInt32.le_iff_toNat_le, Char.toNat_val,
          LetterCase.toNat_ofUInt8]
        exact Nat.le_of_lt_succ (UInt8.lt_iff_toNat_lt.mp h.1)
    rw [asciiText, List.map_cons, List.flatMap_cons, hoctet, ← asciiText, ih h.2]
    rfl

/-! ### Letter case -/

theorem asciiText_map_toAsciiLower (bytes : Bytes) :
    asciiText (bytes.map UInt8.toAsciiLower) = (asciiText bytes).map Char.toLower := by
  simp only [asciiText, List.map_map, Function.comp_def, LetterCase.ofUInt8_toAsciiLower]

theorem isIpLiteral_map_toLower (text : List Char) :
    isIpLiteral (text.map Char.toLower) = isIpLiteral text := by
  rw [isIpLiteral, isIpLiteral, Ipv4.parse?_map_toLower, Ipv6.parse?_map_toLower]

/-- Which defect octets have does not depend on letter case. -/
theorem defect?_map_toAsciiLower (bytes : Bytes) :
    defect? (bytes.map UInt8.toAsciiLower) = defect? bytes := by
  have hascii : ∀ octet : UInt8, 128 ≤ octet.toAsciiLower ↔ 128 ≤ octet := by
    intro octet
    rw [UInt8.le_iff_toNat_le, UInt8.le_iff_toNat_le, LetterCase.toNat_toAsciiLower]
    simp only [UInt8.reduceToNat]
    split <;> omega
  -- no letter becomes a point
  have hdot : ∀ octet : UInt8, octet.toAsciiLower = '.'.toUInt8 ↔ octet = '.'.toUInt8 := by
    intro octet
    rw [← UInt8.toNat_inj, ← UInt8.toNat_inj, LetterCase.toNat_toAsciiLower,
      show '.'.toUInt8.toNat = 46 from rfl]
    split <;> omega
  simp only [defect?, List.length_map, List.any_map, Function.comp_def, hascii, List.getLast?_map,
    Option.map_eq_some_iff, hdot, exists_eq_right, asciiText_map_toAsciiLower,
    isIpLiteral_map_toLower]

/-- In lower case, a text has the octets of its lower case. -/
theorem map_toAsciiLower_utf8_toLower (text : String) :
    (Wire.utf8 text.toLower).map UInt8.toAsciiLower = (Wire.utf8 text).map UInt8.toAsciiLower := by
  have hchar : ∀ c : Char, (String.utf8EncodeChar c.toLower).map UInt8.toAsciiLower =
      (String.utf8EncodeChar c).map UInt8.toAsciiLower :=
    LetterCase.apply_toLower (f := fun c => (String.utf8EncodeChar c).map UInt8.toAsciiLower)
      (by decide)
  obtain ⟨chars, rfl⟩ : ∃ chars, text = String.ofList chars := ⟨_, String.ofList_toList.symm⟩
  rw [LetterCase.toLower_ofList, Wire.utf8_ofList, Wire.utf8_ofList, List.map_flatMap,
    List.map_flatMap, List.flatMap_map]
  simp only [hchar]

/-! ### What is read -/

/-- Octets read as a host name exactly when they have no defect, and then as their text in lower
case. -/
theorem read_eq_ok_iff {bytes : Bytes} {name : String} :
    read bytes = .ok name ↔
      defect? bytes = none ∧ name = String.ofList (asciiText (bytes.map UInt8.toAsciiLower)) := by
  rw [read, asciiText_map_toAsciiLower]
  cases defect? bytes with
  | none => simp [eq_comm]
  | some defect => simp

/-- Octets are read alike in whatever letter case. -/
theorem read_map_toAsciiLower (bytes : Bytes) :
    read (bytes.map UInt8.toAsciiLower) = read bytes := by
  rw [read, read, defect?_map_toAsciiLower, asciiText_map_toAsciiLower,
    LetterCase.map_toLower_map_toLower]

theorem read_eq_error_iff {bytes : Bytes} {defect : Defect} :
    read bytes = .error defect ↔ defect? bytes = some defect := by
  rw [read]
  cases defect? bytes <;> simp

theorem utf8_of_read {bytes : Bytes} {name : String} (h : read bytes = .ok name) :
    Wire.utf8 name = bytes.map UInt8.toAsciiLower := by
  obtain ⟨hdefect, rfl⟩ := read_eq_ok_iff.mp h
  -- the octets in lower case have no defect either, so they are in ASCII
  rw [← defect?_map_toAsciiLower] at hdefect
  obtain ⟨-, hascii, -, -⟩ := defect?_eq_none_iff.mp hdefect
  exact utf8_asciiText hascii

theorem canonical_of_read {bytes : Bytes} {name : String} (h : read bytes = .ok name) :
    Canonical name := by
  rw [Canonical, utf8_of_read h, read_map_toAsciiLower, h]

theorem Canonical.defect?_eq_none {name : String} (h : Canonical name) :
    defect? (Wire.utf8 name) = none :=
  (read_eq_ok_iff.mp h).1

theorem Canonical.toLower_eq {name : String} (h : Canonical name) : name.toLower = name := by
  obtain ⟨-, hname⟩ := read_eq_ok_iff.mp h
  rw [asciiText_map_toAsciiLower] at hname
  rw [hname, LetterCase.toLower_ofList, LetterCase.map_toLower_map_toLower]

theorem Canonical.ne_empty {name : String} (h : Canonical name) : name ≠ "" := by
  obtain ⟨⟨hlength, -⟩, -⟩ := defect?_eq_none_iff.mp h.defect?_eq_none
  rintro rfl
  simp [Wire.utf8] at hlength

theorem Canonical.length_le {name : String} (h : Canonical name) :
    (Wire.utf8 name).length ≤ maxLength := by
  obtain ⟨⟨-, hlength⟩, -⟩ := defect?_eq_none_iff.mp h.defect?_eq_none
  exact hlength

end PskHandshake.Sni.HostName
