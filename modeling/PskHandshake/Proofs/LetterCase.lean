/-
Letter case, from octets and characters up to the texts of IP addresses.

Only the capital letters of ASCII have a lower case of their own.  A reader of numerals takes
hexadecimal digits of either case and the symbols between numerals are no letters, so what a text
means as an address does not depend on letter case:

* `LetterCase.ofUInt8_toAsciiLower` — lower case is the same thing for octets and for characters;
* `Ipv4.parse?_map_toLower`, `Ipv6.parse?_map_toLower` — a text in lower case is read like the text.
-/
import Mathlib
import PskHandshake.Address

namespace PskHandshake.LetterCase

/-! ### Octets -/

/-- The lower case of an octet, by its number. -/
theorem toNat_toAsciiLower (octet : UInt8) :
    octet.toAsciiLower.toNat =
      if 65 ≤ octet.toNat ∧ octet.toNat ≤ 90 then octet.toNat + 32 else octet.toNat := by
  -- the subtraction wraps around, which takes the octets below 65 out of range
  have hcapital : octet - 65 < 26 ↔ 65 ≤ octet.toNat ∧ octet.toNat ≤ 90 := by
    have := octet.toNat_lt
    rw [UInt8.lt_iff_toNat_lt, UInt8.toNat_sub]
    simp only [UInt8.reduceToNat]
    omega
  rw [UInt8.toAsciiLower]
  split
  next h =>
    rw [decide_eq_true (hcapital.mpr h), show true.toUInt8 <<< 5 = (32 : UInt8) from rfl]
    simp only [UInt8.toNat_add, UInt8.reduceToNat]
    omega
  next h =>
    rw [decide_eq_false (mt hcapital.mp h), show false.toUInt8 <<< 5 = (0 : UInt8) from rfl,
      UInt8.add_zero]

theorem toNat_ofUInt8 (octet : UInt8) : (Char.ofUInt8 octet).toNat = octet.toNat := by
  simp [Char.ofUInt8, Char.toNat]

/-- The lower case of an octet is that of the character it stands for. -/
theorem ofUInt8_toAsciiLower (octet : UInt8) :
    Char.ofUInt8 octet.toAsciiLower = (Char.ofUInt8 octet).toLower := by
  have hcapital : (Char.ofUInt8 octet).isUpper = true ↔ 65 ≤ octet.toNat ∧ octet.toNat ≤ 90 := by
    simp [Char.isUpper, UInt32.le_iff_toNat_le, toNat_ofUInt8]
  rw [← Char.toNat_inj, toNat_ofUInt8, toNat_toAsciiLower]
  split
  next h =>
    rw [Char.toLower_eq_of_isUpper (hcapital.mpr h), toNat_ofUInt8, Char.toNat_ofNat, if_pos]
    exact Or.inl (by omega)
  next h => rw [Char.toLower_eq_of_not_isUpper (mt hcapital.mp h), toNat_ofUInt8]

/-! ### Characters -/

/-- A symbol that is no letter is the lower case of itself and of nothing else. -/
theorem toLower_eq_iff {symbol : Char} (h : symbol.isAlpha = false) (c : Char) :
    c.toLower = symbol ↔ c = symbol := by
  have hsmall : ∀ {d : Char}, d.isAlpha = false → d.toLower = d := by
    intro d hd
    refine Char.toLower_eq_of_not_isUpper fun hupper => ?_
    simp [Char.isAlpha, hupper] at hd
  constructor
  · intro hlower
    have hc : c.isAlpha = false := by rw [← Char.isAlpha_toLower_eq_isAlpha, hlower, h]
    rwa [hsmall hc] at hlower
  · rintro rfl
    exact hsmall h

/-- What does not tell the small letters from the capital ones does not depend on letter case. -/
theorem apply_toLower {α : Type} {f : Char → α}
    (letters : ∀ i : Fin 26, f (Char.ofNat (97 + i)) = f (Char.ofNat (65 + i))) (c : Char) :
    f c.toLower = f c := by
  by_cases h : c.isUpper
  · -- a capital letter is one of the 26, and its lower case has the same place
    have hrange : 65 ≤ c.toNat ∧ c.toNat ≤ 90 := by
      simpa [Char.isUpper, UInt32.le_iff_toNat_le] using h
    have hletter := letters ⟨c.toNat - 65, by omega⟩
    have hcapital : 65 + (c.toNat - 65) = c.toNat := by omega
    have hsmall : 97 + (c.toNat - 65) = c.toNat + 32 := by omega
    simp only [hcapital, hsmall, Char.ofNat_toNat] at hletter
    rw [Char.toLower_eq_of_isUpper h, hletter]
  · rw [Char.toLower_eq_of_not_isUpper h]

theorem splitOn_map_toLower {symbol : Char} (h : symbol.isAlpha = false) (text : List Char) :
    (text.map Char.toLower).splitOn symbol = (text.splitOn symbol).map (List.map Char.toLower) := by
  induction text with
  | nil => rfl
  | cons c text ih =>
    simp only [List.map_cons, List.splitOn_cons_eq_if_modifyHead, ih, beq_iff_eq,
      toLower_eq_iff h]
    split
    · rfl
    · cases text.splitOn symbol <;> rfl

/-! ### Texts -/

theorem map_toLower_map_toLower (chars : List Char) :
    (chars.map Char.toLower).map Char.toLower = chars.map Char.toLower := by
  rw [List.map_map]
  exact List.map_congr_left fun c _ => Char.toLower_toLower_eq_toLower c

theorem toList_toLower (text : String) : text.toLower.toList = text.toList.map Char.toLower := by
  rw [String.toLower, String.toList_map]

theorem toLower_ofList (chars : List Char) :
    (String.ofList chars).toLower = String.ofList (chars.map Char.toLower) := by
  rw [← String.toList_inj, toList_toLower, String.toList_ofList, String.toList_ofList]

end LetterCase

/-! ### Numerals and addresses -/

namespace Numeral

theorem hexDigit?_toLower (c : Char) : hexDigit? c.toLower = hexDigit? c :=
  LetterCase.apply_toLower (by decide) c

theorem extend?_map_toLower (base : Nat) (digits : List Char) (n : Nat) :
    extend? base n (digits.map Char.toLower) = extend? base n digits := by
  induction digits generalizing n with
  | nil => rfl
  | cons c digits ih => simp only [List.map_cons, extend?, digit?, hexDigit?_toLower, ih]

theorem read?_map_toLower (base limit : Nat) (digits : List Char) :
    read? base limit (digits.map Char.toLower) = read? base limit digits := by
  cases digits with
  | nil => rfl
  | cons c digits =>
    rw [List.map_cons, read?, read?, ← List.map_cons, extend?_map_toLower]
    · simp
    · simp

end Numeral

namespace Ipv4

theorem octet?_map_toLower (digits : List Char) :
    octet? (digits.map Char.toLower) = octet? digits := by
  have hzero : (digits.map Char.toLower).head? = some '0' ↔ digits.head? = some '0' := by
    simp only [List.head?_map, Option.map_eq_some_iff,
      LetterCase.toLower_eq_iff (by decide : '0'.isAlpha = false), exists_eq_right]
  simp only [octet?, List.length_map, hzero, Numeral.read?_map_toLower]

/-- The dotted form of an address does not depend on letter case. -/
theorem parse?_map_toLower (text : List Char) : parse? (text.map Char.toLower) = parse? text := by
  rw [parse?, parse?, LetterCase.splitOn_map_toLower (by decide)]
  generalize text.splitOn '.' = groups
  match groups with
  | [] | [_] | [_, _] | [_, _, _] | _ :: _ :: _ :: _ :: _ :: _ => rfl
  | [a, b, c, d] => simp only [List.map_cons, List.map_nil, octet?_map_toLower]

end Ipv4

namespace Ipv6

theorem group?_map_toLower (digits : List Char) :
    group? (digits.map Char.toLower) = group? digits := by
  simp only [group?, List.length_map, Numeral.read?_map_toLower]

theorem pieces_map_toLower (text : List Char) :
    pieces (text.map Char.toLower) = (pieces text).map (List.map Char.toLower) := by
  rw [pieces, pieces, LetterCase.splitOn_map_toLower (by decide)]
  simp only [List.map_eq_nil_iff]
  split <;> rfl

theorem plainGroups?_map_toLower (pieces : List (List Char)) :
    plainGroups? (pieces.map (List.map Char.toLower)) = plainGroups? pieces := by
  simp only [plainGroups?, List.mapM_map, Function.comp_def, group?_map_toLower]

theorem closingGroups?_map_toLower (pieces : List (List Char)) :
    closingGroups? (pieces.map (List.map Char.toLower)) = closingGroups? pieces := by
  induction pieces with
  | nil => rfl
  | cons piece pieces ih =>
    cases pieces with
    | nil =>
      simp only [List.map_cons, List.map_nil, closingGroups?, group?_map_toLower,
        Ipv4.parse?_map_toLower]
    | cons next pieces =>
      rw [List.map_cons] at ih
      simp only [List.map_cons, closingGroups?, group?_map_toLower, ih]

theorem splitGap?_map_toLower (text : List Char) :
    splitGap? (text.map Char.toLower) =
      (splitGap? text).map fun (before, after) =>
        (before.map Char.toLower, after.map Char.toLower) := by
  have hcolon := LetterCase.toLower_eq_iff (by decide : ':'.isAlpha = false)
  fun_induction splitGap? text with
  | case1 rest => rfl
  | case2 c rest hgap ih =>
    -- lower case makes no colon, so no gap starts here either
    have hgap' : ∀ rest', c.toLower = ':' → rest.map Char.toLower = ':' :: rest' → False := by
      intro rest' hc hrest
      obtain ⟨c', tail, rfl, hc', -⟩ := List.map_eq_cons_iff.mp hrest
      exact hgap tail ((hcolon c).mp hc) (by rw [(hcolon c').mp hc'])
    rw [List.map_cons, splitGap?, ih]
    · cases splitGap? rest <;> rfl
    · exact hgap'
  | case3 => rfl

/-- The colon form of an address does not depend on letter case. -/
theorem parse?_map_toLower (text : List Char) : parse? (text.map Char.toLower) = parse? text := by
  rw [parse?, parse?, splitGap?_map_toLower]
  cases splitGap? text with
  | none => simp only [Option.map_none, pieces_map_toLower, closingGroups?_map_toLower]
  | some gap =>
    simp only [Option.map_some, pieces_map_toLower, plainGroups?_map_toLower,
      closingGroups?_map_toLower]

end Ipv6

end PskHandshake
