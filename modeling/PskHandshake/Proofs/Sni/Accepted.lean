/-
Which texts are host names.

A text has four ways to be none, and they count in a fixed order (`HostName.Defect.all`).  They are
said of the text here (`HostName.Defect.Of`), and looked for in its octets when a host name is read;
in ASCII that is the same thing.

* `HostName.isIpLiteral_iff` — a text is taken for an IP literal when it is in the grammar;
* `HostName.asciiText_utf8` — a text in ASCII is the text of its octets;
* `HostName.defect?_utf8` — the defect that is found is the first one that a text has;
* `Entry.ofHostName_outcome` — when there is an entry for a host name, and why there is none.
-/
import PskHandshake.Proofs.Address.Grammar
import PskHandshake.Proofs.Sni.Entry

namespace PskHandshake.Sni

namespace HostName

/-- What is wrong with a text that has a defect. -/
def Defect.Of (text : String) : Defect → Prop
  | length => ¬(1 ≤ text.utf8ByteSize ∧ text.utf8ByteSize ≤ 253)
  | notAscii => ∃ c ∈ text.toList, 128 ≤ c.toNat
  | trailingDot => text.toList.getLast? = some '.'
  | ipLiteral => Ipv4.IsText text.toList ∨ Ipv6.IsText text.toList

/-- The defects in the order in which they count. -/
def Defect.all : List Defect := [length, notAscii, trailingDot, ipLiteral]

theorem isIpLiteral_iff {text : List Char} :
    isIpLiteral text = true ↔ Ipv4.IsText text ∨ Ipv6.IsText text := by
  rw [isIpLiteral, Bool.or_eq_true, Ipv4.isSome_parse?_iff, Ipv6.isSome_parse?_iff]

/-! ### Texts in ASCII -/

variable {text : String}

theorem asciiText_utf8 (h : ∀ octet ∈ Wire.utf8 text, octet < 128) :
    asciiText (Wire.utf8 text) = text.toList := by
  rw [← Wire.utf8_injective (utf8_asciiText h), String.toList_ofList, utf8_asciiText h]

/-- The octets of a text are in ASCII when its characters are. -/
theorem forall_mem_utf8_lt_iff :
    (∀ octet ∈ Wire.utf8 text, octet < 128) ↔ ∀ c ∈ text.toList, c.toNat < 128 := by
  constructor
  · intro h c hc
    rw [← asciiText_utf8 h, asciiText, List.mem_map] at hc
    obtain ⟨octet, hoctet, rfl⟩ := hc
    rw [LetterCase.toNat_ofUInt8]
    exact UInt8.lt_iff_toNat_lt.mp (h octet hoctet)
  · intro h octet hoctet
    rw [← String.ofList_toList (s := text), Wire.utf8_ofList, List.mem_flatMap] at hoctet
    obtain ⟨c, hc, hoctet⟩ := hoctet
    have hlt := h c hc
    have hsize : c.utf8Size = 1 :=
      Char.utf8Size_eq_one_iff.mpr (UInt32.le_iff_toNat_le.mpr (Nat.le_of_lt_succ hlt))
    rw [String.utf8EncodeChar_eq_singleton hsize, List.mem_singleton] at hoctet
    rw [hoctet, UInt8.lt_iff_toNat_lt, UInt32.toNat_toUInt8]
    exact (Nat.mod_le _ _).trans_lt hlt

theorem getLast?_utf8_eq_dot_iff (h : ∀ octet ∈ Wire.utf8 text, octet < 128) :
    (Wire.utf8 text).getLast? = some '.'.toUInt8 ↔ text.toList.getLast? = some '.' := by
  rw [← asciiText_utf8 h, asciiText, List.getLast?_map, Option.map_eq_some_iff]
  constructor
  · intro hlast
    exact ⟨_, hlast, by decide⟩
  · rintro ⟨octet, hlast, hdot⟩
    have hoctet : octet = '.'.toUInt8 := by
      rw [← UInt8.toNat_inj, ← LetterCase.toNat_ofUInt8, hdot]
      rfl
    rw [hlast, hoctet]

/-! ### The first defect -/

/-- The defect that is found in the octets of a text is the first that the text has. -/
theorem defect?_utf8 (text : String) [DecidablePred (Defect.Of text)] :
    defect? (Wire.utf8 text) = Defect.all.find? fun defect => Defect.Of text defect := by
  have hlength : ((Wire.utf8 text).length = 0 ∨ maxLength < (Wire.utf8 text).length) ↔
      Defect.Of text .length := by
    rw [Defect.Of, Wire.length_utf8, maxLength]
    omega
  have hascii : (Wire.utf8 text).any (128 ≤ ·) = true ↔ Defect.Of text .notAscii := by
    have hiff : (¬∀ octet ∈ Wire.utf8 text, octet < 128) ↔ ¬∀ c ∈ text.toList, c.toNat < 128 :=
      not_congr forall_mem_utf8_lt_iff
    simpa [Defect.Of] using hiff
  rw [defect?, Defect.all, List.find?_cons, List.find?_cons, List.find?_cons, List.find?_cons]
  -- the last two checks read the octets as a text, which the second one makes sure they are
  by_cases h₁ : Defect.Of text .length
  · rw [if_pos (hlength.mpr h₁), decide_eq_true h₁]
  rw [if_neg (mt hlength.mp h₁), decide_eq_false h₁]
  by_cases h₂ : Defect.Of text .notAscii
  · rw [if_pos (hascii.mpr h₂), decide_eq_true h₂]
  rw [if_neg (mt hascii.mp h₂), decide_eq_false h₂]
  have hlt : ∀ octet ∈ Wire.utf8 text, octet < 128 := by
    simpa using mt hascii.mp h₂
  have hdot : (Wire.utf8 text).getLast? = some '.'.toUInt8 ↔ Defect.Of text .trailingDot :=
    getLast?_utf8_eq_dot_iff hlt
  have hip : isIpLiteral (asciiText (Wire.utf8 text)) = true ↔ Defect.Of text .ipLiteral := by
    rw [asciiText_utf8 hlt, isIpLiteral_iff, Defect.Of]
  by_cases h₃ : Defect.Of text .trailingDot
  · rw [if_pos (hdot.mpr h₃), decide_eq_true h₃]
  rw [if_neg (mt hdot.mp h₃), decide_eq_false h₃]
  by_cases h₄ : Defect.Of text .ipLiteral
  · rw [if_pos (hip.mpr h₄), decide_eq_true h₄]
  · rw [if_neg (mt hip.mp h₄), decide_eq_false h₄, List.find?_nil]

theorem defect?_utf8_eq_none_iff :
    defect? (Wire.utf8 text) = none ↔ ∀ defect, ¬Defect.Of text defect := by
  classical
  rw [defect?_utf8, List.find?_eq_none]
  simp only [decide_eq_true_eq]
  constructor
  · intro h defect
    exact h defect (by cases defect <;> decide)
  · exact fun h defect _ => h defect

theorem defect?_utf8_eq_some_iff {defect : Defect} :
    defect? (Wire.utf8 text) = some defect ↔
      ∃ before after, Defect.all = before ++ defect :: after ∧ defect.Of text ∧
        ∀ earlier ∈ before, ¬earlier.Of text := by
  classical
  rw [defect?_utf8, List.find?_eq_some_iff_append]
  simp only [decide_eq_true_eq, Bool.not_eq_true', decide_eq_false_iff_not]
  constructor
  · rintro ⟨hdefect, before, after, hall, hbefore⟩
    exact ⟨before, after, hall, hdefect, hbefore⟩
  · rintro ⟨before, after, hall, hdefect, hbefore⟩
    exact ⟨hdefect, before, after, hall, hbefore⟩

/-- A text without a defect is read as its lower case. -/
theorem read_utf8_eq_ok_iff {name : String} :
    read (Wire.utf8 text) = .ok name ↔ name = text.toLower ∧ ∀ defect, ¬Defect.Of text defect := by
  rw [read_eq_ok_iff, defect?_utf8_eq_none_iff, and_comm]
  refine and_congr_left fun hdefect => ?_
  have hlt : ∀ octet ∈ Wire.utf8 text, octet < 128 :=
    (defect?_eq_none_iff.mp (defect?_utf8_eq_none_iff.mpr hdefect)).2.1
  have hlower : String.ofList (text.toList.map Char.toLower) = text.toLower := by
    rw [← LetterCase.toLower_ofList, String.ofList_toList]
  rw [asciiText_map_toAsciiLower, asciiText_utf8 hlt, hlower]

end HostName

/-- **Which texts are host names.**  A text is accepted exactly when it has none of four defects,
and the entry then holds it in lower case: it has 1 to 253 octets, all in ASCII, it does not end in
a dot, and it is not an IP address.  Otherwise the error names the first defect that it has.  For a
text to be an IP address means to be in the grammar. -/
theorem Entry.ofHostName_outcome (text : String) :
    (∀ entry, ofHostName text = .ok entry ↔
      entry = .host text.toLower ∧ ∀ defect, ¬HostName.Defect.Of text defect) ∧
    (∀ error, ofHostName text = .error error ↔
      ∃ before defect after, HostName.Defect.all = before ++ defect :: after ∧
        error = .hostName defect ∧ defect.Of text ∧ ∀ earlier ∈ before, ¬earlier.Of text) ∧
    (HostName.isIpLiteral text.toList = true ↔
      Ipv4.IsText text.toList ∨ Ipv6.IsText text.toList) := by
  refine ⟨fun entry => ?_, fun error => ?_, HostName.isIpLiteral_iff⟩
  · rw [ofHostName, ofHostOctets_eq_ok_iff]
    simp only [HostName.read_utf8_eq_ok_iff]
    constructor
    · rintro ⟨name, ⟨rfl, hdefect⟩, rfl⟩
      exact ⟨rfl, hdefect⟩
    · rintro ⟨rfl, hdefect⟩
      exact ⟨_, ⟨rfl, hdefect⟩, rfl⟩
  · rw [ofHostName, ofHostOctets_eq_error_iff]
    simp only [HostName.read_eq_error_iff, HostName.defect?_utf8_eq_some_iff]
    constructor
    · rintro ⟨defect, ⟨before, after, hall, hdefect, hbefore⟩, herror⟩
      exact ⟨before, defect, after, hall, herror, hdefect, hbefore⟩
    · rintro ⟨before, defect, after, hall, herror, hdefect, hbefore⟩
      exact ⟨defect, ⟨before, after, hall, hdefect, hbefore⟩, herror⟩

end PskHandshake.Sni
