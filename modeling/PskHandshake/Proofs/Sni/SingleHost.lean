/-
Lists with a single host name.

A host name is given as a text, or comes as octets from the wire, and is kept in lower case.  The
two ways agree, whatever is refused and for whatever reason, and neither depends on letter case.

* `Entry.ofHostName_eq_ofText` — lower case may be taken of the text or of its octets;
* `Entry.ofHostName_toLower` — letter case plays no part;
* `NameList.decode_hostExtension` — a host name as the only entry of the extension;
* `NameList.decode_hostExtension_eq_ofHostName` — host names are built and read alike.
-/
import PskHandshake.Proofs.Sni.Accepted
import PskHandshake.Proofs.Sni.Format

namespace PskHandshake.Sni

namespace Entry

/-- The entry for a host name, made from the text and not from its octets: its lower case, if the
text has no defect. -/
def ofText (text : String) : Except Error Entry :=
  match HostName.defect? (Wire.utf8 text) with
  | some defect => .error (.hostName defect)
  | none => .ok (.host text.toLower)

theorem ofHostName_eq_ofText (text : String) : ofHostName text = ofText text := by
  rw [ofHostName, ofHostOctets, ofText]
  rcases hdefect : HostName.defect? (Wire.utf8 text) with _ | defect
  · have hread : HostName.read (Wire.utf8 text) = .ok text.toLower :=
      HostName.read_utf8_eq_ok_iff.mpr ⟨rfl, HostName.defect?_utf8_eq_none_iff.mp hdefect⟩
    rw [hread]
  · rw [HostName.read_eq_error_iff.mpr hdefect]

/-- The entry for a host name does not depend on letter case. -/
theorem ofHostName_toLower (text : String) : ofHostName text.toLower = ofHostName text := by
  rw [ofHostName, ofHostName, ofHostOctets, ofHostOctets, ← HostName.read_map_toAsciiLower,
    HostName.map_toAsciiLower_utf8_toLower, HostName.read_map_toAsciiLower]

end Entry

namespace NameList

/-- The extension with a host name as its only entry: the length of the list, the code of host
names, the length of the name, and the name. -/
def hostExtension (name : Bytes) : Bytes :=
  Wire.uint16 (3 + name.length) ++ 0 :: Wire.uint16 name.length ++ name

variable {name : Bytes}

theorem carries_hostExtension (h : name.length ≤ Wire.maxUint16 - Entry.headerSize) :
    Wire.Carries (hostExtension name) (0 :: (Wire.vector16 name ++ [])) := by
  have hbody : (0 :: (Wire.vector16 name ++ [])).length = 3 + name.length := by
    rw [List.append_nil, List.length_cons, Wire.length_vector16]
    omega
  have hroom : 3 + name.length ≤ Wire.maxUint16 := by
    rw [Wire.maxUint16, Entry.headerSize] at h
    rw [Wire.maxUint16]
    omega
  rw [Wire.carries_iff, hbody]
  refine ⟨?_, hroom⟩
  rw [hostExtension, Wire.vector16, hbody, List.append_nil, List.append_assoc]
  rfl

/-- A list with a host name as its only entry is read as the entry for these octets. -/
theorem decode_hostExtension (h : name.length ≤ Wire.maxUint16 - Entry.headerSize) :
    decode (hostExtension name) = (Entry.ofHostOctets name).map fun entry => ⟨[entry]⟩ := by
  have hfield : Wire.Carries (Wire.vector16 name) (RawEntry.mk 0 name).name :=
    Wire.carries_iff.mpr ⟨rfl, h.trans (Nat.sub_le _ _)⟩
  have hroom : Entry.headerSize + name.length ≤ Wire.maxUint16 := by
    rw [Wire.maxUint16, Entry.headerSize] at h ⊢
    omega
  rw [decode_of_carries (carries_hostExtension h) (List.cons_ne_nil _ _),
    takeEntries_of_ne_nil _ (List.cons_ne_nil _ _), takeEntry_of_carries _ hfield]
  rcases hentry : Entry.ofHostOctets name with error | entry
  · have hwire : Entry.ofWire 0 name = .error error := hentry
    rw [hwire]
    rfl
  · have hwire : Entry.ofWire 0 name = .ok entry := hentry
    obtain ⟨hvalid, rfl⟩ := (@RawEntry.ofWire_eq_ok_iff ⟨0, name⟩ entry hroom).mp hwire
    have hadd : add ⟨[]⟩ (RawEntry.mk 0 name).entry = .ok ⟨[(RawEntry.mk 0 name).entry]⟩ := by
      refine add_eq_ok_iff.mpr ⟨rfl, ?_, rfl⟩
      rwa [size_nil, Nat.zero_add, RawEntry.size_entry hvalid]
    rw [hwire]
    change ((add ⟨[]⟩ _).map _).bind _ = _
    rw [hadd]
    exact takeEntries_nil _

/-- **Host names are built and read alike.**  A text that fits in a list makes the same list, or is
refused with the same error, whether a list is made for it or the extension is read whose only entry
has its octets; and so it does when the name that is kept is the lower case of the text and not of
its octets.  Texts that differ in letter case only make the same list or are refused with the same
error. -/
theorem decode_hostExtension_eq_ofHostName :
    (∀ text : String, text.utf8ByteSize ≤ 65532 →
      decode (hostExtension (Wire.utf8 text)) = ofHostName text ∧
        ofHostName text = (Entry.ofText text).map fun entry => ⟨[entry]⟩) ∧
      ∀ text text' : String, text.toLower = text'.toLower → ofHostName text = ofHostName text' := by
  constructor
  · intro text hlength
    refine ⟨decode_hostExtension hlength, ?_⟩
    rw [ofHostName, Entry.ofHostName_eq_ofText]
  · intro text text' hcase
    rw [ofHostName, ofHostName, ← Entry.ofHostName_toLower text, hcase, Entry.ofHostName_toLower]

/-- A host name in mixed case, and an IP literal in two spellings that is refused either way. -/
theorem decode_hostExtension_eq_ofHostName_mixed :
    decode (hostExtension (Wire.utf8 "CoAP.Example")) = .ok ⟨[.host "coap.example"]⟩ ∧
      decode (hostExtension (Wire.utf8 "FE80::1")) = .error (.hostName .ipLiteral) ∧
        ofHostName "fe80::1" = .error (.hostName .ipLiteral) := by
  obtain ⟨hread, hcase⟩ := decode_hostExtension_eq_ofHostName
  have hhost : ofHostName "CoAP.Example" = .ok ⟨[.host "coap.example"]⟩ := by decide +kernel
  have hliteral : ofHostName "FE80::1" = .error (.hostName .ipLiteral) := by decide +kernel
  have hlower : "fe80::1".toLower = "FE80::1".toLower := by
    rw [← String.toList_inj, LetterCase.toList_toLower, LetterCase.toList_toLower]
    decide
  refine ⟨?_, ?_, ?_⟩
  · rw [(hread "CoAP.Example" (by decide)).1, hhost]
  · rw [(hread "FE80::1" (by decide)).1, hliteral]
  · rw [hcase "fe80::1" "FE80::1" hlower, hliteral]

end NameList

end PskHandshake.Sni
