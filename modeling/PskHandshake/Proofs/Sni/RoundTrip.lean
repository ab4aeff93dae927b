/-
Encoding a server name list and decoding it again.

The invariant of runs is what decoding needs: read as raw entries, the entries of a well-formed list
are what its encoding holds, and each of them is made into the entry that it came from.

* `NameList.WellFormed.holds_encode` — the encoding holds the entries of the list;
* `NameList.WellFormed.decode_encode` — so it decodes to the list;
* `NameList.decode_encode_of_run` — and so for every list that a run of operations ends with.
-/
import PskHandshake.Proofs.Sni.Run

namespace PskHandshake.Sni

namespace Entry

/-- An entry as it is written on the wire. -/
def raw (entry : Entry) : RawEntry := ⟨entry.type.code, entry.octets⟩

theorem Sound.valid_raw {entry : Entry} (h : entry.Sound) : entry.raw.Valid := by
  rw [RawEntry.Valid]
  cases entry with
  | host name =>
    rw [if_pos (show (host name).raw.code = 0 from rfl)]
    exact HostName.Canonical.defect?_eq_none h
  | other code name =>
    rw [if_neg (show (other code name).raw.code ≠ 0 from h.1)]
    exact h.2

/-- What is written for a sound entry is made into the entry again. -/
theorem Sound.entry_raw {entry : Entry} (h : entry.Sound) : entry.raw.entry = entry := by
  rw [RawEntry.entry]
  cases entry with
  | host name =>
    rw [if_pos (show (host name).raw.code = 0 from rfl)]
    exact congrArg host (HostName.read_eq_ok_iff.mp h).2.symm
  | other code name =>
    rw [if_neg (show (other code name).raw.code ≠ 0 from h.1)]
    rfl

end Entry

/-- Entries whose names fit a vector are spelled by their encodings. -/
theorem RawEntry.spelled_encode {entries : List Entry}
    (hfits : ∀ entry ∈ entries, entry.octets.length ≤ Wire.maxUint16) :
    Spelled (entries.map Entry.raw) (entries.flatMap Entry.encode) := by
  induction entries with
  | nil => exact .nil
  | cons entry entries ih =>
    obtain ⟨hentry, hentries⟩ := List.forall_mem_cons.mp hfits
    exact .cons (Wire.carries_iff.mpr ⟨rfl, hentry⟩) (ih hentries)

namespace NameList

variable {names : NameList}

/-- In a list that fits a vector, so does every name. -/
theorem WellFormed.octets_length_le (h : names.WellFormed) :
    ∀ entry ∈ names.entries, entry.octets.length ≤ Wire.maxUint16 := by
  intro entry hentry
  have hsize := h.size_le hentry
  rw [Entry.size] at hsize
  omega

theorem WellFormed.holds_encode (h : names.WellFormed) :
    Holds names.encode (names.entries.map Entry.raw) := by
  refine ⟨⟨names.entries.flatMap Entry.encode, ?_, ?_⟩, ?_, ?_, ?_⟩
  · -- the length of the list fits its word, so nothing of it is lost
    rw [Wire.carries_iff, length_flatMap_encode]
    refine ⟨?_, h.fits⟩
    rw [Wire.vector16, length_flatMap_encode]
    rfl
  · exact RawEntry.spelled_encode h.octets_length_le
  · intro hentries
    exact h.nonempty (List.map_eq_nil_iff.mp hentries)
  · rw [List.map_map]
    exact h.distinct
  · refine List.forall_mem_map.mpr ?_
    intro entry hentry
    exact (h.sound entry hentry).valid_raw

theorem WellFormed.decode_encode (h : names.WellFormed) : decode names.encode = .ok names := by
  refine decode_eq_ok_iff.mpr ⟨_, h.holds_encode, ?_⟩
  have hentries : (names.entries.map Entry.raw).map RawEntry.entry = names.entries := by
    rw [List.map_map]
    calc names.entries.map (RawEntry.entry ∘ Entry.raw)
        = names.entries.map id :=
          List.map_congr_left fun entry hentry => (h.sound entry hentry).entry_raw
      _ = names.entries := List.map_id _
  rw [hentries]

/-- **Encoding loses nothing.**  A list that a run of operations ends with decodes from its
encoding; it is not empty, and neither its length nor the length of a name in it is too large for
the word in which it is written. -/
theorem decode_encode_of_run {origin : Origin} {additions : List Addition}
    (h : run origin additions = .ok names) :
    decode names.encode = .ok names ∧ names.entries ≠ [] ∧ names.size ≤ Wire.maxUint16 ∧
      ∀ entry ∈ names.entries, entry.octets.length ≤ Wire.maxUint16 := by
  have hnames := wellFormed_of_run h
  exact ⟨hnames.decode_encode, hnames.nonempty, hnames.fits, hnames.octets_length_le⟩

/-- A host name in mixed case and a name of another type come back from the wire; three of the
additions fail. -/
theorem decode_encode_of_run_mixed :
    run (.hostName "CoAP.Example")
        [.other 7 [0xde, 0xad], .hostName "b.example", .other 0 [1], .other 7 [2]] =
      .ok ⟨[.host "coap.example", .other 7 [0xde, 0xad]]⟩ ∧
    decode (encode ⟨[.host "coap.example", .other 7 [0xde, 0xad]]⟩) =
      .ok ⟨[.host "coap.example", .other 7 [0xde, 0xad]]⟩ := by
  have hrun : run (.hostName "CoAP.Example")
      [.other 7 [0xde, 0xad], .hostName "b.example", .other 0 [1], .other 7 [2]] =
        .ok ⟨[.host "coap.example", .other 7 [0xde, 0xad]]⟩ := by decide +kernel
  exact ⟨hrun, (decode_encode_of_run hrun).1⟩

end NameList

end PskHandshake.Sni
