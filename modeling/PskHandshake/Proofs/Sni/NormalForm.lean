/-
The normal form of a server name list on the wire.

A list keeps nothing of the octets that it was decoded from but the entries, and of a host name not
even its letter case.  So encoding it again gives back the octets, with the host name in lower case:
`NameList.HostNameAt` says where in the octets the host name stands.

* `RawEntry.raw_entry`, `NameList.exists_holds_of_decode` — what is kept of an entry, and of a list,
  is what was read with a host name in lower case;
* `NameList.HostNameAt.encode_eq` — so encoding changes the octets at the place of the host name
  only;
* `NameList.sameButHostCase_of_decode` — and only there do octets of one list differ;
* `NameList.encode_decode_normalizes` — encoding after decoding is a normal form.
-/
import PskHandshake.Proofs.Sni.RoundTrip

namespace PskHandshake.Sni

namespace RawEntry

/-- An entry on the wire: the code of its type, and its name as a vector. -/
def encode (raw : RawEntry) : Bytes := raw.code :: Wire.vector16 raw.name

/-- The entry with a host name in lower case. -/
def lower (raw : RawEntry) : RawEntry :=
  { raw with name := if raw.code = 0 then raw.name.map UInt8.toAsciiLower else raw.name }

variable {raw : RawEntry} {raws before after : List RawEntry} {name : Bytes}

/-! ### Entries in lower case -/

theorem map_code_map_lower (raws : List RawEntry) : (raws.map lower).map code = raws.map code := by
  rw [List.map_map]
  rfl

theorem map_lower_of_notMem (h : 0 ∉ raws.map code) : raws.map lower = raws := by
  calc raws.map lower = raws.map id := by
        refine List.map_congr_left fun raw hraw => ?_
        have hcode : raw.code ≠ 0 := fun hcode => h (hcode ▸ List.mem_map_of_mem hraw)
        rw [lower, if_neg hcode, id]
    _ = raws := List.map_id _

/-- Beside a host name there are names of other types only. -/
theorem notMem_of_nodup (h : ((before ++ ⟨0, name⟩ :: after).map code).Nodup) :
    0 ∉ before.map code ∧ 0 ∉ after.map code := by
  rw [List.map_append, List.map_cons, List.nodup_middle, List.nodup_cons, List.mem_append,
    not_or] at h
  exact h.1

/-- The one host name of some entries is what changes in lower case. -/
theorem map_lower_middle (hbefore : 0 ∉ before.map code) (hafter : 0 ∉ after.map code) :
    (before ++ ⟨0, name⟩ :: after).map lower =
      before ++ ⟨0, name.map UInt8.toAsciiLower⟩ :: after := by
  rw [List.map_append, List.map_cons, map_lower_of_notMem hbefore, map_lower_of_notMem hafter]
  rfl

/-- Entries that have this form in lower case have it as they are. -/
theorem eq_middle_of_map_lower (hbefore : 0 ∉ before.map code) (hafter : 0 ∉ after.map code)
    (hlower : raws.map lower = before ++ ⟨0, name⟩ :: after) :
    ∃ name', raws = before ++ ⟨0, name'⟩ :: after ∧ name'.map UInt8.toAsciiLower = name := by
  obtain ⟨before', rest, rfl, rfl, hrest⟩ := List.map_eq_append_iff.mp hlower
  obtain ⟨⟨code', name'⟩, after', rfl, hhost, rfl⟩ := List.map_eq_cons_iff.mp hrest
  obtain ⟨rfl, hname⟩ := mk.inj hhost
  rw [map_code_map_lower] at hbefore hafter
  rw [map_lower_of_notMem hbefore, map_lower_of_notMem hafter]
  exact ⟨name', rfl, hname⟩

/-! ### Entries as they are written -/

/-- What is written of an entry is what was read, with a host name in lower case. -/
theorem raw_entry (h : raw.Valid) : raw.entry.raw = raw.lower := by
  obtain ⟨htype, hoctets⟩ := Prod.mk.inj (content_entry h)
  rw [Entry.raw, htype, hoctets, NameType.code_ofCode]
  rfl

theorem Spelled.eq_flatMap_encode {bytes : Bytes} (h : Spelled raws bytes) :
    bytes = raws.flatMap encode := by
  induction h with
  | nil => rfl
  | cons hfield _ ih =>
    rw [List.flatMap_cons, ← ih, (Wire.carries_iff.mp hfield).1]
    rfl

end RawEntry

namespace NameList

/-- The octets hold a list with a host name, whose octets stand between `front` and `back`.  In
front of them are the length of the list, the entries before that of the host name, its code, and
the length of the host name; behind them are the other entries. -/
def HostNameAt (bytes front name back : Bytes) : Prop :=
  ∃ before after : List RawEntry, Holds bytes (before ++ ⟨0, name⟩ :: after) ∧
    front = bytes.take 2 ++ before.flatMap RawEntry.encode ++ 0 :: Wire.uint16 name.length ∧
      back = after.flatMap RawEntry.encode

/-- The octets are the same, or they hold lists that differ in the letter case of the host name. -/
def SameButHostCase (bytes bytes' : Bytes) : Prop :=
  bytes = bytes' ∨ ∃ front name name' back, HostNameAt bytes front name back ∧
    HostNameAt bytes' front name' back ∧
      name.map UInt8.toAsciiLower = name'.map UInt8.toAsciiLower

variable {names names' : NameList} {bytes bytes' front name back : Bytes}

theorem encode_eq_vector16 (names : NameList) :
    names.encode = Wire.vector16 ((names.entries.map Entry.raw).flatMap RawEntry.encode) := by
  rw [List.flatMap_map]
  change _ = Wire.vector16 (names.entries.flatMap Entry.encode)
  rw [Wire.vector16, length_flatMap_encode, encode]

theorem Holds.eq_vector16 {raws : List RawEntry} (h : Holds bytes raws) :
    bytes = Wire.vector16 (raws.flatMap RawEntry.encode) := by
  obtain ⟨body, hbody, hraws⟩ := h.framed
  rw [← hraws.eq_flatMap_encode]
  exact (Wire.carries_iff.mp hbody).1

/-- The entries of a decoded list are those that its octets hold, with a host name in lower case. -/
theorem exists_holds_of_decode (h : decode bytes = .ok names) :
    ∃ raws, Holds bytes raws ∧ names.entries.map Entry.raw = raws.map RawEntry.lower := by
  obtain ⟨raws, hraws, rfl⟩ := decode_eq_ok_iff.mp h
  refine ⟨raws, hraws, ?_⟩
  rw [List.map_map]
  exact List.map_congr_left fun raw hraw => RawEntry.raw_entry (hraws.valid raw hraw)

/-! ### The place of the host name -/

theorem take_two_vector16 (body : Bytes) : (Wire.vector16 body).take 2 = Wire.uint16 body.length :=
  rfl

/-- The octets of a list are those of another that differs in the octets of the host name only,
except for these octets. -/
theorem vector16_middle (before after : List RawEntry) {name name' : Bytes}
    (hlength : name'.length = name.length) :
    Wire.vector16 ((before ++ ⟨0, name'⟩ :: after).flatMap RawEntry.encode) =
      (Wire.vector16 ((before ++ ⟨0, name⟩ :: after).flatMap RawEntry.encode)).take 2 ++
          before.flatMap RawEntry.encode ++ 0 :: Wire.uint16 name.length ++
        name' ++ after.flatMap RawEntry.encode := by
  rw [take_two_vector16]
  simp [Wire.vector16, RawEntry.encode, hlength]

theorem HostNameAt.eq_append (h : HostNameAt bytes front name back) :
    bytes = front ++ name ++ back := by
  obtain ⟨before, after, hholds, rfl, rfl⟩ := h
  rw [hholds.eq_vector16]
  exact vector16_middle before after rfl

theorem HostNameAt.encode_eq (h : HostNameAt bytes front name back)
    (hnames : decode bytes = .ok names) :
    names.encode = front ++ name.map UInt8.toAsciiLower ++ back := by
  obtain ⟨before, after, hholds, rfl, rfl⟩ := h
  obtain ⟨raws, hraws, hentries⟩ := exists_holds_of_decode hnames
  obtain rfl := hraws.unique hholds
  obtain ⟨hbefore, hafter⟩ := RawEntry.notMem_of_nodup hholds.distinct
  rw [encode_eq_vector16, hentries, RawEntry.map_lower_middle hbefore hafter, hholds.eq_vector16]
  exact vector16_middle before after (List.length_map _)

/-- Octets that hold a list without a host name are the encoding of the list. -/
theorem Holds.encode_eq_of_notMem {raws : List RawEntry} (h : Holds bytes raws)
    (hnames : decode bytes = .ok names) (hcodes : 0 ∉ raws.map RawEntry.code) :
    names.encode = bytes := by
  obtain ⟨raws', hraws', hentries⟩ := exists_holds_of_decode hnames
  obtain rfl := hraws'.unique h
  rw [encode_eq_vector16, hentries, RawEntry.map_lower_of_notMem hcodes, h.eq_vector16]

/-- A list has a host name, in one place, or it has none. -/
theorem Holds.hostNameAt_or_notMem {raws : List RawEntry} (h : Holds bytes raws) :
    (∃ front name back, HostNameAt bytes front name back) ∨ 0 ∉ raws.map RawEntry.code := by
  by_cases hcode : 0 ∈ raws.map RawEntry.code
  · obtain ⟨⟨code, name⟩, hraw, rfl⟩ := List.mem_map.mp hcode
    obtain ⟨before, after, rfl⟩ := List.append_of_mem hraw
    exact .inl ⟨_, name, _, before, after, h, rfl, rfl⟩
  · exact .inr hcode

/-! ### Octets of one list -/

theorem SameButHostCase.encode_eq (h : SameButHostCase bytes bytes')
    (hnames : decode bytes = .ok names) (hnames' : decode bytes' = .ok names') :
    names.encode = names'.encode := by
  rcases h with rfl | ⟨front, name, name', back, hplace, hplace', hcase⟩
  · rw [Except.ok.inj (hnames.symm.trans hnames')]
  · rw [hplace.encode_eq hnames, hplace'.encode_eq hnames', hcase]

theorem sameButHostCase_of_decode (hnames : decode bytes = .ok names)
    (hnames' : decode bytes' = .ok names) : SameButHostCase bytes bytes' := by
  obtain ⟨raws, hraws, hentries⟩ := exists_holds_of_decode hnames
  obtain ⟨raws', hraws', hentries'⟩ := exists_holds_of_decode hnames'
  have hlower : raws'.map RawEntry.lower = raws.map RawEntry.lower := by rw [← hentries, hentries']
  obtain ⟨front, name, back, before, after, hholds, rfl, rfl⟩ | hcodes := hraws.hostNameAt_or_notMem
  · obtain rfl := hraws.unique hholds
    obtain ⟨hbefore, hafter⟩ := RawEntry.notMem_of_nodup hholds.distinct
    rw [RawEntry.map_lower_middle hbefore hafter] at hlower
    obtain ⟨name', rfl, hname⟩ := RawEntry.eq_middle_of_map_lower hbefore hafter hlower
    refine .inr ⟨_, name, name', _, ⟨before, after, hholds, rfl, rfl⟩,
      ⟨before, after, hraws', ?_, rfl⟩, hname.symm⟩
    -- the lengths in front of the host name are those of the other list
    have hlength : name'.length = name.length := by simpa using congrArg List.length hname
    rw [hholds.eq_vector16, hraws'.eq_vector16, take_two_vector16, take_two_vector16]
    simp [RawEntry.encode, hlength]
  · have hcodes' : 0 ∉ raws'.map RawEntry.code := by
      rwa [← RawEntry.map_code_map_lower, hlower, RawEntry.map_code_map_lower]
    rw [RawEntry.map_lower_of_notMem hcodes, RawEntry.map_lower_of_notMem hcodes'] at hlower
    exact .inl (by rw [hraws.eq_vector16, hraws'.eq_vector16, hlower])

/-! ### The normal form -/

theorem WellFormed.encode_inj (h : names.WellFormed) (h' : names'.WellFormed) :
    names = names' ↔ names.encode = names'.encode := by
  constructor
  · rintro rfl
    rfl
  · intro hencode
    have hdecode := h.decode_encode
    rw [hencode, h'.decode_encode] at hdecode
    exact (Except.ok.inj hdecode).symm

/-- **Encoding again normalizes.**  Octets that are accepted are, when the list is encoded again,
the same octets with the host name in lower case at its place, or the very same if there is no host
name; their number stays, and decoding and encoding once more changes nothing.  So octets decode to
the same list exactly when they differ in the letter case of the host name at most, and two lists
that come from runs of operations are the same exactly when their encodings are. -/
theorem encode_decode_normalizes :
    (∀ bytes names, decode bytes = .ok names →
      names.encode.length = bytes.length ∧
      ((∃ front name back, HostNameAt bytes front name back ∧ bytes = front ++ name ++ back ∧
          names.encode = front ++ name.map UInt8.toAsciiLower ++ back) ∨
        (∀ raws, Holds bytes raws → ∀ raw ∈ raws, raw.code ≠ 0) ∧ names.encode = bytes) ∧
      decode names.encode = .ok names) ∧
    (∀ bytes bytes' names names', decode bytes = .ok names → decode bytes' = .ok names' →
      (names = names' ↔ SameButHostCase bytes bytes')) ∧
    ∀ names names' : NameList, names.Reachable → names'.Reachable →
      (names = names' ↔ names.encode = names'.encode) := by
  refine ⟨?_, ?_, ?_⟩
  · intro bytes names hnames
    have hdecode := (wellFormed_of_decode hnames).decode_encode
    obtain ⟨raws, hraws, -⟩ := exists_holds_of_decode hnames
    obtain ⟨front, name, back, hplace⟩ | hcodes := hraws.hostNameAt_or_notMem
    · have hbytes := hplace.eq_append
      have hencode := hplace.encode_eq hnames
      refine ⟨?_, .inl ⟨front, name, back, hplace, hbytes, hencode⟩, hdecode⟩
      rw [hencode, hbytes]
      simp only [List.length_append, List.length_map]
    · have hencode := hraws.encode_eq_of_notMem hnames hcodes
      refine ⟨by rw [hencode], .inr ⟨?_, hencode⟩, hdecode⟩
      intro raws' hraws' raw hraw hcode
      obtain rfl := hraws.unique hraws'
      exact hcodes (hcode ▸ List.mem_map_of_mem hraw)
  · intro bytes bytes' names names' hnames hnames'
    constructor
    · rintro rfl
      exact sameButHostCase_of_decode hnames hnames'
    · intro hsame
      rw [(wellFormed_of_decode hnames).encode_inj (wellFormed_of_decode hnames')]
      exact hsame.encode_eq hnames hnames'
  · intro names names' hnames hnames'
    exact hnames.wellFormed.encode_inj hnames'.wellFormed

/-- Two spellings of one list, with octets of another name that look like a letter and a header; and
a list with one name less. -/
theorem encode_decode_normalizes_mixed :
    let bytes : Bytes := [0, 11, 7, 0, 2, 0x41, 0, 0, 0, 3, 0x41, 0x2e, 0x62]
    let bytes' : Bytes := [0, 11, 7, 0, 2, 0x41, 0, 0, 0, 3, 0x61, 0x2e, 0x42]
    let names : NameList := ⟨[.other 7 [0x41, 0], .host "a.b"]⟩
    let fewer : NameList := ⟨[.host "a.b"]⟩
    (decode bytes = .ok names ∧ names.encode.length = bytes.length) ∧
      (decode bytes' = .ok names ∧ SameButHostCase bytes bytes') ∧
        names.Reachable ∧ fewer.Reachable ∧ names.encode ≠ fewer.encode := by
  intro bytes bytes' names fewer
  have hnames : decode bytes = .ok names := by decide +kernel
  have hnames' : decode bytes' = .ok names := by decide +kernel
  have hreachable : names.Reachable := ⟨.wire bytes, [], by decide +kernel⟩
  have hfewer : fewer.Reachable := ⟨.hostName "A.b", [], by decide +kernel⟩
  obtain ⟨hencode, hsame, hinj⟩ := encode_decode_normalizes
  obtain ⟨hlength, -⟩ := hencode bytes names hnames
  refine ⟨⟨hnames, hlength⟩, ⟨hnames', (hsame _ _ _ _ hnames hnames').mp rfl⟩,
    hreachable, hfewer, ?_⟩
  rw [ne_eq, ← hinj names fewer hreachable hfewer]
  decide

end NameList

end PskHandshake.Sni
