/-
The format of server name lists, and that decoding accepts exactly the format.

The format is said without the decoder: `RawEntry.Spelled` puts entries one after the other, and
`NameList.Holds` adds the frame around them and what is asked of them.  The decoder reads an entry
at a time, and one lemma for a step carries over to the loop.

* `NameList.takeEntry_eq_ok_iff` — when a step succeeds, and what it leaves;
* `NameList.takeEntries_eq_ok_iff` — the same for the loop;
* `NameList.decode_eq_ok_iff` — octets decode to the entries that they hold;
* `NameList.decode_accepts_format` — the format is what is accepted, and decides the result.
-/
import PskHandshake.Proofs.Sni.Entry
import PskHandshake.Sni.NameList

namespace PskHandshake.Sni

/-- An entry as it stands on the wire: the code of its type, and its name. -/
structure RawEntry where
  code : UInt8
  name : Bytes
deriving DecidableEq, Repr

namespace RawEntry

/-- What is asked of the name of an entry: to be a host name where the type is that of host names,
and not to be empty where it is another. -/
def Valid (raw : RawEntry) : Prop :=
  if raw.code = 0 then HostName.defect? raw.name = none else raw.name ≠ []

instance (raw : RawEntry) : Decidable raw.Valid :=
  inferInstanceAs
    (Decidable (if raw.code = 0 then HostName.defect? raw.name = none else raw.name ≠ []))

/-- What is kept of an entry: its type, and the octets of its name, those of a host name in lower
case. -/
def content (raw : RawEntry) : NameType × Bytes :=
  (NameType.ofCode raw.code,
    if raw.code = 0 then raw.name.map UInt8.toAsciiLower else raw.name)

/-- The octets are those of the entries, one after the other: of each the code, and the name as a
vector. -/
inductive Spelled : List RawEntry → Bytes → Prop
  | nil : Spelled [] []
  | cons {raw : RawEntry} {raws : List RawEntry} {field rest : Bytes} :
      Wire.Carries field raw.name → Spelled raws rest →
        Spelled (raw :: raws) (raw.code :: (field ++ rest))

/-- The entry that is made of a valid one from the wire. -/
def entry (raw : RawEntry) : Entry :=
  if raw.code = 0 then
    .host (String.ofList (HostName.asciiText (raw.name.map UInt8.toAsciiLower)))
  else
    .other raw.code raw.name

end RawEntry

/-- The octets are a server name list with the given entries: a vector of at least one entry, each
of them valid, and no two of one type. -/
structure NameList.Holds (bytes : Bytes) (raws : List RawEntry) : Prop where
  framed : ∃ body, Wire.Carries bytes body ∧ RawEntry.Spelled raws body
  nonempty : raws ≠ []
  distinct : (raws.map RawEntry.code).Nodup
  valid : ∀ raw ∈ raws, raw.Valid

/-! ### One entry -/

namespace RawEntry

variable {raw : RawEntry}

@[simp] theorem type_entry (raw : RawEntry) : raw.entry.type = NameType.ofCode raw.code := by
  rw [entry, NameType.ofCode]
  split <;> rfl

/-- Different codes stand for different types. -/
theorem type_entry_inj {raw raw' : RawEntry} :
    raw.entry.type = raw'.entry.type ↔ raw.code = raw'.code := by
  rw [type_entry, type_entry]
  constructor
  · intro h
    rw [← NameType.code_ofCode raw.code, h, NameType.code_ofCode]
  · intro h
    rw [h]

theorem content_entry (h : raw.Valid) : raw.entry.content = raw.content := by
  rw [Entry.content, type_entry, content, Prod.mk.injEq]
  refine ⟨rfl, ?_⟩
  rw [Valid] at h
  by_cases hcode : raw.code = 0
  · -- a host name keeps its octets in lower case
    rw [if_pos hcode] at h
    rw [entry, if_pos hcode, if_pos hcode]
    exact HostName.utf8_of_read (HostName.read_eq_ok_iff.mpr ⟨h, rfl⟩)
  · rw [entry, if_neg hcode, if_neg hcode]
    rfl

theorem sound_entry (h : raw.Valid) : raw.entry.Sound := by
  rw [Valid] at h
  rw [entry]
  split at h
  next hcode =>
    rw [if_pos hcode]
    exact HostName.canonical_of_read (HostName.read_eq_ok_iff.mpr ⟨h, rfl⟩)
  next hcode =>
    rw [if_neg hcode]
    exact ⟨hcode, h⟩

theorem size_entry (h : raw.Valid) : raw.entry.size = Entry.headerSize + raw.name.length := by
  have hoctets : raw.entry.octets = raw.content.2 := by rw [← content_entry h]; rfl
  rw [Entry.size, hoctets, content]
  split
  · rw [List.length_map]
  · rfl

/-- An entry that has room in a list is built exactly when it is valid. -/
theorem ofWire_eq_ok_iff {e : Entry}
    (hroom : Entry.headerSize + raw.name.length ≤ Wire.maxUint16) :
    Entry.ofWire raw.code raw.name = .ok e ↔ raw.Valid ∧ e = raw.entry := by
  rw [Entry.ofWire, Valid, entry]
  by_cases hcode : raw.code = 0
  · simp only [if_pos hcode, Entry.ofHostOctets_eq_ok_iff, HostName.read_eq_ok_iff]
    constructor
    · rintro ⟨text, ⟨hdefect, rfl⟩, rfl⟩
      exact ⟨hdefect, rfl⟩
    · rintro ⟨hdefect, rfl⟩
      exact ⟨_, ⟨hdefect, rfl⟩, rfl⟩
  · simp only [if_neg hcode, Entry.ofOther_eq_ok_iff]
    constructor
    · rintro ⟨-, hname, -, rfl⟩
      exact ⟨hname, rfl⟩
    · rintro ⟨hname, rfl⟩
      exact ⟨hcode, hname, hroom, rfl⟩

/-- Octets are too few for a header, or their header says more than is left, or an entry stands in
front of them. -/
theorem short_or_truncated_or_carries (bytes : Bytes) :
    bytes.length < Entry.headerSize ∨
      (∃ code high low tail, bytes = code :: high :: low :: tail ∧
        tail.length < Wire.uint16Value high low) ∨
      ∃ (raw : RawEntry) (field rest : Bytes), bytes = raw.code :: (field ++ rest) ∧
        Wire.Carries field raw.name := by
  match bytes with
  | [] | [_] | [_, _] => exact .inl (by simp [Entry.headerSize])
  | code :: high :: low :: tail =>
    by_cases h : tail.length < Wire.uint16Value high low
    · exact .inr (.inl ⟨code, high, low, tail, rfl, h⟩)
    · have hlength :
          (tail.take (Wire.uint16Value high low)).length = Wire.uint16Value high low := by
        rw [List.length_take, Nat.min_eq_left (Nat.le_of_not_lt h)]
      refine .inr (.inr ⟨⟨code, tail.take (Wire.uint16Value high low)⟩,
        high :: low :: tail.take (Wire.uint16Value high low), tail.drop (Wire.uint16Value high low),
        ?_, high, low, rfl, hlength.symm⟩)
      rw [List.cons_append, List.cons_append, List.take_append_drop]

/-- The octets of an entry that stands in front. -/
theorem length_front {raw : RawEntry} {field : Bytes} (h : Wire.Carries field raw.name)
    (rest : Bytes) :
    (raw.code :: (field ++ rest)).length = Entry.headerSize + raw.name.length + rest.length := by
  obtain ⟨high, low, rfl, -⟩ := h
  rw [Entry.headerSize]
  simp only [List.length_cons, List.length_append]
  omega

/-- The entry that stands in front of octets can be told from the octets, and so can what
follows. -/
theorem eq_of_front_eq {raw raw' : RawEntry} {field field' rest rest' : Bytes}
    (h : Wire.Carries field raw.name) (h' : Wire.Carries field' raw'.name)
    (hfront : raw.code :: (field ++ rest) = raw'.code :: (field' ++ rest')) :
    raw = raw' ∧ rest = rest' := by
  obtain ⟨hcode, happend⟩ := List.cons.inj hfront
  obtain ⟨hname, hrest⟩ := h.append_inj h' happend
  cases raw
  cases raw'
  exact ⟨congrArg₂ mk hcode hname, hrest⟩

/-- The octets that spell some entries are those that a list of the entries takes. -/
theorem Spelled.length_eq {raws : List RawEntry} {bytes : Bytes} (h : Spelled raws bytes)
    (hvalid : ∀ raw ∈ raws, raw.Valid) :
    bytes.length = NameList.size ⟨raws.map entry⟩ := by
  induction h with
  | nil => rfl
  | @cons raw raws field rest hfield _ ih =>
    obtain ⟨hraw, hraws⟩ := List.forall_mem_cons.mp hvalid
    rw [length_front hfield, List.map_cons, NameList.size_cons, size_entry hraw, ih hraws]

/-- Octets spell at most one list of entries. -/
theorem Spelled.unique {raws raws' : List RawEntry} {bytes : Bytes} (h : Spelled raws bytes)
    (h' : Spelled raws' bytes) : raws = raws' := by
  -- one reading is followed entry by entry, and the other taken apart along with it
  induction h generalizing raws' with
  | nil =>
    cases h'
    rfl
  | @cons raw raws field rest hfield _ ih =>
    generalize hbytes : raw.code :: (field ++ rest) = bytes at h'
    cases h' with
    | nil => cases hbytes
    | @cons raw' raws' field' rest' hfield' hrest' =>
      obtain ⟨rfl, rfl⟩ := eq_of_front_eq hfield hfield' hbytes
      rw [ih hrest']

end RawEntry

namespace NameList

variable {names names' : NameList} {bytes : Bytes}

theorem Holds.unique {raws raws' : List RawEntry} (h : Holds bytes raws)
    (h' : Holds bytes raws') : raws = raws' := by
  obtain ⟨body, hbody, hraws⟩ := h.framed
  obtain ⟨body', hbody', hraws'⟩ := h'.framed
  obtain ⟨rfl, -⟩ := hbody.append_inj hbody' (rfl : bytes ++ [] = bytes ++ [])
  exact hraws.unique hraws'

/-! ### The loop -/

theorem get?_append_eq_none_iff {entries : List Entry} {entry : Entry} {type : NameType} :
    get? ⟨entries ++ [entry]⟩ type = none ↔ get? ⟨entries⟩ type = none ∧ entry.type ≠ type := by
  simp [get?]

theorem takeEntry_of_short (names : NameList) (h : bytes.length < Entry.headerSize) :
    takeEntry names bytes = .error .entryTooShort := by
  match bytes with
  | [] | [_] | [_, _] => rfl
  | _ :: _ :: _ :: tail =>
    simp only [List.length_cons, Entry.headerSize] at h
    omega

theorem takeEntry_of_truncated (names : NameList) {code high low : UInt8} {tail : Bytes}
    (h : tail.length < Wire.uint16Value high low) :
    takeEntry names (code :: high :: low :: tail) = .error .nameTruncated := by
  rw [takeEntry, if_pos h]

/-- A step takes a whole entry in front of the octets. -/
theorem takeEntry_of_carries (names : NameList) {raw : RawEntry} {field : Bytes}
    (h : Wire.Carries field raw.name) (rest : Bytes) :
    takeEntry names (raw.code :: (field ++ rest)) =
      (Entry.ofWire raw.code raw.name >>= names.add).map fun names' => (names', rest) := by
  obtain ⟨high, low, rfl, hlength⟩ := h
  rw [List.cons_append, List.cons_append, takeEntry, hlength, if_neg (by simp), List.take_left,
    List.drop_left]
  rcases Entry.ofWire raw.code raw.name with error | entry
  · rfl
  · change (names.add entry >>= fun names' => _) = (names.add entry).map _
    cases names.add entry <;> rfl

/-- Where there is room for an entry from the wire, it is added exactly when it is valid and its
type is new. -/
theorem add_ofWire_eq_ok_iff {raw : RawEntry}
    (hroom : names.size + (Entry.headerSize + raw.name.length) ≤ Wire.maxUint16) :
    (Entry.ofWire raw.code raw.name >>= names.add) = .ok names' ↔
      raw.Valid ∧ names.get? raw.entry.type = none ∧
        names' = ⟨names.entries ++ [raw.entry]⟩ := by
  rw [Fallible.bind_eq_ok_iff]
  simp only [RawEntry.ofWire_eq_ok_iff (le_of_add_le_right hroom), add_eq_ok_iff]
  constructor
  · rintro ⟨entry, ⟨hvalid, rfl⟩, hnew, -, rfl⟩
    exact ⟨hvalid, hnew, rfl⟩
  · rintro ⟨hvalid, hnew, rfl⟩
    exact ⟨_, ⟨hvalid, rfl⟩, hnew, by rwa [RawEntry.size_entry hvalid], rfl⟩

/-- A step succeeds exactly when a valid entry of a new type stands in front, and it takes that
entry. -/
theorem takeEntry_eq_ok_iff {rest : Bytes} (hfits : names.size + bytes.length ≤ Wire.maxUint16) :
    takeEntry names bytes = .ok (names', rest) ↔
      ∃ (raw : RawEntry) (field : Bytes), bytes = raw.code :: (field ++ rest) ∧
        Wire.Carries field raw.name ∧ raw.Valid ∧ names.get? raw.entry.type = none ∧
          names' = ⟨names.entries ++ [raw.entry]⟩ := by
  constructor
  · intro h
    rcases RawEntry.short_or_truncated_or_carries bytes with
      hshort | ⟨code, high, low, tail, rfl, hshort⟩ | ⟨raw, field, rest', rfl, hfield⟩
    · rw [takeEntry_of_short names hshort] at h
      cases h
    · rw [takeEntry_of_truncated names hshort] at h
      cases h
    · rw [RawEntry.length_front hfield] at hfits
      rw [takeEntry_of_carries names hfield, Fallible.map_eq_ok_iff] at h
      obtain ⟨added, hadd, heq⟩ := h
      obtain ⟨rfl, rfl⟩ := Prod.mk.inj heq
      exact ⟨raw, field, rfl, hfield, (add_ofWire_eq_ok_iff (by omega)).mp hadd⟩
  · rintro ⟨raw, field, rfl, hfield, h⟩
    rw [RawEntry.length_front hfield] at hfits
    rw [takeEntry_of_carries names hfield, Fallible.map_eq_ok_iff]
    exact ⟨names', (add_ofWire_eq_ok_iff (by omega)).mpr h, rfl⟩

/-- What a step adds to the list it takes off the octets. -/
theorem size_of_takeEntry {rest : Bytes} (hfits : names.size + bytes.length ≤ Wire.maxUint16)
    (h : takeEntry names bytes = .ok (names', rest)) :
    names'.size + rest.length = names.size + bytes.length := by
  obtain ⟨raw, field, rfl, hfield, hvalid, -, rfl⟩ := (takeEntry_eq_ok_iff hfits).mp h
  rw [size_append, RawEntry.size_entry hvalid, RawEntry.length_front hfield]
  exact Nat.add_assoc _ _ _

/-- Entries are new to a list with one more entry when they were before and that entry has another
code. -/
theorem forall_get?_append_iff {entries : List Entry} {raw : RawEntry} {raws : List RawEntry} :
    (∀ raw' ∈ raws, get? ⟨entries ++ [raw.entry]⟩ raw'.entry.type = none) ↔
      (∀ raw' ∈ raws, get? ⟨entries⟩ raw'.entry.type = none) ∧
        raw.code ∉ raws.map RawEntry.code := by
  simp only [get?_append_eq_none_iff, ne_eq, RawEntry.type_entry_inj, List.mem_map, not_exists,
    not_and, eq_comm (a := raw.code)]
  exact forall₂_and

/-- The loop takes valid entries of types that are new and all different, and goes on behind
them. -/
theorem takeEntries_append {raws : List RawEntry} {before : Bytes}
    (hspelled : RawEntry.Spelled raws before) (rest : Bytes)
    (hfits : names.size + (before ++ rest).length ≤ Wire.maxUint16)
    (hvalids : ∀ raw ∈ raws, raw.Valid) (hdistinct : (raws.map RawEntry.code).Nodup)
    (hnews : ∀ raw ∈ raws, names.get? raw.entry.type = none) :
    takeEntries names (before ++ rest) =
      takeEntries ⟨names.entries ++ raws.map RawEntry.entry⟩ rest := by
  induction hspelled generalizing names with
  | nil => simp
  | @cons raw raws field before hfield _ ih =>
    -- the first entry is a step, and the others are spelled by what it leaves
    obtain ⟨hvalid, hvalids⟩ := List.forall_mem_cons.mp hvalids
    obtain ⟨hcode, hdistinct⟩ := List.nodup_cons.mp hdistinct
    obtain ⟨hnew, hnews⟩ := List.forall_mem_cons.mp hnews
    rw [List.cons_append, List.append_assoc] at hfits ⊢
    have htaken : takeEntry names (raw.code :: (field ++ (before ++ rest))) =
        .ok (⟨names.entries ++ [raw.entry]⟩, before ++ rest) :=
      (takeEntry_eq_ok_iff hfits).mpr ⟨raw, field, rfl, hfield, hvalid, hnew, rfl⟩
    have hsize := size_of_takeEntry hfits htaken
    have hloop := ih (by omega) hvalids hdistinct (forall_get?_append_iff.mpr ⟨hnews, hcode⟩)
    rw [List.append_assoc, List.singleton_append, ← List.map_cons] at hloop
    rw [takeEntries_of_ne_nil _ (by simp), htaken]
    exact hloop

/-- The loop succeeds exactly when the octets are valid entries of types that are new and all
different, and it adds these entries. -/
theorem takeEntries_eq_ok_iff (hfits : names.size + bytes.length ≤ Wire.maxUint16) :
    takeEntries names bytes = .ok names' ↔
      ∃ raws, RawEntry.Spelled raws bytes ∧ (∀ raw ∈ raws, raw.Valid) ∧
        (raws.map RawEntry.code).Nodup ∧ (∀ raw ∈ raws, names.get? raw.entry.type = none) ∧
          names' = ⟨names.entries ++ raws.map RawEntry.entry⟩ := by
  constructor
  · intro h
    fun_induction takeEntries names bytes with
    | case1 names bytes hempty =>
      obtain rfl := List.isEmpty_iff.mp hempty
      obtain rfl := Except.ok.inj h
      exact ⟨[], .nil, by simp, by simp, by simp, by simp⟩
    | case2 names bytes _ error htaken => cases h
    | case3 names bytes _ mid rest htaken ih =>
      -- what is taken moves from the octets to the list, so the rest still fits
      have hsize := size_of_takeEntry hfits htaken
      obtain ⟨raw, field, rfl, hfield, hvalid, hnew, rfl⟩ := (takeEntry_eq_ok_iff hfits).mp htaken
      obtain ⟨raws, hraws, hvalids, hdistinct, hnews, rfl⟩ := ih (by omega) h
      obtain ⟨hnews, hcode⟩ := forall_get?_append_iff.mp hnews
      refine ⟨raw :: raws, .cons hfield hraws, ?_, ?_, ?_, ?_⟩
      · exact List.forall_mem_cons.mpr ⟨hvalid, hvalids⟩
      · exact List.nodup_cons.mpr ⟨hcode, hdistinct⟩
      · exact List.forall_mem_cons.mpr ⟨hnew, hnews⟩
      · rw [List.map_cons, List.append_assoc, List.singleton_append]
  · rintro ⟨raws, hspelled, hvalids, hdistinct, hnews, rfl⟩
    rw [← List.append_nil bytes] at hfits ⊢
    rw [takeEntries_append hspelled [] hfits hvalids hdistinct hnews, takeEntries_nil]

/-! ### The whole list -/

/-- The entries of a vector that is not empty are read one after the other. -/
theorem decode_of_carries {body : Bytes} (h : Wire.Carries bytes body) (hbody : body ≠ []) :
    decode bytes = takeEntries ⟨[]⟩ body := by
  obtain ⟨high, low, rfl, hlength⟩ := h
  rw [decode, hlength, if_neg (by simp), if_neg (by simpa using hbody)]

/-- Octets decode to the entries that they hold. -/
theorem decode_eq_ok_iff :
    decode bytes = .ok names ↔ ∃ raws, Holds bytes raws ∧ names = ⟨raws.map RawEntry.entry⟩ := by
  -- what a word can say is within the bound under which the loop was described
  have hfits : ∀ {high low : UInt8} {body : Bytes},
      Wire.uint16Value high low = body.length → size ⟨[]⟩ + body.length ≤ Wire.maxUint16 := by
    intro high low body hlength
    rw [← hlength, size_nil, Nat.zero_add]
    exact Wire.uint16Value_le high low
  constructor
  · intro h
    obtain _ | ⟨high, _ | ⟨low, body⟩⟩ := bytes
    · cases h
    · cases h
    · rw [decode] at h
      split at h
      · contradiction
      next hlength =>
      split at h
      · contradiction
      next hempty =>
      rw [not_ne_iff, eq_comm] at hlength
      obtain ⟨raws, hraws, hvalid, hdistinct, -, rfl⟩ :=
        (takeEntries_eq_ok_iff (hfits hlength)).mp h
      refine ⟨raws, ⟨⟨body, ⟨high, low, rfl, hlength⟩, hraws⟩, ?_, hdistinct, hvalid⟩, rfl⟩
      rintro rfl
      cases hraws
      exact hempty rfl
  · rintro ⟨raws, ⟨⟨body, ⟨high, low, rfl, hlength⟩, hraws⟩, hnonempty, hdistinct, hvalid⟩, rfl⟩
    have hempty : ¬body.isEmpty = true := by
      rw [List.isEmpty_iff]
      rintro rfl
      cases hraws
      exact hnonempty rfl
    rw [decode, if_neg (not_not_intro hlength.symm), if_neg hempty,
      takeEntries_eq_ok_iff (hfits hlength)]
    exact ⟨raws, hraws, hvalid, hdistinct, fun raw _ => rfl, rfl⟩

/-- **The format decides.**  Octets are accepted exactly when they hold a list of entries, of which
there is at most one, and then the list that is read has the type and the octets of each of these
entries, in order, with host names in lower case. -/
theorem decode_accepts_format (bytes : Bytes) :
    ((∃ names, decode bytes = .ok names) ↔ ∃ raws, Holds bytes raws) ∧
      {raws | Holds bytes raws}.Subsingleton ∧
      ∀ names, decode bytes = .ok names ↔
        ∃ raws, Holds bytes raws ∧
          names.entries.map Entry.content = raws.map RawEntry.content := by
  have hcontent : ∀ {raws : List RawEntry}, (∀ raw ∈ raws, raw.Valid) →
      (raws.map RawEntry.entry).map Entry.content = raws.map RawEntry.content := by
    intro raws hvalid
    rw [List.map_map]
    exact List.map_congr_left fun raw hraw => RawEntry.content_entry (hvalid raw hraw)
  refine ⟨?_, ?_, ?_⟩
  · constructor
    · rintro ⟨names, h⟩
      obtain ⟨raws, hraws, -⟩ := decode_eq_ok_iff.mp h
      exact ⟨raws, hraws⟩
    · rintro ⟨raws, hraws⟩
      exact ⟨_, decode_eq_ok_iff.mpr ⟨raws, hraws, rfl⟩⟩
  · intro raws h raws' h'
    exact Holds.unique h h'
  · intro names
    rw [decode_eq_ok_iff]
    refine exists_congr fun raws => and_congr_right fun hraws => ?_
    rw [← hcontent hraws.valid, Entry.content_injective.list_map.eq_iff]
    constructor
    · rintro rfl
      rfl
    · intro hentries
      cases names
      exact congrArg mk hentries

end NameList

end PskHandshake.Sni
