/-
The first defect of a server name list.

A list is read from the left, and the first entry that cannot be taken decides the error.
`RawEntry.Defect` says what can be wrong with the entry in front of some octets, in the order in
which it is looked for; `RawEntry.FirstDefect` puts entries before it that can be taken.  Whatever
follows plays no part.

* `NameList.takeEntry_eq_error_iff` — a step fails at a defect of the entry in front;
* `NameList.takeEntries_eq_error_iff` — the loop fails at the first such entry;
* `RawEntry.FirstDefect.of_prefix`, `RawEntry.FirstDefect.unique` — the octets up to this entry
  decide, and there is one such entry;
* `NameList.decode_reports_first_defect` — the error of a list is that of its first defect.
-/
import PskHandshake.Proofs.Sni.Format

namespace PskHandshake.Sni

namespace RawEntry

/-- The name of an entry is refused: a host name for its first defect, and another name because it
is empty. -/
def Refused (raw : RawEntry) (error : Error) : Prop :=
  if raw.code = 0 then ∃ defect, HostName.defect? raw.name = some defect ∧ error = .hostName defect
  else raw.name = [] ∧ error = .nameLength

/-- What keeps the entry in front of some octets from being taken after entries with the given
codes. Each case supposes that none of the cases before it applies. -/
inductive Defect (codes : List UInt8) : Bytes → Error → Prop
  /-- There are fewer octets than a header has. -/
  | tooShort {bytes : Bytes} :
      bytes ≠ [] → bytes.length < Entry.headerSize → Defect codes bytes .entryTooShort
  /-- The header gives the name more octets than there are. -/
  | truncated {code high low : UInt8} {tail : Bytes} :
      tail.length < Wire.uint16Value high low →
        Defect codes (code :: high :: low :: tail) .nameTruncated
  /-- The name is refused. -/
  | name {raw : RawEntry} {field rest : Bytes} {error : Error} :
      Wire.Carries field raw.name → raw.Refused error →
        Defect codes (raw.code :: (field ++ rest)) error
  /-- An entry of the type is there already. -/
  | duplicate {raw : RawEntry} {field rest : Bytes} :
      Wire.Carries field raw.name → raw.Valid → raw.code ∈ codes →
        Defect codes (raw.code :: (field ++ rest)) (.duplicateType raw.code)

/-- The octets of the entry in front; of an entry that is cut off, those of its header. -/
def front : Bytes → Bytes
  | code :: high :: low :: tail =>
    code :: high :: low ::
      if tail.length < Wire.uint16Value high low then [] else tail.take (Wire.uint16Value high low)
  | bytes => bytes

/-- Behind valid entries of different types there is one with a defect; `shown` are the octets up to
it, and its own. -/
def FirstDefect (bytes shown : Bytes) (error : Error) : Prop :=
  ∃ (raws : List RawEntry) (before rest : Bytes), bytes = before ++ rest ∧
    shown = before ++ front rest ∧ Spelled raws before ∧ (∀ raw ∈ raws, raw.Valid) ∧
      (raws.map code).Nodup ∧ Defect (raws.map code) rest error

end RawEntry

/-- The first defect among the entries of a list, which follow its length. -/
def NameList.FirstDefect (bytes shown : Bytes) (error : Error) : Prop :=
  ∃ (high low : UInt8) (body part : Bytes), bytes = high :: low :: body ∧
    shown = high :: low :: part ∧ RawEntry.FirstDefect body part error

namespace RawEntry

variable {raw : RawEntry} {raws raws' : List RawEntry} {codes : List UInt8} {error error' : Error}
  {bytes bytes' before before' rest rest' field shown shown' : Bytes}

/-! ### One entry -/

theorem front_of_short (h : bytes.length < Entry.headerSize) : front bytes = bytes := by
  match bytes with
  | [] | [_] | [_, _] => rfl
  | _ :: _ :: _ :: tail =>
    simp only [List.length_cons, Entry.headerSize] at h
    omega

theorem front_of_truncated {code high low : UInt8} {tail : Bytes}
    (h : tail.length < Wire.uint16Value high low) :
    front (code :: high :: low :: tail) = [code, high, low] := by
  rw [front, if_pos h]

theorem front_of_carries (h : Wire.Carries field raw.name) (rest : Bytes) :
    front (raw.code :: (field ++ rest)) = raw.code :: field := by
  obtain ⟨high, low, rfl, hlength⟩ := h
  rw [List.cons_append, List.cons_append, front, hlength, if_neg (by simp), List.take_left]

/-- A name is refused or it is valid. -/
theorem exists_refused_iff : (∃ error, raw.Refused error) ↔ ¬raw.Valid := by
  simp only [Refused, Valid]
  by_cases hcode : raw.code = 0
  · simp only [if_pos hcode]
    rw [← ne_eq, Option.ne_none_iff_exists']
    constructor
    · rintro ⟨-, defect, hdefect, -⟩
      exact ⟨defect, hdefect⟩
    · rintro ⟨defect, hdefect⟩
      exact ⟨_, defect, hdefect, rfl⟩
  · simp [if_neg hcode]

/-- An entry that has room in a list is refused for its name only. -/
theorem ofWire_eq_error_iff (hroom : Entry.headerSize + raw.name.length ≤ Wire.maxUint16) :
    Entry.ofWire raw.code raw.name = .error error ↔ raw.Refused error := by
  rw [Entry.ofWire, Refused]
  by_cases hcode : raw.code = 0
  · simp only [if_pos hcode, Entry.ofHostOctets_eq_error_iff, HostName.read_eq_error_iff]
  · have hname : (raw.name.length = 0 ∨ Wire.maxUint16 - Entry.headerSize < raw.name.length) ↔
        raw.name = [] := by
      rw [← List.length_eq_zero_iff]
      omega
    simp only [if_neg hcode, Entry.ofOther, hname]
    by_cases hempty : raw.name = []
    · simp [hempty, eq_comm]
    · simp [hempty]

theorem Defect.ne_nil (h : Defect codes bytes error) : bytes ≠ [] := by
  cases h with
  | tooShort hne _ => exact hne
  | truncated _ | name _ _ | duplicate _ _ _ => exact List.cons_ne_nil _ _

/-- A whole valid entry has no defect but that its code is there already. -/
theorem Defect.code_mem (h : Defect codes (raw.code :: (field ++ rest)) error)
    (hfield : Wire.Carries field raw.name) (hvalid : raw.Valid) : raw.code ∈ codes := by
  generalize hbytes : raw.code :: (field ++ rest) = bytes at h
  cases h with
  | tooShort _ hshort =>
    rw [← hbytes, length_front hfield] at hshort
    omega
  | @truncated code high low tail hshort =>
    obtain ⟨_, _, rfl, hlength⟩ := hfield
    obtain ⟨-, rfl, rfl, rfl⟩ : raw.code = code ∧ _ = high ∧ _ = low ∧ raw.name ++ rest = tail := by
      simpa using hbytes
    rw [hlength, List.length_append] at hshort
    omega
  | @name raw' field' rest' _ hfield' hrefused =>
    obtain ⟨rfl, -⟩ := eq_of_front_eq hfield hfield' hbytes
    exact absurd hvalid (exists_refused_iff.mp ⟨_, hrefused⟩)
  | @duplicate raw' field' rest' hfield' _ hcode' =>
    obtain ⟨hcode, -⟩ := List.cons.inj hbytes
    exact hcode ▸ hcode'

/-- Octets of the same number with the same entry in front have the same defect. -/
theorem Defect.of_prefix (h : Defect codes bytes error) (hlength : bytes'.length = bytes.length)
    (hfront : front bytes <+: bytes') : Defect codes bytes' error ∧ front bytes' = front bytes := by
  cases h with
  | tooShort hne hshort =>
    rw [front_of_short hshort] at hfront
    rw [← hfront.eq_of_length hlength.symm]
    exact ⟨.tooShort hne hshort, rfl⟩
  | @truncated code high low tail hshort =>
    rw [front_of_truncated hshort] at hfront ⊢
    obtain ⟨tail', rfl⟩ := hfront
    have htail : tail'.length = tail.length := by simpa using hlength
    have hshort' : tail'.length < Wire.uint16Value high low := htail ▸ hshort
    exact ⟨.truncated hshort', front_of_truncated hshort'⟩
  | name hfield hrefused =>
    rw [front_of_carries hfield] at hfront ⊢
    obtain ⟨rest', rfl⟩ := hfront
    exact ⟨.name hfield hrefused, front_of_carries hfield rest'⟩
  | duplicate hfield hvalid hcode =>
    rw [front_of_carries hfield] at hfront ⊢
    obtain ⟨rest', rfl⟩ := hfront
    exact ⟨.duplicate hfield hvalid hcode, front_of_carries hfield rest'⟩

/-! ### The first defect -/

/-- Octets of the same number that agree up to the first defect have the same first defect. -/
theorem FirstDefect.of_prefix (h : FirstDefect bytes shown error)
    (hlength : bytes'.length = bytes.length) (hshown : shown <+: bytes') :
    FirstDefect bytes' shown error := by
  obtain ⟨raws, before, rest, rfl, rfl, hspelled, hvalid, hdistinct, hdefect⟩ := h
  obtain ⟨tail, rfl⟩ := hshown
  rw [List.append_assoc] at hlength ⊢
  have hrest : (front rest ++ tail).length = rest.length := by simpa using hlength
  obtain ⟨hdefect', hfront⟩ := hdefect.of_prefix hrest (List.prefix_append _ _)
  exact ⟨raws, before, _, rfl, by rw [hfront], hspelled, hvalid, hdistinct, hdefect'⟩

/-- Two readings of octets, after entries with the given codes, come to a defect at the same
place. -/
theorem Spelled.eq_of_defect (codes : List UInt8) (hspelled : Spelled raws before)
    (hspelled' : Spelled raws' before') (happend : before ++ rest = before' ++ rest')
    (hvalid : ∀ raw ∈ raws, raw.Valid) (hvalid' : ∀ raw ∈ raws', raw.Valid)
    (hdistinct : (codes ++ raws.map code).Nodup) (hdistinct' : (codes ++ raws'.map code).Nodup)
    (hdefect : Defect (codes ++ raws.map code) rest error)
    (hdefect' : Defect (codes ++ raws'.map code) rest' error') : before = before' := by
  -- an entry that one reading takes is none that the other stops at
  have hnew : ∀ {codes codes' : List UInt8} {code : UInt8}, (codes ++ code :: codes').Nodup →
      code ∉ codes ++ [] := by
    intro codes codes' code h
    rw [List.append_nil]
    exact fun hcode => (List.nodup_append.mp h).2.2 code hcode code List.mem_cons_self rfl
  induction hspelled generalizing codes raws' before' with
  | nil =>
    cases hspelled' with
    | nil => rfl
    | @cons raw field before' _ hfield _ =>
      rw [List.nil_append] at happend
      rw [happend, List.cons_append, List.append_assoc] at hdefect
      have hcode := hdefect.code_mem hfield (hvalid' _ List.mem_cons_self)
      exact absurd hcode (hnew hdistinct')
  | @cons raw raws field before hfield _ ih =>
    cases hspelled' with
    | nil =>
      rw [List.nil_append] at happend
      rw [← happend, List.cons_append, List.append_assoc] at hdefect'
      have hcode := hdefect'.code_mem hfield (hvalid _ List.mem_cons_self)
      exact absurd hcode (hnew hdistinct)
    | @cons raw' raws' field' before' hfield' hspelled' =>
      rw [List.cons_append, List.append_assoc, List.cons_append, List.append_assoc] at happend
      obtain ⟨rfl, hrest⟩ := eq_of_front_eq hfield hfield' happend
      have hfields : field = field' := by
        rw [(Wire.carries_iff.mp hfield).1, (Wire.carries_iff.mp hfield').1]
      rw [List.map_cons, List.append_cons] at hdistinct hdistinct' hdefect hdefect'
      rw [hfields, ih _ hspelled' hrest (fun raw h => hvalid raw (.tail _ h))
        (fun raw h => hvalid' raw (.tail _ h)) hdistinct hdistinct' hdefect hdefect']

/-- There is one first defect. -/
theorem FirstDefect.unique (h : FirstDefect bytes shown error)
    (h' : FirstDefect bytes shown' error') : shown = shown' := by
  obtain ⟨raws, before, rest, rfl, rfl, hspelled, hvalid, hdistinct, hdefect⟩ := h
  obtain ⟨raws', before', rest', happend, rfl, hspelled', hvalid', hdistinct', hdefect'⟩ := h'
  have hbefore : before = before' :=
    Spelled.eq_of_defect [] hspelled hspelled' happend hvalid hvalid' hdistinct hdistinct' hdefect
      hdefect'
  subst hbefore
  rw [List.append_cancel_left happend]

end RawEntry

/-! ### The loop -/

namespace NameList

variable {names names' : NameList} {raws : List RawEntry} {bytes bytes' body shown : Bytes}
  {error : Error}

theorem add_eq_error_iff {entry : Entry} :
    names.add entry = .error error ↔
      (names.get? entry.type ≠ none ∧ error = .duplicateType entry.type.code) ∨
        (names.get? entry.type = none ∧ Wire.maxUint16 < names.size + entry.size ∧
          error = .listTooLong) := by
  rw [add]
  split
  next h => simp [Option.isSome_iff_ne_none.mp h, eq_comm]
  next h =>
    rw [Option.not_isSome_iff_eq_none] at h
    split
    next hroom => simp [h, hroom, eq_comm]
    next hroom => simp [h, hroom]

theorem get?_map_entry_eq_none_iff {raw : RawEntry} :
    get? ⟨raws.map RawEntry.entry⟩ raw.entry.type = none ↔ raw.code ∉ raws.map RawEntry.code := by
  rw [get?, List.find?_eq_none, List.forall_mem_map]
  simp only [decide_eq_true_eq, RawEntry.type_entry_inj, List.mem_map, not_exists, not_and]

/-- Where there is room for an entry from the wire, it is not added exactly when its name is refused
or its type is not new. -/
theorem add_ofWire_eq_error_iff {raw : RawEntry}
    (hroom : size ⟨raws.map RawEntry.entry⟩ + (Entry.headerSize + raw.name.length) ≤
      Wire.maxUint16) :
    (Entry.ofWire raw.code raw.name >>= add ⟨raws.map RawEntry.entry⟩) = .error error ↔
      raw.Refused error ∨
        raw.Valid ∧ raw.code ∈ raws.map RawEntry.code ∧ error = .duplicateType raw.code := by
  have hroom' : Entry.headerSize + raw.name.length ≤ Wire.maxUint16 := le_of_add_le_right hroom
  by_cases hvalid : raw.Valid
  · have hrefused : ¬raw.Refused error := fun h =>
      RawEntry.exists_refused_iff.mp ⟨error, h⟩ hvalid
    have hentry : Entry.ofWire raw.code raw.name = .ok raw.entry :=
      (RawEntry.ofWire_eq_ok_iff hroom').mpr ⟨hvalid, rfl⟩
    have hsize : ¬Wire.maxUint16 < size ⟨raws.map RawEntry.entry⟩ + raw.entry.size := by
      rw [RawEntry.size_entry hvalid]
      omega
    rw [hentry]
    change add _ raw.entry = _ ↔ _
    rw [add_eq_error_iff, ne_eq, get?_map_entry_eq_none_iff, not_not, RawEntry.type_entry,
      NameType.code_ofCode]
    simp [hvalid, hrefused, hsize]
  · obtain ⟨error', hrefused⟩ := RawEntry.exists_refused_iff.mpr hvalid
    have hentry := (RawEntry.ofWire_eq_error_iff hroom').mpr hrefused
    rw [← RawEntry.ofWire_eq_error_iff hroom', hentry]
    simp [hvalid, bind, Except.bind]

/-- A step behind some entries fails exactly when the entry in front has a defect. -/
theorem takeEntry_eq_error_iff (hne : bytes ≠ [])
    (hfits : size ⟨raws.map RawEntry.entry⟩ + bytes.length ≤ Wire.maxUint16) :
    takeEntry ⟨raws.map RawEntry.entry⟩ bytes = .error error ↔
      RawEntry.Defect (raws.map RawEntry.code) bytes error := by
  constructor
  · intro h
    rcases RawEntry.short_or_truncated_or_carries bytes with
      hshort | ⟨code, high, low, tail, rfl, hshort⟩ | ⟨raw, field, rest, rfl, hfield⟩
    · rw [takeEntry_of_short _ hshort] at h
      cases h
      exact .tooShort hne hshort
    · rw [takeEntry_of_truncated _ hshort] at h
      cases h
      exact .truncated hshort
    · rw [RawEntry.length_front hfield] at hfits
      rw [takeEntry_of_carries _ hfield, Fallible.map_eq_error_iff,
        add_ofWire_eq_error_iff (by omega)] at h
      obtain hrefused | ⟨hvalid, hcode, rfl⟩ := h
      · exact .name hfield hrefused
      · exact .duplicate hfield hvalid hcode
  · intro h
    cases h with
    | tooShort _ hshort => exact takeEntry_of_short _ hshort
    | truncated hshort => exact takeEntry_of_truncated _ hshort
    | name hfield hrefused =>
      rw [RawEntry.length_front hfield] at hfits
      rw [takeEntry_of_carries _ hfield, Fallible.map_eq_error_iff,
        add_ofWire_eq_error_iff (by omega)]
      exact .inl hrefused
    | duplicate hfield hvalid hcode =>
      rw [RawEntry.length_front hfield] at hfits
      rw [takeEntry_of_carries _ hfield, Fallible.map_eq_error_iff,
        add_ofWire_eq_error_iff (by omega)]
      exact .inr ⟨hvalid, hcode, rfl⟩

/-- Where the loop fails after some entries, it has taken others before an entry with a defect. -/
theorem exists_defect_of_takeEntries (earlier : List RawEntry)
    (hfits : size ⟨earlier.map RawEntry.entry⟩ + bytes.length ≤ Wire.maxUint16)
    (hearlier : (earlier.map RawEntry.code).Nodup)
    (h : takeEntries ⟨earlier.map RawEntry.entry⟩ bytes = .error error) :
    ∃ raws before rest, bytes = before ++ rest ∧ RawEntry.Spelled raws before ∧
      (∀ raw ∈ raws, raw.Valid) ∧ ((earlier ++ raws).map RawEntry.code).Nodup ∧
        RawEntry.Defect ((earlier ++ raws).map RawEntry.code) rest error := by
  generalize hnames : (⟨earlier.map RawEntry.entry⟩ : NameList) = names at h hfits
  fun_induction takeEntries names bytes generalizing earlier with
  | case1 names bytes hempty => cases h
  | case2 names bytes hempty error' htaken =>
    obtain rfl := Except.error.inj h
    subst hnames
    have hdefect := (takeEntry_eq_error_iff (by simpa using hempty) hfits).mp htaken
    exact ⟨[], [], bytes, rfl, .nil, by simp, by simpa using hearlier, by simpa using hdefect⟩
  | case3 names bytes hempty mid rest htaken ih =>
    subst hnames
    have hsize := size_of_takeEntry hfits htaken
    obtain ⟨raw, field, rfl, hfield, hvalid, hnew, rfl⟩ := (takeEntry_eq_ok_iff hfits).mp htaken
    rw [get?_map_entry_eq_none_iff] at hnew
    have hdistinct : ((earlier ++ [raw]).map RawEntry.code).Nodup := by
      rw [List.map_append, List.map_singleton]
      exact List.nodup_append.mpr ⟨hearlier, List.nodup_singleton _, by
        rintro code hcode _ hlast rfl
        exact hnew (List.mem_singleton.mp hlast ▸ hcode)⟩
    obtain ⟨raws, before, rest, rfl, hspelled, hvalids, hdistinct, hdefect⟩ :=
      ih _ hdistinct (by simp) h (by omega)
    rw [List.append_assoc, List.singleton_append] at hdistinct hdefect
    refine ⟨raw :: raws, raw.code :: (field ++ before), rest, ?_, .cons hfield hspelled,
      List.forall_mem_cons.mpr ⟨hvalid, hvalids⟩, hdistinct, hdefect⟩
    rw [List.cons_append, List.append_assoc]

/-- The loop fails exactly at the first defect. -/
theorem takeEntries_eq_error_iff (hfits : bytes.length ≤ Wire.maxUint16) :
    takeEntries ⟨[]⟩ bytes = .error error ↔ ∃ shown, RawEntry.FirstDefect bytes shown error := by
  have hfits' : size ⟨[]⟩ + bytes.length ≤ Wire.maxUint16 := by
    rwa [size_nil, Nat.zero_add]
  constructor
  · intro h
    obtain ⟨raws, before, rest, rfl, hspelled, hvalid, hdistinct, hdefect⟩ :=
      exists_defect_of_takeEntries [] hfits' List.nodup_nil h
    exact ⟨_, raws, before, rest, rfl, rfl, hspelled, hvalid, hdistinct, hdefect⟩
  · rintro ⟨shown, raws, before, rest, rfl, -, hspelled, hvalid, hdistinct, hdefect⟩
    have hrest : size ⟨raws.map RawEntry.entry⟩ + rest.length ≤ Wire.maxUint16 := by
      rw [← hspelled.length_eq hvalid, ← List.length_append]
      exact hfits
    rw [takeEntries_append hspelled rest hfits' hvalid hdistinct (fun raw _ => rfl),
      List.nil_append, takeEntries_of_ne_nil _ hdefect.ne_nil,
      (takeEntry_eq_error_iff hdefect.ne_nil hrest).mpr hdefect]
    rfl

/-! ### The whole list -/

theorem FirstDefect.of_prefix (h : FirstDefect bytes shown error)
    (hlength : bytes'.length = bytes.length) (hshown : shown <+: bytes') :
    FirstDefect bytes' shown error := by
  obtain ⟨high, low, body, part, rfl, rfl, hdefect⟩ := h
  obtain ⟨tail, rfl⟩ := hshown
  exact ⟨high, low, part ++ tail, part, rfl, rfl,
    hdefect.of_prefix (by simpa using hlength) (List.prefix_append _ _)⟩

theorem FirstDefect.unique {shown' : Bytes} {error' : Error} (h : FirstDefect bytes shown error)
    (h' : FirstDefect bytes shown' error') : shown = shown' := by
  obtain ⟨high, low, body, part, rfl, rfl, hdefect⟩ := h
  obtain ⟨_, _, _, part', heq, rfl, hdefect'⟩ := h'
  cases heq
  rw [hdefect.unique hdefect']

theorem decode_eq_error_iff (hbytes : Wire.Carries bytes body) (hbody : body ≠ []) :
    decode bytes = .error error ↔ ∃ shown, FirstDefect bytes shown error := by
  rw [decode_of_carries hbytes hbody, takeEntries_eq_error_iff hbytes.length_le]
  obtain ⟨high, low, rfl, -⟩ := hbytes
  constructor
  · rintro ⟨part, hdefect⟩
    exact ⟨_, high, low, body, part, rfl, rfl, hdefect⟩
  · rintro ⟨_, _, _, _, part, heq, -, hdefect⟩
    cases heq
    exact ⟨part, hdefect⟩

/-- Octets of the same number that start in the same way are a vector again. -/
theorem FirstDefect.carries_of_prefix (h : FirstDefect bytes shown error)
    (hbytes : Wire.Carries bytes body) (hbody : body ≠ []) (hlength : bytes'.length = bytes.length)
    (hshown : shown <+: bytes') : ∃ body', Wire.Carries bytes' body' ∧ body' ≠ [] := by
  obtain ⟨high, low, rfl, hvalue⟩ := hbytes
  obtain ⟨_, _, _, part, heq, rfl, -⟩ := h
  cases heq
  obtain ⟨tail, rfl⟩ := hshown
  have hsame : (part ++ tail).length = body.length := by simpa using hlength
  refine ⟨part ++ tail, ⟨high, low, rfl, hvalue.trans hsame.symm⟩, ?_⟩
  exact List.ne_nil_of_length_pos (hsame ▸ List.length_pos_iff.mpr hbody)

/-- **The first defect is reported.**  Octets that are a vector, and not an empty one, are refused
exactly when an entry has a defect, and the error is that of the first entry that has one.  There is
one such entry, and what follows it plays no part: octets of the same number that are the same up to
this entry, or up to its header if it is cut off, are refused with the same error. -/
theorem decode_reports_first_defect (hbytes : Wire.Carries bytes body) (hbody : body ≠ []) :
    (∀ error, decode bytes = .error error ↔ ∃ shown, FirstDefect bytes shown error) ∧
      {shown | ∃ error, FirstDefect bytes shown error}.Subsingleton ∧
        ∀ shown error, FirstDefect bytes shown error →
          ∀ bytes', bytes'.length = bytes.length → shown <+: bytes' →
            FirstDefect bytes' shown error ∧ decode bytes' = .error error := by
  refine ⟨fun error => decode_eq_error_iff hbytes hbody, ?_, ?_⟩
  · rintro shown ⟨error, hdefect⟩ shown' ⟨error', hdefect'⟩
    exact hdefect.unique hdefect'
  · intro shown error hdefect bytes' hlength hshown
    have hdefect' := hdefect.of_prefix hlength hshown
    obtain ⟨body', hbytes', hbody'⟩ := hdefect.carries_of_prefix hbytes hbody hlength hshown
    exact ⟨hdefect', (decode_eq_error_iff hbytes' hbody').mpr ⟨shown, hdefect'⟩⟩

/-- A second host name that is empty is refused for its name, before it is looked at that there is
one already; of the octets behind it nothing is said. -/
theorem decode_reports_first_defect_empty :
    let bytes : Bytes := [0, 9, 0, 0, 1, 0x41, 0, 0, 0, 7, 0]
    let shown : Bytes := [0, 9, 0, 0, 1, 0x41, 0, 0, 0]
    FirstDefect bytes shown (.hostName .length) ∧ decode bytes = .error (.hostName .length) ∧
      decode (shown ++ [0xff, 0xff]) = .error (.hostName .length) := by
  intro bytes shown
  have hbytes : Wire.Carries bytes (bytes.drop 2) := ⟨0, 9, rfl, rfl⟩
  have hdefect : FirstDefect bytes shown (.hostName .length) := by
    refine ⟨0, 9, bytes.drop 2, shown.drop 2, rfl, rfl, [⟨0, [0x41]⟩], [0, 0, 1, 0x41],
      [0, 0, 0, 7, 0], rfl, by decide +kernel, .cons ⟨0, 1, rfl, rfl⟩ .nil, ?_, by simp, ?_⟩
    · exact List.forall_mem_singleton.mpr (by decide +kernel)
    · exact @RawEntry.Defect.name [0] ⟨0, []⟩ [0, 0] [7, 0] _ ⟨0, 0, rfl, rfl⟩ ⟨.length, rfl, rfl⟩
  obtain ⟨herror, -, hrest⟩ := decode_reports_first_defect hbytes (by decide)
  exact ⟨hdefect, (herror _).mpr ⟨shown, hdefect⟩,
    (hrest shown _ hdefect (shown ++ [0xff, 0xff]) rfl (List.prefix_append _ _)).2⟩

end NameList

end PskHandshake.Sni
