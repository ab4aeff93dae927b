/-
Runs of the operations on server name lists.

A run starts with a list that is made for a host name or read from the wire, and goes on with any
number of additions; an addition that fails leaves the list as it was.  `NameList.WellFormed` is the
invariant of runs:

* `NameList.wellFormed_ofHostName`, `NameList.wellFormed_of_decode` — every start has it;
* `NameList.WellFormed.extend` — an addition keeps it;
* `NameList.wellFormed_of_run` — so every list that a run ends with has it.
-/
import PskHandshake.Proofs.Sni.Format

namespace PskHandshake.Sni.NameList

/-- Where a list comes from: it is made for a host name, or read from the wire. -/
inductive Origin
  | hostName (host : String)
  | wire (bytes : Bytes)
deriving DecidableEq, Repr

/-- What is added to a list: a host name, or a name of another type. -/
inductive Addition
  | hostName (host : String)
  | other (code : UInt8) (name : Bytes)
deriving DecidableEq, Repr

/-- The list of an origin. -/
def Origin.names : Origin → Except Error NameList
  | hostName host => ofHostName host
  | wire bytes => decode bytes

/-- The entry of an addition. -/
def Addition.entry : Addition → Except Error Entry
  | hostName host => Entry.ofHostName host
  | other code name => Entry.ofOther code name

/-- The list after an addition, which is the list before it if the addition fails. -/
def extend (names : NameList) (addition : Addition) : NameList :=
  match addition.entry >>= names.add with
  | .ok names' => names'
  | .error _ => names

/-- The list that a run ends with, if its origin has a list. -/
def run (origin : Origin) (additions : List Addition) : Except Error NameList :=
  origin.names.map fun names => additions.foldl extend names

/-- Some run ends with the list. -/
def Reachable (names : NameList) : Prop := ∃ origin additions, run origin additions = .ok names

/-- The invariant of runs. -/
structure WellFormed (names : NameList) : Prop where
  nonempty : names.entries ≠ []
  sound : ∀ entry ∈ names.entries, entry.Sound
  distinct : (names.entries.map fun entry => entry.type.code).Nodup
  fits : names.size ≤ Wire.maxUint16

variable {names names' : NameList}

/-! ### Entries of a well-formed list -/

/-- A list has an entry of a type exactly when it has the code of the type. -/
theorem WellFormed.get?_eq_none_iff {type : NameType} (h : names.WellFormed)
    (htype : NameType.ofCode type.code = type) :
    names.get? type = none ↔ type.code ∉ names.entries.map fun entry => entry.type.code := by
  rw [get?, List.find?_eq_none, List.mem_map, not_exists]
  refine forall_congr' fun entry => ?_
  rw [not_and, decide_eq_true_eq]
  refine imp_congr_right fun hentry => not_congr ⟨congrArg NameType.code, fun hcode => ?_⟩
  -- no name of another type is stored under the code of host names
  rw [← (h.sound entry hentry).ofCode_code, hcode, htype]

theorem size_eq_sum (names : NameList) : names.size = (names.entries.map Entry.size).sum := by
  rw [size, List.sum_eq_foldr, List.foldr_map]

theorem WellFormed.size_le {entry : Entry} (h : names.WellFormed) (hentry : entry ∈ names.entries) :
    entry.size ≤ Wire.maxUint16 := by
  have hle : entry.size ≤ names.size := by
    rw [size_eq_sum]
    exact List.le_sum_of_mem (List.mem_map_of_mem hentry)
  exact hle.trans h.fits

/-! ### The start of a run -/

theorem wellFormed_ofHostName {host : String} (h : ofHostName host = .ok names) :
    names.WellFormed := by
  obtain ⟨entry, hentry, rfl⟩ := Fallible.map_eq_ok_iff.mp h
  have hsound := Entry.sound_of_ofHostOctets hentry
  obtain ⟨text, htext, rfl⟩ := Entry.ofHostOctets_eq_ok_iff.mp hentry
  refine ⟨by simp, List.forall_mem_singleton.mpr hsound, List.nodup_singleton _, ?_⟩
  have hlength : (Wire.utf8 text).length ≤ HostName.maxLength :=
    HostName.Canonical.length_le hsound
  rw [size_cons, size_nil, Entry.size, Entry.octets, Entry.headerSize, Wire.maxUint16]
  rw [HostName.maxLength] at hlength
  omega

theorem wellFormed_of_decode {bytes : Bytes} (h : decode bytes = .ok names) :
    names.WellFormed := by
  obtain ⟨raws, hraws, rfl⟩ := decode_eq_ok_iff.mp h
  obtain ⟨body, hbody, hspelled⟩ := hraws.framed
  refine ⟨?_, ?_, ?_, ?_⟩
  · intro hentries
    exact hraws.nonempty (List.map_eq_nil_iff.mp hentries)
  · refine List.forall_mem_map.mpr ?_
    intro raw hraw
    exact RawEntry.sound_entry (hraws.valid raw hraw)
  · simp only [List.map_map, Function.comp_def, RawEntry.type_entry, NameType.code_ofCode]
    exact hraws.distinct
  · -- the size of the list is the length of the vector that it was read from
    rw [← hspelled.length_eq hraws.valid]
    exact hbody.length_le

/-! ### Additions -/

theorem Addition.sound_entry {addition : Addition} {entry : Entry}
    (h : addition.entry = .ok entry) : entry.Sound := by
  cases addition with
  | hostName host => exact Entry.sound_of_ofHostOctets h
  | other code name => exact Entry.sound_of_ofOther h

/-- Adding a sound entry keeps the invariant. -/
theorem WellFormed.add {entry : Entry} (h : names.WellFormed) (hentry : entry.Sound)
    (hadd : names.add entry = .ok names') : names'.WellFormed := by
  obtain ⟨hnew, hroom, rfl⟩ := add_eq_ok_iff.mp hadd
  refine ⟨by simp, ?_, ?_, ?_⟩
  · exact List.forall_mem_append.mpr ⟨h.sound, List.forall_mem_singleton.mpr hentry⟩
  · have hcode : entry.type.code ∉ names.entries.map fun entry => entry.type.code :=
      (h.get?_eq_none_iff hentry.ofCode_code).mp hnew
    rw [List.map_append, List.map_singleton]
    refine List.nodup_append.mpr ⟨h.distinct, List.nodup_singleton _, ?_⟩
    rintro code hmem _ hlast rfl
    rw [List.mem_singleton.mp hlast] at hmem
    exact hcode hmem
  · rw [size_append]
    exact hroom

/-- An addition keeps the invariant, whether or not it succeeds. -/
theorem WellFormed.extend (h : names.WellFormed) (addition : Addition) :
    (names.extend addition).WellFormed := by
  rw [NameList.extend]
  split
  next names' hadd =>
    obtain ⟨entry, hentry, hadd⟩ := Fallible.bind_eq_ok_iff.mp hadd
    exact h.add (Addition.sound_entry hentry) hadd
  next => exact h

theorem WellFormed.foldl_extend (h : names.WellFormed) (additions : List Addition) :
    (additions.foldl NameList.extend names).WellFormed := by
  induction additions generalizing names with
  | nil => exact h
  | cons addition additions ih => exact ih (h.extend addition)

theorem wellFormed_of_run {origin : Origin} {additions : List Addition}
    (h : run origin additions = .ok names) : names.WellFormed := by
  obtain ⟨start, hstart, rfl⟩ := Fallible.map_eq_ok_iff.mp h
  apply WellFormed.foldl_extend
  cases origin with
  | hostName host => exact wellFormed_ofHostName hstart
  | wire bytes => exact wellFormed_of_decode hstart

theorem Reachable.wellFormed (h : names.Reachable) : names.WellFormed := by
  obtain ⟨origin, additions, hrun⟩ := h
  exact wellFormed_of_run hrun

/-! ### The host name of a list -/

theorem WellFormed.canonical_of_hostName? {host : String} (h : names.WellFormed)
    (hhost : names.hostName? = some host) : HostName.Canonical host := by
  obtain ⟨entry, hentry, hname⟩ := Option.bind_eq_some_iff.mp hhost
  have hsound := h.sound entry (List.mem_of_find?_eq_some hentry)
  cases entry with
  | host name =>
    obtain rfl := Option.some_inj.mp hname
    exact hsound
  | other code name => cases hname

/-- A canonical host name makes a list with just this name. -/
theorem ofHostName_of_canonical {host : String} (h : HostName.Canonical host) :
    ofHostName host = .ok ⟨[.host host]⟩ := by
  rw [ofHostName, Entry.ofHostName, Fallible.map_eq_ok_iff]
  exact ⟨_, Entry.ofHostOctets_eq_ok_iff.mpr ⟨host, h, rfl⟩, rfl⟩

end PskHandshake.Sni.NameList
