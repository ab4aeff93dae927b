/-
Legal server name lists, and the additions that a list admits.

`NameList.WellFormed` is the invariant in the form in which the operations keep it.  Here it is said
in terms of what a list looks like on the wire, and additions are described by it.

* `NameList.WellFormed.legal` — a list with the invariant is legal;
* `NameList.WellFormed.add_eq_ok_iff` — which entries can be added, by their codes and lengths;
* `NameList.foldlM_attempt_kept` — a run without the additions that fail;
* `NameList.run_legal` — every list that a run of operations ends with is legal, admits an entry
  exactly when it stays legal with it, and owes nothing to additions that fail.
-/
import PskHandshake.Proofs.Sni.Run

namespace PskHandshake.Sni

namespace NameList

/-- The number of octets that the encodings of the entries have together. -/
def encodedLength (names : NameList) : ℕ :=
  (names.entries.map fun entry => entry.encode.length).sum

/-- The codes of the types of the entries. -/
def codes (names : NameList) : List UInt8 := names.entries.map fun entry => entry.type.code

/-- What a server name list may look like. -/
structure Legal (names : NameList) : Prop where
  nonempty : names.entries ≠ []
  nodup_codes : names.codes.Nodup
  encodedLength_le : names.encodedLength ≤ Wire.maxUint16
  other : ∀ code name, .other code name ∈ names.entries →
    code ≠ 0 ∧ 1 ≤ name.length ∧ name.length ≤ Wire.maxUint16 - Entry.headerSize
  host : ∀ name, .host name ∈ names.entries →
    HostName.defect? (Wire.utf8 name) = none ∧ ∀ c ∈ name.toList, c.isUpper = false
  isSome_hostName? : names.hostName?.isSome ↔ 0 ∈ names.codes

/-- Whether there is room in a list for an entry, and no entry of its type. -/
def Admits (names : NameList) (entry : Entry) : Prop :=
  entry.type.code ∉ names.codes ∧
    names.encodedLength + entry.encode.length ≤ Wire.maxUint16

instance (names : NameList) (entry : Entry) : Decidable (names.Admits entry) :=
  inferInstanceAs (Decidable (_ ∧ _))

/-- The list with an addition, if the addition succeeds. -/
def attempt (names : NameList) (addition : Addition) : Except Error NameList :=
  addition.entry >>= names.add

/-- Those of some additions, made one after the other, that succeed. -/
def kept (names : NameList) : List Addition → List Addition
  | [] => []
  | addition :: additions =>
    match names.attempt addition with
    | .ok names' => addition :: names'.kept additions
    | .error _ => names.kept additions

variable {names names' : NameList} {entry : Entry}

/-! ### Legal lists -/

theorem encodedLength_eq_size (names : NameList) : names.encodedLength = names.size := by
  simp only [encodedLength, size_eq_sum, Entry.length_encode]

theorem WellFormed.isSome_hostName?_iff (h : names.WellFormed) :
    names.hostName?.isSome ↔ 0 ∈ names.codes := by
  have hget : names.get? .hostName = none ↔ 0 ∉ names.codes :=
    h.get?_eq_none_iff rfl
  rw [← not_iff_not, ← hget, Option.not_isSome_iff_eq_none, hostName?, Option.bind_eq_none_iff]
  constructor
  · intro hnone
    refine Option.eq_none_iff_forall_ne_some.mpr fun entry hentry => ?_
    have htype : entry.type = .hostName := by simpa using List.find?_some hentry
    cases entry with
    | host name => cases hnone _ hentry
    | other code name => cases htype
  · rintro hnone entry hentry
    rw [hnone] at hentry
    cases hentry

theorem WellFormed.legal (h : names.WellFormed) : names.Legal := by
  refine ⟨h.nonempty, h.distinct, ?_, ?_, ?_, h.isSome_hostName?_iff⟩
  · rw [encodedLength_eq_size]
    exact h.fits
  · intro code name hmem
    obtain ⟨hcode, hname⟩ := h.sound _ hmem
    have hsize := h.size_le hmem
    rw [Entry.size, Entry.octets] at hsize
    exact ⟨hcode, List.length_pos_iff.mpr hname, by omega⟩
  · intro name hmem
    have hname : HostName.Canonical name := h.sound _ hmem
    refine ⟨hname.defect?_eq_none, fun c hc => ?_⟩
    -- every character of a name in lower case is a lower case
    rw [← hname.toLower_eq, LetterCase.toList_toLower, List.mem_map] at hc
    obtain ⟨c, -, rfl⟩ := hc
    exact Char.isUpper_toLower_eq_false c

/-! ### Additions -/

theorem WellFormed.add_eq_ok_iff (h : names.WellFormed) (hentry : entry.Sound) :
    names.add entry = .ok names' ↔
      names.Admits entry ∧ names' = ⟨names.entries ++ [entry]⟩ := by
  rw [NameList.add_eq_ok_iff, h.get?_eq_none_iff hentry.ofCode_code, Admits, codes,
    encodedLength_eq_size, Entry.length_encode, and_assoc]

theorem extend_eq (names : NameList) (addition : Addition) :
    names.extend addition =
      match names.attempt addition with
      | .ok names' => names'
      | .error _ => names := rfl

/-- An addition that builds an entry puts it at the end of a list that admits it, and leaves every
other list as it was. -/
theorem WellFormed.extend_eq_ite {addition : Addition} (h : names.WellFormed)
    (hentry : addition.entry = .ok entry) :
    names.extend addition =
      if names.Admits entry then ⟨names.entries ++ [entry]⟩ else names := by
  have hadd : ∀ names', names.attempt addition = .ok names' ↔
      names.Admits entry ∧ names' = ⟨names.entries ++ [entry]⟩ := by
    intro names'
    rw [attempt, hentry]
    exact h.add_eq_ok_iff (Addition.sound_entry hentry)
  rw [extend_eq]
  split
  next names' hok =>
    obtain ⟨hadmits, rfl⟩ := (hadd names').mp hok
    rw [if_pos hadmits]
  next error herror =>
    rw [if_neg]
    intro hadmits
    rw [(hadd _).mpr ⟨hadmits, rfl⟩] at herror
    cases herror

/-- The additions that succeed can be made alone; they all succeed again, and make the same list. -/
theorem foldlM_attempt_kept (names : NameList) (additions : List Addition) :
    (names.kept additions).foldlM attempt names = .ok (additions.foldl extend names) := by
  induction additions generalizing names with
  | nil => rfl
  | cons addition additions ih =>
    rw [List.foldl_cons, kept, extend_eq]
    split
    next names' hok =>
      rw [List.foldlM_cons, hok]
      exact ih names'
    next => exact ih names

/-- Additions that all succeed make the list that a run with them makes. -/
theorem foldl_extend_of_foldlM {additions : List Addition}
    (h : additions.foldlM attempt names = .ok names') : additions.foldl extend names = names' := by
  induction additions generalizing names with
  | nil => exact Except.ok.inj h
  | cons addition additions ih =>
    obtain ⟨mid, hmid, h⟩ := Fallible.bind_eq_ok_iff.mp h
    rw [List.foldl_cons, extend_eq, hmid]
    exact ih h

/-- **Every list is legal.**  A list that a run of operations ends with is legal: it is not empty,
its codes are all different, its entries fit a list, other names are not empty and have another code
than host names, host names are accepted and in lower case, and there is a host name exactly when
the code of host names is there.  An entry can be added to it exactly when its code is new and there
is room; then it stands at the end of a list that is otherwise the same, and else the list stays as
it was.  And the run ends with the same list when only the additions that succeed are made, all of
which succeed again. -/
theorem run_legal {origin : Origin} {additions : List Addition}
    (h : run origin additions = .ok names) :
    names.Legal ∧
    (∀ addition entry, addition.entry = .ok entry →
      (∀ names', names.add entry = .ok names' ↔
        names.Admits entry ∧ names' = ⟨names.entries ++ [entry]⟩) ∧
      names.extend addition =
        if names.Admits entry then ⟨names.entries ++ [entry]⟩ else names) ∧
    ∀ start, origin.names = .ok start →
      run origin (start.kept additions) = .ok names ∧
        (start.kept additions).foldlM attempt start = .ok names := by
  have hnames := wellFormed_of_run h
  refine ⟨hnames.legal, ?_, ?_⟩
  · intro addition entry hentry
    exact ⟨fun names' => hnames.add_eq_ok_iff (Addition.sound_entry hentry),
      hnames.extend_eq_ite hentry⟩
  · intro start hstart
    obtain ⟨start', hstart', rfl⟩ := Fallible.map_eq_ok_iff.mp h
    obtain rfl := Except.ok.inj (hstart'.symm.trans hstart)
    have hkept := foldlM_attempt_kept start' additions
    refine ⟨?_, hkept⟩
    rw [run, hstart', Except.map, foldl_extend_of_foldlM hkept]

/-- A list with the last octet in use: a host name, and a name of another type that takes the rest
of the list.  Then there is no room for one more name. -/
theorem run_legal_full :
    let filling : Bytes := List.replicate 65526 0x5a
    let names : NameList := ⟨[.host "a.b", .other 7 filling]⟩
    run (.hostName "A.b") [.other 0 [1], .other 7 filling, .other 8 [1]] = .ok names ∧
      names.encodedLength ≤ Wire.maxUint16 ∧ names.extend (.other 8 [1]) = names ∧
        run (.hostName "A.b")
            (kept ⟨[.host "a.b"]⟩ [.other 0 [1], .other 7 filling, .other 8 [1]]) =
          .ok names := by
  intro filling names
  have hstart : (Origin.hostName "A.b").names = .ok ⟨[.host "a.b"]⟩ := by decide +kernel
  have hsize : (Entry.host "a.b").size = 6 ∧ (Entry.other 7 filling).size = 65529 := by
    refine ⟨by decide +kernel, ?_⟩
    rw [Entry.size, Entry.octets, List.length_replicate, Entry.headerSize]
  have hfits : Admits ⟨[.host "a.b"]⟩ (.other 7 filling) := by
    refine ⟨by decide, ?_⟩
    rw [encodedLength_eq_size, Entry.length_encode, hsize.2, size_cons, size_nil, hsize.1,
      Wire.maxUint16]
  have hfull : ¬names.Admits (.other 8 [1]) := by
    rintro ⟨-, hroom⟩
    rw [encodedLength_eq_size, Entry.length_encode, size_cons, size_cons, size_nil, hsize.1,
      hsize.2, Wire.maxUint16] at hroom
    exact absurd hroom (by decide)
  have hfilling : (Addition.other 7 filling).entry = .ok (.other 7 filling) := by
    refine Entry.ofOther_eq_ok_iff.mpr ⟨by decide, ?_, ?_, rfl⟩
    · exact List.ne_nil_of_length_pos (by rw [List.length_replicate]; decide)
    · rw [List.length_replicate, Entry.headerSize, Wire.maxUint16]
      decide
  have hlast : (Addition.other 8 [1]).entry = .ok (.other 8 [1]) := rfl
  have hrun : run (.hostName "A.b") [.other 0 [1], .other 7 filling, .other 8 [1]] = .ok names := by
    have hhost : WellFormed ⟨[.host "a.b"]⟩ := wellFormed_ofHostName hstart
    have hfirst : extend ⟨[.host "a.b"]⟩ (.other 0 [1]) = ⟨[.host "a.b"]⟩ := rfl
    have hsecond : extend ⟨[.host "a.b"]⟩ (.other 7 filling) = names := by
      rw [hhost.extend_eq_ite hfilling, if_pos hfits]
      rfl
    have hnames : names.WellFormed := hsecond ▸ hhost.extend _
    have hthird : names.extend (.other 8 [1]) = names := by
      rw [hnames.extend_eq_ite hlast, if_neg hfull]
    rw [run, hstart, Except.map, List.foldl_cons, hfirst, List.foldl_cons, hsecond,
      List.foldl_cons, hthird, List.foldl_nil]
  obtain ⟨hlegal, hadditions, hkept⟩ := run_legal hrun
  obtain ⟨-, hextend⟩ := hadditions _ _ hlast
  rw [if_neg hfull] at hextend
  exact ⟨hrun, hlegal.encodedLength_le, hextend, (hkept _ hstart).1⟩

end NameList

end PskHandshake.Sni
