/-
Decoding without slips.

The decoder takes octets apart by their shape, and it builds entries and lists with operations that
refuse more than it can meet.  `Checked.decode` is the decoder with every octet read by its position
and with every such refusal made a failure of its own, a `Slip`, as is a loop that does not end.  No
slip ever occurs.  The invariant is that what has been taken and what is left make up the list:

* `NameList.Rounds.size_add_length`, `NameList.Rounds.length_le` — the invariant, and the bound on
  the number of rounds;
* `Checked.takeEntry_eq`, `Checked.takeEntries_eq` — where the rest fits there is no slip in a
  round, nor in the rounds after it;
* `NameList.decode_safe` — decoding never slips.
-/
import PskHandshake.Proofs.Sni.FirstDefect
import PskHandshake.Proofs.Sni.Legal

namespace PskHandshake.Sni

/-- What could go wrong inside a decoder, whatever the octets are. -/
inductive Slip
  /-- A position or a slice that the octets do not have. -/
  | outOfRange
  /-- A text in ASCII that is not in UTF-8. -/
  | notUtf8
  /-- A host name that is passed on as a name of another type. -/
  | reservedType
  /-- A name that is too long for any list. -/
  | nameTooLong
  /-- An entry that is too long for the list it is added to. -/
  | listTooLong
  /-- More rounds than there are headers in the octets. -/
  | tooManyRounds
deriving DecidableEq, Repr

/-- How a checked decoder ends without a list: the octets are refused, or it slips. -/
inductive Failure
  | refused (error : Error)
  | slip (slip : Slip)
deriving DecidableEq, Repr

/-! ### The checked decoder -/

namespace Checked

def ensure (condition : Prop) [Decidable condition] (slip : Slip) : Except Failure Unit :=
  if condition then .ok () else .error (.slip slip)

/-- The octet at a position. -/
def octet (bytes : Bytes) (position : ℕ) : Except Failure UInt8 :=
  match bytes[position]? with
  | some octet => .ok octet
  | none => .error (.slip .outOfRange)

/-- The octets from one position to another. -/
def slice (bytes : Bytes) (start stop : ℕ) : Except Failure Bytes := do
  ensure (start ≤ stop ∧ stop ≤ bytes.length) .outOfRange
  return (bytes.take stop).drop start

/-- The entry for a type and a name from the wire. -/
def entry (code : UInt8) (name : Bytes) : Except Failure Entry :=
  match NameType.ofCode code with
  | .hostName => do
    ensure ((∀ octet ∈ name, octet < 128) → (Wire.ofUtf8? name).isSome) .notUtf8
    (Entry.ofHostOctets name).mapError .refused
  | .unknown _ => do
    ensure (NameType.ofCode code ≠ .hostName) .reservedType
    ensure (name.length ≤ Wire.maxUint16 - Entry.headerSize) .nameTooLong
    (Entry.ofOther code name).mapError .refused

def add (names : NameList) (entry : Entry) : Except Failure NameList := do
  ensure (names.size + entry.size ≤ Wire.maxUint16) .listTooLong
  (names.add entry).mapError .refused

/-- One round of the loop. -/
def takeEntry (names : NameList) (rest : Bytes) : Except Failure (NameList × Bytes) :=
  if rest.length < 3 then .error (.refused .entryTooShort)
  else do
    let code ← octet rest 0
    let length := Wire.uint16Value (← octet rest 1) (← octet rest 2)
    if rest.length < 3 + length then .error (.refused .nameTruncated)
    else
      let entry ← entry code (← slice rest 3 (3 + length))
      let names ← add names entry
      return (names, ← slice rest (3 + length) rest.length)

/-- The loop, with at most the given number of rounds. -/
def takeEntries : ℕ → NameList → Bytes → Except Failure NameList
  | 0, names, rest => if rest.isEmpty then .ok names else .error (.slip .tooManyRounds)
  | rounds + 1, names, rest =>
    if rest.isEmpty then .ok names
    else do
      let (names, rest) ← takeEntry names rest
      takeEntries rounds names rest

/-- Reads the extension, with a round for every three octets of the list, rounded up. -/
def decode (bytes : Bytes) : Except Failure NameList :=
  if bytes.length < 2 then .error (.refused .extensionTooShort)
  else do
    let length := Wire.uint16Value (← octet bytes 0) (← octet bytes 1)
    if bytes.length ≠ 2 + length then .error (.refused .listLengthMismatch)
    else if length = 0 then .error (.refused .emptyList)
    else takeEntries ((length + 2) / 3) ⟨[]⟩ (← slice bytes 2 bytes.length)

end Checked

/-- After `n` rounds of the loop over `body`, the list is `names` and the octets `rest` are left. -/
inductive NameList.Rounds (body : Bytes) : ℕ → NameList → Bytes → Prop
  | zero : Rounds body 0 ⟨[]⟩ body
  | succ {n : ℕ} {names names' : NameList} {rest rest' : Bytes} :
      Rounds body n names rest → rest ≠ [] → takeEntry names rest = .ok (names', rest') →
        Rounds body (n + 1) names' rest'

/-! ### Rounds -/

namespace NameList

variable {names names' : NameList} {bytes body rest rest' : Bytes} {n : ℕ} {error : Error}

/-- **The loop invariant.**  What is in the list and what is left make up the octets there were. -/
theorem Rounds.size_add_length (h : Rounds body n names rest)
    (hbody : body.length ≤ Wire.maxUint16) : names.size + rest.length = body.length := by
  induction h with
  | zero => rw [size_nil, Nat.zero_add]
  | succ _ _ htaken ih =>
    rw [size_of_takeEntry (ih ▸ hbody) htaken, ih]

theorem Rounds.length_le (h : Rounds body n names rest) :
    Entry.headerSize * n + rest.length ≤ body.length := by
  induction h with
  | zero => omega
  | succ _ _ htaken ih =>
    have hlength := length_of_takeEntry htaken
    rw [Nat.mul_succ]
    omega

/-- The loop can be cut off after any round. -/
theorem Rounds.takeEntries_eq (h : Rounds body n names rest) :
    takeEntries ⟨[]⟩ body = takeEntries names rest := by
  induction h with
  | zero => rfl
  | succ _ hne htaken ih =>
    rw [ih, takeEntries_of_ne_nil _ hne, htaken]
    rfl

/-- From every round the loop comes to an end: no octets are left, or an entry cannot be taken. -/
theorem Rounds.exists_end (h : Rounds body n names rest) :
    ∃ n names rest, Rounds body n names rest ∧
      (rest = [] ∧ takeEntries ⟨[]⟩ body = .ok names ∨
        rest ≠ [] ∧ ∃ error, takeEntry names rest = .error error ∧
          takeEntries ⟨[]⟩ body = .error error) := by
  fun_induction takeEntries names rest generalizing n with
  | case1 names rest hempty =>
    obtain rfl := List.isEmpty_iff.mp hempty
    exact ⟨n, names, [], h, .inl ⟨rfl, by rw [h.takeEntries_eq, takeEntries_nil]⟩⟩
  | case2 names rest hempty error htaken =>
    have hne : rest ≠ [] := by simpa using hempty
    refine ⟨n, names, rest, h, .inr ⟨hne, error, htaken, ?_⟩⟩
    rw [h.takeEntries_eq, takeEntries_of_ne_nil _ hne, htaken]
    rfl
  | case3 names rest hempty names' rest' htaken ih =>
    exact ih (h.succ (by simpa using hempty) htaken)

end NameList

/-! ### No slips -/

namespace Checked

variable {names : NameList} {bytes name rest : Bytes} {code : UInt8}

theorem ensure_of {condition : Prop} [Decidable condition] {slip : Slip} (h : condition) :
    ensure condition slip = .ok () :=
  if_pos h

theorem slice_of {start stop : ℕ} (hstart : start ≤ stop) (hstop : stop ≤ bytes.length) :
    slice bytes start stop = .ok ((bytes.take stop).drop start) := by
  rw [slice, ensure_of ⟨hstart, hstop⟩]
  rfl

theorem isSome_ofUtf8?_of_ascii (h : ∀ octet ∈ name, octet < 128) : (Wire.ofUtf8? name).isSome := by
  rw [Wire.ofUtf8?_eq_some_iff.mpr (HostName.utf8_asciiText h).symm]
  rfl

theorem entry_eq (hroom : name.length ≤ Wire.maxUint16 - Entry.headerSize) :
    entry code name = (Entry.ofWire code name).mapError .refused := by
  rw [entry, Entry.ofWire]
  by_cases hcode : code = 0
  · rw [if_pos hcode, NameType.ofCode, if_pos hcode, ensure_of isSome_ofUtf8?_of_ascii]
    rfl
  · have htype : NameType.ofCode code = .unknown code := if_neg hcode
    simp only [if_neg hcode, htype]
    rw [ensure_of (by simp), ensure_of hroom]
    rfl

theorem add_eq {entry : Entry} (hroom : names.size + entry.size ≤ Wire.maxUint16) :
    add names entry = (names.add entry).mapError .refused := by
  rw [add, ensure_of hroom]
  rfl

/-- Behind a whole header, positions and slices are those of the octets that follow it. -/
theorem takeEntry_cons (names : NameList) (code high low : UInt8) (tail : Bytes) :
    takeEntry names (code :: high :: low :: tail) =
      if tail.length < Wire.uint16Value high low then .error (.refused .nameTruncated)
      else
        (entry code (tail.take (Wire.uint16Value high low)) >>= add names).map
          fun names => (names, tail.drop (Wire.uint16Value high low)) := by
  have hlength : (code :: high :: low :: tail).length = 3 + tail.length := by
    simp only [List.length_cons]
    omega
  have hcode : octet (code :: high :: low :: tail) 0 = .ok code := rfl
  have hhigh : octet (code :: high :: low :: tail) 1 = .ok high := rfl
  have hlow : octet (code :: high :: low :: tail) 2 = .ok low := rfl
  rw [takeEntry, hlength, if_neg (by omega), hcode, hhigh, hlow]
  change (if 3 + tail.length < 3 + Wire.uint16Value high low then _ else _) = _
  generalize Wire.uint16Value high low = length
  simp only [Nat.add_lt_add_iff_left]
  split
  · rfl
  next hwhole =>
    have hname : slice (code :: high :: low :: tail) 3 (3 + length) = .ok (tail.take length) := by
      rw [slice_of (by omega) (by omega), Nat.add_comm]
      rfl
    have hrest : slice (code :: high :: low :: tail) (3 + length) (3 + tail.length) =
        .ok (tail.drop length) := by
      rw [slice_of (by omega) (by omega), ← hlength, List.take_length, Nat.add_comm]
      rfl
    rw [hname, hrest]
    change (entry code (tail.take length) >>= fun entry =>
      add names entry >>= fun names => .ok (names, tail.drop length)) = _
    rcases entry code (tail.take length) with failure | entry
    · rfl
    · change (add names entry >>= _) = (add names entry).map _
      cases add names entry <;> rfl

/-- In a round over octets that fit the list there is no slip. -/
theorem takeEntry_eq (hfits : names.size + rest.length ≤ Wire.maxUint16) :
    takeEntry names rest = (names.takeEntry rest).mapError .refused := by
  rcases RawEntry.short_or_truncated_or_carries rest with
    hshort | ⟨code, high, low, tail, rfl, hshort⟩ | ⟨raw, field, rest, rfl, hfield⟩
  · rw [NameList.takeEntry_of_short names hshort, takeEntry,
      if_pos (show rest.length < 3 from hshort)]
    rfl
  · rw [NameList.takeEntry_of_truncated names hshort, takeEntry_cons, if_pos hshort]
    rfl
  · rw [NameList.takeEntry_of_carries names hfield]
    rw [RawEntry.length_front hfield] at hfits
    obtain ⟨high, low, rfl, hlength⟩ := hfield
    rw [List.cons_append, List.cons_append, takeEntry_cons, hlength, if_neg (by simp),
      List.take_left, List.drop_left, entry_eq (by omega)]
    rcases hentry : Entry.ofWire raw.code raw.name with error | entry
    · rfl
    · obtain ⟨hvalid, rfl⟩ := (RawEntry.ofWire_eq_ok_iff (by omega)).mp hentry
      have hroom : names.size + raw.entry.size ≤ Wire.maxUint16 := by
        rw [RawEntry.size_entry hvalid]
        omega
      change (add names raw.entry).map _ = ((names.add raw.entry).map _).mapError _
      rw [add_eq hroom]
      cases names.add raw.entry <;> rfl

/-- In the rounds over octets that fit the list there is no slip, if there are enough of them. -/
theorem takeEntries_eq {rounds : ℕ} (hfits : names.size + rest.length ≤ Wire.maxUint16)
    (hrounds : rest.length ≤ Entry.headerSize * rounds) :
    takeEntries rounds names rest = (names.takeEntries rest).mapError .refused := by
  induction rounds generalizing names rest with
  | zero =>
    obtain rfl : rest = [] := List.length_eq_zero_iff.mp (by omega)
    rw [NameList.takeEntries_nil]
    rfl
  | succ rounds ih =>
    by_cases hne : rest = []
    · rw [hne, NameList.takeEntries_nil]
      rfl
    · rw [takeEntries, if_neg (by simpa using hne), takeEntry_eq hfits,
        NameList.takeEntries_of_ne_nil names hne]
      rcases htaken : names.takeEntry rest with error | ⟨names', rest'⟩
      · rfl
      · -- what is taken leaves less for the rounds that are left
        have hsize := NameList.size_of_takeEntry hfits htaken
        have hlength := NameList.length_of_takeEntry htaken
        exact ih (by omega) (by rw [Nat.mul_succ] at hrounds; omega)

/-- No octets make the checked decoder slip. -/
theorem decode_eq (bytes : Bytes) : decode bytes = (NameList.decode bytes).mapError .refused := by
  match bytes with
  | [] | [_] => rfl
  | high :: low :: body =>
    have hlength : (high :: low :: body).length = 2 + body.length := by
      simp only [List.length_cons]
      omega
    have hhigh : octet (high :: low :: body) 0 = .ok high := rfl
    have hlow : octet (high :: low :: body) 1 = .ok low := rfl
    have hbody : slice (high :: low :: body) 2 (2 + body.length) = .ok body := by
      rw [slice_of (by omega) (by omega), ← hlength, List.take_length]
      rfl
    rw [decode, hlength, if_neg (by omega), hhigh, hlow, hbody, NameList.decode]
    change (if 2 + body.length ≠ 2 + Wire.uint16Value high low then _ else
      if Wire.uint16Value high low = 0 then _ else
        takeEntries ((Wire.uint16Value high low + 2) / 3) ⟨[]⟩ body) = _
    by_cases hsame : body.length = Wire.uint16Value high low
    · have hle : body.length ≤ Wire.maxUint16 := hsame ▸ Wire.uint16Value_le high low
      rw [← hsame, if_neg (not_not_intro rfl), if_neg (not_not_intro rfl)]
      by_cases hempty : body = []
      · subst hempty
        rfl
      · rw [if_neg (by simpa using hempty), if_neg (by simpa using hempty), takeEntries_eq]
        · rwa [NameList.size_nil, Nat.zero_add]
        · rw [Entry.headerSize]
          omega
    · rw [if_pos (by omega), if_pos hsame]
      rfl

end Checked

/-! ### Errors that are left -/

theorem RawEntry.Defect.error_ne {codes : List UInt8} {bytes : Bytes} {error : Error}
    (h : RawEntry.Defect codes bytes error) : error ≠ .listTooLong ∧ error ≠ .reservedType := by
  cases h with
  | tooShort _ _ | truncated _ | duplicate _ _ _ => simp
  | @name raw _ _ _ _ hrefused =>
    rw [RawEntry.Refused] at hrefused
    split at hrefused
    · obtain ⟨defect, -, rfl⟩ := hrefused
      simp
    · obtain ⟨-, rfl⟩ := hrefused
      simp

namespace NameList

theorem error_ne_of_decode {bytes : Bytes} {error : Error} (h : decode bytes = .error error) :
    error ≠ .listTooLong ∧ error ≠ .reservedType := by
  match bytes with
  | [] | [_] =>
    cases h
    simp
  | high :: low :: body =>
    rw [decode] at h
    split at h
    · cases h
      simp
    next hlength =>
    split at h
    · cases h
      simp
    · rw [not_ne_iff] at hlength
      rw [takeEntries_eq_error_iff (hlength ▸ Wire.uint16Value_le high low)] at h
      obtain ⟨shown, raws, before, rest, -, -, -, -, -, hdefect⟩ := h
      exact hdefect.error_ne

/-- **Decoding never slips.**  With every position, slice and inherited refusal checked, decoding
comes to the same as without, so none of these checks fails, and the loop ends after a round for
every three octets at most.  At every round the entries in the list and the octets that are left
make up the length that the list was given, and each round takes at least a header; after the last
of them either nothing is left and the list is accepted, or the entry in front cannot be taken and
its error is that of the list. -/
theorem decode_safe (bytes : Bytes) :
    Checked.decode bytes = (decode bytes).mapError .refused ∧
      (∀ error, decode bytes = .error error → error ≠ .listTooLong ∧ error ≠ .reservedType) ∧
      ∀ high low body, bytes = high :: low :: body → body.length = Wire.uint16Value high low →
        (∀ n names rest, Rounds body n names rest →
          names.encodedLength + rest.length = Wire.uint16Value high low ∧
            3 * n + rest.length ≤ body.length ∧
              Checked.takeEntry names rest = (takeEntry names rest).mapError .refused ∧
                ∀ names' rest', takeEntry names rest = .ok (names', rest') →
                  rest'.length + 3 ≤ rest.length) ∧
        (body ≠ [] → ∃ n names rest, Rounds body n names rest ∧
          (rest = [] ∧ decode bytes = .ok names ∨
            rest ≠ [] ∧ ∃ error, takeEntry names rest = .error error ∧
              decode bytes = .error error)) := by
  refine ⟨Checked.decode_eq bytes, fun error => error_ne_of_decode, ?_⟩
  intro high low body hbytes hlength
  have hfits : body.length ≤ Wire.maxUint16 := hlength ▸ Wire.uint16Value_le high low
  constructor
  · intro n names rest hrounds
    have hsize := hrounds.size_add_length hfits
    refine ⟨?_, hrounds.length_le, Checked.takeEntry_eq (hsize ▸ hfits), ?_⟩
    · rw [encodedLength_eq_size, hsize, hlength]
    · intro names' rest' htaken
      exact length_of_takeEntry htaken
  · intro hbody
    have hcarries : Wire.Carries bytes body := ⟨high, low, hbytes, hlength.symm⟩
    rw [decode_of_carries hcarries hbody]
    exact Rounds.zero.exists_end

/-- After one round over two entries, of which the second is cut off, the entry that is there and
the octets that are left make up the length of the list; and then the list is refused. -/
theorem decode_safe_truncated :
    let body : Bytes := [0, 0, 1, 0x41, 7, 0, 9]
    Rounds body 1 ⟨[.host "a"]⟩ [7, 0, 9] ∧ encodedLength ⟨[.host "a"]⟩ + 3 = 7 ∧
      Checked.decode (0 :: 7 :: body) = .error (.refused .nameTruncated) := by
  intro body
  have hround : takeEntry ⟨[]⟩ body = .ok (⟨[.host "a"]⟩, [7, 0, 9]) := by decide +kernel
  have hrounds : Rounds body 1 ⟨[.host "a"]⟩ [7, 0, 9] :=
    Rounds.zero.succ (List.cons_ne_nil _ _) hround
  have hdecode : decode (0 :: 7 :: body) = .error .nameTruncated := by decide +kernel
  obtain ⟨hchecked, -, hloop⟩ := decode_safe (0 :: 7 :: body)
  obtain ⟨hsize, -⟩ := (hloop 0 7 body rfl rfl).1 1 _ _ hrounds
  refine ⟨hrounds, hsize, ?_⟩
  rw [hchecked, hdecode]
  rfl

end NameList

end PskHandshake.Sni
