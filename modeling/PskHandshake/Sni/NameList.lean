/-
Server name lists: what a client sends to say which virtual host it wants.

A list has at most one entry of each type, and its entries fit in a vector with a 16-bit length.
`NameList.ofHostName` and `NameList.add` keep both.  `NameList.decode` reads lists back, from left
to right and an entry at a time, and the first thing that is wrong decides the error.

* `NameList.add_eq_ok_iff` — an entry is added exactly when its type is new and there is room for
  it, and it then stands last;
* `NameList.length_of_takeEntry` — reading an entry shortens what is left;
* `NameList.takeEntries_of_ne_nil` — reading entries is reading one and then the others.
-/
import PskHandshake.Fallible
import PskHandshake.Sni.Entry

namespace PskHandshake.Sni

/-- A server name list: its entries, in the order of the wire. -/
structure NameList where
  entries : List Entry
deriving DecidableEq, Repr

namespace NameList

/-- The list with one host name. -/
def ofHostName (name : String) : Except Error NameList :=
  (Entry.ofHostName name).map fun entry => ⟨[entry]⟩

/-- The entry of a type, if the list has one. -/
def get? (names : NameList) (type : NameType) : Option Entry :=
  names.entries.find? (·.type = type)

/-- The host name of the list, if it has one. -/
def hostName? (names : NameList) : Option String :=
  (names.get? .hostName).bind Entry.hostName?

/-- The number of octets that the entries take on the wire. -/
def size (names : NameList) : Nat :=
  names.entries.foldr (fun entry total => entry.size + total) 0

/-- Adds an entry at the end.  A second entry of a type is refused, and then an entry for which
there is no room. -/
def add (names : NameList) (entry : Entry) : Except Error NameList :=
  if (names.get? entry.type).isSome then .error (.duplicateType entry.type.code)
  else if Wire.maxUint16 < names.size + entry.size then .error .listTooLong
  else .ok ⟨names.entries ++ [entry]⟩

/-- The extension on the wire: the entries as a vector. -/
def encode (names : NameList) : Bytes :=
  Wire.uint16 names.size ++ names.entries.flatMap Entry.encode

/-- The entries in order. -/
def outline (names : NameList) : Outline :=
  .record "ServerNames" [("names", .sequence (names.entries.map Entry.outline))] true

theorem size_nil : size ⟨[]⟩ = 0 := rfl

theorem size_cons (entry : Entry) (entries : List Entry) :
    size ⟨entry :: entries⟩ = entry.size + size ⟨entries⟩ := rfl

theorem size_append (entries : List Entry) (entry : Entry) :
    size ⟨entries ++ [entry]⟩ = size ⟨entries⟩ + entry.size := by
  induction entries with
  | nil => exact Nat.add_comm _ _
  | cons first entries ih => rw [List.cons_append, size_cons, size_cons, ih, Nat.add_assoc]

@[simp] theorem length_flatMap_encode (names : NameList) :
    (names.entries.flatMap Entry.encode).length = names.size := by
  obtain ⟨entries⟩ := names
  induction entries with
  | nil => rfl
  | cons entry entries ih =>
    rw [List.flatMap_cons, List.length_append, ih, Entry.length_encode, size_cons]

/-- The extension is two octets longer than its entries. -/
@[simp] theorem length_encode (names : NameList) : names.encode.length = 2 + names.size := by
  rw [encode, List.length_append, length_flatMap_encode, Wire.length_uint16]

theorem add_eq_ok_iff {names names' : NameList} {entry : Entry} :
    names.add entry = .ok names' ↔
      names.get? entry.type = none ∧ names.size + entry.size ≤ Wire.maxUint16 ∧
        names' = ⟨names.entries ++ [entry]⟩ := by
  rw [add]
  split
  next h => simp [Option.isSome_iff_ne_none.mp h]
  next h =>
    rw [Option.not_isSome_iff_eq_none] at h
    split
    next hroom => simp [h, Nat.not_le.mpr hroom]
    next hroom => simp [h, Nat.not_lt.mp hroom, eq_comm]

/-! ### Reading from the wire -/

/-- Takes one entry from the front of the octets and adds it to the names. -/
def takeEntry (names : NameList) : Bytes → Except Error (NameList × Bytes)
  | code :: high :: low :: rest =>
    let length := Wire.uint16Value high low
    if rest.length < length then .error .nameTruncated
    else do
      let entry ← Entry.ofWire code (rest.take length)
      let names ← names.add entry
      return (names, rest.drop length)
  | _ => .error .entryTooShort

theorem length_of_takeEntry {names names' : NameList} {bytes rest : Bytes}
    (h : takeEntry names bytes = .ok (names', rest)) :
    rest.length + Entry.headerSize ≤ bytes.length := by
  match bytes, h with
  | code :: high :: low :: tail, h =>
    rw [takeEntry] at h
    split at h
    · contradiction
    · obtain ⟨entry, -, h⟩ := Fallible.bind_eq_ok_iff.mp h
      obtain ⟨added, -, h⟩ := Fallible.bind_eq_ok_iff.mp h
      obtain ⟨-, rfl⟩ := Prod.mk.inj (Except.ok.inj h)
      rw [List.length_drop, Entry.headerSize]
      simp only [List.length_cons]
      omega

/-- Takes entries until no octets are left. -/
def takeEntries (names : NameList) (bytes : Bytes) : Except Error NameList :=
  if bytes.isEmpty then .ok names
  else
    match _taken : takeEntry names bytes with
    | .error error => .error error
    | .ok (names', rest) => takeEntries names' rest
termination_by bytes.length
decreasing_by
  have := length_of_takeEntry _taken
  simp only [Entry.headerSize] at this
  omega

@[simp] theorem takeEntries_nil (names : NameList) : takeEntries names [] = .ok names := by
  rw [takeEntries]
  rfl

theorem takeEntries_of_ne_nil (names : NameList) {bytes : Bytes} (h : bytes ≠ []) :
    takeEntries names bytes =
      (takeEntry names bytes).bind fun taken => takeEntries taken.1 taken.2 := by
  rw [takeEntries, if_neg (by simpa using h)]
  cases takeEntry names bytes <;> rfl

/-- Reads the extension: a vector of entries that is not empty. -/
def decode : Bytes → Except Error NameList
  | high :: low :: bytes =>
    if bytes.length ≠ Wire.uint16Value high low then .error .listLengthMismatch
    else if bytes.isEmpty then .error .emptyList
    else takeEntries ⟨[]⟩ bytes
  | _ => .error .extensionTooShort

end NameList

end PskHandshake.Sni
