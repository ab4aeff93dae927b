/-
Entries of a server name list: a host name, or a name of a type that is carried but not understood.

A host name is a DNS name in ASCII, without a trailing dot and not an IP literal.  Letter case does
not matter, so the lower-case text stands for the name.  `Error` lists all that can be wrong with an
entry, and with a list of them, on its way in or out.
-/
import PskHandshake.Address
import PskHandshake.Fault
import PskHandshake.Wire

namespace PskHandshake.Sni

/-! ### Host names -/

/-- Why octets are no host name. -/
inductive HostName.Defect
  /-- There are none, or more than `HostName.maxLength`. -/
  | length
  /-- One of them is outside ASCII. -/
  | notAscii
  /-- The last one is a dot. -/
  | trailingDot
  /-- They spell an IP address. -/
  | ipLiteral
deriving DecidableEq, Repr

namespace HostName

/-- The most octets that a DNS name has without its trailing dot. -/
def maxLength : Nat := 253

/-- Whether a text is an IP address of either family. -/
def isIpLiteral (text : List Char) : Bool :=
  (Ipv4.parse? text).isSome || (Ipv6.parse? text).isSome

/-- The text of octets in ASCII. -/
def asciiText (bytes : Bytes) : List Char := bytes.map Char.ofUInt8

/-- The first defect of octets as a host name, in the order of `HostName.Defect`. -/
def defect? (bytes : Bytes) : Option Defect :=
  if bytes.length = 0 ∨ maxLength < bytes.length then some .length
  else if bytes.any (128 ≤ ·) then some .notAscii
  else if bytes.getLast? = some '.'.toUInt8 then some .trailingDot
  else if isIpLiteral (asciiText bytes) then some .ipLiteral
  else none

/-- The host name that octets spell, in lower case. -/
def read (bytes : Bytes) : Except Defect String :=
  match defect? bytes with
  | some defect => .error defect
  | none => .ok (String.ofList ((asciiText bytes).map Char.toLower))

end HostName

/-! ### Refusals -/

/-- Why a server name, or a list of them, is refused. -/
inductive Error
  /-- The name of a host entry is no host name. -/
  | hostName (defect : HostName.Defect)
  /-- The type of host names was given for an entry of another type. -/
  | reservedType
  /-- The name of an entry of another type is empty, or too long for a list. -/
  | nameLength
  /-- The list has an entry of the type already. -/
  | duplicateType (code : UInt8)
  /-- The entries together are too long for a list. -/
  | listTooLong
  /-- The extension ends inside the length of its list. -/
  | extensionTooShort
  /-- The length of the list is not the number of octets that follow. -/
  | listLengthMismatch
  /-- The list has no entries. -/
  | emptyList
  /-- The list ends inside the type or the length of an entry. -/
  | entryTooShort
  /-- The list ends inside the name of an entry. -/
  | nameTruncated
deriving DecidableEq, Repr

namespace Error

/-- The text for the reader. -/
def detail : Error → String
  | hostName .length => "HostName length out of range"
  | hostName .notAscii => "HostName must be ASCII"
  | hostName .trailingDot => "HostName must not end with a dot"
  | hostName .ipLiteral => "HostName must not be an IP literal"
  | reservedType => "host_name entries must be created with ServerName::host_name"
  | nameLength => "ServerName length out of range"
  | duplicateType code => "Duplicate ServerName of type " ++ toString code.toNat
  | listTooLong => "ServerName list exceeds 65535 bytes"
  | extensionTooShort => "ServerName extension too short"
  | listLengthMismatch => "ServerName list length mismatch"
  | emptyList => "ServerName list is empty"
  | entryTooShort => "ServerName entry too short"
  | nameTruncated => "ServerName data truncated"

/-- A refused server name is an invalid message. -/
def toFault (error : Error) : Fault := ⟨.invalidMessage, error.detail⟩

end Error

/-! ### Entries -/

/-- The type of an entry. -/
inductive NameType
  | hostName
  | unknown (code : UInt8)
deriving DecidableEq, Repr

/-- An entry of a server name list. -/
inductive Entry
  /-- A host name, in lower case. -/
  | host (name : String)
  /-- A name of another type, as it came. -/
  | other (code : UInt8) (name : Bytes)
deriving DecidableEq, Repr

namespace NameType

/-- The type with a given code on the wire. -/
def ofCode (code : UInt8) : NameType := if code = 0 then hostName else unknown code

/-- The code of a type on the wire. -/
def code : NameType → UInt8
  | hostName => 0
  | unknown code => code

/-- Host names by name, other types by code. -/
def outline : NameType → Outline
  | hostName => .atom "HostName"
  | unknown code => .applied "Unknown" (.number code.toNat)

/-- The code of a type read from the wire is the one that was read. -/
@[simp] theorem code_ofCode (c : UInt8) : (ofCode c).code = c := by
  by_cases h : c = 0 <;> simp [ofCode, code, h]

end NameType

namespace Entry

/-- The octets of the type and of the length of the name. -/
def headerSize : Nat := 3

/-- The entry for a host name. -/
def ofHostOctets (name : Bytes) : Except Error Entry :=
  match HostName.read name with
  | .error defect => .error (.hostName defect)
  | .ok text => .ok (host text)

/-- The entry for a host name that is given as a text. -/
def ofHostName (name : String) : Except Error Entry := ofHostOctets (Wire.utf8 name)

/-- The entry for a name of another type. -/
def ofOther (code : UInt8) (name : Bytes) : Except Error Entry :=
  if code = 0 then .error .reservedType
  else if name.length = 0 ∨ Wire.maxUint16 - headerSize < name.length then .error .nameLength
  else .ok (other code name)

/-- The entry for a type and a name from the wire. -/
def ofWire (code : UInt8) (name : Bytes) : Except Error Entry :=
  if code = 0 then ofHostOctets name else ofOther code name

def type : Entry → NameType
  | host _ => .hostName
  | other code _ => .unknown code

/-- The name of an entry as octets. -/
def octets : Entry → Bytes
  | host name => Wire.utf8 name
  | other _ name => name

def hostName? : Entry → Option String
  | host name => some name
  | other _ _ => none

/-- The number of octets that an entry takes on the wire. -/
def size (entry : Entry) : Nat := headerSize + entry.octets.length

/-- An entry on the wire: its type, then its name as a vector. -/
def encode (entry : Entry) : Bytes := entry.type.code :: Wire.vector16 entry.octets

/-- The type, and the name in octets. -/
def outline (entry : Entry) : Outline :=
  .record "ServerName" [("name_type", entry.type.outline), ("name", .octets entry.octets)] true

@[simp] theorem length_encode (entry : Entry) : entry.encode.length = entry.size := by
  simp only [encode, size, headerSize, List.length_cons, Wire.length_vector16]; omega

end Entry

end PskHandshake.Sni
