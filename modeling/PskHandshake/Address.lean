/-
IP addresses, and the endpoints that are reached at them.

Addresses are put together from numerals: IPv4 addresses in dotted form, IPv6 addresses in colon
form.  A text in colon form has eight groups, or fewer with one gap `::` that stands for at least
one zero group; its last two groups may be written as an IPv4 address.  Of the many texts of an
address, `Ipv6.render` gives the one with lower-case digits, no leading zeros, and the gap at the
longest run of zeros.  An endpoint is an address with a `PortNumber`.
-/
import PskHandshake.Outline

namespace PskHandshake

/-! ### Numerals

Unsigned numbers in a base of at most 16.  Letters of either case stand for the digits from ten on,
and leading zeros are allowed; a reader that wants less says so itself. -/

namespace Numeral

/-- The value of a digit in base 16. -/
def hexDigit? (c : Char) : Option Nat :=
  if '0' ≤ c ∧ c ≤ '9' then some (c.toNat - '0'.toNat)
  else if 'a' ≤ c ∧ c ≤ 'f' then some (c.toNat - 'a'.toNat + 10)
  else if 'A' ≤ c ∧ c ≤ 'F' then some (c.toNat - 'A'.toNat + 10)
  else none

/-- The value of a digit in the given base. -/
def digit? (base : Nat) (c : Char) : Option Nat := (hexDigit? c).filter (· < base)

/-- The number that stands before some digits, continued by them. -/
def extend? (base : Nat) (n : Nat) : List Char → Option Nat
  | [] => some n
  | c :: digits => (digit? base c).bind fun d => extend? base (base * n + d) digits

/-- The number that one or more digits stand for, if it is at most `limit`. -/
def read? (base limit : Nat) : List Char → Option Nat
  | [] => none
  | digits => (extend? base 0 digits).filter (· ≤ limit)

end Numeral

/-! ### IPv4 addresses -/

/-- An IPv4 address: four octets. -/
structure Ipv4 where
  a : UInt8
  b : UInt8
  c : UInt8
  d : UInt8
deriving DecidableEq, Hashable, Repr

namespace Ipv4

/-- An octet in decimal: one to three digits without a leading zero, for at most 255. -/
def octet? (digits : List Char) : Option UInt8 :=
  if digits.length ≤ 3 ∧ (digits.head? = some '0' → digits.length = 1) then
    (Numeral.read? 10 255 digits).map UInt8.ofNat
  else
    none

/-- The address that a text in dotted form stands for. -/
def parse? (text : List Char) : Option Ipv4 :=
  match text.splitOn '.' with
  | [a, b, c, d] => do return ⟨← octet? a, ← octet? b, ← octet? c, ← octet? d⟩
  | _ => none

/-- The dotted form: the octets in decimal, with dots between them. -/
def render (address : Ipv4) : List Char :=
  ['.'].intercalate
    ([address.a, address.b, address.c, address.d].map fun octet => Nat.toDigits 10 octet.toNat)

end Ipv4

/-! ### IPv6 addresses -/

/-- An IPv6 address: eight groups of sixteen bits. -/
structure Ipv6 where
  groups : List UInt16
  length_groups : groups.length = 8
deriving DecidableEq, Hashable, Repr

/-- The two groups that an IPv4 address fills. -/
def Ipv4.groups (address : Ipv4) : List UInt16 :=
  [address.a.toUInt16 * 256 + address.b.toUInt16, address.c.toUInt16 * 256 + address.d.toUInt16]

namespace Ipv6

/-- A group: one to four hexadecimal digits of either case. -/
def group? (digits : List Char) : Option UInt16 :=
  if digits.length ≤ 4 then (Numeral.read? 16 65535 digits).map UInt16.ofNat else none

/-- The pieces of a text between its colons; an empty text has none. -/
def pieces (text : List Char) : List (List Char) :=
  if text = [] then [] else text.splitOn ':'

/-- The groups of all pieces. -/
def plainGroups? (pieces : List (List Char)) : Option (List UInt16) := pieces.mapM group?

/-- The groups of all pieces, of which the last may be an IPv4 address for two groups. -/
def closingGroups? : List (List Char) → Option (List UInt16)
  | [] => some []
  | [last] => (group? last).map ([·]) <|> (Ipv4.parse? last).map Ipv4.groups
  | piece :: pieces => do return (← group? piece) :: (← closingGroups? pieces)

/-- The texts before and after the first gap, if there is a gap. -/
def splitGap? : List Char → Option (List Char × List Char)
  | ':' :: ':' :: rest => some ([], rest)
  | c :: rest => (splitGap? rest).map fun (before, after) => (c :: before, after)
  | [] => none

/-- The address that a text in colon form stands for. -/
def parse? (text : List Char) : Option Ipv6 :=
  match splitGap? text with
  | none => do
    let groups ← closingGroups? (pieces text)
    if h : groups.length = 8 then some ⟨groups, h⟩ else none
  | some (before, after) => do
    let left ← plainGroups? (pieces before)
    let right ← closingGroups? (pieces after)
    if h : left.length + right.length < 8 then
      some ⟨left ++ List.replicate (8 - left.length - right.length) 0 ++ right, by simp; omega⟩
    else
      none

/-- The IPv4 address inside an IPv4-mapped one. -/
def mapped? (address : Ipv6) : Option Ipv4 :=
  match address.groups with
  | [0, 0, 0, 0, 0, 0xffff, high, low] =>
    some ⟨(high / 256).toUInt8, high.toUInt8, (low / 256).toUInt8, low.toUInt8⟩
  | _ => none

/-- The number of zero groups from a position on. -/
def zerosFrom (groups : List UInt16) (start : Nat) : Nat :=
  ((groups.drop start).takeWhile (· == 0)).length

/-- Where the longest run of zero groups starts; of several, the first. -/
def longestZeros (groups : List UInt16) : Nat :=
  (List.range groups.length).foldl
    (fun best start => if zerosFrom groups best < zerosFrom groups start then start else best) 0

/-- Groups in hexadecimal, with colons between them. -/
def renderGroups (groups : List UInt16) : List Char :=
  [':'].intercalate (groups.map fun group => Nat.toDigits 16 group.toNat)

/-- The colon form.  A run of two or more zero groups becomes the gap, and an IPv4-mapped address
shows the IPv4 address. -/
def render (address : Ipv6) : List Char :=
  match address.mapped? with
  | some inner => "::ffff:".toList ++ inner.render
  | none =>
    let start := longestZeros address.groups
    let zeros := zerosFrom address.groups start
    if 2 ≤ zeros then
      renderGroups (address.groups.take start) ++ "::".toList
        ++ renderGroups (address.groups.drop (start + zeros))
    else
      renderGroups address.groups

end Ipv6

/-! ### Endpoints -/

/-- The number of a service at an address. -/
abbrev PortNumber := UInt16

/-- Where a peer is reached.  The scope of an IPv6 endpoint is zero if the text names none. -/
inductive Endpoint
  | ipv4 (address : Ipv4) (service : PortNumber)
  | ipv6 (address : Ipv6) (service : PortNumber) (scope : UInt32)
deriving DecidableEq, Hashable, Repr

namespace Endpoint

/-- A `PortNumber` in decimal. -/
def service? (digits : List Char) : Option PortNumber :=
  (Numeral.read? 10 65535 digits).map UInt16.ofNat

/-- A scope in decimal. -/
def scope? (digits : List Char) : Option UInt32 :=
  (Numeral.read? 10 4294967295 digits).map UInt32.ofNat

/-- What stands between the brackets of an IPv6 endpoint: an address, and maybe a scope after a
percent sign. -/
def scoped? (text : List Char) : Option (Ipv6 × UInt32) :=
  match text.span (· != '%') with
  | (address, []) => do return (← Ipv6.parse? address, 0)
  | (address, _ :: scope) => do return (← Ipv6.parse? address, ← scope? scope)

/-- The endpoint that a list of characters stands for: an address and a `PortNumber`, with a colon
between them and brackets around an IPv6 address. -/
def ofChars? : List Char → Option Endpoint
  | '[' :: text =>
    match text.span (· != ']') with
    | (inner, ']' :: ':' :: digits) => do
      let (address, scope) ← scoped? inner
      return .ipv6 address (← service? digits) scope
    | _ => none
  | text =>
    match text.span (· != ':') with
    | (address, ':' :: digits) => do return .ipv4 (← Ipv4.parse? address) (← service? digits)
    | _ => none

/-- The endpoint that a text stands for. -/
def parse? (text : String) : Option Endpoint := ofChars? text.toList

/-- The characters of an endpoint; a scope is shown unless it is zero. -/
def chars : Endpoint → List Char
  | ipv4 address service => address.render ++ ':' :: Nat.toDigits 10 service.toNat
  | ipv6 address service scope =>
    '[' :: address.render
      ++ (if scope = 0 then [] else '%' :: Nat.toDigits 10 scope.toNat)
      ++ ']' :: ':' :: Nat.toDigits 10 service.toNat

/-- The text of an endpoint. -/
def text (endpoint : Endpoint) : String := String.ofList endpoint.chars

/-- An endpoint is shown as its text. -/
def outline (endpoint : Endpoint) : Outline := .atom endpoint.text

end Endpoint

end PskHandshake
