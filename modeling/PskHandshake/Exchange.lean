/-
The client's side of a key exchange.

The credential of the session is found, its identity becomes the message to the peer, and its key
goes into the premaster secret.  Whatever fails ends the handshake with an alert: one for a missing
credential, whatever is missing, and one for a credential that cannot be used.

The message is the identity field, a text as a vector of UTF-8 octets.  The premaster secret is two
vectors, of which the second is the key.  The first is what the two sides agreed on besides the key;
in a plain exchange that is nothing, and zeros stand for it, as many as the key has octets.
-/
import PskHandshake.Config
import PskHandshake.Resolution

namespace PskHandshake

/-- The released version: major, minor and patch level. -/
def version : String := "0.1.0"

/-! ### The identity field -/

namespace IdentityField

/-- Why an identity cannot be sent. -/
inductive EncodeError
  /-- It is longer than the limit, or than a vector can be. -/
  | tooLong (length limit : Nat)
deriving DecidableEq, Repr

/-- Why octets are no identity field. -/
inductive DecodeError
  /-- They end inside the length. -/
  | tooShort
  /-- The length is not the number of octets that follow. -/
  | lengthMismatch
  /-- The identity is longer than the limit. -/
  | tooLong (length limit : Nat)
  /-- The identity is not in UTF-8. -/
  | notUtf8
deriving DecidableEq, Repr

/-- How both directions report an identity over the limit. -/
def limitDetail (length limit : Nat) : String :=
  "PSK identity of " ++ toString length ++ " bytes exceeds limit of " ++ toString limit

/-- An identity that cannot be sent does not fit the configuration. -/
def EncodeError.toFault : EncodeError → Fault
  | tooLong length limit => ⟨.invalidConfig, limitDetail length limit⟩

/-- The text for the reader. -/
def DecodeError.detail : DecodeError → String
  | tooShort => "PSK identity too short"
  | lengthMismatch => "PSK identity length mismatch"
  | tooLong length limit => limitDetail length limit
  | notUtf8 => "Invalid UTF-8 in PSK identity"

/-- A field that cannot be read is an invalid message. -/
def DecodeError.toFault (error : DecodeError) : Fault := ⟨.invalidMessage, error.detail⟩

/-- The field for an identity. -/
def encode (identity : String) (limit : Nat) : Except EncodeError Bytes :=
  let length := identity.utf8ByteSize
  if limit < length ∨ Wire.maxUint16 < length then .error (.tooLong length limit)
  else .ok (Wire.vector16 (Wire.utf8 identity))

/-- The identity that a field holds. -/
def decode (field : Bytes) (limit : Nat) : Except DecodeError String :=
  match field with
  | high :: low :: bytes =>
    let length := Wire.uint16Value high low
    if bytes.length ≠ length then .error .lengthMismatch
    else if limit < length then .error (.tooLong length limit)
    else
      match Wire.ofUtf8? bytes with
      | some identity => .ok identity
      | none => .error .notUtf8
  | _ => .error .tooShort

end IdentityField

/-! ### The premaster secret -/

namespace Premaster

/-- What goes into a premaster secret besides the key. -/
inductive Other
  /-- Nothing: zeros stand for it. -/
  | zeros
  /-- A secret that was agreed on during the handshake. -/
  | agreed (secret : Bytes)
deriving DecidableEq, Repr

/-- Why there is no premaster secret. -/
inductive Error
  /-- The key does not fit in a vector. -/
  | keyTooLong
  /-- The agreed secret does not fit in a vector. -/
  | agreedTooLong
deriving DecidableEq, Repr

/-- The text for the reader. -/
def Error.detail : Error → String
  | keyTooLong => "PSK longer than 65535 bytes"
  | agreedTooLong => "ECDH shared secret longer than 65535 bytes"

/-- Secrets of such lengths are an internal error. -/
def Error.toFault (error : Error) : Fault := ⟨.internalError, error.detail⟩

/-- The octets that stand beside a key. -/
def Other.beside (key : SecretKey) : Other → Bytes
  | zeros => List.replicate key.length 0
  | agreed secret => secret

/-- Zeros by name, an agreed secret by its length. -/
def Other.outline : Other → Outline
  | zeros => .atom "Zeros"
  | agreed secret => .applied "Ecdhe" (.atom (toString secret.length ++ " bytes"))

/-- The premaster secret of a key and what goes beside it; the key is checked first. -/
def compute (key : SecretKey) (other : Other) : Except Error Bytes :=
  if Wire.maxUint16 < key.length then .error .keyTooLong
  else if Wire.maxUint16 < (other.beside key).length then .error .agreedTooLong
  else .ok (Wire.vector16 (other.beside key) ++ Wire.vector16 key.bytes)

end Premaster

/-! ### The exchange -/

/-- Why a handshake ends early. -/
inductive Abort
  /-- The session has no credential. -/
  | unresolved (failure : Unresolved)
  /-- Its credential cannot be used. -/
  | unusable (fault : Fault)
deriving DecidableEq, Repr

/-- A successful key exchange. -/
structure Exchange where
  principal : Principal
  /-- The message to the peer: the identity field. -/
  message : Bytes
  premaster : Bytes
deriving DecidableEq, Repr

namespace Abort

/-- What the peer is told. -/
def alert : Abort → Alert
  | unresolved failure => failure.alert
  | unusable _ => .internalError

/-- The text for the reader. -/
def text : Abort → String
  | unresolved failure => failure.diagnostic
  | unusable fault => fault.message

/-- The cause of the abort. -/
def outline : Abort → Outline
  | unresolved failure => .applied "Resolution" failure.outline
  | unusable fault => .applied "Local" fault.outline

end Abort

namespace Exchange

/-- The principal and the message to the peer, with the premaster secret withheld. -/
def outline (exchange : Exchange) : Outline :=
  .record "PskKeyExchange"
    [("principal", exchange.principal.outline),
      ("client_key_exchange", .octets exchange.message)] false

/-- The exchange that a credential allows under a limit on identities. -/
def ofCredential (limit : Nat) (other : Premaster.Other) (credential : Credential) :
    Except Fault Exchange := do
  let message ←
    (IdentityField.encode credential.principal.identity limit).mapError (·.toFault)
  let premaster ← (Premaster.compute credential.key other).mapError (·.toFault)
  return ⟨credential.principal, message, premaster⟩

end Exchange

namespace Session

/-- Logged when an exchange succeeds. -/
def resolvedEvent (session : Session) (exchange : Exchange) : Event where
  level := .debug
  message := "Resolved PSK credentials"
  fields := [("peer", session.peer.text), ("principal", exchange.principal.name)]

/-- Logged when a handshake ends early. -/
def abortEvent (session : Session) (abort : Abort) : Event where
  level := .debug
  message := "Aborting PSK handshake: " ++ abort.text
  fields := [("peer", session.peer.text), ("alert", abort.alert.description.name)]

/-- Exchanges keys with the peer of a session, and logs how that ended. -/
def exchangeKeys (config : ClientConfig) (other : Premaster.Other) (session : Session) :
    Attempt Abort Exchange := do
  try
    let credential ← (session.findCredential config.sni).mapError Abort.unresolved
    match Exchange.ofCredential config.base.maxIdentityLength other credential with
    | .error fault => throw (.unusable fault)
    | .ok exchange =>
      Attempt.emit (session.resolvedEvent exchange)
      return exchange
  catch abort =>
    Attempt.emit (session.abortEvent abort)
    throw abort

end Session

end PskHandshake
