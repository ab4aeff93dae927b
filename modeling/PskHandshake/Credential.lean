/-
Credentials: as whom a session is authenticated, and with which key.

A principal is an identity within its scope, and its name puts the virtual host of the scope in
front of the identity.  A key shows how long it is and nothing else.
-/
import PskHandshake.Outline
import PskHandshake.Wire

namespace PskHandshake

/-! ### Principals -/

/-- How far an identity reaches. -/
inductive Scope
  /-- Virtual hosts play no part. -/
  | hostAgnostic
  /-- One virtual host, or `none` where virtual hosts matter but none was named. -/
  | hostScoped (host : Option String)
deriving DecidableEq, Repr

/-- An identity within its scope. -/
structure Principal where
  scope : Scope
  identity : String
deriving DecidableEq, Repr

namespace Scope

/-- The virtual host of a scope, if it has one. -/
def virtualHost? : Scope → Option String
  | hostAgnostic => none
  | hostScoped host => host

/-- Whether virtual hosts matter in a scope. -/
def isHostScoped : Scope → Bool
  | hostAgnostic => false
  | hostScoped _ => true

end Scope

namespace Principal

/-- The name of a principal: the identity, and in a scope of virtual hosts the host in front of it,
set off by a colon. -/
def name (principal : Principal) : String :=
  match principal.scope with
  | .hostAgnostic => principal.identity
  | .hostScoped host => host.getD "" ++ ":" ++ principal.identity

/-- The text of a principal for the reader. -/
def display (principal : Principal) : String :=
  "PreSharedKey Identity [" ++ principal.name ++ "]"

/-- The identity, after the virtual host where one matters. -/
def outline (principal : Principal) : Outline :=
  match principal.scope with
  | .hostAgnostic => .record "HostAgnostic" [("identity", .quoted principal.identity)] true
  | .hostScoped host =>
    .record "HostScoped"
      [("virtual_host", .optional (host.map .quoted)), ("identity", .quoted principal.identity)]
      true

end Principal

/-! ### Keys -/

/-- A key that both sides of a handshake hold before it starts. -/
structure SecretKey where
  bytes : Bytes
deriving DecidableEq, Repr

namespace SecretKey

/-- The number of octets of a key. -/
def length (key : SecretKey) : Nat := key.bytes.length

/-- The length of a key, with its octets withheld. -/
def outline (key : SecretKey) : Outline :=
  .record "PreSharedKey" [("len", .number key.length)] false

end SecretKey

/-! ### Principals with their keys -/

/-- What a session uses: a principal, and the key of its identity. -/
structure Credential where
  principal : Principal
  key : SecretKey
deriving DecidableEq, Repr

namespace Credential

/-- The principal, and the key as far as it shows itself. -/
def outline (credential : Credential) : Outline :=
  .record "ResolvedCredential"
    [("identity", credential.principal.outline), ("key", credential.key.outline)] true

end Credential

end PskHandshake
