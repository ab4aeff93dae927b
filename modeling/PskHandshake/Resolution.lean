/-
Resolution: which identity and key a session uses.

With server names in use and present, both come from the realm of the requested virtual host, and
otherwise both from the default realm.  One realm is never tried after the other, and a key is only
looked up for an identity that the store gave.  A failure tells the peer nothing about the lookup
that was empty: every one has the same alert.
-/
import PskHandshake.Alert
import PskHandshake.Attempt
import PskHandshake.Fault

namespace PskHandshake

/-- The lookup that came back empty. -/
inductive Unresolved.Missing
  /-- The store has no identity for the peer. -/
  | identity
  /-- The store has no key for an identity that it gave. -/
  | key (identity : String)
deriving DecidableEq, Repr

/-- Why a session has no credential. -/
structure Unresolved where
  peer : Endpoint
  /-- The scope of the realm that was searched. -/
  scope : Scope
  missing : Unresolved.Missing
deriving DecidableEq, Repr

namespace Unresolved

/-- The name of the lookup that came back empty. -/
def Missing.name : Missing → String
  | identity => "Identity"
  | key _ => "Key"

/-- The identity without a key. -/
def Missing.identity? : Missing → Option String
  | identity => none
  | key id => some id

/-- The virtual host as a diagnostic shows it. -/
def hostText (host : Option String) : String := host.getD "none"

/-- What the local log says; a peer never sees it. -/
def diagnostic (failure : Unresolved) : String :=
  match failure.missing, failure.scope with
  | .identity, .hostScoped host =>
    "No Identity found for peer [address: " ++ failure.peer.text
      ++ ", virtual host: " ++ hostText host ++ "]"
  | .identity, .hostAgnostic =>
    "No Identity found for peer [address: " ++ failure.peer.text ++ "]"
  | .key identity, .hostScoped host =>
    "No pre-shared key found for [virtual host: " ++ hostText host
      ++ ", identity: " ++ identity ++ "]"
  | .key identity, .hostAgnostic =>
    "No pre-shared key found for [identity: " ++ identity ++ "]"

/-- What the peer is told. -/
def alert (_ : Unresolved) : Alert := .handshakeFailure

/-- A session without a credential is a failed handshake. -/
def toFault (failure : Unresolved) : Fault := ⟨.handshakeFailure, failure.diagnostic⟩

/-- Every part of the failure. -/
def outline (failure : Unresolved) : Outline :=
  .record "ResolutionFailure"
    [("step", .atom failure.missing.name),
      ("peer", failure.peer.outline),
      ("host_scoped", .truth failure.scope.isHostScoped),
      ("virtual_host", .optional (failure.scope.virtualHost?.map .quoted)),
      ("identity", .optional (failure.missing.identity?.map .quoted))] true

end Unresolved

namespace Session

/-- Whether a virtual host is searched for on a peer that does not support server names. -/
def lacksSupport (sni : Bool) (session : Session) : Bool :=
  (session.realm sni).scope.isHostScoped && !session.sniSupported

/-- Logged when the peer lacks the support for the search; the search goes on all the same. -/
def unsupportedEvent (session : Session) : Event where
  level := .warn
  message := "client is configured to use SNI but server does not support it, "
    ++ "PSK authentication is likely to fail"
  fields := [("peer", session.peer.text)]

/-- Logged when a search starts, with the host where one matters. -/
def searchEvent (session : Session) : Scope → Event
  | .hostAgnostic =>
    { level := .trace
      message := "Resolving PSK identity"
      fields := [("peer", session.peer.text)] }
  | .hostScoped host =>
    { level := .trace
      message := "Resolving host-scoped PSK identity"
      fields :=
        [("peer", session.peer.text),
          ("virtual_host", (Outline.optional (host.map .quoted)).render)] }

/-- The scope of the principal of a session: with server names in use it is a virtual host's, and
of none when none was requested. -/
def principalScope (sni : Bool) (session : Session) : Scope :=
  if sni then .hostScoped (session.realm sni).scope.virtualHost? else .hostAgnostic

/-- Finds the credential of a session, with server names in use or not. -/
def findCredential (sni : Bool) (session : Session) : Attempt Unresolved Credential := do
  let realm := session.realm sni
  if session.lacksSupport sni then
    Attempt.emit session.unsupportedEvent
  Attempt.emit (session.searchEvent realm.scope)
  let some identity ← Attempt.askIdentity realm session.peer
    | throw ⟨session.peer, realm.scope, .identity⟩
  let some key ← Attempt.askKey realm identity
    | throw ⟨session.peer, realm.scope, .key identity⟩
  return ⟨⟨session.principalScope sni, identity⟩, key⟩

end Session

end PskHandshake
