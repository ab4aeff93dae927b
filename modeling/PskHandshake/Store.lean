/-
Sessions, and the stores in which their credentials are looked up.

A session is what a handshake knows about its peer.  A store is divided into realms, one of its own
and one for each virtual host.  That a store does not know a peer or an identity is an ordinary
answer.  The simplest store has one credential, for every peer and in every realm.
-/
import PskHandshake.Address
import PskHandshake.Credential
import PskHandshake.Sni.NameList

namespace PskHandshake

/-! ### Sessions -/

/-- The session of one handshake: where the peer is, which server names were requested, and whether
the peer supports server names; it is taken to until its hello says otherwise. -/
structure Session where
  peer : Endpoint
  serverNames : Option Sni.NameList := none
  sniSupported : Bool := true
deriving DecidableEq, Repr

namespace Session

/-- The host name of the requested virtual host. -/
def virtualHost (session : Session) : Option String :=
  session.serverNames.bind Sni.NameList.hostName?

/-- Requests a single virtual host, in place of all server names requested before. -/
def requesting (session : Session) (host : String) : Except Sni.Error Session :=
  (Sni.NameList.ofHostName host).map fun names => { session with serverNames := some names }

end Session

/-! ### Realms and lookups -/

/-- The part of a store in which a lookup is made. -/
inductive Realm
  /-- The part that belongs to no virtual host. -/
  | default
  /-- The part of the virtual host that some server names request. -/
  | virtualHost (names : Sni.NameList)
deriving DecidableEq, Repr

/-- The scope of what is found in a realm. -/
def Realm.scope : Realm → Scope
  | default => .hostAgnostic
  | virtualHost names => .hostScoped names.hostName?

/-- The realm of a session: with server names in use, that of the requested virtual host. -/
def Session.realm (sni : Bool) (session : Session) : Realm :=
  match sni, session.serverNames with
  | true, some names => .virtualHost names
  | _, _ => .default

/-- A store, as a handshake sees it. -/
structure CredentialStore where
  /-- The identity to use towards a peer. -/
  identity : Realm → Endpoint → Option String
  /-- The key of an identity. -/
  key : Realm → String → Option SecretKey

/-- A lookup in a store, in a realm that `ρ` describes. -/
inductive Lookup (ρ : Type)
  | identity (realm : ρ) (peer : Endpoint)
  | key (realm : ρ) (identity : String)
deriving DecidableEq, Repr

/-- The same lookup, with its realm described differently. -/
def Lookup.map {ρ σ : Type} (f : ρ → σ) : Lookup ρ → Lookup σ
  | identity realm peer => identity (f realm) peer
  | key realm id => key (f realm) id

/-! ### A store with a single credential -/

/-- An identity and its key. -/
structure FixedStore where
  identity : String
  key : SecretKey

namespace FixedStore

/-- Every peer has the identity, and only the identity has the key. -/
def toCredentialStore (store : FixedStore) : CredentialStore where
  identity _ _ := some store.identity
  key _ identity := if identity = store.identity then some store.key else none

/-- The identity, with the key withheld. -/
def outline (store : FixedStore) : Outline :=
  .record "StaticPskStore" [("identity", .quoted store.identity)] false

end FixedStore

end PskHandshake
