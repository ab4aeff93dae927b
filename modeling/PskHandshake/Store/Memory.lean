/-
A store in memory, with a realm for each virtual host.

Its contents are what a history of mutations leaves behind (`MemoryStore.ofHistory`).  The host of a
mutation is any text and its letter case does not matter; server names hold host names in lower
case, so a lookup takes them as they are.
-/
import PskHandshake.Store
import Std.Data.HashMap

namespace PskHandshake

/-- A change to the contents of a store.  The host is `none` in the realm of no virtual host. -/
inductive Mutation
  /-- Gives an identity a key. -/
  | setKey (host : Option String) (identity : String) (key : SecretKey)
  /-- Takes the key of an identity away. -/
  | removeKey (host : Option String) (identity : String)
  /-- Makes an identity the one to use towards a peer. -/
  | addPeer (host : Option String) (peer : Endpoint) (identity : String)
deriving DecidableEq, Repr

/-- The keys of identities and the identities for peers, each with the host of its realm in lower
case. -/
structure MemoryStore where
  keys : Std.HashMap (Option String × String) SecretKey := ∅
  peers : Std.HashMap (Option String × Endpoint) String := ∅

namespace MemoryStore

/-- The host of a realm, as the tables hold it. -/
def fold (host : Option String) : Option String := host.map String.toLower

/-- Gives an identity a key. -/
def setKey (store : MemoryStore) (host : Option String) (identity : String) (key : SecretKey) :
    MemoryStore :=
  { store with keys := store.keys.insert (fold host, identity) key }

/-- Takes the key of an identity away, and says whether there was one. -/
def removeKey (store : MemoryStore) (host : Option String) (identity : String) :
    Bool × MemoryStore :=
  let row := (fold host, identity)
  (store.keys.contains row, { store with keys := store.keys.erase row })

/-- Makes an identity the one to use towards a peer. -/
def addPeer (store : MemoryStore) (host : Option String) (peer : Endpoint) (identity : String) :
    MemoryStore :=
  { store with peers := store.peers.insert (fold host, peer) identity }

/-- Makes one change; what a removal says is not kept. -/
def apply (store : MemoryStore) : Mutation → MemoryStore
  | .setKey host identity key => store.setKey host identity key
  | .removeKey host identity => (store.removeKey host identity).2
  | .addPeer host peer identity => store.addPeer host peer identity

/-- The store after a history of changes to an empty one. -/
def ofHistory (history : List Mutation) : MemoryStore := history.foldl apply {}

/-- The host of a realm; server names without a host name have none to look in. -/
def hostOf? : Realm → Option (Option String)
  | .default => some none
  | .virtualHost names => names.hostName?.map some

/-- Lookups in the tables. -/
def toCredentialStore (store : MemoryStore) : CredentialStore where
  identity realm peer := (hostOf? realm).bind fun host => store.peers[(host, peer)]?
  key realm identity := (hostOf? realm).bind fun host => store.keys[(host, identity)]?

/-- How many keys and how many known peers there are, over all realms. -/
def outline (store : MemoryStore) : Outline :=
  .record "InMemoryPskStore"
    [("keys", .number store.keys.size), ("known_peers", .number store.peers.size)] true

end MemoryStore

end PskHandshake
