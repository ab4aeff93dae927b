/-
Both sides of an exchange derive the same secret.

The peer of a client knows the message, and the virtual host that the client's principal names.  It
looks the identity in the message up in the realm of that host, or in the default realm if there is
none.  This is the realm that the client searched: the host name of server names makes, by itself,
server names with this host name, and server names without one find nothing in a store in memory.

* `MemoryStore.key_of_virtualHost?`, `MemoryStore.key_default_of_virtualHost?_eq_none` — where the
  peer finds the key;
* `MemoryStore.peer_derives_premaster` — the peer reads the identity and derives the premaster
  secret.
-/
import PskHandshake.Proofs.Exchange.IdentityField
import PskHandshake.Proofs.Exchange.Run
import PskHandshake.Proofs.Sni.Run
import PskHandshake.Proofs.Store.History

namespace PskHandshake

namespace MemoryStore

section Peer

variable {store : MemoryStore} {session : Session} {sni : Bool} {credential : Credential}

/-- The virtual host of a credential is a host name, and the key is found under this name alone. -/
theorem key_of_virtualHost? {host : String}
    (hnames : ∀ names ∈ session.serverNames, names.Reachable)
    (hcredential : session.resolution sni store.toCredentialStore = .ok credential)
    (hhost : credential.principal.scope.virtualHost? = some host) :
    ∃ names, Sni.NameList.ofHostName host = .ok names ∧
      store.toCredentialStore.key (.virtualHost names) credential.principal.identity =
        some credential.key := by
  obtain ⟨hscope, -, hkey⟩ := Session.resolution_eq_ok_iff.mp hcredential
  rw [hscope] at hhost
  obtain ⟨-, hnone⟩ | ⟨names, hsome, hrealm, hname⟩ := Session.realm_of_principalScope hhost
  · cases hnone
  have hcanonical : Sni.HostName.Canonical host :=
    (hnames names hsome).wellFormed.canonical_of_hostName? hname
  refine ⟨_, Sni.NameList.ofHostName_of_canonical hcanonical, ?_⟩
  have hsame : names.hostName? = Sni.NameList.hostName? ⟨[.host host]⟩ := hname
  rw [← key_virtualHost_congr hsame, ← hrealm]
  exact hkey

/-- Without a virtual host, the key of a credential is found in the default realm. -/
theorem key_default_of_virtualHost?_eq_none
    (hcredential : session.resolution sni store.toCredentialStore = .ok credential)
    (hnone : credential.principal.scope.virtualHost? = none) :
    store.toCredentialStore.key .default credential.principal.identity = some credential.key := by
  obtain ⟨hscope, hidentity, hkey⟩ := Session.resolution_eq_ok_iff.mp hcredential
  rw [hscope] at hnone
  obtain ⟨hrealm, -⟩ | ⟨names, -, hrealm, hname⟩ := Session.realm_of_principalScope hnone
  · rw [← hrealm]
    exact hkey
  · -- an identity was found, so the names that were searched have a host name
    rw [hrealm] at hidentity
    obtain ⟨host, hhost, -⟩ := identity_eq_some_iff.mp hidentity
    obtain ⟨name, hname', -⟩ := hostOf?_virtualHost_eq_some_iff.mp hhost
    rw [hname] at hname'
    cases hname'

end Peer

/-- **Both sides derive the same secret.**  After any history of a store in memory, and for any
session with server names that a run of operations made: if the exchange succeeds, its message reads
as the identity of its principal, and a peer with the same store that looks this identity up at the
virtual host of the principal, or in the default realm without one, finds a key whose premaster
secret is that of the exchange. -/
theorem peer_derives_premaster {history : List Mutation} {config : ClientConfig} {session : Session}
    {other : Premaster.Other} {exchange : Exchange}
    (hnames : ∀ names ∈ session.serverNames, names.Reachable)
    (hexchange : ((session.exchangeKeys config other).perform
      (ofHistory history).toCredentialStore).result = .ok exchange) :
    IdentityField.decode exchange.message config.base.maxIdentityLength =
        .ok exchange.principal.identity ∧
      match exchange.principal.scope.virtualHost? with
      | some host =>
        ∃ names, Sni.NameList.ofHostName host = .ok names ∧
          ∃ key, (ofHistory history).toCredentialStore.key (.virtualHost names)
              exchange.principal.identity = some key ∧
            Premaster.compute key other = .ok exchange.premaster
      | none =>
        ∃ key, (ofHistory history).toCredentialStore.key .default
            exchange.principal.identity = some key ∧
          Premaster.compute key other = .ok exchange.premaster := by
  generalize ofHistory history = store at hexchange ⊢
  rw [Session.perform_exchangeKeys] at hexchange
  obtain ⟨credential, hcredential, hmade⟩ := Session.exchange_eq_ok_iff.mp hexchange
  obtain ⟨hprincipal, hmessage, hpremaster⟩ := Exchange.ofCredential_eq_ok_iff.mp hmade
  rw [hprincipal]
  constructor
  · -- the field was written under the limit under which it is read
    exact IdentityField.decode_eq_ok_iff.mpr (IdentityField.encode_eq_ok_iff.mp hmessage)
  · split
    next host hhost =>
      obtain ⟨names, hhostName, hkey⟩ := key_of_virtualHost? hnames hcredential hhost
      exact ⟨names, hhostName, credential.key, hkey, hpremaster⟩
    next hnone =>
      have hkey := key_default_of_virtualHost?_eq_none hcredential hnone
      exact ⟨credential.key, hkey, hpremaster⟩

/-- The server names of the client have a name of another type beside the host name; the peer makes
its own from the host name alone. -/
theorem peer_derives_premaster_aExample :
    let history : List Mutation :=
      [.setKey (some "A.Example") "dev" ⟨[1, 2]⟩,
        .addPeer (some "a.example") (.ipv4 ⟨10, 0, 0, 1⟩ 5684) "dev"]
    let store := (ofHistory history).toCredentialStore
    let names : Sni.NameList := ⟨[.host "a.example", .other 7 [1]]⟩
    let session : Session := { peer := .ipv4 ⟨10, 0, 0, 1⟩ 5684, serverNames := some names }
    let exchange : Exchange :=
      ⟨⟨.hostScoped (some "a.example"), "dev"⟩, [0, 3, 100, 101, 118], [0, 2, 0, 0, 0, 2, 1, 2]⟩
    (∀ names ∈ session.serverNames, names.Reachable) ∧
      ((session.exchangeKeys { sni := true } .zeros).perform store).result = .ok exchange ∧
      IdentityField.decode exchange.message 128 = .ok "dev" ∧
      ∃ names, Sni.NameList.ofHostName "a.example" = .ok names ∧
        ∃ key, store.key (.virtualHost names) "dev" = some key ∧
          Premaster.compute key .zeros = .ok exchange.premaster := by
  intro history store names session exchange
  have hreachable : names.Reachable := ⟨.hostName "A.Example", [.other 7 [1]], by decide +kernel⟩
  have hnames : ∀ names ∈ session.serverNames, names.Reachable := by
    intro names' h
    rwa [← Option.some_inj.mp h]
  have hlower : "a.example".toLower = "a.example" ∧ "A.Example".toLower = "a.example" := by
    decide +kernel
  have hidentity : store.identity (.virtualHost names) session.peer = some "dev" := by
    refine identity_eq_some_iff.mpr ⟨some "a.example", rfl, ?_⟩
    simp [history, session, ofHistory, apply, setKey, addPeer, fold, hlower]
  have hkey : store.key (.virtualHost names) "dev" = some ⟨[1, 2]⟩ := by
    refine key_eq_some_iff.mpr ⟨some "a.example", rfl, ?_⟩
    simp [history, ofHistory, apply, setKey, addPeer, fold, hlower]
  have hcredential : session.resolution true store =
      .ok ⟨⟨.hostScoped (some "a.example"), "dev"⟩, ⟨[1, 2]⟩⟩ :=
    Session.resolution_eq_ok_iff.mpr ⟨rfl, hidentity, hkey⟩
  have hexchange :
      ((session.exchangeKeys { sni := true } .zeros).perform store).result = .ok exchange := by
    rw [Session.perform_exchangeKeys, Session.exchange, hcredential]
    decide +kernel
  have hpeer := peer_derives_premaster hnames hexchange
  exact ⟨hnames, hexchange, hpeer⟩

end MemoryStore

end PskHandshake
