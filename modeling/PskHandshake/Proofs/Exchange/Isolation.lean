/-
Realms are isolated from each other.

An exchange searches one realm, and it depends on its store through the answers in this realm only.
In a store in memory the answers come from the changes made within the realm; what else happened to
the store, and what else the server names of the session hold, makes no difference.

* `Mutation.within` — which changes are made within a realm;
* `MemoryStore.alikeIn_ofHistory_filter` — the answers in a realm come from these changes;
* `Session.exchange_congr` — an exchange goes by the answers in its realm;
* `MemoryStore.exchangeKeys_isolated` — an exchange is the same without the other changes, and with
  other server names that have the same host name.
-/
import PskHandshake.Proofs.Exchange.Run
import PskHandshake.Proofs.Sni.Run
import PskHandshake.Proofs.Store.History

namespace PskHandshake

/-- Whether a change is made within a realm: without a host in the default realm, and with the host
name of its server names, in any letter case, in the realm of a virtual host. -/
def Mutation.within (realm : Realm) (mutation : Mutation) : Bool :=
  match realm with
  | .default => mutation.host.isNone
  | .virtualHost names =>
    match names.hostName?, mutation.host with
    | some name, some host => host.toLower == name.toLower
    | _, _ => false

/-- One store answers the lookups in one realm as another store does those in another realm. -/
structure CredentialStore.AlikeIn (realm realm' : Realm) (store store' : CredentialStore) :
    Prop where
  identity : ∀ peer, store.identity realm peer = store'.identity realm' peer
  key : ∀ identity, store.key realm identity = store'.key realm' identity

namespace MemoryStore

variable {store store' : MemoryStore} {realm realm' : Realm} {host : Option String}

/-! ### Answers in a realm -/

theorem within_iff (hhost : hostOf? realm = some host)
    (hlower : ∀ name ∈ host, name.toLower = name) (mutation : Mutation) :
    mutation.within realm = true ↔ fold mutation.host = host := by
  cases realm with
  | default =>
    obtain rfl := Option.some_inj.mp hhost
    rw [fold, Option.map_eq_none_iff]
    exact Option.isNone_iff_eq_none
  | virtualHost names =>
    obtain ⟨name, hname, rfl⟩ := hostOf?_virtualHost_eq_some_iff.mp hhost
    have hname' : name.toLower = name := hlower name rfl
    rw [fold, Option.map_eq_some_iff]
    simp only [Mutation.within, hname]
    cases mutation.host with
    | none => simp
    | some given => simp [hname']

/-- Realms that are searched under one host have the answers that its rows give, and realms that are
searched under none have no answers. -/
theorem alikeIn_of_sameRows (hhost : hostOf? realm = hostOf? realm')
    (hrows : ∀ host, hostOf? realm = some host → SameRows host store store') :
    store.toCredentialStore.AlikeIn realm realm' store'.toCredentialStore := by
  refine ⟨fun peer => ?_, fun identity => ?_⟩
  · simp only [toCredentialStore, ← hhost]
    rcases hsearched : hostOf? realm with _ | host
    · rfl
    · exact (hrows host hsearched).peers peer
  · simp only [toCredentialStore, ← hhost]
    rcases hsearched : hostOf? realm with _ | host
    · rfl
    · exact (hrows host hsearched).keys identity

theorem alikeIn_ofHistory_filter (history : List Mutation)
    (hlower : ∀ name, hostOf? realm = some (some name) → name.toLower = name) :
    (ofHistory history).toCredentialStore.AlikeIn realm realm
      (ofHistory (history.filter (Mutation.within realm))).toCredentialStore := by
  refine alikeIn_of_sameRows rfl fun host hhost => ?_
  have hwithin := within_iff hhost fun name hname => hlower name (by rw [hhost, hname])
  exact sameRows_ofHistory_filter history hwithin

end MemoryStore

/-! ### Exchanges that search alike -/

namespace Session

variable {sni : Bool} {session session' : Session} {store store' : CredentialStore}

theorem lookups_congr {ρ : Type} {f : Realm → ρ} (hpeer : session.peer = session'.peer)
    (hrealm : f (session.realm sni) = f (session'.realm sni))
    (hstore : store.AlikeIn (session.realm sni) (session'.realm sni) store') :
    (session.lookups sni store).map (Lookup.map f) =
      (session'.lookups sni store').map (Lookup.map f) := by
  rw [lookups, lookups, ← hpeer, hstore.identity]
  cases store'.identity (session'.realm sni) session.peer with
  | none => simp [Lookup.map, hrealm]
  | some identity => simp [Lookup.map, hrealm]

theorem resolution_congr (hpeer : session.peer = session'.peer)
    (hscope : (session.realm sni).scope = (session'.realm sni).scope)
    (hstore : store.AlikeIn (session.realm sni) (session'.realm sni) store') :
    session.resolution sni store = session'.resolution sni store' := by
  simp only [resolution, principalScope, ← hpeer, hscope, hstore.identity, hstore.key]

theorem searchLog_congr (hpeer : session.peer = session'.peer)
    (hsupported : session.sniSupported = session'.sniSupported)
    (hscope : (session.realm sni).scope = (session'.realm sni).scope) :
    session.searchLog sni = session'.searchLog sni := by
  have hlacks : session.lacksSupport sni = session'.lacksSupport sni := by
    rw [lacksSupport, lacksSupport, hscope, hsupported]
  have hunsupported : session.unsupportedEvent = session'.unsupportedEvent := by
    rw [unsupportedEvent, unsupportedEvent, hpeer]
  have hsearch : session.searchEvent = session'.searchEvent := by
    funext scope
    cases scope with
    | hostAgnostic => rw [searchEvent, searchEvent, hpeer]
    | hostScoped host => rw [searchEvent, searchEvent, hpeer]
  rw [searchLog, searchLog, hlacks, hunsupported, hsearch, hscope]

theorem endEvent_congr (hpeer : session.peer = session'.peer) :
    session.endEvent = session'.endEvent := by
  funext result
  cases result with
  | error abort => rw [endEvent, endEvent, abortEvent, abortEvent, hpeer]
  | ok exchange => rw [endEvent, endEvent, resolvedEvent, resolvedEvent, hpeer]

theorem exchange_congr {config : ClientConfig} {other : Premaster.Other}
    (hpeer : session.peer = session'.peer)
    (hscope : (session.realm config.sni).scope = (session'.realm config.sni).scope)
    (hstore : store.AlikeIn (session.realm config.sni) (session'.realm config.sni) store') :
    session.exchange config other store = session'.exchange config other store' := by
  rw [exchange, exchange, resolution_congr hpeer hscope hstore]

/-- An exchange depends on its store through the answers in the realm of its session. -/
theorem perform_exchangeKeys_congr {config : ClientConfig} {other : Premaster.Other}
    (hstore : store.AlikeIn (session.realm config.sni) (session.realm config.sni) store') :
    (session.exchangeKeys config other).perform store =
      (session.exchangeKeys config other).perform store' := by
  have hlookups : session.lookups config.sni store = session.lookups config.sni store' := by
    rw [lookups, lookups, hstore.identity]
  have hexchange : session.exchange config other store = session.exchange config other store' :=
    exchange_congr rfl rfl hstore
  rw [perform_exchangeKeys, perform_exchangeKeys, hlookups, hexchange]

/-! ### The realm of a session -/

theorem toLower_of_hostOf?_realm {name : String}
    (hnames : ∀ names ∈ session.serverNames, names.Reachable)
    (hname : MemoryStore.hostOf? (session.realm sni) = some (some name)) : name.toLower = name := by
  obtain hplain | ⟨rfl, names, hsome⟩ := plain_or_serverNames sni session
  · rw [(realm_of_plain hplain).1] at hname
    cases hname
  · rw [(realm_of_serverNames hsome).1] at hname
    obtain ⟨host, hhost, hsame⟩ := MemoryStore.hostOf?_virtualHost_eq_some_iff.mp hname
    obtain rfl := Option.some_inj.mp hsame
    exact ((hnames names hsome).wellFormed.canonical_of_hostName? hhost).toLower_eq

/-- Of server names, the realm of a session takes the host name, if it takes anything. -/
theorem realm_congr {names names' : Sni.NameList} (hnames : session.serverNames = some names)
    (hnames' : session'.serverNames = some names') (hhost : names.hostName? = names'.hostName?) :
    (session.realm sni).scope = (session'.realm sni).scope ∧
      MemoryStore.hostOf? (session.realm sni) = MemoryStore.hostOf? (session'.realm sni) := by
  cases sni with
  | false => exact ⟨rfl, rfl⟩
  | true =>
    rw [(realm_of_serverNames hnames).1, (realm_of_serverNames hnames').1]
    simp only [Realm.scope, MemoryStore.hostOf?, hhost, and_self]

end Session

/-- **Realms are isolated.**  For a session with server names that a run of operations made: after
any history of a store in memory, an exchange has the same result, lookups and log as after the
changes of this history that were made within the realm of the session.  And with server names in
place of those of the session that have the same host name, it has the same result and log, and
makes the same lookups for this host name. -/
theorem MemoryStore.exchangeKeys_isolated {session : Session}
    (hnames : ∀ names ∈ session.serverNames, names.Reachable) (history : List Mutation)
    (config : ClientConfig) (other : Premaster.Other) :
    let store := (ofHistory history).toCredentialStore
    let within := history.filter (Mutation.within (session.realm config.sni))
    let outcome := (session.exchangeKeys config other).perform store
    outcome = (session.exchangeKeys config other).perform (ofHistory within).toCredentialStore ∧
      ∀ names names', session.serverNames = some names → names'.hostName? = names.hostName? →
        let session' := { session with serverNames := some names' }
        let outcome' := (session'.exchangeKeys config other).perform store
        outcome'.result = outcome.result ∧ outcome'.trace.log = outcome.trace.log ∧
          outcome'.trace.lookups.map (Lookup.map Realm.scope) =
            outcome.trace.lookups.map (Lookup.map Realm.scope) := by
  intro store within outcome
  refine ⟨?_, ?_⟩
  · apply Session.perform_exchangeKeys_congr
    apply alikeIn_ofHistory_filter
    intro name hname
    exact Session.toLower_of_hostOf?_realm hnames hname
  · intro names names' hsome hhost session' outcome'
    have hrealm : (session'.realm config.sni).scope = (session.realm config.sni).scope ∧
        hostOf? (session'.realm config.sni) = hostOf? (session.realm config.sni) :=
      Session.realm_congr rfl hsome hhost
    have hstore : store.AlikeIn (session'.realm config.sni) (session.realm config.sni) store :=
      alikeIn_of_sameRows hrealm.2 fun host _ => SameRows.refl host _
    have hexchange : session'.exchange config other store = session.exchange config other store :=
      Session.exchange_congr rfl hrealm.1 hstore
    have hsearch : session'.searchLog config.sni = session.searchLog config.sni :=
      Session.searchLog_congr rfl rfl hrealm.1
    have hend : session'.endEvent = session.endEvent := Session.endEvent_congr rfl
    have houtcome : outcome = _ := session.perform_exchangeKeys config other store
    have houtcome' : outcome' = _ := session'.perform_exchangeKeys config other store
    rw [houtcome, houtcome', hexchange, hsearch, hend]
    exact ⟨rfl, rfl, Session.lookups_congr rfl hrealm.1 hstore⟩

/-- Changes in the default realm and at another host, and the names of another type, are left
out. -/
theorem MemoryStore.exchangeKeys_isolated_aExample :
    let peer : Endpoint := .ipv4 ⟨10, 0, 0, 1⟩ 5684
    let setKey : Mutation := .setKey (some "A.Example") "dev" ⟨[1, 2]⟩
    let addPeer : Mutation := .addPeer (some "a.example") peer "dev"
    let history : List Mutation :=
      [.addPeer none peer "plain", setKey, .setKey none "dev" ⟨[9]⟩, addPeer,
        .addPeer (some "b.example") peer "other", .removeKey (some "b.example") "dev"]
    let names : Sni.NameList := ⟨[.host "a.example", .other 7 [1]]⟩
    let names' : Sni.NameList := ⟨[.host "a.example"]⟩
    let config : ClientConfig := { sni := true }
    let session : Session := { peer, serverNames := some names }
    let session' : Session := { session with serverNames := some names' }
    let outcome :=
      (session.exchangeKeys config .zeros).perform (ofHistory history).toCredentialStore
    let outcome' :=
      (session'.exchangeKeys config .zeros).perform (ofHistory history).toCredentialStore
    (∀ names ∈ session.serverNames, names.Reachable) ∧
      outcome = (session.exchangeKeys config .zeros).perform
        (ofHistory [setKey, addPeer]).toCredentialStore ∧
      outcome'.result = outcome.result := by
  intro peer setKey addPeer history names names' config session session' outcome outcome'
  have hreachable : names.Reachable := ⟨.hostName "A.Example", [.other 7 [1]], by decide +kernel⟩
  have hnames : ∀ names ∈ session.serverNames, names.Reachable := by
    intro given hgiven
    rwa [← Option.some_inj.mp hgiven]
  have hlower : "a.example".toLower = "a.example" ∧ "A.Example".toLower = "a.example" ∧
      "b.example".toLower = "b.example" := by
    decide +kernel
  have hrealm : session.realm config.sni = .virtualHost names := rfl
  have hname : names.hostName? = some "a.example" := rfl
  have hwithin : history.filter (Mutation.within (session.realm config.sni)) =
      [setKey, addPeer] := by
    rw [hrealm]
    simp [history, setKey, addPeer, Mutation.within, Mutation.host, hname, hlower]
  have hisolated := exchangeKeys_isolated hnames history config .zeros
  rw [hwithin] at hisolated
  obtain ⟨hsame, hothers⟩ := hisolated
  obtain ⟨hresult, -⟩ := hothers names names' rfl rfl
  exact ⟨hnames, hsame, hresult⟩

end PskHandshake
