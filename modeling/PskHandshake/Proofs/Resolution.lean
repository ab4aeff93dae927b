/-
The path of a resolution, with its lookups.

`Resolves` is the rule of resolution, with a line for each way it can go: it says which lookups are
made, in which order, and what comes of them.  An attempt to find a credential logs on the way, and
its run is taken apart first.

* `Session.runFrom_findCredential` — what an attempt to find a credential results in, and what it
  adds to a trace;
* `Resolves.eq_resolution`, `resolves_resolution` — this is what the rule says, of every session;
* `findCredential_follows_rule` — the same, with what the rule excludes.
-/
import Mathlib
import PskHandshake.Resolution

namespace PskHandshake

/-- The rule of resolution.  With server names in use and present, only the realm of their virtual
host is searched, and otherwise only the default realm; the key is looked up in the same realm, and
for the identity that was found. -/
inductive Resolves (store : CredentialStore) (session : Session) :
    Bool → List (Lookup Realm) → Except Unresolved Credential → Prop
  | hostIdentityMissing {names : Sni.NameList} :
      session.serverNames = some names →
      store.identity (.virtualHost names) session.peer = none →
        Resolves store session true [.identity (.virtualHost names) session.peer]
          (.error ⟨session.peer, .hostScoped names.hostName?, .identity⟩)
  | hostKeyMissing {names : Sni.NameList} {identity : String} :
      session.serverNames = some names →
      store.identity (.virtualHost names) session.peer = some identity →
      store.key (.virtualHost names) identity = none →
        Resolves store session true
          [.identity (.virtualHost names) session.peer, .key (.virtualHost names) identity]
          (.error ⟨session.peer, .hostScoped names.hostName?, .key identity⟩)
  | hostFound {names : Sni.NameList} {identity : String} {key : SecretKey} :
      session.serverNames = some names →
      store.identity (.virtualHost names) session.peer = some identity →
      store.key (.virtualHost names) identity = some key →
        Resolves store session true
          [.identity (.virtualHost names) session.peer, .key (.virtualHost names) identity]
          (.ok ⟨⟨.hostScoped names.hostName?, identity⟩, key⟩)
  | identityMissing {sni : Bool} :
      sni = false ∨ session.serverNames = none →
      store.identity .default session.peer = none →
        Resolves store session sni [.identity .default session.peer]
          (.error ⟨session.peer, .hostAgnostic, .identity⟩)
  | keyMissing {sni : Bool} {identity : String} :
      sni = false ∨ session.serverNames = none →
      store.identity .default session.peer = some identity →
      store.key .default identity = none →
        Resolves store session sni [.identity .default session.peer, .key .default identity]
          (.error ⟨session.peer, .hostAgnostic, .key identity⟩)
  | found {sni : Bool} {identity : String} {key : SecretKey} :
      sni = false ∨ session.serverNames = none →
      store.identity .default session.peer = some identity →
      store.key .default identity = some key →
        Resolves store session sni [.identity .default session.peer, .key .default identity]
          (.ok ⟨⟨if sni then .hostScoped none else .hostAgnostic, identity⟩, key⟩)

namespace Session

variable (sni : Bool) (session : Session) (store : CredentialStore)

/-! ### The run of an attempt -/

/-- The lookups of a resolution: of the identity, and of the key if there is an identity. -/
def lookups : List (Lookup Realm) :=
  .identity (session.realm sni) session.peer ::
    ((store.identity (session.realm sni) session.peer).map (.key (session.realm sni))).toList

/-- What a resolution results in. -/
def resolution : Except Unresolved Credential :=
  match store.identity (session.realm sni) session.peer with
  | none => .error ⟨session.peer, (session.realm sni).scope, .identity⟩
  | some identity =>
    match store.key (session.realm sni) identity with
    | none => .error ⟨session.peer, (session.realm sni).scope, .key identity⟩
    | some key => .ok ⟨⟨session.principalScope sni, identity⟩, key⟩

/-- What is logged before the lookups. -/
def searchLog : List Event :=
  (if session.lacksSupport sni then [session.unsupportedEvent] else []) ++
    [session.searchEvent (session.realm sni).scope]

/-- An attempt to find a credential logs, makes its lookups, and results in what they gave. -/
theorem runFrom_findCredential (trace : Trace) :
    (session.findCredential sni).runFrom store trace =
      (session.resolution sni store,
        ⟨trace.lookups ++ session.lookups sni store, trace.log ++ session.searchLog sni⟩) := by
  -- what is logged first does not depend on the store, so the lookups are told apart before it
  simp only [findCredential, resolution, lookups, searchLog]
  rcases hidentity : store.identity (session.realm sni) session.peer with _ | identity
  · split <;> simp [Attempt.runFrom_bind, hidentity]
  rcases hkey : store.key (session.realm sni) identity with _ | key
  · split <;> simp [Attempt.runFrom_bind, hidentity, hkey]
  · split <;> simp [Attempt.runFrom_bind, hidentity, hkey]

theorem perform_findCredential :
    (session.findCredential sni).perform store =
      ⟨session.resolution sni store, ⟨session.lookups sni store, session.searchLog sni⟩⟩ := by
  rw [Attempt.perform, runFrom_findCredential]
  rfl

variable {sni session store}

/-- A key is only looked up for an identity that the store gave. -/
theorem mem_lookups_iff {lookup : Lookup Realm} :
    lookup ∈ session.lookups sni store ↔
      lookup = .identity (session.realm sni) session.peer ∨
        ∃ identity, store.identity (session.realm sni) session.peer = some identity ∧
          lookup = .key (session.realm sni) identity := by
  rw [lookups, List.mem_cons, Option.mem_toList, Option.map_eq_some_iff]
  simp only [eq_comm]

theorem length_lookups_le : (session.lookups sni store).length ≤ 2 := by
  rw [lookups]
  cases store.identity (session.realm sni) session.peer <;> simp

/-- A credential has an identity and a key that the store gave. -/
theorem resolution_eq_ok_iff {credential : Credential} :
    session.resolution sni store = .ok credential ↔
      credential.principal.scope = session.principalScope sni ∧
        store.identity (session.realm sni) session.peer = some credential.principal.identity ∧
          store.key (session.realm sni) credential.principal.identity = some credential.key := by
  constructor
  · intro h
    rw [resolution] at h
    split at h
    · contradiction
    next identity hidentity =>
      split at h
      · contradiction
      next key hkey =>
        obtain rfl := Except.ok.inj h
        exact ⟨rfl, hidentity, hkey⟩
  · rintro ⟨hscope, hidentity, hkey⟩
    rw [resolution, hidentity]
    simp only [hkey, ← hscope]

/-- A failure is due to the first lookup that came back empty. -/
theorem resolution_eq_error_iff {failure : Unresolved} :
    session.resolution sni store = .error failure ↔
      failure.peer = session.peer ∧ failure.scope = (session.realm sni).scope ∧
        (failure.missing = .identity ∧ store.identity (session.realm sni) session.peer = none ∨
          ∃ identity, failure.missing = .key identity ∧
            store.identity (session.realm sni) session.peer = some identity ∧
              store.key (session.realm sni) identity = none) := by
  obtain ⟨peer, scope, missing⟩ := failure
  constructor
  · intro h
    rw [resolution] at h
    split at h
    next hidentity =>
      obtain ⟨rfl, rfl, rfl⟩ := Unresolved.mk.inj (Except.error.inj h)
      exact ⟨rfl, rfl, .inl ⟨rfl, hidentity⟩⟩
    next identity hidentity =>
      split at h
      next hkey =>
        obtain ⟨rfl, rfl, rfl⟩ := Unresolved.mk.inj (Except.error.inj h)
        exact ⟨rfl, rfl, .inr ⟨identity, rfl, hidentity, hkey⟩⟩
      · contradiction
  · rintro ⟨rfl, rfl, ⟨rfl, hidentity⟩ | ⟨identity, rfl, hidentity, hkey⟩⟩
    · rw [resolution, hidentity]
    · rw [resolution, hidentity]
      simp only [hkey]

/-! ### The realm that is searched -/

/-- Either no virtual host is searched for, or that of the server names. -/
theorem plain_or_serverNames (sni : Bool) (session : Session) :
    (sni = false ∨ session.serverNames = none) ∨
      sni = true ∧ ∃ names, session.serverNames = some names := by
  cases sni with
  | false => exact .inl (.inl rfl)
  | true =>
    rcases hnames : session.serverNames with _ | names
    · exact .inl (.inr rfl)
    · exact .inr ⟨rfl, names, rfl⟩

theorem realm_of_plain (h : sni = false ∨ session.serverNames = none) :
    session.realm sni = .default ∧
      session.principalScope sni = if sni then .hostScoped none else .hostAgnostic := by
  have hrealm : session.realm sni = .default := by
    rcases h with rfl | h
    · rfl
    · cases sni <;> simp only [realm, h]
  rw [principalScope, hrealm]
  exact ⟨rfl, rfl⟩

theorem realm_of_serverNames {names : Sni.NameList} (h : session.serverNames = some names) :
    session.realm true = .virtualHost names ∧
      session.principalScope true = .hostScoped names.hostName? := by
  have hrealm : session.realm true = .virtualHost names := by simp only [realm, h]
  rw [principalScope, hrealm]
  exact ⟨rfl, rfl⟩

/-- The realm that is searched for a principal is that of its virtual host, if it has one; otherwise
it is the default realm, or one whose server names have no host name. -/
theorem realm_of_principalScope {host : Option String}
    (h : (session.principalScope sni).virtualHost? = host) :
    (session.realm sni = .default ∧ host = none) ∨
      ∃ names, session.serverNames = some names ∧ session.realm sni = .virtualHost names ∧
        names.hostName? = host := by
  obtain hplain | ⟨rfl, names, hnames⟩ := plain_or_serverNames sni session
  · rw [(realm_of_plain hplain).2] at h
    refine .inl ⟨(realm_of_plain hplain).1, ?_⟩
    rw [← h]
    cases sni <;> rfl
  · rw [(realm_of_serverNames hnames).2] at h
    exact .inr ⟨names, hnames, (realm_of_serverNames hnames).1, h⟩

end Session

/-! ### The rule -/

section Rule

variable {store : CredentialStore} {session : Session} {sni : Bool} {lookups : List (Lookup Realm)}
  {result : Except Unresolved Credential}

/-- Whatever the rule says of a session is what its resolution does. -/
theorem Resolves.eq_resolution (h : Resolves store session sni lookups result) :
    lookups = session.lookups sni store ∧ result = session.resolution sni store := by
  rw [Session.lookups, Session.resolution]
  cases h with
  | hostIdentityMissing hnames hidentity =>
    rw [(Session.realm_of_serverNames hnames).1, hidentity]
    exact ⟨rfl, rfl⟩
  | hostKeyMissing hnames hidentity hkey =>
    rw [(Session.realm_of_serverNames hnames).1, hidentity]
    refine ⟨rfl, ?_⟩
    simp only [hkey]
    rfl
  | hostFound hnames hidentity hkey =>
    rw [(Session.realm_of_serverNames hnames).1, (Session.realm_of_serverNames hnames).2,
      hidentity]
    exact ⟨rfl, by simp only [hkey]⟩
  | identityMissing hplain hidentity =>
    rw [(Session.realm_of_plain hplain).1, hidentity]
    exact ⟨rfl, rfl⟩
  | keyMissing hplain hidentity hkey =>
    rw [(Session.realm_of_plain hplain).1, hidentity]
    refine ⟨rfl, ?_⟩
    simp only [hkey]
    rfl
  | found hplain hidentity hkey =>
    rw [(Session.realm_of_plain hplain).1, (Session.realm_of_plain hplain).2, hidentity]
    exact ⟨rfl, by simp only [hkey]⟩

/-- The rule says something of every session. -/
theorem resolves_resolution (store : CredentialStore) (session : Session) (sni : Bool) :
    Resolves store session sni (session.lookups sni store) (session.resolution sni store) := by
  rw [Session.lookups, Session.resolution]
  obtain hplain | ⟨rfl, names, hnames⟩ := Session.plain_or_serverNames sni session
  · rw [(Session.realm_of_plain hplain).1, (Session.realm_of_plain hplain).2]
    rcases hidentity : store.identity .default session.peer with _ | identity
    · exact .identityMissing hplain hidentity
    rcases hkey : store.key .default identity with _ | key
    · simp only [hkey]
      exact .keyMissing hplain hidentity hkey
    · simp only [hkey]
      exact .found hplain hidentity hkey
  · rw [(Session.realm_of_serverNames hnames).1, (Session.realm_of_serverNames hnames).2]
    rcases hidentity : store.identity (.virtualHost names) session.peer with _ | identity
    · exact .hostIdentityMissing hnames hidentity
    rcases hkey : store.key (.virtualHost names) identity with _ | key
    · simp only [hkey]
      exact .hostKeyMissing hnames hidentity hkey
    · simp only [hkey]
      exact .hostFound hnames hidentity hkey

theorem resolves_iff :
    Resolves store session sni lookups result ↔
      lookups = session.lookups sni store ∧ result = session.resolution sni store := by
  constructor
  · exact Resolves.eq_resolution
  · rintro ⟨rfl, rfl⟩
    exact resolves_resolution store session sni

/-- **One fixed path.**  The lookups and the result of an attempt to find a credential are what the
rule says, and nothing else is.  So there are at most two lookups, all in the realm of the session,
and of a key only for the identity that the store gave; a failure carries the peer and the scope of
the session, and the identity exactly when the key was missing; and a credential has the key that
the store gave for its identity in that realm. -/
theorem findCredential_follows_rule (store : CredentialStore) (session : Session) (sni : Bool) :
    let realm := session.realm sni
    let outcome := (session.findCredential sni).perform store
    (∀ lookups result, Resolves store session sni lookups result ↔
        lookups = outcome.trace.lookups ∧ result = outcome.result) ∧
      outcome.trace.lookups.length ≤ 2 ∧
      (∀ lookup ∈ outcome.trace.lookups,
        lookup = .identity realm session.peer ∨
          ∃ identity, store.identity realm session.peer = some identity ∧
            lookup = .key realm identity) ∧
      match outcome.result with
      | .error failure =>
        failure.peer = session.peer ∧ failure.scope = realm.scope ∧
          (failure.missing = .identity ∧ store.identity realm session.peer = none ∨
            ∃ identity, failure.missing = .key identity ∧
              store.identity realm session.peer = some identity ∧ store.key realm identity = none)
      | .ok credential =>
        credential.principal.scope = session.principalScope sni ∧
          store.identity realm session.peer = some credential.principal.identity ∧
            store.key realm credential.principal.identity = some credential.key := by
  intro realm outcome
  have houtcome : outcome =
      ⟨session.resolution sni store, ⟨session.lookups sni store, session.searchLog sni⟩⟩ :=
    session.perform_findCredential sni store
  rw [houtcome]
  refine ⟨fun lookups result => resolves_iff, Session.length_lookups_le,
    fun lookup => Session.mem_lookups_iff.mp, ?_⟩
  rcases hresult : session.resolution sni store with failure | credential
  · exact Session.resolution_eq_error_iff.mp hresult
  · exact Session.resolution_eq_ok_iff.mp hresult

end Rule

end PskHandshake
