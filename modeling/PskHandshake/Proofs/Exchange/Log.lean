/-
What an exchange logs.

The log has a place for each thing that is said: a warning, if a virtual host is searched for on a
peer without the support, the start of the search, and how the exchange ended.  The first two are
settled before the store is asked.  Whether the peer supports server names decides about the warning
and about nothing else, and with server names out of use nothing depends on them at all.

* `Session.lacksSupport_iff`, `Session.searchEvent_realm` — what is logged before the lookups, told
  from the session;
* `Session.filter_searchLog`, `Session.filter_log` — the log without the warning, and without its
  end;
* `Session.perform_exchangeKeys_of_peer_eq` — what an exchange without server names depends on;
* `exchangeKeys_log_exact` — the log of an exchange, and what leaves it and the result as they are.
-/
import PskHandshake.Proofs.Exchange.Ending
import PskHandshake.Proofs.Exchange.Isolation

namespace PskHandshake

namespace Session

variable {sni : Bool} {session session' : Session} {result : Except Abort Exchange}

/-! ### The events -/

theorem lacksSupport_iff :
    session.lacksSupport sni = true ↔
      sni = true ∧ session.serverNames ≠ none ∧ session.sniSupported = false := by
  rw [lacksSupport, Bool.and_eq_true, Bool.not_eq_true']
  obtain hplain | ⟨rfl, names, hnames⟩ := plain_or_serverNames sni session
  · -- the default realm is no virtual host's
    rw [(realm_of_plain hplain).1]
    refine iff_of_false (by simp [Realm.scope, Scope.isHostScoped]) ?_
    rintro ⟨rfl, hsome, -⟩
    obtain hfalse | hnone := hplain
    · contradiction
    · exact hsome hnone
  · rw [(realm_of_serverNames hnames).1, hnames]
    simp [Realm.scope, Scope.isHostScoped]

theorem searchEvent_realm :
    session.searchEvent (session.realm sni).scope =
      match sni, session.serverNames with
      | true, some names =>
        ⟨.trace, "Resolving host-scoped PSK identity",
          [("peer", session.peer.text),
            ("virtual_host", (Outline.optional (names.hostName?.map .quoted)).render)]⟩
      | _, _ => ⟨.trace, "Resolving PSK identity", [("peer", session.peer.text)]⟩ := by
  cases sni with
  | false => rfl
  | true =>
    rcases hnames : session.serverNames with _ | names
    · rw [(realm_of_plain (.inr hnames)).1]
      rfl
    · rw [(realm_of_serverNames hnames).1]
      rfl

/-- With server names out of use, a search is announced without them. -/
theorem searchLog_false (session : Session) :
    session.searchLog false =
      [⟨.trace, "Resolving PSK identity", [("peer", session.peer.text)]⟩] := rfl

/-! ### The events by their level -/

theorem level_searchEvent (scope : Scope) : (session.searchEvent scope).level = .trace := by
  cases scope with
  | hostAgnostic => rfl
  | hostScoped host => rfl

theorem level_endEvent : (session.endEvent result).level = .debug := by
  cases result with
  | ok exchange => rfl
  | error abort => rfl

/-- Every event of a search but the warning announces it. -/
theorem filter_searchLog :
    (session.searchLog sni).filter (·.level ≠ .warn) =
      [session.searchEvent (session.realm sni).scope] := by
  rw [searchLog]
  split
  · simp [level_searchEvent, unsupportedEvent]
  · simp [level_searchEvent]

/-- How an exchange ended is the only event of its level. -/
theorem filter_log :
    (session.searchLog sni ++ [session.endEvent result]).filter (·.level ≠ .debug) =
      session.searchLog sni := by
  rw [searchLog]
  split
  · simp [level_searchEvent, level_endEvent, unsupportedEvent]
  · simp [level_searchEvent, level_endEvent]

/-! ### Exchanges without server names -/

/-- With server names out of use, only the peer of a session matters. -/
theorem perform_exchangeKeys_of_peer_eq {config : ClientConfig} {other : Premaster.Other}
    {store : CredentialStore} (hsni : config.sni = false) (hpeer : session'.peer = session.peer) :
    (session'.exchangeKeys config other).perform store =
      (session.exchangeKeys config other).perform store := by
  have hrealm : session'.realm config.sni = .default ∧ session.realm config.sni = .default :=
    ⟨(realm_of_plain (.inl hsni)).1, (realm_of_plain (.inl hsni)).1⟩
  have hlookups : session'.lookups config.sni store = session.lookups config.sni store := by
    rw [lookups, lookups, hrealm.1, hrealm.2, hpeer]
  have hsearch : session'.searchLog config.sni = session.searchLog config.sni := by
    rw [hsni, searchLog_false, searchLog_false, hpeer]
  have hexchange : session'.exchange config other store = session.exchange config other store := by
    refine exchange_congr hpeer (by rw [hrealm.1, hrealm.2]) ?_
    rw [hrealm.1, hrealm.2]
    exact ⟨fun _ => rfl, fun _ => rfl⟩
  rw [perform_exchangeKeys, perform_exchangeKeys, hlookups, hsearch, hexchange,
    endEvent_congr hpeer]

end Session

/-- **The log of an exchange.**  An exchange logs a warning exactly when server names are in use and
present on a session that does not support them, then one trace of the search, with the host where
server names are searched for, and last one event for how it ended; warning and trace are the same
with every store and secret.  Support for server names changes no result, no lookup and no event but
the warning.  With server names out of use, sessions with one peer have the same exchange. -/
theorem exchangeKeys_log_exact (config : ClientConfig) (other : Premaster.Other)
    (session : Session) (store : CredentialStore) :
    let outcome := (session.exchangeKeys config other).perform store
    outcome.trace.log =
        (if config.sni = true ∧ session.serverNames ≠ none ∧ session.sniSupported = false then
          [⟨.warn, "client is configured to use SNI but server does not support it, "
            ++ "PSK authentication is likely to fail", [("peer", session.peer.text)]⟩]
        else []) ++
        [match config.sni, session.serverNames with
          | true, some names =>
            ⟨.trace, "Resolving host-scoped PSK identity",
              [("peer", session.peer.text),
                ("virtual_host", (Outline.optional (names.hostName?.map .quoted)).render)]⟩
          | _, _ => ⟨.trace, "Resolving PSK identity", [("peer", session.peer.text)]⟩] ++
        [match outcome.result with
          | .ok exchange =>
            ⟨.debug, "Resolved PSK credentials",
              [("peer", session.peer.text), ("principal", exchange.principal.name)]⟩
          | .error abort =>
            ⟨.debug, "Aborting PSK handshake: " ++ abort.text,
              [("peer", session.peer.text), ("alert", abort.alert.description.name)]⟩] ∧
      (∀ other' store',
        let outcome' := (session.exchangeKeys config other').perform store'
        outcome'.trace.log.filter (·.level ≠ .debug) =
          outcome.trace.log.filter (·.level ≠ .debug)) ∧
      (∀ sniSupported,
        let outcome' := (({ session with sniSupported }).exchangeKeys config other).perform store
        outcome'.result = outcome.result ∧ outcome'.trace.lookups = outcome.trace.lookups ∧
          outcome'.trace.log.filter (·.level ≠ .warn) =
            outcome.trace.log.filter (·.level ≠ .warn)) ∧
      (config.sni = false → ∀ session' : Session, session'.peer = session.peer →
        (session'.exchangeKeys config other).perform store = outcome) := by
  intro outcome
  have houtcome : outcome = _ := session.perform_exchangeKeys config other store
  refine ⟨?_, ?_, ?_, ?_⟩
  · rw [houtcome, Session.searchLog, Session.searchEvent_realm]
    simp only [Session.lacksSupport_iff, Session.unsupportedEvent]
    cases session.exchange config other store with
    | ok exchange => rfl
    | error abort => rfl
  · intro other' store' outcome'
    have houtcome' : outcome' = _ := session.perform_exchangeKeys config other' store'
    rw [houtcome, houtcome', Session.filter_log, Session.filter_log]
  · intro sniSupported outcome'
    have houtcome' : outcome' = _ := Session.perform_exchangeKeys config other _ store
    -- neither the lookups nor the last event reads whether the peer has the support
    rw [houtcome, houtcome', List.filter_append, List.filter_append, Session.filter_searchLog,
      Session.filter_searchLog]
    exact ⟨rfl, rfl, rfl⟩
  · intro hsni session' hpeer
    exact Session.perform_exchangeKeys_of_peer_eq hsni hpeer

/-- A session with server names that its peer does not support: the warning goes with the support,
and all three events go by the peer alone once server names are out of use.  An exchange that fails
logs why, and which alert it fails with: for a peer that is not known, for an identity without a
key, for one over the limit and for an agreed secret that no vector holds. -/
theorem exchangeKeys_log_exact_unsupported :
    let store := (FixedStore.mk "dev" ⟨[1, 2]⟩).toCredentialStore
    let empty : CredentialStore := ⟨fun _ _ => none, fun _ _ => none⟩
    let keyless : CredentialStore := ⟨fun _ _ => some "dev", fun _ _ => none⟩
    let plain : Session := { peer := .ipv4 ⟨10, 0, 0, 1⟩ 5684 }
    let session : Session :=
      { plain with serverNames := some ⟨[.host "a.example"]⟩, sniSupported := false }
    let log (config : ClientConfig) (session : Session) : List Event :=
      ((session.exchangeKeys config .zeros).perform store).trace.log
    let lastEvent? (config : ClientConfig) (other : Premaster.Other) (store : CredentialStore) :
        Option Event :=
      ((session.exchangeKeys config other).perform store).trace.log.getLast?
    let search : Event :=
      ⟨.trace, "Resolving host-scoped PSK identity",
        [("peer", "10.0.0.1:5684"), ("virtual_host", "Some(\"a.example\")")]⟩
    let resolved : Event :=
      ⟨.debug, "Resolved PSK credentials",
        [("peer", "10.0.0.1:5684"), ("principal", "a.example:dev")]⟩
    (log { sni := true } session).map Event.level = [.warn, .trace, .debug] ∧
      (log { sni := true } { session with sniSupported := true }).filter (·.level ≠ .warn) =
        [search, resolved] ∧
      ClientConfig.sni {} = false ∧ session.peer = plain.peer ∧
      log {} session = log {} plain ∧
      lastEvent? { sni := true } .zeros empty =
        some ⟨.debug, "Aborting PSK handshake: No Identity found for peer "
          ++ "[address: 10.0.0.1:5684, virtual host: a.example]",
          [("peer", "10.0.0.1:5684"), ("alert", "HandshakeFailure")]⟩ ∧
      lastEvent? { sni := true } .zeros keyless =
        some ⟨.debug, "Aborting PSK handshake: No pre-shared key found for "
          ++ "[virtual host: a.example, identity: dev]",
          [("peer", "10.0.0.1:5684"), ("alert", "HandshakeFailure")]⟩ ∧
      lastEvent? { base := ⟨2⟩, sni := true } .zeros store =
        some ⟨.debug, "Aborting PSK handshake: Invalid configuration: PSK identity of 3 bytes "
          ++ "exceeds limit of 2",
          [("peer", "10.0.0.1:5684"), ("alert", "InternalError")]⟩ ∧
      lastEvent? { sni := true } (.agreed (List.replicate 65536 0)) store =
        some ⟨.debug, "Aborting PSK handshake: Internal error: ECDH shared secret longer than "
          ++ "65535 bytes",
          [("peer", "10.0.0.1:5684"), ("alert", "InternalError")]⟩ := by
  intro store empty keyless plain session log lastEvent? search resolved
  have hresult : ((session.exchangeKeys { sni := true } .zeros).perform store).result =
      .ok ⟨⟨.hostScoped (some "a.example"), "dev"⟩, [0, 3, 100, 101, 118],
        [0, 2, 0, 0, 0, 2, 1, 2]⟩ := by
    decide +kernel
  obtain ⟨hlog, -, hflip, -⟩ := exchangeKeys_log_exact { sni := true } .zeros session store
  obtain ⟨-, -, hothers⟩ := hflip true
  rw [hresult] at hlog
  obtain ⟨-, -, -, hplain⟩ := exchangeKeys_log_exact {} .zeros plain store
  have hsame := hplain rfl session rfl
  have habort : ∀ (config : ClientConfig) (other : Premaster.Other) (store : CredentialStore)
      (abort : Abort), session.exchange config other store = .error abort →
        lastEvent? config other store = some (session.abortEvent abort) := by
    intro config other store abort hexchange
    have hresult : ((session.exchangeKeys config other).perform store).result = .error abort := by
      rw [Session.perform_exchangeKeys, hexchange]
    obtain ⟨hlog, -⟩ := exchangeKeys_log_exact config other session store
    rw [hresult] at hlog
    exact (congrArg List.getLast? hlog).trans List.getLast?_concat
  have hcredential : session.resolution true store =
      .ok ⟨⟨.hostScoped (some "a.example"), "dev"⟩, ⟨[1, 2]⟩⟩ := by
    decide +kernel
  have htooLong : ¬(Premaster.Other.agreed (List.replicate 65536 0)).Fits := by
    rw [Premaster.Other.Fits, List.length_replicate]
    decide
  refine ⟨congrArg (List.map Event.level) hlog, ?_, rfl, rfl, congrArg (·.trace.log) hsame,
    ?_, ?_, ?_, ?_⟩
  · refine hothers.trans ?_
    rw [hlog]
    decide +kernel
  · rw [habort { sni := true } .zeros empty (.unresolved ⟨session.peer, .hostScoped _, .identity⟩)
      rfl]
    decide +kernel
  · rw [habort { sni := true } .zeros keyless
      (.unresolved ⟨session.peer, .hostScoped _, .key "dev"⟩) rfl]
    decide +kernel
  · rw [habort { base := ⟨2⟩, sni := true } .zeros store _
      (Session.exchange_eq_unusable_iff.mpr ⟨_, hcredential, .identity (by decide +kernel)⟩)]
    decide +kernel
  · rw [habort { sni := true } (.agreed (List.replicate 65536 0)) store _
      (Session.exchange_eq_unusable_iff.mpr
        ⟨_, hcredential, .other (by decide +kernel) (by decide) htooLong⟩)]
    decide +kernel

end PskHandshake
