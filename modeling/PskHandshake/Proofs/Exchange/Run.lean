/-
The run of a key exchange.

An exchange makes the lookups of the resolution it starts with and no others.  What is logged is
what the resolution logs, and one event for the way the exchange ended.

* `Exchange.ofCredential_eq_ok_iff` — the exchange that a credential allows;
* `Session.perform_exchangeKeys` — the result of an exchange, its lookups and its log.
-/
import PskHandshake.Exchange
import PskHandshake.Fallible
import PskHandshake.Proofs.Resolution

namespace PskHandshake

/-- A credential allows the exchange of its principal whose message and premaster secret can be
made. -/
theorem Exchange.ofCredential_eq_ok_iff {limit : Nat} {other : Premaster.Other}
    {credential : Credential} {exchange : Exchange} :
    ofCredential limit other credential = .ok exchange ↔
      exchange.principal = credential.principal ∧
        IdentityField.encode credential.principal.identity limit = .ok exchange.message ∧
          Premaster.compute credential.key other = .ok exchange.premaster := by
  rw [ofCredential]
  constructor
  · intro h
    obtain ⟨message, hmessage, h⟩ := Fallible.bind_eq_ok_iff.mp h
    obtain ⟨premaster, hpremaster, h⟩ := Fallible.bind_eq_ok_iff.mp h
    obtain rfl := Except.ok.inj h
    exact ⟨rfl, Fallible.mapError_eq_ok_iff.mp hmessage, Fallible.mapError_eq_ok_iff.mp hpremaster⟩
  · rintro ⟨hprincipal, hmessage, hpremaster⟩
    rw [Fallible.bind_eq_ok_iff]
    refine ⟨_, Fallible.mapError_eq_ok_iff.mpr hmessage, ?_⟩
    rw [Fallible.bind_eq_ok_iff]
    refine ⟨_, Fallible.mapError_eq_ok_iff.mpr hpremaster, ?_⟩
    rw [← hprincipal]
    rfl

namespace Session

variable (config : ClientConfig) (other : Premaster.Other) (session : Session)
  (store : CredentialStore)

/-- What an exchange results in. -/
def exchange : Except Abort Exchange :=
  match session.resolution config.sni store with
  | .error failure => .error (.unresolved failure)
  | .ok credential =>
    (Exchange.ofCredential config.base.maxIdentityLength other credential).mapError .unusable

variable {config other session store} in
theorem exchange_eq_ok_iff {exchange : Exchange} :
    session.exchange config other store = .ok exchange ↔
      ∃ credential, session.resolution config.sni store = .ok credential ∧
        Exchange.ofCredential config.base.maxIdentityLength other credential = .ok exchange := by
  rw [Session.exchange]
  cases session.resolution config.sni store with
  | error failure => simp
  | ok credential => simp [Fallible.mapError_eq_ok_iff]

/-- What is logged when an exchange has ended. -/
def endEvent : Except Abort Exchange → Event
  | .error abort => session.abortEvent abort
  | .ok exchange => session.resolvedEvent exchange

/-- An exchange makes the lookups of its resolution, logs what that logs and how it ended, and
results in what the credential allows. -/
theorem perform_exchangeKeys :
    (session.exchangeKeys config other).perform store =
      ⟨session.exchange config other store,
        ⟨session.lookups config.sni store,
          session.searchLog config.sni ++
            [session.endEvent (session.exchange config other store)]⟩⟩ := by
  rw [Attempt.perform, exchangeKeys, Attempt.runFrom_bind, Attempt.runFrom_tryCatch,
    Attempt.runFrom_bind, Attempt.runFrom_mapError, runFrom_findCredential, exchange]
  rcases session.resolution config.sni store with failure | credential
  · rfl
  -- the attempts that are left log one event and end, so their runs are evaluated
  simp only [Except.mapError]
  rcases Exchange.ofCredential config.base.maxIdentityLength other credential with fault | exchange
  · rfl
  · rfl

end Session

end PskHandshake
