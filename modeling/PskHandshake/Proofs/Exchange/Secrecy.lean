/-
What an exchange keeps secret.

Keys and agreed secrets go into the premaster secret and nowhere else.  Two runs that differ in them
alone, and in which the same secrets fit, are followed side by side: at each step their results
agree but for what holds a secret (`Fallible.Alike`).

* `Exchange.ofCredential_alike`, `Session.resolution_alike`, `Session.exchange_alike` — the steps;
* `exchangeKeys_keeps_secrets` — the runs leave the same trace, and end alike.
-/
import PskHandshake.Proofs.Exchange.Premaster
import PskHandshake.Proofs.Exchange.Run
import PskHandshake.Store

namespace PskHandshake

namespace Fallible

variable {ε ε' α β : Type} {R : α → α → Prop} {S : β → β → Prop}

/-- Results that agree but for what `R` lets two values differ in. -/
inductive Alike (R : α → α → Prop) : Except ε α → Except ε α → Prop
  | ok {a a' : α} : R a a' → Alike R (.ok a) (.ok a')
  | error (e : ε) : Alike R (.error e) (.error e)

theorem Alike.bind {first first' : Except ε α} {next next' : α → Except ε β}
    (h : Alike R first first') (hnext : ∀ a a', R a a' → Alike S (next a) (next' a')) :
    Alike S (first >>= next) (first' >>= next') := by
  cases h with
  | ok hvalues => exact hnext _ _ hvalues
  | error e => exact .error e

theorem Alike.mapError {first first' : Except ε α} (h : Alike R first first') (f : ε → ε') :
    Alike R (first.mapError f) (first'.mapError f) := by
  cases h with
  | ok hvalues => exact .ok hvalues
  | error e => exact .error (f e)

theorem Alike.refl (hR : ∀ a, R a a) (result : Except ε α) : Alike R result result := by
  cases result with
  | ok a => exact .ok (hR a)
  | error e => exact .error e

end Fallible

open Fallible (Alike)

/-! ### Values that differ in secrets alone -/

/-- Two stores with the same identities, and with keys for the same ones.  The keys may differ, as
long as each fits when the other does. -/
structure CredentialStore.AlikeButKeys (store store' : CredentialStore) : Prop where
  identity : ∀ realm peer, store.identity realm peer = store'.identity realm peer
  key : ∀ realm identity, Option.Rel (fun key key' => key.Fits ↔ key'.Fits)
    (store.key realm identity) (store'.key realm identity)

structure Credential.AlikeButKey (credential credential' : Credential) : Prop where
  principal : credential.principal = credential'.principal
  key : credential.key.Fits ↔ credential'.key.Fits

structure Exchange.AlikeButPremaster (exchange exchange' : Exchange) : Prop where
  principal : exchange.principal = exchange'.principal
  message : exchange.message = exchange'.message

/-- The text of an exchange leaves its premaster secret out. -/
theorem Exchange.AlikeButPremaster.outline_eq {exchange exchange' : Exchange}
    (h : exchange.AlikeButPremaster exchange') : exchange.outline = exchange'.outline := by
  rw [outline, outline, h.principal, h.message]

/-! ### The steps of two runs -/

section Steps

variable {other other' : Premaster.Other} {store store' : CredentialStore}

/-- Which of two secrets is reported as too long does not depend on what they are. -/
theorem Premaster.compute_alike {key key' : SecretKey} (hkey : key.Fits ↔ key'.Fits)
    (hother : other.Fits ↔ other'.Fits) :
    Alike (fun _ _ => True) (compute key other) (compute key' other') := by
  by_cases hfits : key.Fits
  · by_cases hfits' : other.Fits
    · rw [compute_of_fits hfits hfits', compute_of_fits (hkey.mp hfits) (hother.mp hfits')]
      exact .ok trivial
    · rw [compute_of_not_other_fits hfits hfits',
        compute_of_not_other_fits (hkey.mp hfits) (mt hother.mpr hfits')]
      exact .error _
  · rw [compute_of_not_key_fits hfits, compute_of_not_key_fits (mt hkey.mpr hfits)]
    exact .error _

theorem Exchange.ofCredential_alike {limit : Nat} {credential credential' : Credential}
    (hcredential : credential.AlikeButKey credential') (hother : other.Fits ↔ other'.Fits) :
    Alike AlikeButPremaster (ofCredential limit other credential)
      (ofCredential limit other' credential') := by
  rw [ofCredential, ofCredential, hcredential.principal]
  -- no secret goes into the message, so it is the same in both runs
  have hmessage := Alike.refl (R := Eq) (fun _ => rfl)
    ((IdentityField.encode credential'.principal.identity limit).mapError (·.toFault))
  refine hmessage.bind ?_
  rintro message _ rfl
  have hpremaster := (Premaster.compute_alike hcredential.key hother).mapError (·.toFault)
  refine hpremaster.bind ?_
  intro premaster premaster' _
  exact .ok ⟨rfl, rfl⟩

theorem Session.lookups_alike {sni : Bool} {session : Session}
    (hstore : store.AlikeButKeys store') :
    session.lookups sni store = session.lookups sni store' := by
  rw [lookups, lookups, hstore.identity]

theorem Session.resolution_alike {sni : Bool} {session : Session}
    (hstore : store.AlikeButKeys store') :
    Alike Credential.AlikeButKey (session.resolution sni store)
      (session.resolution sni store') := by
  rw [resolution, resolution, hstore.identity]
  cases store'.identity (session.realm sni) session.peer with
  | none => exact .error _
  | some identity =>
    have hkey := hstore.key (session.realm sni) identity
    dsimp only
    generalize store.key (session.realm sni) identity = found at hkey ⊢
    generalize store'.key (session.realm sni) identity = found' at hkey ⊢
    cases hkey with
    | none => exact .error _
    | some hfits => exact .ok ⟨rfl, hfits⟩

theorem Session.exchange_alike {config : ClientConfig} {session : Session}
    (hstore : store.AlikeButKeys store') (hother : other.Fits ↔ other'.Fits) :
    Alike Exchange.AlikeButPremaster (session.exchange config other store)
      (session.exchange config other' store') := by
  have hresolution : Alike Credential.AlikeButKey (session.resolution config.sni store)
      (session.resolution config.sni store') := resolution_alike hstore
  rw [exchange, exchange]
  generalize session.resolution config.sni store = resolved at hresolution ⊢
  generalize session.resolution config.sni store' = resolved' at hresolution ⊢
  cases hresolution with
  | error failure => exact .error _
  | ok hcredential => exact (Exchange.ofCredential_alike hcredential hother).mapError _

theorem Session.endEvent_alike {session : Session} {result result' : Except Abort Exchange}
    (h : Alike Exchange.AlikeButPremaster result result') :
    session.endEvent result = session.endEvent result' := by
  cases h with
  | ok hexchange => rw [endEvent, endEvent, resolvedEvent, resolvedEvent, hexchange.principal]
  | error abort => rfl

end Steps

/-- **Secrets stay out of everything but the premaster secret.**  With stores that differ in their
keys alone, and with any secrets of which the same fit, two exchanges make the same lookups and log
the same events; they succeed or end early alike, for the same reason and with the same alert; and
if they succeed, principal, message and text are the same. -/
theorem exchangeKeys_keeps_secrets {store store' : CredentialStore}
    {other other' : Premaster.Other} (hstore : store.AlikeButKeys store')
    (hother : other.Fits ↔ other'.Fits) (config : ClientConfig) (session : Session) :
    let outcome := (session.exchangeKeys config other).perform store
    let outcome' := (session.exchangeKeys config other').perform store'
    outcome.trace = outcome'.trace ∧
      match outcome.result, outcome'.result with
      | .ok exchange, .ok exchange' =>
        exchange.principal = exchange'.principal ∧ exchange.message = exchange'.message ∧
          exchange.outline.render = exchange'.outline.render
      | .error abort, .error abort' =>
        abort = abort' ∧ abort.text = abort'.text ∧ abort.alert.encode = abort'.alert.encode
      | _, _ => False := by
  intro outcome outcome'
  have houtcome : outcome = _ := session.perform_exchangeKeys config other store
  have houtcome' : outcome' = _ := session.perform_exchangeKeys config other' store'
  rw [houtcome, houtcome']
  have hresult : Alike Exchange.AlikeButPremaster (session.exchange config other store)
      (session.exchange config other' store') := Session.exchange_alike hstore hother
  refine ⟨?_, ?_⟩
  · rw [Session.lookups_alike hstore, Session.endEvent_alike hresult]
  · dsimp only
    generalize session.exchange config other store = result at hresult ⊢
    generalize session.exchange config other' store' = result' at hresult ⊢
    cases hresult with
    | ok hexchange => exact ⟨hexchange.principal, hexchange.message, by rw [hexchange.outline_eq]⟩
    | error abort => exact ⟨rfl, rfl, rfl⟩

/-- Two keys of different lengths, one beside zeros and one beside an agreed secret. -/
theorem exchangeKeys_keeps_secrets_dev :
    let store := (FixedStore.mk "dev" ⟨[1]⟩).toCredentialStore
    let store' := (FixedStore.mk "dev" ⟨[2, 3]⟩).toCredentialStore
    let session : Session :=
      { peer := .ipv4 ⟨10, 0, 0, 1⟩ 5684, serverNames := some ⟨[.host "a.example"]⟩ }
    let outcome := (session.exchangeKeys { sni := true } .zeros).perform store
    let outcome' := (session.exchangeKeys { sni := true } (.agreed [9])).perform store'
    let principal : Principal := ⟨.hostScoped (some "a.example"), "dev"⟩
    let exchange : Exchange := ⟨principal, [0, 3, 100, 101, 118], [0, 1, 0, 0, 1, 1]⟩
    let exchange' : Exchange := ⟨principal, [0, 3, 100, 101, 118], [0, 1, 9, 0, 2, 2, 3]⟩
    store.AlikeButKeys store' ∧
      (Premaster.Other.zeros.Fits ↔ (Premaster.Other.agreed [9]).Fits) ∧
      outcome.result = .ok exchange ∧ outcome'.result = .ok exchange' ∧
      outcome.trace = outcome'.trace ∧ exchange.outline.render = exchange'.outline.render := by
  intro store store' session outcome outcome' principal exchange exchange'
  have hstore : store.AlikeButKeys store' := by
    refine ⟨fun _ _ => rfl, fun _ identity => ?_⟩
    show Option.Rel _ (if identity = "dev" then _ else _) (if identity = "dev" then _ else _)
    split
    · exact .some (by decide)
    · exact .none
  have hother : Premaster.Other.zeros.Fits ↔ (Premaster.Other.agreed [9]).Fits :=
    iff_of_true trivial (by decide)
  have hresult : outcome.result = .ok exchange := by decide +kernel
  have hresult' : outcome'.result = .ok exchange' := by decide +kernel
  obtain ⟨htrace, hends⟩ := exchangeKeys_keeps_secrets hstore hother { sni := true } session
  rw [show Outcome.result _ = _ from hresult, show Outcome.result _ = _ from hresult'] at hends
  exact ⟨hstore, hother, hresult, hresult', htrace, hends.2.2⟩

end PskHandshake
