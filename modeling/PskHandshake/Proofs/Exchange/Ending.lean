/-
How an exchange ends.

An exchange needs a credential, and a credential within its limits.  `Exchange.FirstExceeded` says
which fault a credential outside them has: identity, key and agreed secret are checked in this
order, and the first that is too long is reported.

* `Exchange.ofCredential_eq_error_iff` — a credential is refused with this fault;
* `Session.exists_resolution_eq_error_iff` — there is no credential when a lookup came back empty;
* `exchangeKeys_ends` — how an exchange ends, and what its peer is told.
-/
import PskHandshake.Proofs.Exchange.IdentityField
import PskHandshake.Proofs.Exchange.Premaster
import PskHandshake.Proofs.Exchange.Run

namespace PskHandshake

/-- The store has no answer to a lookup. -/
def CredentialStore.Lacks (store : CredentialStore) : Lookup Realm → Prop
  | .identity realm peer => store.identity realm peer = none
  | .key realm identity => store.key realm identity = none

namespace Exchange

/-- The identity is not longer than its limit or a vector, and both secrets fit. -/
structure WithinLimits (limit : Nat) (other : Premaster.Other) (credential : Credential) :
    Prop where
  identity : credential.principal.identity.utf8ByteSize ≤ min limit Wire.maxUint16
  key : credential.key.Fits
  other : other.Fits

/-- The fault of a credential that is not within its limits. -/
inductive FirstExceeded (limit : Nat) (other : Premaster.Other) (credential : Credential) :
    Fault → Prop
  | identity :
      min limit Wire.maxUint16 < credential.principal.identity.utf8ByteSize →
        FirstExceeded limit other credential
          ⟨.invalidConfig, "PSK identity of " ++ toString credential.principal.identity.utf8ByteSize
            ++ " bytes exceeds limit of " ++ toString limit⟩
  | key :
      credential.principal.identity.utf8ByteSize ≤ min limit Wire.maxUint16 →
      ¬credential.key.Fits →
        FirstExceeded limit other credential ⟨.internalError, "PSK longer than 65535 bytes"⟩
  | other :
      credential.principal.identity.utf8ByteSize ≤ min limit Wire.maxUint16 →
      credential.key.Fits →
      ¬other.Fits →
        FirstExceeded limit other credential
          ⟨.internalError, "ECDH shared secret longer than 65535 bytes"⟩

variable {limit : Nat} {other : Premaster.Other} {credential : Credential}

/-- A credential has such a fault exactly when it is not within its limits. -/
theorem exists_firstExceeded_iff :
    (∃ fault, FirstExceeded limit other credential fault) ↔
      ¬WithinLimits limit other credential := by
  constructor
  · rintro ⟨fault, h⟩ hwithin
    cases h with
    | identity hidentity => exact Nat.not_le.mpr hidentity hwithin.identity
    | key _ hkey => exact hkey hwithin.key
    | other _ _ hother => exact hother hwithin.other
  · intro h
    by_cases hidentity : credential.principal.identity.utf8ByteSize ≤ min limit Wire.maxUint16
    · by_cases hkey : credential.key.Fits
      · have hother : ¬other.Fits := fun hother => h ⟨hidentity, hkey, hother⟩
        exact ⟨_, .other hidentity hkey hother⟩
      · exact ⟨_, .key hidentity hkey⟩
    · exact ⟨_, .identity (Nat.lt_of_not_le hidentity)⟩

/-- A credential within its limits allows one exchange, made of its identity and its key. -/
theorem ofCredential_eq_ok_iff_withinLimits {exchange : Exchange} :
    ofCredential limit other credential = .ok exchange ↔
      WithinLimits limit other credential ∧
        exchange = ⟨credential.principal, Wire.vector16 (Wire.utf8 credential.principal.identity),
          Wire.vector16 (other.beside credential.key) ++ Wire.vector16 credential.key.bytes⟩ := by
  obtain ⟨principal, message, premaster⟩ := exchange
  rw [ofCredential_eq_ok_iff, IdentityField.encode_eq_ok_iff_le_min, Premaster.compute_eq_ok_iff]
  constructor
  · rintro ⟨rfl, ⟨hidentity, rfl⟩, hkey, hother, rfl⟩
    exact ⟨⟨hidentity, hkey, hother⟩, rfl⟩
  · rintro ⟨hwithin, hexchange⟩
    obtain ⟨rfl, rfl, rfl⟩ := Exchange.mk.inj hexchange
    exact ⟨rfl, ⟨hwithin.identity, rfl⟩, hwithin.key, hwithin.other, rfl⟩

theorem FirstExceeded.ofCredential_eq {fault : Fault}
    (h : FirstExceeded limit other credential fault) :
    ofCredential limit other credential = .error fault := by
  rw [ofCredential]
  cases h with
  | identity hidentity =>
    rw [IdentityField.encode_eq_error_iff.mpr ⟨hidentity, rfl⟩]
    rfl
  | key hidentity hkey =>
    rw [IdentityField.encode_eq_ok_iff_le_min.mpr ⟨hidentity, rfl⟩,
      Premaster.compute_of_not_key_fits hkey]
    rfl
  | other hidentity hkey hother =>
    rw [IdentityField.encode_eq_ok_iff_le_min.mpr ⟨hidentity, rfl⟩,
      Premaster.compute_of_not_other_fits hkey hother]
    rfl

theorem ofCredential_eq_error_iff {fault : Fault} :
    ofCredential limit other credential = .error fault ↔
      FirstExceeded limit other credential fault := by
  constructor
  · intro h
    have hlimits : ¬WithinLimits limit other credential := by
      intro hwithin
      have hmade := ofCredential_eq_ok_iff_withinLimits.mpr ⟨hwithin, rfl⟩
      rw [h] at hmade
      cases hmade
    -- some limit is exceeded, and the fault of the first is the one that was reported
    obtain ⟨fault', hexceeded⟩ := exists_firstExceeded_iff.mpr hlimits
    obtain rfl : fault = fault' := Except.error.inj (h.symm.trans hexceeded.ofCredential_eq)
    exact hexceeded
  · exact FirstExceeded.ofCredential_eq

end Exchange

namespace Session

variable {config : ClientConfig} {other : Premaster.Other} {session : Session}
  {store : CredentialStore} {sni : Bool}

theorem exists_resolution_eq_error_iff :
    (∃ failure, session.resolution sni store = .error failure) ↔
      ∃ lookup ∈ session.lookups sni store, store.Lacks lookup := by
  constructor
  · rintro ⟨failure, h⟩
    obtain ⟨-, -, ⟨-, hidentity⟩ | ⟨identity, -, hidentity, hkey⟩⟩ := resolution_eq_error_iff.mp h
    · exact ⟨_, mem_lookups_iff.mpr (.inl rfl), hidentity⟩
    · exact ⟨_, mem_lookups_iff.mpr (.inr ⟨identity, hidentity, rfl⟩), hkey⟩
  · rintro ⟨lookup, hlookup, hlacks⟩
    obtain rfl | ⟨identity, hidentity, rfl⟩ := mem_lookups_iff.mp hlookup
    · exact ⟨⟨_, _, .identity⟩, resolution_eq_error_iff.mpr ⟨rfl, rfl, .inl ⟨rfl, hlacks⟩⟩⟩
    · refine ⟨⟨_, _, .key identity⟩, resolution_eq_error_iff.mpr ⟨rfl, rfl, .inr ?_⟩⟩
      exact ⟨identity, rfl, hidentity, hlacks⟩

theorem exchange_eq_unresolved_iff {failure : Unresolved} :
    session.exchange config other store = .error (.unresolved failure) ↔
      session.resolution config.sni store = .error failure := by
  rw [exchange]
  cases session.resolution config.sni store with
  | error failure' => simp
  | ok credential => simp [Fallible.mapError_eq_error_iff]

theorem exchange_eq_unusable_iff {fault : Fault} :
    session.exchange config other store = .error (.unusable fault) ↔
      ∃ credential, session.resolution config.sni store = .ok credential ∧
        Exchange.FirstExceeded config.base.maxIdentityLength other credential fault := by
  rw [exchange]
  cases session.resolution config.sni store with
  | error failure => simp
  | ok credential => simp [Fallible.mapError_eq_error_iff, Exchange.ofCredential_eq_error_iff]

theorem exchange_eq_ok_iff_withinLimits {made : Exchange} :
    session.exchange config other store = .ok made ↔
      ∃ credential, session.resolution config.sni store = .ok credential ∧
        Exchange.WithinLimits config.base.maxIdentityLength other credential ∧
          made = ⟨credential.principal, Wire.vector16 (Wire.utf8 credential.principal.identity),
            Wire.vector16 (other.beside credential.key) ++ Wire.vector16 credential.key.bytes⟩ := by
  rw [exchange_eq_ok_iff]
  simp only [Exchange.ofCredential_eq_ok_iff_withinLimits]

theorem exists_exchange_eq_unresolved_iff :
    (∃ failure, session.exchange config other store = .error (.unresolved failure)) ↔
      ∃ lookup ∈ session.lookups config.sni store, store.Lacks lookup := by
  simp only [exchange_eq_unresolved_iff]
  exact exists_resolution_eq_error_iff

theorem exists_exchange_eq_unusable_iff :
    (∃ fault, session.exchange config other store = .error (.unusable fault)) ↔
      (∀ lookup ∈ session.lookups config.sni store, ¬store.Lacks lookup) ∧
        ∃ credential, session.resolution config.sni store = .ok credential ∧
          ¬Exchange.WithinLimits config.base.maxIdentityLength other credential := by
  constructor
  · rintro ⟨fault, hfault⟩
    obtain ⟨credential, hcredential, hexceeded⟩ := exchange_eq_unusable_iff.mp hfault
    refine ⟨?_, credential, hcredential, Exchange.exists_firstExceeded_iff.mp ⟨fault, hexceeded⟩⟩
    -- an empty lookup would have left the session without a credential
    intro lookup hlookup hlacks
    obtain ⟨failure, hfailure⟩ := exists_resolution_eq_error_iff.mpr ⟨lookup, hlookup, hlacks⟩
    rw [hcredential] at hfailure
    cases hfailure
  · rintro ⟨-, credential, hcredential, hlimits⟩
    obtain ⟨fault, hexceeded⟩ := Exchange.exists_firstExceeded_iff.mpr hlimits
    exact ⟨fault, exchange_eq_unusable_iff.mpr ⟨credential, hcredential, hexceeded⟩⟩

end Session

/-- An alert is one of two, by the kind of the abort. -/
theorem Abort.exists_alert_iff {α : Type} {result : Except Abort α} {octets : Bytes} :
    (∃ abort, result = .error abort ∧ abort.alert.encode = octets) ↔
      octets = [2, 40] ∧ (∃ failure, result = .error (.unresolved failure)) ∨
        octets = [2, 80] ∧ ∃ fault, result = .error (.unusable fault) := by
  constructor
  · rintro ⟨abort, habort, rfl⟩
    cases abort with
    | unresolved failure => exact .inl ⟨rfl, failure, habort⟩
    | unusable fault => exact .inr ⟨rfl, fault, habort⟩
  · rintro (⟨rfl, failure, hfailure⟩ | ⟨rfl, fault, hfault⟩)
    · exact ⟨_, hfailure, rfl⟩
    · exact ⟨_, hfault, rfl⟩

/-- **How an exchange ends.**  It succeeds exactly with a credential that is within its limits.  The
message is then the octets of the identity alone after their number as a 16-bit word, and the
premaster secret has what stands beside the key, and the key, each after its own length.  It is
unresolved exactly when a lookup came back empty, and unusable exactly when every lookup was
answered and a limit is exceeded, with the fault of the first.  The peer is told which of the two,
and no more. -/
theorem exchangeKeys_ends (config : ClientConfig) (other : Premaster.Other) (session : Session)
    (store : CredentialStore) :
    let word (n : Nat) : Bytes := [UInt8.ofNat (n / 256), UInt8.ofNat n]
    let encoded (text : String) : Bytes := text.toList.flatMap String.utf8EncodeChar
    let limit := config.base.maxIdentityLength
    let resolved := ((session.findCredential config.sni).perform store).result
    let outcome := (session.exchangeKeys config other).perform store
    (∀ exchange, outcome.result = .ok exchange ↔
        ∃ credential, resolved = .ok credential ∧ Exchange.WithinLimits limit other credential ∧
          exchange.principal = credential.principal ∧
          exchange.message =
            word (encoded credential.principal.identity).length
              ++ encoded credential.principal.identity ∧
          exchange.premaster =
            word (other.beside credential.key).length ++ other.beside credential.key
              ++ (word credential.key.bytes.length ++ credential.key.bytes)) ∧
      ((∃ failure, outcome.result = .error (.unresolved failure)) ↔
        ∃ lookup ∈ outcome.trace.lookups, store.Lacks lookup) ∧
      ((∃ fault, outcome.result = .error (.unusable fault)) ↔
        (∀ lookup ∈ outcome.trace.lookups, ¬store.Lacks lookup) ∧
          ∃ credential, resolved = .ok credential ∧
            ¬Exchange.WithinLimits limit other credential) ∧
      (∀ fault, outcome.result = .error (.unusable fault) ↔
        ∃ credential, resolved = .ok credential ∧
          Exchange.FirstExceeded limit other credential fault) ∧
      ∀ octets, (∃ abort, outcome.result = .error abort ∧ abort.alert.encode = octets) ↔
        octets = [2, 40] ∧ (∃ failure, outcome.result = .error (.unresolved failure)) ∨
          octets = [2, 80] ∧ ∃ fault, outcome.result = .error (.unusable fault) := by
  intro word encoded limit resolved outcome
  have hresolved : resolved = session.resolution config.sni store :=
    congrArg Outcome.result (session.perform_findCredential config.sni store)
  have hresult : outcome.result = session.exchange config other store :=
    congrArg Outcome.result (session.perform_exchangeKeys config other store)
  have hlookups : outcome.trace.lookups = session.lookups config.sni store :=
    congrArg (·.trace.lookups) (session.perform_exchangeKeys config other store)
  rw [hresolved, hresult, hlookups]
  refine ⟨?_, ?_, ?_, ?_, ?_⟩
  · rintro ⟨principal, message, premaster⟩
    rw [Session.exchange_eq_ok_iff_withinLimits]
    simp only [Exchange.mk.injEq, Wire.utf8_eq_flatMap]
    rfl
  · exact Session.exists_exchange_eq_unresolved_iff
  · exact Session.exists_exchange_eq_unusable_iff
  · intro fault
    exact Session.exchange_eq_unusable_iff
  · intro octets
    exact Abort.exists_alert_iff

end PskHandshake
