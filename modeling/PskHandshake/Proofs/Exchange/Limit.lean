/-
The limit on identities, from the settings to the exchange.

An identity has to fit two limits, that of its configuration and that of a vector, and a refusal
names the first of them alone.  No configuration is built with a limit that a vector cannot reach,
so the limit that is named is always the one that was exceeded.

* `IdentityField.encode_eq_ite_iff` — under which limits the limit of a vector never decides;
* `Session.exchange_eq_invalidConfig_iff` — when an exchange finds fault with its configuration;
* `ClientConfig.built_limit_decides` — which configurations settings build, and what their limit
  does.
-/
import PskHandshake.Proofs.Config
import PskHandshake.Proofs.Exchange.Ending
import PskHandshake.Store

namespace PskHandshake

namespace IdentityField

variable {limit : Nat}

theorem exists_utf8ByteSize_eq (size : Nat) :
    ∃ identity : String, identity.utf8ByteSize = size := by
  refine ⟨String.ofList (List.replicate size 'a'), ?_⟩
  have hchar : 'a'.utf8Size = 1 := rfl
  rw [← Wire.length_utf8, Wire.utf8_ofList, List.length_flatMap]
  simp [hchar]

/-- A limit decides alone which identities are refused, and what is said of them is true, exactly
when it is no more than a vector can hold. -/
theorem encode_eq_ite_iff :
    (∀ identity, encode identity limit =
        if limit < identity.utf8ByteSize then .error (.tooLong identity.utf8ByteSize limit)
        else .ok (Wire.vector16 (Wire.utf8 identity))) ↔
      limit ≤ Wire.maxUint16 := by
  constructor
  · intro halone
    by_contra hlarge
    -- the shortest identity that no vector holds is refused, though it is within the limit
    obtain ⟨identity, hsize⟩ := exists_utf8ByteSize_eq (Wire.maxUint16 + 1)
    have hshort : ¬limit < identity.utf8ByteSize := by omega
    have hrefused : encode identity limit = .error (.tooLong identity.utf8ByteSize limit) :=
      encode_eq_error_iff.mpr ⟨min_lt_iff.mpr (.inr (by omega)), rfl⟩
    rw [halone, if_neg hshort] at hrefused
    cases hrefused
  · intro hlimit identity
    split
    next hlong => exact encode_eq_error_iff.mpr ⟨min_lt_iff.mpr (.inl hlong), rfl⟩
    next hshort =>
      have hsize : identity.utf8ByteSize ≤ limit := Nat.le_of_not_lt hshort
      exact encode_eq_ok_iff_le_min.mpr ⟨le_min hsize (hsize.trans hlimit), rfl⟩

end IdentityField

/-- Of the limits of an exchange, only that on identities is a matter of its configuration. -/
theorem Exchange.firstExceeded_invalidConfig_iff {limit : Nat} {other : Premaster.Other}
    {credential : Credential} {detail : String} :
    FirstExceeded limit other credential ⟨.invalidConfig, detail⟩ ↔
      min limit Wire.maxUint16 < credential.principal.identity.utf8ByteSize ∧
        detail = "PSK identity of " ++ toString credential.principal.identity.utf8ByteSize
          ++ " bytes exceeds limit of " ++ toString limit := by
  constructor
  · intro h
    cases h with
    | identity hidentity => exact ⟨hidentity, rfl⟩
  · rintro ⟨hidentity, rfl⟩
    exact .identity hidentity

/-- An exchange finds fault with its configuration for a credential whose identity is too long,
whether or not its secrets are too long as well. -/
theorem Session.exchange_eq_invalidConfig_iff {config : ClientConfig} {other : Premaster.Other}
    {session : Session} {store : CredentialStore} {detail : String}
    (hlimit : config.base.maxIdentityLength ≤ Wire.maxUint16) :
    session.exchange config other store = .error (.unusable ⟨.invalidConfig, detail⟩) ↔
      ∃ credential, session.resolution config.sni store = .ok credential ∧
        config.base.maxIdentityLength < credential.principal.identity.utf8ByteSize ∧
          detail = "PSK identity of " ++ toString credential.principal.identity.utf8ByteSize
            ++ " bytes exceeds limit of " ++ toString config.base.maxIdentityLength := by
  rw [exchange_eq_unusable_iff]
  simp only [Exchange.firstExceeded_invalidConfig_iff, min_eq_left hlimit]

namespace ClientConfig

/-- **The limit of a built configuration is the real one.**  Settings build a configuration exactly
when the limit that was written last, or 128 if none was, is between 1 and 65535; it has this limit,
and server names are in use if that was said last.  Any other limit is refused as an invalid
configuration.  Under a configuration that was built, its limit alone decides which identities are
refused, and an exchange finds fault with the configuration exactly when the session has a
credential whose identity is longer than the limit, which is what the fault says. -/
theorem built_limit_decides (settings : List Setting) :
    let limit := requestedLimit settings
    (∀ config, build settings = .ok config ↔
        (1 ≤ limit ∧ limit ≤ 65535) ∧ config = ⟨⟨limit⟩, requestedSni settings⟩) ∧
      ((∃ detail, (build settings).mapError Error.toFault = .error ⟨.invalidConfig, detail⟩) ↔
        ¬(1 ≤ limit ∧ limit ≤ 65535)) ∧
      (∀ fault, (build settings).mapError Error.toFault = .error fault ↔
        LimitRefused limit fault) ∧
      ∀ config, build settings = .ok config →
        (∀ identity, IdentityField.encode identity limit =
          if limit < identity.utf8ByteSize then .error (.tooLong identity.utf8ByteSize limit)
          else .ok (Wire.vector16 (Wire.utf8 identity))) ∧
        ∀ (other : Premaster.Other) (session : Session) (store : CredentialStore) (detail : String),
          ((session.exchangeKeys config other).perform store).result =
              .error (.unusable ⟨.invalidConfig, detail⟩) ↔
            ∃ credential,
              ((session.findCredential config.sni).perform store).result = .ok credential ∧
                limit < credential.principal.identity.utf8ByteSize ∧
                  detail = "PSK identity of " ++ toString credential.principal.identity.utf8ByteSize
                    ++ " bytes exceeds limit of " ++ toString limit := by
  intro limit
  refine ⟨fun config => build_eq_ok_iff, ?_, fun fault => fault_of_build_iff, ?_⟩
  · simp only [fault_of_build_iff]
    exact exists_limitRefused_iff
  · intro config hbuild
    obtain ⟨⟨-, hlimit⟩, rfl⟩ := build_eq_ok_iff.mp hbuild
    refine ⟨IdentityField.encode_eq_ite_iff.mpr hlimit, ?_⟩
    intro other session store detail
    rw [Session.perform_exchangeKeys, Session.perform_findCredential]
    exact Session.exchange_eq_invalidConfig_iff hlimit

/-- The last limit replaces one that was never checked, and two characters of five octets exceed
it. -/
theorem built_limit_decides_umlaut :
    let settings : List Setting := [.base ⟨70000⟩, .sni false, .maxIdentityLength 4, .sni true]
    let store := (FixedStore.mk "ü€" ⟨[1, 2]⟩).toCredentialStore
    let session : Session := { peer := .ipv4 ⟨10, 0, 0, 1⟩ 5684 }
    build settings = .ok ⟨⟨4⟩, true⟩ ∧
      ((session.exchangeKeys ⟨⟨4⟩, true⟩ .zeros).perform store).result =
        .error (.unusable ⟨.invalidConfig, "PSK identity of 5 bytes exceeds limit of 4"⟩) := by
  intro settings store session
  obtain ⟨hbuilt, -, -, hdecides⟩ := built_limit_decides settings
  have hbuild : build settings = .ok ⟨⟨4⟩, true⟩ := (hbuilt _).mpr ⟨by decide, rfl⟩
  obtain ⟨-, hexchange⟩ := hdecides _ hbuild
  refine ⟨hbuild, (hexchange .zeros session store _).mpr ?_⟩
  refine ⟨⟨⟨.hostScoped none, "ü€"⟩, ⟨[1, 2]⟩⟩, ?_, ?_, ?_⟩
  · decide +kernel
  · decide +kernel
  · decide +kernel

end ClientConfig

end PskHandshake
