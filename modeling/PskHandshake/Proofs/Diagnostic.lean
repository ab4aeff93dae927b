/-
What a diagnostic tells of a search.

When no identity was found, the diagnostic names the peer and the virtual host.  The text of an
endpoint holds no comma, so the first comma ends it, whatever the host after it holds; and an
endpoint is known by its text.  When no key was found, the diagnostic names the identity in place of
the peer.

* `Unresolved.diagnostic_identity_eq_iff` — when two searches without an identity have one
  diagnostic;
* `Unresolved.diagnostic_identity_ne_key` — the diagnostic tells what was missing;
* `Unresolved.diagnostic_key_congr` — what a diagnostic without a key depends on;
* `diagnostic_tells_searches_apart` — the same of the failures of sessions.
-/
import PskHandshake.Proofs.Address.RoundTrip
import PskHandshake.Proofs.Resolution

namespace PskHandshake

namespace Unresolved

variable {peer peer' : Endpoint} {scope scope' : Scope} {identity : String}

/-! ### Searches without an identity -/

/-- No endpoint has a comma in its text. -/
theorem comma_notMem_chars (endpoint : Endpoint) : ',' ∉ endpoint.chars := by
  intro hmem
  exact absurd (Endpoint.hexDigit_or_symbol_of_mem_chars hmem) (by decide)

/-- What a diagnostic says after the peer. -/
def closing (scope : Scope) : String :=
  (if scope.isHostScoped then ", virtual host: " ++ hostText scope.virtualHost? else "") ++ "]"

theorem diagnostic_identity (peer : Endpoint) (scope : Scope) :
    diagnostic ⟨peer, scope, .identity⟩ =
      "No Identity found for peer [address: " ++ (peer.text ++ closing scope) := by
  cases scope with
  | hostAgnostic => simp [diagnostic, closing, Scope.isHostScoped, String.append_assoc]
  | hostScoped host =>
    simp [diagnostic, closing, Scope.isHostScoped, Scope.virtualHost?, String.append_assoc]

/-- Up to the first comma a diagnostic is about the peer. -/
theorem span_chars_append_closing (peer : Endpoint) (scope : Scope) :
    (peer.chars ++ (closing scope).toList).span (· != ',') =
      match scope with
      | .hostAgnostic => (peer.chars ++ [']'], [])
      | .hostScoped host =>
        (peer.chars, ',' :: (" virtual host: ".toList ++ ((hostText host).toList ++ [']']))) := by
  have hcomma := comma_notMem_chars peer
  cases scope with
  | hostAgnostic =>
    have hbracket : (closing .hostAgnostic).toList = [']'] := by
      simp [closing, Scope.isHostScoped]
    rw [hbracket]
    exact span_of_notMem (by simp [hcomma])
  | hostScoped host =>
    have hparts : (closing (.hostScoped host)).toList =
        ',' :: (" virtual host: ".toList ++ ((hostText host).toList ++ [']'])) := by
      simp [closing, Scope.isHostScoped, Scope.virtualHost?]
    rw [hparts]
    exact span_append_symbol hcomma _

/-- Searches without an identity have one diagnostic when they are for one peer, and at one virtual
host or both without; a missing host reads as `none`. -/
theorem diagnostic_identity_eq_iff :
    diagnostic ⟨peer, scope, .identity⟩ = diagnostic ⟨peer', scope', .identity⟩ ↔
      peer = peer' ∧ scope.isHostScoped = scope'.isHostScoped ∧
        scope.virtualHost?.getD "none" = scope'.virtualHost?.getD "none" := by
  rw [diagnostic_identity, diagnostic_identity, String.append_right_inj]
  constructor
  · intro h
    have hchars :
        peer.chars ++ (closing scope).toList = peer'.chars ++ (closing scope').toList := by
      rw [← String.toList_inj, String.toList_append, String.toList_append] at h
      simpa [Endpoint.text] using h
    have hspan := congrArg (List.span (· != ',')) hchars
    rw [span_chars_append_closing, span_chars_append_closing] at hspan
    have hpeer : peer.chars = peer'.chars → peer = peer' := fun hsame =>
      Endpoint.text_injective (congrArg String.ofList hsame)
    -- there is a comma after the peer just when the search was at a virtual host
    cases scope with
    | hostAgnostic =>
      cases scope' with
      | hostAgnostic =>
        have hsame := (Prod.mk.inj hspan).1
        exact ⟨hpeer (List.append_cancel_right hsame), rfl, rfl⟩
      | hostScoped host' => cases (Prod.mk.inj hspan).2
    | hostScoped host =>
      cases scope' with
      | hostAgnostic => cases (Prod.mk.inj hspan).2
      | hostScoped host' =>
        obtain ⟨hsame, hrest⟩ := Prod.mk.inj hspan
        have hhost := List.append_cancel_right (List.append_cancel_left (List.cons.inj hrest).2)
        exact ⟨hpeer hsame, rfl, String.toList_inj.mp hhost⟩
  · rintro ⟨rfl, hscoped, hhost⟩
    rw [closing, closing, hscoped, hostText, hostText, hhost]

/-! ### Searches without a key -/

theorem exists_diagnostic_key (peer : Endpoint) (scope : Scope) (identity : String) :
    ∃ rest, diagnostic ⟨peer, scope, .key identity⟩ = "No pre-shared key found for [" ++ rest := by
  cases scope with
  | hostAgnostic =>
    have hparts : "No pre-shared key found for [identity: " =
        "No pre-shared key found for [" ++ "identity: " := rfl
    refine ⟨"identity: " ++ identity ++ "]", ?_⟩
    simp only [diagnostic, hparts, String.append_assoc]
  | hostScoped host =>
    have hparts : "No pre-shared key found for [virtual host: " =
        "No pre-shared key found for [" ++ "virtual host: " := rfl
    refine ⟨"virtual host: " ++ hostText host ++ ", identity: " ++ identity ++ "]", ?_⟩
    simp only [diagnostic, hparts, String.append_assoc]

/-- The diagnostic tells what was missing. -/
theorem diagnostic_identity_ne_key :
    diagnostic ⟨peer, scope, .identity⟩ ≠ diagnostic ⟨peer', scope', .key identity⟩ := by
  obtain ⟨rest, hkey⟩ := exists_diagnostic_key peer' scope' identity
  rw [diagnostic_identity, hkey]
  intro h
  -- the texts part at their fourth character
  have hfourth := congrArg (fun text : String => text.toList[3]?) h
  simp only [String.toList_append] at hfourth
  rw [List.getElem?_append_left (by decide), List.getElem?_append_left (by decide)] at hfourth
  exact absurd hfourth (by decide)

/-- The peer plays no part in the diagnostic of a search without a key. -/
theorem diagnostic_key_congr (hscoped : scope.isHostScoped = scope'.isHostScoped)
    (hhost : scope.virtualHost?.getD "none" = scope'.virtualHost?.getD "none") :
    diagnostic ⟨peer, scope, .key identity⟩ = diagnostic ⟨peer', scope', .key identity⟩ := by
  cases scope with
  | hostAgnostic =>
    cases scope' with
    | hostAgnostic => rfl
    | hostScoped host' => cases hscoped
  | hostScoped host =>
    cases scope' with
    | hostAgnostic => cases hscoped
    | hostScoped host' =>
      exact congrArg (fun text => "No pre-shared key found for [virtual host: " ++ text
        ++ ", identity: " ++ identity ++ "]") hhost

end Unresolved

/-- **Diagnostics identify the search.**  Two sessions whose searches found no identity have one
diagnostic exactly if their peers are the same endpoint, and they were searched for at the same
virtual host, or both at none; a host that is missing reads as `none`.  A search that found no key
never has the diagnostic of one that found no identity, and its own depends on the virtual host and
on the identity, and not on the peer. -/
theorem diagnostic_tells_searches_apart {sni sni' : Bool} {session session' : Session}
    {store store' : CredentialStore} {failure failure' : Unresolved}
    (h : ((session.findCredential sni).perform store).result = .error failure)
    (h' : ((session'.findCredential sni').perform store').result = .error failure') :
    let scope := (session.realm sni).scope
    let scope' := (session'.realm sni').scope
    (failure.peer = session.peer ∧ failure.scope = scope ∧
        failure'.peer = session'.peer ∧ failure'.scope = scope') ∧
      (failure.missing = .identity → failure'.missing = .identity →
        (failure.diagnostic = failure'.diagnostic ↔
          session.peer = session'.peer ∧ scope.isHostScoped = scope'.isHostScoped ∧
            scope.virtualHost?.getD "none" = scope'.virtualHost?.getD "none")) ∧
      (∀ identity, failure.missing = .identity → failure'.missing = .key identity →
        failure.diagnostic ≠ failure'.diagnostic) ∧
      (∀ identity, failure.missing = .key identity → failure'.missing = .key identity →
        scope.isHostScoped = scope'.isHostScoped →
          scope.virtualHost?.getD "none" = scope'.virtualHost?.getD "none" →
            failure.diagnostic = failure'.diagnostic) := by
  intro scope scope'
  rw [Session.perform_findCredential] at h h'
  obtain ⟨hpeer, hscope, -⟩ := Session.resolution_eq_error_iff.mp h
  obtain ⟨hpeer', hscope', -⟩ := Session.resolution_eq_error_iff.mp h'
  obtain ⟨peer, searched, missing⟩ := failure
  obtain ⟨peer', searched', missing'⟩ := failure'
  dsimp only at hpeer hscope hpeer' hscope' ⊢
  subst hpeer hscope hpeer' hscope'
  refine ⟨⟨rfl, rfl, rfl, rfl⟩, ?_, ?_, ?_⟩
  · rintro rfl rfl
    exact Unresolved.diagnostic_identity_eq_iff
  · rintro identity rfl rfl
    exact Unresolved.diagnostic_identity_ne_key
  · rintro identity rfl rfl hscoped hhost
    exact Unresolved.diagnostic_key_congr hscoped hhost

/-- Server names without a host name, and with the host name `none`, have one diagnostic; any other
host has a diagnostic of its own, and the peer matters until its identity is found. -/
theorem diagnostic_tells_searches_apart_none :
    let mapped : Endpoint := .ipv6 ⟨[0, 0, 0, 0, 0, 0xffff, 0x0102, 0x0304], rfl⟩ 5684 7
    let plain : Endpoint := .ipv4 ⟨1, 2, 3, 4⟩ 5684
    let empty : CredentialStore := ⟨fun _ _ => none, fun _ _ => none⟩
    let keyless : CredentialStore := ⟨fun _ _ => some "dev", fun _ _ => none⟩
    let noHost (peer : Endpoint) : Session := { peer, serverNames := some ⟨[.other 7 [1]]⟩ }
    let atHost (peer : Endpoint) (host : String) : Session :=
      { peer, serverNames := some ⟨[.host host]⟩ }
    let failed (session : Session) (store : CredentialStore) (failure : Unresolved) : Prop :=
      ((session.findCredential true).perform store).result = .error failure
    let atNoHost : Unresolved := ⟨mapped, .hostScoped none, .identity⟩
    let atHostNone : Unresolved := ⟨mapped, .hostScoped (some "none"), .identity⟩
    let atHostA : Unresolved := ⟨mapped, .hostScoped (some "a.example"), .identity⟩
    let atHostB : Unresolved := ⟨mapped, .hostScoped (some "b.example"), .identity⟩
    let ofPlain : Unresolved := ⟨plain, .hostScoped none, .identity⟩
    let keyMapped : Unresolved := ⟨mapped, .hostScoped (some "none"), .key "dev"⟩
    let keyPlain : Unresolved := ⟨plain, .hostScoped none, .key "dev"⟩
    failed (noHost mapped) empty atNoHost ∧ failed (atHost mapped "none") empty atHostNone ∧
      failed (atHost mapped "a.example") empty atHostA ∧
      failed (atHost mapped "b.example") empty atHostB ∧ failed (noHost plain) empty ofPlain ∧
      failed (atHost mapped "none") keyless keyMapped ∧ failed (noHost plain) keyless keyPlain ∧
      atNoHost.diagnostic = atHostNone.diagnostic ∧ atHostA.diagnostic ≠ atHostB.diagnostic ∧
      atNoHost.diagnostic ≠ atHostA.diagnostic ∧ atNoHost.diagnostic ≠ ofPlain.diagnostic ∧
      atNoHost.diagnostic ≠ keyPlain.diagnostic ∧ keyMapped.diagnostic = keyPlain.diagnostic := by
  intro mapped plain empty keyless noHost atHost failed atNoHost atHostNone atHostA atHostB ofPlain
    keyMapped keyPlain
  have hatNoHost : failed (noHost mapped) empty atNoHost := rfl
  have hatHostNone : failed (atHost mapped "none") empty atHostNone := rfl
  have hatHostA : failed (atHost mapped "a.example") empty atHostA := rfl
  have hatHostB : failed (atHost mapped "b.example") empty atHostB := rfl
  have hofPlain : failed (noHost plain) empty ofPlain := rfl
  have hkeyMapped : failed (atHost mapped "none") keyless keyMapped := rfl
  have hkeyPlain : failed (noHost plain) keyless keyPlain := rfl
  obtain ⟨-, hsame, -⟩ := diagnostic_tells_searches_apart hatNoHost hatHostNone
  obtain ⟨-, hhosts, -⟩ := diagnostic_tells_searches_apart hatHostA hatHostB
  obtain ⟨-, hmissing, -⟩ := diagnostic_tells_searches_apart hatNoHost hatHostA
  obtain ⟨-, hpeers, -⟩ := diagnostic_tells_searches_apart hatNoHost hofPlain
  obtain ⟨-, -, hsteps, -⟩ := diagnostic_tells_searches_apart hatNoHost hkeyPlain
  obtain ⟨-, -, -, hkeys⟩ := diagnostic_tells_searches_apart hkeyMapped hkeyPlain
  refine ⟨hatNoHost, hatHostNone, hatHostA, hatHostB, hofPlain, hkeyMapped, hkeyPlain,
    (hsame rfl rfl).mpr ⟨rfl, rfl, rfl⟩, ?_, ?_, ?_, hsteps "dev" rfl rfl,
    hkeys "dev" rfl rfl rfl rfl⟩
  · intro hdiagnostic
    exact absurd ((hhosts rfl rfl).mp hdiagnostic).2.2 (by decide)
  · intro hdiagnostic
    exact absurd ((hmissing rfl rfl).mp hdiagnostic).2.2 (by decide)
  · intro hdiagnostic
    exact absurd ((hpeers rfl rfl).mp hdiagnostic).1 (by decide)

end PskHandshake
