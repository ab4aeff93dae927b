/-
Which principals share a name.

A name does not say where a host ends, since a colon may stand in a virtual host and in an identity
as well as between the two.  `Principal.Shadows` says how the name of one principal comes to be that
of another, whose scope is a virtual host: the first has no such scope, and its identity begins with
the host of the other; or both have, and one host goes on, after a colon, where the other one ends.
Two principals for which virtual hosts play no part share a name only if they are the same.

* `Principal.name_eq_name_iff` — different principals share a name in these two ways only;
* `Principal.Shadows.identity_ne`, `Principal.Shadows.not_colonFree` — neither is possible for one
  identity, or without a colon in front of the one that ends the host;
* `resolved_name_eq_name_iff` — the same of the principals that sessions resolve to;
* `resolved_names_coincide` — three sessions with one name.
-/
import PskHandshake.Proofs.Resolution
import PskHandshake.Proofs.Sni.Run
import PskHandshake.Proofs.Store.History
import PskHandshake.Store

namespace PskHandshake

/-! ### Texts with a colon between them -/

/-- Two lists that are cut at a separator are cut at the same place, or one is cut at a separator
inside the part that the other has after its own. -/
theorem append_cons_eq_append_cons_iff {α : Type} {sep : α} {a b c d : List α} :
    a ++ sep :: b = c ++ sep :: d ↔
      a = c ∧ b = d ∨ (∃ rest, c = a ++ sep :: rest ∧ b = rest ++ sep :: d) ∨
        ∃ rest, a = c ++ sep :: rest ∧ d = rest ++ sep :: b := by
  rw [List.append_eq_append_iff]
  constructor
  -- what one part has beyond the other is nothing, or it begins with the separator
  · rintro (⟨_ | ⟨x, rest⟩, rfl, h⟩ | ⟨_ | ⟨x, rest⟩, rfl, h⟩)
    · exact .inl ⟨(List.append_nil a).symm, (List.cons.inj h).2⟩
    · obtain ⟨rfl, rfl⟩ := List.cons.inj h
      exact .inr (.inl ⟨rest, rfl, rfl⟩)
    · exact .inl ⟨List.append_nil c, (List.cons.inj h).2.symm⟩
    · obtain ⟨rfl, rfl⟩ := List.cons.inj h
      exact .inr (.inr ⟨rest, rfl, rfl⟩)
  · rintro (⟨rfl, rfl⟩ | ⟨rest, rfl, rfl⟩ | ⟨rest, rfl, rfl⟩)
    · exact .inl ⟨[], (List.append_nil a).symm, rfl⟩
    · exact .inl ⟨sep :: rest, rfl, rfl⟩
    · exact .inr ⟨sep :: rest, rfl, rfl⟩

theorem append_colon_eq_append_colon_iff {a b c d : String} :
    a ++ ":" ++ b = c ++ ":" ++ d ↔
      a = c ∧ b = d ∨ (∃ rest, c = a ++ ":" ++ rest ∧ b = rest ++ ":" ++ d) ∨
        ∃ rest, a = c ++ ":" ++ rest ∧ d = rest ++ ":" ++ b := by
  have htoList : ∀ s t : String, (s ++ ":" ++ t).toList = s.toList ++ ':' :: t.toList := by
    intro s t
    simp
  constructor
  · intro h
    rw [← String.toList_inj, htoList, htoList] at h
    obtain ⟨hhost, hrest⟩ | ⟨rest, hhost, hrest⟩ | ⟨rest, hhost, hrest⟩ :=
      append_cons_eq_append_cons_iff.mp h
    · exact .inl ⟨String.toList_inj.mp hhost, String.toList_inj.mp hrest⟩
    · rw [← String.toList_ofList (l := rest), ← htoList, String.toList_inj] at hhost hrest
      exact .inr (.inl ⟨_, hhost, hrest⟩)
    · rw [← String.toList_ofList (l := rest), ← htoList, String.toList_inj] at hhost hrest
      exact .inr (.inr ⟨_, hhost, hrest⟩)
  · rintro (⟨rfl, rfl⟩ | ⟨rest, rfl, rfl⟩ | ⟨rest, rfl, rfl⟩)
    · rfl
    · simp only [String.append_assoc]
    · simp only [String.append_assoc]

namespace Principal

/-- A name that the first principal owes to a colon of its own identity. -/
inductive Shadows : Principal → Principal → Prop
  | agnostic (host : Option String) (identity : String) :
      Shadows ⟨.hostAgnostic, host.getD "" ++ ":" ++ identity⟩ ⟨.hostScoped host, identity⟩
  | hosts {host host' : Option String} {rest : String} (identity : String) :
      host'.getD "" = host.getD "" ++ ":" ++ rest →
        Shadows ⟨.hostScoped host, rest ++ ":" ++ identity⟩ ⟨.hostScoped host', identity⟩

/-- No colon stands in what the name has in front of the identity, or in an identity that has
nothing in front of it. -/
def ColonFree (principal : Principal) : Prop :=
  match principal.scope with
  | .hostAgnostic => ':' ∉ principal.identity.toList
  | .hostScoped host => ':' ∉ (host.getD "").toList

variable {p q : Principal}

theorem Shadows.name_eq (h : Shadows p q) : p.name = q.name := by
  cases h with
  | agnostic host identity => rfl
  | hosts identity hhost =>
    simp only [name]
    rw [hhost]
    simp only [String.append_assoc]

/-- Principals with one identity have different names, unless they are the same. -/
theorem Shadows.identity_ne (h : Shadows p q) : p.identity ≠ q.identity := by
  intro hidentity
  have hlength := congrArg String.length hidentity
  cases h with
  | agnostic host identity => simp [String.length_append] at hlength
  | hosts identity hhost => simp [String.length_append] at hlength

/-- It takes a colon in the place where a name is read as having a host. -/
theorem Shadows.not_colonFree (h : Shadows p q) : ¬(p.ColonFree ∧ q.ColonFree) := by
  rintro ⟨hp, hq⟩
  cases h with
  | agnostic host identity => simp [ColonFree] at hp
  | hosts identity hhost => simp [ColonFree, hhost] at hq

/-- What stands for a missing host is no host. -/
theorem eq_of_getD_eq {host host' : Option String} (h : host ≠ some "") (h' : host' ≠ some "")
    (hget : host.getD "" = host'.getD "") : host = host' := by
  rcases host with _ | host
  · rcases host' with _ | host'
    · rfl
    · exact absurd (congrArg some hget.symm) h'
  · rcases host' with _ | host'
    · exact absurd (congrArg some hget) h
    · exact congrArg some hget

/-- Different principals share a name when one shadows the other, and only then; a host is not the
empty text. -/
theorem name_eq_name_iff (hp : p.scope.virtualHost? ≠ some "")
    (hq : q.scope.virtualHost? ≠ some "") :
    p.name = q.name ↔ p = q ∨ Shadows p q ∨ Shadows q p := by
  constructor
  · obtain ⟨_ | host, identity⟩ := p
    · obtain ⟨_ | host', identity'⟩ := q
      · rintro (rfl : identity = identity')
        exact .inl rfl
      · rintro (rfl : identity = host'.getD "" ++ ":" ++ identity')
        exact .inr (.inl (.agnostic host' identity'))
    · obtain ⟨_ | host', identity'⟩ := q
      · rintro (rfl : host.getD "" ++ ":" ++ identity = identity')
        exact .inr (.inr (.agnostic host identity))
      · intro h
        obtain ⟨hhost, rfl⟩ | ⟨rest, hhost, rfl⟩ | ⟨rest, hhost, rfl⟩ :=
          append_colon_eq_append_colon_iff.mp h
        · -- a missing host reads as the empty text, which no host is
          obtain rfl : host = host' := eq_of_getD_eq hp hq hhost
          exact .inl rfl
        · exact .inr (.inl (.hosts identity' hhost))
        · exact .inr (.inr (.hosts identity hhost))
  · rintro (rfl | h | h)
    · rfl
    · exact h.name_eq
    · exact h.name_eq.symm

end Principal

/-! ### The principals of resolutions -/

theorem Session.virtualHost?_of_resolution {sni : Bool} {session : Session}
    {store : CredentialStore} {credential : Credential}
    (hnames : ∀ names ∈ session.serverNames, names.Reachable)
    (h : session.resolution sni store = .ok credential) :
    credential.principal.scope.virtualHost? ≠ some "" := by
  intro hempty
  rw [(Session.resolution_eq_ok_iff.mp h).1] at hempty
  obtain ⟨-, hnone⟩ | ⟨names, hsome, -, hname⟩ := Session.realm_of_principalScope hempty
  · contradiction
  · exact ((hnames names hsome).wellFormed.canonical_of_hostName? hname).ne_empty rfl

theorem MemoryStore.findCredential_of_rows {store : MemoryStore} {sni : Bool} {session : Session}
    {host : Option String} {identity : String} {key : SecretKey}
    (hhost : hostOf? (session.realm sni) = some host)
    (hidentity : store.peers[(host, session.peer)]? = some identity)
    (hkey : store.keys[(host, identity)]? = some key) :
    ((session.findCredential sni).perform store.toCredentialStore).result =
      .ok ⟨⟨session.principalScope sni, identity⟩, key⟩ := by
  rw [Session.perform_findCredential]
  refine Session.resolution_eq_ok_iff.mpr ⟨rfl, ?_, ?_⟩
  · exact identity_eq_some_iff.mpr ⟨host, hhost, hidentity⟩
  · exact key_eq_some_iff.mpr ⟨host, hhost, hkey⟩

/-- **Whom a name stands for.**  Two sessions resolve to principals with one name exactly if these
are one principal, or one shadows the other.  So the name tells principals with one identity apart,
and all principals without a colon in a host or in an identity outside the virtual hosts. -/
theorem resolved_name_eq_name_iff {sni sni' : Bool} {session session' : Session}
    {store store' : CredentialStore} {credential credential' : Credential}
    (hnames : ∀ names ∈ session.serverNames, names.Reachable)
    (hnames' : ∀ names ∈ session'.serverNames, names.Reachable)
    (h : ((session.findCredential sni).perform store).result = .ok credential)
    (h' : ((session'.findCredential sni').perform store').result = .ok credential') :
    let p := credential.principal
    let q := credential'.principal
    (p.name = q.name ↔ p = q ∨ p.Shadows q ∨ q.Shadows p) ∧
      (p.identity = q.identity → p.name = q.name → p = q) ∧
      (p.ColonFree → q.ColonFree → p.name = q.name → p = q) := by
  intro p q
  rw [Session.perform_findCredential] at h h'
  have hiff : p.name = q.name ↔ p = q ∨ p.Shadows q ∨ q.Shadows p :=
    Principal.name_eq_name_iff (Session.virtualHost?_of_resolution hnames h)
      (Session.virtualHost?_of_resolution hnames' h')
  refine ⟨hiff, ?_, ?_⟩
  · intro hidentity hname
    obtain hsame | hshadows | hshadows := hiff.mp hname
    · exact hsame
    · exact absurd hidentity hshadows.identity_ne
    · exact absurd hidentity.symm hshadows.identity_ne
  · intro hpfree hqfree hname
    obtain hsame | hshadows | hshadows := hiff.mp hname
    · exact hsame
    · exact absurd ⟨hpfree, hqfree⟩ hshadows.not_colonFree
    · exact absurd ⟨hqfree, hpfree⟩ hshadows.not_colonFree

/-- One store has one identity for a peer everywhere, and the names still differ. -/
theorem resolved_name_eq_name_iff_fixed :
    let store : CredentialStore := (FixedStore.mk "dev" ⟨[1, 2]⟩).toCredentialStore
    let session : Session := { peer := .ipv4 ⟨10, 0, 0, 1⟩ 5684 }
    let session' : Session := { session with serverNames := some ⟨[.host "a.example"]⟩ }
    ∃ credential credential',
      ((session.findCredential false).perform store).result = .ok credential ∧
        ((session'.findCredential true).perform store).result = .ok credential' ∧
        credential.principal.name ≠ credential'.principal.name := by
  intro store session session'
  have hnames : ∀ names ∈ session.serverNames, names.Reachable := by simp [session]
  have hnames' : ∀ names ∈ session'.serverNames, names.Reachable := by
    intro names hsome
    rw [← Option.some_inj.mp hsome]
    exact ⟨.hostName "a.example", [], by decide +kernel⟩
  have h : ((session.findCredential false).perform store).result =
      .ok ⟨⟨.hostAgnostic, "dev"⟩, ⟨[1, 2]⟩⟩ := by
    rw [Session.perform_findCredential, Session.resolution_eq_ok_iff]
    exact ⟨rfl, rfl, rfl⟩
  have h' : ((session'.findCredential true).perform store).result =
      .ok ⟨⟨.hostScoped (some "a.example"), "dev"⟩, ⟨[1, 2]⟩⟩ := by
    rw [Session.perform_findCredential, Session.resolution_eq_ok_iff]
    exact ⟨rfl, rfl, rfl⟩
  obtain ⟨-, hsame, -⟩ := resolved_name_eq_name_iff hnames hnames' h h'
  exact ⟨_, _, h, h', fun hname => absurd (hsame rfl hname) (by simp)⟩

/-- A name does not tell realms apart: in one store, sessions resolve to a principal outside the
virtual hosts and to principals of two hosts, all with one name. -/
theorem resolved_names_coincide :
    let peer : Endpoint := .ipv4 ⟨10, 0, 0, 1⟩ 5684
    let history : List Mutation :=
      [.addPeer none peer "a:b:c", .setKey none "a:b:c" ⟨[1]⟩,
        .addPeer (some "a") peer "b:c", .setKey (some "a") "b:c" ⟨[2]⟩,
        .addPeer (some "a:b") peer "c", .setKey (some "a:b") "c" ⟨[3]⟩]
    let store : CredentialStore := (MemoryStore.ofHistory history).toCredentialStore
    let plain : Session := { peer }
    let within (host : String) : Session := { peer, serverNames := some ⟨[.host host]⟩ }
    ∃ atNone atA atAB : Credential,
      ((plain.findCredential false).perform store).result = .ok atNone ∧
        plain.requesting "a" = .ok (within "a") ∧
        (((within "a").findCredential true).perform store).result = .ok atA ∧
        plain.requesting "a:b" = .ok (within "a:b") ∧
        (((within "a:b").findCredential true).perform store).result = .ok atAB ∧
        atNone.principal.name = atA.principal.name ∧ atA.principal.name = atAB.principal.name ∧
        atNone.principal ≠ atA.principal ∧ atA.principal ≠ atAB.principal ∧
        atAB.principal ≠ atNone.principal := by
  intro peer history store plain within
  have hlower : "a".toLower = "a" ∧ "a:b".toLower = "a:b" := by decide +kernel
  have hpeers : (MemoryStore.ofHistory history).peers =
      ((Std.HashMap.insert ∅ (none, peer) "a:b:c").insert (some "a", peer) "b:c").insert
        (some "a:b", peer) "c" := by
    simp [history, MemoryStore.ofHistory, MemoryStore.apply, MemoryStore.setKey,
      MemoryStore.addPeer, MemoryStore.fold, hlower]
  have hkeys : (MemoryStore.ofHistory history).keys =
      ((Std.HashMap.insert ∅ (none, "a:b:c") ⟨[1]⟩).insert (some "a", "b:c") ⟨[2]⟩).insert
        (some "a:b", "c") ⟨[3]⟩ := by
    simp [history, MemoryStore.ofHistory, MemoryStore.apply, MemoryStore.setKey,
      MemoryStore.addPeer, MemoryStore.fold, hlower]
  have hatNone : ((plain.findCredential false).perform store).result =
      .ok ⟨⟨.hostAgnostic, "a:b:c"⟩, ⟨[1]⟩⟩ := by
    refine MemoryStore.findCredential_of_rows rfl ?_ ?_
    · simp only [hpeers, Std.HashMap.getElem?_insert]
      simp [plain]
    · simp only [hkeys, Std.HashMap.getElem?_insert]
      simp
  have hatA : (((within "a").findCredential true).perform store).result =
      .ok ⟨⟨.hostScoped (some "a"), "b:c"⟩, ⟨[2]⟩⟩ := by
    refine MemoryStore.findCredential_of_rows rfl ?_ ?_
    · simp only [hpeers, Std.HashMap.getElem?_insert]
      simp [within]
    · simp only [hkeys, Std.HashMap.getElem?_insert]
      simp
  have hatAB : (((within "a:b").findCredential true).perform store).result =
      .ok ⟨⟨.hostScoped (some "a:b"), "c"⟩, ⟨[3]⟩⟩ := by
    refine MemoryStore.findCredential_of_rows rfl ?_ ?_
    · simp only [hpeers, Std.HashMap.getElem?_insert]
      simp [within]
    · simp only [hkeys, Std.HashMap.getElem?_insert]
      simp
  exact ⟨_, _, _, hatNone, by decide +kernel, hatA, by decide +kernel, hatAB, by decide +kernel,
    by decide +kernel, by decide, by decide, by decide⟩

end PskHandshake
