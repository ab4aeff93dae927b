/-
What the sample population resolves to.

An index keeps only its low 24 bits in the address of its peer, so in a large population later
indexes share a peer with earlier ones.  These are indexes of one virtual host, and each sets the
same two rows of the known peers again; no two indexes set the same key.

* `Sample.peer_eq_peer_iff` — which indexes share a peer;
* `Sample.peers_apply_mutations`, `Sample.keys_apply_mutations` — the rows after one more index;
* `Sample.peers_store_eq_some_iff`, `Sample.keys_store_eq_some_iff` — the rows of a population;
* `Sample.size_peers_store`, `Sample.size_keys_store` — how many there are;
* `Sample.store_resolves_last` — what the sessions with its peers resolve to.
-/
import PskHandshake.Proofs.PrincipalName
import PskHandshake.Proofs.Sni.Accepted
import PskHandshake.Proofs.Store.LastChange
import PskHandshake.Sample

namespace PskHandshake

/-! ### Sessions with a virtual host -/

namespace Session

variable {session session' : Session}

/-- The virtual host of a session is the one that is searched for and that the outcome names. -/
theorem realm_of_virtualHost {name : String} (h : session.virtualHost = some name) :
    MemoryStore.hostOf? (session.realm true) = some (some name) ∧
      session.principalScope true = .hostScoped (some name) ∧
        (session.realm true).scope = .hostScoped (some name) := by
  obtain ⟨names, hnames, hname⟩ := Option.bind_eq_some_iff.mp h
  rw [(realm_of_serverNames hnames).1, (realm_of_serverNames hnames).2, Realm.scope, hname]
  exact ⟨MemoryStore.hostOf?_virtualHost_eq_some_iff.mpr ⟨name, hname, rfl⟩, rfl, rfl⟩

/-- A session that requests a host is one with this host, in lower case, and with the same peer. -/
theorem virtualHost_of_requesting {text : String} (h : session.requesting text = .ok session') :
    session'.peer = session.peer ∧ session'.virtualHost = some text.toLower := by
  obtain ⟨names, hnames, rfl⟩ := Fallible.map_eq_ok_iff.mp h
  obtain ⟨entry, hentry, rfl⟩ := Fallible.map_eq_ok_iff.mp hnames
  obtain ⟨name, hname, rfl⟩ := Sni.Entry.ofHostOctets_eq_ok_iff.mp hentry
  obtain ⟨rfl, -⟩ := Sni.HostName.read_utf8_eq_ok_iff.mp hname
  exact ⟨rfl, rfl⟩

end Session

namespace Sample

open MemoryStore (fold)

variable {size i j : ℕ} {place : Option String}

/-! ### Peers, hosts and identities -/

/-- Indexes share a peer when their low 24 bits agree. -/
theorem peer_eq_peer_iff : peer i = peer j ↔ i ≡ j [MOD 2 ^ 24] := by
  simp only [peer, Endpoint.ipv4.injEq, Ipv4.mk.injEq, true_and, and_true, ← UInt8.toNat_inj,
    UInt8.toNat_ofNat', Nat.ModEq]
  omega

theorem host_congr (h : i ≡ j [MOD 2 ^ 24]) : host i = host j := by
  have hmod : i ≡ j [MOD hostCount] := h.of_dvd (by decide)
  rw [host, host, hmod]

theorem canonical_host (index : ℕ) : Sni.HostName.Canonical (host index) := by
  have hall : ∀ n : Fin hostCount,
      Sni.HostName.read (Wire.utf8 ("h" ++ toString n.val ++ ".example.com")) =
        .ok ("h" ++ toString n.val ++ ".example.com") := by
    decide +kernel
  exact hall ⟨index % hostCount, Nat.mod_lt _ (by decide)⟩

theorem numbered_injective (stem : String) :
    Function.Injective fun index : ℕ => stem ++ toString index := by
  intro i j h
  rw [String.append_right_inj] at h
  exact Nat.repr_injective h

/-- The octets of a key repeat the low 8 bits of its index. -/
theorem key_eq_replicate (length index : ℕ) :
    key length index = ⟨List.replicate length (UInt8.ofNat (index % 256))⟩ := by
  rw [key, ← UInt8.ofNat_mod_size]

/-! ### One more index -/

/-- An index is known outside the virtual hosts and at its own one. -/
def KnownAt (place : Option String) (index : ℕ) : Prop :=
  place = none ∨ place = some (host index)

/-- The identity of an index at a place where it is known. -/
def identityAt : Option String → ℕ → String
  | none => plainIdentity
  | some _ => scopedIdentity

/-- The key of that identity. -/
def keyAt : Option String → ℕ → SecretKey
  | none => key 16
  | some _ => key 32

theorem identityAt_injective (place : Option String) : Function.Injective (identityAt place) := by
  cases place with
  | none => exact numbered_injective "plain"
  | some name => exact numbered_injective "scoped"

instance (place : Option String) (index : ℕ) : Decidable (KnownAt place index) :=
  inferInstanceAs (Decidable (_ ∨ _))

/-- Indexes that share a peer are known at the same places. -/
theorem knownAt_congr (h : peer i = peer j) : KnownAt place i ↔ KnownAt place j := by
  rw [KnownAt, KnownAt, host_congr (peer_eq_peer_iff.mp h)]

theorem fold_some_host (index : ℕ) : fold (some (host index)) = some (host index) := by
  rw [fold, Option.map_some, (canonical_host index).toLower_eq]

/-- One index sets the row of its peer at its two places, and no other row of the known peers. -/
theorem peers_apply_mutations (store : MemoryStore) (index : ℕ) (endpoint : Endpoint) :
    ((mutations index).foldl MemoryStore.apply store).peers[(place, endpoint)]? =
      if KnownAt place index ∧ peer index = endpoint then some (identityAt place index)
      else store.peers[(place, endpoint)]? := by
  simp only [mutations, List.foldl_cons, List.foldl_nil, MemoryStore.peers_apply, fold_some_host]
  cases place with
  | none => simp [KnownAt, identityAt, fold]
  | some name => simp [KnownAt, identityAt, fold, eq_comm]

/-- One index sets the keys of its two identities, and no other. -/
theorem keys_apply_mutations (store : MemoryStore) (index : ℕ) (identity : String) :
    ((mutations index).foldl MemoryStore.apply store).keys[(place, identity)]? =
      if KnownAt place index ∧ identityAt place index = identity then some (keyAt place index)
      else store.keys[(place, identity)]? := by
  simp only [mutations, List.foldl_cons, List.foldl_nil, MemoryStore.keys_apply, fold_some_host]
  cases place with
  | none => simp [KnownAt, identityAt, keyAt, fold]
  | some name => simp [KnownAt, identityAt, keyAt, fold, eq_comm]

/-! ### The last index with a peer -/

section Last

variable {endpoint : Endpoint}

theorem exists_isGreatest (h : i < size) :
    ∃ last, IsGreatest {k | k < size ∧ peer k = peer i} last := by
  have hbdd : BddAbove {k | k < size ∧ peer k = peer i} := ⟨size, fun k hk => hk.1.le⟩
  exact ⟨_, Nat.sSup_mem ⟨i, h, rfl⟩ hbdd, fun k hk => le_csSup hbdd hk⟩

theorem isGreatest_of_peer_eq (h : peer size = endpoint) :
    IsGreatest {k | k < size + 1 ∧ peer k = endpoint} size :=
  ⟨⟨Nat.lt_succ_self size, h⟩, fun _ hk => Nat.le_of_lt_succ hk.1⟩

theorem setOf_peer_eq_of_ne (h : peer size ≠ endpoint) :
    {k | k < size + 1 ∧ peer k = endpoint} = {k | k < size ∧ peer k = endpoint} := by
  ext k
  refine and_congr_left fun hk => ⟨fun hlt => ?_, Nat.lt_succ_of_lt⟩
  refine lt_of_le_of_ne (Nat.le_of_lt_succ hlt) ?_
  rintro rfl
  exact h hk

end Last

/-! ### A population -/

theorem store_zero : store 0 = {} := rfl

theorem store_succ (size : ℕ) :
    store (size + 1) = (mutations size).foldl MemoryStore.apply (store size) := by
  rw [store, MemoryStore.ofHistory, List.range_succ, List.flatMap_append, List.foldl_append]
  simp only [List.flatMap_singleton]
  rfl

/-- A row of the known peers holds the identity of the last index that has the peer. -/
theorem peers_store_eq_some_iff {endpoint : Endpoint} {identity : String} :
    (store size).peers[(place, endpoint)]? = some identity ↔
      ∃ last, IsGreatest {k | k < size ∧ peer k = endpoint} last ∧ KnownAt place last ∧
        identityAt place last = identity := by
  induction size with
  | zero => simp [store_zero, IsGreatest]
  | succ size ih =>
    rw [store_succ, peers_apply_mutations]
    by_cases hpeer : peer size = endpoint
    · have hlast := isGreatest_of_peer_eq hpeer
      by_cases hplace : KnownAt place size
      · rw [if_pos ⟨hplace, hpeer⟩, Option.some_inj]
        constructor
        · intro hidentity
          exact ⟨size, hlast, hplace, hidentity⟩
        · rintro ⟨last, hlast', -, rfl⟩
          rw [hlast.unique hlast']
      · -- no index with this peer is known at the place, so there is no such row
        rw [if_neg fun h => hplace h.1, ih]
        constructor
        · rintro ⟨last, hlast', hplace', -⟩
          exact absurd ((knownAt_congr (hlast'.1.2.trans hpeer.symm)).mp hplace') hplace
        · rintro ⟨last, hlast', hplace', -⟩
          rw [hlast'.unique hlast] at hplace'
          exact absurd hplace' hplace
    · rw [if_neg fun h => hpeer h.2, ih, setOf_peer_eq_of_ne hpeer]

/-- A row of the keys holds the key of the one index that has the identity. -/
theorem keys_store_eq_some_iff {identity : String} {secret : SecretKey} :
    (store size).keys[(place, identity)]? = some secret ↔
      ∃ index < size, KnownAt place index ∧ identityAt place index = identity ∧
        keyAt place index = secret := by
  induction size with
  | zero => simp [store_zero]
  | succ size ih =>
    rw [store_succ, keys_apply_mutations]
    split
    next h =>
      obtain ⟨hplace, rfl⟩ := h
      rw [Option.some_inj]
      constructor
      · intro hsecret
        exact ⟨size, Nat.lt_succ_self size, hplace, rfl, hsecret⟩
      · rintro ⟨index, -, -, hidentity, rfl⟩
        rw [identityAt_injective place hidentity]
    next h =>
      rw [ih]
      constructor
      · rintro ⟨index, hlt, hindex⟩
        exact ⟨index, Nat.lt_succ_of_lt hlt, hindex⟩
      · rintro ⟨index, hlt, hplace, hidentity, hsecret⟩
        refine ⟨index, lt_of_le_of_ne (Nat.le_of_lt_succ hlt) ?_, hplace, hidentity, hsecret⟩
        rintro rfl
        exact h ⟨hplace, hidentity⟩

/-! ### How many rows there are -/

theorem mem_peers_store_iff {endpoint : Endpoint} :
    (place, endpoint) ∈ (store size).peers ↔
      ∃ index < size, KnownAt place index ∧ peer index = endpoint := by
  rw [Std.HashMap.mem_iff_isSome_getElem?, Option.isSome_iff_exists]
  constructor
  · rintro ⟨identity, hidentity⟩
    obtain ⟨last, ⟨⟨hlt, hpeer⟩, -⟩, hplace, -⟩ := peers_store_eq_some_iff.mp hidentity
    exact ⟨last, hlt, hplace, hpeer⟩
  · rintro ⟨index, hlt, hplace, rfl⟩
    obtain ⟨last, hlast⟩ := exists_isGreatest hlt
    have hplace' : KnownAt place last := (knownAt_congr hlast.1.2).mpr hplace
    exact ⟨_, peers_store_eq_some_iff.mpr ⟨last, hlast, hplace', rfl⟩⟩

theorem mem_keys_store_iff {identity : String} :
    (place, identity) ∈ (store size).keys ↔
      ∃ index < size, KnownAt place index ∧ identityAt place index = identity := by
  rw [Std.HashMap.mem_iff_isSome_getElem?, Option.isSome_iff_exists]
  constructor
  · rintro ⟨secret, hsecret⟩
    obtain ⟨index, hlt, hplace, hidentity, -⟩ := keys_store_eq_some_iff.mp hsecret
    exact ⟨index, hlt, hplace, hidentity⟩
  · rintro ⟨index, hlt, hplace, hidentity⟩
    exact ⟨_, keys_store_eq_some_iff.mpr ⟨index, hlt, hplace, hidentity, rfl⟩⟩

/-- Numbers below a bound take as many values as they have residues, when a value tells the residue
and nothing else. -/
theorem encard_image_Iio {α : Type} {f : ℕ → α} {n : ℕ} (hn : 0 < n)
    (h : ∀ i j, f i = f j ↔ i ≡ j [MOD n]) (size : ℕ) :
    (f '' Set.Iio size).encard = (min size n : ℕ) := by
  have himage : f '' Set.Iio size = f '' Set.Iio (min size n) := by
    refine Set.Subset.antisymm ?_ (Set.image_mono (Set.Iio_subset_Iio (min_le_left size n)))
    rintro _ ⟨k, hk, rfl⟩
    have hle : k % n ≤ k := Nat.mod_le k n
    exact ⟨k % n, lt_min (hle.trans_lt hk) (Nat.mod_lt k hn), (h _ _).mpr (Nat.mod_modEq k n)⟩
  have hinj : Set.InjOn f (Set.Iio (min size n)) := by
    intro i hi j hj hij
    exact ((h i j).mp hij).eq_of_lt_of_lt (lt_min_iff.mp hi).2 (lt_min_iff.mp hj).2
  rw [himage, hinj.encard_image]
  exact Set.Nat.encard_range _

/-- The rows that indexes have in a table are those outside the virtual hosts and those at hosts. -/
theorem encard_setOf_knownAt {β : Type} (f : Option String → ℕ → β) (size : ℕ) :
    {row : Option String × β |
        ∃ index < size, KnownAt row.1 index ∧ f row.1 index = row.2}.encard =
      ((fun index => ((none : Option String), f none index)) '' Set.Iio size).encard +
        ((fun index => (some (host index), f (some (host index)) index)) ''
          Set.Iio size).encard := by
  rw [← Set.encard_union_eq]
  · congr 1
    ext ⟨place, value⟩
    simp only [Set.mem_union, Set.mem_image, Set.mem_Iio, Set.mem_ofPred_eq, Prod.mk.injEq, KnownAt]
    constructor
    · rintro ⟨index, hlt, rfl | rfl, hvalue⟩
      · exact .inl ⟨index, hlt, rfl, hvalue⟩
      · exact .inr ⟨index, hlt, rfl, hvalue⟩
    · rintro (⟨index, hlt, rfl, hvalue⟩ | ⟨index, hlt, rfl, hvalue⟩)
      · exact ⟨index, hlt, .inl rfl, hvalue⟩
      · exact ⟨index, hlt, .inr rfl, hvalue⟩
  · refine Set.disjoint_left.mpr ?_
    rintro _ ⟨index, -, rfl⟩ ⟨index', -, h⟩
    cases h

theorem size_peers_store (size : ℕ) : (store size).peers.size = 2 * min size (2 ^ 24) := by
  have hrows : {row | row ∈ (store size).peers} =
      {row | ∃ index < size, KnownAt row.1 index ∧ peer index = row.2} :=
    Set.ext fun row => mem_peers_store_iff
  have hplain : ∀ i j, ((none : Option String), peer i) = (none, peer j) ↔ i ≡ j [MOD 2 ^ 24] := by
    intro i j
    rw [Prod.mk.injEq, peer_eq_peer_iff, and_iff_right rfl]
  have hscoped : ∀ i j, (some (host i), peer i) = (some (host j), peer j) ↔
      i ≡ j [MOD 2 ^ 24] := by
    intro i j
    rw [Prod.mk.injEq, peer_eq_peer_iff, and_iff_right_of_imp]
    intro h
    rw [host_congr h]
  have hcard := MemoryStore.encard_setOf_mem (store size).peers
  rw [hrows, encard_setOf_knownAt fun _ => peer, encard_image_Iio (by decide) hplain,
    encard_image_Iio (by decide) hscoped] at hcard
  rw [two_mul]
  exact_mod_cast hcard.symm

theorem size_keys_store (size : ℕ) : (store size).keys.size = 2 * size := by
  have hrows : {row | row ∈ (store size).keys} =
      {row | ∃ index < size, KnownAt row.1 index ∧ identityAt row.1 index = row.2} :=
    Set.ext fun row => mem_keys_store_iff
  have hplain : Function.Injective fun index => ((none : Option String), identityAt none index) :=
    fun i j h => identityAt_injective none (Prod.mk.inj h).2
  have hscoped : Function.Injective fun index =>
      (some (host index), identityAt (some (host index)) index) :=
    fun i j h => identityAt_injective (some (host i)) (Prod.mk.inj h).2
  have hcard := MemoryStore.encard_setOf_mem (store size).keys
  have hsize : (Set.Iio size).encard = size := Set.Nat.encard_range size
  rw [hrows, encard_setOf_knownAt identityAt, hplain.encard_image, hscoped.encard_image,
    hsize] at hcard
  rw [two_mul]
  exact_mod_cast hcard.symm

/-! ### What sessions resolve to -/

section Resolution

variable {sni : Bool} {session : Session} {last : ℕ}

theorem findCredential_of_knownAt
    (hhost : MemoryStore.hostOf? (session.realm sni) = some place)
    (hlast : IsGreatest {k | k < size ∧ peer k = session.peer} last)
    (hplace : KnownAt place last) :
    ((session.findCredential sni).perform (store size).toCredentialStore).result =
      .ok ⟨⟨session.principalScope sni, identityAt place last⟩, keyAt place last⟩ := by
  refine MemoryStore.findCredential_of_rows hhost ?_ ?_
  · exact peers_store_eq_some_iff.mpr ⟨last, hlast, hplace, rfl⟩
  · exact keys_store_eq_some_iff.mpr ⟨last, hlast.1.1, hplace, rfl, rfl⟩

theorem findCredential_of_not_knownAt
    (hhost : MemoryStore.hostOf? (session.realm sni) = some place)
    (hlast : IsGreatest {k | k < size ∧ peer k = session.peer} last)
    (hplace : ¬KnownAt place last) :
    ((session.findCredential sni).perform (store size).toCredentialStore).result =
      .error ⟨session.peer, (session.realm sni).scope, .identity⟩ := by
  rw [Session.perform_findCredential, Session.resolution_eq_error_iff]
  refine ⟨rfl, rfl, .inl ⟨rfl, ?_⟩⟩
  rw [Option.eq_none_iff_forall_ne_some]
  intro identity hidentity
  obtain ⟨place', hhost', hrow⟩ := MemoryStore.identity_eq_some_iff.mp hidentity
  obtain rfl := Option.some_inj.mp (hhost.symm.trans hhost')
  obtain ⟨last', hlast', hplace', -⟩ := peers_store_eq_some_iff.mp hrow
  rw [hlast'.unique hlast] at hplace'
  exact hplace hplace'

end Resolution

/-- **A population resolves as it was made.**  An index is known by the last index that has its
peer, which is itself as long as no index has more than 24 bits.  Whatever the session, without
server names it resolves to the plain identity of that index with its short key, at the virtual host
of the index to the scoped identity with the long key, and no identity is found at any other virtual
host, in whatever letter case either is requested.  The outline counts two keys for each index and
two known peers for each address. -/
theorem store_resolves_last (size : ℕ) :
    let outcome (sni : Bool) (session : Session) :=
      ((session.findCredential sni).perform (store size).toCredentialStore).result
    (∀ i j, peer i = peer j ↔ i ≡ j [MOD 2 ^ 24]) ∧
    (∀ index < size, ∃ last, IsGreatest {k | k < size ∧ k ≡ index [MOD 2 ^ 24]} last ∧
      (size ≤ 2 ^ 24 → last = index) ∧
      ∀ session : Session, session.peer = peer index →
        outcome false session =
          .ok ⟨⟨.hostAgnostic, "plain" ++ toString last⟩,
            ⟨List.replicate 16 (UInt8.ofNat (last % 256))⟩⟩ ∧
        (session.virtualHost = some (host index) →
          outcome true session =
            .ok ⟨⟨.hostScoped (some (host index)), "scoped" ++ toString last⟩,
              ⟨List.replicate 32 (UInt8.ofNat (last % 256))⟩⟩) ∧
        ∀ name, session.virtualHost = some name → name.toLower ≠ (host index).toLower →
          outcome true session = .error ⟨peer index, .hostScoped (some name), .identity⟩) ∧
    (∀ (session : Session) (index : ℕ), ∃ session',
      session.requesting (host index) = .ok session' ∧
        session'.peer = session.peer ∧ session'.virtualHost = some (host index)) ∧
    (∀ (session : Session) (text : String) (session' : Session),
      session.requesting text = .ok session' →
        session'.peer = session.peer ∧ session'.virtualHost = some text.toLower) ∧
    (store size).outline.render =
      "InMemoryPskStore \x7b keys: " ++ toString (2 * size) ++ ", known_peers: "
        ++ toString (2 * min size (2 ^ 24)) ++ " \x7d" := by
  intro outcome
  refine ⟨fun i j => peer_eq_peer_iff, ?_, ?_, fun _ _ _ => Session.virtualHost_of_requesting, ?_⟩
  · intro index hindex
    obtain ⟨last, hlast⟩ := exists_isGreatest hindex
    have hmod : last ≡ index [MOD 2 ^ 24] := peer_eq_peer_iff.mp hlast.1.2
    have hhost : host last = host index := host_congr hmod
    refine ⟨last, ?_, ?_, ?_⟩
    · simpa only [peer_eq_peer_iff] using hlast
    · intro hsize
      exact hmod.eq_of_lt_of_lt (hlast.1.1.trans_le hsize) (hindex.trans_le hsize)
    · intro session hpeer
      rw [← hpeer] at hlast
      refine ⟨?_, ?_, ?_⟩
      · rw [← key_eq_replicate]
        exact findCredential_of_knownAt rfl hlast (.inl rfl)
      · intro hvirtual
        obtain ⟨hsearched, hscope, -⟩ := Session.realm_of_virtualHost hvirtual
        rw [← key_eq_replicate, ← hscope]
        exact findCredential_of_knownAt hsearched hlast (.inr (congrArg some hhost.symm))
      · intro name hvirtual hother
        obtain ⟨hsearched, -, hscope⟩ := Session.realm_of_virtualHost hvirtual
        rw [← hpeer, ← hscope]
        refine findCredential_of_not_knownAt hsearched hlast ?_
        rintro (hnone | hsome)
        · cases hnone
        · refine hother (congrArg String.toLower ?_)
          rw [Option.some_inj.mp hsome, hhost]
  · intro session index
    have hnames := Sni.NameList.ofHostName_of_canonical (canonical_host index)
    refine ⟨_, Fallible.map_eq_ok_iff.mpr ⟨_, hnames, rfl⟩, rfl, rfl⟩
  · rw [MemoryStore.render_outline, size_keys_store, size_peers_store]

/-- The first index beyond 24 bits takes the peer of index 0 over, outside the virtual hosts and at
the host of both. -/
theorem store_resolves_last_wrapped :
    let population := store (2 ^ 24 + 1)
    let outcome (sni : Bool) (session : Session) :=
      ((session.findCredential sni).perform population.toCredentialStore).result
    let session : Session := { peer := .ipv4 ⟨10, 0, 0, 0⟩ 5684 }
    let within (host : String) : Session := { session with serverNames := some ⟨[.host host]⟩ }
    outcome false session = .ok ⟨⟨.hostAgnostic, "plain16777216"⟩, ⟨List.replicate 16 0⟩⟩ ∧
      outcome true (within "h0.example.com") =
        .ok ⟨⟨.hostScoped (some "h0.example.com"), "scoped16777216"⟩, ⟨List.replicate 32 0⟩⟩ ∧
      outcome true (within "h1.example.com") =
        .error ⟨session.peer, .hostScoped (some "h1.example.com"), .identity⟩ ∧
      population.outline.render =
        "InMemoryPskStore \x7b keys: 33554434, known_peers: 33554432 \x7d" := by
  intro population outcome session within
  obtain ⟨-, hresolves, -, -, houtline⟩ := store_resolves_last (2 ^ 24 + 1)
  obtain ⟨last, hlast, -, hsessions⟩ := hresolves 0 (by decide)
  have hwrapped : IsGreatest {k | k < 2 ^ 24 + 1 ∧ k ≡ 0 [MOD 2 ^ 24]} (2 ^ 24) :=
    ⟨⟨by decide, by decide⟩, fun k hk => Nat.le_of_lt_succ hk.1⟩
  obtain rfl := hlast.unique hwrapped
  obtain ⟨hplain, -, -⟩ := hsessions session (by decide)
  obtain ⟨-, hscoped, -⟩ := hsessions (within "h0.example.com") (by decide)
  obtain ⟨-, -, hother⟩ := hsessions (within "h1.example.com") (by decide)
  exact ⟨hplain, hscoped (by decide +kernel), hother _ rfl (by decide +kernel), houtline⟩

end Sample

end PskHandshake
