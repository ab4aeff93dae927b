/-
What a store in memory answers, told from its history.

The tables of a store keep no history, but each row of them holds what the last change of the row
left there.  A row belongs to a host in any letter case, and so do the changes of it.

* `MemoryStore.keys_ofHistory`, `MemoryStore.peers_ofHistory` — a row after a history;
* `MemoryStore.mem_keys_ofHistory_iff`, `MemoryStore.mem_peers_ofHistory_iff` — which rows there
  are;
* `MemoryStore.ofHistory_answers_last_change` — lookups, removals and the outline of the store.
-/
import PskHandshake.Proofs.Sni.Run
import PskHandshake.Proofs.Store.History

namespace PskHandshake

open MemoryStore (fold)

namespace Mutation

/-- Whether a change sets or removes the key of an identity under a host, in any letter case. -/
def changesKey (host : Option String) (identity : String) : Mutation → Bool
  | setKey host' identity' _ => fold host' = fold host ∧ identity' = identity
  | removeKey host' identity' => fold host' = fold host ∧ identity' = identity
  | addPeer _ _ _ => false

/-- Whether a change sets the identity for a peer under a host, in any letter case. -/
def changesPeer (host : Option String) (peer : Endpoint) : Mutation → Bool
  | addPeer host' peer' _ => fold host' = fold host ∧ peer' = peer
  | _ => false

/-- The key that a change sets. -/
def key? : Mutation → Option SecretKey
  | setKey _ _ key => some key
  | _ => none

/-- The identity that a change sets for a peer. -/
def peerIdentity? : Mutation → Option String
  | addPeer _ _ identity => some identity
  | _ => none

/-- The last change of a kind in a history. -/
def last? (kind : Mutation → Bool) (history : List Mutation) : Option Mutation :=
  history.reverse.find? kind

variable {host : Option String} {identity : String} {peer : Endpoint} {history : List Mutation}

theorem last?_append_singleton (kind : Mutation → Bool) (history : List Mutation)
    (mutation : Mutation) :
    last? kind (history ++ [mutation]) =
      if kind mutation then some mutation else last? kind history := by
  rw [last?, List.reverse_append, List.reverse_singleton, List.singleton_append, List.find?_cons]
  cases kind mutation <;> rfl

theorem of_last?_eq_some {kind : Mutation → Bool} {mutation : Mutation}
    (h : last? kind history = some mutation) : mutation ∈ history ∧ kind mutation = true :=
  ⟨List.mem_reverse.mp (List.mem_of_find?_eq_some h), List.find?_some h⟩

/-- Of the changes of one key, those that set a key say which. -/
theorem last?_bind_key?_eq_some_iff {key : SecretKey} :
    (last? (changesKey host identity) history).bind key? = some key ↔
      ∃ host', last? (changesKey host identity) history = some (.setKey host' identity key) := by
  rw [Option.bind_eq_some_iff]
  constructor
  · rintro ⟨mutation, hlast, hkey⟩
    cases mutation with
    | setKey host' identity' key' =>
      obtain rfl := Option.some_inj.mp hkey
      obtain ⟨-, rfl⟩ := of_decide_eq_true (of_last?_eq_some hlast).2
      exact ⟨host', hlast⟩
    | removeKey host' identity' => cases hkey
    | addPeer host' peer identity' => cases hkey
  · rintro ⟨host', hlast⟩
    exact ⟨_, hlast, rfl⟩

theorem last?_bind_peerIdentity?_eq_some_iff :
    (last? (changesPeer host peer) history).bind peerIdentity? = some identity ↔
      ∃ host', last? (changesPeer host peer) history = some (.addPeer host' peer identity) := by
  rw [Option.bind_eq_some_iff]
  constructor
  · rintro ⟨mutation, hlast, hidentity⟩
    cases mutation with
    | addPeer host' peer' identity' =>
      obtain rfl := Option.some_inj.mp hidentity
      obtain ⟨-, rfl⟩ := of_decide_eq_true (of_last?_eq_some hlast).2
      exact ⟨host', hlast⟩
    | setKey host' identity' key => cases hidentity
    | removeKey host' identity' => cases hidentity
  · rintro ⟨host', hlast⟩
    exact ⟨_, hlast, rfl⟩

/-- Changes of one key are those under the same host in another letter case. -/
theorem changesKey_congr {host' : Option String} (h : fold host = fold host') :
    changesKey host identity = changesKey host' identity := by
  funext mutation
  cases mutation <;> simp only [changesKey, h]

end Mutation

/-- The server names of a realm, if it has any, come from a run of operations. -/
def Realm.Reachable : Realm → Prop
  | default => True
  | virtualHost names => names.Reachable

open Mutation

namespace MemoryStore

variable {host : Option String}

/-! ### Rows after a history -/

theorem ofHistory_append_singleton (history : List Mutation) (mutation : Mutation) :
    ofHistory (history ++ [mutation]) = (ofHistory history).apply mutation := by
  rw [ofHistory, List.foldl_append]
  rfl

/-- A row of the keys holds what the last change of it set. -/
theorem keys_ofHistory (history : List Mutation) (host : Option String) (identity : String) :
    (ofHistory history).keys[(fold host, identity)]? =
      (last? (changesKey host identity) history).bind key? := by
  -- the last change stands at the end, so histories grow there
  induction history using List.reverseRecOn with
  | nil => exact Std.HashMap.getElem?_empty
  | append_singleton history mutation ih =>
    rw [ofHistory_append_singleton, last?_append_singleton, keys_apply, ih]
    cases mutation with
    | setKey host' identity' key =>
      simp only [changesKey, decide_eq_true_eq]
      split <;> rfl
    | removeKey host' identity' =>
      simp only [changesKey, decide_eq_true_eq]
      split <;> rfl
    | addPeer host' peer identity' => rfl

/-- A row of the known peers holds what the last change of it set. -/
theorem peers_ofHistory (history : List Mutation) (host : Option String) (peer : Endpoint) :
    (ofHistory history).peers[(fold host, peer)]? =
      (last? (changesPeer host peer) history).bind peerIdentity? := by
  induction history using List.reverseRecOn with
  | nil => exact Std.HashMap.getElem?_empty
  | append_singleton history mutation ih =>
    rw [ofHistory_append_singleton, last?_append_singleton, peers_apply, ih]
    cases mutation with
    | addPeer host' peer' identity =>
      simp only [changesPeer, decide_eq_true_eq]
      split <;> rfl
    | setKey host' identity key => rfl
    | removeKey host' identity => rfl

/-! ### How many rows there are -/

/-- The rows of the keys that are present after a history: those to which the last change set a
key. -/
def keyRows (history : List Mutation) : Set (Option String × String) :=
  {row | ∃ host key, last? (changesKey host row.2) history = some (.setKey host row.2 key) ∧
    fold host = row.1}

/-- The rows of the known peers that were ever added in a history. -/
def peerRows (history : List Mutation) : Set (Option String × Endpoint) :=
  {row | ∃ host identity, .addPeer host row.2 identity ∈ history ∧ fold host = row.1}

theorem fold_fold (host : Option String) : fold (fold host) = fold host := by
  cases host with
  | none => rfl
  | some host =>
    rw [fold, fold, Option.map_some, Option.map_some, Option.some_inj, ← String.toList_inj,
      LetterCase.toList_toLower, LetterCase.toList_toLower, LetterCase.map_toLower_map_toLower]

/-- The tables hold hosts in lower case only. -/
theorem fold_eq_of_mem_keys {history : List Mutation} {row : Option String × String}
    (h : row ∈ (ofHistory history).keys) : fold row.1 = row.1 := by
  induction history using List.reverseRecOn with
  | nil => exact absurd h Std.HashMap.not_mem_empty
  | append_singleton history mutation ih =>
    rw [ofHistory_append_singleton] at h
    cases mutation with
    | setKey host identity key =>
      obtain hrow | hrow := Std.HashMap.mem_insert.mp h
      · rw [← beq_iff_eq.mp hrow, fold_fold]
      · exact ih hrow
    | removeKey host identity => exact ih (Std.HashMap.mem_erase.mp h).2
    | addPeer host peer identity => exact ih h

theorem mem_keys_ofHistory_iff {history : List Mutation} {row : Option String × String} :
    row ∈ (ofHistory history).keys ↔ row ∈ keyRows history := by
  obtain ⟨host, identity⟩ := row
  constructor
  · intro h
    have hfold : fold host = host := fold_eq_of_mem_keys h
    obtain ⟨key, hkey⟩ := Option.isSome_iff_exists.mp (Std.HashMap.mem_iff_isSome_getElem?.mp h)
    rw [← hfold, keys_ofHistory, last?_bind_key?_eq_some_iff] at hkey
    obtain ⟨host', hlast⟩ := hkey
    -- the change that set the key names the host in a letter case of its own
    have hhost' : fold host' = fold host := (of_decide_eq_true (of_last?_eq_some hlast).2).1
    refine ⟨host', key, ?_, hhost'.trans hfold⟩
    rwa [changesKey_congr hhost']
  · rintro ⟨host', key, hlast, rfl⟩
    rw [Std.HashMap.mem_iff_isSome_getElem?, keys_ofHistory,
      last?_bind_key?_eq_some_iff.mpr ⟨host', hlast⟩]
    rfl

/-- No change takes a known peer away. -/
theorem mem_peers_ofHistory_iff {history : List Mutation} {row : Option String × Endpoint} :
    row ∈ (ofHistory history).peers ↔ row ∈ peerRows history := by
  obtain ⟨host, peer⟩ := row
  induction history using List.reverseRecOn with
  | nil => simp [ofHistory, peerRows]
  | append_singleton history mutation ih =>
    simp only [peerRows, Set.mem_ofPred_eq] at ih ⊢
    simp only [ofHistory_append_singleton, List.mem_append, List.mem_singleton]
    cases mutation with
    | addPeer host' peer' identity' =>
      rw [apply, addPeer, Std.HashMap.mem_insert, ih, beq_iff_eq, Prod.mk.injEq]
      constructor
      · rintro (⟨hhost, rfl⟩ | ⟨given, identity, hmem, hhost⟩)
        · exact ⟨host', identity', .inr rfl, hhost⟩
        · exact ⟨given, identity, .inl hmem, hhost⟩
      · rintro ⟨given, identity, hmem | hlast, hhost⟩
        · exact .inr ⟨given, identity, hmem, hhost⟩
        · cases hlast
          exact .inl ⟨hhost, rfl⟩
    | setKey host' identity' key => exact ih.trans (by simp)
    | removeKey host' identity' => exact ih.trans (by simp)

theorem encard_setOf_mem {α β : Type} [BEq α] [Hashable α] [LawfulBEq α] (map : Std.HashMap α β) :
    {row | row ∈ map}.encard = map.size := by
  classical
  have hnodup : map.keys.Nodup := by
    refine List.Pairwise.imp ?_ Std.HashMap.distinct_keys
    intro row row' hdistinct hsame
    simp [hsame] at hdistinct
  have hkeys : {row | row ∈ map} = map.keys.toFinset := by
    ext row
    simp
  rw [hkeys, Set.encard_coe_eq_coe_finsetCard, List.toFinset_card_of_nodup hnodup,
    Std.HashMap.length_keys]

/-! ### The store as its users see it -/

/-- Hosts that are searched for are in lower case, as the tables hold them. -/
theorem fold_of_hostOf? {realm : Realm} (hrealm : realm.Reachable)
    (hhost : hostOf? realm = some host) : fold host = host := by
  cases realm with
  | default =>
    obtain rfl := Option.some_inj.mp hhost
    rfl
  | virtualHost names =>
    obtain ⟨name, hname, rfl⟩ := hostOf?_virtualHost_eq_some_iff.mp hhost
    have hlower := (hrealm.wellFormed.canonical_of_hostName? hname).toLower_eq
    rw [fold, Option.map_some, hlower]

/-- A removal says whether there was a row to take away. -/
theorem removeKey_fst (store : MemoryStore) (host : Option String) (identity : String) :
    (store.removeKey host identity).1 = store.keys[(fold host, identity)]?.isSome :=
  Std.HashMap.contains_eq_isSome_getElem?

theorem removeKey_fst_eq_isSome_key {store : MemoryStore} {realm : Realm}
    {host given : Option String} (hhost : hostOf? realm = some host) (hgiven : fold given = host)
    (identity : String) :
    (store.removeKey given identity).1 = (store.toCredentialStore.key realm identity).isSome := by
  rw [removeKey_fst, hgiven]
  simp only [toCredentialStore, hhost, Option.bind_some]

theorem render_outline (store : MemoryStore) :
    store.outline.render =
      "InMemoryPskStore \x7b keys: " ++ toString store.keys.size ++ ", known_peers: "
        ++ toString store.peers.size ++ " \x7d" := by
  -- each constant part of the text is put together from two
  have hkeys : "InMemoryPskStore \x7b keys: " = "InMemoryPskStore \x7b " ++ "keys: " := rfl
  have hpeers : ", known_peers: " = ", " ++ "known_peers: " := rfl
  rw [outline, Outline.render, Outline.braced, hkeys, hpeers]
  simp only [Outline.renderFields, Outline.number, Outline.render, if_true, List.append_nil,
    String.intercalate_cons_cons, String.intercalate_singleton]
  ac_rfl

/-- **A store answers by the last change.**  After any history, in the default realm and in the
realm of any server names that a run of operations made: an identity has a key exactly when the last
change of its key under the host of the realm set this key, and the identity for a peer is the one
that was set last for the peer under that host.  A removal says that there was a key exactly when
the last change of it set one, which is when a lookup in a realm with that host finds it too, and
leaves the store of the history that it ends.  The outline of the store shows how many keys are
present and how many peers were ever added, over all realms. -/
theorem ofHistory_answers_last_change (history : List Mutation) :
    let store := ofHistory history
    let answers := store.toCredentialStore
    (∀ realm : Realm, realm.Reachable →
      (∀ identity key, answers.key realm identity = some key ↔
        ∃ host given, hostOf? realm = some host ∧
          last? (changesKey host identity) history = some (.setKey given identity key)) ∧
      (∀ peer identity, answers.identity realm peer = some identity ↔
        ∃ host given, hostOf? realm = some host ∧
          last? (changesPeer host peer) history = some (.addPeer given peer identity)) ∧
      ∀ host given identity, hostOf? realm = some host → fold given = fold host →
        (store.removeKey given identity).1 = (answers.key realm identity).isSome) ∧
    (∀ given identity,
      ((store.removeKey given identity).1 = true ↔
        ∃ host key, last? (changesKey given identity) history = some (.setKey host identity key)) ∧
      (store.removeKey given identity).2 = ofHistory (history ++ [.removeKey given identity])) ∧
    ∃ keys peers : ℕ, (keyRows history).encard = keys ∧ (peerRows history).encard = peers ∧
      store.outline.render =
        "InMemoryPskStore \x7b keys: " ++ toString keys ++ ", known_peers: " ++ toString peers
          ++ " \x7d" := by
  intro store answers
  refine ⟨fun realm hrealm => ⟨?_, ?_, ?_⟩, ?_, store.keys.size, store.peers.size, ?_, ?_, ?_⟩
  · intro identity key
    rw [key_eq_some_iff]
    refine exists_congr fun host => ?_
    rw [exists_and_left]
    refine and_congr_right fun hhost => ?_
    rw [← last?_bind_key?_eq_some_iff, ← keys_ofHistory, fold_of_hostOf? hrealm hhost]
  · intro peer identity
    rw [identity_eq_some_iff]
    refine exists_congr fun host => ?_
    rw [exists_and_left]
    refine and_congr_right fun hhost => ?_
    rw [← last?_bind_peerIdentity?_eq_some_iff, ← peers_ofHistory, fold_of_hostOf? hrealm hhost]
  · intro host given identity hhost hgiven
    rw [fold_of_hostOf? hrealm hhost] at hgiven
    exact removeKey_fst_eq_isSome_key hhost hgiven identity
  · intro given identity
    refine ⟨?_, (ofHistory_append_singleton history (.removeKey given identity)).symm⟩
    rw [removeKey_fst, keys_ofHistory, Option.isSome_iff_exists, exists_comm]
    exact exists_congr fun key => last?_bind_key?_eq_some_iff
  · rw [← encard_setOf_mem]
    exact congrArg Set.encard (Set.ext fun row => mem_keys_ofHistory_iff.symm)
  · rw [← encard_setOf_mem]
    exact congrArg Set.encard (Set.ext fun row => mem_peers_ofHistory_iff.symm)
  · exact render_outline store

/-- A key that was set, taken away and set again under one host in three letter cases is found by a
lookup, and by a removal in a fourth. -/
theorem ofHistory_answers_last_change_recased :
    let history : List Mutation :=
      [.setKey (some "COAP.example") "dev" ⟨[1]⟩, .removeKey (some "coap.EXAMPLE") "dev",
        .setKey none "dev" ⟨[2]⟩, .setKey (some "Coap.Example") "dev" ⟨[3]⟩,
        .removeKey (some "b.example") "dev"]
    let realm : Realm := .virtualHost ⟨[.host "coap.example"]⟩
    realm.Reachable ∧ (ofHistory history).toCredentialStore.key realm "dev" = some ⟨[3]⟩ ∧
      ((ofHistory history).removeKey (some "coaP.examplE") "dev").1 = true := by
  intro history realm
  have hrealm : realm.Reachable := ⟨.hostName "COAP.example", [], by decide +kernel⟩
  have hlower : "coap.example".toLower = "coap.example" ∧ "Coap.Example".toLower = "coap.example" ∧
      "coaP.examplE".toLower = "coap.example" ∧ "b.example".toLower = "b.example" := by
    decide +kernel
  have hlast : last? (changesKey (some "coap.example") "dev") history =
      some (.setKey (some "Coap.Example") "dev" ⟨[3]⟩) := by
    simp [history, last?, changesKey, fold, hlower]
  obtain ⟨hlookups, -⟩ := ofHistory_answers_last_change history
  obtain ⟨hkeys, -, hremovals⟩ := hlookups realm hrealm
  have hkey := (hkeys "dev" ⟨[3]⟩).mpr ⟨_, _, rfl, hlast⟩
  refine ⟨hrealm, hkey, ?_⟩
  rw [hremovals _ (some "coaP.examplE") "dev" rfl (by simp [fold, hlower]), hkey]
  rfl

end MemoryStore

end PskHandshake
