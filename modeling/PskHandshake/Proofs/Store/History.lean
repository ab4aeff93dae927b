/-
A store in memory, realm by realm: its lookups, and its rows after a history.

A lookup goes by the host of its realm and by nothing else of it, and finds nothing in a realm whose
server names have no host name.  A change touches the rows of one host, in the case in which the
tables hold it, and leaves the rows of every other host as they were.  So the rows of a host are
what the changes made under it leave behind, in their order, and the other changes of a history can
be left out of it.

* `MemoryStore.identity_eq_some_iff`, `MemoryStore.key_eq_some_iff` — what a lookup finds;
* `MemoryStore.keys_apply`, `MemoryStore.peers_apply` — the rows after one change;
* `MemoryStore.SameRows.apply`, `MemoryStore.sameRows_apply_of_ne` — a change of this host, and one
  of another;
* `MemoryStore.sameRows_ofHistory_filter` — the rows after a history.
-/
import Mathlib
import PskHandshake.Store.Memory

namespace PskHandshake

/-- The host of a change, as it was given. -/
def Mutation.host : Mutation → Option String
  | setKey host _ _ => host
  | removeKey host _ => host
  | addPeer host _ _ => host

namespace MemoryStore

variable {store store' : MemoryStore} {realm : Realm} {host : Option String}

/-! ### Lookups -/

theorem identity_eq_some_iff {peer : Endpoint} {identity : String} :
    store.toCredentialStore.identity realm peer = some identity ↔
      ∃ host, hostOf? realm = some host ∧ store.peers[(host, peer)]? = some identity :=
  Option.bind_eq_some_iff

theorem key_eq_some_iff {identity : String} {key : SecretKey} :
    store.toCredentialStore.key realm identity = some key ↔
      ∃ host, hostOf? realm = some host ∧ store.keys[(host, identity)]? = some key :=
  Option.bind_eq_some_iff

/-- Server names are searched under their host name. -/
theorem hostOf?_virtualHost_eq_some_iff {names : Sni.NameList} {host : Option String} :
    hostOf? (.virtualHost names) = some host ↔
      ∃ name, names.hostName? = some name ∧ some name = host :=
  Option.map_eq_some_iff

/-- Server names with one host name have the same keys. -/
theorem key_virtualHost_congr {names names' : Sni.NameList} {identity : String}
    (h : names.hostName? = names'.hostName?) :
    store.toCredentialStore.key (.virtualHost names) identity =
      store.toCredentialStore.key (.virtualHost names') identity := by
  simp only [toCredentialStore, hostOf?, h]

/-! ### One change -/

theorem keys_apply (mutation : Mutation) (identity : String) :
    (store.apply mutation).keys[(host, identity)]? =
      match mutation with
      | .setKey host' identity' key =>
        if fold host' = host ∧ identity' = identity then some key
        else store.keys[(host, identity)]?
      | .removeKey host' identity' =>
        if fold host' = host ∧ identity' = identity then none else store.keys[(host, identity)]?
      | .addPeer _ _ _ => store.keys[(host, identity)]? := by
  cases mutation with
  | setKey host' identity' key =>
    simp only [apply, setKey, Std.HashMap.getElem?_insert, beq_iff_eq, Prod.mk.injEq]
  | removeKey host' identity' =>
    simp only [apply, removeKey, Std.HashMap.getElem?_erase, beq_iff_eq, Prod.mk.injEq]
  | addPeer host' peer identity' => rfl

theorem peers_apply (mutation : Mutation) (peer : Endpoint) :
    (store.apply mutation).peers[(host, peer)]? =
      match mutation with
      | .addPeer host' peer' identity =>
        if fold host' = host ∧ peer' = peer then some identity else store.peers[(host, peer)]?
      | _ => store.peers[(host, peer)]? := by
  cases mutation with
  | addPeer host' peer' identity =>
    simp only [apply, addPeer, Std.HashMap.getElem?_insert, beq_iff_eq, Prod.mk.injEq]
  | setKey host' identity key => rfl
  | removeKey host' identity => rfl

/-! ### The rows of a host -/

/-- The stores have the same rows under a host. -/
structure SameRows (host : Option String) (store store' : MemoryStore) : Prop where
  keys : ∀ identity : String, store.keys[(host, identity)]? = store'.keys[(host, identity)]?
  peers : ∀ peer : Endpoint, store.peers[(host, peer)]? = store'.peers[(host, peer)]?

theorem SameRows.refl (host : Option String) (store : MemoryStore) : SameRows host store store :=
  ⟨fun _ => rfl, fun _ => rfl⟩

theorem SameRows.trans {store'' : MemoryStore} (h : SameRows host store store')
    (h' : SameRows host store' store'') : SameRows host store store'' :=
  ⟨fun identity => (h.keys identity).trans (h'.keys identity),
    fun peer => (h.peers peer).trans (h'.peers peer)⟩

theorem SameRows.apply (h : SameRows host store store') (mutation : Mutation) :
    SameRows host (store.apply mutation) (store'.apply mutation) := by
  refine ⟨fun identity => ?_, fun peer => ?_⟩
  · rw [keys_apply, keys_apply, h.keys identity]
  · rw [peers_apply, peers_apply, h.peers peer]

/-- A change made under another host leaves the rows of this one as they were. -/
theorem sameRows_apply_of_ne {mutation : Mutation} (h : fold mutation.host ≠ host) :
    SameRows host (store.apply mutation) store := by
  refine ⟨fun identity => ?_, fun peer => ?_⟩
  · rw [keys_apply]
    cases mutation with
    | setKey host' identity' key => exact if_neg fun hrow => h hrow.1
    | removeKey host' identity' => exact if_neg fun hrow => h hrow.1
    | addPeer host' peer' identity' => rfl
  · rw [peers_apply]
    cases mutation with
    | setKey host' identity' key => rfl
    | removeKey host' identity' => rfl
    | addPeer host' peer' identity' => exact if_neg fun hrow => h hrow.1

/-! ### A history -/

theorem SameRows.foldl_filter {ours : Mutation → Bool} (history : List Mutation)
    (hours : ∀ mutation, ours mutation = true ↔ fold mutation.host = host)
    (h : SameRows host store store') :
    SameRows host (history.foldl MemoryStore.apply store)
      ((history.filter ours).foldl MemoryStore.apply store') := by
  -- the two stores drift apart under the other hosts, so both starts are arbitrary
  induction history generalizing store store' with
  | nil => exact h
  | cons mutation history ih =>
    rw [List.foldl_cons]
    by_cases hmutation : ours mutation = true
    · rw [List.filter_cons_of_pos hmutation, List.foldl_cons]
      exact ih (h.apply mutation)
    · rw [List.filter_cons_of_neg hmutation]
      have hother : fold mutation.host ≠ host := mt (hours mutation).mpr hmutation
      exact ih ((sameRows_apply_of_ne hother).trans h)

/-- The rows of a host after a history are those after the changes made under it. -/
theorem sameRows_ofHistory_filter {ours : Mutation → Bool} (history : List Mutation)
    (hours : ∀ mutation, ours mutation = true ↔ fold mutation.host = host) :
    SameRows host (ofHistory history) (ofHistory (history.filter ours)) :=
  SameRows.foldl_filter history hours (SameRows.refl host {})

end MemoryStore

end PskHandshake
