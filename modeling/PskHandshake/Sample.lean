/-
A sample population of a store, of any size.

Each index has a peer, known by one identity in the default realm and by another in the realm of one
of `Sample.hostCount` virtual hosts.
-/
import PskHandshake.Store.Memory

namespace PskHandshake.Sample

/-- The number of virtual hosts. -/
def hostCount : Nat := 64

/-- The peer of an index: the low 24 bits of the index, in a private network. -/
def peer (index : Nat) : Endpoint :=
  .ipv4 ⟨10, UInt8.ofNat (index / 65536), UInt8.ofNat (index / 256), UInt8.ofNat index⟩ 5684

/-- The virtual host of an index. -/
def host (index : Nat) : String := "h" ++ toString (index % hostCount) ++ ".example.com"

/-- The identity of an index in the default realm. -/
def plainIdentity (index : Nat) : String := "plain" ++ toString index

/-- The identity of an index at its virtual host. -/
def scopedIdentity (index : Nat) : String := "scoped" ++ toString index

/-- A key of the given length for an index. -/
def key (length index : Nat) : SecretKey := ⟨List.replicate length (UInt8.ofNat index)⟩

/-- What makes one index known. -/
def mutations (index : Nat) : List Mutation :=
  [.addPeer none (peer index) (plainIdentity index),
    .setKey none (plainIdentity index) (key 16 index),
    .addPeer (some (host index)) (peer index) (scopedIdentity index),
    .setKey (some (host index)) (scopedIdentity index) (key 32 index)]

/-- The store in which every index below `size` was made known, in rising order. -/
def store (size : Nat) : MemoryStore :=
  .ofHistory ((List.range size).flatMap mutations)

end PskHandshake.Sample
