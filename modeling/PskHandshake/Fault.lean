/-
Faults: how a failed operation is reported.

Each part of the library has error causes of its own.  Seen from outside they all become a `Fault`,
a kind with a detail, and `Fault.message` is the text that a user reads.
-/
import PskHandshake.Outline

namespace PskHandshake

/-- The kinds of fault. -/
inductive Fault.Kind
  /-- A setting is outside its range. -/
  | invalidConfig
  /-- A value from the wire, or meant for it, is malformed. -/
  | invalidMessage
  /-- No credentials were found for a handshake. -/
  | handshakeFailure
  /-- A key or shared secret cannot be used. -/
  | internalError
deriving DecidableEq, Repr

/-- What went wrong: the kind of fault, and a detail for the reader. -/
structure Fault where
  kind : Fault.Kind
  detail : String
deriving DecidableEq, Repr

namespace Fault

def Kind.name : Kind → String
  | invalidConfig => "InvalidConfig"
  | invalidMessage => "InvalidMessage"
  | handshakeFailure => "HandshakeFailure"
  | internalError => "InternalError"

/-- How a message of the kind begins. -/
def Kind.title : Kind → String
  | invalidConfig => "Invalid configuration"
  | invalidMessage => "Invalid message"
  | handshakeFailure => "Handshake failure"
  | internalError => "Internal error"

/-- The message for the reader. -/
def message (fault : Fault) : String :=
  fault.kind.title ++ ": " ++ fault.detail

/-- The kind by name, applied to the detail. -/
def outline (fault : Fault) : Outline :=
  .applied fault.kind.name (.quoted fault.detail)

end Fault

end PskHandshake
