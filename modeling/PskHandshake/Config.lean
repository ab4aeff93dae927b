/-
Configurations of a handshake.

A configuration limits how long an identity may be.  Settings are taken as they come, and the limit
is checked when the configuration of a client is built from them.
-/
import PskHandshake.Fault
import PskHandshake.Wire

namespace PskHandshake

/-- The settings that both sides have. -/
structure Config where
  /-- The most octets of an identity that is sent or accepted; the default is what every side must
  accept. -/
  maxIdentityLength : Nat := 128
deriving DecidableEq, Repr

/-- Why a configuration is refused. -/
inductive Config.Error
  /-- The limit admits the empty identity only. -/
  | zeroLimit
  /-- The limit is more than an identity can have on the wire. -/
  | limitTooLarge (limit : Nat)
deriving DecidableEq, Repr

/-- The settings of a client. -/
structure ClientConfig where
  base : Config := {}
  /-- Whether server names are in use. -/
  sni : Bool := false
deriving DecidableEq, Repr

/-- A change to the settings of a client. -/
inductive ClientConfig.Setting
  | base (config : Config)
  | sni (enabled : Bool)
  | maxIdentityLength (length : Nat)
deriving DecidableEq, Repr

/-- Why the configuration of a client is refused. -/
structure ClientConfig.Error where
  cause : Config.Error
deriving DecidableEq, Repr

namespace Config

/-- The configuration, if its limit is one that an identity can have on the wire. -/
def check (config : Config) : Except Error Config :=
  if config.maxIdentityLength = 0 then .error .zeroLimit
  else if Wire.maxUint16 < config.maxIdentityLength then
    .error (.limitTooLarge config.maxIdentityLength)
  else .ok config

/-- The text for the reader. -/
def Error.detail : Error → String
  | zeroLimit => "Max PSK identity length must not be zero"
  | limitTooLarge limit =>
    "Max PSK identity length " ++ toString limit ++ " exceeds " ++ toString Wire.maxUint16

/-- A refused configuration is invalid. -/
def Error.toFault (error : Error) : Fault := ⟨.invalidConfig, error.detail⟩

end Config

namespace ClientConfig

/-- Makes one change. -/
def set (config : ClientConfig) : Setting → ClientConfig
  | .base base => { config with base }
  | .sni enabled => { config with sni := enabled }
  | .maxIdentityLength length => { config with base.maxIdentityLength := length }

/-- The default configuration after some changes, if its limit passes the check. -/
def build (settings : List Setting) : Except Error ClientConfig :=
  let config := settings.foldl set {}
  match config.base.check with
  | .error cause => .error ⟨cause⟩
  | .ok base => .ok { config with base }

/-- The fault of the cause, said to be the client's. -/
def Error.toFault (error : Error) : Fault := ⟨.invalidConfig, "client: " ++ error.cause.detail⟩

end ClientConfig

end PskHandshake
