/-
Alerts: what a handshake that ends early tells its peer.

Main statements: `Alert.Description.ofCode?_code`, the code of a description reads back, and
`Alert.Description.code_of_ofCode?`, a code that is read belongs to the description.
-/
import PskHandshake.Wire

namespace PskHandshake

/-- How severe an alert is. -/
inductive Alert.Level
  | warning
  | fatal
deriving DecidableEq, Repr

/-- What an alert announces. -/
inductive Alert.Description
  | closeNotify
  | unexpectedMessage
  | badRecordMac
  | decryptionFailed
  | recordOverflow
  | decompressionFailure
  | handshakeFailure
  | badCertificate
  | unsupportedCertificate
  | certificateRevoked
  | certificateExpired
  | certificateUnknown
  | illegalParameter
  | unknownCa
  | accessDenied
  | decodeError
  | decryptError
  | protocolVersion
  | insufficientSecurity
  | internalError
  | userCanceled
  | noRenegotiation
  | unsupportedExtension
  | unrecognizedName
  | unknownPskIdentity
deriving DecidableEq, Repr

/-- An alert: a description with its level. -/
structure Alert where
  level : Alert.Level
  description : Alert.Description
deriving DecidableEq, Repr

namespace Alert

def Level.code : Level → UInt8
  | warning => 1
  | fatal => 2

def Level.name : Level → String
  | warning => "Warning"
  | fatal => "Fatal"

namespace Description

/-- Every description, by rising code. -/
def all : List Description :=
  [closeNotify, unexpectedMessage, badRecordMac, decryptionFailed, recordOverflow,
    decompressionFailure, handshakeFailure, badCertificate, unsupportedCertificate,
    certificateRevoked, certificateExpired, certificateUnknown, illegalParameter, unknownCa,
    accessDenied, decodeError, decryptError, protocolVersion, insufficientSecurity, internalError,
    userCanceled, noRenegotiation, unsupportedExtension, unrecognizedName, unknownPskIdentity]

/-- The code of a description on the wire. -/
def code : Description → UInt8
  | closeNotify => 0
  | unexpectedMessage => 10
  | badRecordMac => 20
  | decryptionFailed => 21
  | recordOverflow => 22
  | decompressionFailure => 30
  | handshakeFailure => 40
  | badCertificate => 42
  | unsupportedCertificate => 43
  | certificateRevoked => 44
  | certificateExpired => 45
  | certificateUnknown => 46
  | illegalParameter => 47
  | unknownCa => 48
  | accessDenied => 49
  | decodeError => 50
  | decryptError => 51
  | protocolVersion => 70
  | insufficientSecurity => 71
  | internalError => 80
  | userCanceled => 90
  | noRenegotiation => 100
  | unsupportedExtension => 110
  | unrecognizedName => 112
  | unknownPskIdentity => 115

def name : Description → String
  | closeNotify => "CloseNotify"
  | unexpectedMessage => "UnexpectedMessage"
  | badRecordMac => "BadRecordMac"
  | decryptionFailed => "DecryptionFailed"
  | recordOverflow => "RecordOverflow"
  | decompressionFailure => "DecompressionFailure"
  | handshakeFailure => "HandshakeFailure"
  | badCertificate => "BadCertificate"
  | unsupportedCertificate => "UnsupportedCertificate"
  | certificateRevoked => "CertificateRevoked"
  | certificateExpired => "CertificateExpired"
  | certificateUnknown => "CertificateUnknown"
  | illegalParameter => "IllegalParameter"
  | unknownCa => "UnknownCa"
  | accessDenied => "AccessDenied"
  | decodeError => "DecodeError"
  | decryptError => "DecryptError"
  | protocolVersion => "ProtocolVersion"
  | insufficientSecurity => "InsufficientSecurity"
  | internalError => "InternalError"
  | userCanceled => "UserCanceled"
  | noRenegotiation => "NoRenegotiation"
  | unsupportedExtension => "UnsupportedExtension"
  | unrecognizedName => "UnrecognizedName"
  | unknownPskIdentity => "UnknownPskIdentity"

/-- The description with a given code, if there is one. -/
def ofCode? (code : UInt8) : Option Description := all.find? (·.code = code)

/-- Whether an alert with this description ends the connection: all do, except an orderly close,
a user's cancellation and a refused renegotiation. -/
def isFatal : Description → Bool
  | closeNotify | userCanceled | noRenegotiation => false
  | _ => true

@[simp] theorem ofCode?_code (d : Description) : ofCode? d.code = some d := by
  cases d <;> rfl

theorem code_of_ofCode? {c : UInt8} {d : Description} (h : ofCode? c = some d) : d.code = c := by
  simpa using List.find?_some h

end Description

/-- A fatal alert. -/
def fatal (description : Description) : Alert := ⟨.fatal, description⟩

/-- The alert for a handshake without acceptable credentials. -/
def handshakeFailure : Alert := fatal .handshakeFailure

/-- The alert for a failure that has nothing to do with the peer. -/
def internalError : Alert := fatal .internalError

/-- An alert on the wire: the level, then the description. -/
def encode (alert : Alert) : Bytes := [alert.level.code, alert.description.code]

end Alert

end PskHandshake
