/-! What can go wrong, as causes. `message` is the wording for people and `name` the bare cause;
`describe` is the name with what it carries, as logs show it. -/
namespace NoiseLink

/-- A failure of the byte streams under a connection. -/
inductive NetworkError where
  | closed
  | timeout
  | bindFailed
  | connectionFailed
  | sendFailed
  | recvFailed
deriving DecidableEq, Inhabited

namespace NetworkError

def name : NetworkError → String
  | closed => "Closed"
  | timeout => "Timeout"
  | bindFailed => "BindFailed"
  | connectionFailed => "ConnectionFailed"
  | sendFailed => "SendFailed"
  | recvFailed => "RecvFailed"

def message : NetworkError → String
  | closed => "closed"
  | timeout => "timeout"
  | bindFailed => "bind failed"
  | connectionFailed => "connection failed"
  | sendFailed => "send failed"
  | recvFailed => "recv failed"

end NetworkError

inductive Error where
  | invalidPublicKey
  | invalidPrivateKey
  | invalidVersion (version : UInt8)
  | handshakeAuthentication
  /-- The stream ended after this many bytes of an act. -/
  | truncatedAct (received : Nat)
  | handshakeTimeout
  | keyExpansion
  | dialSelf
  | encryptionFailed
  | decryptionFailed
  | malformedFrame
  | messageTooLarge (length : Nat)
  | streamClosed
  | terminated
  | network (cause : NetworkError)
deriving DecidableEq, Inhabited

namespace Error

def name : Error → String
  | invalidPublicKey => "InvalidPublicKey"
  | invalidPrivateKey => "InvalidPrivateKey"
  | invalidVersion _ => "InvalidVersion"
  | handshakeAuthentication => "HandshakeAuthentication"
  | truncatedAct _ => "TruncatedAct"
  | handshakeTimeout => "HandshakeTimeout"
  | keyExpansion => "HkdfExpansion"
  | dialSelf => "DialSelf"
  | encryptionFailed => "EncryptionFailed"
  | decryptionFailed => "DecryptionFailed"
  | malformedFrame => "MalformedFrame"
  | messageTooLarge _ => "MessageTooLarge"
  | streamClosed => "StreamClosed"
  | terminated => "Terminated"
  | network _ => "Network"

def message : Error → String
  | invalidPublicKey => "invalid public key"
  | invalidPrivateKey => "invalid private key"
  | invalidVersion version => s!"invalid handshake version: {version.toNat}"
  | handshakeAuthentication => "handshake authentication failed"
  | truncatedAct received => s!"handshake act truncated after {received} bytes"
  | handshakeTimeout => "handshake timeout"
  | keyExpansion => "HKDF expansion failed"
  | dialSelf => "cannot dial self"
  | encryptionFailed => "encryption failed"
  | decryptionFailed => "decryption failed"
  | malformedFrame => "malformed frame"
  | messageTooLarge length => s!"message too large: {length} bytes"
  | streamClosed => "stream closed"
  | terminated => "connection terminated by a previous failure"
  | network cause => s!"network error: {cause.message}"

def describe (error : Error) : String :=
  match error with
  | invalidVersion version => s!"{error.name}({version.toNat})"
  | truncatedAct received => s!"{error.name}({received})"
  | messageTooLarge length => s!"{error.name}({length})"
  | network cause => s!"{error.name}({cause.name})"
  | _ => error.name

end Error
end NoiseLink
