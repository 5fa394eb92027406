import NoiseLink.CipherState
import NoiseLink.Key

/-! What the library reports while it works, with the level and the part that each report comes
from. -/
namespace NoiseLink

inductive Event where
  | rotated (rotation : Rotation)
  | dialerCompleted (peer : PublicKey)
  | listenerCompleted (peer : PublicKey)
  | upgradeFailed (error : Error) (address : String)
  /-- A connection was turned away because enough handshakes were under way. -/
  | handshakeLimit (address : String)

namespace Event

def level : Event → String
  | rotated _ => "TRACE"
  | _ => "DEBUG"

/-- The module name that a report is filed under. -/
def part : Event → String
  | rotated _ => "cipher"
  | dialerCompleted _ | listenerCompleted _ => "connection"
  | upgradeFailed .. | handshakeLimit _ => "listener"

def text : Event → String
  | rotated rotation => s!"rotated key from={rotation.before} to={rotation.after}"
  | dialerCompleted peer => s!"dialer completed handshake peer={peer.text}"
  | listenerCompleted peer => s!"listener completed handshake peer={peer.text}"
  | upgradeFailed error address =>
    s!"failed to upgrade connection err={error.describe} address={address}"
  | handshakeLimit address => s!"maximum concurrent handshakes reached address={address}"

def line (event : Event) : String := event.level ++ " " ++ event.text

end Event
end NoiseLink
