import NoiseLink.Handshake.Party
import NoiseLink.Receiver

/-! An encrypted connection: the peer that was authenticated, and a half for each direction. -/
namespace NoiseLink

structure Connection where
  remoteStatic : PublicKey
  sender : Sender
  receiver : Receiver
deriving DecidableEq

namespace Connection

def ofCiphers (remoteStatic : PublicKey) (outgoing incoming : CipherState) : Connection :=
  ⟨remoteStatic, Sender.start outgoing, Receiver.start incoming⟩

def ofSession (s : Session) : Connection := ofCiphers s.remoteStatic s.outgoing s.incoming

end Connection
end NoiseLink
