import NoiseLink.Echo.Log
import NoiseLink.Tcp.Config
import NoiseLink.Upgrade

/-! What the echo program is asked to do. An identity is a seed for a key and a place, joined by an at
sign; everything that is wrong with the arguments ends the program before it reaches the network. -/
namespace NoiseLink.Echo

/-- Why the program breaks off. -/
inductive Crash where
  | identity
  | seed (reason : Decimal.Invalid)
  | port (reason : Decimal.Invalid)
  | address
  | bind (error : Error)
  | dial (error : Error)
  | send (error : Error)
  | receive (error : Error)
  | serverClosed
  | mismatch
  | close (error : Error)

def Crash.message : Crash → String
  | identity => "Identity not well-formed"
  | seed reason => s!"Seed not well-formed: {reason.describe}"
  | port reason => s!"Port not well-formed: {reason.describe}"
  | address => "Peer address not well-formed: AddrParseError(Socket)"
  | bind error => s!"Failed to bind listener: {error.describe}"
  | dial error => s!"Failed to dial peer: {error.describe}"
  | send error => s!"Failed to send message: {error.describe}"
  | receive error => s!"Failed to receive echo: {error.describe}"
  | serverClosed => "Server closed the connection"
  | mismatch => "assertion `left == right` failed: echo mismatch"
  | close error => s!"Failed to close connection: {error.describe}"

def identity (text : String) : Except Crash (UInt64 × String) :=
  match text.splitOn "@" with
  | [seed, place] => do
    let seed ← (Decimal.read (1 <<< 64) seed).mapError Crash.seed
    return (UInt64.ofNat seed, place)
  | _ => throw .identity

inductive Job where
  | serve (config : Config) (port : Nat)
  | dial (config : Config) (peer : PublicKey) (address : SocketAddress) (messages : Nat)

/-- Works out the job and what is reported on the way. -/
def Job.prepare (arguments : Arguments) : List Entry × Except Crash Job :=
  match identity arguments.me with
  | .error crash => ([], .error crash)
  | .ok (seed, port) =>
    let staticKey := PrivateKey.ofSeed seed
    let config : Config :=
      { staticKey, handshakeTimeout := .ofSeconds arguments.handshakeTimeout }
    let job : Except Crash Job := do
      let port ← (Decimal.read (1 <<< 16) port).mapError Crash.port
      match arguments.peer with
      | none => return .serve config port
      | some peer =>
        let (seed, place) ← identity peer
        let some address := SocketAddress.read? place | throw .address
        return .dial config (PrivateKey.ofSeed seed).publicKey address arguments.messages
    ([.loadedKey staticKey.publicKey], job)

end NoiseLink.Echo
