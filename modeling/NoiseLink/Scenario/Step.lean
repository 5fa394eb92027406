import NoiseLink.Drain
import NoiseLink.Failure
import NoiseLink.Memory.Fabric
import NoiseLink.Scenario.Excerpt
import NoiseLink.Scenario.Given
import NoiseLink.SocketAddress

/-! The steps of a scenario and the answers to them. A step names the objects that it works on;
`save` names the bytes that it leaves for later steps. -/
namespace NoiseLink.Scenario

open Memory (Faults)

/-- A side of a handshake, and whom a dialer means to reach. -/
inductive Side where
  | dialer (peer : PeerGiven)
  | listener

structure ConfigGiven where
  staticKey : KeyGiven
  /-- In milliseconds. -/
  handshakeTimeout : Option Nat

/-- Where a connection without a handshake has its ciphers from. -/
inductive CiphersGiven where
  | session (name : String)
  | pair (remote : PeerGiven) (outgoing incoming : String)

inductive Step where
  | initiator (staticKey : KeyGiven) (remote : PeerGiven) (name : String)
  | responder (staticKey : KeyGiven) (name : String)
  | actOne (ephemeral : KeyGiven) (who : String) (save : Option String)
  | receiveActOne (act : Data) (who : String)
  | actTwo (ephemeral : KeyGiven) (who : String) (save : Option String)
  | actThree (act : Data) (who : String) (save : Option String)
  | receiveActThree (act : Data) (who : String)
  | cipher (key chainingKey : Data) (name : String)
  | encrypt (data : Data) (count : Nat) (who : String) (save : Option String)
  | decrypt (data : Data) (count : Nat) (who : String) (save : Option String)
  /-- Encrypts numbered texts with one cipher and decrypts them with another. -/
  | transfer (data : Data) (count : Nat) (origin target : String)
  | rotate (count : Nat) (who : String)
  | inspect (who : String)
  | channel (maxRead : Option Nat) (faults : Faults) (name : String)
  | rawSend (data : Data) (who : String)
  | rawClose (who : String)
  | rawReceive (size : Nat) (who : String) (save : Option String)
  | rawDrain (size : Nat) (who : String) (save : Option String)
  | upgrade (side : Side) (config : ConfigGiven) (generator : Generator) (sink source name : String)
  | poll (who : String)
  | connection (ciphers : CiphersGiven) (sink source name : String)
  | split (who : String)
  | send (data : Data) (count : Nat) (who : String)
  | write (data : Data) (count : Nat) (who : String)
  | close (who : String)
  | read (size : Nat) (who : String)
  | receive (who : String)
  | readAll (size : Nat) (who : String)
  | receiveAll (who : String)
  | drop (who : String)
  | advance (milliseconds : Nat)
  | network (maxRead : Option Nat) (name : String)
  | bind (network : String) (generator : Generator) (address : SocketAddress) (config : ConfigGiven)
      (maxHandshakes : Option Nat) (name : String)
  | dial (network : String) (config : ConfigGiven) (address : SocketAddress) (peer : PeerGiven)
      (generator : Generator) (name : String)
  | rawDial (network : String) (address : SocketAddress) (name : String)
  | acceptError (network : String) (address : SocketAddress) (cause : NetworkError)
  | accept (who name : String)

inductive Answer where
  | done
  | pending
  | count (total : Nat)
  | act (act : Excerpt)
  | actThree (act : Excerpt) (session : String)
  | session (session : String)
  | sessionWith (session : String) (remote : PublicKey)
  | encrypted (last : Excerpt) (nonce generation : Nat) (all : Option Excerpt)
  /-- The last result, and how many succeeded and failed if it was not the only one. -/
  | decrypted (last : Except Failure Excerpt) (nonce generation : Nat) (tally : Option (Nat × Nat))
  | rotated (rotation : Rotation)
  | cipher (nonce generation : Nat) (text : String)
  | received (count : Nat) (bytes : Excerpt)
  | message (bytes : Excerpt)
  | drained (pieces : Pieces) (stop : Stop Failure)
  | readOut (pieces : Pieces) (stop : Stop Failure)
  | connected (remote : PublicKey)
  | bound (address : SocketAddress) (key : PublicKey)
  | accepted (address : String) (remote : PublicKey)

end NoiseLink.Scenario
