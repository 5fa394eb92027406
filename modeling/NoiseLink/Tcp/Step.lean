import NoiseLink.Drain
import NoiseLink.Failure
import NoiseLink.Scenario.Excerpt
import NoiseLink.Scenario.Given
import NoiseLink.Tcp.Config

/-! The steps of a scenario on sockets and the answers to them. -/
namespace NoiseLink.Tcp

open Scenario (Excerpt KeyGiven PeerGiven Pieces)

/-- Bytes to send, which may be far more than are worth writing out. -/
inductive Payload where
  | literal (bytes : Bytes)
  | fill (byte : UInt8) (count : Nat)

def Payload.take : Payload → Nat → Bytes
  | literal bytes, limit => bytes.take limit
  | fill byte count, limit => List.replicate (min count limit) byte

def Payload.bytes : Payload → Bytes
  | literal bytes => bytes
  | fill byte count => List.replicate count byte

inductive Half where
  | sink
  | stream

inductive Step where
  /-- Listens on a free port, or on the one that another listener has taken. -/
  | bind (taken : Option String) (config : List Setting) (name : String)
  | dial (config : List Setting) (target name acceptName : String)
  | dialClosed (name : String)
  | dialPlain (config : List Setting) (name acceptName : String)
  | plainRead (size : Nat) (who : String)
  /-- Closes a plain socket without reading what it has left. -/
  | reset (who : String)
  | rawSend (payload : Payload) (who : String)
  | rawClose (who : String)
  | rawReceive (size : Nat) (who : String)
  | rawReceiveAll (size : Nat) (who : String)
  | drop (who : String)
  | dropHalf (half : Half) (who : String)
  | listen (staticKey : KeyGiven) (generator : Generator) (config : List Setting) (name : String)
  | connect (staticKey : KeyGiven) (peer : PeerGiven) (generator : Generator)
      (config : List Setting) (target name acceptName : String)
  | send (payload : Payload) (who : String)
  | write (payload : Payload) (who : String)
  | close (who : String)
  | receive (who : String)
  | read (size : Nat) (who : String)
  | readAll (size total : Nat) (who : String)

inductive Answer where
  | done
  | host (address : String)
  | bytes (bytes : Excerpt)
  | received (count : Nat) (bytes : Excerpt)
  /-- All that was asked for, or what there was of it and why no more. -/
  | receivedAll (bytes : Excerpt) (stop : Option (Stop Failure))
  | key (key : PublicKey)
  | connected (address : String) (dialerSees listenerSees : PublicKey)
  | count (total : Nat)
  | readOut (pieces : Pieces)

end NoiseLink.Tcp
