import NoiseLink.Echo.Server

/-! Peers that a client of the program may meet instead of an echo server, each with a fixed way to
behave. A peer serves one connection. -/
namespace NoiseLink.Echo

open Tcp (Sockets)

/-- What a peer does once a handshake is over and a frame has come. -/
inductive Behaviour where
  | close
  | garbage
  | truncate
  /-- Changes the first byte of every frame that it echoes. -/
  | corrupt
deriving DecidableEq

inductive Peer where
  /-- Does nothing, or nothing more. -/
  | silent
  /-- Answers act one with these bytes and ends. -/
  | reply (bytes : Bytes)
  | responder (upgrade : Upgrade) (behaviour : Behaviour)
  | connected (connection : Connection) (behaviour : Behaviour)

namespace Peer

/-- How a peer reads: nothing ahead. -/
def reading : Sockets.Reading := ⟨1, false⟩

/-- A responder that waits for the handshake as long as it takes. -/
def ofKeys (staticKey ephemeral : PrivateKey) (behaviour : Behaviour) : Peer :=
  responder (Upgrade.listener { staticKey, handshakeTimeout := 1 } ephemeral) behaviour

def flipFirst : Bytes → Bytes
  | [] => []
  | byte :: rest => (byte ^^^ 1) :: rest

def finishWith (bytes : Bytes) (socket : Nat) (s : Sockets) : Peer × Sockets :=
  (silent, (((Sockets.sink socket).send bytes s).2).finish socket)

def serve (c : Connection) (behaviour : Behaviour) (socket : Nat) (s : Sockets) : Peer × Sockets :=
  let sink := Sockets.sink socket
  let source := Sockets.source socket reading
  match behaviour with
  | .corrupt =>
    let (frames, _, receiver, s) := c.receiver.receiveAll source #[] s
    let (sender, s) := frames.foldl (fun (sender, s) frame =>
      let (_, sender, s) := Sender.send sink (flipFirst frame) sender s
      (sender, s)) (c.sender, s)
    (connected { c with sender, receiver } behaviour, s)
  | _ =>
    match c.receiver.receive source s with
    | (.pending, receiver, s) => (connected { c with receiver } behaviour, s)
    | (.ready (.error _), _, s) => (silent, s.finish socket)
    | (.ready (.ok _), _, s) =>
      match behaviour with
      | .garbage => finishWith (List.replicate 18 0) socket s
      | .truncate => finishWith (List.replicate 17 0) socket s
      | _ => finishWith [] socket s

/-- Goes on until there is nothing to do but wait. -/
def react (p : Peer) (socket : Nat) (s : Sockets) : Peer × Sockets :=
  let source := Sockets.source socket reading
  match p with
  | silent => (silent, s)
  | reply bytes =>
    if s.held socket < Handshake.actOneLength then (reply bytes, s)
    else
      let (_, s) := source.gather Handshake.actOneLength #[] s
      finishWith bytes socket s
  | responder upgrade behaviour =>
    match upgrade.poll (Sockets.sink socket) source 0 s with
    | (.pending, upgrade, s) => (responder upgrade behaviour, s)
    | (.ready (.error _), _, s) => (silent, s.close socket)
    | (.ready (.ok c), _, s) => serve c behaviour socket s
  | connected c behaviour => serve c behaviour socket s

end Peer
end NoiseLink.Echo
