import NoiseLink.Echo.Program
import NoiseLink.Scenario.Given

/-! A server and those who visit it one after another: the program itself, or somebody who speaks to the
server by hand. Each leaves before the next comes. -/
namespace NoiseLink.Echo

open Scenario (KeyGiven PeerGiven)
open Tcp (Sockets)

inductive Visitor where
  | program (arguments : List String)
  | plain (bytes : Bytes)
  /-- Completes a handshake, sends messages and reads until they have come back, then sends some
  bytes as they are and ends. -/
  | partner (staticKey : KeyGiven) (peer : PeerGiven) (ephemeral : KeyGiven)
      (messages : List Bytes) (bytes : Bytes)

/-- What a visitor has to tell. -/
inductive Account where
  | report (report : Report)
  | plain (rest : Nat)
  | partner (echoed : Array Bytes) (rest : Nat)

namespace Surroundings

/-- Sends some bytes as they are, ends, and counts what comes back until the stream ends. -/
def sendRest (w : Surroundings) (near : Nat) (bytes : Bytes) : Nat × Surroundings :=
  let w := react (w.onSockets fun s => ((Sockets.send near bytes s).2).finish near)
  let (pieces, _, sockets) :=
    (Sockets.source near reading).drain reading.ahead #[] w.sockets
  (pieces.foldl (fun count piece => count + piece.length) 0, leave { w with sockets } near)

/-- Sends messages one by one, each followed by a turn of the far side, and receives what has come. -/
def converse (near : Nat) : List Bytes → Connection → Array Bytes → Surroundings →
    Array Bytes × Surroundings
  | [], _, echoed, w => (echoed, w)
  | message :: rest, c, echoed, w =>
    let (_, sender, sockets) := c.sender.send (Sockets.sink near) message w.sockets
    let w := react { w with sockets }
    let (echoed, _, receiver, sockets) :=
      c.receiver.receiveAll (Sockets.source near reading) echoed w.sockets
    converse near rest { c with sender, receiver } echoed { w with sockets }

def plainVisit (w : Surroundings) (bytes : Bytes) : Except Error Account × Surroundings :=
  match w.connect w.port with
  | .error cause => (.error (.network cause), w)
  | .ok (near, w) =>
    let (rest, w) := w.sendRest near bytes
    (.ok (.plain rest), w)

/-- A visitor by hand may hold the own key of the server. -/
def partnerVisit (w : Surroundings) (staticKey : PrivateKey) (peer : PublicKey)
    (ephemeral : PrivateKey) (messages : List Bytes) (bytes : Bytes) :
    Except Error Account × Surroundings :=
  match w.reach (Upgrade.dialer { staticKey } peer ephemeral) w.port with
  | (.error error, w) => (.error error, w)
  | (.ok (c, near), w) =>
    let (echoed, w) := converse near messages c #[] w
    let (rest, w) := w.sendRest near bytes
    (.ok (.partner echoed rest), w)

def visit (chance : Chance) (w : Surroundings) : Visitor → Except Error Account × Surroundings
  | .program arguments =>
    let (report, w) := run chance arguments w
    (.ok (.report report), w)
  | .plain bytes => w.plainVisit bytes
  | .partner staticKey peer ephemeral messages bytes =>
    let keys : Except Error (PrivateKey × PublicKey × PrivateKey) := do
      return (← staticKey.key, ← peer.key, ← ephemeral.key)
    match keys with
    | .error error => (.error error, w)
    | .ok (staticKey, peer, ephemeral) => w.partnerVisit staticKey peer ephemeral messages bytes

def serverLog (w : Surroundings) : Array Entry :=
  match w.far with
  | .server server => server.log
  | _ => #[]

end Surroundings

/-- A visit and how much of the server's log is waited for after it: all up to the first line that
holds a text, or nothing if the text is empty. -/
structure Visit where
  visitor : Visitor
  awaited : String

/-- What is waited for unless a visit says otherwise. -/
def Visit.closing : String := "connection closed"

structure Visited where
  account : Except Error Account
  log : Option (List Entry)

namespace Visited

def agreed (v : Visited) : Bool :=
  let counted : Option Nat := do
    let .ok (.report report) := v.account | none
    report.log.toList.findSome? fun
      | .allEchoed _ bytes => some bytes
      | _ => none
  let closed : Option Nat := do
    (← v.log).findSome? fun
      | .closed _ _ bytes => some bytes
      | _ => none
  counted.isSome && counted == closed

end Visited

/-- The entries up to the first whose line holds a text. -/
def upTo (awaited : String) : List Entry → List Entry
  | [] => []
  | entry :: rest =>
    if (entry.line false).contains awaited then [entry] else entry :: upTo awaited rest

/-- Goes through the visits; the first `seen` entries of the server's log are dealt with. -/
def receiveVisits (seed : UInt64) (seen : Nat) (w : Surroundings) : List Visit → List Visited
  | [] => []
  | visit :: rest =>
    let (account, w) := w.visit (Chance.ofSeed seed) visit.visitor
    if visit.awaited.isEmpty then ⟨account, none⟩ :: receiveVisits (seed + 1) seen w rest
    else
      let log := upTo visit.awaited (w.serverLog.toList.drop seen)
      ⟨account, some log⟩ :: receiveVisits (seed + 1) (seen + log.length) w rest

/-- Starts a server and lets it be visited: the report of its start, and of each visit. -/
def host (seed : UInt64) (arguments : List String) (port : Nat) (visits : List Visit) :
    Report × List Visited :=
  let (report, w) := run (Chance.ofSeed seed) arguments { port }
  let w := match report.exit with
    | .serving server => { w with far := .server server }
    | _ => w
  (report, receiveVisits (seed + 1) 0 w visits)

end NoiseLink.Echo
