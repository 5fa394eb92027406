import NoiseLink.Connection
import NoiseLink.Event
import NoiseLink.Exchange

/-! Turning a plain byte stream into an encrypted connection. Either side runs its half of the
handshake as an exchange of acts, and one deadline covers all of it: the exchange is tried first,
so it wins over a deadline that has passed if it can finish at once. -/
namespace NoiseLink

/-- Durations and times are counted in nanoseconds. -/
abbrev Nanoseconds := Nat

def Nanoseconds.ofMilliseconds (ms : Nat) : Nanoseconds := ms * 1000000

def Nanoseconds.ofSeconds (s : Nat) : Nanoseconds := s * 1000000000

structure Config where
  staticKey : PrivateKey
  handshakeTimeout : Nanoseconds := Nanoseconds.ofSeconds 15

inductive Role where
  | dialer
  | listener
deriving DecidableEq

def Role.completed : Role → PublicKey → Event
  | dialer => .dialerCompleted
  | listener => .listenerCompleted

structure Upgrade where
  role : Role
  exchange : Exchange Session
  timeout : Nanoseconds
  /-- Set by the first attempt. -/
  deadline : Option Nanoseconds := none

namespace Upgrade

/-- Continues with a value, or ends the exchange with the error that took its place. -/
def proceed (step : Except Error β) (next : β → Exchange α) : Exchange α :=
  match step with
  | .ok value => next value
  | .error error => .fail error

/-- The dialer's side: send act one, take act two, send act three. -/
def dialerExchange (config : Config) (peer : PublicKey) (ephemeral : PrivateKey) :
    Exchange Session :=
  proceed ((Initiator.start config.staticKey peer).actOne ephemeral) fun (actOne, initiator) =>
    .send actOne.bytes <| .expect Handshake.actTwoLength fun actTwo =>
      proceed (initiator.actThree actTwo) fun (actThree, session) =>
        .send actThree.bytes <| .done (.ok session)

/-- The listener's side: take act one, send act two, take act three. -/
def listenerExchange (config : Config) (ephemeral : PrivateKey) : Exchange Session :=
  .expect Handshake.actOneLength fun actOne =>
    proceed ((Responder.start config.staticKey).receiveActOne actOne) fun responder =>
      proceed (responder.actTwo ephemeral) fun (actTwo, responder) =>
        .send actTwo.bytes <| .expect Handshake.actThreeLength fun actThree =>
          .done (responder.receiveActThree actThree)

def dialer (config : Config) (peer : PublicKey) (ephemeral : PrivateKey) : Upgrade :=
  { role := .dialer, exchange := dialerExchange config peer ephemeral,
    timeout := config.handshakeTimeout }

def listener (config : Config) (ephemeral : PrivateKey) : Upgrade :=
  { role := .listener, exchange := listenerExchange config ephemeral,
    timeout := config.handshakeTimeout }

/-- Nobody dials the key that is their own. -/
def checkPeer (config : Config) (peer : PublicKey) : Except Error Unit :=
  if peer = config.staticKey.publicKey then .error .dialSelf else .ok ()

def poll (sink : Sink ω) (source : Source ω) (now : Nanoseconds) (u : Upgrade) (w : ω) :
    Poll (Except Error Connection) × Upgrade × ω :=
  let deadline := u.deadline.getD (now + u.timeout)
  match u.exchange.poll sink source w with
  | (.ready (.ok session), exchange, w) =>
    (.ready (.ok (Connection.ofSession session)), { u with exchange, deadline }, w)
  | (.ready (.error error), exchange, w) => (.ready (.error error), { u with exchange, deadline }, w)
  | (.pending, exchange, w) =>
    let answer := if deadline ≤ now then .ready (.error .handshakeTimeout) else .pending
    (answer, { u with exchange, deadline }, w)

end Upgrade
end NoiseLink
