import NoiseLink.Tcp.State

/-! The steps that make raw ends of connections and use them, one half at a time. -/
namespace NoiseLink.Tcp

open Scenario (Excerpt)
open Attempt Scenario.Play

def bind (taken : Option String) (settings : List Setting) (name : String) : Script Answer := do
  match taken with
  | some holder =>
    let .socketListener .. ← object holder | absent
    throw (.network .bindFailed)
  | none =>
    store name (.socketListener (.ofSettings settings) {})
    return .host host

/-- Accepts the end that has waited longest at a listener, for a dialer whose end is `near`. -/
def acceptEnd (listener : String) (near : Nat) : Script Nat := do
  let .socketListener config backlog ← object listener | absent
  let (far, backlog) ← require backlog.accept?
  put listener (.socketListener config backlog)
  checkBuffer config [far, near]
  return far

/-- Dials a listener and accepts there. One that knows of earlier arrivals accepts while the dialer
still connects, another only when the dialer is through. -/
def dial (settings : List Setting) (target name acceptName : String) : Script Answer := do
  let .socketListener accepting backlog ← object target | absent
  let config := Config.ofSettings settings
  let near ← operate (·.connect)
  let backlog := backlog.arrive (Sockets.peer near) (← world)
  put target (.socketListener accepting backlog)
  let early ← if backlog.noticed (← world) then some <$> acceptEnd target near else pure none
  pause
  checkBuffer config (near :: early.toList)
  let far ← match early with
    | some far => pure far
    | none => acceptEnd target near
  store name (.raw true true near config)
  store acceptName (.raw true true far accepting)
  return .host host

def dialPlain (settings : List Setting) (name acceptName : String) : Script Answer := do
  let config := Config.ofSettings settings
  let near ← operate (·.connect)
  pause
  checkBuffer config [near]
  store name (.raw true true near config)
  store acceptName (.plain (Sockets.peer near))
  return .done

def plainRead (size : Nat) (who : String) : Script Answer := do
  let .plain socket ← object who | absent
  match ← operate ((Sockets.source socket ⟨1, true⟩).gather size #[]) with
  | .full unit => return .bytes (Excerpt.ofBytes unit.bytes)
  | .failed cause _ => throw (.network cause)
  | _ => throw (.network .recvFailed)

def reset (who : String) : Script Answer := do
  let .plain _ ← object who | absent
  dropObject who
  return .done

def rawSink (who : String) : Script Nat := do
  let .raw true _ socket _ ← object who | absent
  return socket

def rawStream (who : String) : Script (Source Sockets) := do
  let .raw _ true socket config ← object who | absent
  return Sockets.source socket (reading config)

def rawSend (payload : Payload) (who : String) : Script Answer := do
  let socket ← rawSink who
  discard (finishRaw (← operate ((Sockets.sink socket).send (payload.take (Sockets.capacity + 1)))))
  return .done

def rawClose (who : String) : Script Answer := do
  let socket ← rawSink who
  discard (finishRaw (← operate (Sockets.sink socket).close))
  return .done

def rawReceive (size : Nat) (who : String) : Script Answer := do
  let stream ← rawStream who
  match ← finishRaw (← operate (stream.receive size)) with
  | .ready bytes => return .received bytes.length (Excerpt.ofBytes bytes)
  | .pending => throw (.network .timeout)

def rawReceiveAll (size : Nat) (who : String) : Script Answer := do
  let stream ← rawStream who
  let answer (got : Array UInt8) (stop : Stop Failure) : Answer :=
    .receivedAll (Excerpt.ofBytes got.toList) (some stop)
  match ← operate (stream.gather size #[]) with
  | .full unit => return .receivedAll (Excerpt.ofBytes unit.bytes) none
  | .ended got => return answer got .ended
  | .waiting got => return answer got .pending
  | .failed cause got => return answer got (.failed (.network cause))

def drop (who : String) : Script Answer := do
  discard (object who)
  dropObject who
  return .done

/-- Drops one half of raw ends; the socket is closed with the second. -/
def dropHalf (half : Half) (who : String) : Script Answer := do
  let .raw sink stream socket config ← object who | absent
  match half, sink, stream with
  | .sink, true, _ =>
    put who (.raw false stream socket config)
    change (if stream then Sockets.finish socket else Sockets.close socket)
  | .stream, _, true =>
    put who (.raw sink false socket config)
    if !sink then change (Sockets.close socket)
  | _, _, _ => absent
  return .done

end NoiseLink.Tcp
