import NoiseLink.Wire

/-! A conversation of fixed-size acts, written as the list of its steps: what to send, and how to go
on after what is received. Its state is the rest of the conversation, so it can be left waiting
and taken up again, and how its acts were cut into pieces on the way leaves no trace. -/
namespace NoiseLink

inductive Exchange (α : Type) where
  | done (result : Except Error α)
  | send (act : Bytes) (next : Exchange α)
  /-- An act was handed to the sink, which has not taken it yet. -/
  | sending (next : Exchange α)
  | receive (size : Nat) (got : Array UInt8) (next : Octets size → Exchange α)

namespace Exchange

def fail (error : Error) : Exchange α := done (.error error)

/-- Expects an act of a given size. -/
def expect (size : Nat) (next : Octets size → Exchange α) : Exchange α := receive size #[] next

/-- Goes on with the conversation as far as the streams allow. -/
def poll (sink : Sink ω) (source : Source ω) : Exchange α → ω →
    Poll (Except Error α) × Exchange α × ω
  | done result, w => (.ready result, done result, w)
  | send act next, w =>
    match sink.send act w with
    | (.ready (.ok ()), w) => poll sink source next w
    | (.ready (.error cause), w) => (.ready (.error (.network cause)), fail (.network cause), w)
    | (.pending, w) => (.pending, sending next, w)
  | sending next, w =>
    match sink.resume w with
    | (.ready (.ok ()), w) => poll sink source next w
    | (.ready (.error cause), w) => (.ready (.error (.network cause)), fail (.network cause), w)
    | (.pending, w) => (.pending, sending next, w)
  | receive size got next, w =>
    match source.gather size got w with
    | (.full act, w) => poll sink source (next act) w
    | (.waiting got, w) => (.pending, receive size got next, w)
    | (.ended got, w) =>
      (.ready (.error (.truncatedAct got.size)), fail (.truncatedAct got.size), w)
    | (.failed cause _, w) => (.ready (.error (.network cause)), fail (.network cause), w)

end Exchange
end NoiseLink
