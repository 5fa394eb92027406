import NoiseLink.Tcp.Connections
import NoiseLink.Tcp.Ends

/-! Running a scenario on sockets: every step is answered, and the scenario goes on after those that
fail. -/
namespace NoiseLink.Tcp

open Scenario (Outcome Play)

def perform : Step → Script Answer
  | .bind taken config name => bind taken config name
  | .dial config target name acceptName => dial config target name acceptName
  | .dialClosed _ => throw (.network .connectionFailed)
  | .dialPlain config name acceptName => dialPlain config name acceptName
  | .plainRead size who => plainRead size who
  | .reset who => reset who
  | .rawSend payload who => rawSend payload who
  | .rawClose who => rawClose who
  | .rawReceive size who => rawReceive size who
  | .rawReceiveAll size who => rawReceiveAll size who
  | .drop who => drop who
  | .dropHalf half who => dropHalf half who
  | .listen staticKey generator config name => listen staticKey generator config name
  | .connect staticKey peer generator config target name acceptName =>
    connect staticKey peer generator config target name acceptName
  | .send payload who => send payload who
  | .write payload who => write payload who
  | .close who => close who
  | .receive who => receive who
  | .read size who => read size who
  | .readAll size total who => readAll size total who

def run (steps : List Step) : List (Outcome Answer) := Play.outcomes (steps.map perform) {}

end NoiseLink.Tcp
