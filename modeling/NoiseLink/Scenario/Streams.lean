import NoiseLink.Scenario.State

/-! The steps that work on channels directly. -/
namespace NoiseLink.Scenario

open Memory (Fabric Faults Pipe)
open Attempt Play Script

def makeChannel (maxRead : Option Nat) (faults : Faults) (name : String) : Script Answer := do
  if maxRead = some 0 then throw (.fault .zeroReadLimit)
  let i ← withFabric (·.addPipe { channel := { maxRead }, faults })
  storeEnds name ⟨i, i⟩
  return .done

def answerDone : Poll Unit → Answer
  | .ready () => .done
  | .pending => .pending

def rawSend (data : Data) (who : String) : Script Answer := do
  let text ← bytes data
  let i ← sink who
  return answerDone (← finishRaw (← withFabric ((Fabric.sink i).send text)))

def rawClose (who : String) : Script Answer := do
  let i ← sink who
  return answerDone (← finishRaw (← withFabric (Fabric.sink i).close))

def rawReceive (size : Nat) (who : String) (saveAs : Option String) : Script Answer := do
  let i ← source who
  match ← finishRaw (← withFabric ((Fabric.source i .caller).receive size)) with
  | .pending => return .pending
  | .ready bytes =>
    save saveAs bytes
    return .received bytes.length (Excerpt.ofBytes bytes)

def rawDrain (size : Nat) (who : String) (saveAs : Option String) : Script Answer := do
  let i ← source who
  let (pieces, stop) ← withFabric fun f =>
    let (pieces, stop, f) := (Fabric.source i .caller).drain size #[] f
    ((pieces, stop), f)
  save saveAs pieces.toList.flatten
  return .drained (Pieces.ofArray pieces) (stop.map .network)

end NoiseLink.Scenario
