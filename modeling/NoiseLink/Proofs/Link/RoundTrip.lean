import NoiseLink.Proofs.Link.Honest
import NoiseLink.Proofs.Sender.Emission

/-! One direction of a connection at work. Calls of the sender and attempts of the receiver come in
any order, and what the receiver hands out is what the sender was given: the same bytes in the same
order, and the same messages if only messages are received. -/
namespace NoiseLink

open Receiver (Completed Expects honest contents_honest)

/-- Both halves of a direction, the world of their streams and what has happened so far. -/
structure Link (ω : Type) where
  sender : Sender
  receiver : Receiver
  world : ω
  /-- The bytes that the calls of the sender were given. -/
  sent : Bytes
  /-- The frames that they make. -/
  frames : List Bytes
  closed : Bool
  /-- The calls of the receiver, answered or not. -/
  attempts : List Call
  done : List (Completed ω)

namespace Link

def start (c : CipherState) (w : ω) : Link ω := ⟨.start c, .start c, w, [], [], false, [], []⟩

/-- One step of a link: a call of the sender that succeeds, an attempt of the receiver, or something
that happens in the world and does not concern the line. A frame of a write is sent like a message, so
a write that the receiver overtakes is a number of sends. -/
inductive Step (sink : Sink ω) (source : Source ω) (tape : ω → Option Tape) :
    Link ω → Link ω → Prop where
  | send {l message sender world} :
      l.sender.send sink message l.world = (.ready (.ok ()), sender, world) →
      Step sink source tape l
        { l with sender, world, sent := l.sent ++ message, frames := l.frames ++ [message] }
  | write {l bytes size sender world} :
      l.sender.write sink bytes l.world = (.ready (.ok size), sender, world) →
      Step sink source tape l
        { l with
          sender, world
          sent := l.sent ++ bytes
          frames := l.frames ++ Bytes.chunks maxPayloadLength bytes }
  | close {l sender world} : l.sender.close sink l.world = (.ready (.ok ()), sender, world) →
      Step sink source tape l { l with sender, world, closed := true }
  | waits {l call receiver world} :
      l.receiver.attempt source call l.world = (.pending, receiver, world) →
      Step sink source tape l { l with receiver, world, attempts := l.attempts ++ [call] }
  | answers {l call answer receiver world} :
      l.receiver.attempt source call l.world = (.ready answer, receiver, world) →
      Step sink source tape l
        { l with
          receiver, world
          attempts := l.attempts ++ [call]
          done := l.done ++ [⟨call, answer, receiver, world⟩] }
  | elsewhere {l world} : tape world = tape l.world → Step sink source tape l { l with world }

inductive Reached (sink : Sink ω) (source : Source ω) (tape : ω → Option Tape) (c : CipherState) :
    Link ω → Prop where
  | start {w} : tape w = some ⟨[], .quiet⟩ → Reached sink source tape c (start c w)
  | step {l next} : Reached sink source tape c l → Step sink source tape l next →
      Reached sink source tape c next

end Link

def Receiver.Completed.message? (d : Completed ω) : Option Bytes := d.answer.toOption

namespace Link

def handed (l : Link ω) : Bytes := l.done.flatMap Completed.bytes

def messages (l : Link ω) : List Bytes := l.done.filterMap Completed.message?

/-- What the receiver will come to after all that is owed to it. -/
def outlook (l : Link ω) : Stop Error := if l.closed then .failed .streamClosed else .pending

def Whole (l : Link ω) : Prop := ∀ call ∈ l.attempts, call = .receive

/-- Where the bytes of a link are: handed out, left over from a frame, or owed as frames that lie on the
line behind each other and lead from the place of the receiver to the cipher of the sender. -/
structure Sound (tape : ω → Option Tape) (payloads : List Bytes) (l : Link ω) : Prop where
  alive : l.sender.terminated = l.closed
  joined : l.frames.flatten = l.sent
  expects : Expects (honest l.sender.cipher l.closed) tape payloads l.outlook l.receiver l.world
  balance : l.sent = l.handed ++ (l.receiver.residual ++ payloads.flatten)
  whole : l.Whole → l.receiver.residual = [] ∧ l.frames = l.messages ++ payloads
  stops : ∀ d ∈ l.done, ∀ error, d.stop = some error → error = .streamClosed ∧ l.closed = true ∧
    l.receiver.residual ++ payloads.flatten = [] ∧ (l.Whole → payloads = [])
  last : payloads <:+ l.frames

variable {ω : Type} {sink : Sink ω} {source : Source ω} {tape : ω → Option Tape}

theorem sound_start (c : CipherState) {w : ω} (empty : tape w = some ⟨[], .quiet⟩) :
    Sound tape [] (start c w) where
  alive := rfl
  joined := rfl
  expects := ⟨c, _, Receiver.within_between empty, .nil, nofun, rfl, rfl⟩
  balance := rfl
  whole _ := ⟨rfl, rfl⟩
  stops := nofun
  last := List.suffix_rfl

/-- Sending some frames adds them to what is owed. -/
theorem Sound.sent (line : Line sink source tape) {payloads more : List Bytes} {l : Link ω}
    (sound : l.Sound tape payloads)
    (fit : ∀ payload ∈ more, payload.length ≤ maxPayloadLength) {sender : Sender} {world : ω}
    (h : Sender.sendFrames sink more l.sender l.world = (.ready (.ok ()), sender, world)) :
    Sound tape (payloads ++ more)
      { l with sender, world, sent := l.sent ++ more.flatten, frames := l.frames ++ more } := by
  obtain ⟨alive, joined, expects, balance, whole, stops, last⟩ := sound
  cases more with
  | nil =>
    cases h
    simp only [List.flatten_nil, List.append_nil]
    exact ⟨alive, joined, expects, balance, whole, stops, last⟩
  | cons payload more =>
    have live := Sender.alive_of_sendFrames h
    have opened : l.closed = false := alive ▸ live
    obtain ⟨t, holds, quiet⟩ := expects.holds
    rw [opened, if_neg (by simp)] at quiet
    obtain ⟨same, wire, frames, grown⟩ := Sender.sendFrames_ok line holds quiet h
    refine ⟨by rw [same, alive], ?_, ?_, ?_, ?_, ?_, ?_⟩
    · rw [List.flatten_append, joined]
    · have sent := (opened ▸ expects).sent frames fit fun rest there _ => by
        rw [holds] at there
        cases there
        exact grown
      change Expects (honest sender.cipher l.closed) tape _ l.outlook l.receiver world
      rw [opened]
      exact sent
    · rw [balance]
      simp [handed]
    · intro only
      obtain ⟨clear, split⟩ := whole only
      exact ⟨clear, by rw [split, messages, messages, List.append_assoc]⟩
    · intro d member error found
      obtain ⟨-, closed, -⟩ := stops d member error found
      rw [opened] at closed
      cases closed
    · obtain ⟨paid, split⟩ := last
      exact ⟨paid, by rw [← split, List.append_assoc]⟩

theorem Whole.before {l next : Link ω} {call : Call} (only : next.Whole)
    (added : next.attempts = l.attempts ++ [call]) : l.Whole ∧ call = .receive := by
  rw [Whole, added] at only
  exact ⟨fun call member => only call (List.mem_append_left _ member),
    only call (List.mem_append_right _ List.mem_cons_self)⟩

/-- An attempt that waits leaves everything where it is. -/
theorem Sound.waits (line : Line sink source tape) {payloads : List Bytes} {l : Link ω}
    (sound : l.Sound tape payloads) {call : Call} {receiver : Receiver} {world : ω}
    (h : l.receiver.attempt source call l.world = (.pending, receiver, world)) :
    ∃ others, Sound tape others { l with receiver, world, attempts := l.attempts ++ [call] } := by
  obtain ⟨alive, joined, expects, balance, whole, stops, last⟩ := sound
  have served := expects.attempt line.hands (contents_honest ..) call
  rw [h] at served
  cases served with
  | @waits others _ _ _ kept same only _ later =>
    refine ⟨others, alive, joined, kept, ?_, ?_, ?_, later.trans last⟩
    · rw [balance, same]
      rfl
    · intro wholly
      obtain ⟨before, receives⟩ := wholly.before rfl
      obtain ⟨clear, unchanged⟩ := only receives
      exact ⟨clear, by rw [(whole before).2, unchanged]; rfl⟩
    · intro d member error found
      obtain ⟨end', closed, nothing, none⟩ := stops d member error found
      refine ⟨end', closed, same ▸ nothing, fun wholly => ?_⟩
      obtain ⟨before, receives⟩ := wholly.before rfl
      rw [← (only receives).2]
      exact none before

def answered (l : Link ω) (call : Call) (answer : Except Error Bytes) (receiver : Receiver)
    (world : ω) : Link ω :=
  { l with
    receiver, world
    attempts := l.attempts ++ [call]
    done := l.done ++ [⟨call, answer, receiver, world⟩] }

/-- Bytes that are handed out are paid from the front of what is owed. -/
theorem Sound.pays {payloads others : List Bytes} {l : Link ω} (sound : l.Sound tape payloads)
    {call : Call} {bytes : Bytes} {receiver : Receiver} {world : ω}
    (kept : Expects (honest l.sender.cipher l.closed) tape others l.outlook receiver world)
    (same : l.receiver.residual ++ payloads.flatten =
      bytes ++ (receiver.residual ++ others.flatten))
    (only : call = .receive → l.receiver.residual = [] →
      receiver.residual = [] ∧ payloads = bytes :: others)
    (silent : call.stop (.ok bytes) = none) (later : others <:+ payloads) :
    (l.answered call (.ok bytes) receiver world).Sound tape others := by
  obtain ⟨alive, joined, -, balance, whole, stops, last⟩ := sound
  refine ⟨alive, joined, kept, ?_, ?_, ?_, later.trans last⟩
  · change l.sent = _
    rw [balance, same]
    simp [answered, handed, Completed.bytes]
  · intro wholly
    obtain ⟨before, receives⟩ := wholly.before rfl
    obtain ⟨clear, split⟩ := whole before
    obtain ⟨left, first⟩ := only receives clear
    refine ⟨left, ?_⟩
    change l.frames = _
    rw [split, first]
    simp [answered, messages, Completed.message?, Except.toOption]
  · intro d member error found
    rcases List.mem_append.1 member with earlier | last
    · obtain ⟨ends, closed, nothing, none⟩ := stops d earlier error found
      rw [same] at nothing
      refine ⟨ends, closed, (List.append_eq_nil_iff.1 nothing).2, fun wholly => ?_⟩
      obtain ⟨before, receives⟩ := wholly.before rfl
      have first := (only receives (whole before).1).2
      rw [none before] at first
      cases first
    · rw [List.mem_singleton.1 last, Completed.stop, silent] at found
      cases found

/-- The end is reported once the sender has closed and all is paid. -/
theorem Sound.ends {payloads : List Bytes} {l : Link ω} (sound : l.Sound tape payloads)
    {call : Call} {receiver : Receiver} {world : ω}
    (kept : Expects (honest l.sender.cipher l.closed) tape [] l.outlook receiver world)
    (empty : l.receiver.residual ++ payloads.flatten = []) (only : call = .receive → payloads = [])
    (clear : receiver.residual = []) (closed : l.outlook = .failed .streamClosed)
    (report : call.stop call.atEnd = some .streamClosed) :
    (l.answered call call.atEnd receiver world).Sound tape [] := by
  obtain ⟨alive, joined, -, balance, whole, stops, -⟩ := sound
  have shut : l.closed = true := by
    rw [outlook] at closed
    split at closed
    · assumption
    · cases closed
  refine ⟨alive, joined, kept, ?_, ?_, ?_, List.nil_suffix⟩
  · change l.sent = _
    rw [balance, empty]
    simp [answered, handed, Completed.bytes_of_stop report, clear]
  · intro wholly
    obtain ⟨before, rfl⟩ := wholly.before rfl
    refine ⟨clear, ?_⟩
    change l.frames = _
    rw [(whole before).2, only rfl]
    simp [answered, messages, Completed.message?, Call.atEnd, Except.toOption]
  · intro d member error found
    have nothing : receiver.residual ++ [].flatten = [] := by rw [clear]; rfl
    rcases List.mem_append.1 member with earlier | last
    · exact ⟨(stops d earlier error found).1, shut, nothing, fun _ => rfl⟩
    · rw [List.mem_singleton.1 last, Completed.stop, report] at found
      cases found
      exact ⟨rfl, shut, nothing, fun _ => rfl⟩

theorem Sound.answers (line : Line sink source tape) {payloads : List Bytes} {l : Link ω}
    (sound : l.Sound tape payloads) {call : Call} {answer : Except Error Bytes} {receiver : Receiver}
    {world : ω} (h : l.receiver.attempt source call l.world = (.ready answer, receiver, world)) :
    ∃ others, (l.answered call answer receiver world).Sound tape others := by
  have served := sound.expects.attempt line.hands (contents_honest ..) call
  rw [h] at served
  cases served with
  | hands kept same only silent later => exact ⟨_, sound.pays kept same only silent later⟩
  | ended kept empty only clear closed report =>
    exact ⟨[], sound.ends kept empty only clear closed report⟩
  | failed _ reason broken _ _ =>
    rw [outlook] at reason
    split at reason
    · cases reason
      exact absurd rfl broken
    · cases reason

theorem Sound.carry {other : ω → Option Tape} {payloads : List Bytes} {l : Link ω} {world : ω}
    (sound : l.Sound tape payloads) (same : other world = tape l.world) :
    Sound other payloads { l with world } := by
  obtain ⟨alive, joined, ⟨c, t, within, contents⟩, balance, whole, stops, last⟩ := sound
  obtain ⟨live, taken, rest, place, holds, rewound⟩ := within
  exact ⟨alive, joined, ⟨c, t, ⟨live, taken, rest, place, same.trans holds, rewound⟩, contents⟩,
    balance, whole, stops, last⟩

theorem Sound.step (line : Line sink source tape) {payloads : List Bytes} {l next : Link ω}
    (sound : l.Sound tape payloads) (step : Step sink source tape l next) :
    ∃ others, next.Sound tape others := by
  cases step with
  | @send message _ _ sent =>
    rw [Sender.send] at sent
    split at sent
    · simp at sent
    · rename_i fits
      have framed : Sender.sendFrames sink [message] l.sender l.world = _ :=
        Sender.sendFrames_singleton sent
      have fit : ∀ payload ∈ [message], payload.length ≤ maxPayloadLength := by simpa using fits
      have grown := sound.sent line fit framed
      rw [List.flatten_singleton] at grown
      exact ⟨_, grown⟩
  | @write bytes size _ _ written =>
    rw [Sender.write] at written
    split at written
    · rename_i sent
      have grown := sound.sent line (fun _ => Bytes.length_of_mem_chunks (by decide)) sent
      rw [Bytes.flatten_chunks] at grown
      cases written
      exact ⟨_, grown⟩
    · simp at written
    · simp at written
  | @close sender world closed =>
    obtain ⟨alive, joined, expects, balance, whole, stops, last⟩ := sound
    rw [Sender.close] at closed
    split at closed
    · rename_i after taken
      cases closed
      refine ⟨payloads, rfl, joined, ?_, balance, whole, ?_, last⟩
      · exact expects.closed fun t holds sound => line.closed holds sound taken
      · intro d member error found
        obtain ⟨ends, -, paid⟩ := stops d member error found
        exact ⟨ends, rfl, paid⟩
    · simp at closed
    · simp at closed
  | waits pending => exact sound.waits line pending
  | answers answered => exact sound.answers line answered
  | elsewhere same => exact ⟨payloads, sound.carry same⟩

theorem sound_of_reached (line : Line sink source tape) {c : CipherState} {l : Link ω}
    (reached : Reached sink source tape c l) : ∃ payloads, l.Sound tape payloads := by
  induction reached with
  | start empty => exact ⟨[], sound_start c empty⟩
  | step _ step ih =>
    obtain ⟨payloads, sound⟩ := ih
    exact sound.step line step

/-- Wherever a link has come to, the receiver has handed out a beginning of what was sent, and of the
messages if only messages were asked for. It has reported no failure, and the end only after the
sender's and after all bytes. It waits only for the stream, and once the sender has closed, reading on
from here yields exactly the rest. -/
theorem round_trip (line : Line sink source tape) {c : CipherState} {l : Link ω}
    (reached : Reached sink source tape c l) :
    l.handed <+: l.sent ∧
    (∀ d ∈ l.done, ∀ error, d.stop = some error →
      error = .streamClosed ∧ l.closed = true ∧ l.handed = l.sent) ∧
    l.frames.flatten = l.sent ∧
    (l.Whole → l.messages <+: l.frames ∧
      ∀ d ∈ l.done, ∀ error, d.stop = some error → l.messages = l.frames) ∧
    (∀ call next after, l.receiver.attempt source call l.world = (.pending, next, after) →
      ∃ left, source.Paused tape after left) ∧
    (l.closed = true → source.Prompt tape →
      (∀ size, 0 < size → ∃ pieces receiver after,
        l.receiver.readAll source size #[] l.world = (pieces, .ended, receiver, after) ∧
          l.handed ++ pieces.toList.flatten = l.sent) ∧
      (l.Whole → ∃ messages receiver after,
        l.receiver.receiveAll source #[] l.world =
            (messages, .failed .streamClosed, receiver, after) ∧
          l.messages ++ messages.toList = l.frames)) := by
  obtain ⟨payloads, alive, joined, expects, balance, whole, stops, -⟩ := sound_of_reached line reached
  refine ⟨⟨_, balance.symm⟩, ?_, joined, ?_, ?_, ?_⟩
  · intro d member error found
    obtain ⟨ends, closed, paid, -⟩ := stops d member error found
    exact ⟨ends, closed, by rw [balance, paid, List.append_nil]⟩
  · intro only
    obtain ⟨-, split⟩ := whole only
    refine ⟨⟨payloads, split.symm⟩, fun d member error found => ?_⟩
    obtain ⟨-, -, -, paid⟩ := stops d member error found
    rw [split, paid only, List.append_nil]
  · intro call next after waits
    have served := expects.attempt line.hands (contents_honest ..) call
    rw [waits] at served
    cases served with
    | waits _ _ _ paused => exact ⟨_, paused⟩
  · intro closed prompt
    rw [outlook, closed, if_pos rfl] at expects
    constructor
    · intro size positive
      obtain ⟨pieces, receiver, after, read, rest⟩ :=
        expects.readAll line.hands prompt positive #[]
      exact ⟨#[] ++ pieces, receiver, after, read, by rw [Array.empty_append, rest, balance]⟩
    · intro only
      obtain ⟨clear, split⟩ := whole only
      obtain ⟨receiver, after, received⟩ := expects.receiveAll line.hands prompt #[] clear
      exact ⟨_, receiver, after, received, by simp [split]⟩

/-- Two bytes are sent and the line is closed; a reader that gets single bytes gets both of them. -/
theorem round_trip_of_two_bytes :
    Line (Memory.Fabric.sink 0) (Memory.Fabric.source 0 .caller) (Memory.Fabric.line? 0) ∧
    ∃ l : Link Memory.Fabric,
      Reached (Memory.Fabric.sink 0) (Memory.Fabric.source 0 .caller) (Memory.Fabric.line? 0)
        (.start (.zero 32) (.zero 32)) l ∧
      l.sent = [104, 105] ∧ ∃ pieces receiver after,
        l.receiver.readAll (Memory.Fabric.source 0 .caller) 1 #[] l.world =
          (pieces, .ended, receiver, after) ∧ pieces.toList.flatten = [104, 105] := by
  have line := Memory.Fabric.line_pipe 0 .caller
  have fits : ([104, 105] : Bytes).length ≤ maxPayloadLength := by decide
  obtain ⟨wire, next, framed⟩ := (CipherState.start (.zero 32) (.zero 32)).frame_of_length fits
  obtain ⟨middle, final, taken, closed⟩ : ∃ middle final,
      (Memory.Fabric.sink 0).send wire (.trickle [] false) = (.ready (.ok ()), middle) ∧
      (Memory.Fabric.sink 0).close middle = (.ready (.ok ()), final) := ⟨_, _, rfl, rfl⟩
  have sent : Reached (Memory.Fabric.sink 0) (Memory.Fabric.source 0 .caller)
      (Memory.Fabric.line? 0) (.start (.zero 32) (.zero 32))
      ⟨.start next, .start (.start (.zero 32) (.zero 32)), middle, [104, 105], [[104, 105]], false,
        [], []⟩ :=
    .step (.start (Memory.Fabric.line?_trickle [] false))
      (.send (Sender.send_of_taken fits framed taken))
  have ended : Reached (Memory.Fabric.sink 0) (Memory.Fabric.source 0 .caller)
      (Memory.Fabric.line? 0) (.start (.zero 32) (.zero 32))
      ⟨⟨next, true⟩, .start (.start (.zero 32) (.zero 32)), final, [104, 105], [[104, 105]], true,
        [], []⟩ :=
    .step sent (.close (by simp [Sender.close, Sender.start, closed]))
  obtain ⟨-, -, -, -, -, toTheEnd⟩ := round_trip line ended
  obtain ⟨pieces, receiver, after, read, all⟩ :=
    (toTheEnd rfl (Memory.Fabric.prompt_line 0 .caller)).1 1 Nat.one_pos
  exact ⟨line, _, ended, rfl, pieces, receiver, after, read, all⟩

end Link
end NoiseLink
