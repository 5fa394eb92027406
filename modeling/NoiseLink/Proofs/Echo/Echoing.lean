import NoiseLink.Proofs.Echo.Serving
import NoiseLink.Proofs.Link.Complete
import NoiseLink.Proofs.Link.Room

/-! A dialer and the server that echoes it, over two streams. What the dialer sends comes to the server by
one of them, and what the server writes goes back by the other. The frames of the two have nothing to do
with each other, so the bytes are followed: what comes back is a beginning of what the server has written,
that is a beginning of what the server has read, and that is a beginning of what the dialer was given. -/
namespace NoiseLink

open Receiver (contents_honest)

variable {ω : Type} {wires : Wires ω} {capacity : Option Nat} {incoming : Role → ω → Option Tape}
  {tape : ω → Option Tape} {sink : Sink ω} {source : Source ω}

theorem Link.Sound.read_ok (line : Line sink source tape) {payloads : List Bytes} {l : Link ω}
    (sound : l.Sound tape payloads) {size : Nat} {answer : Except Error Bytes} {receiver : Receiver}
    {world : ω} (read : l.receiver.read source size l.world = (.ready answer, receiver, world)) :
    ∃ bytes, answer = .ok bytes := by
  have served := sound.expects.read line.hands (contents_honest ..) size
  rw [read] at served
  cases served with
  | hands => exact ⟨_, rfl⟩
  | ended => exact ⟨[], rfl⟩
  | failed _ reason broken =>
    rw [Link.outlook] at reason
    split at reason
    · cases reason
      exact absurd rfl broken
    · cases reason

/-- Whoever was handed all that was sent before the end reads that it has come. -/
theorem Link.Sound.read_end (line : Line sink source tape) (prompt : source.Prompt tape) {payloads : List Bytes}
    {l : Link ω} (sound : l.Sound tape payloads) (closed : l.closed = true) (all : l.handed = l.sent)
    (size : Nat) :
    ∃ receiver world, l.receiver.read source size l.world = (.ready (.ok []), receiver, world) := by
  have nothing := sound.balance
  rw [← all, eq_comm, List.append_right_eq_self] at nothing
  have expects := sound.expects
  rw [closed] at expects
  have served := expects.read line.hands (contents_honest ..) size
  generalize l.receiver.read source size l.world = result at served
  cases served with
  | waits kept _ _ paused => exact absurd paused (kept.not_paused line.hands prompt)
  | hands _ same =>
    rw [nothing] at same
    obtain ⟨rfl, -⟩ := List.append_eq_nil_iff.1 same.symm
    exact ⟨_, _, rfl⟩
  | ended => exact ⟨_, _, rfl⟩
  | failed _ reason broken =>
    rw [Link.outlook, closed, if_pos rfl] at reason
    cases reason
    exact absurd rfl broken

namespace Echo

/-- A dialer with what has come to pass on its side, and the server. -/
structure Echoing (ω : Type) where
  dialer : Connection
  dialing : Record ω
  serving : Serving ω

namespace Echoing

def start (peer : Role → PublicKey) (c : Role → CipherState) (w : ω) : Echoing ω where
  dialer := .ofCiphers (peer .dialer) (c .dialer) (c .listener)
  dialing := {}
  serving := .start (.ofCiphers (peer .listener) (c .listener) (c .dialer)) w

/-- One step. The dialer does what it likes. -/
inductive Step (wires : Wires ω) (incoming : Role → ω → Option Tape) : Echoing ω → Echoing ω → Prop where
  | dials {dialer dialing serving next record world} :
      Acts (wires.sink .dialer) (wires.source .dialer) dialer dialing serving.world next record world →
      Step wires incoming ⟨dialer, dialing, serving⟩ ⟨next, record, { serving with world }⟩
  | works {dialer dialing serving next} :
      Works (wires.sink .listener) (wires.source .listener) serving next →
      Step wires incoming ⟨dialer, dialing, serving⟩ ⟨dialer, dialing, next⟩
  | elsewhere {dialer dialing serving world} :
      (∀ role, incoming role world = incoming role serving.world) →
      Step wires incoming ⟨dialer, dialing, serving⟩ ⟨dialer, dialing, { serving with world }⟩

def forth (e : Echoing ω) : Link ω where
  sender := e.dialer.sender
  receiver := e.serving.relay.connection.receiver
  world := e.serving.world
  sent := e.dialing.sent
  frames := e.dialing.frames
  closed := e.dialing.closed
  attempts := e.serving.record.attempts
  done := e.serving.record.done

def back (e : Echoing ω) : Link ω where
  sender := e.serving.relay.connection.sender
  receiver := e.dialer.receiver
  world := e.serving.world
  sent := e.serving.record.sent
  frames := e.serving.record.frames
  closed := e.serving.record.closed
  attempts := e.dialing.attempts
  done := e.dialing.done

/-- There is room for all that the dialer has not got back, however it is cut into frames. -/
def Room (capacity : Option Nat) (e : Echoing ω) : Prop :=
  ∀ most ∈ capacity, 35 * (e.dialing.sent.length - e.dialing.handed.length) ≤ most

def Parted (e : Echoing ω) : Prop := e.serving.doing = .ended .closed → e.serving.record.closed = true

end Echoing

def Serving.Told (s : Serving ω) : Prop := ∃ d ∈ s.record.done, d.stop = some .streamClosed

/-- A server ends its direction after its peer, and not before. -/
def Serving.Orderly (s : Serving ω) : Prop :=
  match s.doing with
  | .reading | .holding _ => s.record.closed = false
  | .finishing => s.record.closed = false ∧ s.Told
  | .ended ending => ending = .closed ∧ s.Told

namespace Echoing

/-- Nothing has got lost. -/
structure Faithful (incoming : Role → ω → Option Tape) (e : Echoing ω) : Prop where
  accounts : e.serving.Accounts
  orderly : e.serving.Orderly
  forth : ∃ payloads, e.forth.Sound (incoming .listener) payloads
  back : e.Parted → ∃ payloads, e.back.Sound (incoming .dialer) payloads

variable {e next : Echoing ω}

theorem faithful_start (peer : Role → PublicKey) (c : Role → CipherState) {w : ω}
    (empty : ∀ role, incoming role w = some ⟨[], .quiet⟩) : (start peer c w).Faithful incoming where
  accounts := Serving.accounts_start ..
  orderly := rfl
  forth := ⟨[], Link.sound_start (c .dialer) (empty .listener)⟩
  back _ := ⟨[], Link.sound_start (c .listener) (empty .dialer)⟩

theorem Faithful.heard (faithful : e.Faithful incoming) : e.serving.record.handed <+: e.dialing.sent := by
  obtain ⟨payloads, sound⟩ := faithful.forth
  exact ⟨_, sound.balance.symm⟩

theorem Faithful.returned (faithful : e.Faithful incoming) (parted : e.Parted) :
    e.dialing.handed <+: e.serving.record.sent := by
  obtain ⟨payloads, sound⟩ := faithful.back parted
  exact ⟨_, sound.balance.symm⟩

/-- Whatever the dialer does, the server finds in order. -/
theorem Faithful.dials (apart : wires.Apart capacity incoming) (faithful : e.Faithful incoming)
    {dialer : Connection} {dialing : Record ω} {world : ω}
    (acts : Acts (wires.sink .dialer) (wires.source .dialer) e.dialer e.dialing e.serving.world dialer
      dialing world) :
    Faithful incoming ⟨dialer, dialing, { e.serving with world }⟩ := by
  obtain ⟨accounts, orderly, ⟨owed, forth⟩, back⟩ := faithful
  refine ⟨accounts.meanwhile world, orderly, ?_, fun parted => ?_⟩
  · exact acts.outgoing (apart.line .dialer) (apart.source_keeps .dialer) forth
  · obtain ⟨payloads, sound⟩ := back parted
    exact acts.incoming (apart.line .listener) (apart.sink_keeps .dialer) sound

/-- As long as the server does not end, its steps are those of any connected side. -/
theorem Faithful.serves (apart : wires.Apart capacity incoming) (faithful : e.Faithful incoming)
    (parted : e.Parted) {serving : Serving ω} (accounts : serving.Accounts) (orderly : serving.Orderly)
    (acts : Acts (wires.sink .listener) (wires.source .listener) e.serving.relay.connection
      e.serving.record e.serving.world serving.relay.connection serving.record serving.world) :
    Faithful incoming { e with serving } := by
  obtain ⟨-, -, ⟨owed, forth⟩, back⟩ := faithful
  obtain ⟨payloads, back⟩ := back parted
  refine ⟨accounts, orderly, ?_, fun _ => ?_⟩
  · exact acts.incoming (apart.line .dialer) (apart.sink_keeps .listener) forth
  · exact acts.outgoing (apart.line .listener) (apart.source_keeps .listener) back

/-- The server can write back the piece that it holds. -/
theorem Faithful.writes (apart : wires.Apart capacity incoming) (faithful : e.Faithful incoming)
    (room : e.Room capacity) {piece : Bytes} (holding : e.serving.doing = .holding piece) :
    ∃ sender world, e.serving.relay.connection.sender.write (wires.sink .listener) piece e.serving.world =
      (.ready (.ok piece.length), sender, world) := by
  have opened := faithful.orderly
  rw [Serving.Orderly, holding] at opened
  have parted : e.Parted := by simp [Parted, holding]
  obtain ⟨payloads, back⟩ := faithful.back parted
  have full : [] ∉ e.back.frames := fun member => absurd (faithful.accounts.frames _ member).1 (by simp)
  have held := congrArg List.length (faithful.accounts.held piece holding).1
  have heard := faithful.heard.length_le
  have returned := (faithful.returned parted).length_le
  rw [List.length_append] at held
  refine apart.write .listener back opened full fun most limit => ?_
  have enough := room most limit
  change 35 * (e.serving.record.sent.length - e.dialing.handed.length + piece.length) ≤ most
  omega

theorem Faithful.works (apart : wires.Apart capacity incoming) (faithful : e.Faithful incoming)
    (room : e.Room capacity) {serving : Serving ω}
    (works : Works (wires.sink .listener) (wires.source .listener) e.serving serving) :
    Faithful incoming { e with serving } := by
  have accounts := faithful.accounts.works works
  have orderly := faithful.orderly
  have writes {piece : Bytes} (holding : e.serving.doing = .holding piece) := faithful.writes apart room holding
  obtain ⟨dialer, dialing, before⟩ := e
  cases works with
  | waits read => exact faithful.serves apart nofun accounts orderly (.waits read)
  | @answers _ _ _ _ answer _ _ read =>
    obtain ⟨owed, forth⟩ := faithful.forth
    obtain ⟨bytes, rfl⟩ := forth.read_ok (apart.line .dialer) read
    refine faithful.serves apart nofun accounts ?_ (.answers read)
    cases bytes with
    | nil => exact ⟨orderly, _, List.mem_append_right _ List.mem_cons_self, rfl⟩
    | cons byte bytes => exact orderly
  | writes written => exact faithful.serves apart nofun accounts orderly (.write written)
  | breaks written | stalls written =>
    obtain ⟨_, _, well⟩ := writes rfl
    cases written.symm.trans well
  | closes closed => exact faithful.serves apart nofun accounts ⟨rfl, orderly.2⟩ (.close closed)
  | @leaves c total r w answer sender world _ closed =>
    -- only the direction of the echo is given up, so `Parted` does not hold any more
    obtain ⟨owed, forth⟩ := faithful.forth
    have kept := Sender.keeps_close (apart.sink_keeps .listener) c.sender w
    rw [closed] at kept
    refine ⟨accounts, ⟨rfl, orderly.2⟩, ⟨owed, forth.carry kept⟩, fun parted => ?_⟩
    cases orderly.1.symm.trans (parted rfl)

theorem Faithful.elsewhere (faithful : e.Faithful incoming) {world : ω}
    (same : ∀ role, incoming role world = incoming role e.serving.world) :
    Faithful incoming { e with serving := { e.serving with world } } := by
  obtain ⟨accounts, orderly, ⟨owed, forth⟩, back⟩ := faithful
  refine ⟨accounts.meanwhile _, orderly, ⟨owed, forth.carry (same .listener)⟩, fun parted => ?_⟩
  obtain ⟨payloads, sound⟩ := back parted
  exact ⟨payloads, sound.carry (same .dialer)⟩

theorem Faithful.step (apart : wires.Apart capacity incoming) (faithful : e.Faithful incoming)
    (room : e.Room capacity) (step : Step wires incoming e next) : next.Faithful incoming := by
  cases step with
  | dials acts => exact faithful.dials apart acts
  | works works => exact faithful.works apart room works
  | elsewhere same => exact faithful.elsewhere same

def StepWithin (capacity : Option Nat) (wires : Wires ω) (incoming : Role → ω → Option Tape)
    (e next : Echoing ω) : Prop :=
  e.Room capacity ∧ Step wires incoming e next

/-- As long as there is room, nothing gets lost. -/
theorem Faithful.run (apart : wires.Apart capacity incoming) (faithful : e.Faithful incoming)
    (run : Relation.ReflTransGen (StepWithin capacity wires incoming) e next) : next.Faithful incoming := by
  induction run with
  | refl => exact faithful
  | tail _ step ih => exact ih.step apart step.1 step.2

theorem Faithful.serving (apart : wires.Apart capacity incoming) (faithful : e.Faithful incoming)
    (room : e.Room capacity) {serving : Serving ω}
    (steps : Relation.ReflTransGen (Works (wires.sink .listener) (wires.source .listener)) e.serving serving) :
    Faithful incoming { e with serving } := by
  induction steps with
  | refl => exact faithful
  | tail _ works ih => exact ih.works apart room works

theorem Faithful.told (faithful : e.Faithful incoming) (told : e.serving.Told) :
    e.dialing.closed = true ∧ e.serving.record.handed = e.dialing.sent := by
  obtain ⟨payloads, -, -, -, balance, -, stops, -⟩ := faithful.forth
  obtain ⟨d, member, stop⟩ := told
  obtain ⟨-, closed, nothing, -⟩ := stops d member _ stop
  rw [nothing, List.append_nil] at balance
  exact ⟨closed, balance.symm⟩

theorem Faithful.ended (faithful : e.Faithful incoming) {ending : Relay.Ending}
    (ended : e.serving.doing = .ended ending) : ending = .closed ∧ e.serving.Told := by
  have orderly := faithful.orderly
  rwa [Serving.Orderly, ended] at orderly

theorem Faithful.not_waits (apart : wires.Apart capacity incoming) (faithful : e.Faithful incoming)
    (closed : e.dialing.closed = true) : ¬ e.serving.Waits (wires.source .listener) := by
  rintro ⟨receiver, world, read⟩
  obtain ⟨payloads, sound⟩ := faithful.forth
  have expects := sound.expects
  rw [Echoing.forth, closed] at expects
  have served := expects.read (apart.hands .listener) (contents_honest ..) readBufferSize
  rw [read] at served
  cases served with
  | waits kept _ _ paused => exact kept.not_paused (apart.hands .listener) (apart.prompt .listener) paused

/-- The server works through to its end. It has written back all that the dialer has sent, has closed if
its sink closes, and reports how much it was. -/
def Finishes (wires : Wires ω) (d : Duplex ω) (e : Echoing ω) : Prop :=
  ∃ relay record after, e.serving.relay.advance d readBufferSize e.serving.world =
      (some .closed, relay, after) ∧
    Relation.ReflTransGen (Works (wires.sink .listener) (wires.source .listener)) e.serving
      ⟨relay, .ended .closed, record, after⟩ ∧
    record.sent = e.dialing.sent ∧ relay.connection.sender.terminated = true ∧
    ((∀ w, ((wires.sink .listener).close w).1 = .ready (.ok ())) → record.closed = true) ∧
    Task.entry relay .closed = .closed relay.connection.remoteStatic Tcp.origin e.dialing.sent.length

/-- What an echo is. -/
structure Echoed (wires : Wires ω) (e : Echoing ω) : Prop where
  accounts : e.serving.Accounts
  /-- The server has read a beginning of what the dialer has sent. -/
  heard : e.serving.record.handed <+: e.dialing.sent
  /-- Nothing has come back but what the server has written. -/
  returned : e.Parted → e.dialing.handed <+: e.serving.record.sent
  unbroken : ∀ ending, e.serving.doing = .ended ending → ending = .closed
  whole : e.serving.doing = .ended .closed → e.dialing.closed = true ∧
    e.serving.record.sent = e.dialing.sent ∧ e.serving.relay.connection.sender.terminated = true ∧
    Task.entry e.serving.relay .closed =
      .closed e.serving.relay.connection.remoteStatic Tcp.origin e.dialing.sent.length
  /-- A dialer that reads to the end has got everything back. -/
  home : e.serving.doing = .ended .closed → e.serving.record.closed = true → ∀ size, 0 < size →
    ∃ pieces receiver after, e.dialer.receiver.readAll (wires.source .dialer) size #[] e.serving.world =
        (pieces, .ended, receiver, after) ∧
      e.dialing.handed ++ pieces.toList.flatten = e.dialing.sent
  /-- A server that is at work comes to its end after the dialer's. -/
  finishes : e.serving.doing = .reading → e.dialing.closed = true → ∀ d : Duplex ω,
    d.sink = wires.sink .listener → d.source = wires.source .listener → e.Finishes wires d

theorem Faithful.whole (faithful : e.Faithful incoming) (ended : e.serving.doing = .ended .closed) :
    e.dialing.closed = true ∧ e.serving.record.sent = e.dialing.sent ∧
      e.serving.relay.connection.sender.terminated = true ∧
      Task.entry e.serving.relay .closed =
        .closed e.serving.relay.connection.remoteStatic Tcp.origin e.dialing.sent.length := by
  have accounts := faithful.accounts
  obtain ⟨closed, all⟩ := faithful.told (faithful.ended ended).2
  have sent : e.serving.record.sent = e.dialing.sent := by
    rw [accounts.even (by simp [ended]) (by simp [ended]), all]
  exact ⟨closed, sent, accounts.closed ended, by rw [Task.entry, accounts.counted, sent]⟩

theorem Faithful.home (apart : wires.Apart capacity incoming) (faithful : e.Faithful incoming)
    (ended : e.serving.doing = .ended .closed) (closed : e.serving.record.closed = true) {size : Nat}
    (positive : 0 < size) : ∃ pieces receiver after,
      e.dialer.receiver.readAll (wires.source .dialer) size #[] e.serving.world =
        (pieces, .ended, receiver, after) ∧
      e.dialing.handed ++ pieces.toList.flatten = e.dialing.sent := by
  obtain ⟨payloads, -, -, expects, balance, -⟩ := faithful.back fun _ => closed
  rw [Link.outlook, Echoing.back, closed, if_pos rfl] at expects
  obtain ⟨pieces, receiver, after, read, rest⟩ :=
    expects.readAll (apart.hands .dialer) (apart.prompt .dialer) positive #[]
  refine ⟨#[] ++ pieces, receiver, after, read, ?_⟩
  rw [Array.empty_append, rest, ← (faithful.whole ended).2.1]
  exact balance.symm

theorem Faithful.finishes (apart : wires.Apart capacity incoming) (faithful : e.Faithful incoming)
    (room : e.Room capacity) (reading : e.serving.doing = .reading) (closed : e.dialing.closed = true)
    {d : Duplex ω} (sends : d.sink = wires.sink .listener) (receives : d.source = wires.source .listener) :
    e.Finishes wires d := by
  obtain ⟨dialer, dialing, ⟨relay, doing, record, w⟩⟩ := e
  obtain rfl : doing = .reading := reading
  generalize made : relay.advance d readBufferSize w = result
  obtain ⟨ending, next, after⟩ := result
  obtain ⟨s, last, steps, final, waits⟩ := Serving.works_advance d made record
  rw [sends, receives] at steps final
  have there : Faithful incoming ⟨dialer, dialing, s⟩ := faithful.serving apart room steps
  have done := there.works apart room final
  cases ending with
  | none => exact absurd (receives ▸ waits rfl) (there.not_waits apart closed)
  | some ending =>
    obtain ⟨rfl, -⟩ := done.ended rfl
    obtain ⟨-, all, ended, entry⟩ := done.whole rfl
    exact ⟨next, last, after, made, steps.tail final, all, ended, final.closed rfl, entry⟩

theorem Faithful.echoed (apart : wires.Apart capacity incoming) (faithful : e.Faithful incoming)
    (room : e.Room capacity) : e.Echoed wires where
  accounts := faithful.accounts
  heard := faithful.heard
  returned := faithful.returned
  unbroken _ ended := (faithful.ended ended).1
  whole := faithful.whole
  home ended closed _ := faithful.home apart ended closed
  finishes reading closed _ := faithful.finishes apart room reading closed

end Echoing
end Echo
end NoiseLink
