import NoiseLink.Proofs.Echo.Calling
import NoiseLink.Proofs.Echo.Echoing

/-! A client and the echo server, over two streams. What the client was given and what it was handed out
differ only by the message that is on its way, so nothing but that message can come back, and it comes back
in whatever pieces. -/
namespace NoiseLink.Echo

variable {ω : Type} {wires : Wires ω} {capacity : Option Nat} {incoming : Role → ω → Option Tape}

structure Visiting (ω : Type) where
  calling : Calling
  echoing : Echoing ω

namespace Visiting

def start (messages : List Bytes) (peer : Role → PublicKey) (c : Role → CipherState) (w : ω) : Visiting ω :=
  ⟨.saying messages, .start peer c w⟩

def caller (v : Visiting ω) : Caller ω :=
  ⟨v.echoing.dialer, v.calling, v.echoing.dialing, v.echoing.serving.world⟩

def after (v : Visiting ω) (s : Caller ω) : Visiting ω :=
  ⟨s.calling, s.connection, s.record, { v.echoing.serving with world := s.world }⟩

/-- One step, of the client or of the server, or something that does not concern the streams. -/
inductive Step (wires : Wires ω) (incoming : Role → ω → Option Tape) : Visiting ω → Visiting ω → Prop where
  | calls {v s} : Calls (wires.sink .dialer) (wires.source .dialer) v.caller s →
      Step wires incoming v (v.after s)
  | works {calling dialer dialing serving next} :
      Works (wires.sink .listener) (wires.source .listener) serving next →
      Step wires incoming ⟨calling, dialer, dialing, serving⟩ ⟨calling, dialer, dialing, next⟩
  | elsewhere {calling dialer dialing serving world} :
      (∀ role, incoming role world = incoming role serving.world) →
      Step wires incoming ⟨calling, dialer, dialing, serving⟩
        ⟨calling, dialer, dialing, { serving with world }⟩

end Visiting

/-- What a client was given and was handed out so far, of all its messages. -/
inductive Going (messages : List Bytes) : Calling → Record ω → Prop where
  | saying {done rest r} : messages = done ++ rest → r.sent = done.flatten → r.handed = done.flatten →
      r.closed = false → [] ∉ r.frames → Going messages (.saying rest) r
  | hearing {done message got rest r} : messages = done ++ message :: rest →
      r.sent = done.flatten ++ message → r.handed = done.flatten ++ got.toList → r.closed = false →
      [] ∉ r.frames → Going messages (.hearing message got rest) r
  | left {r} : r.sent = messages.flatten → r.handed = messages.flatten → r.closed = true →
      Going messages .left r

/-- A crash that is not the server's fault. -/
inductive Mishap : Crash → Prop where
  | impatient : Mishap (.receive (.network .timeout))
  | closing {error} : Mishap (.close error)

namespace Echoing

theorem Faithful.opened {e : Echoing ω} (faithful : e.Faithful incoming) (live : e.dialing.closed = false) :
    e.serving.record.closed = false ∧ e.Parted := by
  have untold : ¬ e.serving.Told := fun told => by cases live.symm.trans (faithful.told told).1
  have orderly := faithful.orderly
  rw [Serving.Orderly] at orderly
  cases doing : e.serving.doing <;> simp_all [Parted]

/-- What comes back is what was sent. -/
theorem Faithful.echo {e : Echoing ω} (faithful : e.Faithful incoming) (parted : e.Parted) :
    e.dialing.handed <+: e.dialing.sent :=
  (faithful.returned parted).trans (faithful.accounts.begins.trans faithful.heard)

end Echoing

namespace Going

variable {messages : List Bytes} {v : Visiting ω} {s : Caller ω} {e : Echoing ω}

theorem wrote {message : Bytes} {rest : List Bytes} {r : Record ω}
    (going : Going messages (.saying (message :: rest)) r) :
    Going messages (.hearing message #[] rest) (r.wrote message) := by
  cases going with
  | saying split sent handed live full =>
    refine .hearing split ?_ ?_ live ?_
    · simp [Record.wrote, sent]
    · simp [handed]
    · intro member
      rcases List.mem_append.1 member with earlier | last
      · exact full earlier
      · exact Bytes.ne_nil_of_mem_chunks last rfl

theorem closed {r : Record ω} (going : Going messages (.saying []) r) :
    Going messages .left { r with closed := true } := by
  cases going with
  | saying split sent handed =>
    rw [List.append_nil] at split
    subst split
    exact .left sent handed rfl

/-- A message that is back is followed by the next. -/
theorem heard {message : Bytes} {got : Array UInt8} {rest : List Bytes} {r : Record ω}
    (going : Going messages (.hearing message got rest) r) (same : got.toList = message) :
    Going messages (.saying rest) r := by
  subst same
  cases going with
  | @hearing done _ _ _ _ split sent handed live full =>
    have exchanged : messages = (done ++ [got.toList]) ++ rest := by simpa using split
    refine .saying exchanged ?_ ?_ live full
    · simpa using sent
    · simpa using handed

theorem eq_of_full {message : Bytes} {got : Array UInt8} {rest : List Bytes}
    (going : Going messages (.hearing message got rest) e.dialing)
    (faithful : e.Faithful incoming) (full : ¬ got.size < message.length) :
    got.toList = message := by
  cases going with
  | @hearing done _ _ _ _ _ sent handed live =>
    have begins := faithful.echo (faithful.opened live).2
    rw [sent, handed, List.prefix_append_right_inj] at begins
    refine begins.eq_of_length_le ?_
    have size := got.length_toList
    omega

/-- No more than one message is ever on its way. -/
theorem room (short : ∀ message ∈ messages, ∀ most ∈ capacity, 35 * message.length ≤ most)
    (going : Going messages v.calling v.echoing.dialing) : v.echoing.Room capacity := by
  intro most limit
  generalize v.calling = calling at going
  cases going with
  | saying _ sent handed => simp [sent, handed]
  | @hearing done message got rest _ split sent handed =>
    have := short message (by simp [split]) most limit
    simp only [sent, handed, List.length_append]
    omega
  | left sent handed => simp [sent, handed]

theorem writes (apart : wires.Apart capacity incoming)
    (short : ∀ message ∈ messages, ∀ most ∈ capacity, 35 * message.length ≤ most)
    (faithful : v.echoing.Faithful incoming) {message : Bytes} {rest : List Bytes}
    (going : Going messages (.saying (message :: rest)) v.echoing.dialing) :
    ∃ sender world, v.echoing.dialer.sender.write (wires.sink .dialer) message v.echoing.serving.world =
      (.ready (.ok message.length), sender, world) := by
  cases going with
  | saying split sent handed live full =>
    obtain ⟨owed, forth⟩ := faithful.forth
    have returned := (faithful.returned (faithful.opened live).2).length_le
    have begins := faithful.accounts.begins.length_le
    refine apart.write .dialer forth live full fun most limit => ?_
    have := short message (by simp [split]) most limit
    change 35 * (v.echoing.dialing.sent.length - v.echoing.serving.record.handed.length + message.length) ≤ most
    rw [handed] at returned
    rw [sent]
    omega

/-- Each answer to a client that is owed something brings more of its message. -/
theorem answered (apart : wires.Apart capacity incoming) (faithful : e.Faithful incoming) {message : Bytes}
    {got : Array UInt8} {rest : List Bytes} (going : Going messages (.hearing message got rest) e.dialing)
    (missing : got.size < message.length) {answer : Except Error Bytes} {receiver : Receiver} {world : ω}
    (read : e.dialer.receiver.read (wires.source .dialer) (message.length - got.size) e.serving.world =
      (.ready answer, receiver, world)) :
    ∃ byte bytes, answer = .ok (byte :: bytes) ∧
      Going messages (.hearing message (got ++ byte :: bytes) rest)
        (e.dialing.answered ⟨.read (message.length - got.size), .ok (byte :: bytes), receiver, world⟩) ∧
      Echoing.Faithful incoming ⟨{ e.dialer with receiver },
        e.dialing.answered ⟨.read (message.length - got.size), .ok (byte :: bytes), receiver, world⟩,
        { e.serving with world }⟩ := by
  cases going with
  | hearing split sent handed live some =>
    obtain ⟨opened, parted⟩ := faithful.opened live
    obtain ⟨payloads, back⟩ := faithful.back parted
    obtain ⟨bytes, rfl⟩ := back.read_ok (apart.line .listener) read
    have next : Echoing.Faithful incoming ⟨{ e.dialer with receiver },
        e.dialing.answered ⟨.read (message.length - got.size), .ok bytes, receiver, world⟩,
        { e.serving with world }⟩ :=
      faithful.dials apart (.answers read)
    cases bytes with
    | nil =>
      obtain ⟨others, sound⟩ := next.back parted
      have asked : message.length - got.size ≠ 0 := by omega
      obtain ⟨-, closed, -⟩ := sound.stops _ (List.mem_append_right _ List.mem_cons_self) .streamClosed
        (by simp [Receiver.Completed.stop, Call.stop, asked])
      cases opened.symm.trans closed
    | cons byte bytes =>
      refine ⟨byte, bytes, rfl, .hearing split sent ?_ live some, next⟩
      simp [handed, Receiver.Completed.bytes]

theorem calls (apart : wires.Apart capacity incoming)
    (short : ∀ message ∈ messages, ∀ most ∈ capacity, 35 * message.length ≤ most)
    (faithful : v.echoing.Faithful incoming)
    (going : Going messages v.calling v.echoing.dialing)
    (calls : Calls (wires.sink .dialer) (wires.source .dialer) v.caller s) :
    (Going messages s.calling s.record ∧ (v.after s).echoing.Faithful incoming) ∨
      ∃ crash, s.calling = .crashed crash ∧ Mishap crash := by
  have full {message got rest} (still : v.calling = .hearing message got rest) :=
    eq_of_full (still ▸ going) faithful
  have writes {message rest} (still : v.calling = .saying (message :: rest)) :=
    writes apart short faithful (still ▸ going)
  obtain ⟨calling, dialer, dialing, serving⟩ := v
  simp only [Visiting.caller, Visiting.after] at *
  cases calls with
  | writes written => exact .inl ⟨going.wrote, faithful.dials apart (.write written)⟩
  | stumbles fails written =>
    obtain ⟨_, _, well⟩ := writes rfl
    cases written.symm.trans well
    exact absurd rfl (fails _)
  | waits missing read =>
    cases going with
    | hearing split sent handed live some =>
      exact .inl ⟨.hearing split sent handed live some, faithful.dials apart (.waits read)⟩
  | tires => exact .inr ⟨_, rfl, .impatient⟩
  | answers missing read =>
    obtain ⟨byte, bytes, rfl, further, next⟩ := going.answered apart faithful missing read
    exact .inl ⟨further, next⟩
  | @compares _ message got rest _ _ enough =>
    obtain rfl := full rfl enough
    rw [Heard.verdict, if_pos rfl]
    exact .inl ⟨going.heard rfl, faithful⟩
  | closes closed => exact .inl ⟨going.closed, faithful.dials apart (.close closed)⟩
  | slips => exact .inr ⟨_, rfl, .closing⟩

/-- A client that is owed something is not made to wait once the server has written back all of it. -/
theorem not_waits (apart : wires.Apart capacity incoming) (faithful : e.Faithful incoming)
    (level : e.serving.record.sent = e.dialing.sent) {message : Bytes} {got : Array UInt8} {rest : List Bytes}
    (going : Going messages (.hearing message got rest) e.dialing) (short : got.size < message.length)
    {receiver : Receiver} {world : ω} :
    e.dialer.receiver.read (wires.source .dialer) (message.length - got.size) e.serving.world ≠
      (.pending, receiver, world) := by
  intro read
  cases going with
  | @hearing done _ _ _ _ _ sent handed live =>
    obtain ⟨payloads, back⟩ := faithful.back (faithful.opened live).2
    obtain ⟨returned, -⟩ := (back.complete (apart.line .listener) (apart.prompt .dialer)).waits
      (.read (message.length - got.size)) _ _ read
    have all : done.flatten ++ got.toList = done.flatten ++ message :=
      handed.symm.trans (returned.trans (level.trans sent))
    have size := congrArg List.length (List.append_cancel_left all)
    simp only [Array.length_toList] at size
    omega

/-- A client does not wait for a server that waits for it. -/
theorem not_both_wait (apart : wires.Apart capacity incoming) (faithful : e.Faithful incoming)
    {message : Bytes} {got : Array UInt8} {rest : List Bytes}
    (going : Going messages (.hearing message got rest) e.dialing) (short : got.size < message.length)
    (reading : e.serving.doing = .reading) (waits : e.serving.Waits (wires.source .listener))
    {receiver : Receiver} {world : ω} :
    e.dialer.receiver.read (wires.source .dialer) (message.length - got.size) e.serving.world ≠
      (.pending, receiver, world) := by
  obtain ⟨owed, forth⟩ := faithful.forth
  obtain ⟨_, _, idle⟩ := waits
  obtain ⟨heard, -⟩ := (forth.complete (apart.line .dialer) (apart.prompt .listener)).waits
    (.read readBufferSize) _ _ idle
  have level : e.serving.record.sent = e.serving.record.handed :=
    faithful.accounts.even (by simp [reading]) (by simp [reading])
  exact going.not_waits apart faithful (level.trans heard) short

end Going

namespace Visiting

/-- What a visit comes to. -/
structure Fair (wires : Wires ω) (messages : List Bytes) (v : Visiting ω) : Prop where
  echoed : (∀ crash, v.calling ≠ .crashed crash) → v.echoing.Echoed wires
  crashes : ∀ crash, v.calling = .crashed crash → Mishap crash
  /-- A client that has left has got everything back. -/
  whole : v.calling = .left → v.echoing.dialing.closed = true ∧
    v.echoing.dialing.sent = messages.flatten ∧ v.echoing.dialing.handed = messages.flatten
  /-- A client is not made to wait once the server has to wait for it. -/
  answered : ∀ message got rest, v.calling = .hearing message got rest → got.size < message.length →
    v.echoing.serving.doing = .reading → v.echoing.serving.Waits (wires.source .listener) →
    ∃ answer receiver world, v.echoing.dialer.receiver.read (wires.source .dialer)
      (message.length - got.size) v.echoing.serving.world = (.ready answer, receiver, world)

variable {messages : List Bytes} {peer : Role → PublicKey} {c : Role → CipherState} {w : ω}
  {v next : Visiting ω}

/-- The client is in the middle of its messages and nothing has got lost, or it has given up. -/
def Kept (incoming : Role → ω → Option Tape) (messages : List Bytes) (v : Visiting ω) : Prop :=
  (Going messages v.calling v.echoing.dialing ∧ v.echoing.Faithful incoming) ∨
    ∃ crash, v.calling = .crashed crash ∧ Mishap crash

theorem Kept.step (apart : wires.Apart capacity incoming)
    (short : ∀ message ∈ messages, ∀ most ∈ capacity, 35 * message.length ≤ most)
    (kept : v.Kept incoming messages)
    (step : Step wires incoming v next) : next.Kept incoming messages := by
  rcases kept with ⟨going, faithful⟩ | ⟨crash, crashed, mishap⟩
  · cases step with
    | calls calls => exact going.calls apart short faithful calls
    | works works => exact .inl ⟨going, faithful.works apart (going.room short) works⟩
    | elsewhere same => exact .inl ⟨going, faithful.step apart (going.room short) (.elsewhere same)⟩
  · cases step with
    | calls calls =>
      rw [caller, crashed] at calls
      cases calls
    | works | elsewhere => exact .inr ⟨crash, crashed, mishap⟩

theorem kept_of_run (apart : wires.Apart capacity incoming)
    (short : ∀ message ∈ messages, ∀ most ∈ capacity, 35 * message.length ≤ most)
    (empty : ∀ role, incoming role w = some ⟨[], .quiet⟩)
    (run : Relation.ReflTransGen (Step wires incoming) (start messages peer c w) v) :
    v.Kept incoming messages := by
  induction run with
  | refl => exact .inl ⟨.saying rfl rfl rfl rfl (List.not_mem_nil), Echoing.faithful_start peer c empty⟩
  | tail _ step ih => exact ih.step apart short step

theorem Kept.fair (apart : wires.Apart capacity incoming)
    (short : ∀ message ∈ messages, ∀ most ∈ capacity, 35 * message.length ≤ most)
    (kept : v.Kept incoming messages) :
    v.Fair wires messages := by
  rcases kept with ⟨going, faithful⟩ | ⟨crash, crashed, mishap⟩
  · have room := going.room short
    refine ⟨fun _ => faithful.echoed apart room, fun crash crashed => ?_, fun left => ?_, ?_⟩
    · rw [crashed] at going
      cases going
    · rw [left] at going
      cases going with
      | left sent handed closed => exact ⟨closed, sent, handed⟩
    · intro message got rest hearing short reading waits
      rw [hearing] at going
      generalize read : v.echoing.dialer.receiver.read (wires.source .dialer) (message.length - got.size)
        v.echoing.serving.world = result
      obtain ⟨answer | _, receiver, world⟩ := result
      · exact ⟨answer, receiver, world, rfl⟩
      · exact absurd read (going.not_both_wait apart faithful short reading waits)
  · refine ⟨fun free => absurd crashed (free crash), fun other same => ?_, fun left => ?_, ?_⟩
    · rw [crashed] at same
      cases same
      exact mishap
    · rw [crashed] at left
      cases left
    · intro message got rest hearing
      rw [crashed] at hearing
      cases hearing

end Visiting

end NoiseLink.Echo
