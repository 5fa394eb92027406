import Mathlib.Logic.Relation
import NoiseLink.Echo.Server
import NoiseLink.Proofs.Handshake.Meeting
import NoiseLink.Proofs.Link.Writing

/-! An echo server at work on one connection, step by step. Between its steps anything may happen in the
world. It holds at most one piece that it has read and not written back, so at any time what it has written
is what it has read, or all of it but the last piece. -/
namespace NoiseLink

variable {ω : Type} {sink : Sink ω} {source : Source ω}

namespace Record

def handed (r : Record ω) : Bytes := r.done.flatMap Receiver.Completed.bytes

def asked (r : Record ω) (call : Call) : Record ω := { r with attempts := r.attempts ++ [call] }

def answered (r : Record ω) (done : Receiver.Completed ω) : Record ω :=
  { r with attempts := r.attempts ++ [done.call], done := r.done ++ [done] }

def wrote (r : Record ω) (bytes : Bytes) : Record ω :=
  { r with sent := r.sent ++ bytes, frames := r.frames ++ Bytes.chunks maxPayloadLength bytes }

@[simp] theorem handed_asked (r : Record ω) (call : Call) : (r.asked call).handed = r.handed := rfl

@[simp] theorem handed_answered (r : Record ω) (done : Receiver.Completed ω) :
    (r.answered done).handed = r.handed ++ done.bytes := by
  simp [handed, answered]

@[simp] theorem sent_answered (r : Record ω) (done : Receiver.Completed ω) :
    (r.answered done).sent = r.sent :=
  rfl

@[simp] theorem handed_wrote (r : Record ω) (bytes : Bytes) : (r.wrote bytes).handed = r.handed := rfl

end Record

theorem Receiver.length_of_read {size : Nat} {r next : Receiver} {w after : ω} {bytes : Bytes}
    (h : r.read source size w = (.ready (.ok bytes), next, after)) : bytes.length ≤ size := by
  fun_induction Receiver.read source size r w with
  | case1 => simp_all
  | case2 | case4 =>
    cases h
    exact List.length_take_le ..
  | case3 r w some empty r' w' answer ih => exact ih h
  | case5 =>
    cases h
    exact Nat.zero_le size
  | case6 | case7 => cases h

theorem Sender.terminated_of_close {sender last : Sender} {w after : ω} {answer : Poll (Except Error Unit)}
    (h : sender.close sink w = (answer, last, after)) : last.terminated = true := by
  rw [Sender.close] at h
  split at h <;> cases h <;> rfl

theorem Bytes.length_le_of_mem_chunks {size : Nat} {bytes piece : Bytes} (member : piece ∈ chunks size bytes) :
    piece.length ≤ bytes.length := by
  have inside := (List.sublist_flatten_of_mem member).length_le
  rwa [flatten_chunks] at inside

namespace Echo

/-- What a server is about to do with a connection. -/
inductive Doing where
  | reading
  /-- It has read a piece that is to be written back. -/
  | holding (piece : Bytes)
  /-- Its peer has ended. -/
  | finishing
  | ended (ending : Relay.Ending)

def Doing.after : Except Error Bytes → Doing
  | .ok [] => finishing
  | .ok (byte :: bytes) => holding (byte :: bytes)
  | .error error => ended (.readFailed error)

/-- A connection that is served, and what has come to pass on it. -/
structure Serving (ω : Type) where
  relay : Relay
  doing : Doing
  record : Record ω
  world : ω

/-- One step of a server: a call to read, to write or to close. -/
inductive Works (sink : Sink ω) (source : Source ω) : Serving ω → Serving ω → Prop where
  | waits {c total r w receiver world} :
      c.receiver.read source readBufferSize w = (.pending, receiver, world) →
      Works sink source ⟨⟨c, total⟩, .reading, r, w⟩
        ⟨⟨{ c with receiver }, total⟩, .reading, r.asked (.read readBufferSize), world⟩
  | answers {c total r w answer receiver world} :
      c.receiver.read source readBufferSize w = (.ready answer, receiver, world) →
      Works sink source ⟨⟨c, total⟩, .reading, r, w⟩
        ⟨⟨{ c with receiver }, total⟩, .after answer,
          r.answered ⟨.read readBufferSize, answer, receiver, world⟩, world⟩
  | writes {c total r w piece count sender world} :
      c.sender.write sink piece w = (.ready (.ok count), sender, world) →
      Works sink source ⟨⟨c, total⟩, .holding piece, r, w⟩
        ⟨⟨{ c with sender }, total + count⟩, .reading, r.wrote piece, world⟩
  | breaks {c total r w piece error sender world} :
      c.sender.write sink piece w = (.ready (.error error), sender, world) →
      Works sink source ⟨⟨c, total⟩, .holding piece, r, w⟩
        ⟨⟨{ c with sender }, total⟩, .ended (.writeFailed error), r, world⟩
  | stalls {c total r w piece sender world} :
      c.sender.write sink piece w = (.pending, sender, world) →
      Works sink source ⟨⟨c, total⟩, .holding piece, r, w⟩
        ⟨⟨{ c with sender }, total⟩, .ended (.writeFailed (.network .timeout)), r, world⟩
  | closes {c total r w sender world} :
      c.sender.close sink w = (.ready (.ok ()), sender, world) →
      Works sink source ⟨⟨c, total⟩, .finishing, r, w⟩
        ⟨⟨{ c with sender }, total⟩, .ended .closed, { r with closed := true }, world⟩
  /-- It is not noticed that closing fails. -/
  | leaves {c total r w answer sender world} : answer ≠ .ready (.ok ()) →
      c.sender.close sink w = (answer, sender, world) →
      Works sink source ⟨⟨c, total⟩, .finishing, r, w⟩
        ⟨⟨{ c with sender }, total⟩, .ended .closed, r, world⟩

/-- Nothing but its sink keeps a server from closing. -/
theorem Works.closed {s next : Serving ω} (works : Works sink source s next)
    (ended : next.doing = .ended .closed) (closes : ∀ w, (sink.close w).1 = .ready (.ok ())) :
    next.record.closed = true := by
  cases works with
  | closes => rfl
  | @leaves c _ _ w _ _ _ wrong closed =>
    have well := closes w
    rw [Sender.close] at closed
    split at closed <;> rename_i answer <;> cases closed
    · exact absurd rfl wrong
    · simp [answer] at well
    · simp [answer] at well
  | @answers _ _ _ _ answer => rcases answer with error | _ | ⟨byte, bytes⟩ <;> cases ended
  | _ => cases ended

/-- Before it reads on, a server is handed nothing. -/
theorem Works.handed {s next : Serving ω} (works : Works sink source s next) (reading : next.doing = .reading) :
    next.record.handed = s.record.handed := by
  cases works with
  | waits | writes => rfl
  | @answers _ _ _ _ answer => rcases answer with error | _ | ⟨byte, bytes⟩ <;> cases reading
  | _ => cases reading

/-- What a server can come to, whatever happens in the world between its steps. -/
inductive Served (sink : Sink ω) (source : Source ω) (first : Serving ω) : Serving ω → Prop where
  | start : Served sink source first first
  | works {s next} : Served sink source first s → Works sink source s next → Served sink source first next
  | meanwhile {s world} : Served sink source first s → Served sink source first { s with world }

namespace Serving

def start (connection : Connection) (world : ω) : Serving ω := ⟨⟨connection, 0⟩, .reading, {}, world⟩

/-- What was read and written back. Only the piece that the server holds is missing, or the one that it
could not write. -/
structure Accounts (s : Serving ω) : Prop where
  begins : s.record.sent <+: s.record.handed
  even : (∀ piece, s.doing ≠ .holding piece) → (∀ error, s.doing ≠ .ended (.writeFailed error)) →
    s.record.sent = s.record.handed
  held : ∀ piece, s.doing = .holding piece →
    s.record.handed = s.record.sent ++ piece ∧ piece.length ≤ readBufferSize
  frames : ∀ frame ∈ s.record.frames, 1 ≤ frame.length ∧ frame.length ≤ readBufferSize
  joined : s.record.frames.flatten = s.record.sent
  counted : s.relay.total = s.record.sent.length
  closed : s.doing = .ended .closed → s.relay.connection.sender.terminated = true

variable {s next : Serving ω}

theorem accounts_of_level (level : s.record.sent = s.record.handed) (free : ∀ piece, s.doing ≠ .holding piece)
    (frames : ∀ frame ∈ s.record.frames, 1 ≤ frame.length ∧ frame.length ≤ readBufferSize)
    (joined : s.record.frames.flatten = s.record.sent) (counted : s.relay.total = s.record.sent.length)
    (closed : s.doing = .ended .closed → s.relay.connection.sender.terminated = true) : s.Accounts where
  begins := level ▸ List.prefix_rfl
  even _ _ := level
  held piece holds := absurd holds (free piece)
  frames := frames
  joined := joined
  counted := counted
  closed := closed

theorem accounts_start (connection : Connection) (world : ω) : (start connection world).Accounts :=
  accounts_of_level rfl (by simp [start]) (by simp [start]) rfl rfl (by simp [start])

theorem Accounts.works (accounts : s.Accounts) (works : Works sink source s next) : next.Accounts := by
  obtain ⟨begins, even, held, frames, joined, counted, -⟩ := accounts
  cases works with
  | waits => exact accounts_of_level (even (by simp) (by simp)) (by simp) frames joined counted (by simp)
  | @answers _ _ r _ answer receiver world read =>
    have level : r.sent = r.handed := even (by simp) (by simp)
    rcases answer with error | _ | ⟨byte, bytes⟩
    · refine accounts_of_level ?_ (by simp [Doing.after]) frames joined counted (by simp [Doing.after])
      simp [level, Receiver.Completed.bytes]
    · refine accounts_of_level ?_ (by simp [Doing.after]) frames joined counted (by simp [Doing.after])
      simp [level, Receiver.Completed.bytes]
    · have more : (r.answered ⟨.read readBufferSize, .ok (byte :: bytes), receiver, world⟩).handed =
          r.sent ++ byte :: bytes := by
        simp [level, Receiver.Completed.bytes]
      refine ⟨⟨byte :: bytes, more.symm⟩, fun free => absurd rfl (free _), ?_, frames, joined, counted,
        by simp [Doing.after]⟩
      rintro _ ⟨⟩
      exact ⟨more, Receiver.length_of_read read⟩
  | @writes _ _ r _ piece count sender world written =>
    -- the frames of a piece are no longer than the piece, and that was read into the buffer
    obtain ⟨handed, fits⟩ := held piece rfl
    refine accounts_of_level handed.symm (by simp) ?_ ?_ ?_ (by simp)
    · intro frame member
      rcases List.mem_append.1 member with earlier | last
      · exact frames frame earlier
      · have some := List.length_pos_iff.2 (Bytes.ne_nil_of_mem_chunks last)
        have few := Bytes.length_le_of_mem_chunks last
        omega
    · simpa [Record.wrote, Bytes.flatten_chunks] using joined
    · simp only [Record.wrote, List.length_append, Sender.length_of_write (congrArg Prod.fst written)]
      simp only at counted
      omega
  | breaks | stalls =>
    exact ⟨begins, fun _ whole => absurd rfl (whole _), by simp, frames, joined, counted, by simp⟩
  | closes closed | leaves _ closed =>
    exact accounts_of_level (even (by simp) (by simp)) (by simp) frames joined counted
      fun _ => Sender.terminated_of_close closed

theorem Accounts.meanwhile (accounts : s.Accounts) (world : ω) : { s with world }.Accounts := by
  obtain ⟨begins, even, held, frames, joined, counted, closed⟩ := accounts
  exact ⟨begins, even, held, frames, joined, counted, closed⟩

theorem accounts_of_served {connection : Connection} {world : ω}
    (served : Served sink source (start connection world) s) : s.Accounts := by
  induction served with
  | start => exact accounts_start connection world
  | works _ works ih => exact ih.works works
  | meanwhile _ ih => exact ih.meanwhile _

def Waits (source : Source ω) (s : Serving ω) : Prop :=
  ∃ receiver world, s.relay.connection.receiver.read source readBufferSize s.world =
    (.pending, receiver, world)

/-- What a server works through until it has to wait or is done is a number of its steps. -/
theorem works_advance (d : Duplex ω) {relay next : Relay} {w after : ω} {ending : Option Relay.Ending}
    (h : relay.advance d readBufferSize w = (ending, next, after)) (record : Record ω) :
    ∃ s last, Relation.ReflTransGen (Works d.sink d.source) ⟨relay, .reading, record, w⟩ s ∧
      Works d.sink d.source s ⟨next, ending.elim .reading .ended, last, after⟩ ∧
      (ending = none → s.Waits d.source) := by
  fun_induction Relay.advance d readBufferSize relay w generalizing record with
  | case1 relay w receiver between answer =>
    cases h
    exact ⟨_, _, .refl, .waits answer, fun _ => ⟨_, _, answer⟩⟩
  | case2 relay w error receiver between answer =>
    cases h
    exact ⟨_, _, .refl, .answers answer, nofun⟩
  | case3 relay w receiver between answer taken sender final closed =>
    cases h
    by_cases shut : taken = .ready (.ok ())
    · subst shut
      exact ⟨_, _, .single (.answers answer), .closes closed, nofun⟩
    · exact ⟨_, _, .single (.answers answer), .leaves shut closed, nofun⟩
  | case4 relay w byte bytes receiver between answer count sender later written ih =>
    obtain ⟨s, last, rest, final⟩ := ih h _
    exact ⟨s, last, .head (.answers answer) (.head (.writes written) rest), final⟩
  | case5 relay w byte bytes receiver between answer error sender later written =>
    cases h
    exact ⟨_, _, .single (.answers answer), .breaks written, nofun⟩
  | case6 relay w byte bytes receiver between answer sender later written =>
    cases h
    exact ⟨_, _, .single (.answers answer), .stalls written, nofun⟩

end Serving
end Echo
end NoiseLink
