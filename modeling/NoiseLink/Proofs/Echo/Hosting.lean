import NoiseLink.Proofs.Echo.Dialing
import NoiseLink.Proofs.Echo.Visiting

/-! An echo server and a client on its sockets. From the dial on, all that the client has sent is before the
server: behind the last act until the server has its next turn, and then as frames. After each turn the
server has written back all that it was sent, so the client is never made to wait for it. -/
namespace NoiseLink.Echo

open Handshake
open Tcp (Sockets)

variable {keys : Config} {near : Nat} {server : Server} {e : Echoing Sockets}

theorem apart_sockets (near : Nat) :
    (Sockets.wires near reading).Apart (some Sockets.capacity) (Sockets.incoming near) :=
  Sockets.apart_wires near rfl

theorem size_advance (relay : Relay) (near : Nat) (w : Sockets) :
    (relay.advance (Sockets.duplex near reading) readBufferSize w).2.2.ends.size = w.ends.size :=
  Relay.keeps_advance (d := Sockets.duplex near reading) (Sockets.source_keeps_size near reading)
    (Sockets.sink_keeps_size near) readBufferSize relay w

structure Attended (keys : Config) (near : Nat) (server : Server) (e : Echoing Sockets) : Prop where
  tasks : ∃ base : Server, base.Stands keys near [] {} ∧
    .accepted e.serving.relay.connection.remoteStatic Tcp.origin ∈ base.log.toList ∧
    server = { base with tasks := base.tasks ++ [⟨e.serving.relay, Sockets.peer near⟩] }
  reading : e.serving.doing = .reading
  faithful : e.Faithful (Sockets.incoming near)
  size : e.serving.world.ends.size = near + 2

/-- A server that has the connection of a client, or will have it after its next turn. -/
inductive Hosting (keys : Config) (near : Nat) (server : Server) (e : Echoing Sockets) : Prop
  | awaits {d : Dialogue} {owed others : List Bytes} : Awaits keys near d server e.serving.world →
      e.serving = .start (.ofSession (d.session .listener)) e.serving.world →
      e.forth.Sound (d.behindThird (Sockets.incoming near) #[]) owed →
      e.back.Sound (Sockets.incoming near .dialer) others → Hosting keys near server e
  | serves : Attended keys near server e → Hosting keys near server e

namespace Hosting

theorem accounts (hosting : Hosting keys near server e) : e.serving.Accounts := by
  cases hosting with
  | awaits _ start =>
    rw [start]
    exact Serving.accounts_start ..
  | serves attended => exact attended.faithful.accounts

theorem reading (hosting : Hosting keys near server e) : e.serving.doing = .reading := by
  cases hosting with
  | awaits _ start =>
    rw [start]
    rfl
  | serves attended => exact attended.reading

theorem opened (hosting : Hosting keys near server e) : e.serving.record.closed = false := by
  cases hosting with
  | awaits _ start =>
    rw [start]
    rfl
  | serves attended =>
    have orderly := attended.faithful.orderly
    rwa [Serving.Orderly, attended.reading] at orderly

theorem back (hosting : Hosting keys near server e) :
    ∃ others, e.back.Sound (Sockets.incoming near .dialer) others := by
  cases hosting with
  | awaits _ _ _ back => exact ⟨_, back⟩
  | serves attended => exact attended.faithful.back (by simp [Echoing.Parted, attended.reading])

theorem heard (hosting : Hosting keys near server e) : e.serving.record.handed <+: e.dialing.sent := by
  cases hosting with
  | awaits _ _ forth => exact ⟨_, forth.balance.symm⟩
  | serves attended => exact attended.faithful.heard

theorem returned (hosting : Hosting keys near server e) : e.dialing.handed <+: e.serving.record.sent := by
  obtain ⟨others, back⟩ := hosting.back
  exact ⟨_, back.balance.symm⟩

theorem size (hosting : Hosting keys near server e) : e.serving.world.ends.size = near + 2 := by
  cases hosting with
  | awaits awaits => exact awaits.size
  | serves attended => exact attended.size

theorem even (hosting : Hosting keys near server e) : near % 2 = 0 := by
  cases hosting with
  | awaits awaits =>
    obtain ⟨_, _, stands, _⟩ := awaits.stands
    exact stands.even
  | serves attended =>
    obtain ⟨base, stands, -⟩ := attended.tasks
    exact stands.even

theorem inside (hosting : Hosting keys near server e) :
    near < e.serving.world.ends.size ∧ Sockets.peer near < e.serving.world.ends.size := by
  have even := hosting.even
  rw [hosting.size, Sockets.peer, if_pos even]
  omega

theorem far (hosting : Hosting keys near server e) : ∃ t, e.serving.world.tape? (Sockets.peer near) = some t ∧
    t.ending = if e.dialing.closed then .closed else .quiet := by
  cases hosting with
  | @awaits d _ _ _ _ forth =>
    obtain ⟨left, behind, quiet⟩ := forth.expects.holds
    obtain ⟨-, t, holds, begins⟩ := underway_of_behindThird (by decide) behind
    have same := congrArg Tape.ending begins
    exact ⟨t, holds, same.trans quiet⟩
  | serves attended =>
    obtain ⟨owed, forth⟩ := attended.faithful.forth
    exact forth.expects.holds

/-- What the client does goes before the server, as long as it is told of it. -/
theorem acts (hosting : Hosting keys near server e) {c : Connection} {r : Record Sockets} {s : Sockets}
    (acts : Acts (Sockets.sink near) (Sockets.source near Echo.reading) e.dialer e.dialing e.serving.world
      c r s)
    (unseen : e.serving.world.Unseen (Sockets.peer near) → s.Unseen (Sockets.peer near))
    (size : s.ends.size = e.serving.world.ends.size) :
    Hosting keys near server ⟨c, r, { e.serving with world := s }⟩ := by
  have apart := apart_sockets near
  cases hosting with
  | @awaits d _ _ awaits start forth back =>
    obtain ⟨owed, forth⟩ := acts.outgoing ((apart.line .dialer).behind _ _)
      (d.keeps_behindThird (apart.source_keeps .dialer) #[]) forth
    obtain ⟨others, back⟩ := acts.incoming (apart.line .listener) (apart.sink_keeps .dialer) back
    refine .awaits ⟨awaits.stands, unseen awaits.unseen, size.trans awaits.size⟩ ?_ forth back
    exact congrArg (fun serving => { serving with world := s }) start
  | serves attended =>
    exact .serves ⟨attended.tasks, attended.reading, attended.faithful.dials apart acts,
      size.trans attended.size⟩

/-- In its turn the server gets to the connection of the client, behind all others. Nothing else counts of
what has happened than that the client can be read as before. -/
theorem resumes (hosting : Hosting keys near server e) {s : Sockets}
    (there : s.tape? (Sockets.peer near) = e.serving.world.tape? (Sockets.peer near))
    (unseen : e.serving.world.Unseen (Sockets.peer near) → s.Unseen (Sockets.peer near))
    (size : s.ends.size = near + 2) :
    ∃ base between, server.react s = Server.serveTasks [⟨e.serving.relay, Sockets.peer near⟩] base between ∧
      base.Stands keys near [] {} ∧
      .accepted e.serving.relay.connection.remoteStatic Tcp.origin ∈ base.log.toList ∧
      (∃ owed, { e.forth with world := between }.Sound (Sockets.incoming near .listener) owed) ∧
      between.tape? near = s.tape? near ∧ between.ends.size = near + 2 := by
  have apart := apart_sockets near
  cases hosting with
  | @awaits d owed others awaits start forth back =>
    obtain ⟨id, upgrade, stands, expects⟩ := awaits.stands
    obtain ⟨rest, behind, -⟩ := forth.expects.holds
    obtain ⟨-, t, holds, begins⟩ := underway_of_behindThird (by decide) behind
    have third : Underway (Sockets.incoming near .listener) d.third #[] rest s.pause :=
      ⟨by decide, t, there.trans holds, begins⟩
    have readable := (unseen awaits.unseen).readable (there.trans holds) (third.ne_nil (there.trans holds))
    rcases Meeting.last_poll apart third with
      ⟨more, after, left, -, still, paused, -⟩ | ⟨last, after, ends, found, -, same⟩
    · exact absurd paused (still.not_paused (apart.hands .listener) (apart.prompt .listener))
    have kept := Sockets.size_poll (Sockets.peer near) upgrade.exchange s.pause
    rw [← Exchange.expect, ← expects] at ends
    have polled := Upgrade.poll_of_ready ends 0
    have ends : upgrade.exchange.poll (Sockets.sink (Sockets.peer near))
      (Sockets.source (Sockets.peer near) Echo.reading) s.pause = _ := ends
    rw [ends] at kept
    obtain ⟨base, between, reacts, standing, logged, pair⟩ := stands.completes readable polled
    obtain ⟨near_same, far_same⟩ := Sockets.tape?_of_pair pair
    refine ⟨base, between, ?_, standing, ?_, ⟨owed, forth.carry ((far_same.trans found).trans behind.symm)⟩,
      near_same.trans same, ?_⟩
    · rw [start]
      exact reacts
    · rw [start]
      exact logged
    · exact (congrArg Prod.fst pair).trans (kept.trans size)
  | serves attended =>
    obtain ⟨base, stands, logged, rfl⟩ := attended.tasks
    obtain ⟨next, between, reacts, standing, begins, pair⟩ :=
      stands.serves ⟨e.serving.relay, Sockets.peer near⟩ s
    obtain ⟨near_same, far_same⟩ := Sockets.tape?_of_pair pair
    obtain ⟨owed, forth⟩ := attended.faithful.forth
    exact ⟨next, between, reacts, standing, begins.subset logged,
      ⟨owed, forth.carry (far_same.trans there)⟩, near_same, (congrArg Prod.fst pair).trans size⟩

/-- As long as the client is connected, each turn of the server writes back all that the client has sent. -/
theorem turn (hosting : Hosting keys near server e) (room : e.Room (some Sockets.capacity))
    (live : e.dialing.closed = false) :
    ∃ later relay record after, server.react e.serving.world = (later, after) ∧
      Attended keys near later ⟨e.dialer, e.dialing, ⟨relay, .reading, record, after⟩⟩ ∧
      record.sent = e.dialing.sent ∧
      relay.connection.remoteStatic = e.serving.relay.connection.remoteStatic := by
  have apart := apart_sockets near
  obtain ⟨base, between, reacts, standing, logged, ⟨owed, forth⟩, near_same, size⟩ :=
    hosting.resumes rfl id hosting.size
  obtain ⟨others, back⟩ := hosting.back
  have accounts := hosting.accounts
  have opened := hosting.opened
  have reading := hosting.reading
  obtain ⟨dialer, dialing, ⟨relay, doing, record, w⟩⟩ := e
  cases reading
  have resumed : Echoing.Faithful (Sockets.incoming near)
      ⟨dialer, dialing, ⟨relay, .reading, record, between⟩⟩ :=
    ⟨accounts.meanwhile between, opened, ⟨owed, forth⟩, fun _ => ⟨others, back.carry near_same⟩⟩
  have kept := size_advance relay (Sockets.peer near) between
  have known :=
    relay.remoteStatic_advance (Sockets.duplex (Sockets.peer near) Echo.reading) readBufferSize between
  generalize made :
    relay.advance (Sockets.duplex (Sockets.peer near) Echo.reading) readBufferSize between = result
    at kept known
  obtain ⟨ending, next, after⟩ := result
  obtain ⟨s, last, steps, final, waits⟩ := Serving.works_advance _ made record
  have there := resumed.serving apart room steps
  have faithful := there.works apart room final
  cases ending with
  | some ending =>
    have told := faithful.told (faithful.ended rfl).2
    cases live.symm.trans told.1
  | none =>
    obtain ⟨_, _, idle⟩ := waits rfl
    obtain ⟨_, heard⟩ := there.forth
    obtain ⟨all, -⟩ := (heard.complete (apart.line .dialer) (apart.prompt .listener)).waits
      (.read readBufferSize) _ _ idle
    have level : last.sent = last.handed := faithful.accounts.even (by simp) (by simp)
    refine ⟨{ base with tasks := base.tasks ++ [⟨next, Sockets.peer near⟩] }, next, last, after, ?_,
      ⟨⟨base, standing, ?_, rfl⟩, rfl, faithful, kept.trans size⟩, ?_, known⟩
    · rw [reacts, Server.serveTasks, Task.advance, made]
      rfl
    · exact known ▸ logged
    · exact level.trans ((final.handed rfl).trans all)

variable {messages rest : List Bytes} {message : Bytes}

theorem sent_of_start (hosting : Hosting keys near server e) {c : Connection} {w : Sockets}
    (start : e.serving = .start c w) (going : Going messages (.saying rest) e.dialing) :
    e.dialing.sent = [] := by
  have returned := hosting.returned
  rw [start] at returned
  have none : e.dialing.handed = [] := List.prefix_nil.1 returned
  cases going with
  | saying _ sent handed => exact sent.trans (handed.symm.trans none)

/-- The client can write its next message. -/
theorem written (hosting : Hosting keys near server e)
    (short : ∀ message ∈ messages, 35 * message.length + actThreeLength ≤ Sockets.capacity)
    (going : Going messages (.saying (message :: rest)) e.dialing) :
    ∃ sender after, e.dialer.sender.write (Sockets.sink near) message e.serving.world =
      (.ready (.ok message.length), sender, after) := by
  have apart := apart_sockets near
  cases hosting with
  | @awaits d owed others awaits start forth back =>
    have none := sent_of_start (.awaits awaits start forth back) start going
    obtain ⟨full, fits, live⟩ : [] ∉ e.dialing.frames ∧
        35 * message.length + actThreeLength ≤ Sockets.capacity ∧ e.dialing.closed = false := by
      cases going with
      | saying split _ _ live full => exact ⟨full, short _ (by simp [split]), live⟩
    obtain ⟨left, behind, quiet⟩ := forth.expects.holds
    have third := underway_of_behindThird (by decide) behind
    have few : left.bytes.length ≤ 35 * (e.dialing.sent.length - e.forth.handed.length) :=
      forth.length_le full behind
    obtain ⟨t, holds, begins⟩ := third.lies
    have size : t.bytes.length + 0 = actThreeLength + left.bytes.length := third.length holds
    have still : t.ending = .quiet := by
      have same := congrArg Tape.ending begins
      simp only [Tape.rewind] at same
      rw [same, quiet, Echoing.forth, live, if_neg Bool.false_ne_true]
    refine apart.written .dialer (forth.alive.trans live) holds still ?_
    rintro _ ⟨⟩
    rw [none] at few
    simp only [List.length_nil, Nat.zero_sub, Nat.mul_zero] at few
    omega
  | serves attended =>
    refine Going.writes (v := ⟨.saying (message :: rest), e⟩) apart ?_ attended.faithful going
    rintro message member _ ⟨⟩
    have := short message member
    omega

theorem writes (hosting : Hosting keys near server e)
    (short : ∀ message ∈ messages, 35 * message.length + actThreeLength ≤ Sockets.capacity)
    (going : Going messages (.saying (message :: rest)) e.dialing) :
    ∃ sender after, e.dialer.sender.write (Sockets.sink near) message e.serving.world =
        (.ready (.ok message.length), sender, after) ∧
      Hosting keys near server ⟨{ e.dialer with sender }, e.dialing.wrote message,
        { e.serving with world := after }⟩ := by
  obtain ⟨sender, after, written⟩ := hosting.written short going
  have size := Sender.keeps_write (Sockets.sink_keeps_size near) message e.dialer.sender e.serving.world
  rw [written] at size
  refine ⟨sender, after, written, hosting.acts (.write written) (fun unseen => ?_) size⟩
  refine (Sender.kept_of_write (P := fun s => s.Unseen (Sockets.peer near) ∧ Sockets.peer near < s.ends.size)
    ?_ written ⟨unseen, hosting.inside.2⟩).1
  rintro bytes s next sent ⟨unseen, inside⟩
  have same := (Sockets.sink_keeps_size near).send bytes s
  rw [sent] at same
  exact ⟨unseen.send inside sent, same ▸ inside⟩

theorem closes (hosting : Hosting keys near server e) :
    ∃ sender, e.dialer.sender.close (Sockets.sink near) e.serving.world =
        (.ready (.ok ()), sender, e.serving.world.finish near) ∧
      Hosting keys near server ⟨{ e.dialer with sender }, { e.dialing with closed := true },
        { e.serving with world := e.serving.world.finish near }⟩ := by
  have closed : e.dialer.sender.close (Sockets.sink near) e.serving.world =
    (.ready (.ok ()), { e.dialer.sender with terminated := true }, e.serving.world.finish near) := rfl
  exact ⟨_, closed, hosting.acts (.close closed) (·.finish hosting.inside.2)
    ((Sockets.sink_keeps_size near).close e.serving.world)⟩

/-- Where everything has come back, everything was read and written back, and nothing else is on its way. -/
theorem settled (hosting : Hosting keys near server e) {bytes : Bytes} (sent : e.dialing.sent = bytes)
    (handed : e.dialing.handed = bytes) :
    e.serving.record.sent = bytes ∧ e.serving.record.handed = bytes ∧
      ∃ ending, e.serving.world.tape? near = some ⟨[], ending⟩ := by
  have accounts := hosting.accounts
  have begins := hosting.heard
  rw [sent] at begins
  have returned := hosting.returned.length_le
  rw [handed] at returned
  have level : e.serving.record.sent = bytes :=
    (accounts.begins.trans begins).eq_of_length_le returned
  have all : e.serving.record.handed = bytes :=
    begins.eq_of_length_le (returned.trans accounts.begins.length_le)
  obtain ⟨others, back⟩ := hosting.back
  obtain ⟨⟨rest, ending⟩, heard, -⟩ := back.expects.holds
  have full : [] ∉ e.back.frames := fun member => absurd (accounts.frames _ member).1 (by simp)
  have few : rest.length ≤ 35 * (e.serving.record.sent.length - e.dialing.handed.length) :=
    back.length_le full heard
  rw [level, handed, Nat.sub_self, Nat.mul_zero] at few
  obtain rfl := List.eq_nil_of_length_eq_zero (Nat.le_zero.1 few)
  exact ⟨level, all, ending, heard⟩

/-- Once the client has left, the server closes as well, reports how many bytes it has echoed, and is where
it was before the client came. -/
theorem leaves (hosting : Hosting keys near server e) (going : Going messages .left e.dialing) :
    ∃ (later : Server) (after : Sockets) (log : Array Entry),
      server.react (e.serving.world.close near) = (later, after) ∧
      later.Stands keys near [] {} ∧ after.ends.size = near + 2 ∧
      later.log = log.push
        (.closed e.serving.relay.connection.remoteStatic Tcp.origin messages.flatten.length) ∧
      .accepted e.serving.relay.connection.remoteStatic Tcp.origin ∈ log.toList := by
  have apart := apart_sockets near
  obtain ⟨inside, other⟩ := hosting.inside
  obtain ⟨t, holds, ending⟩ := hosting.far
  cases going with
  | left sent handed closed =>
    obtain ⟨level, all, _, heard⟩ := hosting.settled sent handed
    rw [closed, if_pos rfl] at ending
    have read := (Sockets.empty_of_tape? heard rfl).2
    have there := Sockets.tape?_close inside other (Sockets.finished_of_tape? holds ending) read
    obtain ⟨base, between, reacts, standing, logged, ⟨owed, forth⟩, -, size⟩ := hosting.resumes there
      (·.close other read) ((Sockets.size_close ..).trans hosting.size)
    obtain ⟨receiver, after, ends⟩ := forth.read_end (apart.line .dialer) (apart.prompt .listener) closed
      (all.trans sent.symm) readBufferSize
    have kept := size_advance e.serving.relay (Sockets.peer near) between
    have known := e.serving.relay.remoteStatic_advance (Sockets.duplex (Sockets.peer near) Echo.reading)
      readBufferSize between
    obtain ⟨next, last, advanced, total⟩ :=
      Relay.advance_of_end (d := Sockets.duplex (Sockets.peer near) Echo.reading) ends
    rw [advanced] at kept known
    have counted : next.total = messages.flatten.length := by
      rw [total, hosting.accounts.counted, level]
    refine ⟨{ base with log := base.log.push (.closed e.serving.relay.connection.remoteStatic Tcp.origin
        messages.flatten.length) }, last.close (Sockets.peer near), base.log, ?_, ?_, ?_, rfl, logged⟩
    · rw [reacts, Server.serveTasks, Task.advance, advanced, ← known, ← counted]
      rfl
    · exact ⟨standing.even, standing.configured, standing.admits, standing.keys, standing.pending,
        standing.woken, standing.backlog, standing.others⟩
    · exact (Sockets.size_close ..).trans (kept.trans size)

end Hosting

namespace Attended

variable {messages rest : List Bytes} {message : Bytes}

theorem hears (attended : Attended keys near server e) (level : e.serving.record.sent = e.dialing.sent)
    {got : Array UInt8} (going : Going messages (.hearing message got rest) e.dialing) :
    ∃ receiver r after, hear (Sockets.source near Echo.reading) message.length got e.dialer.receiver
        e.serving.world = (.all message, receiver, after) ∧
      Attended keys near server ⟨{ e.dialer with receiver }, r, { e.serving with world := after }⟩ ∧
      Going messages (.saying rest) r := by
  have apart := apart_sockets near
  obtain ⟨⟨key, sender, receiver⟩, dialing, ⟨relay, doing, record, w⟩⟩ := e
  simp only at level going ⊢
  fun_induction hear (Sockets.source near Echo.reading) message.length got receiver w generalizing dialing with
  | case1 got r w short next after read =>
    exact absurd read (going.not_waits apart attended.faithful level short)
  | case2 got r w short error next after read | case3 got r w short next after read =>
    obtain ⟨_, _, wrong, -⟩ := going.answered apart attended.faithful short read
    cases wrong
  | case4 got r w short byte bytes next after read ih =>
    obtain ⟨_, _, same, further, faithful⟩ := going.answered apart attended.faithful short read
    cases same
    have size :=
      Receiver.keeps_read (Sockets.source_keeps_size near Echo.reading) (message.length - got.size) r w
    rw [read] at size
    exact ih _ ⟨attended.tasks, attended.reading, faithful, size.trans attended.size⟩ level further
  | case5 got r w full =>
    have same : got.toList = message := going.eq_of_full attended.faithful full
    exact ⟨r, dialing, w, by rw [same], attended, going.heard same⟩

end Attended
end NoiseLink.Echo
