import NoiseLink.Proofs.Echo.Running
import NoiseLink.Proofs.Echo.Tasks

/-! The echo is exact, between two streams and for the program as a whole. -/
namespace NoiseLink.Echo

open Relation (ReflTransGen)
open Run (Turn)
open Tcp (Sockets)

variable {keys config : Config} {port count : Nat} {server : Server} {w : Surroundings}

/-- A client that a server can serve: it has a key of its own, the server can draw one more, neither is out
of time from the start, and no message is longer than the longest. -/
structure Guest (keys : Config) (server : Server) (chance : Chance) (config : Config) (count : Nat) : Prop where
  distinct : config.staticKey ≠ keys.staticKey
  patient : 0 < config.handshakeTimeout ∧ 0 < keys.handshakeTimeout
  supplied : (Listener.ephemeral? server.service.generator).1.isSome
  short : ∀ i < count, (chance.message i).length ≤ Chance.maxMessageSize

/-- All messages of a client have come back to it, and it has reported so. Once it has left, the server has
reported how many bytes it has echoed. -/
structure Exchanged (keys config : Config) (address : SocketAddress) (message : Nat → Bytes) (count : Nat)
    (before : Progress) (result : Except Crash Unit) (last : Progress) : Prop where
  fine : result = .ok ()
  reports : last.log = before.log ++ (Run.reports keys.staticKey.publicKey address message count).toArray
  served : ∃ near later after, ∃ told : Array Entry, last.near = some near ∧
    last.surroundings.leave near = ⟨address.port, .server later, after⟩ ∧
    later.Stands keys after.ends.size [] {} ∧ .accepted config.staticKey.publicKey Tcp.origin ∈ told.toList ∧
    later.log = told.push
      (.closed config.staticKey.publicKey Tcp.origin ((List.range count).map message).flatten.length)

/-- What a server is found in after some clients, one after another. -/
inductive Hosted (keys : Config) (port : Nat) : Surroundings → Prop where
  | start (generator : Generator) : Hosted keys port ⟨port, .server (.start keys generator), {}⟩
  | next {server s chance config address count log before result last near} :
      Hosted keys port ⟨port, .server server, s⟩ → Guest keys server chance config count →
      address.port = port →
      (Run.client chance config keys.staticKey.publicKey address count).run.run
        ⟨⟨port, .server server, s⟩, log, before⟩ = (result, last) →
      last.near = some near → Hosted keys port (last.surroundings.leave near)

theorem Guest.exchanged {chance : Chance} {s : Sockets} (guest : Guest keys server chance config count)
    (stands : server.Stands keys s.ends.size [] {}) {address : SocketAddress} (here : address.port = port)
    {log : Array Entry} {before : Option Nat} {result : Except Crash Unit} {last : Progress}
    (h : (Run.client chance config keys.staticKey.publicKey address count).run.run
      ⟨⟨port, .server server, s⟩, log, before⟩ = (result, last)) :
    Exchanged keys config address chance.message count ⟨⟨port, .server server, s⟩, log, before⟩ result
      last := by
  subst here
  obtain ⟨fresh, drawn⟩ := Option.isSome_iff_exists.1 guest.supplied
  obtain ⟨_, later, after, told, ended, near, reports, left, rest⟩ := Run.client_ok stands guest.distinct
    guest.patient (Prod.ext drawn rfl) guest.short address log before
  cases ended.symm.trans h
  exact ⟨rfl, reports, _, later, after, told, near, left, rest⟩

/-- A server is ready after any number of clients. -/
theorem Hosted.stands (hosted : Hosted keys port w) :
    ∃ server s, w = ⟨port, .server server, s⟩ ∧ server.Stands keys s.ends.size [] {} := by
  induction hosted with
  | start generator => exact ⟨_, _, rfl, Server.stands_start keys generator⟩
  | next _ guest here h near ih =>
    obtain ⟨_, _, ⟨⟩, stands⟩ := ih
    obtain ⟨_, later, after, _, same, left, ready, -⟩ := (guest.exchanged stands here h).served
    cases near.symm.trans same
    exact ⟨later, after, here ▸ left, ready⟩

variable {ω : Type} {wires : Wires ω} {capacity : Option Nat} {incoming : Role → ω → Option Tape}

/-- The server writes back what it reads, exactly. Whatever a dialer sends and in whatever pieces it comes,
what was written back is at any time a beginning of what was read, and once the dialer has closed all of it
is written back before the server closes and reports how much it was. So a client that exchanges messages
is never handed anything but the message it waits for, and never finds the server gone. Where a read fails,
everything before it was written back. All this is so between two streams, as long as what has not come back
fits into them. The sockets of a connection are two such streams, and the steps are those that the programs
take on them: a task in its turn, the server in each of its turns, and a client from its first message to its
end. So a client of the program that dials the server gets back all of its messages and leaves well, and then
the server logs their bytes and is ready for the next. -/
theorem echoes_exactly (apart : wires.Apart capacity incoming) (peer : Role → PublicKey)
    (c : Role → CipherState) {w : ω} (empty : ∀ role, incoming role w = some ⟨[], .quiet⟩) :
    (∀ e, ReflTransGen (Echoing.StepWithin capacity wires incoming) (.start peer c w) e → e.Room capacity →
      e.Echoed wires) ∧
    (∀ messages v, (∀ message ∈ messages, ∀ most ∈ capacity, 35 * message.length ≤ most) →
      ReflTransGen (Visiting.Step wires incoming) (.start messages peer c w) v → v.Fair wires messages) ∧
    (∀ (sink : Sink ω) (source : Source ω) connection world s,
      Served sink source (.start connection world) s → s.Accounts ∧
        ∀ error, s.doing = .ended (.readFailed error) →
          s.record.sent = s.record.handed ∧ s.relay.total = s.record.handed.length) ∧
    (∀ near, (Sockets.wires near reading).Apart (some Sockets.capacity) (Sockets.incoming near)) ∧
    (∀ (t : Task) s record, ∃ last, t.Turn s record (t.advance s).1 last (t.advance s).2) ∧
    (∀ config generator (server : Server), (Server.start config generator).Ran server → server.Accounts ∧
      (∀ key address bytes, .closed key address bytes ∈ server.log.toList → ∃ socket connection w s,
        ServedAt socket connection w s ∧ s.doing = .ended .closed ∧ s.record.sent = s.record.handed ∧
        s.record.sent.length = bytes ∧ s.relay.connection.remoteStatic = key) ∧
      ∀ s, ∃ fresh entries between outcomes,
        Server.Round (server.tasks ++ fresh) between outcomes (server.react s).2 ∧
        (server.react s).1.tasks = outcomes.filterMap Except.toOption ∧
        (server.react s).1.log.toList = server.log.toList ++ entries ++ outcomes.filterMap Task.reported ∧
        (∀ t ∈ fresh, Server.Fresh entries t) ∧ ∀ entry ∈ entries, Server.Early entry) ∧
    (∀ chance config peer address messages near c p dialed result last,
      (Run.dial config peer chance.ephemeral address).run.run p = (.ok (near, c), dialed) →
      (Run.client chance config peer address messages).run.run p = (result, last) →
      ∃ s, Called (Sockets.sink near) (Sockets.source near reading) Turn
          ⟨c, .saying ((List.range messages).map chance.message), {}, dialed.surroundings.sockets⟩ s ∧
        s.world = last.surroundings.sockets ∧ s.calling = .ended result) ∧
    (∀ keys port surroundings, Hosted keys port surroundings →
      ∃ server s, surroundings = ⟨port, .server server, s⟩ ∧ server.Stands keys s.ends.size [] {}) ∧
    ∀ keys server chance config count, Guest keys server chance config count →
      ∀ s, server.Stands keys s.ends.size [] {} → ∀ address log before result last,
        (Run.client chance config keys.staticKey.publicKey address count).run.run
          ⟨⟨address.port, .server server, s⟩, log, before⟩ = (result, last) →
        Exchanged keys config address chance.message count ⟨⟨address.port, .server server, s⟩, log, before⟩
          result last := by
  refine ⟨fun e run room => ?_, fun messages v short run => ?_, fun sink source connection world s served => ?_,
    fun near => apart_sockets near, Task.turn_advance, ?_, ?_, fun keys port w hosted => hosted.stands, ?_⟩
  · exact ((Echoing.faithful_start peer c empty).run apart run).echoed apart room
  · exact (Visiting.kept_of_run apart short empty run).fair apart short
  · have accounts := Serving.accounts_of_served served
    refine ⟨accounts, fun error ended => ?_⟩
    have level := accounts.even (by simp [ended]) (by simp [ended])
    exact ⟨level, by rw [accounts.counted, level]⟩
  · intro config generator server ran
    have accounts := Server.accounts_of_ran ran
    exact ⟨accounts, fun _ _ _ member => accounts.closed member, server.react_round⟩
  · intro chance config peer address messages near c p dialed result last reached h
    exact Run.called_client reached h
  · intro keys server chance config count guest s stands address log before result last h
    exact guest.exchanged stands rfl h

/-- A dialer sends one byte and closes, and the server's side of the sockets reports one byte. The program
does the same in a run of its own, after which the server has logged it. -/
theorem echoes_exactly_of_one_byte :
    let c : Role → CipherState := fun _ => .start (.zero 32) (.zero 32)
    let first : PrivateKey := ⟨1, by decide, by decide⟩
    let second : PrivateKey := ⟨2, by decide, by decide⟩
    let fresh : Sockets := ({} : Sockets).connect.2
    let incoming := Sockets.incoming 0
    let generator : Generator := .scripted (.replicate 128 1)
    let server := Server.start { staticKey := first } generator
    let chance : Chance := ⟨⟨3, by decide, by decide⟩, fun _ => [7], generator⟩
    let address : SocketAddress := ⟨.v4 .unspecified, 5000⟩
    (Sockets.wires 0 reading).Apart (some Sockets.capacity) incoming ∧
    (∀ role, incoming role fresh = some ⟨[], .quiet⟩) ∧
    (∃ e, ReflTransGen (Echoing.StepWithin (some Sockets.capacity) (Sockets.wires 0 reading) incoming)
        (.start (fun _ => first.publicKey) c fresh) e ∧
      e.dialing.sent = [7] ∧ ∃ relay after,
        e.serving.relay.advance (Sockets.duplex 1 reading) readBufferSize e.serving.world =
          (some .closed, relay, after) ∧ relay.total = 1) ∧
    ∃ last near later after, ∃ told : Array Entry,
      (Run.client chance { staticKey := second } first.publicKey address 1).run.run
        ⟨⟨5000, .server server, {}⟩, #[], none⟩ = (.ok (), last) ∧
      last.surroundings.leave near = ⟨5000, .server later, after⟩ ∧
      later.log = told.push (.closed second.publicKey Tcp.origin 1) := by
  intro c first second fresh incoming generator server chance address
  have apart : (Sockets.wires 0 reading).Apart (some Sockets.capacity) incoming := apart_sockets 0
  obtain ⟨here, there⟩ := Sockets.silent_connect (s := {}) rfl
  have empty : ∀ role, incoming role fresh = some ⟨[], .quiet⟩ := by
    rintro (_ | _)
    · exact here
    · exact there
  obtain ⟨echo, -, -, -, -, -, -, -, program⟩ := echoes_exactly apart (fun _ => first.publicKey) c empty
  refine ⟨apart, empty, ?_, ?_⟩
  · obtain ⟨sender, sent, written⟩ : ∃ sender sent,
        (Sender.start (c .dialer)).write (Sockets.sink 0) [7] fresh = (.ready (.ok 1), sender, sent) :=
      apart.write .dialer (Link.sound_start (c .dialer) (empty .listener)) rfl List.not_mem_nil (by decide)
    have few (e : Echoing Sockets) (short : e.dialing.sent.length ≤ 1) : e.Room (some Sockets.capacity) := by
      rintro _ ⟨⟩
      rw [Sockets.capacity]
      omega
    have run : ReflTransGen (Echoing.StepWithin (some Sockets.capacity) (Sockets.wires 0 reading) incoming)
        (.start (fun _ => first.publicKey) c fresh)
        ⟨⟨first.publicKey, { sender with terminated := true }, .start (c .listener)⟩,
          { ({} : Record Sockets).wrote [7] with closed := true },
          .start (.ofCiphers first.publicKey (c .listener) (c .dialer)) (sent.finish 0)⟩ :=
      .tail (.single ⟨few _ (Nat.zero_le _), .dials (.write written)⟩)
        ⟨few _ (Nat.le_refl _), .dials (.close rfl)⟩
    obtain ⟨relay, record, after, made, -, -, -, -, entry⟩ :=
      (echo _ run (few _ (Nat.le_refl _))).finishes rfl rfl (Sockets.duplex 1 reading) rfl rfl
    exact ⟨_, run, rfl, relay, after, made, (Entry.closed.inj entry).2.2⟩
  · have supplied : (Listener.ephemeral? generator).1.isSome := by decide +kernel
    have guest : Guest { staticKey := first } server chance { staticKey := second } 1 :=
      ⟨by simp [first, second], by decide, supplied, fun _ _ => by simp [chance, Chance.maxMessageSize]⟩
    generalize ran : (Run.client chance { staticKey := second } first.publicKey address 1).run.run
      ⟨⟨5000, .server server, {}⟩, #[], none⟩ = outcome
    obtain ⟨result, last⟩ := outcome
    obtain ⟨rfl, -, near, later, after, told, -, left, -, -, logged⟩ :=
      program _ server chance _ 1 guest {} (Server.stands_start ..) address #[] none result last ran
    exact ⟨last, near, later, after, told, rfl, left, logged⟩

end NoiseLink.Echo
