import NoiseLink.Proofs.Echo.Calling
import NoiseLink.Proofs.Echo.Hosting

/-! The program as a client of the server: it dials, exchanges its messages one by one and leaves, and no
call that it makes on the way fails or has to wait. A server that has served it is ready for the next. -/
namespace NoiseLink.Echo

open Handshake
open Tcp (Sockets)

variable {α β : Type} {keys : Config} {near : Nat} {server : Server} {s : Sockets} {e : Echoing Sockets}
  {messages rest : List Bytes} {message : Bytes}

namespace Server

theorem stands_start (keys : Config) (generator : Generator) : (start keys generator).Stands keys 0 [] {} :=
  ⟨rfl, rfl, Nat.succ_pos _, rfl, rfl, rfl, rfl, by simp [start]⟩

/-- A connection that is over is one of the others for whoever connects next. -/
theorem Stands.next (stands : server.Stands keys near [] {}) : server.Stands keys (near + 2) [] {} where
  even := (Nat.add_mod_right near 2).trans stands.even
  configured := stands.configured
  admits := stands.admits
  keys := stands.keys
  pending := stands.pending
  woken := stands.woken
  backlog := stands.backlog
  others t member := Nat.lt_add_right 2 (stands.others t member)

end Server

/-- A server that has let a client through has all of its connection before it. -/
theorem hosting_of_awaits {d : Dialogue} (awaits : Awaits keys near d server s)
    (silent : s.tape? near = some ⟨[], .quiet⟩)
    (third : s.tape? (Sockets.peer near) = some ⟨d.third.bytes, .quiet⟩) :
    Hosting keys near server
      ⟨.ofSession (d.session .dialer), {}, .start (.ofSession (d.session .listener)) s⟩ := by
  have underway : Underway (Sockets.incoming near .listener) d.third #[] ⟨[], .quiet⟩ s :=
    underway_of_sent (by decide) third
  have fresh (role : Role) (tape : Sockets → Option Tape) (empty : tape s = some ⟨[], .quiet⟩) :
      Link.Sound tape [] ⟨.start (d.session role).outgoing, .start (d.session role.other).incoming, s, [], [],
        false, [], []⟩ := by
    rw [← d.joined role]
    exact Link.sound_start _ empty
  exact .awaits awaits rfl (fresh .dialer _ underway.behindThird) (fresh .listener _ silent)

namespace Run
variable {p middle : Progress}

theorem bind_ok {x : Run α} {a : α} (h : x.run.run p = (.ok a, middle)) (f : α → Run β) :
    (x >>= f).run.run p = (f a).run.run middle := by
  simp only [ExceptT.run_bind, StateT.run_bind]
  change (match x.run.run p with | (a, s) => _) = _
  rw [h]
  rfl

theorem discard_ok {x : Run α} {a : α} (h : x.run.run p = (.ok a, middle)) :
    (discard x).run.run p = (.ok ⟨⟩, middle) :=
  bind_ok h fun _ => pure PUnit.unit

theorem get_ok : (get : Run Progress).run.run p = (.ok p, p) :=
  rfl

theorem call_ok {step : Sockets → Poll (Except Error α) × β × Sockets} {value : α} {half : β} {after : Sockets}
    (h : step p.surroundings.sockets = (.ready (.ok value), half, after)) (crash : Error → Crash) :
    (call crash step).run.run p =
      (.ok (value, half), { p with surroundings := { p.surroundings with sockets := after } }) := by
  rw [call, bind_ok get_ok]
  simp only [h]
  rfl

theorem takeBack_ok {receiver r : Receiver} {after : Sockets}
    (h : hear (Sockets.source near reading) message.length #[] r p.surroundings.sockets =
      (.all message, receiver, after)) :
    (takeBack near message r).run.run p =
      (.ok receiver, { p with surroundings := { p.surroundings with sockets := after } }) := by
  rw [takeBack, bind_ok get_ok]
  simp only [h, Heard.verdict, if_true]
  rfl

theorem exchange_ok (hosting : Hosting keys near server e)
    (short : ∀ message ∈ messages, 35 * message.length + actThreeLength ≤ Sockets.capacity)
    (going : Going messages (.saying (message :: rest)) e.dialing) (port : Nat) (log : Array Entry) :
    ∃ (later : Server) (after : Echoing Sockets),
      (exchange near message e.dialer).run.run ⟨⟨port, .server server, e.serving.world⟩, log, some near⟩ =
        (.ok after.dialer, ⟨⟨port, .server later, after.serving.world⟩, log, some near⟩) ∧
      Hosting keys near later after ∧ Going messages (.saying rest) after.dialing ∧
      after.serving.relay.connection.remoteStatic = e.serving.relay.connection.remoteStatic := by
  obtain ⟨sender, world, written, next⟩ := hosting.writes short going
  have hearing := going.wrote
  have live : (e.dialing.wrote message).closed = false := by
    cases hearing with
    | hearing _ _ _ live => exact live
  have room : Echoing.Room (some Sockets.capacity)
      ⟨{ e.dialer with sender }, e.dialing.wrote message, { e.serving with world }⟩ := by
    refine Going.room (v := ⟨.hearing message #[] rest, _⟩) ?_ hearing
    rintro message member _ ⟨⟩
    have := short message member
    omega
  obtain ⟨later, relay, record, between, reacts, attended, level, known⟩ := next.turn room live
  obtain ⟨receiver, r, after, heard, attended, going⟩ := attended.hears level hearing
  refine ⟨later, _, ?_, .serves attended, going, known⟩
  rw [exchange, bind_ok (call_ok written .send)]
  have turned : yield.run.run ⟨⟨port, .server server, world⟩, log, some near⟩ =
      (.ok (), ⟨⟨port, .server later, between⟩, log, some near⟩) := by
    have same := Surroundings.react_server port server world
    rw [reacts] at same
    change ((.ok (), (⟨Surroundings.react ⟨port, .server server, world⟩, log, some near⟩ : Progress)) :
      Except Crash Unit × Progress) = _
    rw [same]
  rw [bind_ok turned, bind_ok (takeBack_ok heard)]
  rfl

theorem report_ok (entry : Entry) :
    (report entry).run.run p = (.ok (), { p with log := p.log.push entry }) :=
  rfl

def echoes (message : Nat → Bytes) (index count : Nat) : List Entry :=
  (List.range' index count).map fun i => .echoed i (message i).length

theorem exchangeAll_ok {message : Nat → Bytes} {count index : Nat} (hosting : Hosting keys near server e)
    (short : ∀ message ∈ messages, 35 * message.length + actThreeLength ≤ Sockets.capacity)
    (going : Going messages (.saying ((List.range' index count).map message)) e.dialing) (port total : Nat)
    (log : Array Entry) :
    ∃ (later : Server) (after : Echoing Sockets),
      (exchangeAll near message count index total e.dialer).run.run
          ⟨⟨port, .server server, e.serving.world⟩, log, some near⟩ =
        (.ok (total + ((List.range' index count).map message).flatten.length, after.dialer),
          ⟨⟨port, .server later, after.serving.world⟩, log ++ (echoes message index count).toArray,
            some near⟩) ∧
      Hosting keys near later after ∧ Going messages (.saying []) after.dialing ∧
      after.serving.relay.connection.remoteStatic = e.serving.relay.connection.remoteStatic := by
  induction count generalizing server e index total log with
  | zero =>
    have nothing (p : Progress) : (exchangeAll near message 0 index total e.dialer).run.run p =
      (.ok (total, e.dialer), p) := rfl
    exact ⟨server, e, by simp [nothing, echoes], hosting, going, rfl⟩
  | succ count ih =>
    obtain ⟨middle, between, exchanged, hosting, going, known⟩ := exchange_ok hosting short going port log
    obtain ⟨later, after, exchangedAll, hosting, going, same⟩ := ih hosting going
      (total + (message index).length) (log.push (.echoed index (message index).length))
    refine ⟨later, after, ?_, hosting, going, same.trans known⟩
    rw [exchangeAll, bind_ok exchanged, bind_ok (report_ok _), exchangedAll]
    simp [echoes, List.range'_succ, Nat.add_assoc]

def reports (peer : PublicKey) (address : SocketAddress) (message : Nat → Bytes) (messages : Nat) :
    List Entry :=
  .event (.dialerCompleted peer) :: .connected peer (shownAddress address) ::
    (echoes message 0 messages ++ [.allEchoed messages ((List.range messages).map message).flatten.length])

/-- A client that dials a server with nobody to accept gets everything back. It leaves the server ready for
the next one, and with the right number of bytes in its log. -/
theorem client_ok {chance : Chance} {config : Config} {fresh : PrivateKey} {left : Generator} {count : Nat}
    (stands : server.Stands keys s.ends.size [] {}) (distinct : config.staticKey ≠ keys.staticKey)
    (patient : 0 < config.handshakeTimeout ∧ 0 < keys.handshakeTimeout)
    (drawn : Listener.ephemeral? server.service.generator = (some fresh, left))
    (short : ∀ i < count, (chance.message i).length ≤ Chance.maxMessageSize) (address : SocketAddress)
    (log : Array Entry) (before : Option Nat) :
    ∃ (last : Progress) (later : Server) (after : Sockets) (told : Array Entry),
      (client chance config keys.staticKey.publicKey address count).run.run
          ⟨⟨address.port, .server server, s⟩, log, before⟩ = (.ok (), last) ∧
      last.near = some s.ends.size ∧
      last.log = log ++ (reports keys.staticKey.publicKey address chance.message count).toArray ∧
      last.surroundings.leave s.ends.size = ⟨address.port, .server later, after⟩ ∧
      later.Stands keys after.ends.size [] {} ∧
      .accepted config.staticKey.publicKey Tcp.origin ∈ told.toList ∧
      later.log = told.push (.closed config.staticKey.publicKey Tcp.origin
        ((List.range count).map chance.message).flatten.length) := by
  have short : ∀ message ∈ (List.range count).map chance.message,
      35 * message.length + actThreeLength ≤ Sockets.capacity := by
    simp only [List.forall_mem_map, List.mem_range]
    intro i inside
    have most := short i inside
    simp only [Chance.maxMessageSize] at most
    simp only [actThreeLength, Sockets.capacity]
    omega
  obtain ⟨d, listening, middle, dialed, peer, known, awaits, silent, third⟩ :=
    Surroundings.dial_of_stands stands distinct patient drawn chance.ephemeral address.port
  have hosting := hosting_of_awaits awaits silent third
  have reached : (dial config keys.staticKey.publicKey chance.ephemeral address).run.run
      ⟨⟨address.port, .server server, s⟩, log, before⟩ =
        (.ok (s.ends.size, .ofSession (d.session .dialer)), ⟨⟨address.port, .server listening, middle⟩,
          log.push (.event (.dialerCompleted keys.staticKey.publicKey)), some s.ends.size⟩) := by
    rw [dial, bind_ok get_ok]
    simp only [dialed]
    rfl
  have going : Going ((List.range count).map chance.message)
      (.saying ((List.range' 0 count).map chance.message)) ({} : Record Sockets) :=
    .saying (congrArg (List.map chance.message) List.range_eq_range') rfl rfl rfl List.not_mem_nil
  obtain ⟨between, e, exchanged, hosting, going, same⟩ := exchangeAll_ok hosting short going address.port 0
    ((log.push (.event (.dialerCompleted keys.staticKey.publicKey))).push
      (.connected keys.staticKey.publicKey (shownAddress address)))
  obtain ⟨sender, closed, hosting⟩ := hosting.closes
  obtain ⟨later, after, told, reacts, stands, size, logged, accepted⟩ := hosting.leaves going.closed
  have remote : e.serving.relay.connection.remoteStatic = config.staticKey.publicKey := same.trans known
  refine ⟨⟨⟨address.port, .server between, e.serving.world.finish s.ends.size⟩,
    log ++ (reports keys.staticKey.publicKey address chance.message count).toArray, some s.ends.size⟩,
    later, after, told, ?_, rfl, rfl, ?_, size ▸ stands.next, remote ▸ accepted, remote ▸ logged⟩
  · have reported : (((log.push (.event (.dialerCompleted keys.staticKey.publicKey))).push
        (.connected keys.staticKey.publicKey (shownAddress address))) ++
          (echoes chance.message 0 count).toArray).push
        (.allEchoed count (0 + ((List.range' 0 count).map chance.message).flatten.length)) =
        log ++ (reports keys.staticKey.publicKey address chance.message count).toArray := by
      simp [reports, List.range_eq_range']
    rw [client, bind_ok reached, bind_ok (report_ok _), ← reported]
    refine (bind_ok exchanged _).trans ?_
    exact (bind_ok (discard_ok (call_ok closed .close)) _).trans (report_ok _)
  · have turned := Surroundings.react_server address.port between
      ((e.serving.world.finish s.ends.size).close s.ends.size)
    rwa [reacts] at turned

end Run
end NoiseLink.Echo
