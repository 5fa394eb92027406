import NoiseLink.Echo.Surroundings
import NoiseLink.Proofs.Echo.Reacting
import NoiseLink.Proofs.Handshake.Phases

/-! A client that dials the echo server. It sends its first act and lets the server have its turn, in which
the second comes back; then it sends the third, and is connected. The server learns of that in its next
turn. -/
namespace NoiseLink

open Handshake
open Tcp (Sockets)

variable {near : Nat} {s : Sockets} {d : Dialogue}

namespace Tcp.Sockets

theorem ne_nil_of_octets {size : Nat} (positive : 0 < size) (act : Octets size) : act.bytes ≠ [] := by
  apply List.ne_nil_of_length_pos
  rwa [act.length_bytes]

/-- Whoever sends an act where nothing is said yet goes on to wait for the answer. -/
theorem poll_asks {size other : Nat} (positive : 0 < size) (expected : 0 < other)
    (fits : size ≤ capacity) (act : Octets size) (next : Octets other → Exchange Session)
    (here : s.tape? near = some ⟨[], .quiet⟩) (there : s.tape? (peer near) = some ⟨[], .quiet⟩) :
    ∃ after, Exchange.poll (sink near) (source near Echo.reading) (.send act.bytes (.expect other next)) s =
        (.pending, .expect other next, after) ∧
      after.tape? near = some ⟨[], .quiet⟩ ∧ after.tape? (peer near) = some ⟨act.bytes, .quiet⟩ ∧
      after.pauses = s.pauses := by
  obtain ⟨middle, sent, behind, kept⟩ := sends there rfl act.bytes (by simpa using fits)
  have noticed : middle.pauses = s.pauses := by
    rw [of_send (ne_nil_of_octets positive act) sent]
    rfl
  have hands : (source near Echo.reading).Hands (tape? near) := hands_source near rfl
  obtain ⟨after, waits, silent, same⟩ := Exchange.poll_silence (sink near) hands
    (source_keeps_peer near rfl) expected (kept.trans here) next
  refine ⟨after, ?_, silent, (congrArg Prod.fst same).trans behind, (congrArg (·.2.1) same).trans noticed⟩
  have sends : (sink near).send act.bytes s = (.ready (.ok ()), middle) := sent
  rw [Exchange.poll_send sends]
  exact waits

/-- The dialer takes the second act and is done as soon as it has sent the third, which will be noticed. -/
theorem poll_finishes (second : Underway (tape? near) d.second #[] ⟨[], .quiet⟩ s)
    (there : s.tape? (peer near) = some ⟨[], .quiet⟩) :
    ∃ last after, Exchange.poll (sink near) (source near Echo.reading) (.expect actTwoLength d.afterSecond) s =
        (.ready (.ok (d.session .dialer)), last, after) ∧
      after.tape? near = some ⟨[], .quiet⟩ ∧ after.tape? (peer near) = some ⟨d.third.bytes, .quiet⟩ ∧
      after.Unseen (peer near) := by
  have hands : (source near Echo.reading).Hands (tape? near) := hands_source near rfl
  rcases Exchange.poll_act (sink near) hands (source_keeps_peer near rfl) second d.afterSecond with
    ⟨more, after, left, -, still, paused, -⟩ | ⟨middle, goes, silent, same⟩
  · exact absurd paused (still.not_paused hands (prompt_source near _))
  have behind : middle.tape? (peer near) = some ⟨[], .quiet⟩ := (congrArg Prod.fst same).trans there
  obtain ⟨after, sent, third, kept⟩ := sends behind rfl d.third.bytes
    (by simp [capacity, actThreeLength])
  have inside := (legible_iff.1 (tape?_eq_some_iff.1 behind).1).1
  have sends : (sink near).send d.third.bytes middle = (.ready (.ok ()), after) := sent
  rw [d.finishes, Exchange.poll_send sends] at goes
  exact ⟨_, after, goes, kept.trans silent, third,
    unseen_of_send (empty_of_tape? behind rfl).1 inside (ne_nil_of_octets (by decide) d.third) sent⟩

theorem size_poll (i : Nat) (x : Exchange Session) (s : Sockets) :
    (x.poll (sink i) (source i Echo.reading) s).2.2.ends.size = s.ends.size :=
  x.keeps_poll (source_keeps_size i Echo.reading) (sink_keeps_size i) (fun _ => rfl) s

end Tcp.Sockets

namespace Echo

/-- The last act of a client is before the server, which has not taken notice of it. -/
structure Awaits (keys : Config) (near : Nat) (d : Dialogue) (server : Server) (s : Sockets) : Prop where
  stands : ∃ id upgrade, server.Stands keys near [⟨id, Tcp.origin, Sockets.peer near, upgrade⟩] {} ∧
    upgrade.exchange = .expect actThreeLength d.afterThird
  unseen : s.Unseen (Sockets.peer near)
  size : s.ends.size = near + 2

theorem Server.Stands.answers {keys : Config} {server : Server} {n : Nat} {fresh : PrivateKey}
    {rest : Generator}
    (stands : server.Stands keys near [] { waiting := [Sockets.peer near], alert := some n })
    (noticed : n ≤ s.pauses) (drawn : Listener.ephemeral? server.service.generator = (some fresh, rest))
    (patient : 0 < keys.handshakeTimeout)
    (listens : Upgrade.listenerExchange keys fresh = .expect actOneLength d.afterFirst)
    (here : s.tape? near = some ⟨[], .quiet⟩)
    (there : s.tape? (Sockets.peer near) = some ⟨d.first.bytes, .quiet⟩) :
    ∃ id upgrade, (server.react s).1.Stands keys near [⟨id, Tcp.origin, Sockets.peer near, upgrade⟩] {} ∧
      upgrade.exchange = .expect actThreeLength d.afterThird ∧
      (server.react s).2.ends.size = s.ends.size ∧
      (server.react s).2.tape? (Sockets.peer near) = some ⟨[], .quiet⟩ ∧
      Underway (Sockets.tape? near) d.second #[] ⟨[], .quiet⟩ (server.react s).2 := by
  have apart : (Sockets.wires near reading).Apart (some Sockets.capacity) (Sockets.incoming near) :=
    Sockets.apart_wires near rfl
  have first : Underway (Sockets.tape? (Sockets.peer near)) d.first #[] ⟨[], .quiet⟩ s.pause :=
    underway_of_sent (by decide) there
  have room : ∀ most ∈ some Sockets.capacity, actTwoLength ≤ most := by
    simp [Sockets.capacity, actTwoLength]
  rcases poll_offered (w := s.pause) apart room here first with
    ⟨more, after, left, -, still, paused, -⟩ | ⟨after, waits, silent, second⟩
  · exact absurd paused (still.not_paused (apart.hands .listener) (apart.prompt .listener))
  have began : (Upgrade.listener keys fresh).exchange = .receive actOneLength #[] d.afterFirst := listens
  have size := Sockets.size_poll (Sockets.peer near) (Upgrade.listener keys fresh).exchange s.pause
  rw [← began] at waits
  have waits : (Upgrade.listener keys fresh).exchange.poll (Sockets.sink (Sockets.peer near))
    (Sockets.source (Sockets.peer near) reading) s.pause = _ := waits
  rw [waits] at size
  have polled := Upgrade.poll_of_pending waits 0
  have early : ¬ (Upgrade.listener keys fresh).deadline.getD
      (0 + (Upgrade.listener keys fresh).timeout) ≤ 0 := by
    simpa [Upgrade.listener, Nat.pos_iff_ne_zero] using patient
  rw [if_neg early] at polled
  obtain ⟨id, now, pair⟩ := stands.enrolls noticed drawn polled
  obtain ⟨near_same, far_same⟩ := Sockets.tape?_of_pair pair
  exact ⟨id, _, now, rfl, (congrArg Prod.fst pair).trans size, far_same.trans silent, second.carry near_same⟩

namespace Surroundings

variable {upgrade next : Upgrade} {w : Surroundings} {after : Sockets} {turns : Nat}

theorem meet_of_pending
    (waits : upgrade.poll (Sockets.sink near) (Sockets.source near reading) 0 w.sockets =
      (.pending, next, after)) :
    meet near (turns + 1) upgrade w = meet near turns next (react { w with sockets := after }) := by
  rw [meet.eq_def]
  simp only [waits]

theorem meet_of_ready {answer : Except Error Connection}
    (ends : upgrade.poll (Sockets.sink near) (Sockets.source near reading) 0 w.sockets =
      (.ready answer, next, after)) :
    meet near turns upgrade w = (answer, { w with sockets := after }) := by
  cases turns <;>
    · rw [meet.eq_def]
      simp only [ends]

theorem react_server (port : Nat) (server : Server) (s : Sockets) :
    react ⟨port, .server server, s⟩ = ⟨port, .server (server.react s).1, (server.react s).2⟩ :=
  rfl

variable {keys : Config} {server : Server}

/-- The server is told of a connection in the next pause. -/
theorem connect_of_stands (stands : server.Stands keys s.ends.size [] {}) (port : Nat) : ∃ told : Server,
    connect ⟨port, .server server, s⟩ port = .ok (s.ends.size, ⟨port, .server told, s.connect.2⟩) ∧
      told.Stands keys s.ends.size []
        { waiting := [Sockets.peer s.ends.size], alert := some s.connect.2.pauses } ∧
      told.service.generator = server.service.generator := by
  let service : Tcp.Service :=
    { server.service with
      backlog := { waiting := [Sockets.peer s.ends.size], alert := some s.connect.2.pauses } }
  have arrived : server.service.connect s = (s.ends.size, service, s.connect.2) := by
    simp only [Tcp.Service.connect, stands.backlog]
    rfl
  refine ⟨{ server with service }, ?_, ⟨stands.even, stands.configured, stands.admits, stands.keys,
    stands.pending, stands.woken, rfl, stands.others⟩, rfl⟩
  simp only [connect, ne_eq, not_true_eq_false, if_false, arrived]

/-- Whoever dials a server with the key that it has is let through. -/
theorem dial_of_stands {config : Config} {fresh : PrivateKey} {rest : Generator}
    (stands : server.Stands keys s.ends.size [] {}) (distinct : config.staticKey ≠ keys.staticKey)
    (patient : 0 < config.handshakeTimeout ∧ 0 < keys.handshakeTimeout)
    (drawn : Listener.ephemeral? server.service.generator = (some fresh, rest)) (ephemeral : PrivateKey)
    (port : Nat) :
    ∃ (d : Dialogue) (later : Server) (after : Sockets),
      dial ⟨port, .server server, s⟩ config keys.staticKey.publicKey ephemeral port =
        (.ok (.ofSession (d.session .dialer), s.ends.size), ⟨port, .server later, after⟩) ∧
      (d.session .dialer).remoteStatic = keys.staticKey.publicKey ∧
      (d.session .listener).remoteStatic = config.staticKey.publicKey ∧
      Awaits keys s.ends.size d later after ∧ after.tape? s.ends.size = some ⟨[], .quiet⟩ ∧
      after.tape? (Sockets.peer s.ends.size) = some ⟨d.third.bytes, .quiet⟩ := by
  obtain ⟨d, dials, listens, known⟩ := exists_dialogue (Role.choose config keys) (Role.choose ephemeral fresh)
  have other : ¬ keys.staticKey.publicKey = config.staticKey.publicKey := fun same =>
    distinct (PrivateKey.publicKey_injective same.symm)
  obtain ⟨told, connected, notified, same⟩ := connect_of_stands stands port
  obtain ⟨here, there⟩ := Sockets.silent_connect stands.even
  have ends : s.connect.2.ends.size = s.ends.size + 2 := by simp [Sockets.connect]
  generalize s.connect.2 = zero at connected notified here there ends
  obtain ⟨one, asks, here, there, pauses⟩ :=
    Sockets.poll_asks (by decide) (by decide) (by decide) d.first d.afterSecond here there
  have began : (Upgrade.dialer config keys.staticKey.publicKey ephemeral).exchange =
    .send d.first.bytes (.expect actTwoLength d.afterSecond) := dials
  rw [← began] at asks
  have first := Upgrade.poll_of_pending asks 0
  have early : ¬ (Upgrade.dialer config keys.staticKey.publicKey ephemeral).deadline.getD
      (0 + (Upgrade.dialer config keys.staticKey.publicKey ephemeral).timeout) ≤ 0 := by
    simpa [Upgrade.dialer, Nat.pos_iff_ne_zero] using patient.1
  rw [if_neg early] at first
  obtain ⟨id, upgrade, standing, awaits, kept, there, second⟩ :=
    notified.answers (Nat.le_of_eq pauses.symm) (same ▸ drawn) patient.2 listens here there
  obtain ⟨last, three, finishes, here, there, unseen⟩ := Sockets.poll_finishes second there
  have final := Upgrade.poll_of_ready (u := (Upgrade.dialer config keys.staticKey.publicKey ephemeral).onward
    (.expect actTwoLength d.afterSecond) 0) finishes 0
  have size : three.ends.size = s.ends.size + 2 := by
    have opened := Sockets.size_poll s.ends.size
      (Upgrade.dialer config keys.staticKey.publicKey ephemeral).exchange zero
    have closed := Sockets.size_poll s.ends.size (.expect actTwoLength d.afterSecond) (told.react one).2
    rw [asks] at opened
    rw [finishes] at closed
    exact closed.trans (kept.trans (opened.trans ends))
  have met : meet s.ends.size handshakeTurns (Upgrade.dialer config keys.staticKey.publicKey ephemeral)
      ⟨port, .server told, zero⟩ =
      (.ok (.ofSession (d.session .dialer)), ⟨port, .server (told.react one).1, three⟩) := by
    rw [handshakeTurns, meet_of_pending first, react_server]
    exact meet_of_ready final
  refine ⟨d, (told.react one).1, three, ?_, known .dialer, known .listener,
    ⟨⟨id, upgrade, standing, awaits⟩, unseen, size⟩, here, there⟩
  simp only [dial, Upgrade.checkPeer, if_neg other, reach, connected, met]

end Surroundings

end Echo
end NoiseLink
