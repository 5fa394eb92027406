import NoiseLink.Proofs.Echo.Serving
import NoiseLink.Proofs.Stream.Keeps
import NoiseLink.Proofs.Stream.Sockets

/-! The turns of an echo server, with one connection in view and others that it serves besides. The others
have their turns first and leave the ends of that connection alone. A connection that arrives is enrolled in
one turn, and accepted and served in the one after its last act. -/
namespace NoiseLink

open Tcp (Sockets Service Backlog)

variable {ω ρ : Type} {generator rest : Generator} {upgrade : Upgrade}

namespace Listener

variable {ports : Ports ω ρ} {now : Nanoseconds} {l : Listener ρ} {w after : ω}

theorem accept_enrolls {address : String} {port : ρ} {fresh : PrivateKey} (none : l.pending = [])
    (idle : l.woken = []) (admits : 0 < l.maxHandshakes)
    (drawn : ephemeral? generator = (some fresh, rest))
    (waits : (Upgrade.listener l.config fresh).poll (ports.sink port) (ports.source l.begun port) now w =
      (.pending, upgrade, after)) :
    l.accept ports now generator [.ok (address, port)] w [] =
      ⟨.pending, { l with pending := [⟨l.begun, address, port, upgrade⟩], woken := [], begun := l.begun + 1 },
        rest, [], after, []⟩ := by
  obtain ⟨config, most, pending, woken, begun⟩ := l
  cases none
  cases idle
  have free : ¬ ([] : List (Pending ρ)).length ≥ most := Nat.not_le.2 admits
  rw [accept]
  simp only [free, if_false, drawn]
  rw [accept]
  simp only [enroll, List.nil_append, List.find?_cons, decide_true, waits, keep, List.map_cons, List.map_nil,
    if_true]
  rw [accept]

theorem accept_completes {p : Pending ρ} {connection : Connection} (pending : l.pending = [p])
    (woken : l.woken = [p.id])
    (ends : p.upgrade.poll (ports.sink p.port) (ports.source p.id p.port) now w =
      (.ready (.ok connection), upgrade, after)) :
    l.accept ports now generator [] w [] =
      ⟨.accepted p.address p.port connection, { l with pending := [], woken := [] }, generator, [], after,
        [.listenerCompleted connection.remoteStatic]⟩ := by
  obtain ⟨config, most, _, _, begun⟩ := l
  cases pending
  cases woken
  rw [accept]
  simp [ends, remove]

end Listener

namespace Tcp.Service

variable {service : Service} {s after : Sockets}

theorem accept_enrolls {far n : Nat} {fresh : PrivateKey} (configured : service.config = {})
    (arrived : service.backlog = { waiting := [far], alert := some n }) (noticed : n < s.pauses)
    (none : service.listener.pending = []) (idle : service.listener.woken = [])
    (admits : 0 < service.listener.maxHandshakes)
    (drawn : Listener.ephemeral? service.generator = (some fresh, rest))
    (waits : (Upgrade.listener service.listener.config fresh).poll (Sockets.sink far)
      (Sockets.source far Echo.reading) 0 s = (.pending, upgrade, after)) :
    service.accept s = (.pending, [],
      { service with
        listener :=
          { service.listener with
            pending := [⟨service.listener.begun, origin, far, upgrade⟩]
            woken := []
            begun := service.listener.begun + 1 }
        generator := rest
        backlog := {} }, after) := by
  obtain ⟨config, ⟨keys, most, pending, woken, begun⟩, generator, backlog⟩ := service
  cases configured
  cases arrived
  cases none
  cases idle
  have enrolls :
      Listener.accept (ports {}) 0 ⟨keys, most, [], [], begun⟩ generator [.ok (origin, far)] s [] = _ :=
    Listener.accept_enrolls rfl rfl admits drawn waits
  simp [accept, Backlog.noticed, noticed, Backlog.accept?, acceptThese, wake, enrolls, Acceptance.ofOutcome]

/-- One whose last act has come is accepted. -/
theorem accept_completes {p : Pending Nat} {connection : Connection} (configured : service.config = {})
    (nobody : service.backlog = {}) (pending : service.listener.pending = [p])
    (idle : service.listener.woken = []) (readable : s.readable p.port = true)
    (ends : p.upgrade.poll (Sockets.sink p.port) (Sockets.source p.port Echo.reading) 0 s =
      (.ready (.ok connection), upgrade, after)) :
    service.accept s = (.accepted p.address p.port connection, [.listenerCompleted connection.remoteStatic],
      { service with listener := { service.listener with pending := [], woken := [] } }, after) := by
  obtain ⟨config, ⟨keys, most, _, _, begun⟩, generator, backlog⟩ := service
  cases configured
  cases nobody
  cases pending
  cases idle
  have completes : Listener.accept (ports {}) 0 ⟨keys, most, [p], [p.id], begun⟩ generator [] s [] = _ :=
    Listener.accept_completes rfl rfl ends
  simp [accept, Backlog.noticed, acceptThese, wake, readable, Listener.wake, completes, Acceptance.ofOutcome]

end Tcp.Service

namespace Echo

variable {α : Type} {view : ω → α}

/-- A connection that is served leaves alone what neither its sink nor its source touches. -/
theorem Relay.keeps_advance {d : Duplex ω} (receives : d.source.Keeps view) (sends : d.sink.Keeps view)
    (size : Nat) (r : Relay) (w : ω) : view (r.advance d size w).2.2 = view w := by
  fun_induction Relay.advance d size r w with
  | case1 r w receiver after answer | case2 r w error receiver after answer =>
    have same := Receiver.keeps_read receives size r.connection.receiver w
    rwa [answer] at same
  | case3 r w receiver after answer taken sender final closed =>
    have first := Receiver.keeps_read receives size r.connection.receiver w
    have last := Sender.keeps_close sends r.connection.sender after
    rw [answer] at first
    rw [closed] at last
    exact last.trans first
  | case4 r w byte bytes receiver after answer count sender later written ih =>
    have first := Receiver.keeps_read receives size r.connection.receiver w
    have next := Sender.keeps_write sends (byte :: bytes) r.connection.sender after
    rw [answer] at first
    rw [written] at next
    exact ih.trans (next.trans first)
  | case5 r w byte bytes receiver after answer error sender later written
  | case6 r w byte bytes receiver after answer sender later written =>
    have first := Receiver.keeps_read receives size r.connection.receiver w
    have next := Sender.keeps_write sends (byte :: bytes) r.connection.sender after
    rw [answer] at first
    rw [written] at next
    exact next.trans first

theorem Relay.remoteStatic_advance (d : Duplex ω) (size : Nat) (r : Relay) (w : ω) :
    (r.advance d size w).2.1.connection.remoteStatic = r.connection.remoteStatic := by
  fun_induction Relay.advance d size r w with
  | case4 _ _ _ _ _ _ _ _ _ _ _ ih => exact ih
  | _ => rfl

theorem Relay.advance_of_end {d : Duplex ω} {size : Nat} {r : Relay} {w after : ω} {receiver : Receiver}
    (read : r.connection.receiver.read d.source size w = (.ready (.ok []), receiver, after)) :
    ∃ next last, r.advance d size w = (some .closed, next, last) ∧ next.total = r.total := by
  rw [advance]
  split <;> rename_i answer <;> cases read.symm.trans answer
  exact ⟨_, _, rfl, rfl⟩

theorem Task.pair_advance {near : Nat} (t : Task) (foreign : Sockets.Foreign near t.socket) (s : Sockets) :
    (t.advance s).2.pair near = s.pair near := by
  have same := Relay.keeps_advance (d := Sockets.duplex t.socket reading) (foreign.source_keeps reading)
    foreign.sink_keeps readBufferSize t.relay s
  rw [advance]
  split
  · rename_i answer
    rwa [answer] at same
  · rename_i answer
    rw [answer] at same
    exact (foreign.pair_close _).trans same

namespace Server

theorem serveTasks_append (tasks more : List Task) (server : Server) (s : Sockets) :
    serveTasks (tasks ++ more) server s =
      serveTasks more (serveTasks tasks server s).1 (serveTasks tasks server s).2 := by
  induction tasks generalizing server s with
  | nil => rfl
  | cons t tasks ih =>
    rw [List.cons_append, serveTasks, serveTasks]
    split <;> exact ih ..

/-- The turns of other tasks. -/
theorem serveTasks_others {near : Nat} {tasks : List Task}
    (others : ∀ t ∈ tasks, Sockets.Foreign near t.socket) (server : Server) (s : Sockets) :
    ∃ kept log, (serveTasks tasks server s).1 = { server with tasks := server.tasks ++ kept, log } ∧
      server.log.toList <+: log.toList ∧ (∀ t ∈ kept, ∃ u ∈ tasks, t.socket = u.socket) ∧
      (serveTasks tasks server s).2.pair near = s.pair near := by
  induction tasks generalizing server s with
  | nil => exact ⟨[], server.log, by simp [serveTasks], List.prefix_rfl, by simp, rfl⟩
  | cons t tasks ih =>
    obtain ⟨foreign, others⟩ := List.forall_mem_cons.1 others
    have first := t.pair_advance foreign s
    have socket : ∀ next, (t.advance s).1 = .ok next → next.socket = t.socket := by
      intro next advanced
      rw [Task.advance] at advanced
      split at advanced <;> cases advanced
      rfl
    rw [serveTasks]
    generalize t.advance s = result at first socket ⊢
    obtain ⟨entry | next, between⟩ := result
    · obtain ⟨kept, log, same, begins, sockets, rest⟩ :=
        ih others { server with log := server.log.push entry } between
      refine ⟨kept, log, same, ?_, ?_, rest.trans first⟩
      · exact .trans (by simp) begins
      · intro u member
        obtain ⟨v, inside, at_socket⟩ := sockets u member
        exact ⟨v, List.mem_cons_of_mem _ inside, at_socket⟩
    · obtain ⟨kept, log, same, begins, sockets, rest⟩ :=
        ih others { server with tasks := server.tasks ++ [next] } between
      refine ⟨next :: kept, log, ?_, begins, ?_, rest.trans first⟩
      · rw [same]
        simp
      · intro u member
        rcases List.mem_cons.1 member with rfl | member
        · exact ⟨t, List.mem_cons_self, socket u rfl⟩
        · obtain ⟨v, inside, at_socket⟩ := sockets u member
          exact ⟨v, List.mem_cons_of_mem _ inside, at_socket⟩

/-- What a server has to accept, and that whatever else it serves belongs to other connections. -/
structure Stands (config : Config) (near : Nat) (pending : List (Pending Nat)) (backlog : Backlog)
    (server : Server) : Prop where
  even : near % 2 = 0
  configured : server.service.config = {}
  admits : 0 < server.service.listener.maxHandshakes
  keys : server.service.listener.config = config
  pending : server.service.listener.pending = pending
  woken : server.service.listener.woken = []
  backlog : server.service.backlog = backlog
  others : ∀ t ∈ server.tasks, t.socket < near

variable {config : Config} {near : Nat} {pending : List (Pending Nat)} {backlog : Backlog} {server : Server}
  {s middle : Sockets}

theorem Stands.foreign (stands : server.Stands config near pending backlog) {t : Task}
    (member : t ∈ server.tasks) : Sockets.Foreign near t.socket := by
  have below := stands.others t member
  refine ⟨Nat.ne_of_lt below, ?_⟩
  rw [Sockets.peer, if_pos stands.even]
  exact Nat.ne_of_lt (Nat.lt_succ_of_lt below)

theorem Stands.turns (stands : server.Stands config near pending backlog) (more : List Task) (s : Sockets) :
    ∃ base between, serveTasks (server.tasks ++ more) { server with tasks := [] } s =
        serveTasks more base between ∧ base.Stands config near pending backlog ∧
      server.log.toList <+: base.log.toList ∧ between.pair near = s.pair near := by
  obtain ⟨kept, log, same, begins, sockets, pair⟩ :=
    serveTasks_others (fun _ => stands.foreign) { server with tasks := [] } s
  rw [List.nil_append] at same
  refine ⟨{ server with tasks := kept, log }, _, by rw [serveTasks_append, same], ?_, begins, pair⟩
  refine ⟨stands.even, stands.configured, stands.admits, stands.keys, stands.pending, stands.woken,
    stands.backlog, ?_⟩
  intro t member
  obtain ⟨u, inside, same⟩ := sockets t member
  exact same ▸ stands.others u inside

theorem Stands.serves (stands : server.Stands config near [] {}) (t : Task) (s : Sockets) :
    ∃ base between, { server with tasks := server.tasks ++ [t] }.react s = serveTasks [t] base between ∧
      base.Stands config near [] {} ∧ server.log.toList <+: base.log.toList ∧
      between.pair near = s.pair near := by
  obtain ⟨base, between, turns, rest⟩ := stands.turns [t] s.pause
  refine ⟨base, between, ?_, rest⟩
  rw [react]
  simp only [stands.pending, stands.backlog, List.length_nil, Nat.add_zero, acceptAll]
  exact turns

/-- A connection that has arrived is enrolled. -/
theorem Stands.enrolls {n : Nat} {fresh : PrivateKey}
    (stands : server.Stands config near [] { waiting := [Sockets.peer near], alert := some n })
    (noticed : n ≤ s.pauses) (drawn : Listener.ephemeral? server.service.generator = (some fresh, rest))
    (waits : (Upgrade.listener config fresh).poll (Sockets.sink (Sockets.peer near))
      (Sockets.source (Sockets.peer near) reading) 0 s.pause = (.pending, upgrade, middle)) :
    ∃ id, (server.react s).1.Stands config near [⟨id, Tcp.origin, Sockets.peer near, upgrade⟩] {} ∧
      (server.react s).2.pair near = middle.pair near := by
  have accepts := Service.accept_enrolls stands.configured stands.backlog (Nat.lt_succ_of_le noticed)
    stands.pending stands.woken stands.admits drawn (by rwa [stands.keys])
  have enrolled : Stands config near
      [⟨server.service.listener.begun, Tcp.origin, Sockets.peer near, upgrade⟩] {}
      { server with
        service :=
          { server.service with
            listener :=
              { server.service.listener with
                pending := [⟨server.service.listener.begun, Tcp.origin, Sockets.peer near, upgrade⟩]
                woken := []
                begun := server.service.listener.begun + 1 }
            generator := rest
            backlog := {} } } :=
    ⟨stands.even, stands.configured, stands.admits, stands.keys, rfl, rfl, rfl, stands.others⟩
  obtain ⟨base, between, turns, now, -, pair⟩ := enrolled.turns [] middle
  have reacts : server.react s = (base, between) := by
    rw [react]
    simp only [stands.pending, stands.backlog, List.length_cons, List.length_nil, acceptAll]
    rw [accepts]
    simpa [serveTasks] using turns
  rw [reacts]
  exact ⟨_, now, pair⟩

/-- A connection whose last act has come is accepted, and served in the same turn. -/
theorem Stands.completes {id : Nat} {connection : Connection} {last : Upgrade}
    (stands : server.Stands config near [⟨id, Tcp.origin, Sockets.peer near, upgrade⟩] {})
    (readable : s.pause.readable (Sockets.peer near) = true)
    (ends : upgrade.poll (Sockets.sink (Sockets.peer near)) (Sockets.source (Sockets.peer near) reading) 0
      s.pause = (.ready (.ok connection), last, middle)) :
    ∃ base between, server.react s = serveTasks [⟨⟨connection, 0⟩, Sockets.peer near⟩] base between ∧
      base.Stands config near [] {} ∧ .accepted connection.remoteStatic Tcp.origin ∈ base.log.toList ∧
      between.pair near = middle.pair near := by
  have accepts := Service.accept_completes stands.configured stands.backlog stands.pending stands.woken
    readable ends
  have accepted : Stands config near [] {}
      { server with
        service :=
          { server.service with listener := { server.service.listener with pending := [], woken := [] } }
        log := (server.log ++ #[Entry.event (.listenerCompleted connection.remoteStatic)]).push
          (.accepted connection.remoteStatic Tcp.origin) } :=
    ⟨stands.even, stands.configured, stands.admits, stands.keys, rfl, rfl, stands.backlog, stands.others⟩
  obtain ⟨base, between, turns, now, begins, pair⟩ :=
    accepted.turns [⟨⟨connection, 0⟩, Sockets.peer near⟩] middle
  refine ⟨base, between, ?_, now, begins.subset (by simp), pair⟩
  rw [react]
  simp only [stands.pending, stands.backlog, List.length_cons, List.length_nil, acceptAll]
  rw [accepts]
  simpa [acceptAll] using turns

end Server
end Echo
end NoiseLink
