import NoiseLink.Proofs.Echo.Serving

/-! The echo server with all its connections. In each of its turns every task works until it has to wait or
comes to its end, and what it reports then is logged. So a line of the log that tells how a connection ended
tells what its service came to, whatever happened on the sockets between the turns. -/
namespace NoiseLink.Echo

open Relation (ReflTransGen)
open Tcp (Sockets)

abbrev WorksAt (socket : Nat) : Serving Sockets → Serving Sockets → Prop :=
  Works (Sockets.sink socket) (Sockets.source socket reading)

abbrev ServedAt (socket : Nat) (connection : Connection) (w : Sockets) : Serving Sockets → Prop :=
  Served (Sockets.sink socket) (Sockets.source socket reading) (.start connection w)

namespace Task

/-- A turn of a task: it works up to a call to read that has to wait, or to the end of its service. Then it
leaves a report and closes its socket. -/
inductive Turn (t : Task) (s : Sockets) (record : Record Sockets) :
    Except Entry Task → Record Sockets → Sockets → Prop where
  | waits {between relay last world} :
      ReflTransGen (WorksAt t.socket) ⟨t.relay, .reading, record, s⟩ between →
      between.Waits (Sockets.source t.socket reading) →
      WorksAt t.socket between ⟨relay, .reading, last, world⟩ →
      Turn t s record (.ok ⟨relay, t.socket⟩) last world
  | ends {relay ending last world} :
      ReflTransGen (WorksAt t.socket) ⟨t.relay, .reading, record, s⟩ ⟨relay, .ended ending, last, world⟩ →
      Turn t s record (.error (entry relay ending)) last (world.close t.socket)

theorem turn_advance (t : Task) (s : Sockets) (record : Record Sockets) :
    ∃ last, t.Turn s record (t.advance s).1 last (t.advance s).2 := by
  generalize made : t.relay.advance (Sockets.duplex t.socket reading) readBufferSize s = result
  obtain ⟨ending, relay, world⟩ := result
  obtain ⟨between, last, steps, final, waits⟩ := Serving.works_advance _ made record
  rw [advance, made]
  cases ending with
  | none => exact ⟨last, .waits steps (waits rfl) final⟩
  | some ending => exact ⟨last, .ends (steps.tail final)⟩

def reported : Except Entry Task → Option Entry
  | .ok _ => none
  | .error entry => some entry

end Task

namespace Server

inductive Round : List Task → Sockets → List (Except Entry Task) → Sockets → Prop where
  | nil {s} : Round [] s [] s
  | cons {t tasks s outcome between outcomes after} :
      (∀ record, ∃ last, Task.Turn t s record outcome last between) → Round tasks between outcomes after →
      Round (t :: tasks) s (outcome :: outcomes) after

theorem serveTasks_round (tasks : List Task) (server : Server) (s : Sockets) :
    ∃ outcomes, Round tasks s outcomes (serveTasks tasks server s).2 ∧
      (serveTasks tasks server s).1.service = server.service ∧
      (serveTasks tasks server s).1.tasks = server.tasks ++ outcomes.filterMap Except.toOption ∧
      (serveTasks tasks server s).1.log.toList =
        server.log.toList ++ outcomes.filterMap Task.reported := by
  induction tasks generalizing server s with
  | nil => exact ⟨[], .nil, rfl, by simp [serveTasks], by simp [serveTasks]⟩
  | cons t tasks ih =>
    have turn := t.turn_advance s
    rw [serveTasks]
    generalize t.advance s = result at turn ⊢
    obtain ⟨next | task, between⟩ := result
    · obtain ⟨outcomes, round, service, tasks, log⟩ := ih { server with log := server.log.push next } between
      refine ⟨_, .cons turn round, service, tasks, ?_⟩
      simpa [Task.reported] using log
    · obtain ⟨outcomes, round, service, tasks, log⟩ :=
        ih { server with tasks := server.tasks ++ [task] } between
      refine ⟨_, .cons turn round, service, ?_, log⟩
      simpa [Except.toOption] using tasks

def Fresh (entries : List Entry) (t : Task) : Prop :=
  ∃ connection address, t.relay = ⟨connection, 0⟩ ∧ .accepted connection.remoteStatic address ∈ entries

def Early (entry : Entry) : Prop :=
  (∃ event, entry = .event event) ∨ ∃ key address, entry = .accepted key address

theorem acceptAll_fresh (count : Nat) (server : Server) (s : Sockets) :
    ∃ fresh entries, (acceptAll count server s).1.tasks = server.tasks ++ fresh ∧
      (acceptAll count server s).1.log.toList = server.log.toList ++ entries ∧
      (∀ t ∈ fresh, Fresh entries t) ∧ ∀ entry ∈ entries, Early entry := by
  induction count generalizing server s with
  | zero => exact ⟨[], [], by simp [acceptAll], by simp [acceptAll], by simp, by simp⟩
  | succ count ih =>
    rw [acceptAll]
    generalize server.service.accept s = result
    obtain ⟨acceptance, events, service, world⟩ := result
    have early : ∀ entry ∈ events.map Entry.event, Early entry := by
      intro entry member
      obtain ⟨event, -, rfl⟩ := List.mem_map.1 member
      exact .inl ⟨event, rfl⟩
    cases acceptance with
    | accepted address socket connection =>
      obtain ⟨fresh, entries, tasks, log, new, later⟩ := ih
        { service
          tasks := server.tasks ++ [⟨⟨connection, 0⟩, socket⟩]
          log := (server.log ++ events.map Entry.event).push (.accepted connection.remoteStatic address) } world
      refine ⟨⟨⟨connection, 0⟩, socket⟩ :: fresh,
        events.map Entry.event ++ .accepted connection.remoteStatic address :: entries, ?_, ?_, ?_, ?_⟩
      · simpa using tasks
      · simpa using log
      · intro t member
        rcases List.mem_cons.1 member with rfl | member
        · exact ⟨connection, address, rfl, by simp⟩
        · obtain ⟨other, place, same, inside⟩ := new t member
          exact ⟨other, place, same, by simp [inside]⟩
      · intro entry member
        rcases List.mem_append.1 member with member | member
        · exact early entry member
        · rcases List.mem_cons.1 member with rfl | member
          · exact .inr ⟨_, _, rfl⟩
          · exact later entry member
    | pending => exact ⟨[], _, by simp, by simp, by simp, early⟩
    | broken => exact ⟨[], _, by simp, by simp, by simp, early⟩

/-- A turn of the server: it accepts whom it can, and then every task has its turn. Those that wait are
left, and what the others report is logged behind what was there. -/
theorem react_round (server : Server) (s : Sockets) :
    ∃ fresh entries between outcomes, Round (server.tasks ++ fresh) between outcomes (server.react s).2 ∧
      (server.react s).1.tasks = outcomes.filterMap Except.toOption ∧
      (server.react s).1.log.toList =
        server.log.toList ++ entries ++ outcomes.filterMap Task.reported ∧
      (∀ t ∈ fresh, Fresh entries t) ∧ ∀ entry ∈ entries, Early entry := by
  rw [react]
  generalize server.service.backlog.waiting.length + server.service.listener.pending.length = count
  obtain ⟨fresh, entries, accepted, told, new, early⟩ := acceptAll_fresh count server s.pause
  generalize acceptAll count server s.pause = result at accepted told ⊢
  obtain ⟨middle, between⟩ := result
  obtain ⟨outcomes, round, -, tasks, log⟩ := serveTasks_round middle.tasks { middle with tasks := [] } between
  refine ⟨fresh, entries, between, outcomes, ?_, ?_, ?_, new, early⟩
  · rw [← accepted]
    exact round
  · simpa using tasks
  · rw [← told]
    exact log

/-- What a server can come to. Anything may happen on the sockets between its turns. -/
inductive Ran (first : Server) : Server → Prop where
  | start : Ran first first
  | reacts {server} (s : Sockets) : Ran first server → Ran first (server.react s).1

end Server

def Task.History (t : Task) : Prop :=
  ∃ connection w s, ServedAt t.socket connection w s ∧ s.relay = t.relay ∧ s.doing = .reading

def Entry.Reports (entry : Entry) : Prop :=
  ∃ socket connection w s ending,
    ServedAt socket connection w s ∧ s.doing = .ended ending ∧ entry = Task.entry s.relay ending

theorem Served.steps {ω : Type} {sink : Sink ω} {source : Source ω} {first s last : Serving ω}
    (served : Served sink source first s) (steps : ReflTransGen (Works sink source) s last) :
    Served sink source first last := by
  induction steps with
  | refl => exact served
  | tail _ works ih => exact ih.works works

/-- A turn goes on with the service of a task, or ends it. -/
theorem Task.History.turn {t : Task} {s between : Sockets} {outcome : Except Entry Task}
    (history : t.History) (turn : ∀ record, ∃ last, t.Turn s record outcome last between) :
    (∀ next, outcome.toOption = some next → next.History) ∧
      ∀ entry, Task.reported outcome = some entry → entry.Reports := by
  obtain ⟨connection, w, ⟨relay, doing, record, world⟩, served, rfl, rfl⟩ := history
  obtain ⟨last, turn⟩ := turn record
  have resumed : ServedAt t.socket connection w ⟨t.relay, .reading, record, s⟩ := served.meanwhile
  cases turn with
  | waits steps _ final =>
    refine ⟨?_, by simp [reported]⟩
    rintro _ ⟨⟩
    exact ⟨connection, w, _, (resumed.steps steps).works final, rfl, rfl⟩
  | ends steps =>
    refine ⟨by simp [Except.toOption], ?_⟩
    rintro _ ⟨⟩
    exact ⟨t.socket, connection, w, _, _, resumed.steps steps, rfl, rfl⟩

namespace Server

theorem Round.history {tasks : List Task} {s after : Sockets} {outcomes : List (Except Entry Task)}
    (round : Round tasks s outcomes after) (served : ∀ t ∈ tasks, t.History) :
    (∀ t ∈ outcomes.filterMap Except.toOption, t.History) ∧
      ∀ entry ∈ outcomes.filterMap Task.reported, entry.Reports := by
  induction round with
  | nil => exact ⟨by simp, by simp⟩
  | cons turn _ ih =>
    obtain ⟨first, others⟩ := List.forall_mem_cons.1 served
    obtain ⟨waiting, ended⟩ := ih others
    obtain ⟨goes, reports⟩ := first.turn turn
    simp only [List.mem_filterMap, List.mem_cons] at waiting ended ⊢
    constructor
    · rintro t ⟨outcome, rfl | member, same⟩
      · exact goes t same
      · exact waiting t ⟨outcome, member, same⟩
    · rintro entry ⟨outcome, rfl | member, same⟩
      · exact reports entry same
      · exact ended entry ⟨outcome, member, same⟩

/-- Every task serves a connection from its beginning, and every entry that tells of an end is what such a
service reported. -/
structure Accounts (server : Server) : Prop where
  tasks : ∀ t ∈ server.tasks, t.History
  log : ∀ entry ∈ server.log.toList, Early entry ∨ entry.Reports

theorem Accounts.react {server : Server} (accounts : server.Accounts) (s : Sockets) :
    (server.react s).1.Accounts := by
  obtain ⟨fresh, entries, between, outcomes, round, tasks, log, new, early⟩ := server.react_round s
  have served : ∀ t ∈ server.tasks ++ fresh, t.History := by
    intro t member
    rcases List.mem_append.1 member with old | member
    · exact accounts.tasks t old
    · obtain ⟨connection, _, same, -⟩ := new t member
      exact ⟨connection, s, _, .start, same.symm, rfl⟩
  obtain ⟨waiting, ended⟩ := round.history served
  refine ⟨by rwa [tasks], ?_⟩
  rw [log]
  intro entry member
  rcases List.mem_append.1 member with member | member
  · rcases List.mem_append.1 member with old | member
    · exact accounts.log entry old
    · exact .inl (early entry member)
  · exact .inr (ended entry member)

theorem accounts_of_ran {config : Config} {generator : Generator} {server : Server}
    (ran : (start config generator).Ran server) : server.Accounts := by
  induction ran with
  | start => exact ⟨by simp [start], by simp [start]⟩
  | reacts s _ ih => exact ih.react s

/-- A server that logs a number of bytes has read so many on a connection of the peer that it names, and has
written back each of them. -/
theorem Accounts.closed {server : Server} (accounts : server.Accounts) {key : PublicKey} {address : String}
    {bytes : Nat} (member : .closed key address bytes ∈ server.log.toList) :
    ∃ socket connection w s, ServedAt socket connection w s ∧ s.doing = .ended .closed ∧
      s.record.sent = s.record.handed ∧ s.record.sent.length = bytes ∧
      s.relay.connection.remoteStatic = key := by
  rcases accounts.log _ member with (⟨event, same⟩ | ⟨key, address, same⟩) |
    ⟨socket, connection, w, s, ending, served, ended, same⟩
  · cases same
  · cases same
  · have account := Serving.accounts_of_served served
    cases ending with
    | closed =>
      cases same
      exact ⟨socket, connection, w, s, served, ended, account.even (by simp [ended]) (by simp [ended]),
        account.counted.symm, rfl⟩
    | readFailed error => cases same
    | writeFailed error => cases same

end Server
end NoiseLink.Echo
