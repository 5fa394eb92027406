import NoiseLink.Echo.Client
import NoiseLink.Proofs.Echo.Serving

/-! A client of the echo server, call by call: it writes a message, reads until as much has come back and
compares, and goes on with the next one. What the program does once it has dialed is a number of these
steps, with a turn of the far side after each message. -/
namespace NoiseLink.Echo

variable {ω α : Type} {sink : Sink ω} {source : Source ω}

inductive Calling where
  /-- These messages are left to exchange. -/
  | saying (rest : List Bytes)
  /-- So much has come back of a message. -/
  | hearing (message : Bytes) (got : Array UInt8) (rest : List Bytes)
  /-- All have come back, and the client has closed the connection. -/
  | left
  | crashed (crash : Crash)

/-- Why a call was not successful. If it had to wait, that was for too long. -/
def fault : Poll (Except Error α) → Error
  | .ready (.error error) => error
  | _ => .network .timeout

namespace Calling

def ended : Except Crash Unit → Calling
  | .ok () => left
  | .error crash => crashed crash

def decided (rest : List Bytes) : Except Crash Unit → Calling
  | .ok () => saying rest
  | .error crash => crashed crash

def after (message : Bytes) (got : Array UInt8) (rest : List Bytes) : Except Error Bytes → Calling
  | .ok [] => decided rest (Heard.ended.verdict message)
  | .ok (byte :: bytes) => hearing message (got ++ byte :: bytes) rest
  | .error error => decided rest ((Heard.failed error).verdict message)

end Calling

structure Caller (ω : Type) where
  connection : Connection
  calling : Calling
  record : Record ω
  world : ω

/-- One step of a client. It may lose patience whenever it has to wait. -/
inductive Calls (sink : Sink ω) (source : Source ω) : Caller ω → Caller ω → Prop where
  | writes {c message rest r w count sender world} :
      c.sender.write sink message w = (.ready (.ok count), sender, world) →
      Calls sink source ⟨c, .saying (message :: rest), r, w⟩
        ⟨{ c with sender }, .hearing message #[] rest, r.wrote message, world⟩
  | stumbles {c message rest r w answer sender world} : (∀ count, answer ≠ .ready (.ok count)) →
      c.sender.write sink message w = (answer, sender, world) →
      Calls sink source ⟨c, .saying (message :: rest), r, w⟩
        ⟨{ c with sender }, .crashed (.send (fault answer)), r, world⟩
  | waits {c message got rest r w receiver world} : got.size < message.length →
      c.receiver.read source (message.length - got.size) w = (.pending, receiver, world) →
      Calls sink source ⟨c, .hearing message got rest, r, w⟩
        ⟨{ c with receiver }, .hearing message got rest,
          r.asked (.read (message.length - got.size)), world⟩
  | tires {c message got rest r w} : got.size < message.length →
      Calls sink source ⟨c, .hearing message got rest, r, w⟩
        ⟨c, .decided rest ((Heard.waiting got).verdict message), r, w⟩
  | answers {c message got rest r w answer receiver world} : got.size < message.length →
      c.receiver.read source (message.length - got.size) w = (.ready answer, receiver, world) →
      Calls sink source ⟨c, .hearing message got rest, r, w⟩
        ⟨{ c with receiver }, .after message got rest answer,
          r.answered ⟨.read (message.length - got.size), answer, receiver, world⟩, world⟩
  | compares {c message got rest r w} : ¬ got.size < message.length →
      Calls sink source ⟨c, .hearing message got rest, r, w⟩
        ⟨c, .decided rest ((Heard.all got.toList).verdict message), r, w⟩
  | closes {c r w sender world} : c.sender.close sink w = (.ready (.ok ()), sender, world) →
      Calls sink source ⟨c, .saying [], r, w⟩ ⟨{ c with sender }, .left, { r with closed := true }, world⟩
  | slips {c r w answer sender world} : (∀ done, answer ≠ .ready (.ok done)) →
      c.sender.close sink w = (answer, sender, world) →
      Calls sink source ⟨c, .saying [], r, w⟩ ⟨{ c with sender }, .crashed (.close (fault answer)), r, world⟩

/-- What a client can come to if others have their turns between its steps. -/
inductive Called (sink : Sink ω) (source : Source ω) (turn : ω → ω → Prop) (first : Caller ω) :
    Caller ω → Prop where
  | start : Called sink source turn first first
  | calls {s next} : Called sink source turn first s → Calls sink source s next →
      Called sink source turn first next
  | yields {s world} : Called sink source turn first s → turn s.world world →
      Called sink source turn first { s with world }

namespace Called

variable {turn : ω → ω → Prop} {first s last : Caller ω}

theorem trans (early : Called sink source turn first s) (late : Called sink source turn s last) :
    Called sink source turn first last := by
  induction late with
  | start => exact early
  | calls _ step ih => exact ih.calls step
  | yields _ turn ih => exact ih.yields turn

/-- Reading until a message is back is a number of steps, and to judge what was heard is one more. -/
theorem of_hear {message : Bytes} {got : Array UInt8} {r receiver : Receiver} {w world : ω} {heard : Heard}
    (h : hear source message.length got r w = (heard, receiver, world)) (sink : Sink ω)
    (turn : ω → ω → Prop) (c : Connection) (rest : List Bytes) (record : Record ω) :
    ∃ done, Called sink source turn ⟨{ c with receiver := r }, .hearing message got rest, record, w⟩
      ⟨{ c with receiver }, .decided rest (heard.verdict message), done, world⟩ := by
  fun_induction hear source message.length got r w generalizing record with
  | case1 got r w short next after read =>
    cases h
    exact ⟨_, (start.calls (.waits short read)).calls (.tires short)⟩
  | case2 got r w short error next after read =>
    cases h
    have answers : Calls sink source ⟨{ c with receiver := r }, .hearing message got rest, record, w⟩ _ :=
      .answers short read
    exact ⟨_, start.calls answers⟩
  | case3 got r w short next after read =>
    cases h
    have answers : Calls sink source ⟨{ c with receiver := r }, .hearing message got rest, record, w⟩ _ :=
      .answers short read
    exact ⟨_, start.calls answers⟩
  | case4 got r w short byte bytes next after read ih =>
    obtain ⟨done, rest⟩ := ih h _
    exact ⟨done, (start.calls (.answers short read)).trans rest⟩
  | case5 got r w full =>
    cases h
    exact ⟨_, start.calls (.compares full)⟩

end Called

namespace Run

open Tcp (Sockets)

variable {β : Type} {p last : Progress}

def Turn (w world : Sockets) : Prop :=
  ∃ surroundings : Surroundings, surroundings.sockets = w ∧ surroundings.react.sockets = world

theorem bind_cases {x : Run α} {f : α → Run β} {result : Except Crash β}
    (h : (x >>= f).run.run p = (result, last)) :
    (∃ crash, x.run.run p = (.error crash, last) ∧ result = .error crash) ∨
      ∃ a middle, x.run.run p = (.ok a, middle) ∧ (f a).run.run middle = (result, last) := by
  simp only [ExceptT.run_bind, StateT.run_bind] at h
  change (match x.run.run p with | (a, s) => _) = _ at h
  generalize x.run.run p = first at h ⊢
  obtain ⟨crash | a, middle⟩ := first
  · cases h
    exact .inl ⟨crash, rfl, rfl⟩
  · exact .inr ⟨a, middle, rfl, h⟩

theorem call_cases {crash : Error → Crash} {step : Sockets → Poll (Except Error α) × β × Sockets}
    {result : Except Crash (α × β)} (h : (call crash step).run.run p = (result, last)) :
    ∃ answer half, step p.surroundings.sockets = (answer, half, last.surroundings.sockets) ∧
      ((∃ value, answer = .ready (.ok value) ∧ result = .ok (value, half)) ∨
        (∀ value, answer ≠ .ready (.ok value)) ∧ result = .error (crash (fault answer))) := by
  rcases bind_cases h with ⟨_, found, -⟩ | ⟨progress, middle, found, h⟩
  · cases found
  cases found
  generalize step p.surroundings.sockets = outcome at h ⊢
  obtain ⟨answer, half, sockets⟩ := outcome
  rcases bind_cases h with ⟨_, put, -⟩ | ⟨_, middle, put, h⟩
  · cases put
  cases put
  obtain (error | value) | _ := answer
  · cases h
    exact ⟨_, half, rfl, .inr ⟨nofun, rfl⟩⟩
  · cases h
    exact ⟨_, half, rfl, .inl ⟨value, rfl, rfl⟩⟩
  · cases h
    exact ⟨_, half, rfl, .inr ⟨nofun, rfl⟩⟩

theorem discard_cases {x : Run α} {result : Except Crash PUnit} (h : (discard x).run.run p = (result, last)) :
    ∃ found, x.run.run p = (found, last) ∧ result = found.map fun _ => ⟨⟩ := by
  rcases bind_cases (f := fun _ => pure PUnit.unit) h with ⟨crash, found, rfl⟩ | ⟨a, middle, found, h⟩
  · exact ⟨_, found, rfl⟩
  · cases h
    exact ⟨_, found, rfl⟩

theorem called_takeBack {near : Nat} {message : Bytes} {r : Receiver} {result : Except Crash Receiver}
    (h : (takeBack near message r).run.run p = (result, last)) (c : Connection) (rest : List Bytes)
    (record : Record Sockets) :
    ∃ receiver done, Called (Sockets.sink near) (Sockets.source near reading) Turn
        ⟨{ c with receiver := r }, .hearing message #[] rest, record, p.surroundings.sockets⟩
        ⟨{ c with receiver }, .decided rest (result.map fun _ => ()), done, last.surroundings.sockets⟩ ∧
      ∀ next, result = .ok next → receiver = next := by
  rcases bind_cases h with ⟨_, found, -⟩ | ⟨progress, middle, found, h⟩
  · cases found
  cases found
  generalize hearing : hear _ message.length #[] r p.surroundings.sockets = outcome at h
  obtain ⟨heard, receiver, sockets⟩ := outcome
  obtain ⟨done, called⟩ := Called.of_hear hearing (Sockets.sink near) Turn c rest record
  rcases bind_cases h with ⟨_, put, -⟩ | ⟨_, middle, put, h⟩
  · cases put
  cases put
  simp only at h
  generalize heard.verdict message = verdict at h called
  cases verdict with
  | error =>
    cases h
    exact ⟨receiver, done, called, nofun⟩
  | ok =>
    cases h
    exact ⟨receiver, done, called, fun _ => Except.ok.inj⟩

theorem called_exchange {near : Nat} {message : Bytes} {c : Connection} {result : Except Crash Connection}
    (h : (exchange near message c).run.run p = (result, last)) (rest : List Bytes)
    (record : Record Sockets) :
    ∃ s, Called (Sockets.sink near) (Sockets.source near reading) Turn
        ⟨c, .saying (message :: rest), record, p.surroundings.sockets⟩ s ∧
      s.world = last.surroundings.sockets ∧ s.calling = .decided rest (result.map fun _ => ()) ∧
      ∀ next, result = .ok next → s.connection = next := by
  rcases bind_cases h with ⟨crash, write, rfl⟩ | ⟨⟨_, sender⟩, middle, write, h⟩
  · obtain ⟨answer, half, written, ⟨value, -, fine⟩ | ⟨fails, wrong⟩⟩ := call_cases write
    · cases fine
    · cases wrong
      exact ⟨_, .calls .start (.stumbles fails written), rfl, rfl, nofun⟩
  obtain ⟨answer, half, written, ⟨value, rfl, fine⟩ | ⟨fails, wrong⟩⟩ := call_cases write
  swap
  · cases wrong
  cases fine
  rcases bind_cases h with ⟨_, turn, -⟩ | ⟨_, between, turn, h⟩
  · cases turn
  cases turn
  have asked : Called (Sockets.sink near) (Sockets.source near reading) Turn
      ⟨c, .saying (message :: rest), record, p.surroundings.sockets⟩
      ⟨{ c with sender }, .hearing message #[] rest, record.wrote message,
        middle.surroundings.react.sockets⟩ :=
    .yields (.calls .start (.writes written)) ⟨_, rfl, rfl⟩
  rcases bind_cases h with ⟨crash, taken, rfl⟩ | ⟨receiver, final, taken, h⟩
  · obtain ⟨receiver, done, heard, -⟩ := called_takeBack taken { c with sender } rest (record.wrote message)
    exact ⟨_, asked.trans heard, rfl, rfl, nofun⟩
  · cases h
    obtain ⟨receiver, done, heard, same⟩ :=
      called_takeBack taken { c with sender } rest (record.wrote message)
    obtain rfl := same _ rfl
    exact ⟨_, asked.trans heard, rfl, rfl, fun _ => Except.ok.inj⟩

theorem called_exchangeAll {near : Nat} {message : Nat → Bytes} {count index total : Nat} {c : Connection}
    {result : Except Crash (Nat × Connection)}
    (h : (exchangeAll near message count index total c).run.run p = (result, last))
    (record : Record Sockets) :
    ∃ s, Called (Sockets.sink near) (Sockets.source near reading) Turn
        ⟨c, .saying ((List.range' index count).map message), record, p.surroundings.sockets⟩ s ∧
      s.world = last.surroundings.sockets ∧ s.calling = .decided [] (result.map fun _ => ()) ∧
      ∀ total next, result = .ok (total, next) → s.connection = next := by
  induction count generalizing index total c p record with
  | zero =>
    cases h
    exact ⟨_, .start, rfl, rfl, by rintro _ _ ⟨⟩; rfl⟩
  | succ count ih =>
    rcases bind_cases h with ⟨crash, exchanged, rfl⟩ | ⟨next, middle, exchanged, h⟩
    · obtain ⟨s, called, world, calling, -⟩ := called_exchange exchanged _ record
      exact ⟨s, called, world, calling, nofun⟩
    obtain ⟨s, called, world, goal, same⟩ := called_exchange exchanged
      ((List.range' (index + 1) count).map message) record
    rcases bind_cases h with ⟨_, reported, -⟩ | ⟨_, between, reported, h⟩
    · cases reported
    cases reported
    obtain ⟨connection, calling, done, w⟩ := s
    obtain rfl : connection = next := same next rfl
    obtain rfl : w = middle.surroundings.sockets := world
    obtain rfl : calling = .saying _ := goal
    obtain ⟨t, later, final⟩ := ih h done
    exact ⟨t, called.trans later, final⟩

/-- What the program does after it has dialed is a number of steps of a client. -/
theorem called_client {chance : Chance} {config : Config} {peer : PublicKey} {address : SocketAddress}
    {messages near : Nat} {c : Connection} {dialed : Progress} {result : Except Crash Unit}
    (reached : (dial config peer chance.ephemeral address).run.run p = (.ok (near, c), dialed))
    (h : (client chance config peer address messages).run.run p = (result, last)) :
    ∃ s, Called (Sockets.sink near) (Sockets.source near reading) Turn
        ⟨c, .saying ((List.range messages).map chance.message), {}, dialed.surroundings.sockets⟩ s ∧
      s.world = last.surroundings.sockets ∧ s.calling = .ended result := by
  rcases bind_cases h with ⟨_, dial, -⟩ | ⟨_, middle, dial, h⟩
  · cases reached.symm.trans dial
  cases reached.symm.trans dial
  rcases bind_cases h with ⟨_, reported, -⟩ | ⟨_, middle, reported, h⟩
  · cases reported
  cases reported
  rw [List.range_eq_range']
  rcases bind_cases h with ⟨crash, exchanged, rfl⟩ | ⟨⟨total, next⟩, middle, exchanged, h⟩
  · obtain ⟨s, called, world, calling, -⟩ := called_exchangeAll exchanged {}
    exact ⟨s, called, world, calling⟩
  obtain ⟨⟨connection, _, record, _⟩, called, rfl, rfl, same⟩ := called_exchangeAll exchanged {}
  obtain rfl : connection = next := same total next rfl
  rcases bind_cases h with ⟨crash, left, rfl⟩ | ⟨_, final, left, h⟩
  · obtain ⟨found, tried, told⟩ := discard_cases left
    obtain ⟨answer, half, closed, ⟨value, -, rfl⟩ | ⟨fails, rfl⟩⟩ := call_cases tried
    · cases told
    · cases told
      exact ⟨_, called.calls (.slips fails closed), rfl, rfl⟩
  · obtain ⟨found, tried, told⟩ := discard_cases left
    cases h
    obtain ⟨answer, half, closed, ⟨value, rfl, rfl⟩ | ⟨fails, rfl⟩⟩ := call_cases tried
    · exact ⟨_, called.calls (.closes closed), rfl, rfl⟩
    · cases told

end Run
end NoiseLink.Echo
