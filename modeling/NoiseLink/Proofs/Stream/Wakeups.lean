import NoiseLink.Proofs.Stream.Pipe

/-! A channel between one sink and the calls that receive from it, one after another. A call that finds
nothing registers a ticket with the channel and sleeps until that ticket is woken; a call that is given up
leaves its ticket behind. Nothing is lost or reordered on the way, and no call sleeps through what it is
waiting for. -/
namespace NoiseLink.Channel

structure Call where
  size : Nat
  /-- The ticket that has to be woken before the call looks at the channel again. -/
  ticket : Option Nat := none

/-- Only the ticket of a call wakes it. -/
def Call.wake (woken : Option Nat) (call : Call) : Call :=
  if call.ticket = woken then { call with ticket := none } else call

/-- A channel in use, with the call that is waiting for an answer, and all that was sent and received. -/
structure Use where
  channel : Channel Nat
  call : Option Call := none
  /-- How many tickets were given out. Each attempt takes a new one. -/
  tickets : Nat := 0
  sent : Bytes := []
  received : Bytes := []

namespace Use

def fresh (limit : Option Nat) : Use := { channel := { maxRead := limit } }

def send (u : Use) (bytes : Bytes) : Except NetworkError Unit × Use :=
  match u.channel.send bytes with
  | .error error => (.error error, u)
  | .ok (channel, woken) =>
    (.ok (), { u with channel, call := u.call.map (·.wake woken), sent := u.sent ++ bytes })

def close (u : Use) : Use :=
  let (channel, woken) := u.channel.close
  { u with channel, call := u.call.map (·.wake woken) }

/-- Polls the call that is waiting. While it sleeps, it does not look at the channel. -/
def poll (u : Use) : Poll Bytes × Use :=
  match u.call with
  | none => (.pending, u)
  | some call =>
    if call.ticket.isSome then (.pending, u)
    else
      match u.channel.receive u.tickets call.size with
      | (.ready bytes, channel) =>
        (.ready bytes, { u with channel, call := none, received := u.received ++ bytes })
      | (.pending, channel) =>
        (.pending, { u with channel, call := some { call with ticket := some u.tickets },
                            tickets := u.tickets + 1 })

end Use

/-- What can be done at the two ends of a channel. A receiver has one call at a time: one that is made while
another is waiting is made after that was given up. -/
inductive Move where
  | send (bytes : Bytes)
  | close
  | drop
  | receive (size : Nat)
  | poll
  | giveUp

namespace Move

def atSink : Move → Bool
  | send _ | close | drop => true
  | _ => false

def rouses : Move → Bool
  | send bytes => bytes ≠ []
  | close | drop => true
  | _ => false

end Move

namespace Use

def step (u : Use) : Move → Use
  | .send bytes => (u.send bytes).2
  | .close | .drop => u.close
  | .receive size => { u with call := some { size } }
  | .poll => u.poll.2
  | .giveUp => { u with call := none }

def run (u : Use) (moves : List Move) : Use := moves.foldl step u

/-- A call that sleeps under a ticket finds nothing, and its own ticket, the last one given out, is the one that
will be woken. -/
structure Asleep (u : Use) (ticket : Nat) : Prop where
  empty : u.channel.buffer.toList = []
  opened : u.channel.closed = false
  waits : u.channel.waiter = some ticket
  newest : u.tickets = ticket + 1

structure Sound (limit : Option Nat) (u : Use) : Prop where
  limit : u.channel.maxRead = limit
  balanced : u.received ++ u.channel.buffer.toList = u.sent
  asleep : ∀ call ticket, u.call = some call → call.ticket = some ticket → u.Asleep ticket

variable {limit : Option Nat} {u : Use} {call : Call}

theorem send_opened (opened : u.channel.closed = false) (bytes : Bytes) :
    u.send bytes = (.ok (), { u with
      channel := { u.channel with buffer := u.channel.buffer.push bytes, waiter := none },
      call := u.call.map (·.wake u.channel.waiter), sent := u.sent ++ bytes }) := by
  simp [send, Channel.send, opened]

theorem send_closed (closed : u.channel.closed = true) (bytes : Bytes) :
    u.send bytes = (.error .closed, u) := by
  simp [send, Channel.send, closed]

/-- The waiter is the call that sleeps, if one does, so nobody sleeps when it was woken. -/
theorem Sound.ticket_wake (sound : u.Sound limit) (there : u.call = some call) :
    call.wake u.channel.waiter = { call with ticket := none } := by
  rw [Call.wake]
  split
  · rfl
  · rename_i other
    cases sleeps : call.ticket with
    | none => rw [← sleeps]
    | some ticket => exact absurd (sleeps.trans (sound.asleep call ticket there sleeps).waits.symm) other

theorem Sound.awake (sound : u.Sound limit) {woken : Call}
    (there : u.call.map (·.wake u.channel.waiter) = some woken) : woken.ticket = none := by
  obtain ⟨call, sleeps, rfl⟩ := Option.map_eq_some_iff.1 there
  rw [sound.ticket_wake sleeps]

theorem Sound.send (sound : u.Sound limit) (bytes : Bytes) : (u.send bytes).2.Sound limit := by
  cases ended : u.channel.closed with
  | true => rwa [send_closed ended]
  | false =>
    rw [send_opened ended]
    constructor
    · exact sound.limit
    · simp [← sound.balanced]
    · intro call ticket there sleeps
      simp [sound.awake there] at sleeps

theorem Sound.close (sound : u.Sound limit) : u.close.Sound limit := by
  constructor
  · exact sound.limit
  · exact sound.balanced
  · intro call ticket there sleeps
    simp [sound.awake there] at sleeps

theorem poll_asleep {ticket : Nat} (there : u.call = some call) (sleeps : call.ticket = some ticket) :
    u.poll = (.pending, u) := by
  simp [poll, there, sleeps]

theorem Sound.poll (sound : u.Sound limit) : u.poll.2.Sound limit := by
  cases there : u.call with
  | none => simpa [Use.poll, there] using sound
  | some call =>
    cases sleeps : call.ticket with
    | some ticket => rwa [poll_asleep there sleeps]
    | none =>
      rcases u.channel.receive_answers u.tickets call.size with
        ⟨bytes, left, answer, split, -⟩ | ⟨answer, empty, opened⟩
      · simp only [Use.poll, there, sleeps, Option.isSome_none, answer]
        constructor
        · exact sound.limit
        · simp [← sound.balanced, split]
        · simp
      · simp only [Use.poll, there, sleeps, Option.isSome_none, answer]
        constructor
        · exact sound.limit
        · exact sound.balanced
        · rintro _ ticket ⟨⟩ ⟨⟩
          exact ⟨empty, opened, rfl, rfl⟩

theorem Sound.step (sound : u.Sound limit) (move : Move) : (u.step move).Sound limit := by
  cases move with
  | send bytes => exact sound.send bytes
  | close => exact sound.close
  | drop => exact sound.close
  | poll => exact sound.poll
  | receive size =>
    refine ⟨sound.limit, sound.balanced, ?_⟩
    rintro _ ticket ⟨⟩ ⟨⟩
  | giveUp => exact ⟨sound.limit, sound.balanced, by simp [Use.step]⟩

theorem Sound.run (sound : u.Sound limit) (moves : List Move) : (u.run moves).Sound limit := by
  induction moves generalizing u with
  | nil => exact sound
  | cons move moves ih => exact ih (sound.step move)

theorem sound_fresh (limit : Option Nat) : (fresh limit).Sound limit :=
  ⟨rfl, rfl, by simp [fresh]⟩

theorem closed_step (u : Use) (move : Move) :
    (u.step move).channel.closed = true ↔ u.channel.closed = true ∨ move = .close ∨ move = .drop := by
  cases move with
  | send bytes => cases ended : u.channel.closed <;> simp [step, send_opened, send_closed, ended]
  | poll =>
    rcases there : u.call with _ | ⟨size, _ | ticket⟩
    · simp [step, poll, there]
    · rcases u.channel.receive_answers u.tickets size with ⟨bytes, left, answer, -⟩ | ⟨answer, -⟩ <;>
        simp [step, poll, there, answer]
    · simp [step, poll, there]
  | _ => simp [step, close, Channel.close]

theorem closed_run (u : Use) (moves : List Move) :
    (u.run moves).channel.closed = true ↔
      u.channel.closed = true ∨ .close ∈ moves ∨ .drop ∈ moves := by
  induction moves generalizing u with
  | nil => simp [run]
  | cons move moves ih =>
    have rest := ih (u.step move)
    rw [run, List.foldl_cons, ← run, rest, closed_step]
    simp only [List.mem_cons, @eq_comm _ _ move]
    grind

structure Due (u : Use) (call : Call) : Prop where
  there : u.call = some call
  awake : call.ticket = none
  answered : u.channel.buffer.toList ≠ [] ∨ u.channel.closed = true

theorem Due.poll (due : u.Due call) : ∃ bytes, u.poll.1 = .ready bytes := by
  rcases u.channel.receive_answers u.tickets call.size with ⟨bytes, left, answer, -⟩ | ⟨-, empty, opened⟩
  · exact ⟨bytes, by simp [Use.poll, due.there, due.awake, answer]⟩
  · have answered := due.answered
    simp [empty, opened] at answered

/-- What the sink does next does not take the answer away. -/
theorem Due.step (due : u.Due call) {move : Move} (sink : move.atSink = true) : (u.step move).Due call := by
  have stays (woken : Option Nat) : call.wake woken = call := by
    have awake := due.awake
    cases call
    simp_all [Call.wake]
  cases move with
  | send bytes =>
    cases ended : u.channel.closed with
    | true => simpa [Use.step, send_closed ended] using due
    | false =>
      have held : u.channel.buffer.toList ≠ [] := by simpa [ended] using due.answered
      simp only [Use.step, send_opened ended]
      exact ⟨by simp [due.there, stays], due.awake, .inl (by simp [held])⟩
  | close => exact ⟨by simp [Use.step, close, Channel.close, due.there, stays], due.awake, .inr rfl⟩
  | drop => exact ⟨by simp [Use.step, close, Channel.close, due.there, stays], due.awake, .inr rfl⟩
  | _ => cases sink

theorem Due.run (due : u.Due call) {moves : List Move} (sink : ∀ move ∈ moves, move.atSink = true) :
    (u.run moves).Due call := by
  induction moves generalizing u with
  | nil => exact due
  | cons move moves ih =>
    obtain ⟨first, others⟩ := List.forall_mem_cons.1 sink
    exact ih (due.step first) others

/-- A call that sleeps is woken by whatever it is waiting for. -/
theorem Sound.rouse (sound : u.Sound limit) {ticket : Nat} (there : u.call = some call)
    (sleeps : call.ticket = some ticket) {move : Move} (rouses : move.rouses = true) :
    (u.step move).Due { call with ticket := none } := by
  have woken : u.call.map (·.wake u.channel.waiter) = some { call with ticket := none } := by
    simp [there, sound.ticket_wake there]
  have opened := (sound.asleep call ticket there sleeps).opened
  cases move with
  | send bytes =>
    have filled : bytes ≠ [] := by simpa [Move.rouses] using rouses
    simp only [Use.step, send_opened opened]
    exact ⟨woken, rfl, .inl (by simp [filled])⟩
  | close => exact ⟨woken, rfl, .inr rfl⟩
  | drop => exact ⟨woken, rfl, .inr rfl⟩
  | _ => cases rouses

/-- A poll that is answered takes its bytes off the front of what the channel holds. -/
theorem poll_ready {next : Use} {bytes : Bytes} (there : u.call = some call)
    (polled : u.poll = (.ready bytes, next)) :
    next.received = u.received ++ bytes ∧ bytes.length ≤ min call.size (u.channel.maxRead.getD call.size) ∧
      (bytes = [] → call.size = 0 ∨ u.channel.maxRead = some 0 ∨
        u.channel.buffer.toList = [] ∧ u.channel.closed = true) := by
  cases sleeps : call.ticket with
  | some ticket => simp [poll_asleep there sleeps] at polled
  | none =>
    rcases u.channel.receive_answers u.tickets call.size with ⟨piece, left, answer, -, fits, last⟩ | ⟨answer, -⟩
    · simp only [poll, there, sleeps, Option.isSome_none, answer] at polled
      cases polled
      exact ⟨rfl, fits, last⟩
    · simp [poll, there, sleeps, answer] at polled

/-- One that is not answered leaves the call asleep. -/
theorem poll_pending {next : Use} (there : u.call = some call) (polled : u.poll = (.pending, next)) :
    ∃ ticket, next.call = some { call with ticket := some ticket } := by
  cases sleeps : call.ticket with
  | some ticket =>
    rw [poll_asleep there sleeps] at polled
    cases polled
    exact ⟨ticket, by rw [there, ← sleeps]⟩
  | none =>
    rcases u.channel.receive_answers u.tickets call.size with ⟨piece, left, answer, -⟩ | ⟨answer, -⟩
    · simp [poll, there, sleeps, answer] at polled
    · simp only [poll, there, sleeps, Option.isSome_none, answer] at polled
      cases polled
      exact ⟨u.tickets, rfl⟩

/-- A channel is a lossless queue without lost wake-ups. Whatever happens at its two ends and in whatever order:
what was received and what it holds are together what was sent. A call for at least one byte is answered with
no more than it asked for and than the limit allows, and with none only if the sink was closed or dropped and
all that was sent was received. A call that is not answered sleeps. Nothing is sent behind the end. While a call
sleeps, there is nothing in the channel, which is open, and the call is registered under its own ticket, so
whatever it is waiting for wakes it, and when it is polled then, whatever else the sink did before, it is
answered. -/
theorem lossless_without_lost_wakeups (limit : Option Nat) (unlimited : limit ≠ some 0) (moves : List Move) :
    let u := (fresh limit).run moves
    let ended := Move.close ∈ moves ∨ Move.drop ∈ moves
    u.received ++ u.channel.buffer.toList = u.sent ∧
    (∀ call bytes next, u.call = some call → 0 < call.size → u.poll = (.ready bytes, next) →
      next.received = u.received ++ bytes ∧ bytes.length ≤ min call.size (limit.getD call.size) ∧
        (bytes = [] → ended ∧ u.received = u.sent)) ∧
    (∀ call next, u.call = some call → u.poll = (.pending, next) →
      ∃ ticket, next.call = some { call with ticket := some ticket }) ∧
    (∀ bytes, (ended → u.send bytes = (.error .closed, u)) ∧
      (¬ended → (u.send bytes).1 = .ok () ∧ (u.send bytes).2.sent = u.sent ++ bytes)) ∧
    ∀ call ticket, u.call = some call → call.ticket = some ticket →
      u.Asleep ticket ∧ ¬ended ∧ ∀ move : Move, move.rouses = true →
        (u.step move).call = some { call with ticket := none } ∧
        ∀ later : List Move, (∀ move ∈ later, move.atSink = true) →
          ∃ bytes, ((u.step move).run later).poll.1 = .ready bytes := by
  intro u ended
  have sound : u.Sound limit := (sound_fresh limit).run moves
  have closed : u.channel.closed = true ↔ ended :=
    (closed_run (fresh limit) moves).trans (or_iff_right Bool.false_ne_true)
  refine ⟨sound.balanced, ?_, fun call next => poll_pending, ?_, ?_⟩
  · intro call bytes next there asks polled
    obtain ⟨received, fits, last⟩ := poll_ready there polled
    rw [sound.limit] at fits last
    refine ⟨received, fits, fun none => ?_⟩
    rcases last none with zero | zero | ⟨empty, final⟩
    · omega
    · exact absurd zero unlimited
    · exact ⟨closed.1 final, by simpa [empty] using sound.balanced⟩
  · intro bytes
    constructor
    · intro final
      exact send_closed (closed.2 final) bytes
    · intro going
      have opened : u.channel.closed = false := Bool.eq_false_iff.2 (mt closed.1 going)
      simp [send_opened opened]
  · intro call ticket there sleeps
    have asleep := sound.asleep call ticket there sleeps
    refine ⟨asleep, ?_, fun move rouses => ?_⟩
    · simp [← closed, asleep.opened]
    · have due := sound.rouse there sleeps rouses
      exact ⟨due.there, fun later sink => (due.run sink).poll⟩

/-- A call is given up and leaves its ticket behind; the one after it sleeps, is woken by no bytes, sleeps again
and is answered with one of two bytes. -/
theorem lossless_without_lost_wakeups_of_two_calls :
    let moves := [Move.receive 4, .poll, .giveUp, .receive 8, .poll, .send [], .poll]
    let u := (fresh (some 1)).run moves
    some 1 ≠ some 0 ∧ u.call = some ⟨8, some 2⟩ ∧ u.Asleep 2 ∧
      (u.step (.send [5, 6])).call = some ⟨8, none⟩ ∧
      ∃ bytes, ((u.step (.send [5, 6])).run [.drop]).poll.1 = .ready bytes := by
  intro moves u
  have limited : some 1 ≠ some 0 := by decide
  have there : u.call = some ⟨8, some 2⟩ := rfl
  obtain ⟨-, -, -, -, wakes⟩ := lossless_without_lost_wakeups (some 1) limited moves
  obtain ⟨asleep, -, roused⟩ := wakes _ 2 there rfl
  obtain ⟨woken, answered⟩ := roused (.send [5, 6]) rfl
  exact ⟨limited, there, asleep, woken, answered [.drop] (by simp [Move.atSink])⟩

end Use
end NoiseLink.Channel
