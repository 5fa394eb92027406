import NoiseLink.Proofs.Handshake.Conduct

/-! The deadline of a handshake. It is set once, when the upgrade is polled for the first time, and every
poll is held to it, whatever has come in between. A poll tries the conversation first and answers what that
answers; only where the conversation has to wait it matters what time it is. -/
namespace NoiseLink

open Handshake

variable {ω α β : Type} {sink : Sink ω} {source : Source ω} {tape : ω → Option Tape}
  {takes : Except NetworkError Unit}

/-- What comes in before a poll if the stream has had nothing more to say. -/
def Occasion.Brings (tape : ω → Option Tape) (occasion : Occasion ω) (arrival : Tape) : Prop :=
  ∀ w, tape w = some ⟨[], .quiet⟩ → tape (occasion.before w) = some arrival

namespace Exchange

def carried (sink : Sink ω) (source : Source ω) : List (Occasion ω) → Exchange α → ω →
    Poll (Except Error α) × Exchange α × ω
  | [], x, w => (.pending, x, w)
  | occasion :: later, x, w =>
    match x.poll sink source (occasion.before w) with
    | (.pending, x, w) => carried sink source later x w
    | ended => ended

theorem carried_of_pending {occasion : Occasion ω} {x next : Exchange α} {w after : ω}
    (waits : x.poll sink source (occasion.before w) = (.pending, next, after))
    (later : List (Occasion ω)) :
    x.carried sink source (occasion :: later) w = next.carried sink source later after := by
  rw [carried, waits]

theorem carried_of_ready {occasion : Occasion ω} {x next : Exchange α} {w after : ω}
    {answer : Except Error α}
    (ended : x.poll sink source (occasion.before w) = (.ready answer, next, after))
    (later : List (Occasion ω)) :
    x.carried sink source (occasion :: later) w = (.ready answer, next, after) := by
  rw [carried, ended]

theorem carried_append {earlier : List (Occasion ω)} {x next : Exchange α} {w after : ω}
    (waits : x.carried sink source earlier w = (.pending, next, after)) (later : List (Occasion ω)) :
    x.carried sink source (earlier ++ later) w = next.carried sink source later after := by
  induction earlier generalizing x w with
  | nil =>
    cases waits
    rfl
  | cons occasion earlier ih =>
    rcases polled : x.poll sink source (occasion.before w) with ⟨answer | _, between, world⟩
    · rw [carried_of_ready polled] at waits
      cases waits
    · rw [carried_of_pending polled] at waits
      rw [List.cons_append, carried_of_pending polled, ih waits]

theorem fst_carried_once (x : Exchange α) (occasion : Occasion ω) (w : ω) :
    (x.carried sink source [occasion] w).1 = (x.poll sink source (occasion.before w)).1 := by
  rcases polled : x.poll sink source (occasion.before w) with ⟨answer | _, next, after⟩
  · rw [carried_of_ready polled]
  · rw [carried_of_pending polled, carried]

/-- A conversation that has to wait where nobody waits without need has heard all that came in. -/
theorem After.carried (hands : source.Hands tape) (answers : sink.Answers tape takes False)
    (prompt : source.Prompt tape) {x : Exchange α} (proper : x.Proper False) {w : ω}
    (quiet : tape w = some ⟨[], .quiet⟩) {schedule : List (Occasion ω)} {arrivals : List Tape}
    (brings : List.Forall₂ (Occasion.Brings tape) schedule arrivals) {next : Exchange α} {after : ω}
    (waits : x.carried sink source schedule w = (.pending, next, after)) :
    tape after = some ⟨[], .quiet⟩ ∧ ∃ acts, x.After takes False (arrivals.flatMap Tape.bytes) acts next := by
  induction brings generalizing x w with
  | nil =>
    cases waits
    exact ⟨quiet, [], .refl proper⟩
  | @cons occasion arrival later arrivals first others ih =>
    have turn := proper.turn hands answers (first w quiet)
    rcases polled : x.poll sink source (occasion.before w) with ⟨answer | _, between, world⟩
    · rw [carried_of_ready polled] at waits
      cases waits
    · rw [carried_of_pending polled] at waits
      rw [polled] at turn
      cases turn with
      | @waits _ _ rest heard said holds goes idle =>
        obtain ⟨paused, -⟩ := idle not_false
        obtain rfl := prompt _ _ paused
        have all : arrival.bytes = heard := by simp [said, Tape.rewind]
        obtain ⟨left, acts, further⟩ := ih goes.proper holds waits
        rw [List.flatMap_cons, all]
        exact ⟨left, _, goes.trans further⟩

inductive Untimed : Exchange α → Prop where
  | done {result} : result ≠ .error .handshakeTimeout → Untimed (done result)
  | send {act next} : Untimed next → Untimed (send act next)
  | sending {next} : Untimed next → Untimed (sending next)
  | receive {size got next} : (∀ act, Untimed (next act)) → Untimed (receive size got next)

theorem Untimed.poll {x : Exchange α} (untimed : x.Untimed) (sink : Sink ω) (source : Source ω) (w : ω) :
    (x.poll sink source w).1 ≠ .ready (.error .handshakeTimeout) ∧ (x.poll sink source w).2.1.Untimed := by
  have broken (cause : NetworkError) : (fail (α := α) (.network cause)).Untimed := .done (by simp)
  induction untimed generalizing w with
  | done other => exact ⟨by simpa [Exchange.poll] using other, .done other⟩
  | send untimed ih =>
    rw [Exchange.poll]
    split
    · exact ih _
    · exact ⟨by simp, broken _⟩
    · exact ⟨by simp, .sending untimed⟩
  | sending untimed ih =>
    rw [Exchange.poll]
    split
    · exact ih _
    · exact ⟨by simp, broken _⟩
    · exact ⟨by simp, .sending untimed⟩
  | receive untimed ih =>
    rw [Exchange.poll]
    split
    · exact ih _ _
    · exact ⟨by simp, .receive untimed⟩
    · exact ⟨by simp, .done (by simp)⟩
    · exact ⟨by simp, broken _⟩

theorem Untimed.carried {x : Exchange α} (untimed : x.Untimed) (schedule : List (Occasion ω)) (w : ω) :
    (x.carried sink source schedule w).1 ≠ .ready (.error .handshakeTimeout) := by
  induction schedule generalizing x w with
  | nil => simp [Exchange.carried]
  | cons occasion later ih =>
    obtain ⟨other, still⟩ := untimed.poll sink source (occasion.before w)
    rcases polled : x.poll sink source (occasion.before w) with ⟨answer | _, next, after⟩
    · rw [carried_of_ready polled]
      rwa [polled] at other
    · rw [carried_of_pending polled]
      rw [polled] at still
      exact ih still after

end Exchange

theorem Error.Refuses.untimed {error : Error} (refuses : error.Refuses) : error ≠ .handshakeTimeout := by
  rintro rfl
  cases refuses

theorem Handshake.refuses_of_offer {t : Transcript} {fresh : PrivateKey} {theirs : PublicKey} {error : Error}
    (refused : offer t fresh theirs = .error error) : error.Refuses := by
  cases mixed : mixShared (t.mixHash fresh.publicKey.bytes) fresh theirs with
  | ok next =>
    obtain ⟨tag, after, sealed⟩ := sealTag_ok next
    simp [offer, mixed, sealed, bind, Except.bind, pure, Except.pure] at refused
  | error cause =>
    obtain rfl : cause = error := by simpa [offer, mixed, bind, Except.bind] using refused
    simp only [mixShared, sharedSecret] at mixed
    split at mixed
    · simp [bind, Except.bind, pure, Except.pure] at mixed
    · cases mixed
      exact .key

theorem Initiator.refuses_of_actOne {i : Initiator} {fresh : PrivateKey} {error : Error}
    (refused : i.actOne fresh = .error error) : error.Refuses := by
  rw [actOne] at refused
  generalize offered : offer i.transcript fresh i.remoteStatic = answer at refused
  cases answer with
  | ok value => cases refused
  | error cause =>
    cases refused
    exact refuses_of_offer offered

namespace Upgrade

theorem untimed_proceed {step : Except Error β} {next : β → Exchange α}
    (refuses : ∀ error, step = .error error → error.Refuses)
    (untimed : ∀ value, step = .ok value → (next value).Untimed) : (proceed step next).Untimed := by
  cases step with
  | ok value => exact untimed value rfl
  | error error =>
    have other := (refuses error rfl).untimed
    exact .done (by simpa using other)

theorem untimed_dialer (config : Config) (peer : PublicKey) (fresh : PrivateKey) :
    (dialerExchange config peer fresh).Untimed := by
  refine untimed_proceed (fun error refused => Initiator.refuses_of_actOne refused) fun sent begun => ?_
  refine .send (.receive fun actTwo => ?_)
  refine untimed_proceed (fun error refused => AwaitingActTwo.refuses_of_actThree refused) fun _ _ => ?_
  exact .send (.done (by simp))

theorem untimed_listener (config : Config) (fresh : PrivateKey) :
    (listenerExchange config fresh).Untimed := by
  refine .receive fun actOne => ?_
  refine untimed_proceed (fun error refused => Responder.refuses_of_receiveActOne refused) ?_
  intro received taken
  obtain ⟨actTwo, awaiting, answered⟩ := ReceivedActOne.exists_actTwo taken fresh
  refine untimed_proceed (fun error refused => ?_) fun sent returned => ?_
  · rw [answered] at refused
    cases refused
  · refine .send (.receive fun actThree => .done fun late => ?_)
    have receiving := AwaitingActThree.receiving (ReceivedActOne.nonce_of_actTwo returned) actThree
    rw [late] at receiving
    exact receiving.refuses.untimed rfl

/-- What an upgrade answers at a given time if its conversation answers this. -/
def timed (deadline now : Nanoseconds) : Poll (Except Error Session) → Poll (Except Error Connection)
  | .ready answer => .ready (answer.map Connection.ofSession)
  | .pending => if deadline ≤ now then .ready (.error .handshakeTimeout) else .pending

theorem timed_early {deadline now : Nanoseconds} {own : Poll (Except Error Session)}
    (early : now < deadline) (other : own ≠ .ready (.error .handshakeTimeout)) :
    timed deadline now own ≠ .ready (.error .handshakeTimeout) := by
  rcases own with (error | session) | _
  · simpa [timed, Except.map] using other
  · simp [timed, Except.map]
  · simp [timed, Nat.not_le.2 early]

theorem timed_late {deadline now : Nanoseconds} (late : deadline ≤ now) (own : Poll (Except Error Session)) :
    timed deadline now own ≠ .pending := by
  cases own <;> simp [timed, late]

theorem fst_poll_timed (sink : Sink ω) (source : Source ω) (now : Nanoseconds) (u : Upgrade) (w : ω) :
    (u.poll sink source now w).1 =
      timed (u.deadline.getD (now + u.timeout)) now (u.exchange.poll sink source w).1 := by
  rw [fst_poll]
  cases (u.exchange.poll sink source w).1 <;> rfl

variable {u : Upgrade} {earlier : List (Occasion ω)} {w : ω}

/-- An upgrade that still waits has had its conversation wait every time, and its deadline is the one that its
first poll set. -/
theorem carried_of_waiting (waiting : (u.course sink source earlier w).answer = .pending) (now : Nanoseconds) :
    let c := u.course sink source earlier w
    u.exchange.carried sink source earlier w = (.pending, c.upgrade.exchange, c.world) ∧
      c.upgrade.deadline.getD (now + c.upgrade.timeout) =
        u.deadline.getD ((earlier.head?.elim now Occasion.now) + u.timeout) := by
  induction earlier generalizing u w with
  | nil => exact ⟨rfl, rfl⟩
  | cons occasion later ih =>
    rcases polled : u.exchange.poll sink source (occasion.before w) with ⟨answer | _, next, after⟩
    · rw [course_of_ready polled] at waiting
      cases waiting
    · by_cases late : u.deadline.getD (occasion.now + u.timeout) ≤ occasion.now
      · rw [course_of_late late polled] at waiting
        cases waiting
      · rw [course_of_pending late polled] at waiting ⊢
        obtain ⟨waits, kept⟩ := ih waiting
        exact ⟨(Exchange.carried_of_pending polled later).trans waits, kept⟩

theorem answer_course_once (u : Upgrade) (occasion : Occasion ω) (w : ω) :
    (u.course sink source [occasion] w).answer = (u.poll sink source occasion.now (occasion.before w)).1 := by
  rcases polled : u.poll sink source occasion.now (occasion.before w) with ⟨answer | _, next, after⟩
  · rw [course, polled]
  · rw [course, polled]
    rfl

theorem answer_course_append (waiting : (u.course sink source earlier w).answer = .pending)
    (later : List (Occasion ω)) :
    let c := u.course sink source earlier w
    (u.course sink source (earlier ++ later) w).answer =
      (c.upgrade.course sink source later c.world).answer := by
  induction earlier generalizing u w with
  | nil => rfl
  | cons occasion others ih =>
    rcases polled : u.exchange.poll sink source (occasion.before w) with ⟨answer | _, next, after⟩
    · rw [course_of_ready polled] at waiting
      cases waiting
    · by_cases late : u.deadline.getD (occasion.now + u.timeout) ≤ occasion.now
      · rw [course_of_late late polled] at waiting
        cases waiting
      · rw [course_of_pending late polled] at waiting
        rw [List.cons_append, course_of_pending late polled, course_of_pending late polled]
        exact ih waiting

/-- What an upgrade that has waited so far answers next. -/
theorem answer_of_waiting (waiting : (u.course sink source earlier w).answer = .pending)
    (occasion : Occasion ω) :
    (u.course sink source (earlier ++ [occasion]) w).answer =
      timed (u.deadline.getD (earlier.head?.elim occasion.now Occasion.now + u.timeout)) occasion.now
        (u.exchange.carried sink source (earlier ++ [occasion]) w).1 := by
  obtain ⟨waits, kept⟩ := carried_of_waiting waiting occasion.now
  rw [answer_course_append waiting, answer_course_once, fst_poll_timed, kept, Exchange.carried_append waits,
    Exchange.fst_carried_once]

/-- The deadline covers the whole of a handshake. It runs out a fixed time after the first poll, and whatever
the peer says, in whatever pieces and at whatever times, and whatever the streams do: a poll before that does
not answer that time is over, and one after it does not have its caller wait. Each poll answers what the
conversation alone would answer then, and only where that would wait the time makes a difference. If nobody
waits without need, what the conversation answers is settled by the bytes that have come in so far. -/
theorem deadline_covers_all (config : Config) (begun : Upgrade)
    (begins : (∃ peer fresh, begun = dialer config peer fresh) ∨ ∃ fresh, begun = listener config fresh)
    (sink : Sink ω) (source : Source ω) (earlier : List (Occasion ω)) (w : ω)
    (waiting : (begun.course sink source earlier w).answer = .pending) (occasion : Occasion ω) :
    let deadline := earlier.head?.elim occasion.now Occasion.now + config.handshakeTimeout
    let own := (begun.exchange.carried sink source (earlier ++ [occasion]) w).1
    let answer := (begun.course sink source (earlier ++ [occasion]) w).answer
    answer = timed deadline occasion.now own ∧
    (occasion.now < deadline → answer ≠ .ready (.error .handshakeTimeout)) ∧
    (deadline ≤ occasion.now → answer ≠ .pending) ∧
    ∀ (tape : ω → Option Tape) (takes : Except NetworkError Unit), sink.Answers tape takes False →
      source.Hands tape → source.Prompt tape → tape w = some ⟨[], .quiet⟩ →
      ∀ (arrivals : List Tape) (last : Tape),
        List.Forall₂ (Occasion.Brings tape) earlier arrivals → occasion.Brings tape last →
        own = (begun.exchange.outcome takes ⟨arrivals.flatMap Tape.bytes ++ last.bytes, last.ending⟩).2 := by
  intro deadline own answer
  have proper : begun.exchange.Proper False := by
    rcases begins with ⟨peer, fresh, rfl⟩ | ⟨fresh, rfl⟩
    · exact proper_dialer False config peer fresh
    · exact proper_listener False config fresh
  have untimed : begun.exchange.Untimed := by
    rcases begins with ⟨peer, fresh, rfl⟩ | ⟨fresh, rfl⟩
    · exact untimed_dialer config peer fresh
    · exact untimed_listener config fresh
  have unset : begun.deadline = none ∧ begun.timeout = config.handshakeTimeout := by
    rcases begins with ⟨peer, fresh, rfl⟩ | ⟨fresh, rfl⟩ <;> exact ⟨rfl, rfl⟩
  have answers : answer = timed deadline occasion.now own := by
    simpa [unset] using answer_of_waiting waiting occasion
  refine ⟨answers, ?_, ?_, ?_⟩
  · intro early
    rw [answers]
    exact timed_early early (untimed.carried (earlier ++ [occasion]) w)
  · intro late
    rw [answers]
    exact timed_late late own
  · intro tape takes accepts hands prompt quiet arrivals last brings arrives
    have waits := (carried_of_waiting waiting occasion.now).1
    obtain ⟨left, acts, goes⟩ := Exchange.After.carried hands accepts prompt proper quiet brings waits
    have polled := goes.proper.fst_poll hands accepts not_false prompt (arrives _ left)
    have heard := goes.outcome last
    rw [Tape.rewind] at heard
    rw [heard, Exchange.prepend, ← polled]
    change (Exchange.carried sink source (earlier ++ [occasion]) begun.exchange w).1 = _
    rw [Exchange.carried_append waits, Exchange.fst_carried_once]

/-- A peer that says one byte before each poll: the listener waits at the first and has no time left at the
second, although there was progress. -/
theorem deadline_covers_all_of_two_bytes :
    let listening := listener { staticKey := ⟨1, by decide, by decide⟩, handshakeTimeout := 50 }
      ⟨2, by decide, by decide⟩
    let first : Occasion Tape := ⟨(·.follow [0] .quiet), 5⟩
    let second : Occasion Tape := ⟨(·.follow [7] .quiet), 55⟩
    (listening.course Tape.sink Tape.source [first] ⟨[], .quiet⟩).answer = .pending ∧
      (listening.course Tape.sink Tape.source [first, second] ⟨[], .quiet⟩).answer =
        .ready (.error .handshakeTimeout) := by
  intro listening first second
  have brings (byte : UInt8) (now : Nanoseconds) :
      Occasion.Brings some ⟨(·.follow [byte] .quiet), now⟩ ⟨[byte], .quiet⟩ := by
    rintro w ⟨⟩
    rfl
  have short {said : Bytes} (few : said.length < actOneLength) :
      (listening.exchange.outcome (.ok ()) ⟨said, .quiet⟩).2 = .pending :=
    congrArg Prod.snd (Listens.cutOne (.quiet few)).yields.outcome
  have covers (earlier : List (Occasion Tape)) :=
    deadline_covers_all { staticKey := ⟨1, by decide, by decide⟩, handshakeTimeout := 50 } listening
      (.inr ⟨_, rfl⟩) Tape.sink Tape.source earlier ⟨[], .quiet⟩
  have waiting : (listening.course Tape.sink Tape.source [first] ⟨[], .quiet⟩).answer = .pending := by
    obtain ⟨answers, -, -, heard⟩ := covers [] rfl first
    have own := heard some (.ok ()) Tape.answers_sink Tape.hands_source Tape.prompt_source rfl [] _ .nil
      (brings 0 5)
    rw [short (by decide)] at own
    rw [own] at answers
    exact answers
  refine ⟨waiting, ?_⟩
  obtain ⟨answers, -, -, heard⟩ := covers [first] waiting second
  have own := heard some (.ok ()) Tape.answers_sink Tape.hands_source Tape.prompt_source rfl [_] _
    (.cons (brings 0 5) .nil) (brings 7 55)
  rw [short (by decide)] at own
  rw [own] at answers
  exact answers

end Upgrade
end NoiseLink
