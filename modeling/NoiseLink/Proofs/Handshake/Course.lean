import NoiseLink.Proofs.Handshake.Outcome

/-! The course of an upgrade. It is polled on one occasion after another until it answers, and what has
come of it then is told by the part of its tape that it has heard: the acts that it has given, what is left
of its conversation, and its answer. -/
namespace NoiseLink

variable {ω α : Type}

def Exchange.received (sink : Sink ω) (source : Source ω) : Exchange α → ω → List Bytes
  | done _, _ => []
  | send act next, w =>
    match sink.send act w with
    | (.ready (.ok ()), w) => received sink source next w
    | _ => []
  | sending next, w =>
    match sink.resume w with
    | (.ready (.ok ()), w) => received sink source next w
    | _ => []
  | receive size got next, w =>
    match source.gather size got w with
    | (.full act, w) => act.bytes :: received sink source (next act) w
    | _ => []

/-- A time at which an upgrade is polled, and what happens to the world before. -/
structure Occasion (ω : Type) where
  before : ω → ω
  now : Nanoseconds

structure Course (ω : Type) where
  answer : Poll (Except Error Connection)
  /-- The acts that its sink was given. -/
  given : List Bytes
  /-- The acts that it has taken from its stream in full. -/
  received : List Bytes
  upgrade : Upgrade
  world : ω

def Course.behind (c : Course ω) (given received : List Bytes) : Course ω :=
  { c with given := given ++ c.given, received := received ++ c.received }

/-- What happens between two polls leaves alone what the stream is going to hand out. -/
def Steady (tape : ω → Option Tape) (schedule : List (Occasion ω)) : Prop :=
  ∀ occasion ∈ schedule, ∀ w t, tape w = some t → tape (occasion.before w) = some t

namespace Upgrade

/-- An upgrade is polled on one occasion after another, until it answers. -/
def course (sink : Sink ω) (source : Source ω) : List (Occasion ω) → Upgrade → ω → Course ω
  | [], u, w => ⟨.pending, [], [], u, w⟩
  | occasion :: later, u, w =>
    let w := occasion.before w
    let given := u.exchange.handed sink source w
    let received := u.exchange.received sink source w
    match u.poll sink source occasion.now w with
    | (.ready answer, u, w) => ⟨.ready answer, given, received, u, w⟩
    | (.pending, u, w) => (course sink source later u w).behind given received

def InTime (u : Upgrade) (schedule : List (Occasion ω)) : Prop :=
  ∀ first ∈ schedule.head?, ∀ occasion ∈ schedule,
    occasion.now < u.deadline.getD (first.now + u.timeout)

variable {sink : Sink ω} {source : Source ω} {tape : ω → Option Tape}
  {takes : Except NetworkError Unit} {stalls : Prop}

section Polls

variable {u : Upgrade} {w after : ω} {occasion : Occasion ω} {exchange : Exchange Session}

theorem course_of_ready {answer : Except Error Session}
    (ended : u.exchange.poll sink source (occasion.before w) = (.ready answer, exchange, after))
    (later : List (Occasion ω)) :
    u.course sink source (occasion :: later) w =
      ⟨.ready (answer.map Connection.ofSession), u.exchange.handed sink source (occasion.before w),
        u.exchange.received sink source (occasion.before w), u.onward exchange occasion.now, after⟩ := by
  rw [course, poll_of_ready ended]

theorem course_of_late (late : u.deadline.getD (occasion.now + u.timeout) ≤ occasion.now)
    (waits : u.exchange.poll sink source (occasion.before w) = (.pending, exchange, after))
    (later : List (Occasion ω)) :
    u.course sink source (occasion :: later) w =
      ⟨.ready (.error .handshakeTimeout), u.exchange.handed sink source (occasion.before w),
        u.exchange.received sink source (occasion.before w), u.onward exchange occasion.now, after⟩ := by
  rw [course, poll_of_pending waits, if_pos late]

theorem course_of_pending (early : ¬ u.deadline.getD (occasion.now + u.timeout) ≤ occasion.now)
    (waits : u.exchange.poll sink source (occasion.before w) = (.pending, exchange, after))
    (later : List (Occasion ω)) :
    u.course sink source (occasion :: later) w =
      ((u.onward exchange occasion.now).course sink source later after).behind
        (u.exchange.handed sink source (occasion.before w))
        (u.exchange.received sink source (occasion.before w)) := by
  rw [course, poll_of_pending waits, if_neg early]

theorem mem_received_course {act : Bytes}
    (inside : act ∈ u.exchange.received sink source (occasion.before w)) (later : List (Occasion ω)) :
    act ∈ (u.course sink source (occasion :: later) w).received := by
  rcases polled : u.exchange.poll sink source (occasion.before w) with ⟨_ | _, exchange, after⟩
  · rw [course_of_ready polled]
    exact inside
  · by_cases late : u.deadline.getD (occasion.now + u.timeout) ≤ occasion.now
    · rw [course_of_late late polled]
      exact inside
    · rw [course_of_pending late polled]
      exact List.mem_append_left _ inside

theorem received_course_once (u : Upgrade) (occasion : Occasion ω) (w : ω) :
    (u.course sink source [occasion] w).received =
      u.exchange.received sink source (occasion.before w) := by
  rcases polled : u.exchange.poll sink source (occasion.before w) with ⟨_ | _, exchange, after⟩
  · rw [course_of_ready polled]
  · by_cases late : u.deadline.getD (occasion.now + u.timeout) ≤ occasion.now
    · rw [course_of_late late polled]
    · rw [course_of_pending late polled]
      exact List.append_nil _

end Polls

/-- What may have come of an upgrade with this conversation and this tape. -/
inductive Coming (source : Source ω) (tape : ω → Option Tape) (takes : Except NetworkError Unit)
    (stalls : Prop) (x : Exchange Session) (t : Tape) (polled inTime : Prop) (c : Course ω) : Prop where
  | waits {rest} (heard) : c.answer = .pending → t = rest.rewind heard → tape c.world = some rest →
      x.After takes stalls heard c.given c.upgrade.exchange →
      (polled → ¬stalls → source.Paused tape c.world rest ∧
        c.upgrade.exchange.outcome takes ⟨[], .quiet⟩ = ([], .pending)) →
      Coming source tape takes stalls x t polled inTime c
  | ends {rest answer} (heard) : c.answer = .ready (answer.map Connection.ofSession) →
      t = rest.rewind heard → tape c.world = some rest → x.outcome takes t = (c.given, .ready answer) →
      x.left takes t = rest → (x.outcome takes ⟨heard, .quiet⟩).1 = c.given →
      Coming source tape takes stalls x t polled inTime c
  | timedOut {rest next} (heard) : c.answer = .ready (.error .handshakeTimeout) → ¬inTime →
      t = rest.rewind heard → tape c.world = some rest → x.After takes stalls heard c.given next →
      Coming source tape takes stalls x t polled inTime c

/-- What comes of what a conversation goes on as comes of the conversation itself. -/
theorem Coming.behind {x y : Exchange Session} {first : Bytes} {before others : List Bytes} {t : Tape}
    {polled inTime polled' inTime' : Prop} {c : Course ω} (came : x.After takes stalls first before y)
    (again : polled → polled') (still : inTime → inTime')
    (coming : Coming source tape takes stalls y t polled' inTime' c) :
    Coming source tape takes stalls x (t.rewind first) polled inTime (c.behind before others) := by
  cases coming with
  | @waits rest heard pending said holds goes idle =>
    exact .waits (first ++ heard) pending (said ▸ Tape.rewind_rewind rest first heard) holds (came.trans goes)
      fun asked => idle (again asked)
  | @ends rest answer heard ready said holds comesTo leaves allowed =>
    refine .ends (first ++ heard) ready (said ▸ Tape.rewind_rewind rest first heard) holds ?_ ?_ ?_
    · rw [came.outcome, comesTo]
      rfl
    · rw [came.left, leaves]
    · rw [show (⟨first ++ heard, .quiet⟩ : Tape) = Tape.rewind ⟨heard, .quiet⟩ first from rfl,
        came.outcome]
      exact congrArg (before ++ ·) allowed
  | @timedOut rest next heard ready late said holds goes =>
    exact .timedOut (first ++ heard) ready (fun early => late (still early))
      (said ▸ Tape.rewind_rewind rest first heard) holds (came.trans goes)

theorem InTime.tail {u : Upgrade} {occasion : Occasion ω} {later : List (Occasion ω)}
    (inTime : u.InTime (occasion :: later)) (next : Exchange Session) :
    (u.onward next occasion.now).InTime later :=
  fun _ _ other inside => inTime occasion rfl other (List.mem_cons_of_mem _ inside)

/-- Every upgrade comes to this, however it is polled. -/
theorem coming (hands : source.Hands tape) (answers : sink.Answers tape takes stalls)
    {schedule : List (Occasion ω)} (steady : Steady tape schedule) {u : Upgrade}
    (proper : u.exchange.Proper stalls) {w : ω} {t : Tape} (holds : tape w = some t) :
    Coming source tape takes stalls u.exchange t (schedule ≠ []) (u.InTime schedule)
      (u.course sink source schedule w) := by
  induction schedule generalizing u w t with
  | nil => exact .waits [] rfl rfl holds (.refl proper) (absurd rfl)
  | cons occasion later ih =>
    have there := steady occasion List.mem_cons_self w t holds
    have turn := proper.turn hands answers there
    generalize polled : u.exchange.poll sink source (occasion.before w) = result at turn
    cases turn with
    | ends heard said left comesTo leaves allowed =>
      rw [course_of_ready polled]
      exact .ends heard rfl said left comesTo leaves allowed
    | @waits next after rest heard said left goes idle =>
      by_cases late : u.deadline.getD (occasion.now + u.timeout) ≤ occasion.now
      · rw [course_of_late late polled]
        refine .timedOut heard rfl (fun inTime => ?_) said left goes
        exact absurd (inTime occasion rfl occasion List.mem_cons_self) (Nat.not_lt.2 late)
      · rw [course_of_pending late polled, said]
        cases later with
        | nil =>
          have here : Coming source tape takes stalls next rest True True
              (course sink source [] (u.onward next occasion.now) after) :=
            .waits [] rfl rfl left (.refl goes.proper) fun _ => idle
          exact here.behind goes (fun _ => trivial) fun _ => trivial
        | cons second others =>
          have further := ih (fun _ inside => steady _ (List.mem_cons_of_mem _ inside))
            (u := u.onward next occasion.now) goes.proper left
          exact further.behind goes (fun _ => List.cons_ne_nil second others)
            fun early => early.tail next

end Upgrade
end NoiseLink
