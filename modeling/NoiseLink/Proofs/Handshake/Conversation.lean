import NoiseLink.Proofs.Handshake.Agreement
import NoiseLink.Proofs.Handshake.Outcome
import NoiseLink.Proofs.Stream.Wires

/-! A handshake as a conversation: the acts in the order in which they are said, and how either side goes
on after the one that it was waiting for. An act that is waited for is taken from the stream in any
number of attempts, and nothing that lies behind it is touched. -/
namespace NoiseLink

open Handshake

/-- What the two sides of a handshake say to each other, and what each is left with. -/
structure Dialogue where
  first : Octets actOneLength
  second : Octets actTwoLength
  third : Octets actThreeLength
  afterFirst : Octets actOneLength → Exchange Session
  afterSecond : Octets actTwoLength → Exchange Session
  afterThird : Octets actThreeLength → Exchange Session
  session : Role → Session
  answers : afterFirst first = .send second.bytes (.expect actThreeLength afterThird)
  finishes : afterSecond second = .send third.bytes (.done (.ok (session .dialer)))
  meets : afterThird third = .done (.ok (session .listener))
  joined : ∀ role, (session role).outgoing = (session role.other).incoming

/-- Two sides that were set up for each other follow a dialogue, whatever their keys are. -/
theorem exists_dialogue (config : Role → Config) (fresh : Role → PrivateKey) : ∃ s : Dialogue,
    Upgrade.dialerExchange (config .dialer) (config .listener).staticKey.publicKey (fresh .dialer) =
      .send s.first.bytes (.expect actTwoLength s.afterSecond) ∧
    Upgrade.listenerExchange (config .listener) (fresh .listener) =
      .expect actOneLength s.afterFirst ∧
    ∀ role, (s.session role).remoteStatic = (config role.other).staticKey.publicKey := by
  obtain ⟨actOne, actTwo, before, t, offered, taken, returned, accepted⟩ := first_acts
    (config .dialer).staticKey (config .listener).staticKey (fresh .dialer) (fresh .listener)
  obtain ⟨actThree, last, finished, met⟩ := last_act (config .dialer).staticKey (fresh .dialer)
    (fresh .listener) (config .listener).staticKey.publicKey accepted
  let session := Role.choose
    (⟨(config .listener).staticKey.publicKey, last.split.1, last.split.2⟩ : Session)
    ⟨(config .dialer).staticKey.publicKey, last.split.2, last.split.1⟩
  obtain ⟨afterSecond, dials, finishes⟩ : ∃ afterSecond,
      Upgrade.dialerExchange (config .dialer) (config .listener).staticKey.publicKey (fresh .dialer) =
        .send actOne.bytes (.expect actTwoLength afterSecond) ∧
      afterSecond actTwo = .send actThree.bytes (.done (.ok (session .dialer))) := by
    rw [Upgrade.dialerExchange, offered]
    refine ⟨_, rfl, ?_⟩
    simp only [finished, Upgrade.proceed]
    rfl
  obtain ⟨afterFirst, listens, answers⟩ : ∃ afterFirst,
      Upgrade.listenerExchange (config .listener) (fresh .listener) =
        .expect actOneLength afterFirst ∧
      afterFirst actOne = .send actTwo.bytes (.expect actThreeLength fun actThree =>
        .done (AwaitingActThree.receiveActThree ⟨fresh .listener, t⟩ actThree)) := by
    refine ⟨_, rfl, ?_⟩
    simp only [taken, returned, Upgrade.proceed]
  refine ⟨⟨actOne, actTwo, actThree, afterFirst, afterSecond, _, session, answers, finishes, ?_, ?_⟩,
    dials, listens, ?_⟩
  · exact congrArg Exchange.done met
  · rintro (_ | _) <;> rfl
  · rintro (_ | _) <;> rfl

/-- An act that is the next to be taken from a tape, and of which some bytes were taken. -/
structure Underway (tape : ω → Option Tape) (act : Octets size) (got : Array UInt8) (rest : Tape)
    (w : ω) : Prop where
  short : got.size < size
  lies : ∃ t, tape w = some t ∧ t.rewind got.toList = rest.rewind act.bytes

theorem underway_of_sent {tape : ω → Option Tape} {act : Octets size} {w : ω} (positive : 0 < size)
    (holds : tape w = some ⟨act.bytes, .quiet⟩) : Underway tape act #[] ⟨[], .quiet⟩ w :=
  ⟨positive, _, holds, by simp [Tape.rewind]⟩

/-- The bytes that are there are what is missing of the act and what lies behind it. -/
theorem Underway.length {tape : ω → Option Tape} {act : Octets size} {got : Array UInt8}
    {rest : Tape} {w : ω} (underway : Underway tape act got rest w) {t : Tape}
    (holds : tape w = some t) : t.bytes.length + got.size = size + rest.bytes.length := by
  obtain ⟨-, there, found, begins⟩ := underway
  rw [holds] at found
  cases found
  have same := congrArg (fun t => t.bytes.length) begins
  simp only [Tape.rewind, List.length_append, act.length_bytes, Array.length_toList] at same
  omega

theorem Underway.ne_nil {tape : ω → Option Tape} {act : Octets size} {rest t : Tape} {w : ω}
    (underway : Underway tape act #[] rest w) (holds : tape w = some t) : t.bytes ≠ [] := by
  intro none
  have whole := underway.length holds
  have short := underway.short
  simp only [none, List.length_nil, List.size_toArray] at whole short
  omega

/-- A stream that speaks promptly makes nobody wait for an act that was sent. -/
theorem Underway.not_paused {source : Source ω} {tape : ω → Option Tape} (hands : source.Hands tape)
    (prompt : source.Prompt tape) {act : Octets size} {got : Array UInt8} {rest t : Tape} {w : ω}
    (underway : Underway tape act got rest w) : ¬ source.Paused tape w t := by
  intro paused
  have empty := prompt w t paused
  subst empty
  have missing := underway.length (paused.holds hands)
  have short := underway.short
  simp only [List.length_nil] at missing
  omega

namespace Exchange

variable {ω β : Type} {source : Source ω} {tape : ω → Option Tape} {view : ω → β}

theorem outcome_expect_closed (takes : Except NetworkError Unit) {size : Nat} (positive : 0 < size)
    (next : Octets size → Exchange α) :
    (expect size next).outcome takes ⟨[], .closed⟩ = ([], .ready (.error (.truncatedAct 0))) := by
  rw [expect, outcome, Tape.rewind_nil, Tape.unit_short [] positive]
  rfl

/-- A listener answers the first act of a peer that hangs up behind it. -/
theorem outcome_of_first (s : Dialogue) :
    (expect actOneLength s.afterFirst).outcome (.ok ()) ⟨s.first.bytes, .closed⟩ =
      ([s.second.bytes], .ready (.error (.truncatedAct 0))) := by
  have heard := Tape.unit_full s.first ⟨[], .closed⟩
  rw [Tape.rewind, List.append_nil] at heard
  rw [expect, outcome, Tape.rewind_nil, heard]
  simp only [s.answers, outcome, outcome_expect_closed (.ok ()) (show 0 < actThreeLength by decide)]

/-- An act that comes next on the tape, behind what was taken of it, is taken whole unless the stream
makes its receiver wait. -/
theorem poll_act (sink : Sink ω) (hands : source.Hands tape) (keeps : source.Keeps view) {size : Nat}
    {act : Octets size} {got : Array UInt8} {rest : Tape} {w : ω} (underway : Underway tape act got rest w)
    (next : Octets size → Exchange α) :
    (∃ more after left, poll sink source (.receive size got next) w =
        (.pending, .receive size more next, after) ∧ Underway tape act more rest after ∧
      source.Paused tape after left ∧ source.supply after ≤ source.supply w ∧
      view after = view w) ∨
    (∃ after, poll sink source (.receive size got next) w = poll sink source (next act) after ∧
      tape after = some rest ∧ view after = view w) := by
  obtain ⟨short, t, holds, begins⟩ := underway
  have kept := keeps.gather size got w
  have less := source.supply_gather_le size got w
  rw [poll]
  rcases hands.gather holds (Nat.le_of_lt short) with
    ⟨more, after, left, gathered, missing, paused, same⟩ |
    ⟨outcome, after, left, gathered, -, there, said⟩
  · rw [gathered] at kept less ⊢
    exact .inl ⟨more, after, left, rfl, ⟨missing, left, paused.holds hands, same.trans begins⟩, paused,
      less, kept⟩
  · rw [begins, Tape.unit_full] at said
    cases said
    rw [gathered] at kept ⊢
    exact .inr ⟨after, rfl, there, kept⟩

theorem poll_silence (sink : Sink ω) (hands : source.Hands tape) (keeps : source.Keeps view) {size : Nat}
    (positive : 0 < size) {w : ω} (silent : tape w = some ⟨[], .quiet⟩)
    (next : Octets size → Exchange α) :
    ∃ after, poll sink source (.expect size next) w = (.pending, .expect size next, after) ∧
      tape after = some ⟨[], .quiet⟩ ∧ view after = view w := by
  have kept := keeps.gather size #[] w
  rw [expect, poll]
  have fits : (#[] : Array UInt8).size ≤ size := Nat.zero_le size
  rcases hands.gather silent fits with
    ⟨more, after, left, gathered, -, paused, same⟩ | ⟨outcome, after, left, -, settled, -, said⟩
  · rw [gathered] at kept ⊢
    have there := paused.holds hands
    obtain ⟨bytes, ending⟩ := left
    simp only [Tape.rewind, Tape.mk.injEq, List.append_eq_nil_iff, List.append_nil] at same
    obtain ⟨⟨empty, rfl⟩, rfl⟩ := same
    have none : more = #[] := by simpa using empty
    subst none
    exact ⟨after, rfl, there, kept⟩
  · rw [Tape.rewind_nil, Tape.unit_short [] positive] at said
    cases said
    exact settled.elim

theorem poll_send {sink : Sink ω} {act : Bytes} {next : Exchange α} {w after : ω}
    (sent : sink.send act w = (.ready (.ok ()), after)) :
    poll sink source (.send act next) w = poll sink source next after := by
  rw [poll, sent]

end Exchange

end NoiseLink
