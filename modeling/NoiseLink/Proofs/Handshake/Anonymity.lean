import NoiseLink.Proofs.Handshake.Conduct

/-! The initiator stays anonymous until act two has proved who the responder is. Two dialers that differ in
their static keys alone cannot be told apart by a peer that does not send them an act two that they accept:
they do the same at the same time, and fail alike. -/
namespace NoiseLink

open Handshake

namespace Exchange

/-- Two conversations that say the same and hear alike, as long as all acts that they hear are of one kind. -/
inductive Alike {α : Type} (kind : Bytes → Prop) : Exchange α → Exchange α → Prop where
  | done {result} : Alike kind (done result) (done result)
  | send {act one two} : Alike kind one two → Alike kind (send act one) (send act two)
  | sending {one two} : Alike kind one two → Alike kind (sending one) (sending two)
  | receive {size got} {one two : Octets size → Exchange α} :
      (∀ act, kind act.bytes → Alike kind (one act) (two act)) →
      Alike kind (receive size got one) (receive size got two)

variable {ω α : Type} {sink : Sink ω} {source : Source ω} {kind : Bytes → Prop}

theorem Alike.poll {x y : Exchange α} (alike : x.Alike kind y) {w : ω}
    (heard : ∀ act ∈ x.received sink source w, kind act) :
    ∃ answer one two after, x.poll sink source w = (answer, one, after) ∧
      y.poll sink source w = (answer, two, after) ∧ one.Alike kind two ∧
      y.handed sink source w = x.handed sink source w ∧
      y.received sink source w = x.received sink source w := by
  induction alike generalizing w with
  | done => exact ⟨_, _, _, _, rfl, rfl, .done, rfl, rfl⟩
  | @send act one two alike ih =>
    rw [received] at heard
    simp only [Exchange.poll, handed, received]
    generalize sink.send act w = result at heard ⊢
    obtain ⟨(cause | taken) | _, after⟩ := result
    · exact ⟨_, _, _, _, rfl, rfl, .done, rfl, rfl⟩
    · obtain ⟨answer, one, two, last, first, second, alike, given, took⟩ := ih heard
      exact ⟨answer, one, two, last, first, second, alike, congrArg (act :: ·) given, took⟩
    · exact ⟨_, _, _, _, rfl, rfl, .sending alike, rfl, rfl⟩
  | @sending one two alike ih =>
    rw [received] at heard
    simp only [Exchange.poll, handed, received]
    generalize sink.resume w = result at heard ⊢
    obtain ⟨(cause | taken) | _, after⟩ := result
    · exact ⟨_, _, _, _, rfl, rfl, .done, rfl, rfl⟩
    · exact ih heard
    · exact ⟨_, _, _, _, rfl, rfl, .sending alike, rfl, rfl⟩
  | @receive size got one two alike ih =>
    rw [received] at heard
    simp only [Exchange.poll, handed, received]
    generalize source.gather size got w = result at heard ⊢
    obtain ⟨act | more | got | ⟨cause, got⟩, after⟩ := result
    · obtain ⟨known, later⟩ := List.forall_mem_cons.1 heard
      obtain ⟨answer, one, two, last, first, second, alike, given, took⟩ := ih act known later
      exact ⟨answer, one, two, last, first, second, alike, given, congrArg (act.bytes :: ·) took⟩
    · exact ⟨_, _, _, _, rfl, rfl, .receive alike, rfl, rfl⟩
    · exact ⟨_, _, _, _, rfl, rfl, .done, rfl, rfl⟩
    · exact ⟨_, _, _, _, rfl, rfl, .done, rfl, rfl⟩

end Exchange

namespace Upgrade

variable {ω : Type} {sink : Sink ω} {source : Source ω} {kind : Bytes → Prop}

/-- Upgrades with such conversations cannot be told apart by any course. -/
theorem course_of_alike {u : Upgrade} {other : Exchange Session} (alike : u.exchange.Alike kind other)
    {schedule : List (Occasion ω)} {w : ω}
    (heard : ∀ act ∈ (u.course sink source schedule w).received, kind act) :
    ∃ last, course sink source schedule { u with exchange := other } w =
      { u.course sink source schedule w with upgrade := last } := by
  induction schedule generalizing u other w with
  | nil => exact ⟨_, rfl⟩
  | cons occasion later ih =>
    obtain ⟨answer, one, two, after, first, second, next, given, took⟩ :=
      alike.poll fun act inside => heard act (mem_received_course inside later)
    cases answer with
    | ready answer =>
      rw [course_of_ready first, course_of_ready (u := { u with exchange := other }) second, given, took]
      exact ⟨_, rfl⟩
    | pending =>
      by_cases late : u.deadline.getD (occasion.now + u.timeout) ≤ occasion.now
      · rw [course_of_late late first, course_of_late (u := { u with exchange := other }) late second,
          given, took]
        exact ⟨_, rfl⟩
      · rw [course_of_pending late first] at heard ⊢
        rw [course_of_pending (u := { u with exchange := other }) late second, given, took]
        obtain ⟨last, same⟩ := ih (u := u.onward one occasion.now) next
          fun act inside => heard act (List.mem_append_right _ inside)
        exact ⟨last, congrArg (Course.behind · _ _) same⟩

def Unanswered (awaiting : AwaitingActTwo) (act : Bytes) : Prop :=
  ∀ actTwo : Octets 50, actTwo.bytes = act → ∃ error, awaiting.actThree actTwo = .error error

/-- Two dialers are alike for a peer that sends nothing that they accept. -/
theorem alike_dialers {one two : Config} {peer : PublicKey} {fresh : PrivateKey} {actOne : Octets 50}
    {first second : AwaitingActTwo}
    (sent : (Initiator.start one.staticKey peer).actOne fresh = .ok (actOne, first))
    (same : (Initiator.start two.staticKey peer).actOne fresh = .ok (actOne, second))
    (refuse : ∀ actTwo error, first.actThree actTwo = .error error ↔
      second.actThree actTwo = .error error) :
    (dialerExchange one peer fresh).Alike (Unanswered first) (dialerExchange two peer fresh) := by
  simp only [dialerExchange, sent, same, proceed]
  -- the static key is used for the first time in what follows an act two that is accepted
  refine .send (.receive fun actTwo unanswered => ?_)
  obtain ⟨error, refused⟩ := unanswered actTwo rfl
  rw [refused, (refuse actTwo error).1 refused]
  exact .done

/-- If no act two that would be accepted is on the tape, the verdict does not depend on the static key. -/
theorem Dials.of_refused {one two : Config} {peer : PublicKey} {fresh : PrivateKey} {actOne : Octets 50}
    {first second : AwaitingActTwo} {said : Tape} {v : Verdict}
    (sent : (Initiator.start one.staticKey peer).actOne fresh = .ok (actOne, first))
    (same : (Initiator.start two.staticKey peer).actOne fresh = .ok (actOne, second))
    (refuse : ∀ actTwo error, first.actThree actTwo = .error error ↔
      second.actThree actTwo = .error error)
    (unanswered : ∀ (actTwo : Octets 50) (rest : Tape), said = rest.rewind actTwo.bytes →
      ∃ error, first.actThree actTwo = .error error)
    (dials : Dials one peer fresh said v) : Dials two peer fresh said v := by
  cases dials with
  | cut again cut =>
    rw [sent] at again
    cases again
    exact .cut same cut
  | refused again met refuses =>
    rw [sent] at again
    cases again
    exact .refused same ((refuse _ _).1 met) refuses
  | completed again met =>
    rw [sent] at again
    cases again
    obtain ⟨error, refused⟩ := unanswered _ _ rfl
    rw [met] at refused
    cases refused

/-- Whatever the static keys are, two initiators make the same act one of a fresh key and accept and refuse
the same acts two. Two dialers that have them send the same, answer the same and leave the same behind, on
the same streams and at the same times, unless one of them receives an act two that it accepts; and what
comes of bytes that have no such act is the same for both. -/
theorem identity_hidden (one two fresh : PrivateKey) {peer : PublicKey} (valid : peer.point.OnCurve) :
    ∃ actOne first second,
      (Initiator.start one peer).actOne fresh = .ok (actOne, first) ∧
      (Initiator.start two peer).actOne fresh = .ok (actOne, second) ∧
      (∀ actTwo, ((∃ result, first.actThree actTwo = .ok result) ↔
          ∃ result, second.actThree actTwo = .ok result) ∧
        ∀ error, first.actThree actTwo = .error error ↔ second.actThree actTwo = .error error) ∧
      ∀ timeout,
        (∀ {ω : Type} (sink : Sink ω) (source : Source ω) (schedule : List (Occasion ω)) (w : ω),
          let c := (dialer ⟨one, timeout⟩ peer fresh).course sink source schedule w
          let d := (dialer ⟨two, timeout⟩ peer fresh).course sink source schedule w
          (∀ act ∈ c.received, Unanswered first act) →
          d.answer = c.answer ∧ d.given = c.given ∧ d.world = c.world) ∧
        ∀ said v, (∀ (actTwo : Octets 50) (rest : Tape), said = rest.rewind actTwo.bytes →
            ∃ error, first.actThree actTwo = .error error) →
          (Dials ⟨one, timeout⟩ peer fresh said v ↔ Dials ⟨two, timeout⟩ peer fresh said v) := by
  obtain ⟨actOne, t, offered⟩ := offer_of_onCurve (opening peer) fresh valid
  have begins (staticKey : PrivateKey) : (Initiator.start staticKey peer).actOne fresh =
      .ok (actOne, ⟨staticKey, peer, fresh, t⟩) := Initiator.actOne_ok_iff.2 ⟨t, offered, rfl⟩
  have refuse (actTwo : Octets 50) (error : Error) :
      AwaitingActTwo.actThree ⟨one, peer, fresh, t⟩ actTwo = .error error ↔
        AwaitingActTwo.actThree ⟨two, peer, fresh, t⟩ actTwo = .error error :=
    AwaitingActTwo.actThree_error_iff.trans
      (@AwaitingActTwo.actThree_error_iff ⟨two, peer, fresh, t⟩ actTwo error).symm
  refine ⟨actOne, _, _, begins one, begins two, fun actTwo => ⟨?_, refuse actTwo⟩, fun timeout => ⟨?_, ?_⟩⟩
  · have accepts := (AwaitingActTwo.judges ⟨one, peer, fresh, t⟩).accepts actTwo
    exact accepts.trans ((AwaitingActTwo.judges ⟨two, peer, fresh, t⟩).accepts actTwo).symm
  · intro ω sink source schedule w c d unanswered
    have alike : (dialerExchange ⟨one, timeout⟩ peer fresh).Alike _
        (dialerExchange ⟨two, timeout⟩ peer fresh) := alike_dialers (begins one) (begins two) refuse
    obtain ⟨last, all⟩ : ∃ last, d = { c with upgrade := last } :=
      course_of_alike (u := dialer ⟨one, timeout⟩ peer fresh) alike unanswered
    rw [all]
    exact ⟨rfl, rfl, rfl⟩
  · intro said v unanswered
    refine ⟨Dials.of_refused (begins one) (begins two) refuse unanswered, ?_⟩
    refine Dials.of_refused (begins two) (begins one) (fun actTwo error => (refuse actTwo error).symm) ?_
    intro actTwo rest begins
    obtain ⟨error, refused⟩ := unanswered actTwo rest begins
    exact ⟨error, (refuse actTwo error).1 refused⟩

/-- Ten bytes of a second act, and then the end: the keys one and five look the same. -/
theorem identity_hidden_of_broken_act :
    let c := (dialer { staticKey := ⟨1, by decide, by decide⟩ }
      (PrivateKey.publicKey ⟨2, by decide, by decide⟩) ⟨3, by decide, by decide⟩).course Tape.sink
        Tape.source [⟨id, 0⟩] ⟨List.replicate 10 0, .closed⟩
    let d := (dialer { staticKey := ⟨5, by decide, by decide⟩ }
      (PrivateKey.publicKey ⟨2, by decide, by decide⟩) ⟨3, by decide, by decide⟩).course Tape.sink
        Tape.source [⟨id, 0⟩] ⟨List.replicate 10 0, .closed⟩
    c.received = [] ∧ d.answer = c.answer ∧ d.given = c.given ∧ d.world = c.world := by
  intro c d
  obtain ⟨actOne, first, second, sent, -, -, hidden⟩ := identity_hidden ⟨1, by decide, by decide⟩
    ⟨5, by decide, by decide⟩ ⟨3, by decide, by decide⟩
    (PrivateKey.publicKey_onCurve ⟨2, by decide, by decide⟩)
  have none : c.received = [] := by
    refine (received_course_once ..).trans ?_
    simp only [dialer, dialerExchange, sent, proceed, Exchange.received, Tape.sink, Exchange.expect]
    rw [Tape.gather_eq _ _ _ (Nat.zero_le _)]
    rfl
  refine ⟨none, (hidden (Nanoseconds.ofSeconds 15)).1 Tape.sink Tape.source [⟨id, 0⟩]
    ⟨List.replicate 10 0, .closed⟩ fun act inside => ?_⟩
  rw [show _ = [] from none] at inside
  cases inside

end Upgrade
end NoiseLink
