import NoiseLink.Proofs.Link.BrokenOff
import NoiseLink.Proofs.Receiver.Passage

/-! A wire that is cut off. Its receiver gets the messages whose frames are whole, and tells from what
is left whether the stream has ended between two frames or within one: in the first case it says so
however often it is asked, in the second one it has failed. -/
namespace NoiseLink

/-- The answers to calls that find the end of a stream, behind the beginning of a frame if it is torn. -/
def Call.lastAnswers (torn : Bool) : List Call → List (Except Error Bytes)
  | [] => []
  | call :: calls =>
    if torn then
      call.refused .malformedFrame ::
        if call = .read 0 then lastAnswers torn calls else calls.map (refused .terminated)
    else call.atEnd :: lastAnswers torn calls

def Error.ofEnd (torn : Bool) : Error := if torn then .malformedFrame else .streamClosed

namespace Receiver

variable {ω : Type} {source : Source ω} {tape : ω → Option Tape}

/-- What a receiver with the cipher `c` makes of a stream that has whole frames of some messages and
then ends. -/
structure Truncated (source : Source ω) (tape : ω → Option Tape) (w : ω) (c : CipherState)
    (messages : List Bytes) (torn : Bool) : Prop where
  received : ∀ attempts, answers source attempts (start c) w <+:
    messages.map .ok ++ Call.lastAnswers torn (.replicate attempts .receive)
  /-- Once the messages are received, calls of both kinds find the end. -/
  after : ∀ attempts done next world,
    run source (.replicate attempts .receive) (start c) w = (done, next, world) →
    done.length = messages.length → ∀ calls,
    (run source calls next world).1.map (·.answer) =
      Call.lastAnswers torn ((run source calls next world).1.map (·.call))
  /-- However the calls are mixed, the end is reported behind all bytes of the messages. -/
  mixed : ∀ calls, ∃ early late, (run source calls (start c) w).1 = early ++ late ∧
    (∀ d ∈ early, d.stop = none) ∧
    (late ≠ [] → early.flatMap Completed.bytes = messages.flatten) ∧
    late.map (·.answer) = Call.lastAnswers torn (late.map (·.call))
  /-- No bytes are read at the clean end only. -/
  empty : ∀ calls, ∀ d ∈ (run source calls (start c) w).1, ∀ size, d.call = .read (size + 1) →
    d.answer = .ok [] → torn = false ∧ tape d.world = some ⟨[], .closed⟩
  waits : ∀ calls done next world call last later, run source calls (start c) w = (done, next, world) →
    next.attempt source call world = (.pending, last, later) → ∃ left, source.Paused tape later left
  prompt : source.Prompt tape → ∀ calls, (run source calls (start c) w).1.map (·.call) = calls

theorem run_refused (source : Source ω) {r : Receiver} (halted : r.terminated = true)
    (clear : r.residual = []) (calls : List Call) (w : ω) :
    (run source calls r w).1.map (·.call) = calls ∧
      (run source calls r w).1.map (·.answer) = calls.map (Call.refused .terminated) := by
  induction calls with
  | nil => exact ⟨rfl, rfl⟩
  | cons call calls ih =>
    rw [run_cons_of_ready (attempt_refused halted clear call w)]
    exact ⟨congrArg _ ih.1, congrArg _ ih.2⟩

/-- A receiver of a stream with some payloads that the end of the stream will stop. -/
abbrev Awaits (tape : ω → Option Tape) (torn : Bool) (payloads : List Bytes) (r : Receiver) (w : ω) :
    Prop :=
  Expects (fun c t payloads stop => transcript c t = (payloads, stop)) tape payloads
    (.failed (.ofEnd torn)) r w

theorem Expects.at_end {r : Receiver} {w : ω} (awaits : Awaits tape false [] r w) :
    tape w = some ⟨[], .closed⟩ := by
  obtain ⟨c, t, ⟨-, begun, rest, -, holds, rfl⟩, reads⟩ := awaits
  have closed : rest.rewind begun = ⟨[], .closed⟩ := by
    rw [transcript, receiveAll_eq] at reads
    generalize received : (start c).receive Tape.source (rest.rewind begun) = result at reads
    obtain ⟨(error | message) | _, next, after⟩ := result
    · cases reads
      exact (receive_tape_closed_iff.1 received).1
    · have kept := receiveAll_append Tape.source #[message] #[] next after
      rw [Array.append_empty] at kept
      have first := congrArg Prod.fst reads
      simp [kept] at first
    · cases reads
  simp only [Tape.rewind, Tape.mk.injEq, List.append_eq_nil_iff] at closed
  obtain ⟨⟨-, none⟩, ended⟩ := closed
  rw [holds, ← none, ← ended]

inductive Closing (tape : ω → Option Tape) (torn : Bool) (call : Call) :
    Poll (Except Error Bytes) × Receiver × ω → Prop where
  | waits {next after} : Awaits tape torn [] next after → next.residual = [] →
      Closing tape torn call (.pending, next, after)
  | ended {next after} : torn = false → Awaits tape torn [] next after → next.residual = [] →
      Closing tape torn call (.ready call.atEnd, next, after)
  | failed {next after} : torn = true → next.terminated = true → next.residual = [] →
      Closing tape torn call (.ready (.error .malformedFrame), next, after)

theorem torn_of_ofEnd {torn : Bool} {error : Error}
    (same : Stop.failed (Error.ofEnd torn) = .failed error) (broken : error ≠ .streamClosed) :
    torn = true ∧ error = .malformedFrame := by
  cases same
  cases torn with
  | true => exact ⟨rfl, rfl⟩
  | false => exact absurd rfl broken

theorem clean_of_ofEnd {torn : Bool}
    (same : Stop.failed (Error.ofEnd torn) = .failed .streamClosed) : torn = false := by
  cases torn with
  | true => cases same
  | false => rfl

theorem Expects.closing (hands : source.Hands tape) {torn : Bool} {r : Receiver} {w : ω}
    (awaits : Awaits tape torn [] r w) (clear : r.residual = []) {call : Call} (asks : call ≠ .read 0) :
    Closing tape torn call (r.attempt source call w) := by
  have taking := awaits.nextFrame hands contents_transcript clear
  generalize answer : r.nextFrame source w = result at taking
  cases taking with
  | waits kept empty paused =>
    rw [attempt_of_nextFrame clear asks answer (by simp)]
    exact .waits kept empty
  | message first => cases first
  | ended _ closed kept empty =>
    rw [attempt_of_nextFrame clear asks answer (by simp)]
    exact .ended (clean_of_ofEnd closed) kept empty
  | failed _ same broken halted empty =>
    obtain ⟨rfl, rfl⟩ := torn_of_ofEnd same broken
    rw [attempt_of_nextFrame clear asks answer (by simp)]
    exact .failed rfl halted empty

/-- A call that finds a frame broken, and the calls behind it. -/
theorem answers_torn {r : Receiver} {call : Call} (asks : call ≠ .read 0) (halted : r.terminated = true)
    (clear : r.residual = []) (calls : List Call) (w : ω) :
    .error .malformedFrame :: (run source calls r w).1.map (·.answer) =
      Call.lastAnswers true (call :: (run source calls r w).1.map (·.call)) := by
  obtain ⟨asked, answered⟩ := run_refused source halted clear calls w
  rw [Call.lastAnswers, if_pos rfl, if_neg asks, asked, answered]
  match call with
  | .receive => rfl
  | .read (size + 1) => rfl

theorem refused_of_torn {late : List (Completed ω)}
    (answers : late.map (·.answer) = Call.lastAnswers true (late.map (·.call))) :
    ∀ d ∈ late, ∃ error, d.answer = d.call.refused error := by
  induction late with
  | nil => exact List.forall_mem_nil _
  | cons first others ih =>
    rw [List.map_cons, List.map_cons, Call.lastAnswers, if_pos rfl] at answers
    obtain ⟨head, tail⟩ := List.cons.inj answers
    refine List.forall_mem_cons.2 ⟨⟨_, head⟩, ?_⟩
    split at tail
    · exact ih tail
    · intro d member
      rw [List.map_map] at tail
      exact ⟨_, List.map_inj_left.1 tail d member⟩

/-- Where nothing but the end is to be expected, calls get the last answers. -/
theorem Expects.last_answers (hands : source.Hands tape) {torn : Bool} (calls : List Call) {r : Receiver}
    {w : ω} (awaits : Awaits tape torn [] r w) (clear : r.residual = []) :
    (Receiver.run source calls r w).1.map (·.answer) =
        Call.lastAnswers torn ((Receiver.run source calls r w).1.map (·.call)) ∧
      (torn = false → ∀ d ∈ (Receiver.run source calls r w).1, tape d.world = some ⟨[], .closed⟩) := by
  induction calls generalizing r w with
  | nil => exact ⟨rfl, fun _ => List.forall_mem_nil _⟩
  | cons call calls ih =>
    by_cases asks : call = .read 0
    · subst asks
      obtain ⟨answers, seen⟩ := ih awaits clear
      rw [run_cons_of_ready (attempt_zero source r w)]
      refine ⟨?_, ?_⟩
      · cases torn <;> exact congrArg _ answers
      · rintro rfl
        exact List.forall_mem_cons.2 ⟨awaits.at_end, seen rfl⟩
    · have closing := awaits.closing hands clear asks
      generalize made : r.attempt source call w = result at closing
      cases closing with
      | waits kept empty =>
        rw [run_cons_of_pending made]
        exact ih kept empty
      | ended clean kept empty =>
        obtain ⟨answers, seen⟩ := ih kept empty
        subst clean
        rw [run_cons_of_ready made]
        exact ⟨congrArg _ answers, fun _ => List.forall_mem_cons.2 ⟨kept.at_end, seen rfl⟩⟩
      | @failed next after broken halted empty =>
        subst broken
        rw [run_cons_of_ready made]
        exact ⟨answers_torn asks halted empty calls after, nofun⟩

theorem lastAnswers_begins (torn : Bool) (attempts : Nat) :
    Call.lastAnswers torn (.replicate attempts .receive) <+:
      Call.lastAnswers torn (.replicate (attempts + 1) .receive) := by
  cases torn with
  | false =>
    induction attempts with
    | zero => exact List.nil_prefix
    | succ attempts ih => exact List.cons_prefix_cons.2 ⟨rfl, ih⟩
  | true =>
    cases attempts with
    | zero => exact List.nil_prefix
    | succ attempts =>
      refine List.cons_prefix_cons.2 ⟨rfl, ?_⟩
      simp only [reduceCtorEq, if_false, List.map_replicate]
      exact ⟨[.error .terminated], List.replicate_succ'.symm⟩

theorem Expects.answers_prefix_end (hands : source.Hands tape) {torn : Bool} (attempts : Nat)
    {payloads : List Bytes} {r : Receiver} {w : ω} (awaits : Awaits tape torn payloads r w)
    (clear : r.residual = []) :
    answers source attempts r w <+:
      payloads.map .ok ++ Call.lastAnswers torn (.replicate attempts .receive) := by
  induction attempts generalizing payloads r w with
  | zero => exact List.nil_prefix
  | succ attempts ih =>
    have longer (payloads : List Bytes) :=
      (List.prefix_append_right_inj (payloads.map Except.ok)).2 (lastAnswers_begins torn attempts)
    have taking := awaits.nextFrame hands contents_transcript clear
    have received := receive_of_clear source clear w
    generalize r.nextFrame source w = result at taking received
    cases taking with
    | waits kept empty =>
      rw [answers_of_pending received]
      exact (ih kept empty).trans (longer payloads)
    | @message payload others _ _ first kept empty =>
      subst first
      rw [answers_of_ready received]
      exact List.cons_prefix_cons.2 ⟨rfl, (ih kept empty).trans (longer others)⟩
    | ended first closed kept empty =>
      cases clean_of_ofEnd closed
      subst first
      rw [answers_of_ready received]
      exact List.cons_prefix_cons.2 ⟨rfl, ih kept empty⟩
    | failed first same broken halted empty =>
      obtain ⟨rfl, rfl⟩ := torn_of_ofEnd same broken
      subst first
      rw [answers_of_ready received, answers_halted halted empty]
      refine List.cons_prefix_cons.2 ⟨rfl, ?_⟩
      simp only [reduceCtorEq, if_false, List.map_replicate]
      exact List.prefix_rfl

theorem Expects.after_receives (hands : source.Hands tape) {torn : Bool} (attempts : Nat)
    {payloads : List Bytes} {r : Receiver} {w : ω} (awaits : Awaits tape torn payloads r w)
    (clear : r.residual = [])
    (few : (Receiver.run source (.replicate attempts .receive) r w).1.length ≤ payloads.length) :
    let ran := Receiver.run source (.replicate attempts .receive) r w
    Awaits tape torn (payloads.drop ran.1.length) ran.2.1 ran.2.2 ∧ ran.2.1.residual = [] := by
  induction attempts generalizing payloads r w with
  | zero => exact ⟨awaits, clear⟩
  | succ attempts ih =>
    have taking := awaits.nextFrame hands contents_transcript clear
    have received := receive_of_clear source clear w
    change r.attempt source .receive w = _ at received
    generalize r.nextFrame source w = result at taking received
    rw [List.replicate_succ] at few ⊢
    cases taking with
    | waits kept empty =>
      rw [run_cons_of_pending received] at few ⊢
      exact ih kept empty few
    | message first kept empty =>
      subst first
      rw [run_cons_of_ready received] at few ⊢
      exact ih kept empty (Nat.le_of_succ_le_succ few)
    | ended first =>
      subst first
      rw [run_cons_of_ready received] at few
      exact absurd few (Nat.not_succ_le_zero _)
    | failed first =>
      subst first
      rw [run_cons_of_ready received] at few
      exact absurd few (Nat.not_succ_le_zero _)

/-- However calls are mixed, those that report something come after all bytes are handed out. -/
theorem Expects.run_to_end (hands : source.Hands tape) {torn : Bool} (calls : List Call)
    {payloads : List Bytes} {r : Receiver} {w : ω} (awaits : Awaits tape torn payloads r w) :
    ∃ early late, (Receiver.run source calls r w).1 = early ++ late ∧
      (∀ d ∈ early, d.stop = none) ∧
      (late ≠ [] → early.flatMap Completed.bytes = r.residual ++ payloads.flatten) ∧
      late.map (·.answer) = Call.lastAnswers torn (late.map (·.call)) ∧
      (torn = false → ∀ d ∈ late, tape d.world = some ⟨[], .closed⟩) := by
  induction calls generalizing payloads r w with
  | nil =>
    exact ⟨[], [], rfl, List.forall_mem_nil _, absurd rfl, rfl, fun _ => List.forall_mem_nil _⟩
  | cons call calls ih =>
    have served := awaits.attempt hands contents_transcript call
    generalize made : r.attempt source call w = result at served
    cases served with
    | waits kept same =>
      rw [run_cons_of_pending made, same]
      exact ih kept
    | hands kept same _ silent =>
      obtain ⟨early, late, ran, quiet, balance, answers, seen⟩ := ih kept
      rw [run_cons_of_ready made, ran]
      refine ⟨_ :: early, late, rfl, List.forall_mem_cons.2 ⟨silent, quiet⟩, fun some => ?_, answers, seen⟩
      rw [List.flatMap_cons, balance some, same]
      rfl
    | ended kept none _ empty closed =>
      obtain ⟨answers, seen⟩ := kept.last_answers hands calls empty
      cases clean_of_ofEnd closed
      rw [run_cons_of_ready made]
      exact ⟨[], _, rfl, List.forall_mem_nil _, fun _ => none.symm, congrArg _ answers,
        fun _ => List.forall_mem_cons.2 ⟨kept.at_end, seen rfl⟩⟩
    | @failed error next after none same broken halted empty =>
      obtain ⟨rfl, rfl⟩ := torn_of_ofEnd same broken
      have asks : call ≠ .read 0 := by
        rintro rfl
        rw [attempt_zero] at made
        cases made
      rw [run_cons_of_ready made]
      exact ⟨[], _, rfl, List.forall_mem_nil _, fun _ => none.symm,
        answers_torn asks halted empty calls after, nofun⟩

/-- A stream that speaks promptly and ends lets no call wait. -/
theorem Expects.answered (hands : source.Hands tape) (prompt : source.Prompt tape) {torn : Bool}
    (calls : List Call) {payloads : List Bytes} {r : Receiver} {w : ω}
    (awaits : Awaits tape torn payloads r w) :
    (Receiver.run source calls r w).1.map (·.call) = calls := by
  induction calls generalizing payloads r w with
  | nil => rfl
  | cons call calls ih =>
    have served := awaits.attempt hands contents_transcript call
    generalize made : r.attempt source call w = result at served
    cases served with
    | @waits others next after left kept same _ paused =>
      obtain ⟨c, t, ⟨-, begun, rest, place, holds, rfl⟩, reads⟩ := kept
      rw [paused.holds hands, prompt _ _ paused] at holds
      cases holds
      rw [Tape.rewind, List.append_nil, place.transcript] at reads
      cases reads
    | hands kept =>
      rw [run_cons_of_ready made]
      exact congrArg _ (ih kept)
    | ended kept =>
      rw [run_cons_of_ready made]
      exact congrArg _ (ih kept)
    | failed _ _ _ halted empty =>
      rw [run_cons_of_ready made]
      exact congrArg _ (run_refused source halted empty calls _).1

end Receiver

theorem CipherState.Cut.cons {c next : CipherState} {payload frame wire : Bytes} {sent : List Bytes}
    {broken : Option Bytes} (framed : c.frame payload = (.ok frame, next))
    (cut : next.Cut sent broken wire) : c.Cut (payload :: sent) broken (frame ++ wire) := by
  cases cut with
  | whole frames => exact .whole (.cons framed frames)
  | begun frames second begins part =>
    rw [← List.append_assoc]
    exact .begun (.cons framed frames) second begins part

/-- However a wire is cut, what comes before is the frames that are whole and a beginning of the next. -/
theorem CipherState.Frames.cut {c last : CipherState} {messages : List Bytes} {wire : Bytes}
    (frames : c.Frames messages wire last) {length : Nat} (inside : length ≤ wire.length) :
    ∃ whole others, messages = whole ++ others ∧ c.Cut whole others.head? (wire.take length) := by
  induction frames generalizing length with
  | nil =>
    rw [List.take_nil]
    exact ⟨[], [], rfl, .whole .nil⟩
  | @cons c next last message messages frame rest framed frames ih =>
    by_cases short : length < frame.length
    · refine ⟨[], message :: messages, rfl, ?_⟩
      rw [List.take_append_of_le_length (Nat.le_of_lt short)]
      refine .begun .nil framed (List.take_prefix length frame) fun same => ?_
      have taken := congrArg List.length same
      rw [List.length_take_of_le (Nat.le_of_lt short)] at taken
      omega
    · rw [List.length_append] at inside
      have left : length - frame.length ≤ rest.length := by omega
      obtain ⟨whole, others, rfl, cut⟩ := ih left
      refine ⟨message :: whole, others, rfl, ?_⟩
      rw [List.take_append, List.take_of_length_le (Nat.le_of_not_lt short)]
      exact cut.cons framed

namespace Receiver

variable {ω : Type} {source : Source ω} {tape : ω → Option Tape}

/-- Whatever a wire is cut to, on every stream that hands out what is left in any pieces a receiver
returns the messages whose frames are whole. A cut between two frames it reports as the end of the
stream as often as it is asked, a cut within a frame once, and from then on that it has failed. No bytes
are read at the clean end only, and a prompt stream lets no call wait. -/
theorem truncation_detected (hands : source.Hands tape) {c last : CipherState} {messages : List Bytes}
    {wire : Bytes} (emits : Sender.Emits c messages wire last) {cut : Nat} (inside : cut ≤ wire.length)
    {w : ω} (holds : tape w = some ⟨wire.take cut, .closed⟩) :
    ∃ whole others, messages = whole ++ others ∧
      let length := (whole.map fun message => 34 + message.length).sum
      length ≤ cut ∧ (∀ next ∈ others.head?, cut < length + (34 + next.length)) ∧
      Truncated source tape w c whole (length ≠ cut) := by
  obtain ⟨fit, frames⟩ := Sender.emits_iff.1 emits
  obtain ⟨whole, others, rfl, broken⟩ := frames.cut inside
  have fits : ∀ payload ∈ whole ++ others.head?.toList, payload.length ≤ maxPayloadLength := by
    intro payload member
    refine fit payload (List.mem_append.2 ((List.mem_append.1 member).imp id fun next => ?_))
    exact List.mem_of_mem_head? (Option.mem_toList.1 next)
  obtain ⟨begun, read, size, short⟩ := broken.transcript fits .closed
  rw [List.length_take_of_le inside, CipherState.wireLength_eq] at size
  refine ⟨whole, others, rfl, ?_⟩
  intro length
  change cut = length + begun.length at size
  have torn : Ending.closed.stop begun = .failed (.ofEnd (length ≠ cut)) := by
    by_cases none : begun = []
    · subst none
      simp [Ending.stop, Error.ofEnd, size]
    · have some : begun.length ≠ 0 := fun zero => none (List.eq_nil_of_length_eq_zero zero)
      simp [Ending.stop, Error.ofEnd, size, none]
  have awaits : Awaits tape (length ≠ cut) whole (start c) w :=
    ⟨c, _, within_between holds, read.trans (congrArg (Prod.mk whole) torn)⟩
  refine ⟨by omega, fun next head => ?_, ?_⟩
  · have part := short next head
    simp only [headerLength, lengthPrefixLength, Aead.tagLength] at part
    omega
  · refine ⟨fun attempts => awaits.answers_prefix_end hands attempts rfl, ?_, ?_, ?_, ?_,
      fun prompt calls => awaits.answered hands prompt calls⟩
    · intro attempts done next world ran all calls
      have few := Nat.le_of_eq all
      have left := awaits.after_receives hands attempts rfl
      rw [ran] at left
      obtain ⟨spent, clear⟩ := left few
      rw [List.drop_of_length_le (Nat.le_of_eq all.symm)] at spent
      exact (spent.last_answers hands calls clear).1
    · intro calls
      obtain ⟨early, late, ran, quiet, balance, answers, -⟩ := awaits.run_to_end hands calls
      exact ⟨early, late, ran, quiet, balance, answers⟩
    · intro calls d member size asked nothing
      obtain ⟨early, late, ran, quiet, -, answers, seen⟩ := awaits.run_to_end hands calls
      rw [ran] at member
      rcases List.mem_append.1 member with before | behind
      · have silent := quiet d before
        rw [Completed.stop, asked, nothing] at silent
        simp [Call.stop] at silent
      · generalize decide (length ≠ cut) = broken at answers seen ⊢
        cases broken with
        | false => exact ⟨rfl, seen rfl d behind⟩
        | true =>
          obtain ⟨error, refused⟩ := refused_of_torn answers d behind
          rw [asked, nothing] at refused
          cases refused
    · intro calls done next world call last later ran waits
      obtain ⟨done', next', world', left, ran', -, owes, -⟩ :=
        awaits.run hands contents_transcript calls
      rw [ran] at ran'
      cases ran'
      exact owes.paused hands contents_transcript waits

/-- Two bytes and an empty message, cut right behind the header of the second frame. -/
theorem truncation_detected_behind_header : ∃ wire last,
    (Memory.Fabric.source 0 .caller).Hands (Memory.Fabric.tape? 0) ∧
    Sender.Emits (.start (.zero 32) (.zero 32)) [[104, 105], []] wire last ∧ 54 ≤ wire.length ∧
    (Memory.Fabric.trickle (wire.take 54) true).tape? 0 = some ⟨wire.take 54, .closed⟩ ∧
    answers (Memory.Fabric.source 0 .caller) 3 (start (.start (.zero 32) (.zero 32)))
        (.trickle (wire.take 54) true) =
      [.ok [104, 105], .error .malformedFrame, .error .terminated] := by
  have fit : ∀ message ∈ [([104, 105] : Bytes), []], message.length ≤ maxPayloadLength := by
    intro message member
    rcases List.mem_cons.1 member with rfl | empty
    · decide
    · rw [List.mem_singleton.1 empty]
      decide
  obtain ⟨wire, last, frames⟩ := CipherState.Frames.of_lengths (.start (.zero 32) (.zero 32)) fit
  have emits := Sender.emits_iff.2 ⟨fit, frames⟩
  have size : wire.length = 70 := frames.length_eq
  have inside : 54 ≤ wire.length := by omega
  have hands := Memory.Fabric.hands_source 0 .caller
  have holds := Memory.Fabric.tape?_trickle (wire.take 54) true
  obtain ⟨whole, others, split, fits, short, cut⟩ := truncation_detected hands emits inside holds
  obtain rfl : whole = [[104, 105]] := by
    match whole, others, split with
    | [], _, rfl => exact absurd (short _ rfl) (by decide)
    | [_], [_], rfl => rfl
    | [_, _], [], rfl => exact absurd fits (by decide)
  have received := cut.received 3
  have all := congrArg List.length
    (cut.prompt (Memory.Fabric.prompt_source 0 .caller) (.replicate 3 .receive))
  refine ⟨wire, last, hands, emits, inside, holds, ?_⟩
  have three : (answers (Memory.Fabric.source 0 .caller) 3 (start (.start (.zero 32) (.zero 32)))
      (.trickle (wire.take 54) true)).length = 3 := by
    rwa [List.length_map, List.length_replicate, ← List.length_map (·.answer)] at all
  exact (List.prefix_iff_eq_take.1 received).trans (by rw [three]; rfl)

end Receiver
end NoiseLink
