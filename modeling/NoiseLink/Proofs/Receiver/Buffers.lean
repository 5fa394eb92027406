import Mathlib.Data.List.Basic
import NoiseLink.Proofs.Receiver.Contacts
import NoiseLink.Proofs.Receiver.Visits

/-! The buffers of a receiver at the times when someone can look at them, which is between two attempts
at calls. The filled part of the buffer in use is what has come in for the next unit, and it is less than
the unit: a unit that is complete goes to the cipher within the attempt that completes it. The rest of the
buffer may hold anything. So nothing outside a buffer is ever touched, as long as the stream keeps to the
room that it is given, and without its buffers the receiver is the one that keeps what has arrived. -/
namespace NoiseLink

/-- A stream that never delivers more than it is asked for. -/
def Source.Bounded (source : Source ω) : Prop :=
  ∀ size w, (source.receive size w).1.delivered ≤ size

theorem Octets.take_bytes (unit : Octets n) : unit.bytes.take n = unit.bytes :=
  List.take_of_length_le (Nat.le_of_eq unit.length_bytes)

theorem Tape.bounded_source : Tape.source.Bounded := by
  intro size t
  change (receive size t).1.delivered ≤ size
  fun_cases receive size t with
  | case5 size byte bytes ending => simp [Poll.delivered]
  | _ => simp [Poll.delivered]

namespace BufferedReceiver

open Receiver (nextFrame_residual)

variable {ω α : Type} {source : Source ω}

/-- What filling a buffer comes to, against what gathering the unit comes to. -/
inductive Fills {size : Nat} : Fill ω → Gathered size × ω → Prop where
  | full {unit : Octets size} {after log} : Fills ⟨.full, unit.bytes, size, after, log⟩ (.full unit, after)
  | waiting {buffer filled after log} : filled < size →
      Fills ⟨.waiting, buffer, filled, after, log⟩ (.waiting (buffer.take filled).toArray, after)
  | ended {buffer filled after log} : filled < size → Ended log →
      Fills ⟨.ended, buffer, filled, after, log⟩ (.ended (buffer.take filled).toArray, after)
  | failed {cause buffer filled after log} : filled < size →
      Fills ⟨.failed cause, buffer, filled, after, log⟩ (.failed cause (buffer.take filled).toArray, after)

theorem Fills.behind {size : Nat} {f : Fill ω} {result : Gathered size × ω} (fills : Fills f result)
    (contact : Contact) : Fills { f with log := contact :: f.log } result := by
  cases fills with
  | full => exact .full
  | waiting short => exact .waiting short
  | ended short said => exact .ended short (said.behind [contact])
  | failed short => exact .failed short

/-- Gathering asks for as much as there is room for. -/
theorem gather_of_room (source : Source ω) {size filled : Nat} {buffer room : Bytes}
    (there : buffer.slice? filled size = some room) (whole : buffer.length = size) (short : filled < size)
    (w : ω) : source.gather size (buffer.take filled).toArray w =
      match source.receive room.length w with
      | (.pending, w) => (.waiting (buffer.take filled).toArray, w)
      | (.ready (.error cause), w) => (.failed cause (buffer.take filled).toArray, w)
      | (.ready (.ok []), w) => (.ended (buffer.take filled).toArray, w)
      | (.ready (.ok (byte :: bytes)), w) =>
        source.gather size (buffer.take filled ++ byte :: bytes).toArray w := by
  obtain ⟨parts, wants⟩ := Bytes.room_of_slice? there whole short
  have missing : size - (buffer.take filled).length = room.length := by omega
  have step := Source.gather.eq_def source size (buffer.take filled).toArray w
  rw [dif_pos (by simp only [List.size_toArray]; omega)] at step
  simp only [List.size_toArray, missing, List.toArray_appendList] at step
  exact step

theorem gather_of_full (source : Source ω) (unit : Octets size) (w : ω) :
    source.gather size unit.bytes.toArray w = (.full unit, w) := by
  rw [Source.gather, dif_neg (by simp)]
  simp only [unit.take_bytes]

/-- A buffer of the right size is filled with what is gathered, whatever else it held. -/
theorem fill_spec (bounded : source.Bounded) (stage : Stage) {buffer : Bytes} {filled : Nat}
    (whole : buffer.length = stage.size) (inside : filled ≤ stage.size) (w : ω) :
    ∃ f, fill source stage.size buffer filled w = some f ∧ f.buffer.length = stage.size ∧
      (stage.holding (buffer.take filled).toArray).Trail f.log
        (stage.holding (f.buffer.take f.filled).toArray) ∧
      Fills f (source.gather stage.size (buffer.take filled).toArray w) := by
  generalize unit : stage.size = size at whole inside ⊢
  fun_induction fill source size buffer filled w with
  | case1 buffer filled w short outside =>
    simp [Bytes.slice?, inside, whole] at outside
  | case2 buffer filled w short room there after answer =>
    obtain ⟨parts, wants⟩ := Bytes.room_of_slice? there whole short
    refine ⟨_, rfl, whole, stage.asks_nothing (parts.trans unit.symm) wants rfl, ?_⟩
    rw [gather_of_room source there whole short, answer]
    exact .waiting short
  | case3 buffer filled w short room there cause after answer =>
    obtain ⟨parts, wants⟩ := Bytes.room_of_slice? there whole short
    refine ⟨_, rfl, whole, stage.asks_nothing (parts.trans unit.symm) wants rfl, ?_⟩
    rw [gather_of_room source there whole short, answer]
    exact .failed short
  | case4 buffer filled w short room there after answer =>
    obtain ⟨parts, wants⟩ := Bytes.room_of_slice? there whole short
    refine ⟨_, rfl, whole, stage.asks_nothing (parts.trans unit.symm) wants rfl, ?_⟩
    rw [gather_of_room source there whole short, answer]
    exact .ended short ⟨_, rfl⟩
  | case5 buffer filled w short room there byte bytes after answer piece ih =>
    obtain ⟨parts, wants⟩ := Bytes.room_of_slice? there whole short
    have fits : piece.length ≤ room.length := by
      have most := bounded room.length w
      rwa [answer] at most
    have bound : filled + piece.length ≤ size := by
      have free := Bytes.length_of_slice? there
      omega
    rw [List.take_of_length_le fits] at ih ⊢
    have kept : (buffer.lay filled piece).length = size :=
      (Bytes.length_lay (whole.symm ▸ bound)).trans whole
    obtain ⟨f, made, kept, trail, fills⟩ := ih kept bound
    rw [Bytes.take_lay (by omega)] at trail fills
    refine ⟨{ f with log := .asked room.length (.ready (.ok piece)) :: f.log }, ?_, kept, ?_, ?_⟩
    · rw [made, Option.map_some]
    · exact .cons (stage.asks (parts.trans unit.symm) wants fits) trail
    · rw [gather_of_room source there whole short, answer]
      exact fills.behind _
  | case6 buffer filled w full =>
    obtain rfl : filled = size := by omega
    refine ⟨_, rfl, whole, .nil, ?_⟩
    have all : source.gather filled buffer.toArray w = (.full ⟨buffer, whole⟩, w) :=
      gather_of_full source ⟨buffer, whole⟩ w
    rw [List.take_of_length_le (Nat.le_of_eq whole), all]
    exact @Fills.full ω filled ⟨buffer, whole⟩ w []

/-- Between two attempts the buffer in use has the size of its unit and is not filled. -/
structure Tidy (b : BufferedReceiver) : Prop where
  header : b.header.length = headerLength
  idle : b.pending = none → b.filled < headerLength
  body : ∀ length, b.pending = some length → length ≤ maxPayloadLength ∧
    b.body.length = length + Aead.tagLength ∧ b.filled < length + Aead.tagLength

theorem tidy_start (c : CipherState) : (start c).Tidy :=
  ⟨List.length_replicate, fun _ => (by decide : 0 < headerLength), by simp [start]⟩

theorem Tidy.leaving {b : BufferedReceiver} (tidy : b.Tidy) (residual : Bytes) :
    Tidy { b with residual } :=
  ⟨tidy.header, tidy.idle, tidy.body⟩

/-- What an attempt comes to that leaves the buffers in order, beside the same attempt without them. -/
structure Outcome.Keeps (o : Outcome ω α) (b : BufferedReceiver)
    (result : Poll (Except Error α) × Receiver × ω) : Prop where
  same : result = (o.answer, o.receiver.receiver, o.world)
  tidy : o.receiver.Tidy
  trail : b.stage.Trail o.log o.receiver.stage
  ended : o.answer = .ready (.error .malformedFrame) → Ended o.log

theorem Outcome.Keeps.behind {o : Outcome ω α} {b middle : BufferedReceiver} {log : List Contact}
    {result : Poll (Except Error α) × Receiver × ω} (keeps : o.Keeps middle result)
    (before : b.stage.Trail log middle.stage) : (o.behind log).Keeps b result :=
  ⟨keeps.same, keeps.tidy, before.append keeps.trail, fun broken => (keeps.ended broken).behind log⟩

theorem Outcome.keeps_of_idle {o : Outcome ω α} {b : BufferedReceiver}
    {result : Poll (Except Error α) × Receiver × ω} (unknown : o.receiver.pending = none)
    (empty : o.receiver.filled = 0) (header : o.receiver.header.length = headerLength)
    (same : result =
      (o.answer, ⟨o.receiver.cipher, .idle, o.receiver.residual, o.receiver.terminated⟩, o.world))
    (trail : b.stage.Trail o.log .idle)
    (ended : o.answer = .ready (.error .malformedFrame) → Ended o.log) : o.Keeps b result := by
  have rests := stage_idle unknown empty
  refine ⟨?_, ⟨header, fun _ => ?_, fun _ known => ?_⟩, rests ▸ trail, ended⟩
  · rw [same, BufferedReceiver.receiver, rests]
  · rw [empty]
    decide
  · cases unknown.symm.trans known

/-- The body is received from what is there of it, whatever the receiver without buffers has as its stage:
it is given what has arrived. -/
theorem readBody_keeps (bounded : source.Bounded) {b : BufferedReceiver} (tidy : b.Tidy) {length : Nat}
    (known : b.pending = some length) (w : ω) :
    ∃ o, b.readBody source length w = some o ∧
      o.Keeps b (b.receiver.readBody source length b.held.toArray w) := by
  obtain ⟨cipher, header, body, filled, pending, residual, terminated⟩ := b
  obtain rfl : pending = some length := known
  obtain ⟨limit, whole, short⟩ := tidy.body length rfl
  obtain ⟨f, made, kept, trail, fills⟩ :=
    fill_spec bounded (.body length #[]) whole (Nat.le_of_lt short) w
  simp only [Stage.size, Stage.holding] at made kept trail fills
  have stops (short : f.filled < length + Aead.tagLength) :
      Tidy ⟨cipher, header, f.buffer, f.filled, some length, residual, terminated⟩ := by
    refine ⟨tidy.header, by simp, fun other same => ?_⟩
    cases same
    exact ⟨limit, kept, short⟩
  simp only [readBody, Receiver.readBody, receiver, held, made]
  generalize source.gather (length + Aead.tagLength) (body.take filled).toArray w = result at fills
  cases fills with
  | waiting short => exact ⟨_, rfl, rfl, stops short, trail, by simp⟩
  | ended short said => exact ⟨_, rfl, rfl, stops short, trail, fun _ => said⟩
  | failed short => exact ⟨_, rfl, rfl, stops short, trail, by simp⟩
  | @full unit after log =>
    have part : unit.bytes.slice? 0 (length + Aead.tagLength) = some unit.bytes := by
      simp [Bytes.slice?, unit.take_bytes]
    simp only [unit.take_bytes] at trail
    have size : unit.bytes.toArray.size = length + Aead.tagLength := by simp
    rcases opened : cipher.decrypt unit.bytes with ⟨error | payload, next⟩
    · simp only [part, opened]
      refine ⟨_, rfl, Outcome.keeps_of_idle rfl rfl tidy.header rfl ?_ ?_⟩
      · have step : Stage.Step (.body length unit.bytes.toArray) (.opened unit.bytes (.error error)) .idle :=
          .refused size
        exact trail.append step.trail
      · intro broken
        simp [Except.map, CipherState.error_of_decrypt opened] at broken
    · simp only [part, opened]
      refine ⟨_, rfl, Outcome.keeps_of_idle rfl rfl tidy.header rfl ?_ (by simp [Except.map])⟩
      exact trail.append (Stage.Step.payload size).trail

theorem prefix_of_decrypt {c next : CipherState} {header : Octets headerLength} {opened : Bytes}
    (found : c.decrypt header.bytes = (.ok opened, next)) : ∃ high low, opened = [high, low] := by
  have size := CipherState.length_of_encrypt (CipherState.decrypt_ok_iff.1 found)
  rw [header.length_bytes] at size
  exact List.length_eq_two.1 (Nat.add_right_cancel size.symm)

theorem readFrame_keeps (bounded : source.Bounded) {b : BufferedReceiver} (tidy : b.Tidy) (w : ω) :
    ∃ o, b.readFrame source w = some o ∧ o.Keeps b (b.receiver.readFrame source w) := by
  obtain ⟨cipher, header, body, filled, _ | length, residual, terminated⟩ := b
  · obtain ⟨f, made, kept, trail, fills⟩ :=
      fill_spec bounded (.header #[]) tidy.header (Nat.le_of_lt (tidy.idle rfl)) w
    simp only [Stage.size, Stage.holding] at made kept trail fills
    have stops (short : f.filled < headerLength) :
        Tidy ⟨cipher, f.buffer, body, f.filled, none, residual, terminated⟩ :=
      ⟨kept, fun _ => short, by simp⟩
    simp only [readFrame, Receiver.readFrame, receiver, stage, held, made]
    generalize source.gather headerLength (header.take filled).toArray w = result at fills
    cases fills with
    | waiting short => exact ⟨_, rfl, rfl, stops short, trail, by simp⟩
    | failed short => exact ⟨_, rfl, rfl, stops short, trail, by simp⟩
    | @ended buffer filled after log short said =>
      have size : (buffer.take filled).toArray.size = filled := by
        rw [List.size_toArray, List.length_take, kept]
        omega
      refine ⟨_, rfl, ?_⟩
      simp only [size]
      split
      · exact ⟨rfl, stops short, trail, by simp⟩
      · exact ⟨rfl, stops short, trail, fun _ => said⟩
    | @full header after log =>
      simp only [header.take_bytes] at trail
      have size : header.bytes.toArray.size = headerLength := by simp
      rcases opened : cipher.decrypt header.bytes with ⟨error | found, next⟩
      · simp only [opened]
        refine ⟨_, rfl, Outcome.keeps_of_idle rfl rfl kept rfl ?_ ?_⟩
        · have step : Stage.Step (.header header.bytes.toArray) (.opened header.bytes (.error error)) .idle :=
            .refused size
          exact trail.append step.trail
        · intro broken
          simp [CipherState.error_of_decrypt opened] at broken
      · obtain ⟨high, low, rfl⟩ := prefix_of_decrypt opened
        simp only [opened]
        have step : Stage.Step (.header header.bytes.toArray) (.opened header.bytes (.ok [high, low]))
          (.body (Bytes.ofBigEndian [high, low]) #[]) := .length size
        have limit := Bytes.ofBigEndian_two_le high low
        generalize Bytes.ofBigEndian [high, low] = length at step limit
        have ordered : Tidy ⟨next, header.bytes, body.resize (length + Aead.tagLength), 0, some length,
            residual, terminated⟩ := by
          refine ⟨kept, by simp, fun other same => ?_⟩
          cases same
          exact ⟨limit, Bytes.length_resize _ _, Nat.add_pos_right length (by decide)⟩
        obtain ⟨o, found, keeps⟩ := readBody_keeps bounded ordered rfl after
        refine ⟨o.behind _, by rw [found, Option.map_some], ?_⟩
        exact keeps.behind (trail.append step.trail)
  · exact readBody_keeps bounded tidy rfl w

theorem nextFrame_keeps (bounded : source.Bounded) {b : BufferedReceiver} (tidy : b.Tidy) (w : ω) :
    ∃ o, b.nextFrame source w = some o ∧ o.Keeps b (b.receiver.nextFrame source w) := by
  rw [nextFrame, Receiver.nextFrame, receiver_terminated]
  by_cases halted : b.terminated = true
  · rw [if_pos halted, if_pos halted]
    exact ⟨_, rfl, rfl, tidy, .nil, by simp⟩
  · rw [if_neg halted, if_neg halted]
    obtain ⟨⟨answer, next, after, log⟩, found, same, ordered, trail, ended⟩ :=
      readFrame_keeps bounded tidy w
    rw [found, same, Option.map_some]
    refine ⟨_, rfl, ?_⟩
    rcases answer with (error | frame) | _
    · exact ⟨rfl, ⟨ordered.header, ordered.idle, ordered.body⟩, trail, ended⟩
    · exact ⟨rfl, ordered, trail, by simp⟩
    · exact ⟨rfl, ordered, trail, by simp⟩

theorem receive_keeps (bounded : source.Bounded) {b : BufferedReceiver} (tidy : b.Tidy) (w : ω) :
    ∃ o, b.receive source w = some o ∧ o.Keeps b (b.receiver.receive source w) := by
  rw [receive, Receiver.receive, receiver_residual]
  by_cases content : b.residual ≠ []
  · rw [if_pos content, if_pos content]
    exact ⟨_, rfl, rfl, tidy.leaving [], .nil, by simp⟩
  · rw [if_neg content, if_neg content]
    obtain ⟨⟨answer, next, after, log⟩, found, same, ordered, trail, ended⟩ :=
      nextFrame_keeps bounded tidy w
    rw [found, same, Option.map_some]
    refine ⟨_, rfl, ?_⟩
    rcases answer with (error | _ | payload) | _
    · refine ⟨rfl, ordered, trail, fun broken => ended ?_⟩
      cases broken
      rfl
    · exact ⟨rfl, ordered, trail, by simp⟩
    · exact ⟨rfl, ordered, trail, by simp⟩
    · exact ⟨rfl, ordered, trail, by simp⟩

theorem read_of_residual (source : Source ω) {size : Nat} (asks : size ≠ 0) {b : BufferedReceiver}
    (content : b.residual ≠ []) (w : ω) : b.read source size w =
      some ⟨.ready (.ok (b.residual.take size)), { b with residual := b.residual.drop size }, w, []⟩ := by
  rw [read, if_neg asks, if_pos content]

theorem read_of_nextFrame {size : Nat} (asks : size ≠ 0) {b : BufferedReceiver} (clear : ¬b.residual ≠ [])
    {w : ω} {o : Outcome ω (Option Bytes)} (found : b.nextFrame source w = some o) :
    b.read source size w =
      match o.answer with
      | .ready (.ok (some payload)) =>
        (read source size { o.receiver with residual := payload } o.world).map (.behind o.log)
      | .ready (.ok none) => some ⟨.ready (.ok []), o.receiver, o.world, o.log⟩
      | .ready (.error error) => some ⟨.ready (.error error), o.receiver, o.world, o.log⟩
      | .pending => some ⟨.pending, o.receiver, o.world, o.log⟩ := by
  rw [read, if_neg asks, if_neg clear]
  split
  · rename_i none
    cases none.symm.trans found
  all_goals
    rename_i made
    cases made.symm.trans found
    rfl

theorem exists_nextFrame (bounded : source.Bounded) {b : BufferedReceiver} (tidy : b.Tidy) {w after : ω}
    {answer : Poll (Except Error (Option Bytes))} {next : Receiver}
    (found : b.receiver.nextFrame source w = (answer, next, after)) :
    ∃ middle log, b.nextFrame source w = some ⟨answer, middle, after, log⟩ ∧ middle.receiver = next ∧
      middle.Tidy ∧ b.stage.Trail log middle.stage ∧
      (answer = .ready (.error .malformedFrame) → Ended log) := by
  obtain ⟨⟨_, middle, _, log⟩, made, same, ordered, trail, ended⟩ := nextFrame_keeps bounded tidy w
  rw [found] at same
  cases same
  exact ⟨middle, log, made, rfl, ordered, trail, ended⟩

/-- The induction is on the empty frames that the receiver without buffers passes over. -/
theorem read_keeps (bounded : source.Bounded) (size : Nat) {b : BufferedReceiver} (tidy : b.Tidy) (w : ω) :
    ∃ o, b.read source size w = some o ∧ o.Keeps b (b.receiver.read source size w) := by
  generalize view : b.receiver = r
  fun_induction Receiver.read source size r w generalizing b with
  | case1 r w none =>
    subst view
    exact ⟨⟨.ready (.ok []), b, w, []⟩, by rw [read, if_pos none], rfl, tidy, .nil, by simp⟩
  | case2 r w asks content =>
    subst view
    exact ⟨_, read_of_residual source asks content w, rfl, tidy.leaving _, .nil, by simp⟩
  | case3 r w asks clear next after answer ih =>
    subst view
    obtain ⟨middle, log, made, rfl, ordered, trail, -⟩ := exists_nextFrame bounded tidy answer
    have empty : middle.residual = [] := by
      have kept := nextFrame_residual source b.receiver w
      rw [answer] at kept
      exact kept.trans (not_not.1 clear)
    have same : { middle with residual := [] } = middle := by rw [← empty]
    obtain ⟨o, last, keeps⟩ := ih ordered rfl
    refine ⟨o.behind log, ?_, keeps.behind trail⟩
    rw [read_of_nextFrame asks clear made]
    simp only [same, last, Option.map_some]
  | case4 r w asks clear payload next after filled answer =>
    subst view
    obtain ⟨middle, log, made, rfl, ordered, trail, -⟩ := exists_nextFrame bounded tidy answer
    have served := read_of_residual source asks (b := { middle with residual := payload }) filled after
    refine ⟨_, (read_of_nextFrame asks clear made).trans (congrArg (Option.map _) served), ?_⟩
    exact ⟨rfl, ordered.leaving _, trail.append .nil, by simp [Outcome.behind]⟩
  | case5 r w asks clear next after answer =>
    subst view
    obtain ⟨middle, log, made, rfl, ordered, trail, -⟩ := exists_nextFrame bounded tidy answer
    exact ⟨_, read_of_nextFrame asks clear made, rfl, ordered, trail, by simp⟩
  | case6 r w asks clear next after error answer =>
    subst view
    obtain ⟨middle, log, made, rfl, ordered, trail, ended⟩ := exists_nextFrame bounded tidy answer
    refine ⟨_, read_of_nextFrame asks clear made, rfl, ordered, trail, fun broken => ended ?_⟩
    cases broken
    rfl
  | case7 r w asks clear next after answer =>
    subst view
    obtain ⟨middle, log, made, rfl, ordered, trail, -⟩ := exists_nextFrame bounded tidy answer
    exact ⟨_, read_of_nextFrame asks clear made, rfl, ordered, trail, by simp⟩

def attempt (source : Source ω) (call : Call) (b : BufferedReceiver) (w : ω) : Option (Outcome ω Bytes) :=
  match call with
  | .receive => b.receive source w
  | .read size => b.read source size w

theorem attempt_keeps (bounded : source.Bounded) (call : Call) {b : BufferedReceiver} (tidy : b.Tidy)
    (w : ω) : ∃ o, b.attempt source call w = some o ∧ o.Keeps b (b.receiver.attempt source call w) := by
  cases call with
  | receive => exact receive_keeps bounded tidy w
  | read size => exact read_keeps bounded size tidy w

structure Turn (ω : Type) extends Outcome ω Bytes where
  call : Call

def run (source : Source ω) : List (Receiver.Move ω) → BufferedReceiver → ω → Option (List (Turn ω))
  | [], _, _ => some []
  | .change turn :: moves, b, w => run source moves b (turn w)
  | .call call :: moves, b, w =>
    match b.attempt source call w with
    | none => none
    | some o => (run source moves o.receiver o.world).map (⟨o, call⟩ :: ·)

/-- All that passed between a receiver and its stream or cipher. -/
def logOf (turns : List (Turn ω)) : List Contact := turns.flatMap fun t => t.log

structure InOrder (b : BufferedReceiver) (log : List Contact) : Prop extends Tidy b where
  /-- The buffer in use holds what has come in since the cipher was last given a unit. -/
  held : b.held = sinceOpened [] log
  /-- The cipher was given what had come in for each unit, which was the whole of it. -/
  opened : ∀ earlier unit answer later, log = earlier ++ .opened unit answer :: later →
    unit = sinceOpened [] earlier ∧ ∃ stage, Stage.idle.Trail earlier stage ∧ unit.length = stage.size
  /-- A header opened to the length of the payload after it, or not at all. -/
  trail : Stage.idle.Trail log b.stage
  clear : b.terminated = true → b.residual = []

@[simp] theorem got_stage (b : BufferedReceiver) : b.stage.got = b.held.toArray := by
  rw [stage]
  cases b.pending <;> rfl

theorem pending_of_stage {b : BufferedReceiver} {length : Nat} {got : Array UInt8}
    (there : b.stage = .body length got) : b.pending = some length ∧ b.held = got.toList := by
  rw [stage] at there
  split at there
  · cases there
  · cases there
    exact ⟨‹_›, rfl⟩

theorem Tidy.inOrder {b : BufferedReceiver} (tidy : b.Tidy) {log : List Contact}
    (trail : Stage.idle.Trail log b.stage) (sound : b.receiver.Sound) : b.InOrder log := by
  refine ⟨tidy, ?_, ?_, trail, sound⟩
  · have since := trail.sinceOpened
    rw [got_stage] at since
    exact since.symm
  · rintro earlier unit answer later rfl
    exact trail.opened

theorem inOrder_start (c : CipherState) : (start c).InOrder [] :=
  (tidy_start c).inOrder .nil (Receiver.sound_start c)

theorem InOrder.attempt (bounded : source.Bounded) {b : BufferedReceiver} {log : List Contact}
    (order : b.InOrder log) (call : Call) (w : ω) :
    ∃ o, b.attempt source call w = some o ∧ o.receiver.InOrder (log ++ o.log) ∧
      (o.answer = .ready (.error .malformedFrame) → Ended o.log) ∧
      b.receiver.attempt source call w = (o.answer, o.receiver.receiver, o.world) := by
  obtain ⟨o, made, same, tidy, trail, ended⟩ := attempt_keeps bounded call order.toTidy w
  have sound := Receiver.Sound.visit (r := b.receiver) order.clear source call w
  simp only [Receiver.visit, same] at sound
  exact ⟨o, made, tidy.inOrder (order.trail.append trail) sound, ended, same⟩

theorem InOrder.run (bounded : source.Bounded) (moves : List (Receiver.Move ω)) {b : BufferedReceiver}
    {log : List Contact} (order : b.InOrder log) (w : ω) :
    ∃ turns, b.run source moves w = some turns ∧
      (∀ earlier t later, turns = earlier ++ t :: later →
        t.receiver.InOrder (log ++ logOf (earlier ++ [t]))) ∧
      (∀ t ∈ turns, t.answer = .ready (.error .malformedFrame) → Ended t.log) ∧
      turns.map (fun t => (t.call, t.answer, t.receiver.receiver, t.world)) =
        (Receiver.visits source moves b.receiver w).map fun v => (v.call, v.answer, v.receiver, v.after) := by
  induction moves generalizing b log w with
  | nil => exact ⟨[], rfl, by simp, List.forall_mem_nil _, rfl⟩
  | cons move moves ih =>
    cases move with
    | change turn => exact ih order (turn w)
    | call call =>
      obtain ⟨o, made, ordered, ended, same⟩ := order.attempt bounded call w
      obtain ⟨turns, others, kept, broken, answers⟩ := ih ordered o.world
      refine ⟨⟨o, call⟩ :: turns, ?_, ?_, List.forall_mem_cons.2 ⟨ended, broken⟩, ?_⟩
      · simp only [BufferedReceiver.run, made, others, Option.map_some]
      · intro earlier t later split
        cases earlier with
        | nil =>
          obtain ⟨rfl, rfl⟩ := List.cons.inj split
          simpa [logOf] using ordered
        | cons first earlier =>
          obtain ⟨rfl, rfl⟩ := List.cons.inj split
          simpa [logOf] using kept earlier t later rfl
      · simp only [List.map_cons, answers, Receiver.visits, Receiver.visit, same]

/-- A stream that keeps to what it is asked for never brings a receiver out of order, whatever calls are
made, given up or failed, and whatever happens to the stream in between. Every call has a result, so nothing
outside a buffer is touched and each call comes to an answer or waits. After each of them the buffer in use
has the size of the next unit and holds, in front, what has come in since the cipher was last given one. The
cipher was given whole units of what had come in for them, and each header that it opened was a length. A
frame is malformed only where the stream has ended in the middle of it, and a half that has failed has
nothing left over. The answers are those of the receiver without buffers. -/
theorem buffers_hold_what_arrived (bounded : source.Bounded) (c : CipherState)
    (moves : List (Receiver.Move ω)) (w : ω) :
    (start c).InOrder [] ∧ ∃ turns, (start c).run source moves w = some turns ∧
      (∀ earlier t later, turns = earlier ++ t :: later → t.receiver.InOrder (logOf (earlier ++ [t]))) ∧
      (∀ t ∈ turns, t.answer = .ready (.error .malformedFrame) → Ended t.log) ∧
      turns.map (fun t => (t.call, t.answer, t.receiver.receiver, t.world)) =
        (Receiver.visits source moves (Receiver.start c) w).map
          fun v => (v.call, v.answer, v.receiver, v.after) :=
  ⟨inOrder_start c, (inOrder_start c).run bounded moves w⟩

/-- A payload of one byte breaks off behind the second byte of its unit: the first call waits with the two
bytes in a buffer of seventeen, and the one after the end of the stream finds the frame malformed. -/
theorem buffers_hold_what_arrived_of_broken_payload :
    let c := CipherState.start (.zero 32) (.zero 32)
    Tape.source.Bounded ∧ ∃ header first second others last,
      c.frame [7] = (.ok (header ++ first :: second :: others), last) ∧ header.length = headerLength ∧
      ∃ t u, (start c).run Tape.source [.call .receive, .change fun _ => ⟨[], .closed⟩, .call (.read 5)]
        ⟨header ++ [first, second], .quiet⟩ = some [t, u] ∧
      t.answer = .pending ∧ t.receiver.pending = some 1 ∧ t.receiver.body.length = 17 ∧
      t.receiver.held = [first, second] ∧
      u.answer = .ready (.error .malformedFrame) ∧ Ended u.log := by
  intro c
  obtain ⟨wire, last, framed⟩ := c.frame_of_length (show [7].length ≤ maxPayloadLength by decide)
  obtain ⟨header, middle, body, head, tail, rfl⟩ := CipherState.frame_ok_iff.1 framed
  have whole : header.length = headerLength := by
    rw [CipherState.length_of_encrypt head, Bytes.length_bigEndian]
    rfl
  obtain ⟨first, second, others, rfl⟩ : ∃ first second others, body = first :: second :: others := by
    have long := CipherState.length_of_encrypt tail
    rcases body with _ | ⟨first, _ | ⟨second, others⟩⟩
    · exact absurd long (by decide)
    · exact absurd long (by simp [Aead.tagLength])
    · exact ⟨first, second, others, rfl⟩
  have opened : c.decrypt header = (.ok [0, 1], middle) := CipherState.decrypt_ok_iff.2 head
  have room : [first, second].length < 1 + Aead.tagLength := (by decide : 2 < 17)
  have waiting : (Receiver.start c).attempt Tape.source .receive ⟨header ++ [first, second], .quiet⟩ =
      (.pending, ⟨middle, .body 1 #[first, second], [], false⟩, ⟨[], .quiet⟩) :=
    Receiver.attempt_of_nextFrame rfl (by simp)
      (@Receiver.nextFrame_begun c middle ⟨header, whole⟩ 0 1 opened [first, second] room []) (by simp)
  have broken := Receiver.attempt_of_nextFrame rfl (show Call.read 5 ≠ .read 0 by simp)
    (Receiver.nextFrame_broken_off middle 1 room []) (by simp)
  obtain ⟨-, turns, made, order, ended, same⟩ := buffers_hold_what_arrived Tape.bounded_source c
    [.call .receive, .change fun _ => ⟨[], .closed⟩, .call (.read 5)] ⟨header ++ [first, second], .quiet⟩
  simp only [Receiver.visits, Receiver.visit, waiting, broken, List.map_cons, List.map_nil] at same
  obtain ⟨t, later, rfl, atPause, same⟩ := List.map_eq_cons_iff.1 same
  obtain ⟨u, none, rfl, atEnd, same⟩ := List.map_eq_cons_iff.1 same
  obtain rfl := List.map_eq_nil_iff.1 same
  simp only [Prod.mk.injEq] at atPause atEnd
  obtain ⟨-, paused, view, -⟩ := atPause
  obtain ⟨-, failed, -⟩ := atEnd
  obtain ⟨known, held⟩ := pending_of_stage (congrArg Receiver.stage view)
  obtain ⟨-, size, -⟩ := (order [] t [u] rfl).body 1 known
  exact ⟨Tape.bounded_source, header, first, second, others, last, framed, whole, t, u, made, paused,
    known, size, held, failed, ended u (by simp) failed⟩

end BufferedReceiver
end NoiseLink
