import NoiseLink.Connection
import NoiseLink.Proofs.Cipher.Pace
import NoiseLink.Proofs.Link.Honest
import NoiseLink.Proofs.Receiver.Passage
import NoiseLink.Proofs.Stream.Wires

/-! Two connections and the four ciphers of their directions. A sender counts two units for every frame, and
a receiver counts the same units when it opens them, the first one as soon as the header of a frame is
there. So they differ by what lies between them, and neither direction takes notice of the other. -/
namespace NoiseLink

open Receiver (Faces Taken)

def Stage.headers : Stage → Nat
  | header _ => 0
  | body .. => 1

def Sender.ending (s : Sender) : Ending := if s.terminated then .closed else .quiet

theorem Sender.ending_of_alive {s : Sender} (alive : s.terminated = false) : s.ending = .quiet := by
  rw [ending, alive, if_neg Bool.false_ne_true]

theorem Sender.ending_ne_failing (s : Sender) (cause : NetworkError) : s.ending ≠ .failing cause := by
  rw [ending]
  split <;> nofun

variable {ω : Type} {sink : Sink ω} {source : Source ω} {tape : ω → Option Tape}

namespace Receiver

theorem Taken.onward {c middle : CipherState} {begun : Bytes} {stage : Stage}
    (taken : Taken c begun middle stage) : middle = c.onward stage.headers := by
  cases taken with
  | header => rfl
  | body _ _ opened => exact CipherState.onward_of_decrypt opened

theorem Taken.of_nil {c middle : CipherState} {stage : Stage} (taken : Taken c [] middle stage) :
    stage.headers = 0 ∧ middle = c := by
  generalize none : ([] : Bytes) = begun at taken
  cases taken with
  | header => exact ⟨rfl, rfl⟩
  | body header _ _ =>
    have size := header.length_bytes
    rw [(List.append_eq_nil_iff.1 none.symm).1] at size
    cases size

variable {c last : CipherState} {payloads : List Bytes} {ending : Ending} {r : Receiver} {w later : ω}

theorem Faces.holds (faces : Faces tape c last payloads ending r w) :
    ∃ rest, tape w = some ⟨rest, ending⟩ := by
  obtain ⟨-, _, -, -, _, ⟨rest, _⟩, -, holds, same⟩ := faces
  cases congrArg Tape.ending same
  exact ⟨rest, holds⟩

theorem Faces.sent {next : CipherState} {more : List Bytes} {wire : Bytes}
    (faces : Faces tape c last payloads .quiet r w) (frames : last.Frames more wire next)
    (fit : ∀ payload ∈ more, payload.length ≤ maxPayloadLength)
    (grows : ∀ t, tape w = some t → t.ending = .quiet → tape later = some (t.follow wire .quiet)) :
    Faces tape c next (payloads ++ more) .quiet r later := by
  obtain ⟨fits, bytes, sent, within⟩ := faces
  exact ⟨List.forall_mem_append.2 ⟨fits, fit⟩, bytes ++ wire, sent.append frames, within.follow grows⟩

theorem Faces.closed (faces : Faces tape c last payloads ending r w)
    (grows : ∀ t, tape w = some t → t.ending = ending → tape later = some (t.follow [] .closed)) :
    Faces tape c last payloads .closed r later := by
  obtain ⟨fits, bytes, sent, within⟩ := faces
  have shut := within.follow grows
  rw [Tape.follow, List.append_nil] at shut
  exact ⟨fits, bytes, sent, shut⟩

end Receiver

/-- Where the bytes of a direction are: the frames that were opened, and then the others, which lead from
the place of the receiver to the cipher of the sender. -/
def InStep (tape : ω → Option Tape) (c : CipherState) (s : Sender) (r : Receiver)
    (frames opened : List Bytes) (w : ω) : Prop :=
  ∃ wire middle others, c.Frames opened wire middle ∧ frames = opened ++ others ∧
    Faces tape middle s.cipher others s.ending r w

namespace InStep

variable {c : CipherState} {s next : Sender} {r : Receiver} {frames opened more : List Bytes} {w after : ω}

theorem start (c : CipherState) {w : ω} (empty : tape w = some ⟨[], .quiet⟩) :
    InStep tape c (.start c) (.start c) [] [] w :=
  ⟨[], c, [], .nil, rfl, Receiver.faces_between .nil nofun empty []⟩

/-- Frames that the sender gets rid of are before the receiver. -/
theorem sent (line : Line sink source tape) (inStep : InStep tape c s r frames opened w)
    (fit : ∀ payload ∈ more, payload.length ≤ maxPayloadLength)
    (h : Sender.sendFrames sink more s w = (.ready (.ok ()), next, after)) :
    InStep tape c next r (frames ++ more) opened after := by
  cases more with
  | nil =>
    cases h
    rwa [List.append_nil]
  | cons payload more =>
    obtain ⟨wire, middle, others, begins, rfl, faces⟩ := inStep
    have alive := Sender.alive_of_sendFrames h
    rw [Sender.ending_of_alive alive] at faces
    obtain ⟨rest, holds⟩ := faces.holds
    obtain ⟨same, bytes, framed, grown⟩ := Sender.sendFrames_ok line holds rfl h
    refine ⟨wire, middle, others ++ payload :: more, begins, List.append_assoc .., ?_⟩
    rw [Sender.ending_of_alive (same.trans alive)]
    refine faces.sent framed fit fun t there _ => ?_
    rw [holds] at there
    cases there
    exact grown

theorem send (line : Line sink source tape) (inStep : InStep tape c s r frames opened w) {message : Bytes}
    (h : s.send sink message w = (.ready (.ok ()), next, after)) :
    InStep tape c next r (frames ++ [message]) opened after := by
  rw [Sender.send] at h
  split at h
  · simp at h
  · rename_i fits
    exact inStep.sent line (by simpa using fits) (Sender.sendFrames_singleton h)

theorem write (line : Line sink source tape) (inStep : InStep tape c s r frames opened w) {bytes : Bytes}
    {size : Nat} (h : s.write sink bytes w = (.ready (.ok size), next, after)) :
    InStep tape c next r (frames ++ Bytes.chunks maxPayloadLength bytes) opened after := by
  rw [Sender.write] at h
  split at h
  · rename_i sent
    cases h
    exact inStep.sent line (fun _ => Bytes.length_of_mem_chunks (by decide)) sent
  · simp at h
  · simp at h

theorem close (line : Line sink source tape) (inStep : InStep tape c s r frames opened w)
    (h : s.close sink w = (.ready (.ok ()), next, after)) : InStep tape c next r frames opened after := by
  obtain ⟨wire, middle, others, begins, split, faces⟩ := inStep
  rw [Sender.close] at h
  split at h
  · rename_i taken
    cases h
    refine ⟨wire, middle, others, begins, split, faces.closed fun t holds same => ?_⟩
    exact line.closed holds (fun cause broken => s.ending_ne_failing cause (same.symm.trans broken)) taken
  · simp at h
  · simp at h

/-- Whatever an attempt comes to, the frames that it opens are the first of those before it. -/
theorem attempt (line : Line sink source tape) (inStep : InStep tape c s r frames opened w) (call : Call) :
    InStep tape c s (r.attempt source call w).2.1 frames (opened ++ r.opened source call w)
      (r.attempt source call w).2.2 := by
  obtain ⟨wire, middle, others, begins, rfl, faces⟩ := inStep
  obtain ⟨bytes, place, left, further, rfl, drawing⟩ := faces.attempt line.hands call
  refine ⟨wire ++ bytes, place, left, begins.append further, (List.append_assoc ..).symm, ?_⟩
  generalize r.attempt source call w = result at drawing ⊢
  cases drawing with
  | pays _ kept => exact kept
  | waits _ _ kept => exact kept
  | ended _ none closed _ kept =>
    rw [none, closed]
    exact kept
  | failed _ _ failing => exact absurd failing (s.ending_ne_failing _)

theorem elsewhere {other : ω → Option Tape} (inStep : InStep tape c s r frames opened w)
    (same : other after = tape w) : InStep other c s r frames opened after := by
  obtain ⟨wire, middle, others, begins, split, faces⟩ := inStep
  exact ⟨wire, middle, others, begins, split, faces.elsewhere same⟩

end InStep

/-- How the two ciphers of a direction stand that have begun alike. The sender is two units ahead for each
of its frames, and the receiver for each frame that it has opened, and one unit if it has opened a header.
The frames are those on the wire: the receiver has taken the ones that it has opened and the beginning of
the next one, and the rest is still there for it. -/
structure Lockstep (tape : ω → Option Tape) (c : CipherState) (s : Sender) (r : Receiver)
    (frames opened : List Bytes) (w : ω) : Prop where
  sender : s.cipher = c.onward (2 * frames.length) ∧
    s.cipher.position = c.position + 2 * frames.length
  receiver : r.cipher = c.onward (2 * opened.length + r.stage.headers) ∧
    r.cipher.position = c.position + (2 * opened.length + r.stage.headers)
  order : opened <+: frames
  wire : ∃ taken begun left middle, c.Frames opened taken middle ∧
    Taken middle begun r.cipher r.stage ∧ tape w = some ⟨left, s.ending⟩ ∧
    c.Frames frames (taken ++ (begun ++ left)) s.cipher
  drained : ∀ ending, tape w = some ⟨[], ending⟩ →
    r.stage.headers = 0 ∧ opened = frames ∧ r.cipher = s.cipher
  complete : opened = frames → tape w = some ⟨[], s.ending⟩
  rotated : ∀ key chainingKey, c = .start key chainingKey → s.cipher.generation = frames.length / 500

theorem InStep.counted {c : CipherState} {s : Sender} {r : Receiver} {frames opened : List Bytes} {w : ω}
    (inStep : InStep tape c s r frames opened w) : Lockstep tape c s r frames opened w := by
  obtain ⟨wire, middle, others, begins, rfl, fit, bytes, further, alive, begun, rest, taken, holds, same⟩ :=
    inStep
  obtain ⟨left, ending⟩ := rest
  obtain rfl : s.ending = ending := (congrArg Tape.ending same).symm
  obtain rfl : begun ++ left = bytes := congrArg Tape.bytes same
  have all := begins.append further
  have sender := all.onward
  have receiver : r.cipher = c.onward (2 * opened.length + r.stage.headers) := by
    rw [taken.onward, begins.onward, CipherState.onward_onward]
  refine ⟨⟨sender, ?_⟩, ⟨receiver, ?_⟩, List.prefix_append .., ?_, ?_, ?_, ?_⟩
  · rw [sender, CipherState.position_onward]
  · rw [receiver, CipherState.position_onward]
  · exact ⟨wire, begun, left, middle, begins, taken, holds, all⟩
  · intro ending drained
    rw [holds] at drained
    cases drained
    rw [List.append_nil] at further
    obtain rfl := taken.eq_nil_of_frames further fit
    obtain ⟨rfl, arrived⟩ : begun = [] ∧ s.cipher = middle := by
      generalize s.cipher = last at further
      cases further
      exact ⟨rfl, rfl⟩
    obtain ⟨none, here⟩ := taken.of_nil
    exact ⟨none, (List.append_nil opened).symm, here.trans arrived.symm⟩
  · intro opened
    obtain rfl := List.append_right_eq_self.1 opened.symm
    have none : begun ++ left = [] := by
      generalize begun ++ left = bytes at further
      cases further
      rfl
    rw [holds, (List.append_eq_nil_iff.1 none).2]
  · rintro key chainingKey rfl
    have scheduled := (CipherState.scheduled_start key chainingKey).onward (2 * (opened ++ others).length)
    rw [← sender] at scheduled
    rw [scheduled.eq_of_position.1, sender, CipherState.position_onward]
    simp only [CipherState.position, CipherState.start, rekeyInterval]
    omega

structure Wires.Honest (wires : Wires ω) (incoming : Role → ω → Option Tape) : Prop where
  line : ∀ role, Line (wires.sink role) (wires.source role.other) (incoming role.other)
  sink_keeps : ∀ role, (wires.sink role).Keeps (incoming role)
  source_keeps : ∀ role, (wires.source role).Keeps (incoming role.other)

theorem Wires.Apart.honest {wires : Wires ω} {capacity : Option Nat} {incoming : Role → ω → Option Tape}
    (apart : wires.Apart capacity incoming) : wires.Honest incoming :=
  ⟨apart.line, apart.sink_keeps, apart.source_keeps⟩

structure Traffic (ω : Type) where
  connection : Role → Connection
  /-- The payloads of the frames that a side has handed to its sink. -/
  frames : Role → List Bytes
  /-- The payloads of the frames that a side has opened. -/
  opened : Role → List Bytes
  world : ω

namespace Traffic

/-- Each side sends with the cipher that the other side receives with. -/
def start (peer : Role → PublicKey) (c : Role → CipherState) (w : ω) : Traffic ω where
  connection role := .ofCiphers (peer role) (c role) (c role.other)
  frames _ := []
  opened _ := []
  world := w

def sends (t : Traffic ω) (role : Role) (sender : Sender) (payloads : List Bytes) (world : ω) :
    Traffic ω where
  connection := Function.update t.connection role { t.connection role with sender }
  frames := Function.update t.frames role (t.frames role ++ payloads)
  opened := t.opened
  world

def receives (t : Traffic ω) (role : Role) (receiver : Receiver) (payloads : List Bytes) (world : ω) :
    Traffic ω where
  connection := Function.update t.connection role { t.connection role with receiver }
  frames := t.frames
  opened := Function.update t.opened role (t.opened role ++ payloads)
  world

/-- One step in the direction in which a side sends: one of its calls succeeds, or the other side makes an
attempt to receive, whatever comes of it. Or something happens that does not concern the streams. -/
inductive Step (wires : Wires ω) (incoming : Role → ω → Option Tape) (role : Role) :
    Traffic ω → Traffic ω → Prop where
  | send {t message sender world} :
      (t.connection role).sender.send (wires.sink role) message t.world =
        (.ready (.ok ()), sender, world) →
      Step wires incoming role t (t.sends role sender [message] world)
  | write {t bytes size sender world} :
      (t.connection role).sender.write (wires.sink role) bytes t.world =
        (.ready (.ok size), sender, world) →
      Step wires incoming role t (t.sends role sender (Bytes.chunks maxPayloadLength bytes) world)
  | close {t sender world} :
      (t.connection role).sender.close (wires.sink role) t.world = (.ready (.ok ()), sender, world) →
      Step wires incoming role t (t.sends role sender [] world)
  | attempt {t call answer receiver world} :
      (t.connection role.other).receiver.attempt (wires.source role.other) call t.world =
        (answer, receiver, world) →
      Step wires incoming role t (t.receives role.other receiver
        ((t.connection role.other).receiver.opened (wires.source role.other) call t.world) world)
  | elsewhere {t : Traffic ω} {world} : (∀ side, incoming side world = incoming side t.world) →
      Step wires incoming role t { t with world }

inductive Reached (wires : Wires ω) (incoming : Role → ω → Option Tape) (first : Traffic ω) :
    Traffic ω → Prop where
  | start : Reached wires incoming first first
  | step {t next role} : Reached wires incoming first t → Step wires incoming role t next →
      Reached wires incoming first next

def Abreast (incoming : Role → ω → Option Tape) (c : Role → CipherState) (t : Traffic ω) (role : Role) :
    Prop :=
  InStep (incoming role.other) (c role) (t.connection role).sender (t.connection role.other).receiver
    (t.frames role) (t.opened role.other) t.world

section Update

variable (t : Traffic ω) (role : Role) (sender : Sender) (receiver : Receiver) (payloads : List Bytes)
  (world : ω)

@[simp] theorem connection_sends : (t.sends role sender payloads world).connection role =
    { t.connection role with sender } :=
  Function.update_self ..

@[simp] theorem connection_sends_other : (t.sends role sender payloads world).connection role.other =
    t.connection role.other := by
  cases role <;> rfl

@[simp] theorem frames_sends : (t.sends role sender payloads world).frames role =
    t.frames role ++ payloads :=
  Function.update_self ..

@[simp] theorem frames_sends_other : (t.sends role sender payloads world).frames role.other =
    t.frames role.other := by
  cases role <;> rfl

@[simp] theorem opened_sends : (t.sends role sender payloads world).opened = t.opened := rfl

@[simp] theorem world_sends : (t.sends role sender payloads world).world = world := rfl

@[simp] theorem connection_receives : (t.receives role receiver payloads world).connection role =
    { t.connection role with receiver } :=
  Function.update_self ..

@[simp] theorem connection_receives_other :
    (t.receives role.other receiver payloads world).connection role = t.connection role := by
  cases role <;> rfl

@[simp] theorem opened_receives : (t.receives role receiver payloads world).opened role =
    t.opened role ++ payloads :=
  Function.update_self ..

@[simp] theorem opened_receives_other : (t.receives role.other receiver payloads world).opened role =
    t.opened role := by
  cases role <;> rfl

@[simp] theorem frames_receives : (t.receives role receiver payloads world).frames = t.frames := rfl

@[simp] theorem world_receives : (t.receives role receiver payloads world).world = world := rfl

end Update

variable {wires : Wires ω} {incoming : Role → ω → Option Tape} {c : Role → CipherState}
  {t next : Traffic ω} {role : Role}

/-- The ciphers of the direction in which nothing happens stay as they are. -/
theorem Step.ciphers_other (step : Step wires incoming role t next) :
    (next.connection role.other).sender = (t.connection role.other).sender ∧
      (next.connection role).receiver = (t.connection role).receiver := by
  cases step with
  | send | write | close => simp
  | attempt => simp
  | elsewhere => exact ⟨rfl, rfl⟩

theorem Step.frames_other (step : Step wires incoming role t next) :
    next.frames role.other = t.frames role.other ∧ next.opened role = t.opened role := by
  cases step with
  | send | write | close => simp
  | attempt => simp
  | elsewhere => exact ⟨rfl, rfl⟩

theorem Step.stream_other (honest : wires.Honest incoming) (step : Step wires incoming role t next) :
    incoming role next.world = incoming role t.world := by
  cases step with
  | @send message _ _ sent =>
    have kept := Sender.keeps_send (honest.sink_keeps role) message (t.connection role).sender t.world
    rwa [sent] at kept
  | @write bytes _ _ _ written =>
    have kept := Sender.keeps_write (honest.sink_keeps role) bytes (t.connection role).sender t.world
    rwa [written] at kept
  | close closed =>
    have kept := Sender.keeps_close (honest.sink_keeps role) (t.connection role).sender t.world
    rwa [closed] at kept
  | @attempt call _ _ _ made =>
    have kept := (t.connection role.other).receiver.keeps_attempt (honest.source_keeps role.other) call
      t.world
    rwa [made, role.other_other] at kept
  | elsewhere same => exact same role

theorem Abreast.step (honest : wires.Honest incoming) (abreast : t.Abreast incoming c role)
    (step : Step wires incoming role t next) : next.Abreast incoming c role := by
  cases step with
  | send sent =>
    have kept := abreast.send (honest.line role) sent
    simpa [Abreast] using kept
  | write written =>
    have kept := abreast.write (honest.line role) written
    simpa [Abreast] using kept
  | close closed =>
    have kept := abreast.close (honest.line role) closed
    simpa [Abreast] using kept
  | @attempt call answer receiver world made =>
    have kept := abreast.attempt (honest.line role) call
    rw [made] at kept
    simpa [Abreast] using kept
  | elsewhere same => exact InStep.elsewhere abreast (same role.other)

theorem Abreast.step_other (honest : wires.Honest incoming) (abreast : t.Abreast incoming c role.other)
    (step : Step wires incoming role t next) : next.Abreast incoming c role.other := by
  obtain ⟨sender, receiver⟩ := step.ciphers_other
  obtain ⟨frames, opened⟩ := step.frames_other
  rw [Abreast, role.other_other] at abreast ⊢
  rw [sender, receiver, frames, opened]
  exact abreast.elsewhere (step.stream_other honest)

theorem abreast_of_reached (honest : wires.Honest incoming) {peer : Role → PublicKey} {w : ω}
    (empty : ∀ role, incoming role w = some ⟨[], .quiet⟩)
    (reached : Reached wires incoming (start peer c w) t) (role : Role) : t.Abreast incoming c role := by
  induction reached generalizing role with
  | start =>
    have begun := InStep.start (c role) (empty role.other)
    simpa [Abreast, start, Connection.ofCiphers] using begun
  | @step t next direction _ step ih =>
    exact direction.both ((ih direction).step honest step)
      ((ih direction.other).step_other honest step) role

/-- The four ciphers of two connections. Whatever is sent, written and received in either direction, the
sender of a direction is two units further for each of its frames, and the receiver two for each frame that
it has opened and one for an opened header; where nothing lies between them they are alike. A step in one
direction leaves the ciphers of the other as they are: this part holds by construction of `Traffic.sends` and
`Traffic.receives`, as the two halves of a connection share no cipher. -/
theorem lockstep (honest : wires.Honest incoming) {peer : Role → PublicKey} {w : ω}
    (empty : ∀ role, incoming role w = some ⟨[], .quiet⟩)
    (reached : Reached wires incoming (start peer c w) t) (role : Role) :
    Lockstep (incoming role.other) (c role) (t.connection role).sender (t.connection role.other).receiver
        (t.frames role) (t.opened role.other) t.world ∧
      ∀ next, Step wires incoming role t next →
        (next.connection role.other).sender.cipher = (t.connection role.other).sender.cipher ∧
          (next.connection role).receiver.cipher = (t.connection role).receiver.cipher := by
  refine ⟨(abreast_of_reached honest empty reached role).counted, fun next step => ?_⟩
  obtain ⟨sender, receiver⟩ := step.ciphers_other
  rw [sender, receiver]
  exact ⟨rfl, rfl⟩

/-- The dialer sends one byte, the listener receives it, and sends nothing itself. -/
theorem lockstep_of_one_byte :
    let c : Role → CipherState := fun _ => .start (.zero 32) (.zero 32)
    let pipe : Role → Nat := Role.choose 0 1
    let incoming : Role → Memory.Fabric → Option Tape := fun role f => f.reliable? (pipe role.other)
    let wires := Memory.Fabric.wires pipe fun _ => .caller
    let f : Memory.Fabric := { pipes := #[{ channel := {} }, { channel := {} }] }
    let peer : PublicKey := PrivateKey.publicKey ⟨1, by decide, by decide⟩
    wires.Honest incoming ∧ (∀ role, incoming role f = some ⟨[], .quiet⟩) ∧
    ∃ t, Reached wires incoming (start (fun _ => peer) c f) t ∧ t.opened .listener = [[7]] ∧
      (t.connection .dialer).sender.cipher.position = 2 ∧
      (t.connection .listener).receiver.cipher = (t.connection .dialer).sender.cipher ∧
      (t.connection .listener).sender.cipher.position = 0 ∧
      (t.connection .dialer).sender.cipher.generation = 0 := by
  intro c pipe incoming wires f peer
  have apart : wires.Apart none incoming := Memory.Fabric.apart_wires (by decide) _
  have empty : ∀ role, incoming role f = some ⟨[], .quiet⟩ := by
    rintro (_ | _) <;> exact Memory.Fabric.reliable?_of_fresh (by decide) rfl
  have fits : ([7] : Bytes).length ≤ maxPayloadLength := by decide
  obtain ⟨frame, next, framed⟩ := (c .dialer).frame_of_length fits
  obtain ⟨after, taken, there, -⟩ := apart.sent .dialer (empty .listener) rfl frame (by simp)
  have sent : Reached wires incoming (start (fun _ => peer) c f)
      ((start (fun _ => peer) c f).sends .dialer (.start next) [[7]] after) :=
    .step .start (.send (Sender.send_of_taken fits framed taken))
  obtain ⟨answer, receiver, world, made⟩ : ∃ answer receiver world,
      (Receiver.start (c .dialer)).attempt (wires.source .listener) .receive after =
        (answer, receiver, world) := ⟨_, _, _, rfl⟩
  have reached := Reached.step sent (show Step wires incoming .dialer _ _ from .attempt made)
  obtain ⟨dialer, -⟩ := lockstep apart.honest empty reached .dialer
  obtain ⟨listener, -⟩ := lockstep apart.honest empty reached .listener
  have faces : Faces (incoming .listener) (c .dialer) next [[7]] .quiet (.start (c .dialer)) after := by
    refine Receiver.faces_between (.cons framed .nil) (by simpa using fits) ?_ []
    rw [List.append_nil]
    exact there
  have opened := faces.opened_receive (apart.hands .listener) (apart.prompt .listener) rfl
  refine ⟨apart.honest, empty, _, reached, opened, dialer.sender.2, ?_, listener.sender.2, ?_⟩
  · exact (dialer.drained _ (dialer.complete opened)).2.2
  · rw [dialer.rotated _ _ rfl]
    simp [start]

end Traffic
end NoiseLink
