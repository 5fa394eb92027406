import NoiseLink.Proofs.Link.Honest

/-! A sender whose sink fails it, or is given up while it stalls, in the middle of whatever it was
given. What the sink has taken by then is whole frames and at most the beginning of one more, and
nothing is ever put behind that beginning. -/
namespace NoiseLink

variable {ω : Type} {sink : Sink ω} {taken : ω → Bytes}

/-- What a sink has taken, whatever becomes of its calls. One that it answers for it has taken whole, of
any other some first part, and closing adds nothing. -/
structure Sink.Takes (sink : Sink ω) (taken : ω → Bytes) : Prop where
  whole : ∀ {bytes w after}, sink.send bytes w = (.ready (.ok ()), after) →
    taken after = taken w ++ bytes
  part : ∀ {bytes w answer after}, sink.send bytes w = (answer, after) →
    ∃ piece, piece <+: bytes ∧ taken after = taken w ++ piece
  close : ∀ w, taken (sink.close w).2 = taken w

/-- Whole frames of some payloads on a wire and, if there is a next payload, a beginning of its frame,
which may be empty but is not all of it. -/
inductive CipherState.Cut (c : CipherState) : List Bytes → Option Bytes → Bytes → Prop where
  | whole {sent wire last} : c.Frames sent wire last → Cut c sent none wire
  | begun {sent wire last next frame final piece} : c.Frames sent wire last →
      last.frame next = (.ok frame, final) → piece <+: frame → piece ≠ frame →
      Cut c sent (some next) (wire ++ piece)

theorem CipherState.cut_of_prefix {c last final : CipherState} {sent : List Bytes}
    {next wire frame piece : Bytes} (frames : c.Frames sent wire last)
    (framed : last.frame next = (.ok frame, final)) (begins : piece <+: frame) :
    c.Cut (sent ++ [next]) none (wire ++ piece) ∨ c.Cut sent (some next) (wire ++ piece) := by
  by_cases complete : piece = frame
  · subst complete
    have last := frames.append (.cons framed .nil)
    rw [List.append_nil] at last
    exact .inl (.whole last)
  · exact .inr (.begun frames framed begins complete)

def Poll.discard : Poll (Except ε α) → Poll (Except ε Unit)
  | ready answer => ready (answer.map fun _ => ())
  | pending => pending

namespace Sender

inductive Request where
  | send (message : Bytes)
  | write (bytes : Bytes)
  | close

namespace Request

def bytes : Request → Bytes
  | send message => message
  | write bytes => bytes
  | close => []

/-- The frames that a call is to make. A message that does not fit into one makes none. -/
def payloads : Request → List Bytes
  | send message => if message.length ≤ maxPayloadLength then [message] else []
  | write bytes => Bytes.chunks maxPayloadLength bytes
  | close => []

def Carries (request : Request) : Prop := request.payloads ≠ []

theorem flatten_payloads_prefix (request : Request) :
    request.payloads.flatten <+: request.bytes := by
  cases request with
  | send message =>
    rw [payloads]
    split
    · simp [bytes]
    · simp
  | write bytes =>
    rw [payloads, Bytes.flatten_chunks]
    exact List.prefix_rfl
  | close => exact List.prefix_rfl

theorem length_of_mem_payloads {request : Request} {payload : Bytes}
    (member : payload ∈ request.payloads) : payload.length ≤ maxPayloadLength := by
  cases request with
  | send message =>
    rw [payloads] at member
    split at member
    · rwa [List.mem_singleton.1 member]
    · simp at member
  | write bytes => exact Bytes.length_of_mem_chunks (by decide) member
  | close => simp [payloads] at member

end Request

/-- One call. A call that has to wait is given up. -/
def call (sink : Sink ω) (request : Request) (s : Sender) (w : ω) :
    Poll (Except Error Unit) × Sender × ω :=
  match request with
  | .send message => s.send sink message w
  | .write bytes => ((s.write sink bytes w).1.discard, (s.write sink bytes w).2)
  | .close => s.close sink w

/-- A call that was made, and the worlds before and after it. -/
structure Handled (ω : Type) where
  request : Request
  before : ω
  answer : Poll (Except Error Unit)
  after : ω

namespace Handled

/-- The frames that a call says were sent. -/
def confirmed (h : Handled ω) : List Bytes :=
  if h.answer = .ready (.ok ()) then h.request.payloads else []

/-- Whether a call is the last that can send anything: the sink failed or was given up, or it was
closed. -/
def Final (h : Handled ω) : Prop :=
  h.request = .close ∨ h.answer = .pending ∨ ∃ cause, h.answer = .ready (.error (.network cause))

end Handled

def serve (sink : Sink ω) : List Request → Sender → ω → List (Handled ω) × Sender × ω
  | [], s, w => ([], s, w)
  | request :: requests, s, w =>
    let (answer, next, after) := s.call sink request w
    let (handled, last) := serve sink requests next after
    (⟨request, w, answer, after⟩ :: handled, last)

theorem serve_cons {request : Request} {requests : List Request} {s next : Sender} {w after : ω}
    {answer : Poll (Except Error Unit)} (h : s.call sink request w = (answer, next, after)) :
    serve sink (request :: requests) s w =
      (⟨request, w, answer, after⟩ :: (serve sink requests next after).1,
        (serve sink requests next after).2) := by
  rw [serve, h]

theorem requests_serve (sink : Sink ω) (requests : List Request) (s : Sender) (w : ω) :
    (serve sink requests s w).1.map Handled.request = requests := by
  induction requests generalizing s w with
  | nil => rfl
  | cons request requests ih => exact congrArg (request :: ·) (ih _ _)

/-- What sending some frames may come to for a sender that can go on: all of them are sent, or the sink
breaks off in one of them. -/
inductive Sending (taken : ω → Bytes) (c : CipherState) (payloads : List Bytes) (w : ω) :
    Poll (Except Error Unit) × Sender × ω → Prop where
  | all {wire last after} : c.Frames payloads wire last → taken after = taken w ++ wire →
      Sending taken c payloads w (.ready (.ok ()), start last, after)
  | cut {sent next rest wire last frame final piece answer after} :
      payloads = sent ++ next :: rest → c.Frames sent wire last →
      last.frame next = (.ok frame, final) → piece <+: frame →
      taken after = taken w ++ (wire ++ piece) →
      (answer = .pending ∨ ∃ cause, answer = .ready (.error (.network cause))) →
      Sending taken c payloads w (answer, ⟨final, true⟩, after)

/-- A frame is sent whole, or the sink breaks off in it. -/
theorem sendFrame_sending (takes : sink.Takes taken) (c : CipherState) {payload : Bytes}
    (fits : payload.length ≤ maxPayloadLength) (w : ω) :
    Sending taken c [payload] w ((start c).sendFrame sink payload w) := by
  obtain ⟨frame, final, framed⟩ := c.frame_of_length fits
  have live : (start c).terminated = false := rfl
  have place : (start c).cipher.frame payload = (.ok frame, final) := framed
  have alone : [payload] = [] ++ payload :: [] := rfl
  rw [sendFrame, live]
  simp only [Bool.false_eq_true, if_false, place]
  split
  · rename_i after sent
    have frames : c.Frames [payload] (frame ++ []) final := .cons framed .nil
    rw [List.append_nil] at frames
    exact .all frames (takes.whole sent)
  · rename_i cause after sent
    obtain ⟨piece, begins, grown⟩ := takes.part sent
    exact .cut alone .nil framed begins grown (.inr ⟨cause, rfl⟩)
  · rename_i after sent
    obtain ⟨piece, begins, grown⟩ := takes.part sent
    exact .cut alone .nil framed begins grown (.inl rfl)

theorem sendFrames_sending (takes : sink.Takes taken) (c : CipherState) {payloads : List Bytes}
    (fit : ∀ payload ∈ payloads, payload.length ≤ maxPayloadLength) (w : ω) :
    Sending taken c payloads w (sendFrames sink payloads (start c) w) := by
  induction payloads generalizing c w with
  | nil => exact .all .nil (List.append_nil _).symm
  | cons payload payloads ih =>
    obtain ⟨fits, others⟩ := List.forall_mem_cons.1 fit
    have first := sendFrame_sending takes c fits w
    rw [sendFrames]
    generalize (start c).sendFrame sink payload w = result at first ⊢
    cases first with
    | @all wire middle between frames grown =>
      have rest := ih middle others between
      change Sending taken c (payload :: payloads) w (sendFrames sink payloads (start middle) between)
      generalize sendFrames sink payloads (start middle) between = result at rest ⊢
      cases rest with
      | all tail more =>
        refine .all (frames.append tail) ?_
        rw [more, grown, List.append_assoc]
      | @cut sent next left more last frame final piece _ _ split tail framed begins further broken =>
        have rest : payload :: payloads = (payload :: sent) ++ next :: left := by rw [split]; rfl
        refine .cut rest (frames.append tail) framed begins ?_ broken
        rw [further, grown, List.append_assoc, List.append_assoc]
    | @cut sent next left wire last frame final piece answer between split frames framed begins grown
        broken =>
      have alone : sent = [] ∧ next = payload ∧ left = [] := by
        cases sent with
        | nil => cases split; exact ⟨rfl, rfl, rfl⟩
        | cons head tail => simp at split
      obtain ⟨rfl, rfl, rfl⟩ := alone
      cases frames with
      | nil =>
        have here : next :: payloads = [] ++ next :: payloads := rfl
        rcases broken with rfl | ⟨cause, rfl⟩
        · exact .cut here .nil framed begins grown (.inl rfl)
        · exact .cut here .nil framed begins grown (.inr ⟨cause, rfl⟩)

inductive Calling (taken : ω → Bytes) (c : CipherState) (request : Request) (w : ω) :
    Poll (Except Error Unit) × Sender × ω → Prop where
  | sends {result} : request ≠ .close → Sending taken c request.payloads w result →
      Calling taken c request w result
  | refuses {length} : request.payloads = [] → request ≠ .close →
      Calling taken c request w (.ready (.error (.messageTooLarge length)), start c, w)
  | closes {answer after} : request = .close → taken after = taken w →
      Calling taken c request w (answer, ⟨c, true⟩, after)

theorem close_halts (takes : sink.Takes taken) (s : Sender) (w : ω) : ∃ answer after,
    s.close sink w = (answer, ⟨s.cipher, true⟩, after) ∧ taken after = taken w := by
  have same := takes.close w
  rw [close]
  split
  · rename_i after closed
    rw [closed] at same
    exact ⟨_, after, rfl, same⟩
  · rename_i cause after closed
    rw [closed] at same
    exact ⟨_, after, rfl, same⟩
  · rename_i after closed
    rw [closed] at same
    exact ⟨_, after, rfl, same⟩

theorem write_discard (sink : Sink ω) (bytes : Bytes) (s : Sender) (w : ω) :
    s.call sink (.write bytes) w = sendFrames sink (Bytes.chunks maxPayloadLength bytes) s w := by
  rw [call, write]
  split <;> rename_i sent <;> exact sent.symm

theorem call_calling (takes : sink.Takes taken) (c : CipherState) (request : Request) (w : ω) :
    Calling taken c request w ((start c).call sink request w) := by
  cases request with
  | send message =>
    rw [call, send]
    by_cases fits : message.length ≤ maxPayloadLength
    · have alone : (Request.send message).payloads = [message] := by rw [Request.payloads, if_pos fits]
      rw [if_neg (by omega)]
      exact .sends (by simp) (by rw [alone]; exact sendFrame_sending takes c fits w)
    · rw [if_pos (by omega)]
      exact .refuses (by rw [Request.payloads, if_neg fits]) (by simp)
  | write bytes =>
    rw [write_discard]
    exact .sends (by simp) (sendFrames_sending takes c (fun _ => Request.length_of_mem_payloads) w)
  | close =>
    obtain ⟨answer, after, closed, same⟩ := close_halts takes (start c) w
    rw [call, closed]
    exact .closes rfl same

/-- A sender that was closed or broken off sends nothing, and refuses what could be sent. -/
theorem call_halted (takes : sink.Takes taken) {s : Sender} (halted : s.terminated = true)
    (request : Request) (w : ω) : ∃ answer after, s.call sink request w = (answer, s, after) ∧
      taken after = taken w ∧ (request.Carries → answer = .ready (.error .terminated)) ∧
      (answer = .ready (.ok ()) → request.payloads = []) := by
  have stays payload : s.sendFrame sink payload w = (.ready (.error .terminated), s, w) := by
    rw [sendFrame, if_pos halted]
  have refused (error : Error) : Poll.ready (Except.error error) ≠ Poll.ready (Except.ok ()) := by simp
  cases request with
  | send message =>
    rw [call, send]
    by_cases fits : message.length ≤ maxPayloadLength
    · rw [if_neg (by omega), stays]
      exact ⟨_, w, rfl, rfl, fun _ => rfl, fun sent => absurd sent (refused _)⟩
    · rw [if_pos (by omega)]
      have nothing : (Request.send message).payloads = [] := by rw [Request.payloads, if_neg fits]
      exact ⟨_, w, rfl, rfl, fun carries => absurd nothing carries,
        fun sent => absurd sent (refused _)⟩
  | write bytes =>
    rw [write_discard]
    cases pieces : Bytes.chunks maxPayloadLength bytes with
    | nil => exact ⟨_, w, rfl, rfl, fun carries => absurd pieces carries, fun _ => pieces⟩
    | cons payload payloads =>
      rw [sendFrames, stays]
      exact ⟨_, w, rfl, rfl, fun _ => rfl, fun sent => absurd sent (refused _)⟩
  | close =>
    obtain ⟨answer, after, closed, same⟩ := close_halts takes s w
    have unchanged : (⟨s.cipher, true⟩ : Sender) = s := by rw [← halted]
    rw [unchanged] at closed
    exact ⟨answer, after, closed, same, fun carries => absurd rfl carries, fun _ => rfl⟩

/-- A call of a sender that began with the cipher `c`: the frames that came whole during the call carry
the first of its bytes, and all of them if it succeeded. -/
def Handled.Sound (taken : ω → Bytes) (c : CipherState) (h : Handled ω) : Prop :=
  ∃ sent next arrived later, c.Cut sent next (taken h.before) ∧
    c.Cut (sent ++ arrived) later (taken h.after) ∧ arrived.flatten <+: h.request.bytes ∧
    (h.answer = .ready (.ok ()) → arrived = h.request.payloads)

/-- What the calls of a run leave on the wire of a sender that began with the cipher `c` and had sent
some frames before. -/
structure Left (taken : ω → Bytes) (c : CipherState) (before asked : List Bytes)
    (handled : List (Handled ω)) (after : ω) : Prop where
  cut : ∃ arrived next, c.Cut (before ++ arrived) next (taken after) ∧
    arrived ++ next.toList <+: asked ∧ handled.flatMap Handled.confirmed <+: arrived
  sound : ∀ h ∈ handled, h.Sound taken c
  final : ∀ earlier h later, handled = earlier ++ h :: later → h.Final →
    ∀ g ∈ later, taken g.after = taken h.after ∧
      (g.request.Carries → g.answer = .ready (.error .terminated))

/-- A sender that has come to its end leaves the wire as it is. -/
theorem serve_halted (takes : sink.Takes taken) {c : CipherState} {sent : List Bytes}
    {next : Option Bytes} {s : Sender} (halted : s.terminated = true) {w : ω}
    (cut : c.Cut sent next (taken w)) (requests : List Request) :
    ∃ handled after, serve sink requests s w = (handled, s, after) ∧ taken after = taken w ∧
      handled.flatMap Handled.confirmed = [] ∧ ∀ h ∈ handled, h.Sound taken c ∧
        taken h.after = taken w ∧ (h.request.Carries → h.answer = .ready (.error .terminated)) := by
  induction requests generalizing w with
  | nil => exact ⟨[], w, rfl, rfl, rfl, nofun⟩
  | cons request requests ih =>
    obtain ⟨answer, between, called, same, refused, empty⟩ := call_halted takes halted request w
    obtain ⟨handled, after, served, unchanged, nothing, each⟩ := ih (w := between) (same ▸ cut)
    rw [serve_cons called, served]
    refine ⟨_, after, rfl, unchanged.trans same, ?_, List.forall_mem_cons.2 ⟨⟨?_, same, refused⟩, ?_⟩⟩
    · rw [List.flatMap_cons, nothing, List.append_nil, Handled.confirmed]
      split
      · rename_i succeeded
        exact empty succeeded
      · rfl
    · refine ⟨sent, next, [], next, cut, ?_, List.nil_prefix, fun succeeded => (empty succeeded).symm⟩
      rw [List.append_nil, same]
      exact cut
    · intro h member
      obtain ⟨sound, still, refused⟩ := each h member
      exact ⟨sound, still.trans same, refused⟩

/-- After a call that cannot be followed by any other, the wire stays as the call left it. -/
theorem Left.of_halted (takes : sink.Takes taken) {c : CipherState} {before arrived : List Bytes}
    {next : Option Bytes} {h : Handled ω} {s : Sender} (halted : s.terminated = true)
    (cut : c.Cut (before ++ arrived) next (taken h.after))
    (begins : arrived ++ next.toList <+: h.request.payloads) (sound : h.Sound taken c)
    (confirmed : h.confirmed = []) (requests : List Request) :
    ∃ handled after, serve sink requests s h.after = (handled, s, after) ∧
      Left taken c before (h.request.payloads ++ requests.flatMap Request.payloads) (h :: handled)
        after := by
  obtain ⟨handled, after, served, same, nothing, each⟩ := serve_halted takes halted cut requests
  refine ⟨handled, after, served, ⟨arrived, next, same ▸ cut, ?_, ?_⟩, ?_, ?_⟩
  · exact begins.trans (List.prefix_append ..)
  · rw [List.flatMap_cons, confirmed, nothing]
    exact List.nil_prefix
  · exact List.forall_mem_cons.2 ⟨sound, fun g member => (each g member).1⟩
  · intro earlier f later split final g member
    cases earlier with
    | nil =>
      cases split
      exact (each g member).2
    | cons first earlier =>
      obtain ⟨-, rfl⟩ := List.cons.inj split
      have there := (each f (List.mem_append_right _ List.mem_cons_self)).2.1
      obtain ⟨-, here, refused⟩ :=
        each g (List.mem_append_right _ (List.mem_cons_of_mem _ member))
      exact ⟨here.trans there.symm, refused⟩

/-- A call that succeeds, or is refused before anything is sent, is followed by any others. -/
theorem Left.after {c : CipherState} {before asked : List Bytes} {h : Handled ω}
    {handled : List (Handled ω)} {after : ω} (sound : h.Sound taken c) (open' : ¬ h.Final)
    (confirmed : h.confirmed = h.request.payloads)
    (left : Left taken c (before ++ h.request.payloads) asked handled after) :
    Left taken c before (h.request.payloads ++ asked) (h :: handled) after := by
  obtain ⟨⟨arrived, next, cut, begins, kept⟩, each, final⟩ := left
  refine ⟨⟨h.request.payloads ++ arrived, next, ?_, ?_, ?_⟩, ?_, ?_⟩
  · rw [← List.append_assoc]
    exact cut
  · rw [List.append_assoc]
    exact (List.prefix_append_right_inj _).2 begins
  · rw [List.flatMap_cons, confirmed]
    exact (List.prefix_append_right_inj _).2 kept
  · exact List.forall_mem_cons.2 ⟨sound, each⟩
  · intro earlier f later split ends
    cases earlier with
    | nil =>
      cases split
      exact absurd ends open'
    | cons first earlier =>
      obtain ⟨-, rest⟩ := List.cons.inj split
      exact final earlier f later rest ends

theorem serve_left (takes : sink.Takes taken) {c place : CipherState} {before : List Bytes} {w : ω}
    (frames : c.Frames before (taken w) place) (requests : List Request) :
    ∃ handled s after, serve sink requests (start place) w = (handled, s, after) ∧
      Left taken c before (requests.flatMap Request.payloads) handled after := by
  induction requests generalizing place before w with
  | nil =>
    refine ⟨[], start place, w, rfl, ⟨[], none, ?_, List.prefix_rfl, List.prefix_rfl⟩, nofun, ?_⟩
    · rw [List.append_nil]
      exact .whole frames
    · intro earlier h later split
      simp at split
  | cons request requests ih =>
    have calling := call_calling takes place request w
    generalize made : (start place).call sink request w = result at calling
    rw [List.flatMap_cons]
    cases calling with
    | sends opened sending =>
      cases sending with
      | @all wire last between sent grown =>
        have further := frames.append sent
        rw [← grown] at further
        obtain ⟨handled, s, after, served, left⟩ := ih further
        refine ⟨_, s, after, by rw [serve_cons made, served],
          Left.after (h := ⟨request, w, _, between⟩) ?_ ?_ (if_pos rfl) left⟩
        · exact ⟨before, none, request.payloads, none, .whole frames, .whole further,
            request.flatten_payloads_prefix, fun _ => rfl⟩
        · rintro (closed | waits | ⟨cause, failed⟩)
          · exact opened closed
          · cases waits
          · cases failed
      | @cut sent next rest wire last frame final piece answer between split begun framed begins
          grown broken =>
        have failed : answer ≠ .ready (.ok ()) := by
          rcases broken with rfl | ⟨cause, rfl⟩ <;> simp
        have none : (⟨request, w, answer, between⟩ : Handled ω).confirmed = [] := if_neg failed
        have carried : sent.flatten <+: request.bytes ∧ (sent ++ [next]).flatten <+: request.bytes := by
          have whole := request.flatten_payloads_prefix
          rw [split, List.append_cons, List.flatten_append] at whole
          have both := (List.prefix_append ..).trans whole
          refine ⟨?_, both⟩
          rw [List.flatten_append] at both
          exact (List.prefix_append ..).trans both
        have arrives := CipherState.cut_of_prefix (frames.append begun) framed begins
        rw [List.append_assoc (taken w), ← grown, List.append_assoc] at arrives
        rcases arrives with whole | part
        · obtain ⟨handled, after, served, left⟩ := Left.of_halted takes
            (h := ⟨request, w, answer, between⟩) (s := ⟨final, true⟩) rfl whole
            (by simp [split])
            ⟨before, .none, sent ++ [next], .none, .whole frames, whole, carried.2,
              fun succeeded => absurd succeeded failed⟩ none requests
          exact ⟨_, _, after, by rw [serve_cons made, served], left⟩
        · obtain ⟨handled, after, served, left⟩ := Left.of_halted takes
            (h := ⟨request, w, answer, between⟩) (s := ⟨final, true⟩) rfl part
            (by simp [split])
            ⟨before, .none, sent, some next, .whole frames, part, carried.1,
              fun succeeded => absurd succeeded failed⟩ none requests
          exact ⟨_, _, after, by rw [serve_cons made, served], left⟩
    | @refuses length empty opened =>
      obtain ⟨handled, s, after, served, left⟩ := ih frames
      refine ⟨_, s, after, by rw [serve_cons made, served], Left.after
        (h := ⟨request, w, .ready (.error (.messageTooLarge length)), w⟩) ?_ ?_ ?_ ?_⟩
      · refine ⟨before, none, [], none, .whole frames, ?_, List.nil_prefix, fun _ => empty.symm⟩
        rw [List.append_nil]
        exact .whole frames
      · rintro (closed | waits | ⟨cause, failed⟩)
        · exact opened closed
        · cases waits
        · cases failed
      · rw [empty]
        exact if_neg (by simp)
      · rw [empty, List.append_nil]
        exact left
    | @closes answer between closed same =>
      subst closed
      have whole : c.Cut (before ++ []) none (taken between) := by
        rw [List.append_nil, same]
        exact .whole frames
      obtain ⟨handled, after, served, left⟩ := Left.of_halted takes
        (h := ⟨.close, w, answer, between⟩) (s := ⟨place, true⟩) rfl whole List.prefix_rfl
        ⟨before, none, [], none, .whole frames, whole, List.nil_prefix, fun _ => rfl⟩
        (by simp [Handled.confirmed, Request.payloads]) requests
      exact ⟨_, _, after, by rw [serve_cons made, served], left⟩

end Sender
end NoiseLink
