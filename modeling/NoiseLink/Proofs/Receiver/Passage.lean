import NoiseLink.Proofs.Receiver.Cut

/-! The frames that an attempt takes from its stream. A call opens frames one after the other until it has
something to hand out or there is no next one for now. What it answers is told by what was left over
before and by the payloads that it has opened. -/
namespace NoiseLink

namespace Call

/-- The part of a payload that a call hands out, and the part that it leaves over. -/
def split : Call → Bytes → Bytes × Bytes
  | .receive, payload => (payload, [])
  | .read size, payload => (payload.take size, payload.drop size)

/-- What a call gets out of some payloads: the bytes that it hands out, what it leaves over, and the
payloads that it does not come to. One that reads passes over payloads that are empty. -/
def draw (call : Call) : List Bytes → Option (Bytes × Bytes × List Bytes)
  | [] => none
  | payload :: payloads =>
    if call = .receive ∨ payload ≠ [] then
      some ((call.split payload).1, (call.split payload).2, payloads)
    else call.draw payloads

def serve (call : Call) (residual : Bytes) (payloads : List Bytes) :
    Option (Bytes × Bytes × List Bytes) :=
  if call = .read 0 ∨ residual ≠ [] then
    some ((call.split residual).1, (call.split residual).2, payloads)
  else call.draw payloads

def unpaid (call : Call) : Poll (Except Error (Option Bytes)) → Poll (Except Error Bytes)
  | .pending => .pending
  | .ready (.ok _) => .ready call.atEnd
  | .ready (.error error) => .ready (.error error)

/-- The answer of a half that has failed. Who asks for no bytes is given them all the same. -/
def refused (error : Error) : Call → Except Error Bytes
  | .read 0 => .ok []
  | _ => .error error

@[simp] theorem split_append (call : Call) (payload : Bytes) :
    (call.split payload).1 ++ (call.split payload).2 = payload := by
  cases call with
  | receive => exact List.append_nil payload
  | read size => exact List.take_append_drop size payload

variable {call : Call} {residual bytes left : Bytes} {payloads rest : List Bytes}

theorem draw_append (drawn : call.draw payloads = some (bytes, left, rest)) (others : List Bytes) :
    call.draw (payloads ++ others) = some (bytes, left, rest ++ others) := by
  induction payloads with
  | nil => cases drawn
  | cons payload payloads ih =>
    rw [draw] at drawn
    rw [List.cons_append, draw]
    split at drawn
    · rename_i content
      cases drawn
      exact if_pos content
    · rename_i content
      rw [if_neg content]
      exact ih drawn

/-- Payloads that a call does not stop at make no difference to what it gets. -/
theorem draw_append_of_none (nothing : call.draw payloads = none) (others : List Bytes) :
    call.draw (payloads ++ others) = call.draw others := by
  induction payloads with
  | nil => rfl
  | cons payload payloads ih =>
    rw [draw] at nothing
    split at nothing
    · cases nothing
    · rename_i content
      rw [List.cons_append, draw, if_neg content]
      exact ih nothing

theorem empty_of_draw (nothing : call.draw payloads = none) :
    (∀ payload ∈ payloads, payload = []) ∧ (call = .receive → payloads = []) := by
  induction payloads with
  | nil => exact ⟨nofun, fun _ => rfl⟩
  | cons payload payloads ih =>
    rw [draw] at nothing
    split at nothing
    · cases nothing
    · rename_i content
      obtain ⟨reads, empty⟩ := not_or.1 content
      exact ⟨List.forall_mem_cons.2 ⟨not_not.1 empty, (ih nothing).1⟩,
        fun receives => absurd receives reads⟩

theorem flatten_of_draw (drawn : call.draw payloads = some (bytes, left, [])) :
    payloads.flatten = bytes ++ left := by
  induction payloads with
  | nil => cases drawn
  | cons payload payloads ih =>
    rw [draw] at drawn
    split at drawn
    · cases drawn
      simp
    · rename_i content
      rw [List.flatten_cons, ih drawn, not_not.1 (not_or.1 content).2, List.nil_append]

theorem serve_append (served : call.serve residual payloads = some (bytes, left, rest))
    (others : List Bytes) :
    call.serve residual (payloads ++ others) = some (bytes, left, rest ++ others) := by
  rw [serve] at served ⊢
  split at served
  · rename_i content
    cases served
    exact if_pos content
  · rename_i content
    rw [if_neg content]
    exact draw_append served others

theorem serve_eq_none_iff : call.serve residual payloads = none ↔
    (residual = [] ∧ call ≠ .read 0) ∧ call.draw payloads = none := by
  rw [serve]
  split
  · rename_i content
    simp only [reduceCtorEq, false_iff, not_and]
    rintro ⟨clear, asks⟩
    exact absurd content (not_or.2 ⟨asks, not_not.2 clear⟩)
  · rename_i content
    obtain ⟨asks, clear⟩ := not_or.1 content
    exact (and_iff_right ⟨not_not.1 clear, asks⟩).symm

theorem serve_of_clear (clear : residual = []) (asks : call ≠ .read 0) (payloads : List Bytes) :
    call.serve residual payloads = call.draw payloads :=
  if_neg (not_or.2 ⟨asks, not_not.2 clear⟩)

theorem balance_of_serve (served : call.serve residual payloads = some (bytes, left, [])) :
    residual ++ payloads.flatten = bytes ++ left := by
  rw [serve] at served
  split at served
  · cases served
    simp
  · rename_i content
    rw [not_not.1 (not_or.1 content).2, flatten_of_draw served, List.nil_append]

end Call

namespace Receiver

variable {ω : Type} {source : Source ω} {tape : ω → Option Tape}

/-- The payloads of the frames that an attempt opens. -/
def opened (source : Source ω) (call : Call) (r : Receiver) (w : ω) : List Bytes :=
  if call = .read 0 ∨ r.residual ≠ [] then []
  else
    match _answer : r.nextFrame source w with
    | (.ready (.ok (some payload)), next, after) =>
      if call = .receive ∨ payload ≠ [] then [payload]
      else payload :: next.opened source call after
    | _ => []
termination_by 2 * source.supply w + r.underway
decreasing_by exact nextFrame_some _answer

inductive Opens (source : Source ω) : Receiver → ω → List Bytes → Receiver → ω → Prop where
  | nil {r w} : Opens source r w [] r w
  | cons {r w payload middle between payloads next after} :
      r.nextFrame source w = (.ready (.ok (some payload)), middle, between) →
      Opens source middle between payloads next after →
      Opens source r w (payload :: payloads) next after

/-- What an attempt comes to that opens some frames: it is served from what was left over or from the
last of them, or it finds no further frame. -/
inductive Passing (source : Source ω) (call : Call) (r : Receiver) (w : ω) (opened : List Bytes) :
    Poll (Except Error Bytes) × Receiver × ω → Prop where
  | pays {bytes left middle between} : Opens source r w opened middle between →
      call.serve r.residual opened = some (bytes, left, []) →
      Passing source call r w opened
        (.ready (.ok bytes), { middle with residual := left }, between)
  | unpaid {middle between found next after} : Opens source r w opened middle between →
      call.serve r.residual opened = none →
      middle.nextFrame source between = (found, next, after) →
      (∀ payload, found ≠ .ready (.ok (some payload))) →
      Passing source call r w opened (call.unpaid found, next, after)

/-- Both kinds of calls go through the frames alike. -/
theorem attempt_eq (source : Source ω) (call : Call) (r : Receiver) (w : ω) :
    r.attempt source call w =
      if call = .read 0 ∨ r.residual ≠ [] then
        (.ready (.ok (call.split r.residual).1), { r with residual := (call.split r.residual).2 }, w)
      else
        match r.nextFrame source w with
        | (.ready (.ok (some payload)), next, after) =>
          if call = .receive ∨ payload ≠ [] then
            (.ready (.ok (call.split payload).1), { next with residual := (call.split payload).2 },
              after)
          else next.attempt source call after
        | (found, next, after) => (call.unpaid found, next, after) := by
  cases call with
  | receive =>
    rw [attempt, receive]
    by_cases some : r.residual ≠ []
    · simp [some, Call.split]
    · have kept := nextFrame_residual source r w
      rw [if_neg some, if_neg (by simpa using some)]
      split <;> rename_i found
      · rw [found] at kept ⊢
        have clear := kept.trans (not_not.1 some)
        simp only [Call.split, true_or, if_true]
        rw [← clear]
      · rw [found]
        rfl
      · rw [found]
        rfl
      · rw [found]
        rfl
  | read size =>
    rw [attempt, read]
    by_cases zero : size = 0
    · subst zero
      simp [Call.split]
    · by_cases some : r.residual ≠ []
      · simp [zero, some, Call.split]
      · rw [if_neg zero, if_neg some, if_neg (by simpa using ⟨zero, not_not.1 some⟩)]
        split <;> rename_i found <;> rw [found]
        · simp [attempt]
        · rename_i payload _ _ filled
          exact (if_pos (.inr filled)).symm
        · rfl
        · rfl
        · rfl

theorem attempt_zero (source : Source ω) (r : Receiver) (w : ω) :
    r.attempt source (.read 0) w = (.ready (.ok []), r, w) := by
  rw [attempt, read, if_pos rfl]

/-- Both kinds of calls answer alike where there is no payload to hand out. -/
theorem attempt_of_nextFrame {r next : Receiver} (clear : r.residual = []) {call : Call}
    (asks : call ≠ .read 0) {w after : ω} {found : Poll (Except Error (Option Bytes))}
    (answer : r.nextFrame source w = (found, next, after))
    (unpaid : ∀ payload, found ≠ .ready (.ok (some payload))) :
    r.attempt source call w = (call.unpaid found, next, after) := by
  rw [attempt_eq, if_neg (not_or.2 ⟨asks, not_not.2 clear⟩), answer]
  split
  · rename_i same
    cases same
    exact absurd rfl (unpaid _)
  · rename_i same
    cases same
    rfl

theorem attempt_refused {r : Receiver} (halted : r.terminated = true) (clear : r.residual = [])
    (call : Call) (w : ω) :
    r.attempt source call w = (.ready (call.refused .terminated), r, w) := by
  by_cases asks : call = .read 0
  · subst asks
    exact attempt_zero source r w
  · have stays : r.nextFrame source w = (.ready (.error .terminated), r, w) := by
      rw [Receiver.nextFrame, if_pos halted]
    rw [attempt_of_nextFrame clear asks stays (by simp)]
    rcases call with _ | _ | size
    · rfl
    · exact absurd rfl asks
    · rfl

theorem Passing.behind_empty {call : Call} {r next : Receiver} {w after : ω} {payload : Bytes}
    {opened : List Bytes} {result : Poll (Except Error Bytes) × Receiver × ω} (clear : r.residual = [])
    (asks : call ≠ .read 0) (passes : ¬ (call = .receive ∨ payload ≠ []))
    (found : r.nextFrame source w = (.ready (.ok (some payload)), next, after))
    (passing : Passing source call next after opened result) :
    Passing source call r w (payload :: opened) result := by
  have kept := nextFrame_residual source r w
  rw [found] at kept
  have serves : call.serve r.residual (payload :: opened) = call.serve next.residual opened := by
    rw [Call.serve_of_clear clear asks, Call.serve_of_clear (kept.trans clear) asks, Call.draw,
      if_neg passes]
  cases passing with
  | pays opens served => exact .pays (.cons found opens) (serves.trans served)
  | unpaid opens nothing last end' => exact .unpaid (.cons found opens) (serves.trans nothing) last end'

theorem attempt_passing (source : Source ω) (call : Call) (r : Receiver) (w : ω) :
    Passing source call r w (r.opened source call w) (r.attempt source call w) := by
  fun_induction opened source call r w with
  | case1 r w content =>
    rw [attempt_eq, if_pos content]
    exact .pays .nil (if_pos content)
  | case2 r w content payload next after found filled =>
    rw [attempt_eq, if_neg content, found]
    simp only [if_pos filled]
    refine .pays (.cons found .nil) ?_
    rw [Call.serve, if_neg content, Call.draw, if_pos filled]
  | case3 r w content payload next after found passes ih =>
    rw [attempt_eq, if_neg content, found]
    simp only [if_neg passes]
    obtain ⟨asks, clear⟩ := not_or.1 content
    exact ih.behind_empty (not_not.1 clear) asks passes found
  | case4 r w content other =>
    obtain ⟨asks, clear⟩ := not_or.1 content
    generalize found : r.nextFrame source w = result at other
    obtain ⟨answer, next, after⟩ := result
    have unpaid payload : answer ≠ .ready (.ok (some payload)) := by
      rintro rfl
      exact other _ _ _ rfl
    rw [attempt_of_nextFrame (not_not.1 clear) asks found unpaid]
    refine .unpaid .nil ?_ found unpaid
    rw [Call.serve, if_neg content, Call.draw]

theorem readBody_terminated (source : Source ω) (r : Receiver) (length : Nat) (got : Array UInt8)
    (w : ω) : (r.readBody source length got w).2.1.terminated = r.terminated := by
  rw [readBody]
  split
  · rfl
  · rfl
  · rfl
  · split <;> rfl

theorem readFrame_terminated (source : Source ω) (r : Receiver) (w : ω) :
    (r.readFrame source w).2.1.terminated = r.terminated := by
  rw [readFrame]
  split
  · exact readBody_terminated ..
  · split
    · rfl
    · rfl
    · simp only
      split <;> rfl
    · split
      · exact readBody_terminated ..
      · rfl
      · rfl

theorem alive_of_nextFrame {r next : Receiver} {w after : ω} {frame : Option Bytes}
    (found : r.nextFrame source w = (.ready (.ok frame), next, after)) :
    r.terminated = false ∧ next.terminated = false := by
  have alive : r.terminated = false := by
    rw [nextFrame] at found
    split at found
    · simp at found
    · rename_i live
      exact Bool.eq_false_iff.2 live
  have kept := readFrame_terminated source r w
  rw [(nextFrame_ok_iff alive).1 found] at kept
  exact ⟨alive, kept.trans alive⟩

theorem Opens.residual {r next : Receiver} {w after : ω} {opened : List Bytes}
    (opens : Opens source r w opened next after) : next.residual = r.residual := by
  induction opens with
  | nil => rfl
  | @cons r w _ _ _ _ _ _ found _ ih =>
    have kept := nextFrame_residual source r w
    rw [found] at kept
    exact ih.trans kept

/-- A receiver that has failed had failed before, and has opened nothing. -/
theorem Opens.of_terminated {r next : Receiver} {w after : ω} {opened : List Bytes}
    (opens : Opens source r w opened next after) (halted : next.terminated = true) :
    opened = [] ∧ next = r := by
  induction opens with
  | nil => exact ⟨rfl, rfl⟩
  | cons found _ ih =>
    obtain ⟨-, rfl⟩ := ih halted
    rw [(alive_of_nextFrame found).2] at halted
    cases halted

end Receiver

theorem Receiver.nextFrame_of_frame {c last : CipherState} {payload wire : Bytes}
    (fits : payload.length ≤ maxPayloadLength) (framed : c.frame payload = (.ok wire, last))
    (residual rest : Bytes) (ending : Ending) :
    (Receiver.between c residual).nextFrame Tape.source ⟨wire ++ rest, ending⟩ =
      (.ready (.ok (some payload)), Receiver.between last residual, ⟨rest, ending⟩) :=
  nextFrame_tape_some_iff.2 ⟨fits, wire, last, framed, rfl, rfl⟩

namespace CipherState

theorem ne_nil_of_frame {c last : CipherState} {payload wire : Bytes}
    (framed : c.frame payload = (.ok wire, last)) : wire ≠ [] := by
  rintro rfl
  have size := length_of_frame framed
  simp only [headerLength, lengthPrefixLength, List.length_nil] at size
  omega

/-- Of two lists of frames on the same bytes, the one that ends first is the beginning of the other. -/
theorem Frames.split {c middle last : CipherState} {first payloads : List Bytes} {wire bytes rest : Bytes}
    (begins : c.Frames first wire middle) (fit : ∀ payload ∈ first, payload.length ≤ maxPayloadLength)
    (frames : c.Frames payloads bytes last)
    (fits : ∀ payload ∈ payloads, payload.length ≤ maxPayloadLength) (same : bytes = wire ++ rest) :
    ∃ others, payloads = first ++ others ∧ middle.Frames others rest last := by
  induction begins generalizing payloads bytes with
  | nil =>
    rw [same] at frames
    exact ⟨payloads, rfl, frames⟩
  | @cons c next middle payload first wire tail framed begins ih =>
    obtain ⟨small, smaller⟩ := List.forall_mem_cons.1 fit
    rw [List.append_assoc] at same
    cases frames with
    | nil => exact absurd (List.append_eq_nil_iff.1 same.symm).1 (ne_nil_of_frame framed)
    | @cons _ _ _ _ _ head others genuine frames =>
      obtain ⟨large, larger⟩ := List.forall_mem_cons.1 fits
      have one := Receiver.nextFrame_of_frame small framed [] (tail ++ rest) .quiet
      have other := Receiver.nextFrame_of_frame large genuine [] others .quiet
      rw [same, one] at other
      cases other
      obtain ⟨remaining, rfl, left⟩ := ih smaller frames larger rfl
      exact ⟨remaining, rfl, left⟩

end CipherState

namespace Receiver

variable {ω : Type} {source : Source ω} {tape : ω → Option Tape}

/-- The frames that are opened are those that the tape begins with. -/
theorem Opens.frames (hands : source.Hands tape) {c : CipherState} {t : Tape} {r next : Receiver}
    {w after : ω} {opened : List Bytes} (opens : Opens source r w opened next after)
    (within : Within tape c t r w) :
    (∀ payload ∈ opened, payload.length ≤ maxPayloadLength) ∧
      ∃ wire last rest, c.Frames opened wire last ∧ t = rest.rewind wire ∧
        Within tape last rest next after := by
  induction opens generalizing c t with
  | nil => exact ⟨nofun, [], c, t, .nil, rfl, within⟩
  | cons found _ ih =>
    rcases within.nextFrame hands with
      ⟨_, _, _, waits, _⟩ | ⟨answer, _, _, rest, ready, left, reference⟩
    · rw [found] at waits
      cases waits
    · rw [found] at ready
      cases ready
      rw [rewound_eq within.alive] at reference
      obtain ⟨fits, wire, last, framed, rfl, rfl⟩ := nextFrame_tape_some_iff.1 reference
      obtain ⟨fit, tail, final, remaining, frames, rfl, kept⟩ := ih (within_between left)
      refine ⟨List.forall_mem_cons.2 ⟨fits, fit⟩, wire ++ tail, final, remaining,
        .cons framed frames, ?_, kept⟩
      rw [Tape.rewind_rewind]

/-- A live receiver that began its frame under the cipher `c` and has the frames of some payloads before
it, which lead to the cipher `last`. -/
structure Faces (tape : ω → Option Tape) (c last : CipherState) (payloads : List Bytes) (ending : Ending)
    (r : Receiver) (w : ω) : Prop where
  fit : ∀ payload ∈ payloads, payload.length ≤ maxPayloadLength
  place : ∃ wire, c.Frames payloads wire last ∧ Within tape c ⟨wire, ending⟩ r w

variable {c last : CipherState} {payloads : List Bytes} {ending : Ending} {r : Receiver} {w : ω}

theorem faces_between {wire : Bytes} (frames : c.Frames payloads wire last)
    (fit : ∀ payload ∈ payloads, payload.length ≤ maxPayloadLength)
    (holds : tape w = some ⟨wire, ending⟩) (residual : Bytes) :
    Faces tape c last payloads ending (between c residual) w :=
  ⟨fit, wire, frames, within_between holds⟩

theorem Faces.leaving (faces : Faces tape c last payloads ending r w) (residual : Bytes) :
    Faces tape c last payloads ending { r with residual } w := by
  obtain ⟨fit, wire, frames, within⟩ := faces
  exact ⟨fit, wire, frames, within.alive, within.place⟩

theorem Faces.elsewhere {other : ω → Option Tape} {later : ω}
    (faces : Faces tape c last payloads ending r w) (same : other later = tape w) :
    Faces other c last payloads ending r later := by
  obtain ⟨fits, bytes, sent, alive, taken, rest, place, holds, begins⟩ := faces
  exact ⟨fits, bytes, sent, alive, taken, rest, place, same.trans holds, begins⟩

/-- What an attempt comes to that has opened some frames and leaves others, behind the cipher `middle`. -/
inductive Drawing (source : Source ω) (tape : ω → Option Tape) (middle last : CipherState)
    (opened others : List Bytes) (ending : Ending) (residual : Bytes) (call : Call) :
    Poll (Except Error Bytes) × Receiver × ω → Prop where
  | pays {bytes next after} : call.serve residual opened = some (bytes, next.residual, []) →
      Faces tape middle last others ending next after →
      Drawing source tape middle last opened others ending residual call
        (.ready (.ok bytes), next, after)
  | waits {next after left} : call.serve residual opened = none → next.residual = [] →
      Faces tape middle last others ending next after → source.Paused tape after left →
      Drawing source tape middle last opened others ending residual call (.pending, next, after)
  | ended {next after} : call.serve residual opened = none → others = [] → ending = .closed →
      next.residual = [] → Faces tape middle last [] .closed next after →
      Drawing source tape middle last opened others ending residual call
        (.ready call.atEnd, next, after)
  | failed {cause next after} : call.serve residual opened = none → others = [] →
      ending = .failing cause → next.terminated = true → next.residual = [] →
      Drawing source tape middle last opened others ending residual call
        (.ready (.error (.network cause)), next, after)

/-- A receiver that finds no further frame has come to the end of the frames, or has to wait. -/
theorem Faces.unpaid (hands : source.Hands tape) {opened others : List Bytes} {next : Receiver} {after : ω}
    {found : Poll (Except Error (Option Bytes))} {call : Call} {residual : Bytes}
    (faces : Faces tape c last others ending r w)
    (clear : r.residual = []) (nothing : call.serve residual opened = none)
    (answer : r.nextFrame source w = (found, next, after))
    (unpaid : ∀ payload, found ≠ .ready (.ok (some payload))) :
    Drawing source tape c last opened others ending residual call (call.unpaid found, next, after) := by
  obtain ⟨fit, wire, frames, within⟩ := faces
  have empty : next.residual = [] := by
    have kept := nextFrame_residual source r w
    rw [answer] at kept
    exact kept.trans clear
  rcases within.nextFrame hands with
    ⟨_, _, left, waits, kept, -, paused⟩ | ⟨_, _, _, rest, ready, left, reference⟩
  · rw [answer] at waits
    cases waits
    exact .waits nothing empty ⟨fit, wire, frames, kept⟩ paused
  · rw [answer] at ready
    cases ready
    rw [rewound_eq within.alive, clear] at reference
    rename_i reply
    -- a frame that is there would have been found
    obtain rfl : others = [] := by
      cases frames with
      | nil => rfl
      | @cons _ _ _ payload _ head tail framed _ =>
        rw [nextFrame_of_frame (fit payload List.mem_cons_self) framed] at reference
        cases reference
        exact absurd rfl (unpaid payload)
    cases frames
    have stops := (Taken.header (c := c) #[] (by decide)).nextFrame [] ending
    change ((between c []).nextFrame Tape.source ⟨[], ending⟩).1 = _ at stops
    rw [reference] at stops
    cases ending with
    | quiet => cases stops
    | closed =>
      cases stops
      obtain ⟨-, rfl, rfl⟩ := nextFrame_tape_none_iff.1 reference
      exact .ended nothing rfl rfl empty (faces_between .nil nofun left [])
    | failing cause =>
      cases stops
      exact .failed nothing rfl rfl (terminated_of_nextFrame_error answer) empty

theorem Faces.attempt (hands : source.Hands tape) (faces : Faces tape c last payloads ending r w)
    (call : Call) :
    ∃ wire middle others, c.Frames (r.opened source call w) wire middle ∧
      payloads = r.opened source call w ++ others ∧
      Drawing source tape middle last (r.opened source call w) others ending r.residual call
        (r.attempt source call w) := by
  obtain ⟨fit, bytes, frames, within⟩ := faces
  have passing := attempt_passing source call r w
  generalize r.opened source call w = opened at passing ⊢
  generalize r.attempt source call w = result at passing ⊢
  have opens {middle : Receiver} {between : ω} (opens : Opens source r w opened middle between) :
      ∃ wire place others, c.Frames opened wire place ∧ payloads = opened ++ others ∧
        Faces tape place last others ending middle between := by
    obtain ⟨fits, wire, place, rest, begins, same, kept⟩ := opens.frames hands within
    obtain ⟨others, rfl, left⟩ := begins.split fits frames fit (congrArg Tape.bytes same)
    obtain ⟨bytes, final⟩ := rest
    obtain rfl : ending = final := congrArg Tape.ending same
    exact ⟨wire, place, others, begins, rfl,
      fun payload member => fit payload (List.mem_append_right _ member), bytes, left, kept⟩
  cases passing with
  | pays taken served =>
    obtain ⟨wire, place, others, begins, rfl, kept⟩ := opens taken
    exact ⟨wire, place, others, begins, rfl, .pays served (kept.leaving _)⟩
  | unpaid taken nothing answer unpaid =>
    obtain ⟨wire, place, others, begins, rfl, kept⟩ := opens taken
    have clear := taken.residual.trans (Call.serve_eq_none_iff.1 nothing).1.1
    exact ⟨wire, place, others, begins, rfl, kept.unpaid hands clear nothing answer unpaid⟩

theorem Taken.eq_nil_of_frames {middle : CipherState} {begun : Bytes} {stage : Stage}
    (taken : Taken c begun middle stage) (frames : c.Frames payloads begun last)
    (fit : ∀ payload ∈ payloads, payload.length ≤ maxPayloadLength) : payloads = [] := by
  have waits := taken.nextFrame [] .quiet
  cases frames with
  | nil => rfl
  | cons framed _ =>
    rw [nextFrame_of_frame (fit _ List.mem_cons_self) framed] at waits
    cases waits

/-- Where a prompt stream makes a receiver wait, there is no frame before it. -/
theorem Faces.of_paused (hands : source.Hands tape) (prompt : source.Prompt tape) {left : Tape}
    (faces : Faces tape c last payloads ending r w) (paused : source.Paused tape w left) :
    payloads = [] ∧ ending = .quiet := by
  obtain ⟨fit, wire, frames, -, begun, rest, taken, holds, same⟩ := faces
  have there := paused.holds hands
  rw [prompt w left paused, holds] at there
  cases there
  rw [Tape.rewind, List.append_nil] at same
  cases same
  exact ⟨taken.eq_nil_of_frames frames fit, rfl⟩

/-- A call to receive opens the next frame and no other, if the stream keeps nothing back. -/
theorem Faces.opened_receive (hands : source.Hands tape) (prompt : source.Prompt tape) {payload : Bytes}
    (faces : Faces tape c last (payload :: payloads) ending r w) (clear : r.residual = []) :
    r.opened source .receive w = [payload] := by
  obtain ⟨_, _, others, -, split, drawing⟩ := faces.attempt hands .receive
  generalize r.opened source .receive w = opened at split drawing ⊢
  have empty (nothing : Call.receive.serve r.residual opened = none) : opened = [] :=
    (Call.empty_of_draw (Call.serve_eq_none_iff.1 nothing).2).2 rfl
  generalize r.attempt source .receive w = result at drawing
  cases drawing with
  | pays served =>
    rw [Call.serve_of_clear clear (by simp)] at served
    cases opened with
    | nil => cases served
    | cons first further =>
      simp only [Call.draw, true_or, if_true, Option.some.injEq, Prod.mk.injEq] at served
      rw [(List.cons.inj split).1, served.2.2]
  | waits nothing _ kept paused =>
    have none := (kept.of_paused hands prompt paused).1
    rw [none, empty nothing] at split
    cases split
  | ended nothing none | failed nothing none =>
    rw [none, empty nothing] at split
    cases split

end Receiver
end NoiseLink
