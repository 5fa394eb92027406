import NoiseLink.Proofs.Receiver.Resume
import NoiseLink.Proofs.Stream.Keeps

/-! Runs of calls on one receiver. A call that has to wait leaves its progress in the receiver and
nothing else behind, so it makes no difference whether it is tried again or given up for another
one: a run is a list of attempts, of which some complete. What the receiver still owes is what is
left of its last frame and the payloads on its tape, and every attempt pays from the front of it. -/
namespace NoiseLink

inductive Call where
  | receive
  | read (size : Nat)
deriving DecidableEq

/-- The failure, or the clean end of the stream, that an answer to a call reports. -/
def Call.stop : Call → Except Error Bytes → Option Error
  | _, .error error => some error
  | .receive, .ok _ => none
  | .read size, .ok bytes => if size ≠ 0 ∧ bytes = [] then some .streamClosed else none

def Call.atEnd : Call → Except Error Bytes
  | .receive => .error .streamClosed
  | .read _ => .ok []

namespace Receiver

/-- A call that was answered, and how it left the receiver and the stream. -/
structure Completed (ω : Type) where
  call : Call
  answer : Except Error Bytes
  receiver : Receiver
  world : ω

namespace Completed

def stop (d : Completed ω) : Option Error := d.call.stop d.answer

def bytes (d : Completed ω) : Bytes :=
  match d.answer with
  | .ok bytes => bytes
  | .error _ => []

end Completed

def attempt (source : Source ω) (call : Call) (r : Receiver) (w : ω) :
    Poll (Except Error Bytes) × Receiver × ω :=
  match call with
  | .receive => r.receive source w
  | .read size => r.read source size w

/-- Makes attempts in order, and lists the calls that were completed. -/
def run (source : Source ω) : List Call → Receiver → ω → List (Completed ω) × Receiver × ω
  | [], r, w => ([], r, w)
  | call :: calls, r, w =>
    match r.attempt source call w with
    | (.pending, r, w) => run source calls r w
    | (.ready answer, r, w) =>
      let (done, last) := run source calls r w
      (⟨call, answer, r, w⟩ :: done, last)

variable {ω : Type} {source : Source ω} {tape : ω → Option Tape}

theorem keeps_attempt {α : Type} {view : ω → α} (keeps : source.Keeps view)
    (call : Call) (r : Receiver) (w : ω) : view (r.attempt source call w).2.2 = view w := by
  cases call with
  | receive => exact keeps_receive keeps r w
  | read size => exact keeps_read keeps size r w

theorem run_cons_of_pending {call : Call} {calls : List Call} {r next : Receiver} {w after : ω}
    (h : r.attempt source call w = (.pending, next, after)) :
    run source (call :: calls) r w = run source calls next after := by
  rw [run, h]

theorem run_cons_of_ready {call : Call} {calls : List Call} {r next : Receiver} {w after : ω}
    {answer : Except Error Bytes} (h : r.attempt source call w = (.ready answer, next, after)) :
    run source (call :: calls) r w =
      (⟨call, answer, next, after⟩ :: (run source calls next after).1,
        (run source calls next after).2) := by
  rw [run, h]

/-- A way to tell the payloads on a tape and what stops the receiver after them. It has to agree with
what the receiver makes of the tape, frame by frame. -/
structure Contents (content : CipherState → Tape → List Bytes → Stop Error → Prop) : Prop where
  message : ∀ {c t payloads stop payload last rest}, content c t payloads stop →
    (between c []).nextFrame Tape.source t = (.ready (.ok (some payload)), between last [], rest) →
    ∃ others, payloads = payload :: others ∧ content last rest others stop
  ended : ∀ {c payloads stop}, content c ⟨[], .closed⟩ payloads stop →
    payloads = [] ∧ stop = .failed .streamClosed
  failed : ∀ {c t payloads stop error next rest}, content c t payloads stop →
    (between c []).nextFrame Tape.source t = (.ready (.error error), next, rest) →
    payloads = [] ∧ stop = .failed error

/-- A live receiver whose stream will bring these payloads. -/
def Expects (content : CipherState → Tape → List Bytes → Stop Error → Prop)
    (tape : ω → Option Tape) (payloads : List Bytes) (stop : Stop Error) (r : Receiver) (w : ω) :
    Prop :=
  ∃ c t, Within tape c t r w ∧ content c t payloads stop

variable {content : CipherState → Tape → List Bytes → Stop Error → Prop}

inductive Taking (content : CipherState → Tape → List Bytes → Stop Error → Prop)
    (source : Source ω) (tape : ω → Option Tape) (payloads : List Bytes) (stop : Stop Error) :
    Poll (Except Error (Option Bytes)) × Receiver × ω → Prop where
  | waits {next after rest} : Expects content tape payloads stop next after → next.residual = [] →
      source.Paused tape after rest → Taking content source tape payloads stop (.pending, next, after)
  | message {payload others next after} : payloads = payload :: others →
      Expects content tape others stop next after → next.residual = [] →
      Taking content source tape payloads stop (.ready (.ok (some payload)), next, after)
  | ended {next after} : payloads = [] → stop = .failed .streamClosed →
      Expects content tape [] stop next after → next.residual = [] →
      Taking content source tape payloads stop (.ready (.ok none), next, after)
  | failed {error next after} : payloads = [] → stop = .failed error → error ≠ .streamClosed →
      next.terminated = true → next.residual = [] →
      Taking content source tape payloads stop (.ready (.error error), next, after)

theorem Expects.nextFrame (hands : source.Hands tape) (agrees : Contents content)
    {payloads : List Bytes} {stop : Stop Error} {r : Receiver} {w : ω}
    (expects : Expects content tape payloads stop r w) (clear : r.residual = []) :
    Taking content source tape payloads stop (r.nextFrame source w) := by
  obtain ⟨c, t, within, contents⟩ := expects
  have whole := rewound_eq within.alive c
  rw [clear] at whole
  rcases within.nextFrame hands with
    ⟨next, after, rest, answer, kept, same, paused⟩ | ⟨answer, next, after, rest, found, left, reference⟩
  · rw [answer]
    exact .waits ⟨c, t, kept, contents⟩ (same.trans clear) paused
  · rw [found]
    rw [whole] at reference
    have empty : next.residual = [] := by
      have kept := nextFrame_residual source r w
      rw [found] at kept
      exact kept.trans clear
    cases answer with
    | error error =>
      obtain ⟨none, cause⟩ := agrees.failed contents reference
      have broken := nextFrame_ne_closed source r w
      rw [found] at broken
      exact .failed none cause (fun closed => broken (by rw [closed]))
        (terminated_of_nextFrame_error found) empty
    | ok frame =>
      cases frame with
      | none =>
        obtain ⟨rfl, rfl, rfl⟩ := nextFrame_tape_none_iff.1 reference
        obtain ⟨rfl, closed⟩ := agrees.ended contents
        exact .ended rfl closed ⟨c, _, within_between left, contents⟩ empty
      | some payload =>
        obtain ⟨-, wire, last, -, rfl, -⟩ := nextFrame_tape_some_iff.1 reference
        obtain ⟨others, rfl, remaining⟩ := agrees.message contents reference
        exact .message rfl ⟨last, rest, within_between left, remaining⟩ empty

/-- What an attempt may come to for a receiver that owes what is left of its last frame and some
payloads: it waits and still owes them, it hands out the first of the bytes, or it owed none and reports
what stops it. A call to receive takes nothing but whole payloads, once nothing is left over. -/
inductive Serving (content : CipherState → Tape → List Bytes → Stop Error → Prop)
    (source : Source ω) (tape : ω → Option Tape) (residual : Bytes) (payloads : List Bytes)
    (stop : Stop Error) (call : Call) : Poll (Except Error Bytes) × Receiver × ω → Prop where
  | waits {others next after rest} : Expects content tape others stop next after →
      residual ++ payloads.flatten = next.residual ++ others.flatten →
      (call = .receive → next.residual = [] ∧ payloads = others) → source.Paused tape after rest →
      others <:+ payloads →
      Serving content source tape residual payloads stop call (.pending, next, after)
  | hands {bytes others next after} : Expects content tape others stop next after →
      residual ++ payloads.flatten = bytes ++ (next.residual ++ others.flatten) →
      (call = .receive → residual = [] → next.residual = [] ∧ payloads = bytes :: others) →
      call.stop (.ok bytes) = none → others <:+ payloads →
      Serving content source tape residual payloads stop call (.ready (.ok bytes), next, after)
  | ended {next after} : Expects content tape [] stop next after →
      residual ++ payloads.flatten = [] → (call = .receive → payloads = []) → next.residual = [] →
      stop = .failed .streamClosed → call.stop call.atEnd = some .streamClosed →
      Serving content source tape residual payloads stop call (.ready call.atEnd, next, after)
  | failed {error next after} : residual ++ payloads.flatten = [] → stop = .failed error →
      error ≠ .streamClosed → next.terminated = true → next.residual = [] →
      Serving content source tape residual payloads stop call (.ready (.error error), next, after)

/-- What is left over of the last frame has no part in what is still to come. -/
theorem Expects.leaving {payloads : List Bytes} {stop : Stop Error} {r : Receiver} {w : ω}
    (expects : Expects content tape payloads stop r w) (residual : Bytes) :
    Expects content tape payloads stop { r with residual } w := by
  obtain ⟨c, t, within, contents⟩ := expects
  exact ⟨c, t, ⟨within.alive, within.place⟩, contents⟩

theorem Expects.taking (hands : source.Hands tape) (agrees : Contents content)
    {payloads : List Bytes} {stop : Stop Error} {r : Receiver} {w : ω}
    (expects : Expects content tape payloads stop r w) (none : ¬r.residual ≠ [])
    {result : Poll (Except Error (Option Bytes)) × Receiver × ω}
    (answer : r.nextFrame source w = result) :
    r.residual = [] ∧ Taking content source tape payloads stop result := by
  have clear : r.residual = [] := Decidable.not_not.1 none
  rw [← answer]
  exact ⟨clear, expects.nextFrame hands agrees clear⟩

theorem Serving.after_empty {payloads : List Bytes} {stop : Stop Error} {size : Nat}
    {found : Poll (Except Error Bytes) × Receiver × ω}
    (served : Serving content source tape [] payloads stop (.read size) found) :
    Serving content source tape [] ([] :: payloads) stop (.read size) found := by
  have reads : Call.read size ≠ .receive := by simp
  cases served with
  | waits kept same _ paused later =>
    exact .waits kept same (absurd · reads) paused (later.trans (List.suffix_cons ..))
  | hands kept same _ silent later =>
    exact .hands kept same (absurd · reads) silent (later.trans (List.suffix_cons ..))
  | ended kept same _ empty closed report =>
    exact .ended kept same (absurd · reads) empty closed report
  | failed same cause broken halted empty => exact .failed same cause broken halted empty

theorem Expects.receive (hands : source.Hands tape) (agrees : Contents content)
    {payloads : List Bytes} {stop : Stop Error} {r : Receiver} {w : ω}
    (expects : Expects content tape payloads stop r w) :
    Serving content source tape r.residual payloads stop .receive (r.receive source w) := by
  by_cases clear : r.residual = []
  · have taking := expects.nextFrame hands agrees clear
    rw [receive_of_clear source clear]
    generalize r.nextFrame source w = answer at taking ⊢
    cases taking with
    | waits kept empty paused =>
      exact .waits kept (by rw [empty, clear]) (fun _ => ⟨empty, rfl⟩) paused List.suffix_rfl
    | message first kept empty =>
      subst first
      exact .hands kept (by rw [empty, clear]; rfl) (fun _ _ => ⟨empty, rfl⟩) rfl (List.suffix_cons ..)
    | ended first closed kept empty =>
      subst first
      exact .ended kept (by rw [clear]; rfl) (fun _ => rfl) empty closed rfl
    | failed first cause broken halted empty =>
      subst first
      exact .failed (by rw [clear]; rfl) cause broken halted empty
  · rw [Receiver.receive, if_pos clear]
    exact .hands (expects.leaving []) rfl (fun _ empty => absurd empty clear) rfl List.suffix_rfl

theorem Expects.read (hands : source.Hands tape) (agrees : Contents content) (size : Nat)
    {payloads : List Bytes} {stop : Stop Error} {r : Receiver} {w : ω}
    (expects : Expects content tape payloads stop r w) :
    Serving content source tape r.residual payloads stop (.read size) (r.read source size w) := by
  have reads : Call.read size ≠ .receive := by simp
  fun_induction Receiver.read source size r w generalizing payloads with
  | case1 r w zero =>
    exact .hands expects rfl (absurd · reads) (by simp [Call.stop, zero]) List.suffix_rfl
  | case2 r w positive left =>
    refine .hands (expects.leaving _) ?_ (absurd · reads) ?_ List.suffix_rfl
    · rw [← List.append_assoc, List.take_append_drop]
    · have some : r.residual.take size ≠ [] := by simp [positive, left]
      simp [Call.stop, some]
  | case3 r w positive none next after answer ih =>
    obtain ⟨clear, taking⟩ := expects.taking hands agrees none answer
    cases taking with
    | message first kept empty =>
      subst first
      have served := ih kept
      rw [empty] at served
      rw [clear]
      exact served.after_empty
  | case4 r w positive none payload next after filled answer =>
    obtain ⟨clear, taking⟩ := expects.taking hands agrees none answer
    cases taking with
    | message first kept empty =>
      subst first
      refine .hands (kept.leaving _) ?_ (absurd · reads) ?_ (List.suffix_cons ..)
      · change _ = payload.take size ++ (payload.drop size ++ _)
        rw [clear, List.flatten_cons, List.nil_append, ← List.append_assoc, List.take_append_drop]
      · have some : payload.take size ≠ [] := by simpa [positive] using filled
        simp [Call.stop, some]
  | case5 r w positive none next after answer =>
    obtain ⟨clear, taking⟩ := expects.taking hands agrees none answer
    cases taking with
    | ended first closed kept empty =>
      subst first
      exact .ended kept (by rw [clear]; rfl) (absurd · reads) empty closed
        (by simp [Call.stop, Call.atEnd, positive])
  | case6 r w positive none error next after answer =>
    obtain ⟨clear, taking⟩ := expects.taking hands agrees none answer
    cases taking with
    | failed first cause broken halted empty =>
      subst first
      exact .failed (by rw [clear]; rfl) cause broken halted empty
  | case7 r w positive none next after answer =>
    obtain ⟨clear, taking⟩ := expects.taking hands agrees none answer
    cases taking with
    | waits kept empty paused =>
      exact .waits kept (by rw [clear, empty]) (absurd · reads) paused List.suffix_rfl

theorem Expects.attempt (hands : source.Hands tape) (agrees : Contents content) (call : Call)
    {payloads : List Bytes} {stop : Stop Error} {r : Receiver} {w : ω}
    (expects : Expects content tape payloads stop r w) :
    Serving content source tape r.residual payloads stop call (r.attempt source call w) := by
  cases call with
  | receive => exact expects.receive hands agrees
  | read size => exact expects.read hands agrees size

theorem Completed.bytes_of_stop {call : Call} {answer : Except Error Bytes} {error : Error}
    (h : call.stop answer = some error) (r : Receiver) (w : ω) :
    (Completed.mk call answer r w).bytes = [] := by
  cases answer with
  | error cause => rfl
  | ok bytes =>
    cases call with
    | receive => simp [Call.stop] at h
    | read size =>
      simp only [Call.stop] at h
      split at h
      · rename_i none
        exact none.2
      · simp at h

/-- A receiver that has failed answers every call, hands out nothing and stays as it is. -/
theorem attempt_halted (source : Source ω) {r : Receiver} (halted : r.terminated = true)
    (clear : r.residual = []) (call : Call) (w : ω) :
    ∃ answer, r.attempt source call w = (.ready answer, r, w) ∧
      (Completed.mk call answer r w).bytes = [] := by
  cases call with
  | receive =>
    exact ⟨.error .terminated, by simp [attempt, receive, nextFrame, halted, clear], rfl⟩
  | read size =>
    by_cases zero : size = 0
    · exact ⟨.ok [], by simp [attempt, read, zero], rfl⟩
    · refine ⟨.error .terminated, ?_, rfl⟩
      rw [attempt, read, if_neg zero, if_neg (by simp [clear])]
      split <;> simp_all [nextFrame]

theorem run_halted (source : Source ω) {r : Receiver} (halted : r.terminated = true)
    (clear : r.residual = []) (calls : List Call) (w : ω) :
    ((run source calls r w).1.flatMap Completed.bytes = []) ∧ (run source calls r w).2 = (r, w) := by
  induction calls with
  | nil => exact ⟨rfl, rfl⟩
  | cons call calls ih =>
    obtain ⟨answer, found, empty⟩ := attempt_halted source halted clear call w
    rw [run_cons_of_ready found, List.flatMap_cons, empty, ih.1, ih.2]
    exact ⟨rfl, rfl⟩

/-- How a receiver stands that owed some bytes: it expects them, or it has failed and owes none. -/
inductive Owes (content : CipherState → Tape → List Bytes → Stop Error → Prop)
    (tape : ω → Option Tape) (stop : Stop Error) : Bytes → Receiver → ω → Prop where
  | live {payloads r w} : Expects content tape payloads stop r w →
      Owes content tape stop (r.residual ++ payloads.flatten) r w
  | halted {r w} : r.terminated = true → r.residual = [] → Owes content tape stop [] r w

/-- However the calls are mixed, a receiver hands out what it owes from the front, and whatever is
reported as the end or as a failure comes after all of it. -/
theorem Expects.run (hands : source.Hands tape) (agrees : Contents content) (calls : List Call)
    {payloads : List Bytes} {stop : Stop Error} {r : Receiver} {w : ω}
    (expects : Expects content tape payloads stop r w) :
    ∃ done next after left, run source calls r w = (done, next, after) ∧
      r.residual ++ payloads.flatten = done.flatMap Completed.bytes ++ left ∧
      Owes content tape stop left next after ∧
      ∀ error, done.findSome? Completed.stop = some error → left = [] ∧ stop = .failed error := by
  induction calls generalizing payloads r w with
  | nil => exact ⟨[], r, w, _, rfl, rfl, .live expects, nofun⟩
  | cons call calls ih =>
    have served := expects.attempt hands agrees call
    generalize answer : r.attempt source call w = result at served
    cases served with
    | waits kept same _ paused =>
      obtain ⟨done, next, after, left, ran, balance, stands, stops⟩ := ih kept
      exact ⟨done, next, after, left, by rw [run_cons_of_pending answer, ran], same.trans balance,
        stands, stops⟩
    | hands kept same _ silent =>
      obtain ⟨done, next, after, left, ran, balance, stands, stops⟩ := ih kept
      refine ⟨_ :: done, next, after, left, by rw [run_cons_of_ready answer, ran], ?_, stands, ?_⟩
      · rw [same, balance, List.flatMap_cons, List.append_assoc]
        rfl
      · intro error found
        rw [List.findSome?_cons_of_isNone (by rw [Completed.stop, silent]; rfl)] at found
        exact stops error found
    | ended kept empty _ clear closed report =>
      obtain ⟨done, next, after, left, ran, balance, stands, stops⟩ := ih kept
      rw [clear] at balance
      obtain ⟨handed, rfl⟩ := List.append_eq_nil_iff.1 balance.symm
      refine ⟨_ :: done, next, after, [], by rw [run_cons_of_ready answer, ran], ?_, stands, ?_⟩
      · rw [empty, List.flatMap_cons, handed, Completed.bytes_of_stop report]
        rfl
      · intro error found
        rw [List.findSome?_cons, Completed.stop, report] at found
        cases found
        exact ⟨rfl, closed⟩
    | @failed cause next after empty reason _ halted clear =>
      obtain ⟨nothing, unchanged⟩ := run_halted source halted clear calls after
      refine ⟨_, next, after, [], by rw [run_cons_of_ready answer, unchanged], ?_,
        .halted halted clear, ?_⟩
      · rw [empty, List.flatMap_cons, nothing]
        rfl
      · intro error found
        cases found
        exact ⟨rfl, reason⟩

/-- An attempt waits only if the stream had nothing to hand out when it was last asked. -/
theorem Owes.paused (hands : source.Hands tape) (agrees : Contents content) {call : Call}
    {stop : Stop Error} {owed : Bytes} {r next : Receiver} {w after : ω}
    (owes : Owes content tape stop owed r w)
    (waits : r.attempt source call w = (.pending, next, after)) :
    ∃ rest, source.Paused tape after rest := by
  cases owes with
  | live expects =>
    have served := expects.attempt hands agrees call
    rw [waits] at served
    cases served with
    | waits kept same _ paused => exact ⟨_, paused⟩
  | halted halted clear =>
    obtain ⟨answer, found, -⟩ := attempt_halted source halted clear call w
    rw [found] at waits
    cases waits

end Receiver
end NoiseLink
