import NoiseLink.Proofs.Receiver.Passage

/-! What happens at a receiver over time: attempts at calls, and changes of the world in between. No
assumption is made on the stream, which may bring anything, fail, and recover. A failure is final even
so. What was left over of an earlier frame comes first, so a receiver that has failed has nothing left
over, and this is why it can serve what is left over without asking whether it has failed. -/
namespace NoiseLink.Receiver

variable {ω : Type} {source : Source ω}

/-- Someone makes an attempt at a call, or the world changes on its own. -/
inductive Move (ω : Type) where
  | call (call : Call)
  | change (turn : ω → ω)

def handed : Poll (Except Error Bytes) → Bytes
  | .ready (.ok bytes) => bytes
  | _ => []

/-- An attempt at a call, the worlds before and after it, and the payloads of the frames that it opened. -/
structure Visit (ω : Type) where
  call : Call
  before : ω
  opened : List Bytes
  answer : Poll (Except Error Bytes)
  receiver : Receiver
  after : ω

def Visit.bytes (v : Visit ω) : Bytes := handed v.answer

/-- An attempt that the receiver `r` turns away. Nothing is asked of the stream. -/
structure Visit.Refused (r : Receiver) (v : Visit ω) : Prop where
  answer : v.answer = .ready (v.call.refused .terminated)
  bytes : v.bytes = []
  opened : v.opened = []
  receiver : v.receiver = r
  world : v.after = v.before

def visit (source : Source ω) (call : Call) (r : Receiver) (w : ω) : Visit ω :=
  let result := r.attempt source call w
  ⟨call, w, r.opened source call w, result.1, result.2.1, result.2.2⟩

def visits (source : Source ω) : List (Move ω) → Receiver → ω → List (Visit ω)
  | [], _, _ => []
  | .change turn :: moves, r, w => visits source moves r (turn w)
  | .call call :: moves, r, w =>
    let v := r.visit source call w
    v :: visits source moves v.receiver v.after

variable {call : Call} {r : Receiver} {w : ω}

theorem exists_of_mem_visits {moves : List (Move ω)} {v : Visit ω} (member : v ∈ visits source moves r w) :
    ∃ (call : Call) (before : Receiver) (world : ω), v = before.visit source call world := by
  induction moves generalizing r w with
  | nil => cases member
  | cons move moves ih =>
    cases move with
    | change turn => exact ih member
    | call call =>
      rcases List.mem_cons.1 member with rfl | later
      · exact ⟨call, r, w, rfl⟩
      · exact ih later

@[simp] theorem handed_unpaid (call : Call) (found : Poll (Except Error (Option Bytes))) :
    handed (call.unpaid found) = [] := by
  rcases found with (error | frame) | _
  · rfl
  · cases call <;> rfl
  · rfl

theorem Opens.clear {middle next : Receiver} {between after : ω} {opened : List Bytes}
    {found : Poll (Except Error (Option Bytes))} (opens : Opens source r w opened middle between)
    (nothing : call.serve r.residual opened = none)
    (answer : middle.nextFrame source between = (found, next, after)) :
    r.residual = [] ∧ opened.flatten = [] ∧ next.residual = [] := by
  obtain ⟨⟨clear, -⟩, drawn⟩ := Call.serve_eq_none_iff.1 nothing
  have kept := nextFrame_residual source middle between
  rw [answer] at kept
  exact ⟨clear, List.flatten_eq_nil_iff.2 (Call.empty_of_draw drawn).1,
    kept.trans (opens.residual.trans clear)⟩

/-- What was left over and what is opened is handed out or is left over. -/
theorem Passing.balance {opened : List Bytes} {result : Poll (Except Error Bytes) × Receiver × ω}
    (passing : Passing source call r w opened result) :
    r.residual ++ opened.flatten = handed result.1 ++ result.2.1.residual := by
  cases passing with
  | pays opens served => exact Call.balance_of_serve served
  | unpaid opens nothing last =>
    obtain ⟨clear, empty, left⟩ := opens.clear nothing last
    rw [handed_unpaid, clear, empty, left]

/-- An attempt that has to wait may have opened empty frames, and one to receive has not even done that. -/
theorem hollow_of_pending {v : Visit ω} {moves : List (Move ω)} (member : v ∈ visits source moves r w)
    (waits : v.answer = .pending) :
    (∀ payload ∈ v.opened, payload = []) ∧ (v.call = .receive → v.opened = []) := by
  obtain ⟨call, before, world, rfl⟩ := exists_of_mem_visits member
  have passing := attempt_passing source call before world
  simp only [visit] at waits ⊢
  generalize before.opened source call world = opened at passing ⊢
  generalize before.attempt source call world = result at passing waits
  cases passing with
  | pays => cases waits
  | unpaid opens nothing => exact Call.empty_of_draw (Call.serve_eq_none_iff.1 nothing).2

def Sound (r : Receiver) : Prop := r.terminated = true → r.residual = []

theorem sound_start (c : CipherState) : (start c).Sound := nofun

variable {opened : List Bytes} {result : Poll (Except Error Bytes) × Receiver × ω}

theorem Passing.sound (passing : Passing source call r w opened result) (sound : r.Sound) :
    result.2.1.Sound := by
  intro halted
  have balance := passing.balance
  cases passing with
  | pays opens served =>
    obtain ⟨rfl, rfl⟩ := opens.of_terminated halted
    rw [sound halted] at balance
    exact (List.append_eq_nil_iff.1 balance.symm).2
  | unpaid opens nothing last => exact (opens.clear nothing last).2.2

/-- A call reports a failure only when the receiver has nothing left over. -/
theorem Passing.failure (passing : Passing source call r w opened result) {error : Error}
    (failed : result.1 = .ready (.error error)) (broken : error ≠ .streamClosed) :
    result.2.1.terminated = true ∧ result.2.1.residual = [] := by
  cases passing with
  | pays => cases failed
  | @unpaid _ _ found _ _ opens nothing last _ =>
    refine ⟨?_, (opens.clear nothing last).2.2⟩
    rcases found with (cause | frame) | _
    · exact terminated_of_nextFrame_error last
    · cases call <;> cases failed
      exact absurd rfl broken
    · cases failed

/-- A receiver that has failed opens nothing. -/
theorem Passing.opened_of_terminated (passing : Passing source call r w opened result)
    (halted : r.terminated = true) : opened = [] := by
  have none {middle between} (opens : Opens source r w opened middle between) : opened = [] := by
    cases opens with
    | nil => rfl
    | cons found _ => exact absurd halted (by simp [(alive_of_nextFrame found).1])
  cases passing with
  | pays opens _ => exact none opens
  | unpaid opens _ _ _ => exact none opens

theorem balance_visit (source : Source ω) (call : Call) (r : Receiver) (w : ω) :
    r.residual ++ (r.visit source call w).opened.flatten =
      (r.visit source call w).bytes ++ (r.visit source call w).receiver.residual :=
  (attempt_passing source call r w).balance

theorem Sound.visit (sound : r.Sound) (source : Source ω) (call : Call) (w : ω) :
    (r.visit source call w).receiver.Sound :=
  (attempt_passing source call r w).sound sound

theorem failed_visit {error : Error} (failed : (r.visit source call w).answer = .ready (.error error))
    (broken : error ≠ .streamClosed) :
    (r.visit source call w).receiver.terminated = true ∧
      (r.visit source call w).receiver.residual = [] :=
  (attempt_passing source call r w).failure failed broken

theorem visit_refused (source : Source ω) (call : Call) (halted : r.terminated = true)
    (clear : r.residual = []) (w : ω) : (r.visit source call w).Refused r := by
  have stays : r.attempt source call w = _ := attempt_refused halted clear call w
  have none := (attempt_passing source call r w).opened_of_terminated halted
  refine ⟨congrArg Prod.fst stays, ?_, none, congrArg (·.2.1) stays, congrArg (·.2.2) stays⟩
  rw [Visit.bytes, visit, stays]
  rcases call with _ | _ | size <;> rfl

theorem visits_refused (halted : r.terminated = true) (clear : r.residual = []) (moves : List (Move ω))
    (w : ω) : ∀ v ∈ visits source moves r w, v.Refused r := by
  induction moves generalizing w with
  | nil => exact nofun
  | cons move moves ih =>
    cases move with
    | change turn => exact ih (turn w)
    | call call =>
      have refused := visit_refused source call halted clear w
      refine List.forall_mem_cons.2 ⟨refused, ?_⟩
      rw [refused.receiver]
      exact ih _

/-- Up to a failure everything that was opened has been handed out, and after it everybody is refused. -/
theorem Sound.failure (sound : r.Sound) {moves : List (Move ω)} {earlier later : List (Visit ω)}
    {v : Visit ω} {error : Error} (made : visits source moves r w = earlier ++ v :: later)
    (failed : v.answer = .ready (.error error)) (broken : error ≠ .streamClosed) :
    r.residual ++ ((earlier ++ [v]).flatMap Visit.opened).flatten = earlier.flatMap Visit.bytes ∧
      ∀ u ∈ later, u.Refused v.receiver := by
  induction moves generalizing r w earlier with
  | nil => simp [visits] at made
  | cons move moves ih =>
    cases move with
    | change turn => exact ih sound made
    | call call =>
      have balance := balance_visit source call r w
      cases earlier with
      | nil =>
        obtain ⟨rfl, rfl⟩ := List.cons.inj made
        obtain ⟨halted, clear⟩ := failed_visit failed broken
        have silent : (r.visit source call w).bytes = [] := by rw [Visit.bytes, failed]; rfl
        rw [silent, clear] at balance
        exact ⟨by rw [List.nil_append, List.flatMap_singleton, balance]; rfl,
          visits_refused halted clear moves _⟩
      | cons first earlier =>
        obtain ⟨rfl, others⟩ := List.cons.inj made
        obtain ⟨handed, refused⟩ := ih (sound.visit source call w) others
        refine ⟨?_, refused⟩
        rw [List.cons_append, List.flatMap_cons, List.flatten_append, ← List.append_assoc, balance,
          List.append_assoc, handed, List.flatMap_cons]

/-- A failure is final, whatever the stream brings and however the world changes. When a call reports
one, the payloads of all frames that were opened have been handed out, those included that this very
call has opened. All calls after it are refused: they hand out nothing and open nothing, and they leave
the receiver with its cipher and the world as they are. -/
theorem failure_final (source : Source ω) (c : CipherState) (moves : List (Move ω)) (w : ω)
    {earlier later : List (Visit ω)} {v : Visit ω} {error : Error}
    (made : visits source moves (start c) w = earlier ++ v :: later)
    (failed : v.answer = .ready (.error error)) (broken : error ≠ .streamClosed) :
    ((earlier ++ [v]).flatMap Visit.opened).flatten = earlier.flatMap Visit.bytes ∧
      ∀ u ∈ later, u.Refused v.receiver :=
  (sound_start c).failure made failed broken

/-- Three stray bytes and the end of the stream are a failure, and the frame that is there by the next
call is not even looked at. -/
theorem failure_final_of_stray_bytes :
    let c := CipherState.start (.zero 32) (.zero 32)
    let frame : Tape := ⟨(c.frame [7]).1.toOption.getD [], .quiet⟩
    ∃ v u, visits Tape.source [.call .receive, .change fun _ => frame, .call (.read 5)] (start c)
        ⟨[1, 2, 3], .closed⟩ = [v, u] ∧
      v.answer = .ready (.error .malformedFrame) ∧ v.bytes = [] ∧
      u.answer = .ready (.error .terminated) ∧ u.after = u.before := by
  intro c frame
  have torn := (Taken.header (c := c) #[1, 2, 3] (by decide)).nextFrame [] .closed
  generalize answer : (between c []).nextFrame Tape.source ⟨#[1, 2, 3].toList, .closed⟩ = found at torn
  obtain ⟨_, next, after⟩ := found
  cases torn
  have failed : ((start c).attempt Tape.source .receive ⟨[1, 2, 3], .closed⟩).1 =
      .ready (.error .malformedFrame) :=
    congrArg Prod.fst (attempt_of_nextFrame rfl (by simp) answer (by simp))
  have made : visits Tape.source [.call .receive, .change fun _ => frame, .call (.read 5)] (start c)
      ⟨[1, 2, 3], .closed⟩ = [] ++ (start c).visit Tape.source .receive ⟨[1, 2, 3], .closed⟩ :: [_] := rfl
  have refused := (failure_final Tape.source c _ _ made failed (by simp)).2 _ List.mem_cons_self
  exact ⟨_, _, rfl, failed, by rw [Visit.bytes, visit, failed]; rfl, refused.answer, refused.world⟩

end NoiseLink.Receiver
