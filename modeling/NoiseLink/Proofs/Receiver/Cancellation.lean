import NoiseLink.Proofs.Receiver.Visits
import NoiseLink.Proofs.Sender.Emission

/-! Calls that are given up while they wait. The receiver keeps all that has arrived of a frame, but a call
that reads goes through the empty frames on its way, and there is nothing that it could keep of those. So
the calls that are answered get what they would get if the others had never been made, on the stream
without the empty frames that these have gone through. -/
namespace NoiseLink
namespace Receiver

variable {ω : Type} {source : Source ω} {tape : ω → Option Tape}

def Completed.reply (d : Completed ω) : Call × Except Error Bytes := (d.call, d.answer)

/-- The stream is going to bring the same afterwards, if maybe in other pieces. -/
def Move.Keeps (tape : ω → Option Tape) : Move ω → Prop
  | .call _ => True
  | .change turn => ∀ w, tape (turn w) = tape w

namespace Visit

def reply? (v : Visit ω) : Option (Call × Except Error Bytes) :=
  match v.answer with
  | .pending => none
  | .ready answer => some (v.call, answer)

def spent (v : Visit ω) : List Bytes :=
  match v.answer with
  | .pending => []
  | .ready _ => v.opened

end Visit

/-- All that the answers of a receiver depend on: whether it has failed, what is left over of its last
frame and the payloads that are before it. -/
structure Prospect where
  failed : Bool
  residual : Bytes
  payloads : List Bytes

namespace Prospect

def attempt (ending : Ending) (call : Call) (p : Prospect) : Poll (Except Error Bytes) × Prospect :=
  if p.failed then (.ready (call.refused .terminated), p)
  else
    match call.serve p.residual p.payloads with
    | some (bytes, left, others) => (.ready (.ok bytes), ⟨false, left, others⟩)
    | none =>
      match ending with
      | .quiet => (.pending, ⟨false, [], []⟩)
      | .closed => (.ready call.atEnd, ⟨false, [], []⟩)
      | .failing cause => (.ready (.error (.network cause)), ⟨true, [], []⟩)

def replies (ending : Ending) : List Call → Prospect → List (Call × Except Error Bytes)
  | [], _ => []
  | call :: calls, p =>
    match p.attempt ending call with
    | (.pending, p) => replies ending calls p
    | (.ready answer, p) => (call, answer) :: replies ending calls p

theorem replies_cons {ending : Ending} {call : Call} {calls : List Call} {p next : Prospect}
    {answer : Except Error Bytes} (made : p.attempt ending call = (.ready answer, next)) :
    p.replies ending (call :: calls) = (call, answer) :: next.replies ending calls := by
  rw [replies, made]

end Prospect

inductive Stands (tape : ω → Option Tape) (ending : Ending) : Prospect → Receiver → ω → Prop where
  | live {c last payloads r w} : Faces tape c last payloads ending r w →
      Stands tape ending ⟨false, r.residual, payloads⟩ r w
  | halted {r w} : r.terminated = true → r.residual = [] → Stands tape ending ⟨true, [], []⟩ r w

variable {ending : Ending} {p : Prospect} {r : Receiver} {w : ω}

theorem Faces.stands {c last : CipherState} {payloads : List Bytes}
    (faces : Faces tape c last payloads ending r w) (clear : r.residual = []) :
    Stands tape ending ⟨false, [], payloads⟩ r w :=
  clear ▸ .live faces

/-- What an attempt comes to that has opened some frames. It has to wait, and its call could not have been
answered with them, or it is answered as it would be whatever frames came after them. -/
inductive Pursuing (source : Source ω) (tape : ω → Option Tape) (ending : Ending) (call : Call)
    (p : Prospect) (opened : List Bytes) : Poll (Except Error Bytes) × Receiver × ω → Prop where
  | waits {others next after left} : p = ⟨false, [], opened ++ others⟩ → call.serve [] opened = none →
      Stands tape ending ⟨false, [], others⟩ next after → source.Paused tape after left →
      Pursuing source tape ending call p opened (.pending, next, after)
  | answers {answer q next after} : p.payloads = opened ++ q.payloads →
      (∀ rest, (q.payloads = [] → rest = []) →
        Prospect.attempt ending call ⟨p.failed, p.residual, opened ++ rest⟩ =
          (.ready answer, ⟨q.failed, q.residual, rest⟩)) →
      Stands tape ending q next after →
      Pursuing source tape ending call p opened (.ready answer, next, after)

theorem Stands.attempt (hands : source.Hands tape) (stands : Stands tape ending p r w) (call : Call) :
    Pursuing source tape ending call p (r.opened source call w) (r.attempt source call w) := by
  cases stands with
  | @live c last payloads _ _ faces =>
    obtain ⟨wire, middle, others, -, rfl, drawing⟩ := faces.attempt hands call
    generalize r.opened source call w = opened at drawing ⊢
    generalize r.attempt source call w = result at drawing ⊢
    cases drawing with
    | @pays bytes next after served kept =>
      refine .answers rfl (fun rest _ => ?_) (.live kept)
      simp [Prospect.attempt, Call.serve_append served]
    | waits nothing clear kept paused =>
      have first := (Call.serve_eq_none_iff.1 nothing).1.1
      rw [first] at nothing ⊢
      exact .waits rfl nothing (kept.stands clear) paused
    | ended nothing none closed clear kept =>
      subst none closed
      refine .answers rfl (fun rest empty => ?_) (kept.stands clear)
      rw [empty rfl, List.append_nil, Prospect.attempt]
      simp [nothing]
    | failed nothing none failing halted clear =>
      subst none failing
      refine .answers rfl (fun rest empty => ?_) (.halted halted clear)
      rw [empty rfl, List.append_nil, Prospect.attempt]
      simp [nothing]
  | halted halted clear =>
    rw [(attempt_passing source call r w).opened_of_terminated halted, attempt_refused halted clear]
    exact .answers rfl (fun rest empty => by rw [empty rfl]; rfl) (.halted halted clear)

theorem Stands.of_paused (hands : source.Hands tape) (prompt : source.Prompt tape)
    (stands : Stands tape ending p r w) (alive : p.failed = false) {left : Tape}
    (paused : source.Paused tape w left) : p.payloads = [] ∧ ending = .quiet := by
  cases stands with
  | live faces => exact faces.of_paused hands prompt paused
  | halted => cases alive

/-- Where the stream keeps nothing back, attempts come to what the prospect says. -/
theorem Stands.attempt_prompt (hands : source.Hands tape) (prompt : source.Prompt tape)
    (stands : Stands tape ending p r w) (call : Call) :
    ∃ next after, r.attempt source call w = ((p.attempt ending call).1, next, after) ∧
      Stands tape ending (p.attempt ending call).2 next after := by
  have pursuing := stands.attempt hands call
  generalize r.opened source call w = opened at pursuing
  generalize r.attempt source call w = result at pursuing ⊢
  cases pursuing with
  | @waits others next after left same nothing kept paused =>
    obtain ⟨none, rfl⟩ := kept.of_paused hands prompt rfl paused
    simp only at none
    subst none same
    have waits : Prospect.attempt .quiet call ⟨false, [], opened ++ []⟩ =
        (.pending, ⟨false, [], []⟩) := by
      simp [Prospect.attempt, nothing]
    rw [waits]
    exact ⟨next, after, rfl, kept⟩
  | @answers answer q next after same answered kept =>
    have there := answered q.payloads id
    rw [← same] at there
    rw [there]
    exact ⟨next, after, rfl, kept⟩

theorem Stands.replies (hands : source.Hands tape) (prompt : source.Prompt tape)
    (stands : Stands tape ending p r w) (calls : List Call) :
    (run source calls r w).1.map Completed.reply = p.replies ending calls := by
  induction calls generalizing p r w with
  | nil => rfl
  | cons call calls ih =>
    obtain ⟨next, after, made, kept⟩ := stands.attempt_prompt hands prompt call
    rw [Prospect.replies]
    split <;> rename_i attempted <;> rw [attempted] at made kept
    · rw [run_cons_of_pending made]
      exact ih kept
    · rw [run_cons_of_ready made, List.map_cons, ih kept]
      rfl

theorem Stands.turn (stands : Stands tape ending p r w) {after : ω} (same : tape after = tape w) :
    Stands tape ending p r after := by
  cases stands with
  | live faces => exact .live (faces.elsewhere same)
  | halted halted clear => exact .halted halted clear

theorem draw_empty {call : Call} (reads : call ≠ .receive) {extra : List Bytes}
    (empty : ∀ payload ∈ extra, payload = []) : call.draw extra = none := by
  induction extra with
  | nil => rfl
  | cons payload extra ih =>
    obtain ⟨first, others⟩ := List.forall_mem_cons.1 empty
    rw [Call.draw, if_neg (not_or.2 ⟨reads, not_not.2 first⟩), ih others]

/-- Empty payloads in front make no difference, but to a call that receives. They stay there only as long as
calls ask for nothing, or after a failure. -/
theorem Prospect.attempt_behind {call : Call} {extra : List Bytes}
    (empty : ∀ payload ∈ extra, payload = []) (clear : extra ≠ [] → p.residual = [])
    (passes : extra ≠ [] → p.failed = false → call ≠ .receive)
    {answer : Except Error Bytes} {next : Prospect}
    (answered : p.attempt ending call = (.ready answer, next)) :
    ∃ left, (∀ payload ∈ left, payload = []) ∧
      (left ≠ [] → extra ≠ [] ∧ next.residual = [] ∧
        (next.failed = false → p.failed = false ∧ call = .read 0)) ∧
      Prospect.attempt ending call ⟨p.failed, p.residual, extra ++ p.payloads⟩ =
        (.ready answer, ⟨next.failed, next.residual, left ++ next.payloads⟩) := by
  by_cases none : extra = []
  · subst none
    exact ⟨[], nofun, fun some => absurd rfl some, answered⟩
  obtain ⟨failed, residual, payloads⟩ := p
  obtain rfl : residual = [] := clear none
  simp only [attempt] at answered ⊢
  by_cases halted : failed = true
  · rw [if_pos halted] at answered ⊢
    cases answered
    exact ⟨extra, empty, fun some => ⟨some, rfl, fun alive => absurd (halted.symm.trans alive) (by simp)⟩, rfl⟩
  rw [if_neg halted] at answered ⊢
  by_cases nothing : call = .read 0
  · subst nothing
    cases answered
    exact ⟨extra, empty, fun some => ⟨some, rfl, fun _ => ⟨Bool.eq_false_iff.2 halted, rfl⟩⟩, rfl⟩
  · have reads := passes none (Bool.eq_false_iff.2 halted)
    rw [Call.serve_of_clear rfl nothing] at answered ⊢
    rw [Call.draw_append_of_none (draw_empty reads empty)]
    exact ⟨[], nofun, fun some => absurd rfl some, answered⟩

/-- The first call that asks for anything and is answered is one that reads. -/
def ReadsNext (made : List (Visit ω)) : Prop :=
  ((made.filterMap Visit.reply?).map Prod.fst).find? (· ≠ .read 0) ≠ some .receive

theorem Visit.spent_subset (v : Visit ω) : v.spent ⊆ v.opened := by
  rw [spent]
  split
  · exact List.nil_subset _
  · exact List.Subset.refl _

theorem spent_subset_opened (made : List (Visit ω)) (waiting : List Bytes) :
    made.flatMap Visit.spent ++ waiting ⊆ made.flatMap Visit.opened ++ waiting := by
  intro payload member
  rcases List.mem_append.1 member with spent | later
  · obtain ⟨v, there, got⟩ := List.mem_flatMap.1 spent
    exact List.mem_append_left _ (List.mem_flatMap.2 ⟨v, there, v.spent_subset got⟩)
  · exact List.mem_append_right _ later

/-- The answered calls are answered as if they had been made alone, on the stream without the frames that
the others have opened. -/
theorem Stands.visits_spent (hands : source.Hands tape) {moves : List (Move ω)}
    (keeps : ∀ move ∈ moves, move.Keeps tape)
    (stands : Stands tape ending p r w) :
    ∃ waiting, p.payloads = (visits source moves r w).flatMap Visit.opened ++ waiting ∧
      Prospect.replies ending (((visits source moves r w).filterMap Visit.reply?).map Prod.fst)
          ⟨p.failed, p.residual, (visits source moves r w).flatMap Visit.spent ++ waiting⟩ =
        (visits source moves r w).filterMap Visit.reply? := by
  induction moves generalizing p r w with
  | nil => exact ⟨p.payloads, rfl, rfl⟩
  | cons move moves ih =>
    obtain ⟨first, others⟩ := List.forall_mem_cons.1 keeps
    cases move with
    | change turn => exact ih others (stands.turn (first w))
    | call call =>
      have pursuing := stands.attempt hands call
      rw [visits, visit]
      generalize r.opened source call w = opened at pursuing ⊢
      generalize r.attempt source call w = result at pursuing ⊢
      cases pursuing with
      | waits same nothing kept =>
        obtain ⟨waiting, split, replies⟩ := ih others kept
        simp only at split
        subst same split
        exact ⟨waiting, (List.append_assoc ..).symm, replies⟩
      | @answers answer _ _ _ same answered kept =>
        obtain ⟨waiting, split, replies⟩ := ih others kept
        refine ⟨waiting, by rw [same, split]; exact (List.append_assoc ..).symm, ?_⟩
        have there := answered _ fun none =>
          List.subset_nil.1
            (split.symm.trans none ▸ spent_subset_opened (visits source moves _ _) waiting)
        rw [← List.append_assoc] at there
        exact (Prospect.replies_cons there).trans (congrArg _ replies)

/-- The answered calls are answered as if they had been made alone, behind some empty frames that were
opened for nothing. This fails if one of them receives such a frame. -/
theorem Stands.visits_behind (hands : source.Hands tape) {moves : List (Move ω)}
    (keeps : ∀ move ∈ moves, move.Keeps tape)
    (stands : Stands tape ending p r w) {extra : List Bytes} (empty : ∀ payload ∈ extra, payload = [])
    (clear : extra ≠ [] → p.residual = [])
    (passes : extra ≠ [] → p.failed = false → ReadsNext (visits source moves r w))
    (resumed : ∀ v later, v :: later <:+ visits source moves r w → v.answer = .pending → v.opened ≠ [] →
      ReadsNext later) :
    Prospect.replies ending (((visits source moves r w).filterMap Visit.reply?).map Prod.fst)
        ⟨p.failed, p.residual, extra ++ p.payloads⟩ =
      (visits source moves r w).filterMap Visit.reply? := by
  induction moves generalizing p r w extra with
  | nil => rfl
  | cons move moves ih =>
    obtain ⟨first, others⟩ := List.forall_mem_cons.1 keeps
    cases move with
    | change turn => exact ih others (stands.turn (first w)) empty clear passes resumed
    | call call =>
      have pursuing := stands.attempt hands call
      rw [visits, visit] at passes resumed ⊢
      generalize r.opened source call w = opened at pursuing passes resumed ⊢
      generalize r.attempt source call w = result at pursuing passes resumed ⊢
      have lost := resumed _ _ List.suffix_rfl
      have later : ∀ v later, v :: later <:+ visits source moves result.2.1 result.2.2 → _ :=
        fun v later ends => resumed v later (ends.trans (List.suffix_cons ..))
      cases pursuing with
      | @waits payloads _ _ _ same nothing kept =>
        obtain ⟨hollow, -⟩ := Call.empty_of_draw (Call.serve_eq_none_iff.1 nothing).2
        have behind := ih others kept (List.forall_mem_append.2 ⟨empty, hollow⟩) (fun _ => rfl) ?_ later
        · subst same
          rwa [List.append_assoc] at behind
        · intro some _
          by_cases none : extra = []
          · rw [none] at some
            exact lost rfl some
          · subst same
            exact passes none rfl
      | @answers answer q next after same answered kept =>
        have there := answered q.payloads id
        rw [← same] at there
        have reads : extra ≠ [] → p.failed = false → call ≠ .receive := by
          rintro some alive rfl
          exact passes some alive rfl
        obtain ⟨left, hollow, kind, served⟩ := Prospect.attempt_behind empty clear reads there
        have still : left ≠ [] → q.failed = false → ReadsNext (visits source moves next after) := by
          intro some alive
          obtain ⟨more, -, goes⟩ := kind some
          obtain ⟨alive, rfl⟩ := goes alive
          exact passes more alive
        have behind := ih others kept hollow (fun some => (kind some).2.1) still later
        exact (Prospect.replies_cons served).trans (congrArg _ behind)

theorem replies_of_calls (source : Source ω) (calls : List Call) (r : Receiver) (w : ω) :
    (visits source (calls.map .call) r w).filterMap Visit.reply? =
      (run source calls r w).1.map Completed.reply := by
  induction calls generalizing r w with
  | nil => rfl
  | cons call calls ih =>
    rw [List.map_cons, visits, visit]
    generalize made : r.attempt source call w = result
    obtain ⟨answer | _, next, after⟩ := result
    · rw [run_cons_of_ready made]
      exact congrArg _ (ih next after)
    · rw [run_cons_of_pending made]
      exact ih next after

/-- What calls come to of which some are given up while they wait. The frames are opened in order, and
those that are opened for a call without an answer are empty; a call that receives never opens one for
nothing. The answered calls get what they would get if they were made alone, on the stream without those
frames. They get the same on the stream as it is, unless the next call to be answered after such a frame was
lost is one that receives. -/
theorem cancelled_calls (hands : source.Hands tape) {c last : CipherState} {messages : List Bytes}
    {wire : Bytes} (emits : Sender.Emits c messages wire last) {w : ω} {ending : Ending}
    (holds : tape w = some ⟨wire, ending⟩) {moves : List (Move ω)}
    (keeps : ∀ move ∈ moves, move.Keeps tape) :
    let made := visits source moves (start c) w
    let replies := made.filterMap Visit.reply?
    let alone bytes :=
      (run Tape.source (replies.map Prod.fst) (start c) ⟨bytes, ending⟩).1.map Completed.reply
    ∃ waiting, messages = made.flatMap Visit.opened ++ waiting ∧
      (∀ v ∈ made, v.answer = .pending →
        (∀ message ∈ v.opened, message = []) ∧ (v.call = .receive → v.opened = [])) ∧
      (∃ rest final, Sender.Emits c (made.flatMap Visit.spent ++ waiting) rest final ∧
        alone rest = replies) ∧
      ((∀ v later, v :: later <:+ made → v.answer = .pending → v.opened ≠ [] → ReadsNext later) →
        alone wire = replies) := by
  intro made replies alone
  obtain ⟨fit, frames⟩ := Sender.emits_iff.1 emits
  have stands : Stands tape ending ⟨false, [], messages⟩ (start c) w :=
    (faces_between frames fit holds []).stands rfl
  have prospect {payloads : List Bytes} {bytes : Bytes} {final : CipherState}
      (frames : c.Frames payloads bytes final)
      (fit : ∀ payload ∈ payloads, payload.length ≤ maxPayloadLength) :
      alone bytes = Prospect.replies ending (replies.map Prod.fst) ⟨false, [], payloads⟩ := by
    have faces : Faces some c final payloads ending (start c) ⟨bytes, ending⟩ :=
      faces_between frames fit rfl []
    exact (faces.stands rfl).replies Tape.hands_source Tape.prompt_source _
  obtain ⟨waiting, split, spent⟩ := stands.visits_spent hands keeps
  simp only at split
  refine ⟨waiting, split, fun v member => hollow_of_pending member, ?_, fun resumed => ?_⟩
  · have fits : ∀ payload ∈ made.flatMap Visit.spent ++ waiting, payload.length ≤ maxPayloadLength :=
      fun payload member => fit payload (split ▸ spent_subset_opened made waiting member)
    obtain ⟨rest, final, others⟩ := CipherState.Frames.of_lengths c fits
    exact ⟨rest, final, Sender.emits_iff.2 ⟨fits, others⟩, (prospect others fits).trans spent⟩
  · exact (prospect frames fit).trans
      (stands.visits_behind hands keeps (List.forall_mem_nil _) (absurd rfl) (absurd rfl) resumed)

theorem attempt_read_pieces {c middle : CipherState} {first : Bytes}
    (empty : c.frame [] = (.ok first, middle)) (size : Nat) (later : List Bytes) :
    (start c).attempt pieces (.read (size + 1)) (first :: later) = (.pending, start middle, later) := by
  have found : (start c).nextFrame pieces ((first ++ []) :: later) =
    (.ready (.ok (some [])), start middle, [] :: later) := nextFrame_piece (Nat.zero_le _) empty [] [] later
  rw [List.append_nil] at found
  rw [attempt_eq, if_neg (by simp [start]), found]
  simp only [reduceCtorEq, ne_eq, not_true, or_self, if_false]
  exact attempt_of_nextFrame rfl (by simp) (nextFrame_pieces_pause middle [] later) (by simp)

theorem attempt_piece {c last : CipherState} {payload wire : Bytes}
    (fits : payload.length ≤ maxPayloadLength) (framed : c.frame payload = (.ok wire, last))
    (rest : Bytes) (later : List Bytes) (call : Call) (asks : call ≠ .read 0)
    (content : call = .receive ∨ payload ≠ []) :
    (start c).attempt pieces call ((wire ++ rest) :: later) =
      (.ready (.ok (call.split payload).1), between last (call.split payload).2, rest :: later) := by
  have found : (start c).nextFrame pieces ((wire ++ rest) :: later) =
    (.ready (.ok (some payload)), start last, rest :: later) := nextFrame_piece fits framed [] rest later
  rw [attempt_eq, if_neg (by simp [start, asks]), found]
  exact if_pos content

theorem three_frames (c : CipherState) : ∃ first middle second next third last,
    c.frame [] = (.ok first, middle) ∧ middle.frame [7] = (.ok second, next) ∧
    next.frame [8] = (.ok third, last) ∧ Sender.Emits c [[], [7], [8]] (first ++ (second ++ third)) last := by
  obtain ⟨first, middle, empty⟩ := c.frame_of_length (show [].length ≤ maxPayloadLength by decide)
  obtain ⟨second, next, seven⟩ := middle.frame_of_length (show [7].length ≤ maxPayloadLength by decide)
  obtain ⟨third, last, eight⟩ := next.frame_of_length (show [8].length ≤ maxPayloadLength by decide)
  have frames := CipherState.Frames.cons empty (.cons seven (.cons eight .nil))
  rw [List.append_nil] at frames
  exact ⟨first, middle, second, next, third, last, empty, seven, eight, Sender.emits_iff.2 ⟨by decide, frames⟩⟩

/-- A call that reads has to wait behind an empty frame and is made again, and the next one receives. The calls
that are answered get what they would get alone. -/
theorem cancelled_calls_of_two_reads :
    let c := CipherState.start (.zero 32) (.zero 32)
    ∃ first second last, pieces.Hands pieces? ∧ Sender.Emits c [[], [7], [8]] (first ++ second) last ∧
      (run pieces [.read 4, .read 4, .receive] (start c) [first, second]).1.map Completed.reply =
        [(.read 4, .ok [7]), (.receive, .ok [8])] ∧
      (run Tape.source [.read 4, .receive] (start c) ⟨first ++ second, .quiet⟩).1.map Completed.reply =
        [(.read 4, .ok [7]), (.receive, .ok [8])] := by
  intro c
  obtain ⟨first, middle, second, next, third, last, empty, seven, eight, emits⟩ := three_frames c
  have waits := attempt_read_pieces empty 3 [second ++ third]
  have reads := attempt_piece (by decide) seven third [] (.read 4) (by simp) (.inr (by simp))
  have receives := attempt_piece (by decide) eight [] [] .receive (by simp) (.inl rfl)
  rw [List.append_nil] at receives
  have made : (run pieces [.read 4, .read 4, .receive] (start c) [first, second ++ third]).1.map
      Completed.reply = [(.read 4, .ok [7]), (.receive, .ok [8])] := by
    rw [run_cons_of_pending waits, run_cons_of_ready reads]
    have other : (run pieces [.receive] (start next) [third]).1.map Completed.reply =
        [(.receive, .ok [8])] := by
      rw [run_cons_of_ready receives]
      rfl
    exact congrArg _ other
  have replies := replies_of_calls pieces [.read 4, .read 4, .receive] (start c) [first, second ++ third]
  rw [made] at replies
  have holds : pieces? [first, second ++ third] = some ⟨first ++ (second ++ third), .quiet⟩ := by
    simp [pieces?]
  have keeps : ∀ move ∈ [.read 4, .read 4, .receive].map Move.call, move.Keeps pieces? := by
    simp [Move.Keeps]
  obtain ⟨-, -, -, -, alone⟩ := cancelled_calls hands_pieces emits holds keeps
  rw [replies] at alone
  refine ⟨first, second ++ third, last, hands_pieces, emits, made, alone ?_⟩
  have silent : ((start c).visit pieces (.read 4) [first, second ++ third]).reply? = none := by
    rw [Visit.reply?, visit, waits]
  have others := (List.filterMap_cons_none silent).symm.trans replies
  intro v later ends pending some
  rcases List.suffix_cons_iff.1 ends with same | ends
  · obtain ⟨rfl, rfl⟩ := List.cons.inj same
    rw [ReadsNext, others]
    simp
  · have both := congrArg List.length others
    have answered := List.filterMap_length_eq_length.1 (both.trans rfl) v (ends.subset List.mem_cons_self)
    rw [Visit.reply?, pending] at answered
    cases answered

/-- An empty frame is lost with the call that has opened it. The next one to receive gets the frame after
it, where it would get the empty one if the first call had never been made. -/
theorem empty_frame_lost :
    let c := CipherState.start (.zero 32) (.zero 32)
    ∃ first second last, pieces.Hands pieces? ∧ Sender.Emits c [[], [7]] (first ++ second) last ∧
      (run pieces [.read 4, .receive] (start c) [first, second]).1.map Completed.reply =
        [(.receive, .ok [7])] ∧
      (run pieces [.receive] (start c) [first, second]).1.map Completed.reply = [(.receive, .ok [])] := by
  intro c
  obtain ⟨first, middle, second, next, third, last, empty, seven, -, -⟩ := three_frames c
  have emits : Sender.Emits c [[], [7]] (first ++ second) next := by
    have frames := CipherState.Frames.cons empty (.cons seven .nil)
    rw [List.append_nil] at frames
    exact Sender.emits_iff.2 ⟨by decide, frames⟩
  have received := attempt_piece (by decide) seven [] [] .receive (by simp) (.inl rfl)
  have early := attempt_piece (by decide) empty [] [second] .receive (by simp) (.inl rfl)
  rw [List.append_nil] at received early
  refine ⟨first, second, next, hands_pieces, emits, ?_, ?_⟩
  · rw [run_cons_of_pending (attempt_read_pieces empty 3 [second]), run_cons_of_ready received]
    rfl
  · rw [run_cons_of_ready early]
    rfl

end Receiver
end NoiseLink
