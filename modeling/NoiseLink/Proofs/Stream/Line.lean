import NoiseLink.Proofs.Stream.Pipe

/-! Both ends of a stream that works: what is sent comes out at the far end, whole and in order, until
the stream is closed. The pipes of the in-memory network are such lines unless they are told to break
off. -/
namespace NoiseLink

def Tape.follow (t : Tape) (more : Bytes) (ending : Ending) : Tape := ⟨t.bytes ++ more, ending⟩

@[simp] theorem Tape.follow_rewind (t : Tape) (taken more : Bytes) (ending : Ending) :
    (t.rewind taken).follow more ending = (t.follow more ending).rewind taken := by
  simp [follow, rewind]

@[simp] theorem Tape.follow_follow (t : Tape) (first second : Bytes) (middle ending : Ending) :
    (t.follow first middle).follow second ending = t.follow (first ++ second) ending := by
  simp [follow]

/-- What is sent follows on the tape of the far end, and closing ends it. A sink may refuse to send or
to close, or leave a call pending; nothing is said about the tape then. -/
structure Line (sink : Sink ω) (source : Source ω) (tape : ω → Option Tape) : Prop where
  hands : source.Hands tape
  sent : ∀ {w after t bytes}, tape w = some t → t.ending = .quiet →
    sink.send bytes w = (.ready (.ok ()), after) → tape after = some (t.follow bytes .quiet)
  closed : ∀ {w after t}, tape w = some t → (∀ cause, t.ending ≠ .failing cause) →
    sink.close w = (.ready (.ok ()), after) → tape after = some (t.follow [] .closed)

/-- Leaving out worlds from which no other is reached by receiving. -/
theorem Source.Hands.restrict {source : Source ω} {tape : ω → Option Tape} (hands : source.Hands tape)
    (kept : ω → Bool) (keeps : ∀ size w, kept w = true → kept (source.receive size w).2 = true) :
    source.Hands fun w => if kept w then tape w else none := by
  refine Source.hands_of_handing ?_
  intro w t size holds positive
  by_cases inside : kept w = true
  · have still := keeps size w inside
    rw [if_pos inside] at holds
    generalize answer : source.receive size w = result at still ⊢
    obtain ⟨reply, after⟩ := result
    have same {rest : Tape} (left : tape after = some rest) :
        (if kept after = true then tape after else none) = some rest := by
      rw [if_pos still, left]
    cases reply with
    | pending => exact .waits (same (hands.pending holds positive answer))
    | ready reply =>
      cases reply with
      | error cause =>
        obtain ⟨broken, left⟩ := hands.failed holds positive answer
        exact .failed broken (same left)
      | ok bytes =>
        cases bytes with
        | nil =>
          obtain ⟨closed, left⟩ := hands.ended holds positive answer
          exact .ended closed (same left)
        | cons byte bytes =>
          obtain ⟨fits, rest, begins, left⟩ := hands.delivered holds positive answer
          exact .delivers (by simp) fits begins (same left)
  · rw [if_neg inside] at holds
    cases holds

namespace Memory

theorem Pipe.allowance_receive (p : Pipe) (who : Waiter) (size : Nat)
    (steady : p.faults.allowance = none) : (p.receive who size).2.faults.allowance = none := by
  simp only [receive, steady]
  split <;> simp [steady]

theorem Pipe.tape_of_send {p q : Pipe} {bytes : Bytes} {woken : Option Waiter}
    (h : p.send bytes = (.ready (.ok woken), q)) :
    q.faults = p.faults ∧ q.channel.maxRead = p.channel.maxRead ∧
      q.channel.tape = p.channel.tape.follow bytes .quiet := by
  rw [send] at h
  split at h
  · simp at h
  · simp at h
  · split at h
    · rename_i channel waiter sent
      rw [Channel.send] at sent
      split at sent
      · simp at sent
      · rename_i opened
        cases h
        cases sent
        exact ⟨rfl, rfl, by simp [Channel.tape, Tape.follow, opened]⟩
    · simp at h

theorem Pipe.tape_of_close {p q : Pipe} {woken : Option Waiter} (h : p.close = (.ok woken, q)) :
    q.faults = p.faults ∧ q.channel.maxRead = p.channel.maxRead ∧
      q.channel.tape = p.channel.tape.follow [] .closed := by
  rw [close] at h
  split at h
  · simp at h
  · cases h
    exact ⟨rfl, rfl, by simp [Channel.tape, Tape.follow, shut, Channel.close]⟩

namespace Fabric

@[simp] theorem pipes_wake (f : Fabric) (woken : Option Waiter) : (f.wake woken).pipes = f.pipes := by
  unfold wake
  split <;> rfl

def steady (i : Nat) (f : Fabric) : Bool := f.pipes[i]?.any fun p => p.faults.allowance.isNone

/-- The tape of a steady pipe. -/
def line? (i : Nat) (f : Fabric) : Option Tape := if f.steady i then f.tape? i else none

theorem line?_eq_some_iff {i : Nat} {f : Fabric} {t : Tape} :
    f.line? i = some t ↔ ∃ p, f.pipes[i]? = some p ∧ p.faults.allowance = none ∧
      p.channel.maxRead ≠ some 0 ∧ t = p.channel.tape := by
  cases there : f.pipes[i]? with
  | none => simp [line?, steady, there]
  | some p =>
    cases broken : p.faults.allowance with
    | none =>
      have held : f.line? i = p.tape? := by simp [line?, steady, tape?, there, broken]
      rw [held, Pipe.tape?, broken]
      by_cases limit : p.channel.maxRead = some 0
      · simp [limit, broken]
      · simp [limit, broken, eq_comm]
    | some allowance => simp [line?, steady, there, broken]

theorem line_pipe (i : Nat) (who : Waiter) : Line (sink i) (source i who) (line? i) where
  hands := by
    refine (hands_source i who).restrict (steady i) ?_
    intro size f inside
    change steady i (receive i who size f).2 = true
    cases there : f.pipes[i]? with
    | none => simp [steady, there] at inside
    | some p =>
      have broken : p.faults.allowance = none := by simpa [steady, there] using inside
      simp only [receive, there, steady, getElem?_setPipe there]
      simp [p.allowance_receive who size broken]
  sent {f after t bytes} holds quiet answer := by
    obtain ⟨p, there, broken, unlimited, rfl⟩ := line?_eq_some_iff.1 holds
    simp only [sink, there] at answer
    split at answer
    · rename_i woken q sent
      obtain ⟨same, limit, follows⟩ := Pipe.tape_of_send sent
      simp only [Prod.mk.injEq, true_and] at answer
      subst answer
      refine line?_eq_some_iff.2 ⟨q, ?_, by rw [same, broken], by rw [limit]; exact unlimited,
        follows.symm⟩
      rw [pipes_wake, getElem?_setPipe there]
    · simp at answer
    · simp at answer
  closed {f after t} holds sound answer := by
    obtain ⟨p, there, broken, unlimited, rfl⟩ := line?_eq_some_iff.1 holds
    simp only [sink, there] at answer
    split at answer
    · rename_i woken q closed
      obtain ⟨same, limit, follows⟩ := Pipe.tape_of_close closed
      simp only [Prod.mk.injEq, true_and] at answer
      subst answer
      refine line?_eq_some_iff.2 ⟨q, ?_, by rw [same, broken], by rw [limit]; exact unlimited,
        follows.symm⟩
      rw [pipes_wake, getElem?_setPipe there]
    · simp at answer

theorem prompt_line (i : Nat) (who : Waiter) : (source i who).Prompt (line? i) := by
  rintro f t ⟨size, before, positive, holds, waits⟩
  refine prompt_source i who f t ⟨size, before, positive, ?_, waits⟩
  rw [line?] at holds
  split at holds
  · exact holds
  · cases holds

theorem line?_trickle (bytes : Bytes) (closed : Bool) :
    (trickle bytes closed).line? 0 = some ⟨bytes, if closed then .closed else .quiet⟩ := by
  rw [line?, tape?_trickle]
  rfl

end Fabric
end Memory
end NoiseLink
