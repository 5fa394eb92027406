import NoiseLink.Wire

/-! What a stream is going to hand out, apart from how it cuts it into pieces and when it makes its
receiver wait. A tape that hands out at once all that it is asked for is the stream that others are
compared with: a unit that is gathered from any stream is the one that its tape begins with. -/
namespace NoiseLink

/-- What follows the last byte of a stream. -/
inductive Ending where
  /-- Nothing so far: whoever asks for more has to wait. -/
  | quiet
  | closed
  | failing (cause : NetworkError)
deriving DecidableEq

structure Tape where
  bytes : Bytes
  ending : Ending
deriving DecidableEq

namespace Tape

/-- Puts bytes back in front of what is left. -/
def rewind (t : Tape) (taken : Bytes) : Tape := ⟨taken ++ t.bytes, t.ending⟩

@[simp] theorem rewind_nil (t : Tape) : t.rewind [] = t := rfl

@[simp] theorem rewind_rewind (t : Tape) (first second : Bytes) :
    (t.rewind second).rewind first = t.rewind (first ++ second) := by
  simp [rewind]

theorem rewind_inj {t u : Tape} {taken : Bytes} : t.rewind taken = u.rewind taken ↔ t = u := by
  obtain ⟨bytes, ending⟩ := t
  obtain ⟨others, final⟩ := u
  simp [rewind]

theorem rewind_taken_inj {t : Tape} {first second : Bytes} :
    t.rewind first = t.rewind second ↔ first = second := by
  simp [rewind]

/-- One attempt to receive, which is given all that it asks for if it is there. -/
def receive : Nat → Tape → Poll (Except NetworkError Bytes) × Tape
  | 0, t => (.ready (.ok []), t)
  | _ + 1, ⟨[], .quiet⟩ => (.pending, ⟨[], .quiet⟩)
  | _ + 1, ⟨[], .closed⟩ => (.ready (.ok []), ⟨[], .closed⟩)
  | _ + 1, ⟨[], .failing cause⟩ => (.ready (.error cause), ⟨[], .failing cause⟩)
  | size + 1, ⟨byte :: bytes, ending⟩ =>
    (.ready (.ok (byte :: bytes.take size)), ⟨bytes.drop size, ending⟩)

def source : Source Tape where
  receive := receive
  supply t := t.bytes.length
  supply_le size t := by
    fun_cases receive size t with
    | case5 size byte bytes ending => simp only [List.length_drop, List.length_cons]; omega
    | _ => simp
  supply_lt size t byte bytes rest h := by
    fun_cases receive size t with
    | case5 size first others ending =>
      simp only [receive, Prod.mk.injEq] at h
      obtain ⟨-, rfl⟩ := h
      simp only [List.length_drop, List.length_cons]
      omega
    | _ => simp [receive] at h

/-- What receiving a unit of `size` bytes comes to if nothing but the end of the tape makes it wait,
and what is left of the tape. -/
def unit (size : Nat) (t : Tape) : Gathered size × Tape :=
  if long : size ≤ t.bytes.length then
    (.full ⟨t.bytes.take size, by simp [long]⟩, ⟨t.bytes.drop size, t.ending⟩)
  else
    match t.ending with
    | .quiet => (.waiting t.bytes.toArray, ⟨[], .quiet⟩)
    | .closed => (.ended t.bytes.toArray, ⟨[], .closed⟩)
    | .failing cause => (.failed cause t.bytes.toArray, ⟨[], .failing cause⟩)

theorem unit_full {size : Nat} (u : Octets size) (rest : Tape) :
    (rest.rewind u.bytes).unit size = (.full u, rest) := by
  simp [unit, rewind]

/-- A unit is the beginning of its tape. -/
theorem eq_rewind_of_unit {size : Nat} {t rest : Tape} {u : Octets size}
    (h : t.unit size = (.full u, rest)) : t = rest.rewind u.bytes := by
  rw [unit] at h
  split at h
  · simp only [Prod.mk.injEq, Gathered.full.injEq] at h
    obtain ⟨rfl, rfl⟩ := h
    simp [rewind]
  · split at h <;> simp at h

theorem eq_closed_of_unit {size : Nat} {t rest : Tape} {got : Array UInt8}
    (h : t.unit size = (.ended got, rest)) : t = ⟨got.toList, .closed⟩ ∧ rest = ⟨[], .closed⟩ := by
  obtain ⟨bytes, ending⟩ := t
  rw [unit] at h
  split at h
  · simp at h
  · cases ending with
    | closed =>
      simp only [Prod.mk.injEq, Gathered.ended.injEq] at h
      obtain ⟨rfl, rfl⟩ := h
      exact ⟨rfl, rfl⟩
    | quiet => simp at h
    | failing cause => simp at h

theorem unit_short {size : Nat} (got : Bytes) (short : got.length < size) (ending : Ending) :
    unit size ⟨got, ending⟩ =
      match ending with
      | .quiet => (.waiting got.toArray, ⟨[], .quiet⟩)
      | .closed => (.ended got.toArray, ⟨[], .closed⟩)
      | .failing cause => (.failed cause got.toArray, ⟨[], .failing cause⟩) := by
  rw [unit, dif_neg (by simp only; omega)]

/-- Behind what there is of a unit already, a tape has what is missing of it, or less. -/
theorem unit_cases {size : Nat} (got : Bytes) (fits : got.length ≤ size) (t : Tape) :
    (∃ (u : Octets size) (missing : Bytes) (rest : Tape),
      u.bytes = got ++ missing ∧ t = rest.rewind missing) ∨
      (got ++ t.bytes).length < size := by
  rw [List.length_append]
  by_cases long : size - got.length ≤ t.bytes.length
  · refine .inl ⟨⟨got ++ t.bytes.take (size - got.length), ?_⟩, _,
      ⟨t.bytes.drop (size - got.length), t.ending⟩, rfl, by simp [rewind]⟩
    rw [List.length_append, List.length_take]
    omega
  · exact .inr (by omega)

end Tape

/-- The worlds in which a stream hands out a tape. It may cut the bytes into pieces of any size and
may let its receiver wait at any attempt, but it ends or fails only where the tape does. -/
structure Source.Hands (source : Source ω) (tape : ω → Option Tape) : Prop where
  pending : ∀ {w after t size}, tape w = some t → 0 < size →
    source.receive size w = (.pending, after) → tape after = some t
  ended : ∀ {w after t size}, tape w = some t → 0 < size →
    source.receive size w = (.ready (.ok []), after) → t = ⟨[], .closed⟩ ∧ tape after = some t
  failed : ∀ {w after t size cause}, tape w = some t → 0 < size →
    source.receive size w = (.ready (.error cause), after) →
    t = ⟨[], .failing cause⟩ ∧ tape after = some t
  delivered : ∀ {w after t size byte bytes}, tape w = some t → 0 < size →
    source.receive size w = (.ready (.ok (byte :: bytes)), after) →
    bytes.length < size ∧ ∃ rest : Tape, t = rest.rewind (byte :: bytes) ∧ tape after = some rest

inductive Tape.Handing (tape : ω → Option Tape) (size : Nat) (t : Tape) :
    Poll (Except NetworkError Bytes) × ω → Prop where
  | waits {after} : tape after = some t → Handing tape size t (.pending, after)
  | ended {after} : t = ⟨[], .closed⟩ → tape after = some t →
      Handing tape size t (.ready (.ok []), after)
  | failed {cause after} : t = ⟨[], .failing cause⟩ → tape after = some t →
      Handing tape size t (.ready (.error cause), after)
  | delivers {piece rest after} : piece ≠ [] → piece.length ≤ size → t = rest.rewind piece →
      tape after = some rest → Handing tape size t (.ready (.ok piece), after)

theorem Source.hands_of_handing {source : Source ω} {tape : ω → Option Tape}
    (h : ∀ {w t size}, tape w = some t → 0 < size → Tape.Handing tape size t (source.receive size w)) :
    source.Hands tape where
  pending holds positive answer := by
    have handing := h holds positive
    rw [answer] at handing
    cases handing with
    | waits left => exact left
  ended holds positive answer := by
    have handing := h holds positive
    rw [answer] at handing
    cases handing with
    | ended closed left => exact ⟨closed, left⟩
    | delivers some => exact absurd rfl some
  failed holds positive answer := by
    have handing := h holds positive
    rw [answer] at handing
    cases handing with
    | failed broken left => exact ⟨broken, left⟩
  delivered holds positive answer := by
    have handing := h holds positive
    rw [answer] at handing
    cases handing with
    | delivers some fits begins left => exact ⟨fits, _, begins, left⟩

def Source.Paused (source : Source ω) (tape : ω → Option Tape) (w : ω) (t : Tape) : Prop :=
  ∃ size before, 0 < size ∧ tape before = some t ∧ source.receive size before = (.pending, w)

/-- A stream that makes its receiver wait only when it has nothing left to say. -/
def Source.Prompt (source : Source ω) (tape : ω → Option Tape) : Prop :=
  ∀ w t, source.Paused tape w t → t = ⟨[], .quiet⟩

def Gathered.Settled : Gathered size → Prop
  | .waiting _ => False
  | _ => True

theorem Source.Paused.holds {source : Source ω} {tape : ω → Option Tape} {w : ω} {t : Tape}
    (paused : source.Paused tape w t) (hands : source.Hands tape) : tape w = some t := by
  obtain ⟨size, before, positive, holds, waits⟩ := paused
  exact hands.pending holds positive waits

theorem Source.prefix_of_gather {source : Source ω} {size : Nat} {got more : Array UInt8} {w after : ω}
    (waits : source.gather size got w = (.waiting more, after)) : got.toList <+: more.toList := by
  fun_induction Source.gather source size got w with
  | case1 got w short rest answer =>
    cases waits
    exact List.prefix_rfl
  | case2 | case3 | case5 => simp at waits
  | case4 got w short byte bytes rest answer ih =>
    have begins : got.toList <+: (got ++ byte :: bytes).toList := by simp
    exact begins.trans (ih waits)

/-- However a stream cuts its tape, gathering a unit either has to wait, and then holds a part of what
the tape began with, or comes to what the tape says. -/
theorem Source.Hands.gather {source : Source ω} {tape : ω → Option Tape} {size : Nat}
    {got : Array UInt8} {w : ω} {t : Tape} (hands : source.Hands tape) (holds : tape w = some t)
    (fits : got.size ≤ size) :
    (∃ more after rest, source.gather size got w = (.waiting more, after) ∧ more.size < size ∧
      source.Paused tape after rest ∧ rest.rewind more.toList = t.rewind got.toList) ∨
    (∃ outcome after rest, source.gather size got w = (outcome, after) ∧ outcome.Settled ∧
      tape after = some rest ∧ (t.rewind got.toList).unit size = (outcome, rest)) := by
  fun_induction Source.gather source size got w generalizing t with
  | case1 got w short after answer =>
    exact .inl ⟨got, after, t, rfl, short, ⟨_, w, by omega, holds, answer⟩, rfl⟩
  | case2 got w short cause after answer =>
    obtain ⟨rfl, holds⟩ := hands.failed holds (by omega) answer
    refine .inr ⟨_, after, _, rfl, trivial, holds, ?_⟩
    simpa [Tape.rewind] using Tape.unit_short got.toList short (.failing cause)
  | case3 got w short after answer =>
    obtain ⟨rfl, holds⟩ := hands.ended holds (by omega) answer
    refine .inr ⟨_, after, _, rfl, trivial, holds, ?_⟩
    simpa [Tape.rewind] using Tape.unit_short got.toList short .closed
  | case4 got w short byte bytes after answer ih =>
    obtain ⟨bounded, rest, rfl, left⟩ := hands.delivered holds (by omega) answer
    have step := ih left (by rw [size_append_cons]; omega)
    have same : rest.rewind (got ++ byte :: bytes).toList =
        (rest.rewind (byte :: bytes)).rewind got.toList := by simp
    rwa [same] at step
  | case5 got w full =>
    have exactly : got.toList.length = size := by rw [Array.length_toList]; omega
    refine .inr ⟨_, w, t, rfl, trivial, holds, ?_⟩
    have whole : (⟨got.toList.take size, by simp; omega⟩ : Octets size) = ⟨got.toList, exactly⟩ :=
      Octets.ext (List.take_of_length_le (Nat.le_of_eq exactly))
    rw [whole]
    exact Tape.unit_full ⟨got.toList, exactly⟩ t

namespace Tape

theorem hands_source : source.Hands some := by
  refine Source.hands_of_handing ?_
  intro w t size holds positive
  cases holds
  change Handing some size w (receive size w)
  fun_cases receive size w with
  | case1 => exact absurd positive (Nat.lt_irrefl 0)
  | case2 size => exact .waits rfl
  | case3 size => exact .ended rfl rfl
  | case4 size cause => exact .failed rfl rfl
  | case5 size byte bytes ending =>
    refine .delivers (by simp) ?_ ?_ rfl
    · simp only [List.length_cons, List.length_take]
      omega
    · simp [rewind]

theorem prompt_source : source.Prompt some := by
  rintro w t ⟨size, before, positive, holds, waits⟩
  cases holds
  change receive size t = _ at waits
  fun_cases receive size t <;> simp_all [receive]

theorem gather_eq (size : Nat) (got : Array UInt8) (t : Tape) (fits : got.size ≤ size) :
    source.gather size got t = (t.rewind got.toList).unit size := by
  rcases hands_source.gather (t := t) rfl fits with
    ⟨more, after, rest, gathered, short, paused, same⟩ | ⟨outcome, after, rest, gathered, -, holds, same⟩
  · have stopped := prompt_source _ _ paused
    have held := Option.some.inj (paused.holds hands_source)
    subst stopped held
    rw [gathered, ← same]
    simpa [rewind] using (unit_short more.toList short .quiet).symm
  · cases holds
    rw [gathered, same]

end Tape
end NoiseLink
