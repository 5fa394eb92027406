import NoiseLink.Memory.Fabric
import NoiseLink.Proofs.Stream.Tape

/-! The pipes of the in-memory network hand out tapes, whatever limit there is to single reads and
wherever they are told to break off. Only a limit of no bytes at all cannot be told from the end of
the stream. -/
namespace NoiseLink

def Channel.tape (c : Channel τ) : Tape :=
  ⟨c.buffer.toList, if c.closed then .closed else .quiet⟩

/-- What an attempt to receive comes to: it takes a piece off the front, and none only if it asked for none or
the stream has ended, or it registers with a channel that is empty and open. -/
theorem Channel.receive_answers {τ : Type} (c : Channel τ) (who : τ) (size : Nat) :
    (∃ bytes left, c.receive who size = (.ready bytes, { c with buffer := left }) ∧
      c.buffer.toList = bytes ++ left.toList ∧ bytes.length ≤ min size (c.maxRead.getD size) ∧
      (bytes = [] → size = 0 ∨ c.maxRead = some 0 ∨ c.buffer.toList = [] ∧ c.closed = true)) ∨
    (c.receive who size = (.pending, { c with waiter := some who }) ∧
      c.buffer.toList = [] ∧ c.closed = false) := by
  by_cases asks : size = 0
  · exact .inl ⟨[], c.buffer, by simp [Channel.receive, asks], by simp [asks]⟩
  by_cases empty : c.buffer.isEmpty = true
  · have none := (ByteQueue.isEmpty_iff c.buffer).1 empty
    cases ended : c.closed with
    | true => exact .inl ⟨[], c.buffer, by simp [Channel.receive, asks, empty, ← ended], by simp [none]⟩
    | false => exact .inr ⟨by simp [Channel.receive, asks, empty, ended], none, rfl⟩
  · have some : c.buffer.toList ≠ [] := fun none => empty ((ByteQueue.isEmpty_iff c.buffer).2 none)
    obtain ⟨count, reads⟩ : ∃ count, count = min size (c.maxRead.getD size) := ⟨_, rfl⟩
    refine .inl ⟨c.buffer.toList.take count, (c.buffer.take count).2, ?_, ?_, ?_, ?_⟩
    · simp [Channel.receive, asks, empty, ← reads]
    · simp
    · rw [← reads]
      exact List.length_take_le ..
    · intro nothing
      have zero : count = 0 := by simpa [some] using nothing
      cases limit : c.maxRead with
      | none => exact .inl (by simpa [limit, zero] using reads.symm)
      | some most =>
        simp only [limit, Option.getD_some] at reads
        have least : most = 0 := by omega
        simp [least]

theorem Channel.receive_cases {τ : Type} (c : Channel τ) (who : τ) {size : Nat} (positive : 0 < size)
    (unlimited : c.maxRead ≠ some 0) : ∃ next, next.maxRead = c.maxRead ∧
    ((c.receive who size = (.pending, next) ∧ c.tape = ⟨[], .quiet⟩ ∧ next.tape = c.tape) ∨
    (c.receive who size = (.ready [], next) ∧ c.tape = ⟨[], .closed⟩ ∧ next.tape = c.tape) ∨
    (∃ piece, c.receive who size = (.ready piece, next) ∧ piece ≠ [] ∧ piece.length ≤ size ∧
      c.tape = next.tape.rewind piece)) := by
  rcases c.receive_answers who size with ⟨piece, left, answer, split, fits, last⟩ | ⟨answer, empty, opened⟩
  · refine ⟨{ c with buffer := left }, rfl, .inr ?_⟩
    by_cases none : piece = []
    · subst none
      rcases last rfl with zero | zero | ⟨empty, ended⟩
      · omega
      · exact absurd zero unlimited
      · exact .inl ⟨answer, by simp [tape, empty, ended], by simp [tape, split]⟩
    · exact .inr ⟨piece, answer, none, by omega, by simp [tape, Tape.rewind, split]⟩
  · exact ⟨{ c with waiter := some who }, rfl, .inl ⟨answer, by simp [tape, empty, opened], rfl⟩⟩

def Tape.breakOff (left : Nat) (cause : NetworkError) (t : Tape) : Tape :=
  if left ≤ t.bytes.length then ⟨t.bytes.take left, .failing cause⟩ else t

/-- What was delivered counts towards the bytes after which a tape breaks off. -/
theorem Tape.breakOff_rewind {left : Nat} {piece : Bytes} (fits : piece.length ≤ left)
    (cause : NetworkError) (t : Tape) :
    (t.rewind piece).breakOff left cause = (t.breakOff (left - piece.length) cause).rewind piece := by
  by_cases long : left ≤ piece.length + t.bytes.length
  · have short : left - piece.length ≤ t.bytes.length := by omega
    simp [breakOff, rewind, long, short, List.take_append, List.take_of_length_le fits]
  · have open' : ¬ left - piece.length ≤ t.bytes.length := by omega
    simp [breakOff, rewind, long, open']

namespace Memory

/-- What the receiving end of a pipe is going to hand out. -/
def Pipe.tape? (p : Pipe) : Option Tape :=
  if p.channel.maxRead = some 0 then none
  else
    match p.faults.allowance with
    | none => some p.channel.tape
    | some (left, cause) => some (p.channel.tape.breakOff left cause)

/-- A pipe hands out its tape, and has its receiver wait only while it is open and empty. -/
theorem Pipe.handing_receive (p : Pipe) (who : Waiter) {t : Tape} {size : Nat}
    (holds : p.tape? = some t) (positive : 0 < size) :
    Tape.Handing Pipe.tape? size t (p.receive who size) ∧
      ((p.receive who size).1 = .pending → t = ⟨[], .quiet⟩) := by
  have unlimited : p.channel.maxRead ≠ some 0 := by
    intro limit
    simp [tape?, limit] at holds
  cases broken : p.faults.allowance with
  | none =>
    simp only [receive, broken, Option.elim_none]
    simp only [tape?, unlimited, if_false, broken, Option.some.injEq] at holds
    subst holds
    obtain ⟨next, same, cases⟩ := p.channel.receive_cases who positive unlimited
    have kept : next.maxRead ≠ some 0 := same ▸ unlimited
    rcases cases with
      ⟨answer, quiet, left⟩ | ⟨answer, ended, left⟩ | ⟨piece, answer, filled, fits, left⟩
    · rw [answer]
      exact ⟨.waits (by simp [tape?, kept, broken, left]), fun _ => quiet⟩
    · rw [answer]
      exact ⟨.ended ended (by simp [tape?, kept, left]), by simp⟩
    · rw [answer]
      exact ⟨.delivers filled fits left (by simp [tape?, kept]), by simp⟩
  | some allowance =>
    obtain ⟨left, cause⟩ := allowance
    simp only [tape?, unlimited, if_false, broken, Option.some.injEq] at holds
    subst holds
    cases left with
    | zero =>
      simp only [receive, broken]
      exact ⟨.failed (by simp [Tape.breakOff]) (by simp [tape?, unlimited, broken]), by simp⟩
    | succ left =>
      simp only [receive, broken, Option.elim_some]
      have asks : 0 < min size (left + 1) := by omega
      obtain ⟨next, same, cases⟩ := p.channel.receive_cases who asks unlimited
      have kept : next.maxRead ≠ some 0 := same ▸ unlimited
      rcases cases with
        ⟨answer, quiet, rest⟩ | ⟨answer, ended, rest⟩ | ⟨piece, answer, filled, fits, rest⟩
      · rw [answer]
        exact ⟨.waits (by simp [tape?, kept, broken, rest]), fun _ => by simp [Tape.breakOff, quiet]⟩
      · rw [answer]
        exact ⟨.ended (by simp [Tape.breakOff, ended]) (by simp [tape?, kept, rest]), by simp⟩
      · rw [answer]
        have within : piece.length ≤ left + 1 := by omega
        have begins := Tape.breakOff_rewind within cause next.tape
        rw [← rest] at begins
        exact ⟨.delivers filled (by omega) begins (by simp [tape?, kept]), by simp⟩

namespace Fabric

def tape? (i : Nat) (f : Fabric) : Option Tape := f.pipes[i]?.bind Pipe.tape?

theorem getElem?_setPipe {i : Nat} {f : Fabric} {p : Pipe} (there : f.pipes[i]? = some p) (q : Pipe) :
    (f.setPipe i q).pipes[i]? = some q := by
  obtain ⟨inside, -⟩ := Array.getElem?_eq_some_iff.1 there
  simp [setPipe, inside]

theorem tape?_setPipe {i : Nat} {f : Fabric} {p : Pipe} (there : f.pipes[i]? = some p) (q : Pipe) :
    (f.setPipe i q).tape? i = q.tape? := by
  rw [tape?, getElem?_setPipe there, Option.bind_some]

/-- The receiving end of a pipe hands out what the pipe holds. -/
theorem hands_source (i : Nat) (who : Waiter) : (source i who).Hands (tape? i) := by
  refine Source.hands_of_handing ?_
  intro f t size holds positive
  obtain ⟨p, there, holds⟩ := Option.bind_eq_some_iff.1 holds
  have handing := (p.handing_receive who holds positive).1
  change Tape.Handing (tape? i) size t (receive i who size f)
  simp only [receive, there]
  generalize p.receive who size = answer at handing ⊢
  cases handing with
  | waits left => exact .waits ((tape?_setPipe there _).trans left)
  | ended closed left => exact .ended closed ((tape?_setPipe there _).trans left)
  | failed broken left => exact .failed broken ((tape?_setPipe there _).trans left)
  | delivers filled fits begins left =>
    exact .delivers filled fits begins ((tape?_setPipe there _).trans left)

theorem prompt_source (i : Nat) (who : Waiter) : (source i who).Prompt (tape? i) := by
  rintro after t ⟨size, f, positive, holds, waits⟩
  obtain ⟨p, there, holds⟩ := Option.bind_eq_some_iff.1 holds
  refine (p.handing_receive who holds positive).2 ?_
  change receive i who size f = _ at waits
  simp only [receive, there, Prod.mk.injEq] at waits
  exact waits.1

/-- A network of one pipe, which holds some bytes and delivers them one by one. -/
def trickle (bytes : Bytes) (closed : Bool) : Fabric :=
  { pipes := #[{ channel := { buffer := .ofBytes bytes, closed, maxRead := some 1 } }] }

theorem tape?_trickle (bytes : Bytes) (closed : Bool) :
    (trickle bytes closed).tape? 0 = some ⟨bytes, if closed then .closed else .quiet⟩ := by
  simp [tape?, trickle, Pipe.tape?, Channel.tape, ByteQueue.ofBytes, ByteQueue.toList]

end Fabric
end Memory
end NoiseLink
