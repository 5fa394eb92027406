import NoiseLink.BufferedReceiver

/-! What passes between a receiver and its stream, or between it and its cipher, told by the stages that it
goes through. It asks for what is missing of a unit and for no more, and the cipher gets a unit when all of
it has come, made of nothing else than what has come for it. -/
namespace NoiseLink

open BufferedReceiver (Contact)

namespace BufferedReceiver

def Contact.bytes : Contact → Bytes
  | .asked _ (.ready (.ok bytes)) => bytes
  | _ => []

/-- The bytes that have come in since the cipher was last given a unit, of which some were there before. -/
def sinceOpened : Bytes → List Contact → Bytes
  | held, [] => held
  | held, .asked size answer :: log => sinceOpened (held ++ Contact.bytes (.asked size answer)) log
  | _, .opened _ _ :: log => sinceOpened [] log

def Ended (log : List Contact) : Prop := ∃ size, log.getLast? = some (.asked size (.ready (.ok [])))

theorem Ended.behind {log : List Contact} (ended : Ended log) (earlier : List Contact) :
    Ended (earlier ++ log) := by
  obtain ⟨size, last⟩ := ended
  exact ⟨size, by rw [List.getLast?_append, last, Option.some_or]⟩

end BufferedReceiver

namespace Stage

def got : Stage → Array UInt8
  | header got => got
  | body _ got => got

def size : Stage → Nat
  | header _ => headerLength
  | body length _ => length + Aead.tagLength

def holding (got : Array UInt8) : Stage → Stage
  | header _ => .header got
  | body length _ => .body length got

@[simp] theorem got_holding (got : Array UInt8) (s : Stage) : (s.holding got).got = got := by
  cases s <;> rfl

@[simp] theorem size_holding (got : Array UInt8) (s : Stage) : (s.holding got).size = s.size := by
  cases s <;> rfl

@[simp] theorem holding_holding (got more : Array UInt8) (s : Stage) :
    (s.holding got).holding more = s.holding more := by
  cases s <;> rfl

/-- What may happen at a stage, and the stage after it. -/
inductive Step : Stage → Contact → Stage → Prop where
  /-- The stream is asked for what is missing, and what it delivers comes behind what is there. -/
  | asked {stage : Stage} {size : Nat} {answer : Poll (Except NetworkError Bytes)} :
      stage.got.size + size = stage.size → 0 < size → answer.delivered ≤ size →
      Step stage (.asked size answer) (stage.holding (stage.got ++ Contact.bytes (.asked size answer)))
  /-- A header opens to two bytes, and these are the length of the payload. -/
  | length {got : Array UInt8} {high low : UInt8} : got.size = headerLength →
      Step (.header got) (.opened got.toList (.ok [high, low])) (.body (Bytes.ofBigEndian [high, low]) #[])
  | payload {length : Nat} {got : Array UInt8} {payload : Bytes} : got.size = length + Aead.tagLength →
      Step (.body length got) (.opened got.toList (.ok payload)) .idle
  | refused {stage : Stage} {error : Error} : stage.got.size = stage.size →
      Step stage (.opened stage.got.toList (.error error)) .idle

inductive Trail : Stage → List Contact → Stage → Prop where
  | nil {stage} : Trail stage [] stage
  | cons {stage contact middle log last} : Step stage contact middle → Trail middle log last →
      Trail stage (contact :: log) last

theorem Trail.append {stage middle last : Stage} {first second : List Contact}
    (before : Trail stage first middle) (after : Trail middle second last) :
    Trail stage (first ++ second) last := by
  induction before with
  | nil => exact after
  | cons step _ ih => exact .cons step (ih after)

theorem Step.trail {stage last : Stage} {contact : Contact} (step : Step stage contact last) :
    Trail stage [contact] last :=
  .cons step .nil

theorem Trail.split {stage last : Stage} {first second : List Contact}
    (trail : Trail stage (first ++ second) last) :
    ∃ middle, Trail stage first middle ∧ Trail middle second last := by
  induction first generalizing stage with
  | nil => exact ⟨stage, .nil, trail⟩
  | cons contact first ih =>
    cases trail with
    | cons step rest =>
      obtain ⟨middle, before, after⟩ := ih rest
      exact ⟨middle, .cons step before, after⟩

/-- What a stage holds is what has come in since the cipher was last given a unit. -/
theorem Trail.sinceOpened {stage last : Stage} {log : List Contact} (trail : Trail stage log last) :
    BufferedReceiver.sinceOpened stage.got.toList log = last.got.toList := by
  induction trail with
  | nil => rfl
  | cons step _ ih =>
    rw [← ih]
    cases step with
    | asked => simp [BufferedReceiver.sinceOpened]
    | length => rfl
    | payload => rfl
    | refused => rfl

theorem Step.opened {stage next : Stage} {unit : Bytes} {answer : Except Error Bytes}
    (step : Step stage (.opened unit answer) next) :
    unit = stage.got.toList ∧ unit.length = stage.size := by
  cases step with
  | length whole => exact ⟨rfl, whole⟩
  | payload whole => exact ⟨rfl, whole⟩
  | refused whole => exact ⟨rfl, whole⟩

/-- The cipher gets what has come in since it was last given a unit, and this is as much as the next unit
has. -/
theorem Trail.opened {stage last : Stage} {earlier later : List Contact} {unit : Bytes}
    {answer : Except Error Bytes} (trail : Trail stage (earlier ++ .opened unit answer :: later) last) :
    unit = BufferedReceiver.sinceOpened stage.got.toList earlier ∧
      ∃ middle, Trail stage earlier middle ∧ unit.length = middle.size := by
  obtain ⟨middle, before, after⟩ := trail.split
  cases after with
  | cons step _ =>
    obtain ⟨all, whole⟩ := step.opened
    exact ⟨all.trans before.sinceOpened.symm, middle, before, whole⟩

variable {held : Bytes} {size : Nat} {answer : Poll (Except NetworkError Bytes)}

theorem asks (stage : Stage) (room : held.length + size = stage.size) (wants : 0 < size)
    (fits : answer.delivered ≤ size) :
    (stage.holding held.toArray).Step (.asked size answer)
      (stage.holding (held ++ Contact.bytes (.asked size answer)).toArray) := by
  have step : Step (stage.holding held.toArray) (.asked size answer) _ :=
    .asked (by simpa using room) wants fits
  simpa using step

theorem asks_nothing (stage : Stage) (room : held.length + size = stage.size) (wants : 0 < size)
    (nothing : Contact.bytes (.asked size answer) = []) :
    (stage.holding held.toArray).Trail [.asked size answer] (stage.holding held.toArray) := by
  have silent : answer.delivered = 0 := by
    rcases answer with (cause | bytes) | _
    · rfl
    · exact congrArg List.length nothing
    · rfl
  have step := stage.asks room wants (silent ▸ Nat.zero_le size)
  rw [nothing, List.append_nil] at step
  exact step.trail

end Stage
end NoiseLink
