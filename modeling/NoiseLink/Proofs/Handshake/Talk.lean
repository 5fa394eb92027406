import NoiseLink.Proofs.Handshake.Meeting

/-! While both upgrades are under way, one act at a time is on the wires, and the side that it is meant
for is waiting for it. Polling either side keeps this so, until the dialer has sent the last act. -/
namespace NoiseLink

open Handshake

variable {ω : Type} {wires : Wires ω} {capacity : Option Nat} {incoming : Role → ω → Option Tape}
  {s : Dialogue}

def Silent (incoming : Role → ω → Option Tape) (role : Role) (w : ω) : Prop :=
  incoming role w = some ⟨[], .quiet⟩

theorem Silent.supply (apart : wires.Apart capacity incoming) {role : Role} {w : ω}
    (silent : Silent incoming role w) : (wires.source role).supply w = 0 :=
  apart.supply role silent

/-- How far the two sides have come with each other, the exchange of the dialer first, and what either
upgrade has taken from its stream. -/
inductive Talk (s : Dialogue) (incoming : Role → ω → Option Tape) :
    Exchange Session → Exchange Session → Nat → Nat → ω → Prop where
  | opening {w} : Silent incoming .dialer w → Silent incoming .listener w →
      Talk s incoming (.send s.first.bytes (.expect actTwoLength s.afterSecond))
        (.expect actOneLength s.afterFirst) 0 0 w
  | offered {got w} : Silent incoming .dialer w →
      Underway (incoming .listener) s.first got ⟨[], .quiet⟩ w →
      Talk s incoming (.expect actTwoLength s.afterSecond) (.receive actOneLength got s.afterFirst) 0
        got.size w
  | answered {got w} : Underway (incoming .dialer) s.second got ⟨[], .quiet⟩ w →
      Silent incoming .listener w →
      Talk s incoming (.receive actTwoLength got s.afterSecond) (.expect actThreeLength s.afterThird)
        got.size actOneLength w

theorem Underway.carry {tape : ω → Option Tape} {act : Octets size} {got : Array UInt8} {rest : Tape}
    {w world : ω} (underway : Underway tape act got rest w) (same : tape world = tape w) :
    Underway tape act got rest world := by
  obtain ⟨short, t, holds, begins⟩ := underway
  exact ⟨short, t, same.trans holds, begins⟩

theorem Underway.supply (apart : wires.Apart capacity incoming) {role : Role} {act : Octets size}
    {got : Array UInt8} {rest : Tape} {w : ω} (underway : Underway (incoming role) act got rest w) :
    (wires.source role).supply w + got.size = size + rest.bytes.length := by
  obtain ⟨t, holds, -⟩ := underway.lies
  rw [apart.supply role holds]
  exact underway.length holds

/-- An act that is the next to be taken is taken, and what its taker sends in return is on its way, or
its taker has to wait. -/
theorem Underway.reply (apart : wires.Apart capacity incoming) (role : Role) {act : Octets size}
    {got : Array UInt8} {w : ω} (underway : Underway (incoming role) act got ⟨[], .quiet⟩ w)
    (silent : Silent incoming role.other w) {next : Octets size → Exchange Session} {reply : Bytes}
    (room : ∀ most ∈ capacity, reply.length ≤ most) {later : Exchange Session}
    (continues : next act = .send reply later) :
    (∃ more after left, Exchange.poll (wires.sink role) (wires.source role)
        (.receive size got next) w = (.pending, .receive size more next, after) ∧
      Underway (incoming role) act more ⟨[], .quiet⟩ after ∧
      (wires.source role).Paused (incoming role) after left ∧
      (wires.source role).supply after ≤ (wires.source role).supply w ∧
      Silent incoming role.other after) ∨
    (∃ after, Exchange.poll (wires.sink role) (wires.source role) (.receive size got next) w =
        Exchange.poll (wires.sink role) (wires.source role) later after ∧
      Silent incoming role after ∧ incoming role.other after = some ⟨reply, .quiet⟩) := by
  rcases Exchange.poll_act (wires.sink role) (apart.hands role) (apart.source_keeps role)
      underway next with
    ⟨more, after, left, waits, still, paused, less, same⟩ | ⟨middle, goes, rest, same⟩
  · exact .inl ⟨more, after, left, waits, still, paused, less, same.trans silent⟩
  · obtain ⟨after, sent, there, kept⟩ := apart.sent role (same.trans silent) rfl reply (by simpa using room)
    refine .inr ⟨after, ?_, kept.trans rest, there⟩
    rw [goes, continues, Exchange.poll_send sent]

theorem poll_opening (apart : wires.Apart capacity incoming)
    (room : ∀ most ∈ capacity, actOneLength ≤ most) (s : Dialogue) {w : ω}
    (here : Silent incoming .dialer w) (there : Silent incoming .listener w) :
    ∃ after, Exchange.poll (wires.sink .dialer) (wires.source .dialer)
        (.send s.first.bytes (.expect actTwoLength s.afterSecond)) w =
        (.pending, .expect actTwoLength s.afterSecond, after) ∧ Silent incoming .dialer after ∧
      Underway (incoming .listener) s.first #[] ⟨[], .quiet⟩ after := by
  obtain ⟨middle, sent, behind, kept⟩ := apart.sent .dialer there rfl s.first.bytes
    (by simpa using room)
  obtain ⟨after, waits, silent, same⟩ := Exchange.poll_silence (wires.sink .dialer)
    (apart.hands .dialer) (apart.source_keeps .dialer) (by decide) (kept.trans here) s.afterSecond
  exact ⟨after, by rw [Exchange.poll_send sent, waits], silent,
    (underway_of_sent (by decide) behind).carry same⟩

/-- The listener takes the first act, answers with the second and waits for the third. -/
theorem poll_offered (apart : wires.Apart capacity incoming)
    (room : ∀ most ∈ capacity, actTwoLength ≤ most) {got : Array UInt8} {w : ω}
    (here : Silent incoming .dialer w)
    (there : Underway (incoming .listener) s.first got ⟨[], .quiet⟩ w) :
    (∃ more after left, Exchange.poll (wires.sink .listener) (wires.source .listener)
        (.receive actOneLength got s.afterFirst) w =
        (.pending, .receive actOneLength more s.afterFirst, after) ∧
      Underway (incoming .listener) s.first more ⟨[], .quiet⟩ after ∧
      (wires.source .listener).Paused (incoming .listener) after left ∧
      (wires.source .listener).supply after ≤ (wires.source .listener).supply w ∧
      Silent incoming .dialer after) ∨
    (∃ after, Exchange.poll (wires.sink .listener) (wires.source .listener)
        (.receive actOneLength got s.afterFirst) w =
        (.pending, .expect actThreeLength s.afterThird, after) ∧ Silent incoming .listener after ∧
      Underway (incoming .dialer) s.second #[] ⟨[], .quiet⟩ after) := by
  rcases there.reply apart .listener here (by simpa using room) s.answers with
    waits | ⟨middle, goes, silent, behind⟩
  · exact .inl waits
  · obtain ⟨after, waits, still, same⟩ := Exchange.poll_silence (wires.sink .listener)
      (apart.hands .listener) (apart.source_keeps .listener) (by decide) silent s.afterThird
    exact .inr ⟨after, goes.trans waits, still, (underway_of_sent (by decide) behind).carry same⟩

/-- Polling the dialer leaves it waiting, or completes it: then the last act is on its way to the
listener, which is waiting for it. -/
theorem Talk.dialer (apart : wires.Apart none incoming) {d l : Exchange Session} {a b : Nat} {w : ω}
    (talk : Talk s incoming d l a b w) :
    (∃ next after, d.poll (wires.sink .dialer) (wires.source .dialer) w = (.pending, next, after) ∧
      Talk s incoming next l
        (a + ((wires.source .dialer).supply w - (wires.source .dialer).supply after)) b after) ∨
    (∃ next after, d.poll (wires.sink .dialer) (wires.source .dialer) w =
        (.ready (.ok (s.session .dialer)), next, after) ∧
      l = .expect actThreeLength s.afterThird ∧ b = actOneLength ∧
      a + ((wires.source .dialer).supply w - (wires.source .dialer).supply after) = actTwoLength ∧
      Silent incoming .dialer after ∧ Underway (incoming .listener) s.third #[] ⟨[], .quiet⟩ after) := by
  cases talk with
  | opening here there =>
    obtain ⟨after, waits, silent, offered⟩ := poll_opening apart (by simp) s here there
    refine .inl ⟨_, after, waits, ?_⟩
    rw [Silent.supply apart here, Silent.supply apart silent]
    exact .offered silent offered
  | offered here there =>
    obtain ⟨after, waits, silent, same⟩ := Exchange.poll_silence (wires.sink .dialer)
      (apart.hands .dialer) (apart.source_keeps .dialer) (by decide) here s.afterSecond
    refine .inl ⟨_, after, waits, ?_⟩
    rw [Silent.supply apart here, Silent.supply apart silent]
    exact .offered silent (there.carry same)
  | @answered got _ here there =>
    have held := here.supply apart
    rcases here.reply apart .dialer there (by simp) s.finishes with
      ⟨more, after, -, waits, still, -, less, silent⟩ | ⟨after, goes, silent, behind⟩
    · refine .inl ⟨_, after, waits, ?_⟩
      have left := still.supply apart
      have taken : got.size + ((wires.source .dialer).supply w -
          (wires.source .dialer).supply after) = more.size := by omega
      rw [taken]
      exact .answered still silent
    · refine .inr ⟨_, after, goes.trans rfl, rfl, rfl, ?_, silent, underway_of_sent (by decide) behind⟩
      rw [Silent.supply apart silent]
      simp only [List.length_nil] at held
      omega

/-- Polling the listener leaves it waiting, for the first act or for the third. -/
theorem Talk.listener (apart : wires.Apart none incoming) {d l : Exchange Session} {a b : Nat} {w : ω}
    (talk : Talk s incoming d l a b w) :
    ∃ next after, l.poll (wires.sink .listener) (wires.source .listener) w =
        (.pending, next, after) ∧
      Talk s incoming d next a
        (b + ((wires.source .listener).supply w - (wires.source .listener).supply after)) after := by
  cases talk with
  | opening here there =>
    obtain ⟨after, waits, silent, same⟩ := Exchange.poll_silence (wires.sink .listener)
      (apart.hands .listener) (apart.source_keeps .listener) (by decide) there s.afterFirst
    refine ⟨_, after, waits, ?_⟩
    rw [Silent.supply apart there, Silent.supply apart silent]
    exact .opening (same.trans here) silent
  | @offered got _ here there =>
    have held := there.supply apart
    rcases poll_offered apart (by simp) here there with
      ⟨more, after, -, waits, still, -, less, silent⟩ | ⟨after, waits, silent, answered⟩
    · refine ⟨_, after, waits, ?_⟩
      have left := still.supply apart
      have taken : got.size + ((wires.source .listener).supply w -
          (wires.source .listener).supply after) = more.size := by omega
      rw [taken]
      exact .offered silent still
    · refine ⟨_, after, waits, ?_⟩
      have taken : got.size + ((wires.source .listener).supply w -
          (wires.source .listener).supply after) = actOneLength := by
        rw [Silent.supply apart silent]
        simp only [List.length_nil] at held
        omega
      rw [taken]
      exact .answered answered silent
  | answered here there =>
    obtain ⟨after, waits, silent, same⟩ := Exchange.poll_silence (wires.sink .listener)
      (apart.hands .listener) (apart.source_keeps .listener) (by decide) there s.afterThird
    refine ⟨_, after, waits, ?_⟩
    rw [Silent.supply apart there, Silent.supply apart silent]
    exact .answered (here.carry same) silent

/-- As long as the two sides talk, one of them can go on: the one that the last act was meant for. -/
theorem Talk.moves (apart : wires.Apart none incoming) {d l : Exchange Session} {a b : Nat} {w : ω}
    (talk : Talk s incoming d l a b w) : wires.Moves .dialer d w ∨ wires.Moves .listener l w := by
  cases talk with
  | opening here there =>
    obtain ⟨after, waits, -, offered⟩ := poll_opening apart (by simp) s here there
    refine .inl ⟨_, _, after, waits, .inr ⟨.listener, ?_⟩⟩
    have held := offered.supply apart
    rw [Silent.supply apart there]
    simp [actOneLength] at held
    omega
  | offered here there =>
    have short := there.short
    have held := there.supply apart
    rcases poll_offered apart (by simp) here there with
      ⟨more, after, left, -, still, paused, -⟩ | ⟨after, waits, silent, -⟩
    · exact absurd paused (still.not_paused (apart.hands .listener) (apart.prompt .listener))
    · refine .inr ⟨_, _, after, waits, .inr ⟨.listener, ?_⟩⟩
      rw [Silent.supply apart silent]
      omega
  | answered here there =>
    rcases here.reply apart .dialer there (by simp) s.finishes with
      ⟨more, after, left, -, still, paused, -⟩ | ⟨after, goes, -⟩
    · exact absurd paused (still.not_paused (apart.hands .dialer) (apart.prompt .dialer))
    · exact .inl ⟨_, _, after, goes.trans rfl, .inl nofun⟩

end NoiseLink
