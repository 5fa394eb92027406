import NoiseLink.Proofs.Crypto.Keys
import NoiseLink.Proofs.Handshake.Talk
import NoiseLink.Proofs.Receiver.Cut

/-! The whole of a meeting. The dialer is connected as soon as it has sent the last act, and what it sends
from then on lies behind that act; the listener takes the act and not a byte more, so its receiver finds
the frames where they begin. -/
namespace NoiseLink

open Handshake

variable {ω : Type} {wires : Wires ω} {incoming : Role → ω → Option Tape} {s : Dialogue}

/-- What lies on a tape behind an act of which some bytes were taken. -/
def Tape.behind? (act got : Bytes) (t : Tape) : Option Tape :=
  if act <+: (t.rewind got).bytes then some ⟨(t.rewind got).bytes.drop act.length, t.ending⟩ else none

theorem Tape.behind?_eq_some_iff {act got : Bytes} {t rest : Tape} :
    t.behind? act got = some rest ↔ t.rewind got = rest.rewind act := by
  rw [behind?]
  constructor
  · intro h
    split at h
    · rename_i begins
      cases h
      exact congrArg (fun bytes => (⟨bytes, t.ending⟩ : Tape))
        (List.prefix_iff_eq_append.1 begins).symm
    · cases h
  · intro h
    have bytes := congrArg Tape.bytes h
    have ending := congrArg Tape.ending h
    simp only [Tape.rewind] at bytes ending
    rw [if_pos ⟨rest.bytes, bytes.symm⟩]
    simp only [Tape.rewind, bytes, List.drop_left', ending]

def Source.unread : Source ω where
  receive _ w := (.pending, w)
  supply _ := 0
  supply_le _ _ := Nat.le_refl 0
  supply_lt := by
    intro size w byte bytes rest h
    cases h

/-- What is sent behind an act that is on its way is a line of its own, which nobody receives from yet. -/
theorem Line.behind {sink : Sink ω} {source : Source ω} {tape : ω → Option Tape}
    (line : Line sink source tape) (act got : Bytes) :
    Line sink .unread fun w => (tape w).bind (Tape.behind? act got) where
  hands := by
    refine Source.hands_of_handing ?_
    intro w t size holds positive
    exact .waits holds
  sent {w after t bytes} holds quiet answer := by
    obtain ⟨whole, there, begins⟩ := Option.bind_eq_some_iff.1 holds
    have split := Tape.behind?_eq_some_iff.1 begins
    have ending : whole.ending = .quiet := (congrArg Tape.ending split).trans quiet
    refine Option.bind_eq_some_iff.2 ⟨_, line.sent there ending answer, ?_⟩
    rw [Tape.behind?_eq_some_iff, ← Tape.follow_rewind, split, Tape.follow_rewind]
  closed {w after t} holds sound answer := by
    obtain ⟨whole, there, begins⟩ := Option.bind_eq_some_iff.1 holds
    have split := Tape.behind?_eq_some_iff.1 begins
    have ending : ∀ cause, whole.ending ≠ .failing cause := fun cause broken =>
      sound cause ((congrArg Tape.ending split).symm.trans broken)
    refine Option.bind_eq_some_iff.2 ⟨_, line.closed there ending answer, ?_⟩
    rw [Tape.behind?_eq_some_iff, ← Tape.follow_rewind, split, Tape.follow_rewind]

def Dialogue.behindThird (s : Dialogue) (incoming : Role → ω → Option Tape) (got : Array UInt8) (w : ω) :
    Option Tape :=
  (incoming .listener w).bind (Tape.behind? s.third.bytes got.toList)

theorem Underway.behindThird {got : Array UInt8} {rest : Tape} {w : ω}
    (underway : Underway (incoming .listener) s.third got rest w) :
    s.behindThird incoming got w = some rest := by
  obtain ⟨-, t, holds, begins⟩ := underway
  exact Option.bind_eq_some_iff.2 ⟨t, holds, Tape.behind?_eq_some_iff.2 begins⟩

theorem underway_of_behindThird {got : Array UInt8} {rest : Tape} {w : ω}
    (short : got.size < actThreeLength) (h : s.behindThird incoming got w = some rest) :
    Underway (incoming .listener) s.third got rest w := by
  obtain ⟨t, holds, begins⟩ := Option.bind_eq_some_iff.1 h
  exact ⟨short, t, holds, Tape.behind?_eq_some_iff.1 begins⟩

theorem Dialogue.keeps_behindThird {source : Source ω} (keeps : source.Keeps (incoming .listener))
    (s : Dialogue) (got : Array UInt8) : source.Keeps (s.behindThird incoming got) :=
  fun size w => congrArg (Option.bind · (Tape.behind? s.third.bytes got.toList)) (keeps size w)

/-- The bytes that an upgrade takes from its stream: the second act, or the first and the third. -/
def Role.intake : Role → Nat
  | dialer => 50
  | listener => 116

namespace Meeting

/-- Where the two sides of a meeting can be: both upgrading, the dialer connected and ahead of the
listener, or both connected. Behind the acts each direction is a link whose ends hold the same cipher,
also while one of its ends is still to come. -/
inductive Phase (s : Dialogue) (incoming : Role → ω → Option Tape) (m : Meeting ω) : Prop where
  | talking {d l : Upgrade} {a b : Nat} : m.party .dialer = .upgrading d →
      m.party .listener = .upgrading l → Talk s incoming d.exchange l.exchange a b m.world →
      m.record .dialer = { taken := a } → m.record .listener = { taken := b } → Phase s incoming m
  | ahead {c : Connection} {l : Upgrade} {got : Array UInt8} {owed others : List Bytes} :
      m.party .dialer = .connected c → m.party .listener = .upgrading l →
      l.exchange = .receive actThreeLength got s.afterThird → got.size < actThreeLength →
      c.remoteStatic = (s.session .dialer).remoteStatic → (m.record .dialer).taken = actTwoLength →
      m.record .listener = { taken := actOneLength + got.size } →
      (m.direction .dialer c.sender (.start (s.session .listener).incoming)).Sound
        (s.behindThird incoming got) owed →
      (m.direction .listener (.start (s.session .listener).outgoing) c.receiver).Sound
        (incoming .dialer) others → Phase s incoming m
  | met {c : Role → Connection} : (∀ role, m.party role = .connected (c role)) →
      (∀ role, (c role).remoteStatic = (s.session role).remoteStatic ∧
        (m.record role).taken = role.intake) →
      (∀ role, ∃ owed, (m.direction role (c role).sender (c role.other).receiver).Sound
        (incoming role.other) owed) → Phase s incoming m

theorem dialer_start {config : Role → Config} (fresh : Role → PrivateKey)
    (distinct : (config .dialer).staticKey ≠ (config .listener).staticKey) (w : ω) :
    (start config fresh w).party .dialer = .upgrading
      (.dialer (config .dialer) (config .listener).staticKey.publicKey (fresh .dialer)) := by
  have other : ¬ (config .listener).staticKey.publicKey = (config .dialer).staticKey.publicKey :=
    fun same => distinct (PrivateKey.publicKey_injective same.symm)
  simp [start, Party.dial, Upgrade.checkPeer, other]

theorem phase_start (config : Role → Config) (fresh : Role → PrivateKey)
    (distinct : (config .dialer).staticKey ≠ (config .listener).staticKey) :
    ∃ s : Dialogue, (∀ role, (s.session role).remoteStatic = (config role.other).staticKey.publicKey) ∧
      ∀ {w : ω}, (∀ role, Silent incoming role w) → (start config fresh w).Phase s incoming := by
  obtain ⟨s, dials, listens, known⟩ := exists_dialogue config fresh
  refine ⟨s, known, fun {w} silent => ?_⟩
  refine .talking (dialer_start fresh distinct w) rfl ?_ rfl rfl
  change Talk s incoming (Upgrade.dialerExchange ..) (Upgrade.listenerExchange ..) 0 0 w
  rw [dials, listens]
  exact .opening (silent _) (silent _)

theorem direction_set_taken (m : Meeting ω) (role : Role) {party : Party} {taken : Nat} {world : ω}
    {any : Role} {sender : Sender} {receiver : Receiver} :
    (m.set role party { m.record role with taken } world).direction any sender receiver =
      { m.direction any sender receiver with world } := by
  cases role <;> cases any <;> rfl

theorem direction_set (m : Meeting ω) (role : Role) {party : Party} {record : Record ω} {world : ω}
    {sender : Sender} {receiver : Receiver} :
    (m.set role party record world).direction role sender receiver =
      ⟨sender, receiver, world, record.sent, record.frames, record.closed,
        (m.record role.other).attempts, (m.record role.other).done⟩ := by
  cases role <;> rfl

theorem direction_set_other (m : Meeting ω) (role : Role) {party : Party} {record : Record ω}
    {world : ω} {sender : Sender} {receiver : Receiver} :
    (m.set role party record world).direction role.other sender receiver =
      ⟨sender, receiver, world, (m.record role.other).sent, (m.record role.other).frames,
        (m.record role.other).closed, record.attempts, record.done⟩ := by
  cases role <;> rfl

theorem direction_fresh {m : Meeting ω} {role : Role} {a b : Nat} (here : m.record role = { taken := a })
    (there : m.record role.other = { taken := b }) (c : CipherState) :
    m.direction role (.start c) (.start c) = .start c m.world := by
  rw [direction, here, there]
  rfl

/-- The dialer is ahead once it has sent the last act. -/
theorem phase_of_dialed {m : Meeting ω} {l : Upgrade}
    (dialed : m.party .dialer = .connected (.ofSession (s.session .dialer)))
    (listens : m.party .listener = .upgrading l)
    (waits : l.exchange = .expect actThreeLength s.afterThird)
    (here : m.record .dialer = { taken := actTwoLength })
    (there : m.record .listener = { taken := actOneLength }) (silent : Silent incoming .dialer m.world)
    (underway : Underway (incoming .listener) s.third #[] ⟨[], .quiet⟩ m.world) :
    m.Phase s incoming := by
  have sends : (m.direction .dialer (.start (s.session .dialer).outgoing)
      (.start (s.session .listener).incoming)).Sound (s.behindThird incoming #[]) [] := by
    rw [s.joined .dialer, Role.other, direction_fresh here there]
    exact Link.sound_start _ underway.behindThird
  have returns : (m.direction .listener (.start (s.session .listener).outgoing)
      (.start (s.session .dialer).incoming)).Sound (incoming .dialer) [] := by
    rw [s.joined .listener, Role.other, direction_fresh there here]
    exact Link.sound_start _ silent
  exact .ahead dialed listens waits (by decide) rfl (congrArg Record.taken here) there sends returns

/-- Polling either side of a conversation goes on with it, or has the dialer be ahead. -/
theorem poll_talking (apart : wires.Apart none incoming) {m : Meeting ω} {d l u : Upgrade} {a b : Nat}
    (dials : m.party .dialer = .upgrading d) (listens : m.party .listener = .upgrading l)
    (talk : Talk s incoming d.exchange l.exchange a b m.world)
    (here : m.record .dialer = { taken := a }) (there : m.record .listener = { taken := b })
    {role : Role} (upgrading : m.party role = .upgrading u) {now : Nanoseconds}
    (inTime : now < u.deadline.getD (now + u.timeout)) {answer : Poll (Except Error Connection)}
    {next : Upgrade} {world : ω}
    (polled : u.poll (wires.sink role) (wires.source role) now m.world = (answer, next, world)) :
    (m.set role (.polled answer next)
      { m.record role with
        taken := (m.record role).taken +
          ((wires.source role).supply m.world - (wires.source role).supply world) }
      world).Phase s incoming := by
  cases role with
  | dialer =>
    rw [dials] at upgrading
    cases upgrading
    rcases talk.dialer apart with
      ⟨later, after, waits, goes⟩ | ⟨later, after, ends, other, begun, all, silent, underway⟩
    · rw [Upgrade.poll_of_pending waits, if_neg (Nat.not_le.2 inTime)] at polled
      cases polled
      refine .talking (m.party_set ..) ((m.party_set_other ..).trans listens) goes ?_
        ((m.record_set_other ..).trans there)
      rw [record_set, here]
    · rw [Upgrade.poll_of_ready ends] at polled
      cases polled
      have taken : ({ m.record .dialer with
          taken := (m.record .dialer).taken + ((wires.source .dialer).supply m.world -
            (wires.source .dialer).supply world) } : Record ω) = { taken := actTwoLength } := by
        rw [here, ← all]
      exact phase_of_dialed (m.party_set ..) ((m.party_set_other ..).trans listens) other
        ((m.record_set ..).trans taken) ((m.record_set_other ..).trans (by rw [← begun, ← there]; rfl))
        silent underway
  | listener =>
    rw [listens] at upgrading
    cases upgrading
    obtain ⟨later, after, waits, goes⟩ := talk.listener apart
    rw [Upgrade.poll_of_pending waits, if_neg (Nat.not_le.2 inTime)] at polled
    cases polled
    refine .talking ((m.party_set_other ..).trans dials) (m.party_set ..) goes
      ((m.record_set_other ..).trans here) ?_
    rw [record_set, there]

/-- A listener that is waiting for the last act takes it and no byte of what lies behind it. -/
theorem last_poll {capacity : Option Nat} (apart : wires.Apart capacity incoming) {got : Array UInt8}
    {rest : Tape} {w : ω} (underway : Underway (incoming .listener) s.third got rest w) :
    (∃ more after left, Exchange.poll (wires.sink .listener) (wires.source .listener)
        (.receive actThreeLength got s.afterThird) w =
        (.pending, .receive actThreeLength more s.afterThird, after) ∧
      Underway (incoming .listener) s.third more rest after ∧
      (wires.source .listener).Paused (incoming .listener) after left ∧
      got.size + ((wires.source .listener).supply w - (wires.source .listener).supply after) =
        more.size ∧ incoming .dialer after = incoming .dialer w) ∨
    (∃ last after, Exchange.poll (wires.sink .listener) (wires.source .listener)
        (.receive actThreeLength got s.afterThird) w =
        (.ready (.ok (s.session .listener)), last, after) ∧ incoming .listener after = some rest ∧
      got.size + ((wires.source .listener).supply w - (wires.source .listener).supply after) =
        actThreeLength ∧ incoming .dialer after = incoming .dialer w) := by
  have held := underway.supply apart
  rcases Exchange.poll_act (wires.sink .listener) (apart.hands .listener)
      (apart.source_keeps .listener) underway s.afterThird with
    ⟨more, after, left, waits, still, paused, less, same⟩ | ⟨after, goes, there, same⟩
  · have further := still.supply apart
    exact .inl ⟨more, after, left, waits, still, paused, by omega, same⟩
  · have behind := apart.supply .listener there
    have short := underway.short
    rw [s.meets, Exchange.poll] at goes
    exact .inr ⟨_, after, goes, there, by omega, same⟩

/-- The listener goes on waiting for the last act, or both sides have met. -/
theorem poll_ahead (apart : wires.Apart none incoming) {m : Meeting ω} {c : Connection} {l : Upgrade}
    {got : Array UInt8} {owed others : List Bytes} (dialed : m.party .dialer = .connected c)
    (waits : l.exchange = .receive actThreeLength got s.afterThird)
    (short : got.size < actThreeLength)
    (known : c.remoteStatic = (s.session .dialer).remoteStatic)
    (here : (m.record .dialer).taken = actTwoLength)
    (there : m.record .listener = { taken := actOneLength + got.size })
    (sends : (m.direction .dialer c.sender (.start (s.session .listener).incoming)).Sound
      (s.behindThird incoming got) owed)
    (returns : (m.direction .listener (.start (s.session .listener).outgoing) c.receiver).Sound
      (incoming .dialer) others) {now : Nanoseconds}
    (inTime : now < l.deadline.getD (now + l.timeout)) {answer : Poll (Except Error Connection)}
    {next : Upgrade} {world : ω}
    (polled : l.poll (wires.sink .listener) (wires.source .listener) now m.world =
      (answer, next, world)) :
    (m.set .listener (.polled answer next)
      { m.record .listener with
        taken := (m.record .listener).taken +
          ((wires.source .listener).supply m.world - (wires.source .listener).supply world) }
      world).Phase s incoming := by
  obtain ⟨rest, behind, -⟩ := sends.expects.holds
  change s.behindThird incoming got m.world = some rest at behind
  rcases last_poll apart (underway_of_behindThird short behind) with
    ⟨more, after, left, pending, still, -, taken, same⟩ | ⟨last, after, ends, found, taken, same⟩
  · rw [← waits] at pending
    rw [Upgrade.poll_of_pending pending, if_neg (Nat.not_le.2 inTime)] at polled
    cases polled
    have sends' := sends.carry (still.behindThird.trans behind.symm)
    have returns' := returns.carry same
    rw [← direction_set_taken m .listener] at sends' returns'
    refine .ahead ((m.party_set_other ..).trans dialed) (m.party_set ..) rfl still.short known
      ((congrArg Record.taken (m.record_set_other ..)).trans here) ?_ sends' returns'
    rw [record_set, there, ← taken, Nat.add_assoc]
  · rw [← waits] at ends
    rw [Upgrade.poll_of_ready ends] at polled
    cases polled
    have sends' := sends.carry (found.trans behind.symm)
    have returns' := returns.carry same
    rw [← direction_set_taken m .listener] at sends' returns'
    refine .met (c := Role.choose c (.ofSession (s.session .listener))) ?_ ?_ ?_
    · exact Role.both .listener (m.party_set ..) ((m.party_set_other ..).trans dialed)
    · refine Role.both .listener ⟨rfl, ?_⟩
        ⟨known, (congrArg Record.taken (m.record_set_other ..)).trans here⟩
      rw [record_set, there]
      exact (Nat.add_assoc ..).trans (congrArg (actOneLength + ·) taken)
    · exact Role.both .listener ⟨_, returns'⟩ ⟨_, sends'⟩

theorem Phase.act (apart : wires.Apart none incoming) {m : Meeting ω} (phase : m.Phase s incoming)
    {role : Role} {c next : Connection} {record : Record ω} {world : ω}
    (connected : m.party role = .connected c)
    (acts : Acts (wires.sink role) (wires.source role) c (m.record role) m.world next record world) :
    (m.set role (.connected next) record world).Phase s incoming := by
  cases phase with
  | talking dials listens =>
    cases role with
    | dialer => simp [dials] at connected
    | listener => simp [listens] at connected
  | @ahead dialer l got owed others dialed listens waits short known here there sends returns =>
    cases role with
    | listener => simp [listens] at connected
    | dialer =>
      rw [dialed] at connected
      cases connected
      have untouched := s.keeps_behindThird (apart.source_keeps .dialer) got
      obtain ⟨owed', sends'⟩ := acts.outgoing ((apart.line .dialer).behind _ _) untouched sends
      obtain ⟨others', returns'⟩ := acts.incoming (apart.back .dialer) (apart.sink_keeps .dialer) returns
      exact .ahead (m.party_set ..) ((m.party_set_other ..).trans listens) waits short
        (acts.same.1.trans known) (by rw [record_set, acts.same.2, here])
        ((m.record_set_other ..).trans there) sends' returns'
  | @met sides all known sound =>
    rw [all role] at connected
    cases connected
    obtain ⟨owed, sends⟩ := sound role
    obtain ⟨others, returns⟩ := sound role.other
    rw [direction, Role.other_other] at returns
    obtain ⟨owed', sends'⟩ := acts.outgoing (apart.line role) (apart.source_keeps role) sends
    obtain ⟨others', returns'⟩ := acts.incoming (apart.back role) (apart.sink_keeps role) returns
    have this : Function.update sides role next role = next := Function.update_self ..
    have that : Function.update sides role next role.other = sides role.other := by
      cases role <;> rfl
    refine .met (c := Function.update sides role next) ?_ ?_ ?_
    · refine role.both ?_ ?_
      · rw [this, party_set]
      · rw [that, party_set_other, all]
    · refine role.both ?_ ?_
      · rw [this, record_set, acts.same.1, acts.same.2]
        exact known role
      · rw [that, record_set_other]
        exact known role.other
    · refine role.both ⟨owed', ?_⟩ ⟨others', ?_⟩
      · rw [this, that, direction_set]
        exact sends'
      · rw [that, Role.other_other, this, direction_set_other]
        exact returns'

/-- Every step leads from one phase to the same or the next. -/
theorem Phase.step (apart : wires.Apart none incoming) {m next : Meeting ω} (phase : m.Phase s incoming)
    (step : Step wires m next) : next.Phase s incoming := by
  cases step with
  | act connected acts => exact phase.act apart connected acts
  | @poll role u now answer later world upgrading inTime polled =>
    cases phase with
    | talking dials listens talk here there =>
      exact poll_talking apart dials listens talk here there upgrading inTime polled
    | ahead dialed listens waits short known here there sends returns =>
      cases role with
      | dialer => simp [dialed] at upgrading
      | listener =>
        rw [listens] at upgrading
        cases upgrading
        exact poll_ahead apart dialed waits short known here there sends returns inTime polled
    | met all => simp [all role] at upgrading

/-- Unless both sides have met, one of them can go on. -/
theorem Phase.met_of_stuck (apart : wires.Apart none incoming) {m : Meeting ω} (phase : m.Phase s incoming)
    (stuck : m.Stuck wires) (role : Role) : ∃ c, m.party role = .connected c := by
  cases phase with
  | talking dials listens talk =>
    rcases talk.moves apart with moves | moves
    · exact absurd moves (stuck .dialer _ dials)
    · exact absurd moves (stuck .listener _ listens)
  | ahead dialed listens waits short known here there sends returns =>
    obtain ⟨rest, behind, -⟩ := sends.expects.holds
    have moves := stuck .listener _ listens
    rw [waits] at moves
    rcases last_poll apart (underway_of_behindThird short behind) with
      ⟨more, after, left, -, still, paused, -⟩ | ⟨last, after, ends, -⟩
    · exact absurd paused (still.not_paused (apart.hands .listener) (apart.prompt .listener))
    · exact absurd ⟨_, _, _, ends, .inl nofun⟩ moves
  | @met sides all => exact ⟨sides role, all role⟩

end Meeting
end NoiseLink
