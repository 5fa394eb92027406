import NoiseLink.Proofs.Handshake.Phases
import NoiseLink.Proofs.Link.Complete

/-! Upgrades over two pipes of the in-memory network. In whatever order the two sides are polled and in
whatever pieces the acts arrive, neither fails and both complete; what either side sends from then on is
received by the other, even if it was on its way before the other was done. -/
namespace NoiseLink.Meeting

open Handshake Memory

variable {ω : Type} {wires : Wires ω} {incoming : Role → ω → Option Tape} {config : Role → Config}
  {fresh : Role → PrivateKey} {w : ω}

/-- Wherever a meeting has come to, it is in one of the phases of one dialogue. -/
theorem phase_of_reached (apart : wires.Apart none incoming) (fresh : Role → PrivateKey)
    (distinct : (config .dialer).staticKey ≠ (config .listener).staticKey)
    (silent : ∀ role, Silent incoming role w) :
    ∃ s : Dialogue, (∀ role, (s.session role).remoteStatic = (config role.other).staticKey.publicKey) ∧
      ∀ {m}, Reached wires config fresh w m → m.Phase s incoming := by
  obtain ⟨s, known, begins⟩ := phase_start config fresh distinct
  refine ⟨s, known, fun {m} reached => ?_⟩
  induction reached with
  | start => exact begins silent
  | step _ step phase => exact phase.step apart step

theorem Reached.waits {m : Meeting ω} (reached : Reached wires config fresh w m) {role : Role}
    {u : Upgrade} (upgrading : m.party role = .upgrading u) (inTime : 0 < u.deadline.getD u.timeout)
    {exchange : Exchange Session} {after : ω}
    (waits : u.exchange.poll (wires.sink role) (wires.source role) m.world =
      (.pending, exchange, after)) :
    ∃ next v, Reached wires config fresh w next ∧ next.party role = .upgrading v ∧
      next.party role.other = m.party role.other ∧ next.world = after ∧ v.exchange = exchange ∧
      0 < v.deadline.getD v.timeout := by
  have early : 0 < u.deadline.getD (0 + u.timeout) := by rwa [Nat.zero_add]
  have polled := Upgrade.poll_of_pending waits 0
  rw [if_neg (Nat.not_le.2 early)] at polled
  exact ⟨_, _, reached.step (.poll upgrading early polled), m.party_set .., m.party_set_other .., rfl,
    rfl, early⟩

theorem Reached.completes {m : Meeting ω} (reached : Reached wires config fresh w m) {role : Role}
    {u : Upgrade} (upgrading : m.party role = .upgrading u) (inTime : 0 < u.deadline.getD u.timeout)
    {exchange : Exchange Session} {session : Session} {after : ω}
    (ends : u.exchange.poll (wires.sink role) (wires.source role) m.world =
      (.ready (.ok session), exchange, after)) :
    ∃ next c, Reached wires config fresh w next ∧ next.party role = .connected c ∧
      next.party role.other = m.party role.other ∧ next.world = after := by
  have early : 0 < u.deadline.getD (0 + u.timeout) := by rwa [Nat.zero_add]
  have polled := Upgrade.poll_of_ready ends 0
  exact ⟨_, _, reached.step (.poll upgrading early polled), m.party_set .., m.party_set_other .., rfl⟩

/-- Two sides that both have time for it are connected by four polls, one for each act that is sent or
taken last. -/
theorem exists_connected (apart : wires.Apart none incoming)
    (distinct : (config .dialer).staticKey ≠ (config .listener).staticKey)
    (silent : ∀ role, Silent incoming role w) (patient : ∀ role, 0 < (config role).handshakeTimeout) :
    ∃ m, Reached wires config fresh w m ∧ ∀ role, ∃ c, m.party role = .connected c := by
  obtain ⟨s, dials, listens, -⟩ := exists_dialogue config fresh
  have prompt role {size : Nat} {act : Octets size} {got : Array UInt8} {rest left : Tape} {world : ω}
      (underway : Underway (incoming role) act got rest world) :
      ¬ (wires.source role).Paused (incoming role) world left :=
    underway.not_paused (apart.hands role) (apart.prompt role)
  obtain ⟨world, sends, quiet, first⟩ := poll_opening apart (by simp) s (silent .dialer) (silent .listener)
  rw [← dials] at sends
  obtain ⟨m, d, reached, dialing, same, rfl, exchange, early⟩ :=
    Reached.start.waits (dialer_start fresh distinct w) (patient .dialer) sends
  rcases poll_offered apart (by simp) quiet first with
    ⟨more, after, left, -, still, paused, -⟩ | ⟨world, answers, quiet, second⟩
  · exact absurd paused (prompt .listener still)
  rw [← Exchange.expect, ← listens] at answers
  obtain ⟨m, l, reached, listening, kept, rfl, last, inTime⟩ :=
    reached.waits same (patient .listener) answers
  rcases second.reply apart .dialer quiet (by simp) s.finishes with
    ⟨more, after, left, -, still, paused, -⟩ | ⟨world, finishes, -, third⟩
  · exact absurd paused (prompt .dialer still)
  rw [← Exchange.expect, ← exchange] at finishes
  obtain ⟨m, c, reached, dialed, same, rfl⟩ :=
    reached.completes (kept.trans dialing) early (finishes.trans rfl)
  have third := underway_of_sent (by decide) third
  rcases last_poll apart third with
    ⟨more, after, left, -, still, paused, -⟩ | ⟨done, world, meets, -⟩
  · exact absurd paused (prompt .listener still)
  rw [← Exchange.expect, ← last] at meets
  obtain ⟨m, c', reached, met, still, -⟩ := reached.completes (same.trans listening) inTime meets
  exact ⟨m, reached, Role.both .listener ⟨c', met⟩ ⟨c, still.trans dialed⟩⟩

theorem Phase.not_failed {m : Meeting ω} {s : Dialogue} (phase : m.Phase s incoming) (role : Role)
    (error : Error) : m.party role ≠ .failed error := by
  cases phase with
  | talking dials listens =>
    cases role with
    | dialer => simp [dials]
    | listener => simp [listens]
  | ahead dialed listens =>
    cases role with
    | dialer => simp [dialed]
    | listener => simp [listens]
  | met all => simp [all role]

/-- A side that is connected knows the other's key, and has taken the acts and nothing else. -/
theorem Phase.known {m : Meeting ω} {s : Dialogue} (phase : m.Phase s incoming) {role : Role}
    {c : Connection} (connected : m.party role = .connected c) :
    c.remoteStatic = (s.session role).remoteStatic ∧ (m.record role).taken = role.intake := by
  cases phase with
  | talking dials listens =>
    cases role with
    | dialer => simp [dials] at connected
    | listener => simp [listens] at connected
  | ahead dialed listens waits short known taken =>
    cases role with
    | dialer =>
      rw [dialed] at connected
      cases connected
      exact ⟨known, taken⟩
    | listener => simp [listens] at connected
  | met all known =>
    rw [all role] at connected
    cases connected
    exact known role

/-- Once both sides are connected, each direction brings all that was ever sent there. -/
theorem Phase.complete (apart : wires.Apart none incoming) {m : Meeting ω} {s : Dialogue}
    (phase : m.Phase s incoming) {role : Role} {ours theirs : Connection}
    (here : m.party role = .connected ours) (there : m.party role.other = .connected theirs) :
    (m.direction role ours.sender theirs.receiver).Complete (wires.source role.other) := by
  cases phase with
  | talking dials listens =>
    cases role with
    | dialer => simp [dials] at here
    | listener => simp [listens] at here
  | ahead dialed listens =>
    cases role with
    | dialer => simp [Role.other, listens] at there
    | listener => simp [listens] at here
  | met all known sound =>
    rw [all] at here there
    cases here
    cases there
    obtain ⟨owed, sound⟩ := sound role
    exact sound.complete (apart.line role) (apart.prompt role.other)

/-- Two upgrades over two pipes, in any pieces and polled in any order before their deadlines. Neither
ever fails, and as long as they are not both complete one of them can go on. Each side then knows the
key of the other and has taken its acts from its pipe and not a byte more. Whatever either side sent
since its own upgrade was complete, the receiver of the other finds there, all of it and in order. -/
theorem upgrades_complete (distinct : (config .dialer).staticKey ≠ (config .listener).staticKey)
    {pipe : Role → Nat} (apart : pipe .dialer ≠ pipe .listener) (who : Role → Waiter)
    {maxRead : Role → Option Nat} (positive : ∀ role, maxRead role ≠ some 0) {f : Fabric}
    (empty : ∀ role, f.pipes[pipe role]? = some { channel := { maxRead := maxRead role } })
    {m : Meeting Fabric} (reached : Reached (Fabric.wires pipe who) config fresh f m) :
    (∀ role error, m.party role ≠ .failed error) ∧
    (m.Stuck (Fabric.wires pipe who) → ∀ role, ∃ c, m.party role = .connected c) ∧
    (∀ role c, m.party role = .connected c →
      c.remoteStatic = (config role.other).staticKey.publicKey ∧
        (m.record role).taken = role.intake) ∧
    ∀ role ours theirs, m.party role = .connected ours → m.party role.other = .connected theirs →
      (m.direction role ours.sender theirs.receiver).Complete
        (Fabric.source (pipe role) (who role.other)) := by
  have working := Fabric.apart_wires apart who
  obtain ⟨s, known, phases⟩ := phase_of_reached working fresh distinct
    fun role => Fabric.reliable?_of_fresh (positive role.other) (empty role.other)
  have phase := phases reached
  refine ⟨phase.not_failed, phase.met_of_stuck working, ?_, ?_⟩
  · intro role c connected
    obtain ⟨same, taken⟩ := phase.known connected
    exact ⟨same.trans (known role), taken⟩
  · intro role ours theirs here there
    have complete := phase.complete working here there
    rwa [Fabric.source_wires_other] at complete

/-- Two sides with small keys do connect, also when one of them gets single bytes. -/
theorem upgrades_complete_of_small_keys :
    let config : Role → Config
      | .dialer => { staticKey := ⟨1, by decide, by decide⟩ }
      | .listener => { staticKey := ⟨2, by decide, by decide⟩ }
    let pipe : Role → Nat
      | .dialer => 0
      | .listener => 1
    let f : Fabric :=
      { pipes := #[{ channel := { maxRead := some 1 } }, { channel := { maxRead := none } }] }
    ∃ m ours theirs, Reached (Fabric.wires pipe fun _ => .caller) config
        (fun _ => ⟨3, by decide, by decide⟩) f m ∧
      m.party .dialer = .connected ours ∧ m.party .listener = .connected theirs ∧
      ours.remoteStatic = (config .listener).staticKey.publicKey ∧
      theirs.remoteStatic = (config .dialer).staticKey.publicKey ∧
      (m.record .dialer).taken = 50 ∧ (m.record .listener).taken = 116 ∧
      (m.direction .dialer ours.sender theirs.receiver).Complete (Fabric.source 0 .caller) := by
  intro config pipe f
  let maxRead : Role → Option Nat
    | .dialer => some 1
    | .listener => none
  have distinct : (config .dialer).staticKey ≠ (config .listener).staticKey := by decide
  have apart : pipe .dialer ≠ pipe .listener := by decide
  have positive : ∀ role, maxRead role ≠ some 0 := by rintro (_ | _) <;> decide
  have empty : ∀ role, f.pipes[pipe role]? = some { channel := { maxRead := maxRead role } } := by
    rintro (_ | _) <;> rfl
  obtain ⟨m, reached, connected⟩ := exists_connected
    (Fabric.apart_wires apart fun _ => .caller) distinct
    (fun role => Fabric.reliable?_of_fresh (positive role.other) (empty role.other))
    (by rintro (_ | _) <;> decide)
  obtain ⟨ours, here⟩ := connected .dialer
  obtain ⟨theirs, there⟩ := connected .listener
  obtain ⟨-, -, known, complete⟩ := upgrades_complete distinct apart _ positive empty reached
  exact ⟨m, ours, theirs, reached, here, there, (known _ _ here).1, (known _ _ there).1,
    (known _ _ here).2, (known _ _ there).2, complete .dialer ours theirs here there⟩

end NoiseLink.Meeting
