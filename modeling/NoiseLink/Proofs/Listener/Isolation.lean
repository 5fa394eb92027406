import NoiseLink.Proofs.Handshake.Conversation
import NoiseLink.Proofs.Listener.Ports

/-! Handshakes of one listener leave no trace in each other. What a handshake has said and how it ends is
what its own conversation comes to on all that its own peer has said, with the key that was drawn for it as
it began; the other connections, whatever they do and in whatever order they are driven, do not come into
it. -/
namespace NoiseLink

open Upgrade (Leads Comes Idle listenerExchange)

variable {ω ρ : Type} {ports : Ports ω ρ} {port : ρ} {tape : ω → Option Tape}
  {takes : Except NetworkError Unit} {stalls : Prop} {config : Config} {maxHandshakes : Nat}

/-- What holds at every moment of a watched connection. -/
structure Watch.Sound [DecidableEq ρ] (ports : Ports ω ρ) (port : ρ) (tape : ω → Option Tape)
    (takes : Except NetworkError Unit) (stalls : Prop) (config : Config) (maxHandshakes : Nat)
    (s : Watch ω ρ) : Prop where
  reached : Reception.Reached ports config maxHandshakes s.reception
  once : s.reception.seen.count port ≤ 1
  apart : ∀ other ∈ s.reception.seen, other ≠ port → ports.Apart other tape
  queued : port ∈ s.reception.arriving.map Prod.snd →
    tape s.reception.world = some s.said ∧ s.given = []
  underway : ∀ p ∈ s.reception.listener.pending, p.port = port → ∃ fresh,
    ⟨p.address, port, fresh⟩ ∈ s.admitted ∧
    Leads tape takes stalls (listenerExchange config fresh) s.said s.given p.upgrade.exchange
      s.reception.world ∧
    (¬stalls → ports.Prompt port tape → s.unheard = false →
      p.id ∈ s.reception.listener.woken ∨ Idle tape takes p.upgrade.exchange s.reception.world)
  settled : ∀ address result, (address, port, result) ∈ s.reception.results → ∃ fresh,
    ⟨address, port, fresh⟩ ∈ s.admitted ∧
    Comes takes (listenerExchange config fresh) s.said s.given result

namespace Watch

open Reception

variable [DecidableEq ρ] {s : Watch ω ρ}

/-- Whatever leaves the connection and its handshake alone leaves what holds of them. -/
theorem Sound.frame (sound : s.Sound ports port tape takes stalls config maxHandshakes)
    {next : Reception ω ρ} (reached : Reached ports config maxHandshakes next)
    (once : next.seen.count port ≤ 1)
    (apart : ∀ other ∈ next.seen, other ≠ port → ports.Apart other tape)
    (world : port ∈ next.unsettled → tape next.world = tape s.reception.world)
    (arriving : port ∈ next.arriving.map Prod.snd → port ∈ s.reception.arriving.map Prod.snd)
    (pending : ∀ p ∈ next.listener.pending, p.port = port → p ∈ s.reception.listener.pending ∧
      (p.id ∈ s.reception.listener.woken → p.id ∈ next.listener.woken))
    (results : ∀ address result, (address, port, result) ∈ next.results →
      (address, port, result) ∈ s.reception.results)
    {admitted : List (Admission ρ)} (more : s.admitted ⊆ admitted) :
    Sound ports port tape takes stalls config maxHandshakes { s with reception := next, admitted } := by
  refine ⟨reached, once, apart, fun queued => ?_, fun p inside here => ?_, fun address result member => ?_⟩
  · obtain ⟨holds, none⟩ := sound.queued (arriving queued)
    exact ⟨(world (mem_unsettled_of_arriving queued)).trans holds, none⟩
  · obtain ⟨before, woken⟩ := pending p inside here
    obtain ⟨fresh, begun, leads, driven⟩ := sound.underway p before here
    have same := world (here ▸ mem_unsettled_of_pending inside)
    refine ⟨fresh, more begun, leads.congr same, fun free prompt heard => ?_⟩
    refine (driven free prompt heard).imp woken ?_
    rintro ⟨t, holds, waits⟩
    exact ⟨t, same.trans holds, waits⟩
  · obtain ⟨fresh, begun, comes⟩ := sound.settled address result (results address result member)
    exact ⟨fresh, more begun, comes⟩

theorem Sound.turnedAway (sound : s.Sound ports port tape takes stalls config maxHandshakes)
    {address : String} {other : ρ} {rest : List (Arrival ρ)} {inFlight : Nat} {next : Reception ω ρ}
    (reached : Reached ports config maxHandshakes next) (seen : next.seen = s.reception.seen)
    (here : s.reception.arrivals = .ok (address, other) :: rest)
    (dropped : next = { s.reception with
      arrivals := rest
      world := ports.drop other s.reception.world
      taken := s.reception.taken ++ [(address, other)]
      fates := s.reception.fates ++ [.turnedAway address other inFlight] }) :
    Sound ports port tape takes stalls config maxHandshakes { s with reception := next } := by
  have once : next.seen.count port ≤ 1 := seen ▸ sound.once
  subst dropped
  refine sound.frame reached once (seen ▸ sound.apart) (fun unsettled => ?_) (fun queued => ?_)
    (fun p inside _ => ⟨inside, id⟩) (fun address result member => ?_) (List.Subset.refl _)
  · have gone := reached.not_settled once unsettled _ (List.mem_append_right _ List.mem_cons_self)
    have arrived : other ∈ s.reception.seen := by
      simp [Reception.seen, arriving, here, Except.toOption]
    exact (sound.apart other arrived gone).drops _
  · rw [arriving, here]
    exact List.mem_cons_of_mem _ queued
  · simpa [results, Fate.result?] using member

/-- The handshake of the connection begins with all that its peer has said before it. -/
theorem Sound.enrolled_own (sound : s.Sound ports port tape takes stalls config maxHandshakes)
    {address : String} {rest : List (Arrival ρ)} {fresh : PrivateKey} {generator : Generator}
    {next : Reception ω ρ} (reached : Reached ports config maxHandshakes next)
    (seen : next.seen = s.reception.seen)
    (here : s.reception.arrivals = .ok (address, port) :: rest)
    (enrolled : next = { s.reception with
      listener := s.reception.listener.enroll address port fresh
      generator
      arrivals := rest
      taken := s.reception.taken ++ [(address, port)] }) :
    Sound ports port tape takes stalls config maxHandshakes
      { s with reception := next, admitted := s.admitted ++ [⟨address, port, fresh⟩] } := by
  have arrived : port ∈ s.reception.arriving.map Prod.snd := by
    simp [arriving, here, Except.toOption]
  obtain ⟨holds, silent⟩ := sound.queued arrived
  have once : next.seen.count port ≤ 1 := seen ▸ sound.once
  subst enrolled
  have last : (⟨s.reception.listener.begun, address, port, .listener s.reception.listener.config fresh⟩ :
      Pending ρ) ∈ (s.reception.listener.enroll address port fresh).pending :=
    List.mem_append_right _ (List.mem_singleton.2 rfl)
  refine ⟨reached, once, seen ▸ sound.apart, fun queued => ?_, fun p inside here => ?_, ?_⟩
  · exact absurd queued (reached.not_arriving once last)
  · cases reached.eq_of_pending (here ▸ once) inside last here.symm
    refine ⟨fresh, List.mem_append_right _ (List.mem_singleton.2 rfl), ?_, fun _ _ _ => .inl ?_⟩
    · rw [silent, ← (sound_of_reached sound.reached).configured]
      exact .start (Upgrade.proper_listener ..) holds
    · exact List.mem_append_right _ (List.mem_singleton.2 rfl)
  · intro address' result member
    obtain ⟨fresh', begun, comes⟩ := sound.settled address' result member
    exact ⟨fresh', List.mem_append_left _ begun, comes⟩

theorem Sound.enrolled (sound : s.Sound ports port tape takes stalls config maxHandshakes)
    {address : String} {other : ρ} {rest : List (Arrival ρ)} {fresh : PrivateKey}
    {generator : Generator} {next : Reception ω ρ} (reached : Reached ports config maxHandshakes next)
    (seen : next.seen = s.reception.seen)
    (here : s.reception.arrivals = .ok (address, other) :: rest)
    (enrolled : next = { s.reception with
      listener := s.reception.listener.enroll address other fresh
      generator
      arrivals := rest
      taken := s.reception.taken ++ [(address, other)] }) :
    Sound ports port tape takes stalls config maxHandshakes
      { s with reception := next, admitted := s.admitted ++ [⟨address, other, fresh⟩] } := by
  by_cases own : other = port
  · subst own
    exact sound.enrolled_own reached seen here enrolled
  · have once : next.seen.count port ≤ 1 := seen ▸ sound.once
    subst enrolled
    refine sound.frame reached once (seen ▸ sound.apart) (fun _ => rfl) (fun queued => ?_)
      (fun p inside at_port => ?_) (fun _ _ => id) (List.subset_append_left ..)
    · rw [arriving, here]
      exact List.mem_cons_of_mem _ queued
    · rcases List.mem_append.1 inside with before | new
      · exact ⟨before, List.mem_append_left _⟩
      · cases List.mem_singleton.1 new
        exact absurd at_port own

/-- A handshake of another connection that is driven leaves the connection alone. -/
theorem Sound.elsewhere (sound : s.Sound ports port tape takes stalls config maxHandshakes) {id : Nat}
    {p : Pending ρ} (found : s.reception.listener.pending.find? (·.id = id) = some p)
    (other : p.port ≠ port) {now : Nanoseconds} {answer : Poll (Except Error Connection)}
    {upgrade : Upgrade} {world : ω}
    (polled : p.upgrade.poll (ports.sink p.port) (ports.source id p.port) now s.reception.world =
      (answer, upgrade, world)) :
    ports.Apart p.port tape ∧ tape world = tape s.reception.world := by
  have apart := sound.apart p.port (sound.reached.seen_of_pending (Listener.of_found found).1) other
  exact ⟨apart, Upgrade.keeps_poll (apart.receives id) apart.sends apart.resumes polled⟩

/-- A handshake that has to wait has gone on as far as it can if it is the connection's own. -/
theorem Sound.waits (serves : ports.Serves port tape takes stalls)
    (sound : s.Sound ports port tape takes stalls config maxHandshakes) {id : Nat} {woken : List Nat}
    {p : Pending ρ} {upgrade : Upgrade} {now : Nanoseconds} {world : ω} {next : Reception ω ρ}
    (reached : Reached ports config maxHandshakes next) (seen : next.seen = s.reception.seen)
    (rested : s.reception.arrivals = []) (queue : s.reception.listener.woken = id :: woken)
    (found : s.reception.listener.pending.find? (·.id = id) = some p)
    (polled : p.upgrade.poll (ports.sink p.port) (ports.source id p.port) now s.reception.world =
      (.pending, upgrade, world))
    (kept : next = { s.reception with
      listener := { s.reception.listener with woken }.keep { p with upgrade }
      world }) :
    Sound ports port tape takes stalls config maxHandshakes
      { s with reception := next, given := s.given ++ s.reception.handing ports port } := by
  have once : next.seen.count port ≤ 1 := seen ▸ sound.once
  have apart := seen ▸ sound.apart
  rw [handing_of_found rested queue found]
  obtain ⟨inside, rfl⟩ := Listener.of_found found
  subst kept
  by_cases own : p.port = port
  · subst own
    rw [if_pos rfl]
    obtain ⟨fresh, begun, leads, -⟩ := sound.underway p inside rfl
    obtain ⟨further, idle⟩ :=
      leads.waits (serves.hands p.id) serves.answers (Upgrade.exchange_of_pending polled).1
    have unended := sound.reached.not_ended sound.once (mem_unsettled_of_pending inside)
    refine ⟨reached, once, apart, fun queued => ?_, fun q member here => ?_,
      fun address result member => absurd member (unended address result)⟩
    · simp [arriving, rested] at queued
    · rcases Listener.mem_keep member with rfl | ⟨before, other⟩
      · exact ⟨fresh, begun, further, fun free prompt _ => .inr (idle free (prompt p.id))⟩
      · cases sound.reached.eq_of_pending sound.once inside before here
        exact absurd rfl other
  · rw [if_neg own, List.append_nil]
    refine sound.frame reached once apart (fun _ => (sound.elsewhere found own polled).2) id
      (fun q member here => ?_) (fun _ _ => id) (List.Subset.refl _)
    rcases Listener.mem_keep member with rfl | ⟨before, other⟩
    · exact absurd here own
    · exact ⟨before, Listener.queued_behind queue other⟩

/-- A handshake that ends has come to what its conversation comes to if it is the connection's own. -/
theorem Sound.ends (serves : ports.Serves port tape takes stalls)
    (sound : s.Sound ports port tape takes stalls config maxHandshakes) {id : Nat} {woken : List Nat}
    {p : Pending ρ} {upgrade : Upgrade} {now : Nanoseconds} {after world : ω}
    {result : Except Error Connection} {fate : Fate ρ} {next : Reception ω ρ}
    (reached : Reached ports config maxHandshakes next) (seen : next.seen = s.reception.seen)
    (rested : s.reception.arrivals = []) (queue : s.reception.listener.woken = id :: woken)
    (found : s.reception.listener.pending.find? (·.id = id) = some p)
    (polled : p.upgrade.poll (ports.sink p.port) (ports.source id p.port) now s.reception.world =
      (.ready result, upgrade, after))
    (leaves : ports.Apart p.port tape → tape world = tape after)
    (settles : fate.result? = some (p.address, p.port, result))
    (removed : next = { s.reception with
      listener := { s.reception.listener with woken }.remove id
      world
      fates := s.reception.fates ++ [fate] }) :
    Sound ports port tape takes stalls config maxHandshakes
      { s with reception := next, given := s.given ++ s.reception.handing ports port } := by
  have once : next.seen.count port ≤ 1 := seen ▸ sound.once
  have apart := seen ▸ sound.apart
  rw [handing_of_found rested queue found]
  obtain ⟨inside, rfl⟩ := Listener.of_found found
  subst removed
  have others : ∀ q ∈ (s.reception.listener.remove p.id).pending,
      q ∈ s.reception.listener.pending ∧ q.id ≠ p.id := fun q member => by
    simpa using List.mem_filter.1 member
  have ended (address answer) (member : (address, port, answer) ∈
        (s.reception.fates ++ [fate]).filterMap Fate.result?) :
      (address, port, answer) ∈ s.reception.results ∨
        (address, port, answer) = (p.address, p.port, result) := by
    rw [List.filterMap_append, List.filterMap_cons_some settles] at member
    exact (List.mem_append.1 member).imp_right List.mem_singleton.1
  by_cases own : p.port = port
  · subst own
    rw [if_pos rfl]
    obtain ⟨fresh, begun, leads, -⟩ := sound.underway p inside rfl
    have comes := leads.settles (serves.hands p.id) serves.answers polled
    have unended := sound.reached.not_ended sound.once (mem_unsettled_of_pending inside)
    refine ⟨reached, once, apart, fun queued => ?_, fun q member here => ?_, fun address answer member => ?_⟩
    · simp [arriving, rested] at queued
    · cases sound.reached.eq_of_pending sound.once inside (others q member).1 here
      exact absurd rfl (others _ member).2
    · cases (ended address answer member).resolve_left (unended address answer)
      exact ⟨fresh, begun, comes⟩
  · rw [if_neg own, List.append_nil]
    obtain ⟨separate, same⟩ := sound.elsewhere found own polled
    refine sound.frame reached once apart (fun _ => (leaves separate).trans same) id
      (fun q member _ => ?_) (fun address answer member => ?_) (List.Subset.refl _)
    · exact ⟨(others q member).1, Listener.queued_behind queue (others q member).2⟩
    · refine (ended address answer member).resolve_right fun last => own ?_
      cases last
      rfl

theorem Sound.turn (serves : ports.Serves port tape takes stalls)
    (sound : s.Sound ports port tape takes stalls config maxHandshakes) {now : Nanoseconds}
    {outcome : Option (Listener.Outcome ρ)} {next : Reception ω ρ}
    (turn : Turn ports now s.reception outcome next) :
    Sound ports port tape takes stalls config maxHandshakes
      { s with
        reception := next
        admitted := s.admitted ++ s.reception.beginning
        given := s.given ++ s.reception.handing ports port } := by
  have reached := sound.reached.turn turn
  have seen := seen_of_turn turn
  have once : next.seen.count port ≤ 1 := seen ▸ sound.once
  have apart := seen ▸ sound.apart
  cases turn with
  | broken here =>
    rw [beginning_of_failure here, handing_of_arrival here, List.append_nil, List.append_nil]
    refine sound.frame reached once apart (fun _ => rfl) (fun queued => ?_)
      (fun p inside _ => ⟨inside, id⟩) (fun _ _ => id) (List.Subset.refl _)
    simpa [arriving, here, Except.toOption] using queued
  | turnedAway here full =>
    rw [beginning_of_full here full, handing_of_arrival here, List.append_nil, List.append_nil]
    exact sound.turnedAway reached seen here rfl
  | enrolled here room drawn =>
    rw [beginning_of_room here room drawn, handing_of_arrival here, List.append_nil]
    exact sound.enrolled reached seen here rfl
  | rests rested idle =>
    rw [beginning_of_nil rested, handing_of_idle idle, List.append_nil, List.append_nil]
    exact sound
  | stale rested queue unknown =>
    rw [beginning_of_nil rested, handing_of_unknown queue unknown, List.append_nil, List.append_nil]
    refine sound.frame reached once apart (fun _ => rfl) id (fun p inside _ => ⟨inside, ?_⟩)
      (fun _ _ => id) (List.Subset.refl _)
    have other := List.find?_eq_none.1 unknown p inside
    exact Listener.queued_behind queue (by simpa using other)
  | waits rested queue found polled =>
    rw [beginning_of_nil rested, List.append_nil]
    exact sound.waits serves reached seen rested queue found polled rfl
  | returned rested queue found polled =>
    rw [beginning_of_nil rested, List.append_nil]
    exact sound.ends serves reached seen rested queue found polled (fun _ => rfl) rfl rfl
  | failed rested queue found polled =>
    rw [beginning_of_nil rested, List.append_nil]
    exact sound.ends serves reached seen rested queue found polled (fun apart => apart.drops _) rfl rfl

theorem Sound.woke (sound : s.Sound ports port tape takes stalls config maxHandshakes) {l : Listener ρ}
    (reached : Reached ports config maxHandshakes { s.reception with listener := l })
    (woken : ∃ more, l = { s.reception.listener with woken := s.reception.listener.woken ++ more }) :
    Sound ports port tape takes stalls config maxHandshakes
      { s with reception := { s.reception with listener := l } } := by
  obtain ⟨more, rfl⟩ := woken
  exact sound.frame reached sound.once sound.apart (fun _ => rfl) id
    (fun p inside _ => ⟨inside, List.mem_append_left _⟩) (fun _ _ => id) (List.Subset.refl _)

theorem sound_of_watched (serves : ports.Serves port tape takes stalls) {generator : Generator}
    (watched : Watched ports port tape config maxHandshakes generator s) :
    s.Sound ports port tape takes stalls config maxHandshakes := by
  induction watched with
  | start world =>
    exact ⟨.start generator world, Nat.zero_le _, List.forall_mem_nil _,
      fun queued => absurd queued List.not_mem_nil, List.forall_mem_nil _,
      fun _ _ ended => absurd ended List.not_mem_nil⟩
  | @comes s t address watched new holds sound =>
    have seen := seen_of_arrival s.reception (.ok (address, port))
    refine ⟨sound.reached.arrives _, ?_, fun other inside ne => ?_, fun _ => ⟨holds, rfl⟩,
      fun p inside here => ?_, fun address result member => ?_⟩
    · rw [seen, List.count_append, List.count_eq_zero.2 new, Nat.zero_add]
      exact List.count_le_length
    · rw [seen] at inside
      have before := (List.mem_append.1 inside).resolve_right fun last => ne (List.mem_singleton.1 last)
      exact sound.apart other before ne
    · exact absurd (here ▸ sound.reached.seen_of_pending inside) new
    · exact absurd (sound.reached.seen_of_ended member) new
  | @arrives s arrival watched others sound =>
    have seen := seen_of_arrival s.reception arrival
    have foreign : port ∉ arrival.toOption.toList.map Prod.snd := by
      intro member
      cases arrival with
      | error cause => cases member
      | ok raw => exact (others raw rfl).1 (List.mem_singleton.1 member).symm
    refine sound.frame (sound.reached.arrives arrival) ?_ (fun other inside ne => ?_) (fun _ => rfl)
      (fun queued => ?_) (fun p inside _ => ⟨inside, id⟩) (fun _ _ => id) (List.Subset.refl _)
    · rw [seen, List.count_append, List.count_eq_zero.2 foreign]
      exact sound.once
    · rw [seen] at inside
      rcases List.mem_append.1 inside with before | arrived
      · exact sound.apart other before ne
      · cases arrival with
        | error cause => cases arrived
        | ok raw =>
          cases List.mem_singleton.1 arrived
          exact (others raw rfl).2
    · rw [arriving, List.filterMap_append, List.map_append] at queued
      refine (List.mem_append.1 queued).resolve_right fun last => foreign ?_
      cases arrival <;> exact last
  | @wakes s id watched sound =>
    exact sound.woke (sound.reached.wakes id) (Listener.wake_eq _ id)
  | @expires s now watched sound =>
    exact sound.woke (sound.reached.expires now) (Listener.expire_eq _ now)
  | @elsewhere s world watched same sound =>
    exact sound.frame (sound.reached.elsewhere world) sound.once sound.apart same id
      (fun p inside _ => ⟨inside, id⟩) (fun _ _ => id) (List.Subset.refl _)
  | @hears s t more ending world watched watching quiet holds follows sound =>
    have unended := sound.reached.not_ended sound.once watching
    refine ⟨sound.reached.elsewhere world, sound.once, sound.apart, fun queued => ?_,
      fun p inside here => ?_, fun address result member => absurd member (unended address result)⟩
    · obtain ⟨same, silent⟩ := sound.queued queued
      rw [holds] at same
      cases same
      exact ⟨follows, silent⟩
    · obtain ⟨fresh, begun, leads, -⟩ := sound.underway p inside here
      exact ⟨fresh, begun, leads.hears holds follows, fun _ _ heard => absurd heard (by simp)⟩
  | @notices s id watched only sound =>
    have woke := sound.woke (sound.reached.wakes id) (Listener.wake_eq _ id)
    refine ⟨woke.reached, woke.once, woke.apart, woke.queued, fun p inside here => ?_, woke.settled⟩
    obtain ⟨fresh, begun, leads, -⟩ := woke.underway p inside here
    obtain ⟨more, same⟩ := Listener.wake_eq s.reception.listener id
    have before : p ∈ s.reception.listener.pending := by
      rw [same] at inside
      exact inside
    rw [only p before here]
    exact ⟨fresh, begun, leads, fun _ _ _ => .inl (Listener.mem_wake before (only p before here))⟩
  | @talks s more ending watched settled quiet sound =>
    refine ⟨sound.reached, sound.once, sound.apart, fun queued => ?_, fun p inside here => ?_,
      fun address result member => ?_⟩
    · exact absurd (mem_unsettled_of_arriving queued) settled
    · exact absurd (here ▸ mem_unsettled_of_pending inside) settled
    · obtain ⟨fresh, begun, comes⟩ := sound.settled address result member
      exact ⟨fresh, begun, comes.follow quiet more ending⟩
  | turn _ turn sound => exact sound.turn serves turn

variable {generator : Generator} {address : String} {fresh : PrivateKey}

theorem Drawn.unique (drawn : s.Drawn generator) {x y : Admission ρ}
    (once : s.reception.seen.count x.port ≤ 1) (inside : x ∈ s.admitted) (also : y ∈ s.admitted)
    (same : y.port = x.port) : y = x := by
  rw [Reception.seen, List.map_append, List.count_append, (drawn.listed.map Prod.snd).count_eq,
    List.map_append, List.count_append, List.map_map] at once
  refine eq_of_count_map (f := Admission.port) ?_ inside also same
  change ((s.admitted.map Admission.port).count x.port) + _ + _ ≤ 1 at once
  omega

/-- A handshake that was begun is under way or has ended. -/
theorem Sound.placed (sound : s.Sound ports port tape takes stalls config maxHandshakes)
    (drawn : s.Drawn generator) (begun : ⟨address, port, fresh⟩ ∈ s.admitted) :
    (∃ p ∈ s.reception.listener.pending, p.port = port) ∨
      ∃ result, (address, port, result) ∈ s.reception.results := by
  have there := List.mem_map_of_mem (f := Admission.raw) begun
  have taken := drawn.listed.mem_iff.2 (List.mem_append_left _ there)
  rcases List.mem_append.1 ((sound_of_reached sound.reached).conserved.mem_iff.1 taken) with
    inside | settled
  · obtain ⟨p, inside, raw⟩ := List.mem_map.1 inside
    exact .inl ⟨p, inside, congrArg Prod.snd raw⟩
  · obtain ⟨fate, listed, raw⟩ := List.mem_map.1 settled
    cases fate with
    | returned _ _ connection =>
      cases raw
      exact .inr ⟨.ok connection, List.mem_filterMap.2 ⟨_, listed, rfl⟩⟩
    | failed _ _ error =>
      cases raw
      exact .inr ⟨.error error, List.mem_filterMap.2 ⟨_, listed, rfl⟩⟩
    | turnedAway _ _ inFlight =>
      cases raw
      have refused : (address, port) ∈ s.reception.fates.filterMap Fate.turnedAway? :=
        List.mem_filterMap.2 ⟨_, listed, rfl⟩
      have once := sound.once
      rw [Reception.seen, List.map_append, List.count_append, (drawn.listed.map Prod.snd).count_eq,
        List.map_append, List.count_append] at once
      have first := List.count_pos_iff.2 (List.mem_map_of_mem (f := Prod.snd) there)
      have second := List.count_pos_iff.2 (List.mem_map_of_mem (f := Prod.snd) refused)
      change 0 < List.count port _ at first second
      omega

/-- A handshake that has ended in time came to what its conversation comes to. -/
theorem Sound.in_time (sound : s.Sound ports port tape takes stalls config maxHandshakes)
    (drawn : s.Drawn generator) (begun : ⟨address, port, fresh⟩ ∈ s.admitted)
    {result : Except Error Connection} (ended : (address, port, result) ∈ s.reception.results)
    (timely : result ≠ .error .handshakeTimeout) :
    ∃ answer, (listenerExchange config fresh).outcome takes s.said = (s.given, .ready answer) ∧
      answer.map Connection.ofSession = result := by
  obtain ⟨_, also, comes⟩ := sound.settled address result ended
  cases drawn.unique sound.once begun also rfl
  cases comes with
  | ended comesTo => exact ⟨_, comesTo, rfl⟩
  | timedOut => exact absurd rfl timely

/-- Nothing is said that the conversation would not say. -/
theorem Sound.begins (sound : s.Sound ports port tape takes stalls config maxHandshakes)
    (drawn : s.Drawn generator) (begun : ⟨address, port, fresh⟩ ∈ s.admitted) :
    s.given <+: ((listenerExchange config fresh).outcome takes s.said).1 := by
  rcases sound.placed drawn begun with ⟨p, inside, here⟩ | ⟨result, ended⟩
  · obtain ⟨_, also, leads, -⟩ := sound.underway p inside here
    cases drawn.unique sound.once begun also rfl
    exact leads.begins
  · obtain ⟨_, also, comes⟩ := sound.settled address result ended
    cases drawn.unique sound.once begun also rfl
    exact comes.begins

/-- Once no handshake is left to drive, all is said that can be, and all that can end has ended. -/
theorem Sound.at_rest (sound : s.Sound ports port tape takes stalls config maxHandshakes)
    (drawn : s.Drawn generator) (begun : ⟨address, port, fresh⟩ ∈ s.admitted) (free : ¬stalls)
    (prompt : ports.Prompt port tape) (heard : s.unheard = false)
    (rest : s.reception.listener.woken = [])
    (timely : (address, port, .error .handshakeTimeout) ∉ s.reception.results) :
    s.given = ((listenerExchange config fresh).outcome takes s.said).1 ∧
      ∀ result, (address, port, result) ∈ s.reception.results ↔
        ∃ answer, ((listenerExchange config fresh).outcome takes s.said).2 = .ready answer ∧
          answer.map Connection.ofSession = result := by
  rcases sound.placed drawn begun with ⟨p, inside, rfl⟩ | ⟨result, ended⟩
  · obtain ⟨_, also, leads, driven⟩ := sound.underway p inside rfl
    cases drawn.unique sound.once begun also rfl
    have unended := sound.reached.not_ended sound.once (mem_unsettled_of_pending inside)
    rcases driven free prompt heard with woken | ⟨t, holds, waits⟩
    · rw [rest] at woken
      cases woken
    · rw [leads.now holds, waits]
      refine ⟨(List.append_nil _).symm, fun result => ⟨fun ended => absurd ended (unended _ result), ?_⟩⟩
      rintro ⟨answer, comesTo, -⟩
      cases comesTo
  · have comesTo {other} (also : (address, port, other) ∈ s.reception.results) :=
      sound.in_time drawn begun also fun late => timely (late ▸ also)
    obtain ⟨answer, same, rfl⟩ := comesTo ended
    rw [same]
    refine ⟨rfl, fun other => ⟨fun also => ?_, ?_⟩⟩
    · obtain ⟨answer', same', rfl⟩ := comesTo also
      rw [same] at same'
      cases same'
      exact ⟨answer, rfl, rfl⟩
    · rintro ⟨_, here, rfl⟩
      cases here
      exact ended

end Watch

end NoiseLink
