import Mathlib.Data.List.Nodup
import NoiseLink.Memory.Fabric
import NoiseLink.Proofs.Listener.Reception

/-! No raw connection is lost. Handshakes have numbers of their own, so a turn moves one of them at most,
from those in flight to those that are settled. -/
namespace NoiseLink

variable {ω ρ : Type} {ports : Ports ω ρ} {config : Config} {maxHandshakes : Nat}

namespace Listener

theorem of_found {l : Listener ρ} {id : Nat} {p : Pending ρ}
    (found : l.pending.find? (·.id = id) = some p) : p ∈ l.pending ∧ p.id = id :=
  ⟨List.mem_of_find?_eq_some found, by simpa using List.find?_some found⟩

theorem perm_remove {l : Listener ρ} (distinct : (l.pending.map Pending.id).Nodup) {id : Nat}
    {p : Pending ρ} (found : l.pending.find? (·.id = id) = some p) :
    l.pending.Perm (p :: (l.remove id).pending) := by
  rw [remove]
  generalize l.pending = ps at distinct found
  induction ps with
  | nil => cases found
  | cons q ps ih =>
    obtain ⟨fresh, distinct⟩ := List.nodup_cons.1 distinct
    by_cases same : q.id = id
    · subst same
      rw [List.find?_cons_of_pos (by simp)] at found
      cases found
      have others : ps.filter (·.id ≠ p.id) = ps := by
        refine List.filter_eq_self.2 fun other member => ?_
        have apart : other.id ≠ p.id := fun same => fresh (same ▸ List.mem_map_of_mem member)
        simpa using apart
      rw [List.filter_cons_of_neg (by simp), others]
    · rw [List.find?_cons_of_neg (by simpa using same)] at found
      rw [List.filter_cons_of_pos (by simpa using same)]
      exact ((ih distinct found).cons q).trans (.swap ..)

theorem mem_keep {l : Listener ρ} {p q : Pending ρ} (member : q ∈ (l.keep p).pending) :
    q = p ∨ (q ∈ l.pending ∧ q.id ≠ p.id) := by
  obtain ⟨other, inside, rfl⟩ := List.mem_map.1 member
  split
  · exact .inl rfl
  · rename_i apart
    exact .inr ⟨inside, apart⟩

theorem map_keep {α : Type} {l : Listener ρ} (distinct : (l.pending.map Pending.id).Nodup)
    {p q : Pending ρ} (member : p ∈ l.pending) (same : q.id = p.id) {view : Pending ρ → α}
    (kept : view q = view p) : (l.keep q).pending.map view = l.pending.map view := by
  rw [keep, List.map_map]
  refine List.map_congr_left fun other inside => ?_
  change view (if other.id = q.id then q else other) = view other
  split
  · rename_i equal
    rw [List.inj_on_of_nodup_map distinct inside member (equal.trans same), kept]
  · rfl

theorem wake_eq (l : Listener ρ) (id : Nat) :
    ∃ more, l.wake id = { l with woken := l.woken ++ more } := by
  rw [wake]
  split
  · exact ⟨[id], rfl⟩
  · exact ⟨[], by rw [List.append_nil]⟩

theorem expire_eq (l : Listener ρ) (now : Nanoseconds) :
    ∃ more, l.expire now = { l with woken := l.woken ++ more } := by
  rw [expire]
  generalize List.mergeSort _ _ = due
  induction due generalizing l with
  | nil => exact ⟨[], by rw [List.append_nil]; rfl⟩
  | cons entry due ih =>
    obtain ⟨first, woken⟩ := l.wake_eq entry.2
    obtain ⟨rest, others⟩ := ih (l.wake entry.2)
    refine ⟨first ++ rest, ?_⟩
    rw [List.foldl_cons, others, woken, List.append_assoc]

/-- Taking the first handshake off the queue leaves all others on it. -/
theorem queued_behind {l : Listener ρ} {id other : Nat} {woken : List Nat} (queue : l.woken = id :: woken)
    (apart : other ≠ id) (queued : other ∈ l.woken) : other ∈ woken := by
  rw [queue] at queued
  exact (List.mem_cons.1 queued).resolve_left apart

theorem mem_wake {l : Listener ρ} {id : Nat} {p : Pending ρ} (inside : p ∈ l.pending) (same : p.id = id) :
    id ∈ (l.wake id).woken := by
  rw [wake]
  split
  · exact List.mem_append_right _ (List.mem_singleton.2 rfl)
  · rename_i queued
    have here : l.pending.any (·.id = id) = true := List.any_eq_true.2 ⟨p, inside, by simpa using same⟩
    simpa [here] using queued

end Listener

/-- The handshake was begun with a key of its own, and has been polled on its own streams only. -/
def Pending.Driven (ports : Ports ω ρ) (config : Config) (p : Pending ρ) : Prop :=
  ∃ fresh, Upgrade.Polled (ports.sink p.port) (ports.source p.id p.port) (.listener config fresh)
    p.upgrade

namespace Reception

/-- Every raw connection that was taken is in flight or settled, with as many in flight as may be.
Handshakes that were never driven are queued for it. -/
structure Sound (ports : Ports ω ρ) (config : Config) (maxHandshakes : Nat) (r : Reception ω ρ) :
    Prop where
  configured : r.listener.config = config
  limited : r.listener.maxHandshakes = maxHandshakes
  bounded : r.listener.pending.length ≤ maxHandshakes
  distinct : (r.listener.pending.map Pending.id).Nodup
  begun : ∀ p ∈ r.listener.pending, p.id < r.listener.begun
  driven : ∀ p ∈ r.listener.pending, p.Driven ports config
  queued : ∀ p ∈ r.listener.pending, p.upgrade.deadline = none → p.id ∈ r.listener.woken
  conserved : r.taken.Perm (r.inFlight ++ r.fates.map Fate.raw)
  due : ∀ fate ∈ r.fates, fate.Due ports config maxHandshakes

theorem sound_start {generator : Generator} {world : ω} :
    Sound ports config maxHandshakes ⟨{ config, maxHandshakes }, generator, [], world, [], []⟩ where
  configured := rfl
  limited := rfl
  bounded := Nat.zero_le _
  distinct := .nil
  begun := nofun
  driven := nofun
  queued := nofun
  conserved := .nil
  due := nofun

/-- Neither the queue of the woken, nor arrivals, nor the world make a difference, as long as no
handshake is taken off the queue that was never driven. -/
theorem Sound.requeued {r : Reception ω ρ} (sound : r.Sound ports config maxHandshakes)
    {woken : List Nat}
    (queued : ∀ p ∈ r.listener.pending, p.upgrade.deadline = none → p.id ∈ woken)
    (arrivals : List (Arrival ρ)) (world : ω) :
    Sound ports config maxHandshakes
      { r with listener := { r.listener with woken }, arrivals, world } :=
  ⟨sound.configured, sound.limited, sound.bounded, sound.distinct, sound.begun, sound.driven, queued,
    sound.conserved, sound.due⟩

theorem Sound.woke {r : Reception ω ρ} (sound : r.Sound ports config maxHandshakes) {l : Listener ρ}
    (woken : ∃ more, l = { r.listener with woken := r.listener.woken ++ more }) :
    Sound ports config maxHandshakes { r with listener := l } := by
  obtain ⟨more, rfl⟩ := woken
  exact sound.requeued (fun p inside undriven =>
    List.mem_append_left _ (sound.queued p inside undriven)) _ _

theorem Sound.queued_behind {r : Reception ω ρ} (sound : r.Sound ports config maxHandshakes) {id : Nat}
    {woken : List Nat} (queue : r.listener.woken = id :: woken) {p : Pending ρ}
    (inside : p ∈ r.listener.pending) (undriven : p.upgrade.deadline = none) (apart : p.id ≠ id) :
    p.id ∈ woken :=
  Listener.queued_behind queue apart (sound.queued p inside undriven)

/-- A connection that arrives when enough handshakes are under way is settled at once. -/
theorem Sound.turnedAway {r : Reception ω ρ} (sound : r.Sound ports config maxHandshakes)
    {address : String} {port : ρ} {rest : List (Arrival ρ)} {world : ω}
    (full : r.listener.maxHandshakes ≤ r.listener.pending.length) :
    Sound ports config maxHandshakes
      { r with
        arrivals := rest
        world
        taken := r.taken ++ [(address, port)]
        fates := r.fates ++ [.turnedAway address port r.listener.pending.length] } := by
  refine ⟨sound.configured, sound.limited, sound.bounded, sound.distinct, sound.begun, sound.driven,
    sound.queued, ?_, ?_⟩
  · have moved := sound.conserved.append_right [(address, port)]
    rw [List.append_assoc] at moved
    simpa [inFlight, Fate.raw] using moved
  · refine List.forall_mem_append.2 ⟨sound.due, List.forall_mem_singleton.2 ?_⟩
    exact Nat.le_antisymm sound.bounded (sound.limited ▸ full)

theorem Sound.enrolled {r : Reception ω ρ} (sound : r.Sound ports config maxHandshakes)
    {address : String} {port : ρ} {rest : List (Arrival ρ)} (fresh : PrivateKey) {generator : Generator}
    (room : r.listener.pending.length < r.listener.maxHandshakes) :
    Sound ports config maxHandshakes
      { r with
        listener := r.listener.enroll address port fresh
        generator
        arrivals := rest
        taken := r.taken ++ [(address, port)] } := by
  refine ⟨sound.configured, sound.limited, ?_, ?_, ?_, ?_, ?_, ?_, sound.due⟩
  · rw [sound.limited] at room
    simpa [Listener.enroll] using Nat.succ_le_of_lt room
  · have next : r.listener.begun ∉ r.listener.pending.map Pending.id := by
      intro member
      obtain ⟨p, inside, same⟩ := List.mem_map.1 member
      exact absurd (sound.begun p inside) (by omega)
    simpa [Listener.enroll, List.nodup_append] using ⟨sound.distinct, by simpa using next⟩
  · refine List.forall_mem_append.2 ⟨fun p inside => ?_, List.forall_mem_singleton.2 ?_⟩
    · exact Nat.lt_succ_of_lt (sound.begun p inside)
    · exact Nat.lt_succ_self _
  · refine List.forall_mem_append.2 ⟨sound.driven, List.forall_mem_singleton.2 ⟨fresh, ?_⟩⟩
    rw [sound.configured]
    exact .start
  · refine List.forall_mem_append.2 ⟨fun p inside undriven => ?_, List.forall_mem_singleton.2 ?_⟩
    · exact List.mem_append_left _ (sound.queued p inside undriven)
    · exact fun _ => List.mem_append_right _ List.mem_cons_self
  · have moved := sound.conserved.append_right [(address, port)]
    rw [List.append_assoc] at moved
    have there : inFlight { r with listener := r.listener.enroll address port fresh } ++
        r.fates.map Fate.raw = r.inFlight ++ ([(address, port)] ++ r.fates.map Fate.raw) := by
      simp [inFlight, Listener.enroll, Pending.raw]
    exact moved.trans ((List.perm_append_comm.append_left _).trans (.of_eq there.symm))

/-- The handshake that was driven keeps its place. -/
theorem Sound.waits {r : Reception ω ρ} (sound : r.Sound ports config maxHandshakes)
    {id : Nat} {woken : List Nat} {p : Pending ρ} {upgrade : Upgrade} {now : Nanoseconds} {world : ω}
    (queue : r.listener.woken = id :: woken) (found : r.listener.pending.find? (·.id = id) = some p)
    (polled : p.upgrade.poll (ports.sink p.port) (ports.source id p.port) now r.world =
      (.pending, upgrade, world)) :
    Sound ports config maxHandshakes
      { r with listener := { r.listener with woken }.keep { p with upgrade }, world } := by
  obtain ⟨inside, rfl⟩ := Listener.of_found found
  have kept {α : Type} {view : Pending ρ → α} (blind : view { p with upgrade } = view p) :
      ({ r.listener with woken }.keep { p with upgrade }).pending.map view =
        r.listener.pending.map view :=
    Listener.map_keep (l := { r.listener with woken }) (q := { p with upgrade }) sound.distinct inside
      rfl blind
  refine ⟨sound.configured, sound.limited, ?_, ?_, ?_, ?_, ?_, ?_, sound.due⟩
  · exact Nat.le_trans (Nat.le_of_eq (List.length_map _)) sound.bounded
  · rw [kept rfl]
    exact sound.distinct
  · intro q member
    rcases Listener.mem_keep member with rfl | ⟨before, -⟩
    · exact sound.begun p inside
    · exact sound.begun q before
  · intro q member
    rcases Listener.mem_keep member with rfl | ⟨before, -⟩
    · obtain ⟨fresh, driven⟩ := sound.driven p inside
      exact ⟨fresh, driven.poll polled⟩
    · exact sound.driven q before
  · intro q member undriven
    rcases Listener.mem_keep member with rfl | ⟨before, apart⟩
    · have begun := (Upgrade.exchange_of_pending polled).2
      change upgrade.deadline = none at undriven
      simp [undriven] at begun
    · exact sound.queued_behind queue before undriven apart
  · change r.taken.Perm (({ r.listener with woken }.keep { p with upgrade }).pending.map Pending.raw ++ _)
    rw [kept rfl]
    exact sound.conserved

/-- A handshake that has come to its end leaves, and its connection is settled. -/
theorem Sound.settled {r : Reception ω ρ} (sound : r.Sound ports config maxHandshakes)
    {id : Nat} {woken : List Nat} {p : Pending ρ} {fate : Fate ρ} {world : ω}
    (queue : r.listener.woken = id :: woken) (found : r.listener.pending.find? (·.id = id) = some p)
    (raw : fate.raw = p.raw) (due : fate.Due ports config maxHandshakes) :
    Sound ports config maxHandshakes
      { r with
        listener := { r.listener with woken }.remove id
        world
        fates := r.fates ++ [fate] } := by
  have left := Listener.perm_remove sound.distinct found
  have others : ∀ q ∈ (r.listener.remove id).pending, q ∈ r.listener.pending ∧ q.id ≠ id := by
    intro q member
    simpa using List.mem_filter.1 member
  refine ⟨sound.configured, sound.limited, ?_, ?_, ?_, ?_, ?_, ?_, ?_⟩
  · have fewer := left.length_eq
    have bounded := sound.bounded
    change (r.listener.remove id).pending.length ≤ _
    rw [List.length_cons] at fewer
    omega
  · exact (List.nodup_cons.1 ((left.map Pending.id).nodup_iff.1 sound.distinct)).2
  · exact fun q member => sound.begun q (others q member).1
  · exact fun q member => sound.driven q (others q member).1
  · exact fun q member undriven =>
      sound.queued_behind queue (others q member).1 undriven (others q member).2
  · have moved := sound.conserved.trans ((left.map Pending.raw).append_right _)
    refine moved.trans ?_
    change (p.raw :: _).Perm (_ ++ List.map Fate.raw (_ ++ [fate]))
    rw [List.map_append, List.map_singleton, raw, ← List.append_assoc]
    exact (List.perm_append_singleton ..).symm
  · exact List.forall_mem_append.2 ⟨sound.due, List.forall_mem_singleton.2 due⟩

/-- A handshake that ends was polled on its own streams from the beginning. -/
theorem Sound.comes_to {r : Reception ω ρ} (sound : r.Sound ports config maxHandshakes) {id : Nat}
    {p : Pending ρ} (found : r.listener.pending.find? (·.id = id) = some p) {now : Nanoseconds}
    {answer : Except Error Connection} {upgrade : Upgrade} {w world : ω}
    (ended : p.upgrade.poll (ports.sink p.port) (ports.source id p.port) now w =
      (.ready answer, upgrade, world)) : ports.Settled config p.port answer := by
  obtain ⟨inside, rfl⟩ := Listener.of_found found
  obtain ⟨fresh, driven⟩ := sound.driven p inside
  exact ⟨p.id, fresh, p.upgrade, now, w, upgrade, world, driven, ended⟩

theorem Sound.turn {r next : Reception ω ρ} (sound : r.Sound ports config maxHandshakes)
    {now : Nanoseconds} {outcome : Option (Listener.Outcome ρ)} (turn : Turn ports now r outcome next) :
    next.Sound ports config maxHandshakes := by
  cases turn with
  | broken => exact sound.requeued sound.queued _ _
  | turnedAway _ full => exact sound.turnedAway full
  | enrolled _ room _ => exact sound.enrolled _ room
  | rests => exact sound
  | stale _ queue unknown =>
    refine sound.requeued (fun p inside undriven => ?_) _ _
    have apart := List.find?_eq_none.1 unknown p inside
    exact sound.queued_behind queue inside undriven (by simpa using apart)
  | waits _ queue found polled => exact sound.waits queue found polled
  | returned _ queue found done => exact sound.settled queue found rfl (sound.comes_to found done)
  | failed _ queue found broken => exact sound.settled queue found rfl (sound.comes_to found broken)

theorem sound_of_reached {r : Reception ω ρ} (reached : Reached ports config maxHandshakes r) :
    r.Sound ports config maxHandshakes := by
  induction reached with
  | start => exact sound_start
  | arrives _ _ sound => exact sound.requeued sound.queued _ _
  | wakes id _ sound => exact sound.woke (Listener.wake_eq _ id)
  | expires now _ sound => exact sound.woke (Listener.expire_eq _ now)
  | elsewhere _ _ sound => exact sound.requeued sound.queued _ _
  | turn _ turn sound => exact sound.turn turn

end Reception
end NoiseLink
