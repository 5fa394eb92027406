import NoiseLink.Proofs.Handshake.Outcome
import NoiseLink.Proofs.Listener.Conservation

/-! A listener at work, with one of its raw connections watched: what the peer of that connection says and
what it is given, whatever the other connections do meanwhile. Beside it stands a list of all handshakes
in the order in which they were begun, with their fresh keys. -/
namespace NoiseLink

namespace Generator

/-- What is left of a generator once so many keys of further generators were drawn from it. -/
def afterKeys? : Nat → Generator → Option Generator
  | 0, generator => some generator
  | count + 1, generator => do
    let (_, rest) ← (← generator.afterKeys? count).key?
    return rest

def keyAt? (count : Nat) (generator : Generator) : Option (Octets 32) := do
  let (key, _) ← (← generator.afterKeys? count).key?
  return key

/-- A fresh key that comes from a generator of its own, which the key at this place is the seed of. -/
def Seeds (generator : Generator) (place : Nat) (fresh : PrivateKey) : Prop :=
  ∃ seed, generator.keyAt? place = some seed ∧
    (PrivateKey.generate? (.ofKey seed)).map Prod.fst = some fresh

theorem Seeds.unique {generator : Generator} {place : Nat} {fresh other : PrivateKey}
    (one : generator.Seeds place fresh) (two : generator.Seeds place other) : fresh = other := by
  obtain ⟨seed, drawn, made⟩ := one
  obtain ⟨_, same, also⟩ := two
  rw [drawn] at same
  cases same
  rw [made] at also
  exact Option.some.inj also

theorem seeds_of_ephemeral {generator before rest : Generator} {place : Nat} {fresh : PrivateKey}
    (reached : generator.afterKeys? place = some before)
    (drawn : Listener.ephemeral? before = (some fresh, rest)) :
    generator.Seeds place fresh ∧ generator.afterKeys? (place + 1) = some rest := by
  rw [Listener.ephemeral?] at drawn
  split at drawn
  · rename_i seed after found
    obtain ⟨made, rfl⟩ := Prod.mk.inj drawn
    exact ⟨⟨seed, by simp [keyAt?, reached, found], made⟩, by simp [afterKeys?, reached, found]⟩
  · cases drawn

end Generator

/-- Whatever is done at a port, what is seen of the world stays as it is. -/
structure Ports.Apart (ports : Ports ω ρ) (port : ρ) (view : ω → α) : Prop where
  receives : ∀ id, (ports.source id port).Keeps view
  sends : (ports.sink port).Keeps view
  resumes : ∀ w, view ((ports.sink port).resume w).2 = view w
  drops : ∀ w, view (ports.drop port w) = view w

/-- A port where a tape comes in and every send is answered alike. -/
structure Ports.Serves (ports : Ports ω ρ) (port : ρ) (tape : ω → Option Tape)
    (takes : Except NetworkError Unit) (stalls : Prop) : Prop where
  hands : ∀ id, (ports.source id port).Hands tape
  answers : (ports.sink port).Answers tape takes stalls

/-- A port that has nobody wait without need. -/
def Ports.Prompt (ports : Ports ω ρ) (port : ρ) (tape : ω → Option Tape) : Prop :=
  ∀ id, (ports.source id port).Prompt tape

structure Admission (ρ : Type) where
  address : String
  port : ρ
  fresh : PrivateKey

def Admission.raw (a : Admission ρ) : String × ρ := (a.address, a.port)

def Fate.result? : Fate ρ → Option (String × ρ × Except Error Connection)
  | returned address port connection => some (address, port, .ok connection)
  | failed address port error => some (address, port, .error error)
  | turnedAway .. => none

def Fate.turnedAway? : Fate ρ → Option (String × ρ)
  | turnedAway address port _ => some (address, port)
  | returned .. | failed .. => none

theorem Fate.raw_of_result {fate : Fate ρ} {address : String} {port : ρ}
    {result : Except Error Connection} (settled : fate.result? = some (address, port, result)) :
    fate.raw = (address, port) := by
  cases fate with
  | returned => cases settled; rfl
  | failed => cases settled; rfl
  | turnedAway => cases settled

theorem eq_of_count_map {α β : Type} [DecidableEq β] {f : α → β} {l : List α} {x y : α}
    (once : (l.map f).count (f x) ≤ 1) (inside : x ∈ l) (also : y ∈ l) (same : f y = f x) : y = x := by
  obtain ⟨before, after, rfl⟩ := List.append_of_mem inside
  rw [List.map_append, List.map_cons, List.count_append, List.count_cons_self] at once
  have not_among {others : List α} (zero : (others.map f).count (f x) = 0) : y ∉ others :=
    fun member => List.count_eq_zero.1 zero (same ▸ List.mem_map_of_mem member)
  rcases List.mem_append.1 also with earlier | later
  · exact absurd earlier (not_among (by omega))
  · exact (List.mem_cons.1 later).resolve_right (not_among (by omega))

namespace Reception

variable {ω ρ : Type}

def arriving (r : Reception ω ρ) : List (String × ρ) := r.arrivals.filterMap Except.toOption

def seen (r : Reception ω ρ) : List ρ := (r.taken ++ r.arriving).map Prod.snd

def unsettled (r : Reception ω ρ) : List ρ := (r.inFlight ++ r.arriving).map Prod.snd

/-- The handshake that the next turn begins, if it begins one. -/
def beginning (r : Reception ω ρ) : List (Admission ρ) :=
  match r.arrivals with
  | .ok (address, port) :: _ =>
    if r.listener.pending.length < r.listener.maxHandshakes then
      (Listener.ephemeral? r.generator).1.toList.map (Admission.mk address port)
    else []
  | _ => []

section Beginning

variable {r : Reception ω ρ} {address : String} {port : ρ} {rest : List (Arrival ρ)}

theorem beginning_of_nil (rested : r.arrivals = []) : r.beginning = [] := by
  rw [beginning, rested]

theorem beginning_of_failure {cause : NetworkError} (here : r.arrivals = .error cause :: rest) :
    r.beginning = [] := by
  rw [beginning, here]

theorem beginning_of_full (here : r.arrivals = .ok (address, port) :: rest)
    (full : r.listener.maxHandshakes ≤ r.listener.pending.length) : r.beginning = [] := by
  simp [beginning, here, Nat.not_lt.2 full]

theorem beginning_of_room (here : r.arrivals = .ok (address, port) :: rest)
    (room : r.listener.pending.length < r.listener.maxHandshakes) {fresh : PrivateKey}
    {generator : Generator} (drawn : Listener.ephemeral? r.generator = (some fresh, generator)) :
    r.beginning = [⟨address, port, fresh⟩] := by
  simp [beginning, here, room, drawn]

end Beginning

def results (r : Reception ω ρ) : List (String × ρ × Except Error Connection) :=
  r.fates.filterMap Fate.result?

/-- A connection that is taken begins a handshake or is turned away, and only if it begins one a key is
drawn for it. -/
theorem Turn.begins {ports : Ports ω ρ} {r next : Reception ω ρ} {now : Nanoseconds}
    {outcome : Option (Listener.Outcome ρ)} (turn : Turn ports now r outcome next) :
    (∃ more, next.fates = r.fates ++ more ∧
      next.taken = r.taken ++ (r.beginning.map Admission.raw ++ more.filterMap Fate.turnedAway?)) ∧
    ((r.beginning = [] ∧ next.generator = r.generator) ∨
      ∃ a, r.beginning = [a] ∧ Listener.ephemeral? r.generator = (some a.fresh, next.generator)) := by
  cases turn with
  | broken here =>
    rw [beginning_of_failure here]
    exact ⟨⟨[], by simp, by simp⟩, .inl ⟨rfl, rfl⟩⟩
  | turnedAway here full =>
    rw [beginning_of_full here full]
    exact ⟨⟨_, rfl, rfl⟩, .inl ⟨rfl, rfl⟩⟩
  | enrolled here room drawn =>
    rw [beginning_of_room here room drawn]
    exact ⟨⟨[], by simp, rfl⟩, .inr ⟨_, rfl, drawn⟩⟩
  | rests rested | stale rested | waits rested =>
    rw [beginning_of_nil rested]
    exact ⟨⟨[], by simp, by simp⟩, .inl ⟨rfl, rfl⟩⟩
  | returned rested | failed rested =>
    rw [beginning_of_nil rested]
    exact ⟨⟨_, rfl, (List.append_nil _).symm⟩, .inl ⟨rfl, rfl⟩⟩

/-- The acts that the next turn hands to the sink of a port. -/
def handing [DecidableEq ρ] (ports : Ports ω ρ) (port : ρ) (r : Reception ω ρ) : List Bytes :=
  match r.arrivals, r.listener.woken with
  | [], id :: _ =>
    match r.listener.pending.find? (·.id = id) with
    | some p =>
      if p.port = port then p.upgrade.exchange.handed (ports.sink port) (ports.source id port) r.world
      else []
    | none => []
  | _, _ => []

section Handing

variable [DecidableEq ρ] {ports : Ports ω ρ} {port : ρ} {r : Reception ω ρ}

theorem handing_of_arrival {arrival : Arrival ρ} {rest : List (Arrival ρ)}
    (here : r.arrivals = arrival :: rest) : r.handing ports port = [] := by
  rw [handing, here]

theorem handing_of_idle (idle : r.listener.woken = []) : r.handing ports port = [] := by
  rw [handing, idle]
  split <;> first | rfl | contradiction

theorem handing_of_unknown {id : Nat} {woken : List Nat} (queue : r.listener.woken = id :: woken)
    (unknown : r.listener.pending.find? (·.id = id) = none) : r.handing ports port = [] := by
  rw [handing, queue]
  split
  · rename_i first
    cases first
    rw [unknown]
  · rfl

theorem handing_of_found {id : Nat} {woken : List Nat} {p : Pending ρ} (rested : r.arrivals = [])
    (queue : r.listener.woken = id :: woken)
    (found : r.listener.pending.find? (·.id = id) = some p) :
    r.handing ports port =
      if p.port = port then p.upgrade.exchange.handed (ports.sink port) (ports.source id port) r.world
      else [] := by
  rw [handing, rested, queue]
  simp only [found]

/-- A sink that keeps what it is given is given what the turns hand to it, and nothing else. -/
theorem Turn.kept {kept : ω → List Bytes}
    (sends : ∀ bytes w, kept ((ports.sink port).send bytes w).2 = kept w ++ [bytes])
    (resumes : ∀ w, kept ((ports.sink port).resume w).2 = kept w)
    (receives : ∀ id, (ports.source id port).Keeps kept) (drops : ∀ w, kept (ports.drop port w) = kept w)
    (apart : ∀ other, other ≠ port → ports.Apart other kept) {next : Reception ω ρ} {now : Nanoseconds}
    {outcome : Option (Listener.Outcome ρ)} (turn : Turn ports now r outcome next) :
    kept next.world = kept r.world ++ r.handing ports port := by
  have dropped (other : ρ) (w : ω) : kept (ports.drop other w) = kept w := by
    by_cases own : other = port
    · rw [own, drops]
    · exact (apart other own).drops w
  have driven {id : Nat} {woken : List Nat} {p : Pending ρ} (rested : r.arrivals = [])
      (queue : r.listener.woken = id :: woken)
      (found : r.listener.pending.find? (·.id = id) = some p)
      {answer : Poll (Except Error Connection)} {upgrade : Upgrade} {world : ω}
      (polled : p.upgrade.poll (ports.sink p.port) (ports.source id p.port) now r.world =
        (answer, upgrade, world)) : kept world = kept r.world ++ r.handing ports port := by
    rw [handing_of_found rested queue found]
    split
    · rename_i own
      have given := Exchange.kept_of_poll sends resumes (receives id) p.upgrade.exchange r.world
      rwa [← Upgrade.world_poll _ _ now, ← own, polled, own] at given
    · rename_i other
      have separate := apart p.port other
      rw [List.append_nil]
      exact Upgrade.keeps_poll (separate.receives id) separate.sends separate.resumes polled
  cases turn with
  | broken here | enrolled here => rw [handing_of_arrival here, List.append_nil]
  | turnedAway here => rw [handing_of_arrival here, List.append_nil, dropped]
  | rests _ idle => rw [handing_of_idle idle, List.append_nil]
  | stale _ queue unknown => rw [handing_of_unknown queue unknown, List.append_nil]
  | waits rested queue found polled | returned rested queue found polled =>
    exact driven rested queue found polled
  | failed rested queue found polled => rw [dropped, driven rested queue found polled]

end Handing

section Places

variable {ports : Ports ω ρ} {port : ρ} {config : Config} {maxHandshakes : Nat}

theorem seen_of_turn {r next : Reception ω ρ} {now : Nanoseconds}
    {outcome : Option (Listener.Outcome ρ)} (turn : Turn ports now r outcome next) :
    next.seen = r.seen := by
  obtain ⟨raws, -, taken, -, order, -⟩ := turn.account
  have none : (List.map Except.error (outcome.elim [] Listener.Outcome.causes) :
      List (Arrival ρ)).filterMap Except.toOption = [] := by
    simp [List.filterMap_map, List.filterMap_eq_nil_iff, Except.toOption]
  have all : (raws.map Except.ok : List (Arrival ρ)).filterMap Except.toOption = raws := by
    rw [List.filterMap_map]
    exact List.filterMap_some
  rw [seen, seen, arriving, arriving, order, List.filterMap_append, List.filterMap_append, none, all,
    taken, List.append_assoc, List.nil_append]

theorem seen_of_arrival (r : Reception ω ρ) (arrival : Arrival ρ) :
    seen { r with arrivals := r.arrivals ++ [arrival] } =
      r.seen ++ arrival.toOption.toList.map Prod.snd := by
  cases arrival <;> simp [seen, arriving, List.filterMap_append, Except.toOption]

theorem Reached.perm_seen {r : Reception ω ρ} (reached : Reached ports config maxHandshakes r) :
    r.seen.Perm (r.unsettled ++ (r.fates.map Fate.raw).map Prod.snd) := by
  rw [seen, unsettled, ← List.map_append]
  refine List.Perm.map Prod.snd ?_
  refine ((sound_of_reached reached).conserved.append_right _).trans ?_
  rw [List.append_assoc, List.append_assoc]
  exact List.perm_append_comm.append_left _

theorem mem_unsettled_of_pending {r : Reception ω ρ} {p : Pending ρ} (inside : p ∈ r.listener.pending) :
    p.port ∈ r.unsettled :=
  List.mem_map.2 ⟨p.raw, List.mem_append_left _ (List.mem_map_of_mem inside), rfl⟩

theorem mem_unsettled_of_arriving {r : Reception ω ρ} (inside : port ∈ r.arriving.map Prod.snd) :
    port ∈ r.unsettled := by
  obtain ⟨raw, member, rfl⟩ := List.mem_map.1 inside
  exact List.mem_map_of_mem (List.mem_append_right _ member)

theorem Reached.seen_of_pending {r : Reception ω ρ} (reached : Reached ports config maxHandshakes r)
    {p : Pending ρ} (inside : p ∈ r.listener.pending) : p.port ∈ r.seen :=
  reached.perm_seen.mem_iff.2 (List.mem_append_left _ (mem_unsettled_of_pending inside))

theorem Reached.seen_of_ended {r : Reception ω ρ} (reached : Reached ports config maxHandshakes r)
    {address : String} {result : Except Error Connection} (ended : (address, port, result) ∈ r.results) :
    port ∈ r.seen := by
  obtain ⟨fate, listed, settled⟩ := List.mem_filterMap.1 ended
  have raw := List.mem_map_of_mem (f := Prod.snd) (List.mem_map_of_mem (f := Fate.raw) listed)
  rw [Fate.raw_of_result settled] at raw
  exact reached.perm_seen.mem_iff.2 (List.mem_append_right _ raw)

variable [DecidableEq ρ]

/-- A connection whose port was seen once has one place. -/
theorem Reached.not_settled {r : Reception ω ρ} (reached : Reached ports config maxHandshakes r)
    (once : r.seen.count port ≤ 1) (unsettled : port ∈ r.unsettled) :
    ∀ fate ∈ r.fates, fate.raw.2 ≠ port := by
  rintro fate member rfl
  rw [reached.perm_seen.count_eq, List.count_append] at once
  have one := List.count_pos_iff.2 unsettled
  have two : 0 < ((r.fates.map Fate.raw).map Prod.snd).count fate.raw.2 :=
    List.count_pos_iff.2 (List.mem_map_of_mem (List.mem_map_of_mem member))
  omega

theorem Reached.not_ended {r : Reception ω ρ} (reached : Reached ports config maxHandshakes r)
    (once : r.seen.count port ≤ 1) (unsettled : port ∈ r.unsettled) (address : String)
    (result : Except Error Connection) : (address, port, result) ∉ r.results := by
  intro member
  obtain ⟨fate, listed, ended⟩ := List.mem_filterMap.1 member
  exact reached.not_settled once unsettled fate listed (congrArg Prod.snd (Fate.raw_of_result ended))

theorem Reached.not_arriving {r : Reception ω ρ} (reached : Reached ports config maxHandshakes r)
    {p : Pending ρ} (once : r.seen.count p.port ≤ 1) (inside : p ∈ r.listener.pending) :
    p.port ∉ r.arriving.map Prod.snd := by
  intro arriving
  rw [reached.perm_seen.count_eq, List.count_append, unsettled, List.map_append, List.count_append] at once
  have one : 0 < (r.inFlight.map Prod.snd).count p.port :=
    List.count_pos_iff.2 (List.mem_map.2 ⟨p.raw, List.mem_map_of_mem inside, rfl⟩)
  have two := List.count_pos_iff.2 arriving
  omega

theorem Reached.eq_of_pending {r : Reception ω ρ} (reached : Reached ports config maxHandshakes r)
    {p q : Pending ρ} (once : r.seen.count p.port ≤ 1) (inside : p ∈ r.listener.pending)
    (also : q ∈ r.listener.pending) (same : q.port = p.port) : q = p := by
  rw [reached.perm_seen.count_eq, List.count_append, unsettled, List.map_append, List.count_append,
    inFlight, List.map_map] at once
  refine eq_of_count_map (f := Pending.port) ?_ inside also same
  change ((r.listener.pending.map Pending.port).count p.port) + _ + _ ≤ 1 at once
  omega

end Places

end Reception

/-- A listener at work and what is known of one of its connections. -/
structure Watch (ω ρ : Type) where
  reception : Reception ω ρ
  /-- The handshakes in the order in which they were begun. -/
  admitted : List (Admission ρ) := []
  /-- All that the peer has said, and whether it may go on. -/
  said : Tape := ⟨[], .quiet⟩
  /-- Whether it has said something since its handshake was last woken for it. -/
  unheard : Bool := false
  /-- The acts that were handed to the sink of the connection. -/
  given : List Bytes := []

open Reception in
/-- The moments of a listener while the connection at a port is watched. That connection is new when it
arrives, and as long as it is not settled only its peer and its own handshake have to do with what comes in
for it. The handshake may be woken for what the peer says at once, or later, or never. Of the other
connections no more is asked than that they have ports of their own. -/
inductive Watched [DecidableEq ρ] (ports : Ports ω ρ) (port : ρ) (tape : ω → Option Tape)
    (config : Config) (maxHandshakes : Nat) (generator : Generator) : Watch ω ρ → Prop where
  | start (world : ω) : Watched ports port tape config maxHandshakes generator
      { reception := ⟨{ config, maxHandshakes }, generator, [], world, [], []⟩ }
  | comes {s t} (address : String) : Watched ports port tape config maxHandshakes generator s →
      port ∉ s.reception.seen → tape s.reception.world = some t →
      Watched ports port tape config maxHandshakes generator
        { s with
          reception := { s.reception with arrivals := s.reception.arrivals ++ [.ok (address, port)] }
          said := t
          unheard := false
          given := [] }
  | arrives {s} (arrival : Arrival ρ) : Watched ports port tape config maxHandshakes generator s →
      (∀ raw, arrival = .ok raw → raw.2 ≠ port ∧ ports.Apart raw.2 tape) →
      Watched ports port tape config maxHandshakes generator
        { s with reception := { s.reception with arrivals := s.reception.arrivals ++ [arrival] } }
  | wakes {s} (id : Nat) : Watched ports port tape config maxHandshakes generator s →
      Watched ports port tape config maxHandshakes generator
        { s with reception := { s.reception with listener := s.reception.listener.wake id } }
  | expires {s} (now : Nanoseconds) : Watched ports port tape config maxHandshakes generator s →
      Watched ports port tape config maxHandshakes generator
        { s with reception := { s.reception with listener := s.reception.listener.expire now } }
  | elsewhere {s} (world : ω) : Watched ports port tape config maxHandshakes generator s →
      (port ∈ s.reception.unsettled → tape world = tape s.reception.world) →
      Watched ports port tape config maxHandshakes generator
        { s with reception := { s.reception with world } }
  | hears {s t} (more : Bytes) (ending : Ending) (world : ω) :
      Watched ports port tape config maxHandshakes generator s → port ∈ s.reception.unsettled →
      s.said.ending = .quiet → tape s.reception.world = some t →
      tape world = some (t.follow more ending) →
      Watched ports port tape config maxHandshakes generator
        { s with
          reception := { s.reception with world }
          said := s.said.follow more ending
          unheard := true }
  | notices {s} (id : Nat) : Watched ports port tape config maxHandshakes generator s →
      (∀ p ∈ s.reception.listener.pending, p.port = port → p.id = id) →
      Watched ports port tape config maxHandshakes generator
        { s with
          reception := { s.reception with listener := s.reception.listener.wake id }
          unheard := false }
  | talks {s} (more : Bytes) (ending : Ending) :
      Watched ports port tape config maxHandshakes generator s → port ∉ s.reception.unsettled →
      s.said.ending = .quiet →
      Watched ports port tape config maxHandshakes generator
        { s with said := s.said.follow more ending }
  | turn {s now outcome next} : Watched ports port tape config maxHandshakes generator s →
      Turn ports now s.reception outcome next →
      Watched ports port tape config maxHandshakes generator
        { s with
          reception := next
          admitted := s.admitted ++ s.reception.beginning
          given := s.given ++ s.reception.handing ports port }

namespace Watched

open Reception

variable {ω ρ : Type} [DecidableEq ρ] {ports : Ports ω ρ} {port : ρ} {tape : ω → Option Tape}
  {config : Config} {maxHandshakes : Nat} {generator : Generator}

theorem reached {s : Watch ω ρ} (watched : Watched ports port tape config maxHandshakes generator s) :
    Reached ports config maxHandshakes s.reception := by
  induction watched with
  | start world => exact .start generator world
  | comes address _ _ _ ih => exact ih.arrives _
  | arrives arrival _ _ ih => exact ih.arrives arrival
  | wakes id _ ih => exact ih.wakes id
  | expires now _ ih => exact ih.expires now
  | elsewhere world _ _ ih => exact ih.elsewhere world
  | hears more ending world _ _ _ _ _ ih => exact ih.elsewhere world
  | notices id _ _ ih => exact ih.wakes id
  | talks _ _ _ _ _ ih => exact ih
  | turn _ turn ih => exact ih.turn turn

theorem call {s : Watch ω ρ} {now : Nanoseconds} {outcome : Listener.Outcome ρ} {next : Reception ω ρ}
    (watched : Watched ports port tape config maxHandshakes generator s)
    (call : Reception.Call ports now s.reception outcome next) : ∃ later : Watch ω ρ,
      later.reception = next ∧ later.said = s.said ∧ s.admitted <+: later.admitted ∧
      Watched ports port tape config maxHandshakes generator later := by
  generalize same : s.reception = r at call
  induction call generalizing s with
  | ends last =>
    subst same
    exact ⟨⟨_, s.admitted ++ s.reception.beginning, s.said, s.unheard,
      s.given ++ s.reception.handing ports port⟩, rfl, rfl, List.prefix_append .., watched.turn last⟩
  | turn first _ ih =>
    subst same
    obtain ⟨later, rfl, said, admitted, watched⟩ := ih (watched.turn first) rfl
    exact ⟨later, rfl, said, (List.prefix_append ..).trans admitted, watched⟩

/-- The next arrival begins a handshake if there is room for it. -/
theorem enrolls {s : Watch ω ρ} (watched : Watched ports port tape config maxHandshakes generator s)
    {address : String} {other : ρ} {rest : List (Arrival ρ)} {fresh : PrivateKey} {left : Generator}
    (here : s.reception.arrivals = .ok (address, other) :: rest)
    (room : s.reception.listener.pending.length < s.reception.listener.maxHandshakes)
    (drawn : Listener.ephemeral? s.reception.generator = (some fresh, left)) :
    Watched ports port tape config maxHandshakes generator
      { s with
        reception := { s.reception with
          listener := s.reception.listener.enroll address other fresh
          generator := left
          arrivals := rest
          taken := s.reception.taken ++ [(address, other)] }
        admitted := s.admitted ++ [⟨address, other, fresh⟩] } := by
  have next := watched.turn (show Turn ports 0 _ none _ from .enrolled here room drawn)
  rwa [beginning_of_room here room drawn, handing_of_arrival here, List.append_nil] at next

/-- Two handshakes that have begun and were not driven yet. -/
theorem of_two {other : ρ} (distinct : other ≠ port) (apart : ports.Apart other tape)
    (room : 1 < maxHandshakes) {rest left : Generator} {key fresh : PrivateKey}
    (drawn : Listener.ephemeral? generator = (some key, rest))
    (drawn' : Listener.ephemeral? rest = (some fresh, left)) (one two : String) {w : ω} {t : Tape}
    (holds : tape w = some t) :
    Watched ports port tape config maxHandshakes generator
      { reception := ⟨⟨config, maxHandshakes, [⟨0, one, other, .listener config key⟩,
            ⟨1, two, port, .listener config fresh⟩], [0, 1], 2⟩, left, [], w,
          [(one, other), (two, port)], []⟩
        admitted := [⟨one, other, key⟩, ⟨two, port, fresh⟩]
        said := t } := by
  have begun : Watched ports port tape config maxHandshakes generator _ := .start w
  have arrived := begun.arrives (.ok (one, other)) (by
    rintro raw same
    cases same
    exact ⟨distinct, apart⟩)
  have first := arrived.enrolls rfl (show 0 < maxHandshakes from Nat.zero_lt_of_lt room) drawn
  have came := first.comes two (show port ∉ [other] by simpa using distinct.symm) holds
  exact came.enrolls rfl (show 1 < maxHandshakes from room) drawn'

end Watched

/-- The handshakes and the draws of a listener: one draw for each handshake, and none for anything else. -/
structure Watch.Drawn (generator : Generator) (s : Watch ω ρ) : Prop where
  left : generator.afterKeys? s.admitted.length = some s.reception.generator
  seeded : ∀ place a, s.admitted[place]? = some a → generator.Seeds place a.fresh
  listed : s.reception.taken.Perm
    (s.admitted.map Admission.raw ++ s.reception.fates.filterMap Fate.turnedAway?)

theorem Watch.Drawn.turn {ρ : Type} {ports : Ports ω ρ} {generator : Generator} {s : Watch ω ρ}
    (drawn : s.Drawn generator) {now : Nanoseconds} {outcome : Option (Listener.Outcome ρ)}
    {next : Reception ω ρ} (turn : Reception.Turn ports now s.reception outcome next)
    (given : List Bytes) :
    Watch.Drawn generator
      { s with reception := next, admitted := s.admitted ++ s.reception.beginning, given } := by
  obtain ⟨⟨more, fates, taken⟩, draws⟩ := turn.begins
  have listed : next.taken.Perm ((s.admitted ++ s.reception.beginning).map Admission.raw ++
      next.fates.filterMap Fate.turnedAway?) := by
    rw [taken, fates, List.map_append, List.filterMap_append]
    generalize s.reception.beginning.map Admission.raw = begins
    generalize more.filterMap Fate.turnedAway? = refused
    refine (drawn.listed.append_right _).trans ?_
    rw [List.append_assoc, List.append_assoc]
    refine List.Perm.append_left _ ?_
    rw [← List.append_assoc, ← List.append_assoc]
    exact List.perm_append_comm.append_right _
  rcases draws with ⟨none, same⟩ | ⟨a, one, draws⟩
  · rw [none, List.append_nil] at listed ⊢
    exact ⟨same ▸ drawn.left, drawn.seeded, listed⟩
  · obtain ⟨made, left⟩ := Generator.seeds_of_ephemeral drawn.left draws
    rw [one] at listed ⊢
    refine ⟨?_, fun place b found => ?_, listed⟩
    · rw [List.length_append]
      exact left
    · rcases Nat.lt_trichotomy place s.admitted.length with before | rfl | behind
      · rw [List.getElem?_append_left before] at found
        exact drawn.seeded place b found
      · rw [List.getElem?_concat_length] at found
        cases found
        exact made
      · rw [List.getElem?_eq_none (by simpa using Nat.succ_le_of_lt behind)] at found
        cases found

theorem Watched.drawn {ρ : Type} [DecidableEq ρ] {ports : Ports ω ρ} {port : ρ}
    {tape : ω → Option Tape} {config : Config} {maxHandshakes : Nat} {generator : Generator}
    {s : Watch ω ρ} (watched : Watched ports port tape config maxHandshakes generator s) :
    s.Drawn generator := by
  induction watched with
  | start => exact ⟨rfl, fun _ _ found => by simp at found, .nil⟩
  | comes _ _ _ _ ih => exact ⟨ih.left, ih.seeded, ih.listed⟩
  | arrives _ _ _ ih => exact ⟨ih.left, ih.seeded, ih.listed⟩
  | wakes _ _ ih => exact ⟨ih.left, ih.seeded, ih.listed⟩
  | expires _ _ ih => exact ⟨ih.left, ih.seeded, ih.listed⟩
  | elsewhere _ _ _ ih => exact ⟨ih.left, ih.seeded, ih.listed⟩
  | hears _ _ _ _ _ _ _ _ ih => exact ⟨ih.left, ih.seeded, ih.listed⟩
  | notices _ _ _ ih => exact ⟨ih.left, ih.seeded, ih.listed⟩
  | talks _ _ _ _ _ ih => exact ⟨ih.left, ih.seeded, ih.listed⟩
  | turn _ turn ih => exact ih.turn turn _

end NoiseLink
