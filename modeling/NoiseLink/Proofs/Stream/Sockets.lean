import NoiseLink.Proofs.Stream.Wires
import NoiseLink.Tcp.Socket

/-! The sockets of one connection as wires. What one end has sent and the other has not read is the tape of
the other, part of which may have been read ahead. An end takes what is sent as long as its buffer has room
for it, and never again once it was found full; so the ends of a connection are wires of limited capacity. -/
namespace NoiseLink.Tcp.Sockets

variable {i j : Nat} {s : Sockets} {t : Tape}

theorem peer_peer (i : Nat) : peer (peer i) = i := by
  unfold peer
  split <;> split <;> omega

@[simp] theorem size_update (s : Sockets) (i : Nat) (change : Socket → Socket) :
    (s.update i change).ends.size = s.ends.size := by
  simp [update]

@[simp] theorem pauses_update (s : Sockets) (i : Nat) (change : Socket → Socket) :
    (s.update i change).pauses = s.pauses :=
  rfl

theorem get_update_self (inside : i < s.ends.size) (change : Socket → Socket) :
    (s.update i change).get i = change (s.get i) := by
  simp [get, update, inside, Array.getElem_modify_self]

@[simp] theorem get_update_peer (s : Sockets) (i : Nat) (change : Socket → Socket) :
    (s.update (peer i) change).get i = s.get i :=
  get_update_of_ne (peer_ne i) s change

@[simp] theorem get_peer_update (s : Sockets) (i : Nat) (change : Socket → Socket) :
    (s.update i change).get (peer i) = s.get (peer i) :=
  get_update_of_ne (peer_ne i).symm s change

def tape (i : Nat) (s : Sockets) : Tape :=
  ⟨(s.get i).ahead.toList ++ (s.get i).arrived.toList,
    if (s.get (peer i)).finished then .closed else .quiet⟩

/-- Whether both ends of a connection are there and one of them can be read: nothing that was meant for it
was turned away or thrown away. -/
def legible (i : Nat) (s : Sockets) : Bool :=
  i < s.ends.size && peer i < s.ends.size && !(s.get i).closed && !(s.get i).broken &&
    !(s.get (peer i)).blocked

def tape? (i : Nat) (s : Sockets) : Option Tape := if s.legible i then some (s.tape i) else none

theorem tape?_eq_some_iff : s.tape? i = some t ↔ s.legible i = true ∧ s.tape i = t := by
  rw [tape?]
  split <;> simp_all

theorem legible_iff : s.legible i = true ↔ i < s.ends.size ∧ peer i < s.ends.size ∧
    (s.get i).closed = false ∧ (s.get i).broken = false ∧ (s.get (peer i)).blocked = false := by
  simp [legible, and_assoc]

theorem tape?_congr {next : Sockets} (size : next.ends.size = s.ends.size)
    (here : (next.get i).ahead = (s.get i).ahead ∧ (next.get i).arrived = (s.get i).arrived ∧
      (next.get i).closed = (s.get i).closed ∧ (next.get i).broken = (s.get i).broken)
    (there : (next.get (peer i)).finished = (s.get (peer i)).finished ∧
      (next.get (peer i)).blocked = (s.get (peer i)).blocked) : next.tape? i = s.tape? i := by
  obtain ⟨ahead, arrived, closed, broken⟩ := here
  have readable : next.legible i = s.legible i := by
    simp only [legible, size, closed, broken, there.2]
  have same : next.tape i = s.tape i := by
    simp only [tape, ahead, arrived, there.1]
  rw [tape?, tape?, readable, same]

theorem empty_of_tape? (holds : s.tape? i = some t) (none : t.bytes = []) :
    (s.get i).ahead.toList = [] ∧ (s.get i).arrived.isEmpty = true := by
  obtain ⟨-, rfl⟩ := tape?_eq_some_iff.1 holds
  obtain ⟨ahead, arrived⟩ := List.append_eq_nil_iff.1 none
  exact ⟨ahead, (ByteQueue.isEmpty_iff _).2 arrived⟩

theorem finished_of_tape? (holds : s.tape? (peer i) = some t) (closed : t.ending = .closed) :
    (s.get i).finished = true := by
  obtain ⟨-, rfl⟩ := tape?_eq_some_iff.1 holds
  simpa [tape, peer_peer] using closed

@[simp] theorem tape?_pause (s : Sockets) (i : Nat) : s.pause.tape? i = s.tape? i := rfl

theorem receive_ahead (reading : Reading) {size : Nat} (positive : size ≠ 0)
    (some : (s.get i).ahead.isEmpty = false) :
    receive i reading size s = (.ready (.ok ((s.get i).ahead.toList.take size)),
      s.update i fun e => { e with ahead := ((s.get i).ahead.take size).2 }) := by
  simp [receive, positive, some]

theorem receive_arrived (reading : Reading) {size : Nat} (positive : size ≠ 0)
    (none : (s.get i).ahead.isEmpty = true) (some : (s.get i).arrived.isEmpty = false) :
    receive i reading size s = (.ready (.ok ((s.get i).arrived.toList.take size)),
      s.update i fun e =>
        { e with
          arrived := ((s.get i).arrived.take (max size reading.ahead)).2
          ahead := .ofBytes (((s.get i).arrived.toList.take (max size reading.ahead)).drop size) }) := by
  simp [receive, positive, none, some, List.take_take, Nat.min_eq_left (Nat.le_max_left size reading.ahead)]

theorem hands_source (i : Nat) {reading : Reading} (patient : reading.waits = false) :
    (source i reading).Hands (tape? i) := by
  refine Source.hands_of_handing ?_
  intro s t size holds positive
  have some : size ≠ 0 := Nat.ne_of_gt positive
  obtain ⟨legible, rfl⟩ := tape?_eq_some_iff.1 holds
  obtain ⟨inside, others, opened, sound, free⟩ := legible_iff.1 legible
  change Tape.Handing (tape? i) size (s.tape i) (receive i reading size s)
  by_cases read : (s.get i).ahead.isEmpty = false
  · have filled : (s.get i).ahead.toList ≠ [] := by simp [← ByteQueue.isEmpty_iff, read]
    rw [receive_ahead reading some read]
    refine .delivers (by simp [filled, some]) (List.length_take_le ..) ?_ (tape?_eq_some_iff.2 ⟨?_, rfl⟩)
    · simp [Tape.rewind, tape, get_update_self inside, ← List.append_assoc]
    · simp [legible_iff, get_update_self inside, inside, others, opened, sound, free]
  have unread : (s.get i).ahead.isEmpty = true := by simpa using read
  have empty : (s.get i).ahead.toList = [] := (ByteQueue.isEmpty_iff _).1 unread
  by_cases came : (s.get i).arrived.isEmpty = false
  · have filled : (s.get i).arrived.toList ≠ [] := by simp [← ByteQueue.isEmpty_iff, came]
    rw [receive_arrived reading some unread came]
    refine .delivers (by simp [filled, some]) (List.length_take_le ..) ?_ (tape?_eq_some_iff.2 ⟨?_, rfl⟩)
    · have split (bytes : Bytes) (most : Nat) (fits : size ≤ most) :
          bytes.take size ++ ((bytes.take most).drop size ++ bytes.drop most) = bytes := by
        have first := List.take_append_drop size (bytes.take most)
        rw [List.take_take, Nat.min_eq_left fits] at first
        rw [← List.append_assoc, first, List.take_append_drop]
      simp [Tape.rewind, tape, get_update_self inside, empty, split _ _ (Nat.le_max_left size reading.ahead)]
    · simp [legible_iff, get_update_self inside, inside, others, opened, sound, free]
  have silent : (s.get i).arrived.isEmpty = true := by simpa using came
  have nothing : (s.get i).arrived.toList = [] := (ByteQueue.isEmpty_iff _).1 silent
  have all : (s.tape i).bytes = [] := by simp [tape, empty, nothing]
  simp only [receive, some, unread, silent, sound, patient, if_false, Bool.not_true, Bool.false_eq_true]
  split
  · rename_i finished
    refine .ended ?_ holds
    simp [tape, empty, nothing, finished]
  · exact .waits holds

/-- An end makes its reader wait only when it has nothing to read. -/
theorem prompt_source (i : Nat) (reading : Reading) : (source i reading).Prompt (tape? i) := by
  rintro after t ⟨size, s, positive, holds, waits⟩
  have some : size ≠ 0 := Nat.ne_of_gt positive
  obtain ⟨legible, rfl⟩ := tape?_eq_some_iff.1 holds
  obtain ⟨-, -, -, sound, -⟩ := legible_iff.1 legible
  change receive i reading size s = _ at waits
  by_cases read : (s.get i).ahead.isEmpty = false
  · rw [receive_ahead reading some read] at waits
    cases waits
  by_cases came : (s.get i).arrived.isEmpty = false
  · rw [receive_arrived reading some (by simpa using read) came] at waits
    cases waits
  have empty : (s.get i).ahead.toList = [] := (ByteQueue.isEmpty_iff _).1 (by simpa using read)
  have nothing : (s.get i).arrived.toList = [] := (ByteQueue.isEmpty_iff _).1 (by simpa using came)
  by_cases finished : (s.get (peer i)).finished = true
  · simp [receive, some, read, came, sound, finished] at waits
  · simp [tape, empty, nothing, finished]

theorem of_send {after : Sockets} {bytes : Bytes} (some : bytes ≠ [])
    (sent : send i bytes s = (.ready (.ok ()), after)) :
    after = (s.update i ({ · with blocked := false })).deliver i bytes := by
  rw [send, if_neg (by simpa using some)] at sent
  split at sent
  · simp at sent
  · split at sent
    · simp at sent
    · simp only at sent
      split at sent
      · simp at sent
      · rename_i fits
        simp only [Prod.mk.injEq, true_and] at sent
        rw [← sent, decide_eq_false fits]

theorem line_sockets (i : Nat) {reading : Reading} (patient : reading.waits = false) :
    Line (sink i) (source (peer i) reading) (tape? (peer i)) where
  hands := hands_source (peer i) patient
  sent {s after t bytes} holds quiet answer := by
    by_cases empty : bytes = []
    · subst empty
      cases answer
      rw [holds, Tape.follow, List.append_nil, ← quiet]
    · obtain ⟨legible, rfl⟩ := tape?_eq_some_iff.1 holds
      obtain ⟨inside, others, opened, sound, free⟩ := legible_iff.1 legible
      rw [peer_peer] at others
      have unfinished : (s.get i).finished = false := by
        rw [tape, peer_peer] at quiet
        simpa using quiet
      rw [of_send empty answer]
      refine tape?_eq_some_iff.2 ⟨?_, ?_⟩
      · simp [legible_iff, peer_peer, deliver, get_update_self, inside, others, opened, sound]
      · simp [tape, peer_peer, deliver, get_update_self, inside, others, unfinished, Tape.follow]
  closed {s after t} holds sound answer := by
    cases answer
    obtain ⟨legible, rfl⟩ := tape?_eq_some_iff.1 holds
    obtain ⟨inside, others, opened, sound, free⟩ := legible_iff.1 legible
    rw [peer_peer] at others free
    refine tape?_eq_some_iff.2 ⟨?_, ?_⟩
    · simp [legible_iff, peer_peer, finish, get_update_self, inside, others, opened, sound, free]
    · simp [tape, peer_peer, finish, get_update_self, inside, others, Tape.follow]

/-- An end takes whatever the other has room for. -/
theorem send_taken {bytes : Bytes} (holds : s.tape? (peer i) = some t) (quiet : t.ending = .quiet)
    (room : t.bytes.length + bytes.length ≤ capacity) :
    ∃ after, send i bytes s = (.ready (.ok ()), after) := by
  obtain ⟨legible, rfl⟩ := tape?_eq_some_iff.1 holds
  obtain ⟨-, -, opened, -, free⟩ := legible_iff.1 legible
  rw [peer_peer] at free
  rw [tape, peer_peer] at quiet room
  have unfinished : (s.get i).finished = false := by simpa using quiet
  have enough : ¬ capacity - (s.get (peer i)).arrived.length < bytes.length := by
    simp only [List.length_append, ByteQueue.length_toList] at room
    omega
  by_cases empty : bytes.isEmpty = true
  · exact ⟨s, by simp [send, empty]⟩
  · rw [send, if_neg empty]
    simp only [stuck, free, unfinished, opened, enough, Bool.false_and, Bool.or_self, if_false, decide_false,
      Bool.false_eq_true]
    exact ⟨_, rfl⟩

theorem supply_source (reading : Reading) (holds : s.tape? i = some t) :
    (source i reading).supply s = t.bytes.length := by
  obtain ⟨-, rfl⟩ := tape?_eq_some_iff.1 holds
  change (s.get i).arrived.length + (s.get i).ahead.length = _
  simp [tape, Nat.add_comm]

theorem tape?_update (s : Sockets) (i : Nat) {change : Socket → Socket}
    (kept : ∀ e, (change e).ahead = e.ahead ∧ (change e).arrived = e.arrived ∧
      (change e).closed = e.closed ∧ (change e).broken = e.broken) :
    (s.update i change).tape? i = s.tape? i := by
  by_cases inside : i < s.ends.size
  · exact tape?_congr (size_update ..) (by simp [get_update_self inside, kept]) (by simp)
  · have same : (s.update i change).get i = s.get i := by simp [get, update, inside]
    exact tape?_congr (size_update ..) (by simp [same]) (by simp)

theorem tape?_update_peer (s : Sockets) (i : Nat) {change : Socket → Socket}
    (kept : ∀ e, (change e).finished = e.finished ∧ (change e).blocked = e.blocked) :
    (s.update (peer i) change).tape? i = s.tape? i := by
  by_cases inside : peer i < s.ends.size
  · exact tape?_congr (size_update ..) (by simp) (by simp [get_update_self inside, kept])
  · have same : (s.update (peer i) change).get (peer i) = s.get (peer i) := by simp [get, update, inside]
    exact tape?_congr (size_update ..) (by simp) (by simp [same])

theorem source_keeps (i : Nat) (reading : Reading) : (source i reading).Keeps (tape? (peer i)) := by
  intro size s
  have same {change : Socket → Socket}
      (kept : ∀ e, (change e).finished = e.finished ∧ (change e).blocked = e.blocked) :
      (s.update i change).tape? (peer i) = s.tape? (peer i) := by
    have unchanged := s.tape?_update_peer (peer i) kept
    rwa [peer_peer] at unchanged
  change (receive i reading size s).2.tape? (peer i) = _
  rw [receive]
  repeat' split
  all_goals first | rfl | exact same (by simp)

theorem sink_keeps (i : Nat) : (sink i).Keeps (tape? i) where
  send bytes s := by
    have delivered (s : Sockets) (bytes : Bytes) : (s.deliver i bytes).tape? i = s.tape? i :=
      s.tape?_update_peer i (by simp)
    have marked (blocked : Bool) : (s.update i ({ · with blocked })).tape? i = s.tape? i :=
      s.tape?_update i (by simp)
    change (send i bytes s).2.tape? i = _
    rw [send]
    simp only
    repeat' split
    all_goals simp [delivered, marked]
  close s := by
    change ((s.update i _).update (peer i) _).tape? i = _
    rw [tape?_update_peer _ _ (by simp), tape?_update _ _ (by simp)]

/-- What there is room for is before the other end, and nothing else has changed. -/
theorem sends (holds : s.tape? (peer i) = some t) (quiet : t.ending = .quiet) (bytes : Bytes)
    (room : t.bytes.length + bytes.length ≤ capacity) :
    ∃ after, send i bytes s = (.ready (.ok ()), after) ∧
      after.tape? (peer i) = some (t.follow bytes .quiet) ∧ after.tape? i = s.tape? i := by
  obtain ⟨after, sent⟩ := send_taken holds quiet room
  have kept := (sink_keeps i).send bytes s
  change (send i bytes s).2.tape? i = _ at kept
  rw [sent] at kept
  have line : Line (sink i) (source (peer i) ⟨0, false⟩) (tape? (peer i)) := line_sockets i rfl
  exact ⟨after, sent, line.sent holds quiet sent, kept⟩

/-- The sockets of a connection, of which the dialer has the even one. -/
def wires (near : Nat) (reading : Reading) : Wires Sockets where
  sink role := sink (Role.choose near (peer near) role)
  source role := source (Role.choose near (peer near) role) reading

def incoming (near : Nat) (role : Role) (s : Sockets) : Option Tape :=
  s.tape? (Role.choose near (peer near) role)

theorem choose_other (near : Nat) (role : Role) :
    Role.choose near (peer near) role.other = peer (Role.choose near (peer near) role) := by
  cases role
  · rfl
  · exact (peer_peer near).symm

theorem incoming_other (near : Nat) (role : Role) :
    incoming near role.other = tape? (peer (Role.choose near (peer near) role)) := by
  funext s
  rw [incoming, choose_other]

theorem apart_wires (near : Nat) {reading : Reading} (patient : reading.waits = false) :
    (wires near reading).Apart (some capacity) (incoming near) where
  line role := by
    rw [incoming_other]
    simp only [wires, choose_other]
    exact line_sockets _ patient
  sends role bytes s t holds quiet room := by
    rw [incoming_other] at holds
    exact send_taken holds quiet (room _ rfl)
  supply role _ _ holds := supply_source reading holds
  prompt role := prompt_source _ reading
  sink_keeps role := sink_keeps _
  source_keeps role := by
    rw [incoming_other]
    exact source_keeps _ reading

theorem silent_connect (even : s.ends.size % 2 = 0) :
    s.connect.2.tape? s.ends.size = some ⟨[], .quiet⟩ ∧
      s.connect.2.tape? (peer s.ends.size) = some ⟨[], .quiet⟩ := by
  have far : peer s.ends.size = s.ends.size + 1 := by simp [peer, even]
  have near : peer (s.ends.size + 1) = s.ends.size := by rw [← far, peer_peer]
  have fresh {i : Nat} (beyond : s.ends.size ≤ i) : s.connect.2.get i = {} := by
    simp only [connect, get, Array.getD_eq_getD_getElem?, Array.getElem?_push, Array.size_push]
    split
    · rfl
    · split
      · rfl
      · rw [Array.getElem?_eq_none beyond, Option.getD_none]
  have here : s.connect.2.get s.ends.size = {} := fresh (Nat.le_refl _)
  have there : s.connect.2.get (s.ends.size + 1) = {} := fresh (Nat.le_succ _)
  have size : s.connect.2.ends.size = s.ends.size + 2 := by simp [connect]
  rw [far]
  constructor
  · refine tape?_eq_some_iff.2 ⟨?_, ?_⟩
    · simp [legible_iff, far, here, there, size]
    · simp [tape, far, here, there, ByteQueue.toList]
  · refine tape?_eq_some_iff.2 ⟨?_, ?_⟩
    · simp [legible_iff, near, here, there, size]
    · simp [tape, near, here, there, ByteQueue.toList]

/-- An end at which all that there is to read will be noticed in the next pause. -/
def Unseen (i : Nat) (s : Sockets) : Prop := (s.get i).ahead.toList = [] ∧ (s.get i).touched ≤ s.pauses

theorem Unseen.readable (unseen : s.Unseen i) (holds : s.tape? i = some t) (some : t.bytes ≠ []) :
    s.pause.readable i = true := by
  obtain ⟨none, touched⟩ := unseen
  obtain ⟨-, rfl⟩ := tape?_eq_some_iff.1 holds
  have arrived : (s.get i).arrived.isEmpty = false := by
    rw [← Bool.not_eq_true, ByteQueue.isEmpty_iff]
    intro empty
    exact some (by simp [tape, none, empty])
  have now : (s.get i).touched < s.pauses + 1 := Nat.lt_succ_of_le touched
  have same (j : Nat) : s.pause.get j = s.get j := rfl
  have later : s.pause.pauses = s.pauses + 1 := rfl
  simp [Sockets.readable, same, later, arrived, now]

theorem unseen_of_send {after : Sockets} {bytes : Bytes} (unread : (s.get (peer i)).ahead.toList = [])
    (inside : peer i < s.ends.size) (some : bytes ≠ []) (sent : send i bytes s = (.ready (.ok ()), after)) :
    after.Unseen (peer i) := by
  rw [of_send some sent]
  simp [Unseen, deliver, get_update_self, inside, unread]

theorem size_close (i : Nat) (s : Sockets) : (s.close i).ends.size = s.ends.size := by
  rw [close]
  split <;> simp [finish]

/-- An end that has said all and read all is closed without its peer's being told anything new. -/
theorem tape?_close (inside : i < s.ends.size) (other : peer i < s.ends.size)
    (finished : (s.get i).finished = true) (read : (s.get i).arrived.isEmpty = true) :
    (s.close i).tape? (peer i) = s.tape? (peer i) := by
  have here : (s.close i).get (peer i) = { s.get (peer i) with touched := s.pauses } := by
    simp [close, finish, read, get_update_self, other]
  have there : (s.close i).get i =
      { s.get i with finished := true, closed := true, arrived := {}, ahead := {} } := by
    simp [close, finish, read, get_update_self, inside]
  refine tape?_congr (size_close i s) (by simp [here]) ?_
  rw [peer_peer, there, finished]
  exact ⟨rfl, rfl⟩

theorem Unseen.send {after : Sockets} {bytes : Bytes} (unseen : s.Unseen (peer i))
    (inside : peer i < s.ends.size) (sent : send i bytes s = (.ready (.ok ()), after)) :
    after.Unseen (peer i) := by
  by_cases empty : bytes = []
  · subst empty
    cases sent
    exact unseen
  · exact unseen_of_send unseen.1 inside empty sent

theorem Unseen.finish (unseen : s.Unseen (peer i)) (inside : peer i < s.ends.size) :
    (s.finish i).Unseen (peer i) := by
  simp [Unseen, Sockets.finish, get_update_self, inside, unseen.1]

theorem Unseen.close (unseen : s.Unseen (peer i)) (inside : peer i < s.ends.size)
    (read : (s.get i).arrived.isEmpty = true) : (s.close i).Unseen (peer i) := by
  simp [Unseen, Sockets.close, Sockets.finish, read, get_update_self, inside, unseen.1]

def pair (near : Nat) (s : Sockets) : Nat × Socket × Socket := (s.ends.size, s.get near, s.get (peer near))

def Foreign (near i : Nat) : Prop := i ≠ near ∧ i ≠ peer near

theorem Foreign.peer {near i : Nat} (foreign : Foreign near i) : Foreign near (peer i) := by
  constructor
  · rintro rfl
    exact foreign.2 (peer_peer i).symm
  · intro same
    exact foreign.1 (by rw [← peer_peer i, same, peer_peer])

theorem tape?_of_pair {near : Nat} {next : Sockets} (same : next.pair near = s.pair near) :
    next.tape? near = s.tape? near ∧ next.tape? (peer near) = s.tape? (peer near) := by
  simp only [pair, Prod.mk.injEq] at same
  obtain ⟨size, here, there⟩ := same
  constructor
  · exact tape?_congr size (by simp [here]) (by simp [there])
  · exact tape?_congr size (by simp [there]) (by simp [here, peer_peer])

theorem Foreign.pair_update {near i : Nat} (foreign : Foreign near i) (s : Sockets) (change : Socket → Socket) :
    (s.update i change).pair near = s.pair near := by
  simp [pair, get_update_of_ne foreign.1, get_update_of_ne foreign.2]

theorem Foreign.pair_finish {near i : Nat} (foreign : Foreign near i) (s : Sockets) :
    (s.finish i).pair near = s.pair near := by
  rw [finish, foreign.peer.pair_update, foreign.pair_update]

theorem Foreign.pair_close {near i : Nat} (foreign : Foreign near i) (s : Sockets) :
    (s.close i).pair near = s.pair near := by
  have closed : ((s.finish i).update i fun e =>
      { e with closed := true, arrived := {}, ahead := {} }).pair near = s.pair near := by
    rw [foreign.pair_update, foreign.pair_finish]
  rw [close]
  split
  · exact (foreign.peer.pair_update ..).trans closed
  · exact closed

theorem Foreign.source_keeps {near i : Nat} (foreign : Foreign near i) (reading : Reading) :
    (source i reading).Keeps (pair near) := by
  intro size s
  change (receive i reading size s).2.pair near = _
  rw [receive]
  repeat' split
  all_goals first | rfl | exact foreign.pair_update ..

theorem Foreign.sink_keeps {near i : Nat} (foreign : Foreign near i) : (sink i).Keeps (pair near) where
  send bytes s := by
    have delivered (blocked : Bool) (bytes : Bytes) :
        ((s.update i ({ · with blocked })).deliver i bytes).pair near = s.pair near :=
      (foreign.peer.pair_update ..).trans (foreign.pair_update ..)
    change (send i bytes s).2.pair near = _
    rw [send]
    simp only
    repeat' split
    all_goals first | rfl | exact delivered ..
  close s := foreign.pair_finish s

theorem source_keeps_size (i : Nat) (reading : Reading) : (source i reading).Keeps fun s => s.ends.size := by
  intro size s
  change (receive i reading size s).2.ends.size = _
  rw [receive]
  repeat' split
  all_goals first | rfl | exact size_update ..

theorem sink_keeps_size (i : Nat) : (sink i).Keeps fun s => s.ends.size where
  send bytes s := by
    have delivered (s : Sockets) (bytes : Bytes) : (s.deliver i bytes).ends.size = s.ends.size :=
      size_update ..
    have marked (blocked : Bool) : (s.update i ({ · with blocked })).ends.size = s.ends.size :=
      size_update ..
    change (send i bytes s).2.ends.size = _
    rw [send]
    simp only
    repeat' split
    all_goals first | rfl | exact (delivered ..).trans (marked _)
  close s := (size_update ..).trans (size_update ..)

/-- A patient reader changes nothing but its own end. -/
theorem source_keeps_peer (i : Nat) {reading : Reading} (patient : reading.waits = false) :
    (source i reading).Keeps fun s => (s.tape? (peer i), s.pauses, s.get (peer i)) := by
  intro size s
  have tape := source_keeps i reading size s
  have rest : (receive i reading size s).2.pauses = s.pauses ∧
      (receive i reading size s).2.get (peer i) = s.get (peer i) := by
    simp only [receive, patient, Bool.false_eq_true, if_false]
    repeat' split
    all_goals first | exact ⟨rfl, rfl⟩ | exact ⟨rfl, get_peer_update ..⟩
  exact Prod.ext tape (Prod.ext rest.1 rest.2)

end NoiseLink.Tcp.Sockets
