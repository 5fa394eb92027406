import Mathlib.Data.Prod.Lex
import Mathlib.Logic.Function.Iterate
import NoiseLink.CipherState
import NoiseLink.Proofs.Encoding

/-! Which key and which nonce every operation of a cipher is made under. Whatever calls are made, and
whatever they answer, the keys are those of one ladder, climbed a rung at a time, and a nonce is
counted up under each of them to less than a thousand; so no pair of them comes twice. -/
namespace NoiseLink

/-- The number that a nonce stands for, lowest byte first. -/
def Octets.number (octets : Octets n) : Nat := Bytes.ofLittleEndian octets.bytes

theorem number_nonceBytes {counter : Nat} (small : counter < 256 ^ 8) :
    (nonceBytes counter).number = 256 ^ 4 * counter := by
  change Bytes.ofLittleEndian ((Octets.zero 4).bytes ++ Bytes.littleEndian 8 counter) = _
  rw [Bytes.ofLittleEndian_append, Bytes.ofLittleEndian_littleEndian small, Octets.length_bytes]
  simp [Octets.zero, Bytes.ofLittleEndian]

namespace CipherState

inductive Operation where
  | encrypt (text : Bytes)
  | decrypt (unit : Bytes)

namespace Operation

def under (key : Octets 32) (nonce : Octets 12) : Operation → Except Error Bytes
  | encrypt text => (Aead.encrypt? key nonce [] text).elim (.error .encryptionFailed) .ok
  | decrypt unit => (Aead.decrypt? key nonce [] unit).elim (.error .decryptionFailed) .ok

def InLimit : Operation → Prop
  | encrypt text => text.length < Aead.textLimit
  | decrypt _ => True

end Operation

inductive Request where
  | perform (operation : Operation)
  | rotate

def Request.operation? : Request → Option Operation
  | perform operation => some operation
  | rotate => none

def perform (c : CipherState) : Operation → Except Error Bytes × CipherState
  | .encrypt text => c.encrypt text
  | .decrypt unit => c.decrypt unit

/-- One use of the AEAD: what was asked for, the key and the nonce at that time and the answer. -/
structure Use where
  operation : Operation
  generation : Nat
  key : Octets 32
  nonce : Octets 12
  answer : Except Error Bytes

/-- Where a use stands in the schedule: by the generation of its key, then by its nonce. -/
def Use.place (u : Use) : ℕ ×ₗ ℕ := toLex (u.generation, u.nonce.number)

def serve : List Request → CipherState → List Use × CipherState
  | [], c => ([], c)
  | .rotate :: requests, c => serve requests c.rotate
  | .perform operation :: requests, c =>
    let (answer, next) := c.perform operation
    let (uses, last) := serve requests next
    (⟨operation, c.generation, c.key, nonceBytes c.nonce, answer⟩ :: uses, last)

theorem perform_answer (c : CipherState) (operation : Operation) :
    (c.perform operation).1 = operation.under c.key (nonceBytes c.nonce) := by
  cases operation with
  | encrypt text =>
    rw [perform, encrypt, Operation.under]
    split <;> simp_all
  | decrypt unit =>
    rw [perform, decrypt, Operation.under]
    split <;> simp_all

/-- An operation counts, and brings on the next key when it is due, whether it succeeds or not. -/
theorem perform_next (c : CipherState) {operation : Operation} (inLimit : operation.InLimit) :
    (c.perform operation).2 = c.count.rotateWhenDue := by
  cases operation with
  | encrypt text =>
    have inLimit : text.length < Aead.textLimit := inLimit
    simp [perform, encrypt, Aead.encrypt?, inLimit]
  | decrypt unit => exact c.decrypt_snd unit

/-- The chaining key and the key of a generation, derived one from another. -/
def ladder (first : Octets 32 × Octets 32) (generation : Nat) : Octets 32 × Octets 32 :=
  (fun rung => hkdf rung.1 rung.2.bytes)^[generation] first

/-- A cipher that is at its place on the ladder, with its nonce in range. -/
structure Scheduled (first : Octets 32 × Octets 32) (c : CipherState) : Prop where
  inRange : c.nonce < rekeyInterval
  keys : (c.chainingKey, c.key) = ladder first c.generation

theorem scheduled_start (key chainingKey : Octets 32) :
    Scheduled (chainingKey, key) (start key chainingKey) where
  inRange := Nat.zero_lt_succ 999
  keys := rfl

theorem Scheduled.rotate {first : Octets 32 × Octets 32} {c : CipherState}
    (scheduled : Scheduled first c) : Scheduled first c.rotate where
  inRange := Nat.zero_lt_succ 999
  keys := by
    change hkdf c.chainingKey c.key.bytes = ladder first (c.generation + 1)
    rw [ladder, Function.iterate_succ_apply']
    change _ = (fun rung => hkdf rung.1 rung.2.bytes) (ladder first c.generation)
    rw [← scheduled.keys]

/-- An operation moves the cipher on by one place: to the next nonce, or after the last one to the
first nonce of the next key. -/
theorem advance_cases (c : CipherState) :
    (c.nonce + 1 = rekeyInterval ∧ c.count.rotateWhenDue = c.count.rotate) ∨
    (c.nonce + 1 ≠ rekeyInterval ∧ c.count.rotateWhenDue = c.count) := by
  rw [rotateWhenDue]
  by_cases due : c.nonce + 1 = rekeyInterval
  · exact .inl ⟨due, if_pos due⟩
  · exact .inr ⟨due, if_neg due⟩

theorem Scheduled.advance {first : Octets 32 × Octets 32} {c : CipherState}
    (scheduled : Scheduled first c) : Scheduled first c.count.rotateWhenDue := by
  have inRange := scheduled.inRange
  rcases c.advance_cases with ⟨-, changed⟩ | ⟨early, changed⟩
  · rw [changed]
    exact scheduled.rotate
  · rw [changed]
    exact ⟨Nat.lt_of_le_of_ne inRange early, scheduled.keys⟩

def position (c : CipherState) : Nat := rekeyInterval * c.generation + c.nonce

theorem position_advance (c : CipherState) :
    c.count.rotateWhenDue.position = c.position + 1 := by
  rcases c.advance_cases with ⟨due, changed⟩ | ⟨-, changed⟩
  · rw [changed]
    simp only [position, CipherState.rotate, count]
    rw [← due]
    ring
  · rw [changed]
    simp only [position, count]
    ring

theorem Scheduled.eq_of_position {first : Octets 32 × Octets 32} {c : CipherState}
    (scheduled : Scheduled first c) :
    c.generation = c.position / rekeyInterval ∧ c.nonce = c.position % rekeyInterval := by
  have inRange := scheduled.inRange
  simp only [position, rekeyInterval] at inRange ⊢
  omega

def place (c : CipherState) : ℕ ×ₗ ℕ := toLex (c.generation, (nonceBytes c.nonce).number)

theorem place_lt_rotate (c : CipherState) : c.place < c.rotate.place :=
  Prod.Lex.toLex_lt_toLex.2 (.inl (Nat.lt_succ_self c.generation))

theorem Scheduled.place_lt_advance {first : Octets 32 × Octets 32} {c : CipherState}
    (scheduled : Scheduled first c) : c.place < c.count.rotateWhenDue.place := by
  have inRange := scheduled.inRange
  rcases c.advance_cases with ⟨-, changed⟩ | ⟨early, changed⟩
  · rw [changed]
    exact Prod.Lex.toLex_lt_toLex.2 (.inl (Nat.lt_succ_self c.generation))
  · rw [changed]
    refine Prod.Lex.toLex_lt_toLex.2 (.inr ⟨rfl, ?_⟩)
    change (nonceBytes c.nonce).number < (nonceBytes (c.nonce + 1)).number
    simp only [rekeyInterval] at inRange
    rw [number_nonceBytes (by omega), number_nonceBytes (by omega)]
    omega

theorem serve_perform (c : CipherState) {operation : Operation} (inLimit : operation.InLimit)
    (requests : List Request) :
    serve (.perform operation :: requests) c =
      (⟨operation, c.generation, c.key, nonceBytes c.nonce,
          operation.under c.key (nonceBytes c.nonce)⟩ :: (serve requests c.count.rotateWhenDue).1,
        (serve requests c.count.rotateWhenDue).2) := by
  rw [serve, ← perform_answer, ← perform_next c inLimit]

/-- What holds of the uses of the AEAD by a cipher, and of the cipher after them. -/
structure Accounted (first : Octets 32 × Octets 32) (c : CipherState) (requests : List Request)
    (uses : List Use) (last : CipherState) : Prop where
  scheduled : Scheduled first last
  asked : uses.map Use.operation = requests.filterMap Request.operation?
  genuine : ∀ u ∈ uses, u.key = (ladder first u.generation).2 ∧
    u.answer = u.operation.under u.key u.nonce
  later : ∀ u ∈ uses, c.place ≤ u.place
  increasing : uses.Pairwise fun a b => a.place < b.place
  counted : .rotate ∉ requests → last.position = c.position + requests.length ∧
    ∀ i u, uses[i]? = some u → u.generation = (c.position + i) / rekeyInterval ∧
      u.nonce = nonceBytes ((c.position + i) % rekeyInterval)

theorem Scheduled.accounted {first : Octets 32 × Octets 32} {c : CipherState}
    (scheduled : Scheduled first c) {requests : List Request}
    (inLimit : ∀ operation, .perform operation ∈ requests → operation.InLimit) :
    Accounted first c requests (serve requests c).1 (serve requests c).2 := by
  induction requests generalizing c with
  | nil => exact ⟨scheduled, rfl, nofun, nofun, .nil, fun _ => ⟨rfl, nofun⟩⟩
  | cons request requests ih =>
    have others operation (member : Request.perform operation ∈ requests) : operation.InLimit :=
      inLimit operation (List.mem_cons_of_mem _ member)
    cases request with
    | rotate =>
      obtain ⟨arrived, asked, genuine, later, increasing, -⟩ := ih scheduled.rotate others
      refine ⟨arrived, asked, genuine, ?_, increasing, fun none => absurd List.mem_cons_self none⟩
      intro u member
      exact c.place_lt_rotate.le.trans (later u member)
    | perform operation =>
      rw [serve_perform c (inLimit operation List.mem_cons_self)]
      obtain ⟨arrived, asked, genuine, later, increasing, counted⟩ := ih scheduled.advance others
      have before u (member : u ∈ (serve requests c.count.rotateWhenDue).1) : c.place < u.place :=
        scheduled.place_lt_advance.trans_le (later u member)
      refine ⟨arrived, ?_, ?_, ?_, ?_, ?_⟩
      · rw [List.map_cons, asked]
        rfl
      · refine List.forall_mem_cons.2 ⟨⟨?_, rfl⟩, genuine⟩
        rw [← scheduled.keys]
      · exact List.forall_mem_cons.2 ⟨le_rfl, fun u member => (before u member).le⟩
      · exact List.pairwise_cons.2 ⟨before, increasing⟩
      · intro none
        obtain ⟨total, placed⟩ := counted fun member => none (List.mem_cons_of_mem _ member)
        rw [position_advance] at total placed
        refine ⟨by rw [total, List.length_cons]; omega, fun i u found => ?_⟩
        cases i with
        | zero =>
          cases found
          rw [Nat.add_zero, ← scheduled.eq_of_position.1, ← scheduled.eq_of_position.2]
          exact ⟨rfl, rfl⟩
        | succ i =>
          have same : c.position + (i + 1) = c.position + 1 + i := by omega
          rw [same]
          exact placed i u found

/-- Whatever is sealed, opened and rotated, the nonce stays below a thousand and the keys are those of
the ladder at the generation of the cipher. Every operation is answered by the AEAD under the key of
its generation, and generation and nonce increase from each use of the AEAD to the next, so that none
of these pairs comes again. Where no key is changed by hand, every thousand operations change it. -/
theorem rekey_schedule (key chainingKey : Octets 32) (requests : List Request)
    (inLimit : ∀ operation, .perform operation ∈ requests → operation.InLimit) :
    ∃ uses last, serve requests (start key chainingKey) = (uses, last) ∧
      last.nonce < 1000 ∧
      (last.chainingKey, last.key) = ladder (chainingKey, key) last.generation ∧
      uses.map Use.operation = requests.filterMap Request.operation? ∧
      (∀ u ∈ uses, u.key = (ladder (chainingKey, key) u.generation).2 ∧
        u.answer = u.operation.under u.key u.nonce) ∧
      uses.Pairwise (fun a b => a.place < b.place) ∧
      (uses.map fun u => (u.generation, u.nonce)).Nodup ∧
      (.rotate ∉ requests →
        last.generation = requests.length / 1000 ∧ last.nonce = requests.length % 1000 ∧
        ∀ i u, uses[i]? = some u →
          u.generation = i / 1000 ∧ u.nonce = nonceBytes (i % 1000)) := by
  obtain ⟨scheduled, asked, genuine, -, increasing, counted⟩ :=
    (scheduled_start key chainingKey).accounted inLimit
  refine ⟨_, _, rfl, scheduled.inRange, scheduled.keys, asked, genuine, increasing, ?_, ?_⟩
  · rw [List.nodup_iff_pairwise_ne, List.pairwise_map]
    refine increasing.imp fun {a b} before same => ?_
    obtain ⟨generation, nonce⟩ := Prod.mk.inj same
    rw [Use.place, Use.place, generation, nonce] at before
    exact lt_irrefl _ before
  · intro none
    obtain ⟨total, placed⟩ := counted none
    have origin : (start key chainingKey).position = 0 := rfl
    rw [origin, Nat.zero_add] at total
    obtain ⟨generation, nonce⟩ := scheduled.eq_of_position
    rw [total] at generation nonce
    refine ⟨generation, nonce, fun i u found => ?_⟩
    have there := placed i u found
    rwa [origin, Nat.zero_add] at there

/-- A word is sealed, the key is changed and a stray byte is refused: two uses in two places. -/
theorem rekey_schedule_of_three_calls :
    (∀ operation, .perform operation ∈
        [Request.perform (.encrypt [104, 105]), .rotate, .perform (.decrypt [7])] →
      operation.InLimit) ∧
    ∃ uses last,
      serve [.perform (.encrypt [104, 105]), .rotate, .perform (.decrypt [7])]
        (start (.zero 32) (.zero 32)) = (uses, last) ∧
      uses.length = 2 ∧ (uses.map fun u => (u.generation, u.nonce)).Nodup := by
  have inLimit : ∀ operation, .perform operation ∈
      [Request.perform (.encrypt [104, 105]), .rotate, .perform (.decrypt [7])] →
      operation.InLimit := by
    intro operation member
    simp only [List.mem_cons, Request.perform.injEq, reduceCtorEq, List.not_mem_nil, or_false,
      false_or] at member
    rcases member with rfl | rfl
    · change ([104, 105] : Bytes).length < Aead.textLimit
      decide
    · trivial
  obtain ⟨uses, last, served, -, -, asked, -, -, apart, -⟩ :=
    rekey_schedule (.zero 32) (.zero 32) _ inLimit
  refine ⟨inLimit, uses, last, served, ?_, apart⟩
  rw [← List.length_map (f := Use.operation), asked]
  rfl

end CipherState
end NoiseLink
