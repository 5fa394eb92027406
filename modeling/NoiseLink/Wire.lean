import NoiseLink.Bytes
import NoiseLink.Error

/-! The byte streams that connections are layered on. A stream is seen as operations on a state
`ω`, which may hold much besides: an operation that has to wait answers `pending` and is tried
again later, or given up. -/
namespace NoiseLink

/-- The answer to one attempt. -/
inductive Poll (α : Type) where
  | ready (value : α)
  | pending
deriving DecidableEq

/-- The number of bytes that an attempt to receive delivered. -/
def Poll.delivered : Poll (Except ε Bytes) → Nat
  | .ready (.ok bytes) => bytes.length
  | _ => 0

/-- The receiving end of a stream. An attempt that delivers no bytes says that the stream has
ended. Between two attempts more may arrive, but within one run of attempts only the bytes at
hand, `supply` in number, can be delivered. -/
structure Source (ω : Type) where
  receive : Nat → ω → Poll (Except NetworkError Bytes) × ω
  supply : ω → Nat
  supply_le : ∀ size w, supply (receive size w).2 ≤ supply w
  supply_lt : ∀ size w byte bytes rest,
    receive size w = (.ready (.ok (byte :: bytes)), rest) → supply rest < supply w

/-- The sending end of a stream. `resume` goes on with a send that was left pending. -/
structure Sink (ω : Type) where
  send : Bytes → ω → Poll (Except NetworkError Unit) × ω
  resume : ω → Poll (Except NetworkError Unit) × ω
  close : ω → Poll (Except NetworkError Unit) × ω

/-- Both directions of a stream. Sending brings nothing to receive by itself: an answer comes only
when the far side has its turn. -/
structure Duplex (ω : Type) where
  sink : Sink ω
  source : Source ω
  supply_send : ∀ bytes w, source.supply (sink.send bytes w).2 ≤ source.supply w

theorem size_append_cons (got : Array UInt8) (byte : UInt8) (bytes : Bytes) :
    (got ++ byte :: bytes).size = got.size + bytes.length + 1 := by
  rw [← Array.length_toList]
  simp
  omega

/-- How far a stream has filled a unit of `size` bytes. -/
inductive Gathered (size : Nat) where
  | full (unit : Octets size)
  | waiting (got : Array UInt8)
  | ended (got : Array UInt8)
  | failed (cause : NetworkError) (got : Array UInt8)

/-- Receives until `size` bytes are held, asking for no more than are missing. -/
def Source.gather (source : Source ω) (size : Nat) (got : Array UInt8) (w : ω) :
    Gathered size × ω :=
  if short : got.size < size then
    match source.receive (size - got.size) w with
    | (.pending, w) => (.waiting got, w)
    | (.ready (.error cause), w) => (.failed cause got, w)
    | (.ready (.ok []), w) => (.ended got, w)
    | (.ready (.ok (byte :: bytes)), w) => source.gather size (got ++ byte :: bytes) w
  else (.full ⟨got.toList.take size, by simp; omega⟩, w)
termination_by size - got.size
decreasing_by rw [size_append_cons]; omega

theorem Source.supply_gather_le (source : Source ω) (size : Nat) (got : Array UInt8) (w : ω) :
    source.supply (source.gather size got w).2 ≤ source.supply w := by
  fun_induction Source.gather source size got w with
  | case1 got w short rest h => simpa [h] using source.supply_le (size - got.size) w
  | case2 got w short cause rest h => simpa [h] using source.supply_le (size - got.size) w
  | case3 got w short rest h => simpa [h] using source.supply_le (size - got.size) w
  | case4 got w short byte bytes rest h ih =>
    have := source.supply_lt _ _ _ _ _ h
    omega
  | case5 => simp

/-- A unit that was not yet full takes bytes from the stream before it is. -/
theorem Source.supply_gather_lt (source : Source ω) {size : Nat} {got : Array UInt8} {w rest : ω}
    {unit : Octets size} (short : got.size < size)
    (h : source.gather size got w = (.full unit, rest)) :
    source.supply rest < source.supply w := by
  rw [Source.gather] at h
  simp only [short, dif_pos] at h
  split at h
  · simp at h
  · simp at h
  · simp at h
  · rename_i byte bytes after received
    have taken := source.supply_lt _ _ _ _ _ received
    have later := source.supply_gather_le size (got ++ byte :: bytes) after
    rw [h] at later
    exact Nat.lt_of_le_of_lt later taken

end NoiseLink
