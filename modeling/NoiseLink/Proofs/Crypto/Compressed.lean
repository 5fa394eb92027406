import NoiseLink.Proofs.Crypto.Order

/-! The compressed form of a point is its only one. What reads as a point is the form of that point,
so a public key is known by its bytes. -/
namespace NoiseLink

namespace Secp256k1.Point

theorem of_lift? {x : Coordinate} {even : Bool} {p : Point} (found : lift? x even = some p) :
    p.OnCurve ∧ p.x = x ∧ p.y.isEven = even := by
  simp only [lift?] at found
  split at found
  · rename_i square
    have on : Point.OnCurve ⟨x, (cubic x).squareRoot⟩ := square
    cases found
    refine ⟨?_, rfl, ?_⟩
    · split
      · exact on
      · rw [OnCurve, neg_mul_neg]
        exact square
    · split
      · assumption
      · rename_i odd
        rw [Coordinate.isEven_neg (y_ne_zero on)]
        exact Bool.not_eq.2 odd
  · cases found

/-- A point reads from its compressed form, and from nothing else. -/
theorem ofCompressed?_eq_some_iff {octets : Octets 33} {p : Point} :
    ofCompressed? octets = some p ↔ p.OnCurve ∧ p.compressed = octets := by
  constructor
  · intro read
    obtain ⟨bytes, long⟩ := octets
    cases bytes with
    | nil => cases long
    | cons parity rest =>
      have size : rest.length = 32 := Nat.succ.inj long
      simp only [ofCompressed?] at read
      split at read
      · rename_i known
        split at read
        · obtain ⟨on, same, even⟩ := of_lift? read
          refine ⟨on, Octets.ext ?_⟩
          have number := Bytes.bigEndian_ofBigEndian rest
          rw [size] at number
          simp only [compressed, same, even, number, decide_eq_true_eq]
          rcases known with rfl | rfl <;> rfl
        · cases read
      · cases read
  · rintro ⟨on, rfl⟩
    exact ofCompressed?_compressed on

end Secp256k1.Point

namespace PublicKey

/-- A key reads from its own bytes, and from nothing else. -/
theorem ofBytes_ok_iff {bytes : Bytes} {key : PublicKey} :
    ofBytes bytes = .ok key ↔ key.point.OnCurve ∧ key.bytes = bytes := by
  constructor
  · intro read
    rw [ofBytes] at read
    split at read
    · rename_i point found
      cases read
      obtain ⟨octets, whole, form⟩ := Option.bind_eq_some_iff.1 found
      obtain ⟨on, rfl⟩ := Secp256k1.Point.ofCompressed?_eq_some_iff.1 form
      rw [Octets.ofBytes?] at whole
      split at whole
      · cases whole
        exact ⟨on, rfl⟩
      · cases whole
    · cases read
  · rintro ⟨on, rfl⟩
    exact ofBytes_bytes on

theorem ofBytes_error_iff {bytes : Bytes} {error : Error} :
    ofBytes bytes = .error error ↔
      error = .invalidPublicKey ∧ ¬ ∃ key : PublicKey, key.point.OnCurve ∧ key.bytes = bytes := by
  simp only [← ofBytes_ok_iff]
  rw [ofBytes]
  split
  · simp
  · simp [eq_comm]

theorem bytes_injective {key other : PublicKey} (on : key.point.OnCurve) (same : key.bytes = other.bytes)
    (on' : other.point.OnCurve) : key = other := by
  have read := ofBytes_bytes on
  rw [same, ofBytes_bytes on'] at read
  exact (Except.ok.inj read).symm

end PublicKey
end NoiseLink
