import NoiseLink.Proofs.Cipher.Frames
import NoiseLink.Proofs.Cipher.Schedule

/-! How far a cipher has come. Each unit that is sealed or opened moves it on by one place, so that two
ends which started alike are alike again once they have counted the same number of units, whatever was in
them. -/
namespace NoiseLink.CipherState

/-- The cipher after a number of units. -/
def onward (c : CipherState) (units : Nat) : CipherState := (fun c => c.count.rotateWhenDue)^[units] c

@[simp] theorem onward_onward (c : CipherState) (first second : Nat) :
    (c.onward first).onward second = c.onward (first + second) := by
  rw [Nat.add_comm]
  exact (Function.iterate_add_apply _ second first c).symm

theorem position_onward (c : CipherState) (units : Nat) :
    (c.onward units).position = c.position + units := by
  induction units generalizing c with
  | zero => rfl
  | succ units ih =>
    have further : (c.onward (units + 1)).position = _ := ih c.count.rotateWhenDue
    rw [further, position_advance]
    omega

theorem Scheduled.onward {first : Octets 32 × Octets 32} {c : CipherState} (scheduled : Scheduled first c)
    (units : Nat) : Scheduled first (c.onward units) := by
  induction units generalizing c with
  | zero => exact scheduled
  | succ units ih => exact ih scheduled.advance

theorem onward_of_encrypt {c next : CipherState} {text sealed : Bytes}
    (h : c.encrypt text = (.ok sealed, next)) : next = c.onward 1 := by
  rw [encrypt] at h
  split at h
  · exact (congrArg Prod.snd h).symm
  · simp at h

theorem onward_of_decrypt {c next : CipherState} {unit : Bytes} {answer : Except Error Bytes}
    (h : c.decrypt unit = (answer, next)) : next = c.onward 1 := by
  have moved := c.decrypt_snd unit
  rw [h] at moved
  exact moved

theorem onward_of_frame {c next : CipherState} {payload wire : Bytes}
    (h : c.frame payload = (.ok wire, next)) : next = c.onward 2 := by
  obtain ⟨header, middle, body, first, second, -⟩ := frame_ok_iff.1 h
  rw [onward_of_encrypt second, onward_of_encrypt first, onward_onward]

theorem Frames.onward {c last : CipherState} {payloads : List Bytes} {wire : Bytes}
    (frames : c.Frames payloads wire last) : last = c.onward (2 * payloads.length) := by
  induction frames with
  | nil => rfl
  | cons framed _ ih =>
    rw [ih, onward_of_frame framed, onward_onward, List.length_cons]
    congr 1
    omega

end NoiseLink.CipherState
