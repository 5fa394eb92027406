import NoiseLink.Bytes

/-! A queue of bytes: written in pieces at the back, read in pieces of any size at the front. Its
contents are `toList`, and every operation is determined by them. -/
namespace NoiseLink

structure ByteQueue where
  front : Bytes := []
  /-- What was pushed since the front was last filled, newest first. -/
  back : List Bytes := []
deriving Inhabited

namespace ByteQueue

def ofBytes (bytes : Bytes) : ByteQueue := ⟨bytes, []⟩

def toList (q : ByteQueue) : Bytes := q.front ++ q.back.reverse.flatten

def push (q : ByteQueue) (bytes : Bytes) : ByteQueue := { q with back := bytes :: q.back }

def isEmpty (q : ByteQueue) : Bool := q.front.isEmpty && q.back.all List.isEmpty

def length (q : ByteQueue) : Nat := q.front.length + q.back.flatten.length

/-- Removes up to `size` bytes from the front. -/
def take (q : ByteQueue) (size : Nat) : Bytes × ByteQueue :=
  let head := q.front.take size
  if head.length = size then (head, { q with front := q.front.drop size })
  else
    let all := q.toList
    (all.take size, ⟨all.drop size, []⟩)

@[simp] theorem toList_push (q : ByteQueue) (bytes : Bytes) :
    (q.push bytes).toList = q.toList ++ bytes := by
  simp [toList, push]

@[simp] theorem toList_ofBytes (bytes : Bytes) : (ofBytes bytes).toList = bytes := by
  simp [toList, ofBytes]

@[simp] theorem length_toList (q : ByteQueue) : q.toList.length = q.length := by
  simp [toList, length, List.sum_reverse]

theorem isEmpty_iff (q : ByteQueue) : q.isEmpty = true ↔ q.toList = [] := by
  simp [isEmpty, toList, List.isEmpty_iff]

@[simp] theorem take_fst (q : ByteQueue) (size : Nat) : (q.take size).1 = q.toList.take size := by
  simp only [take]
  split
  · rename_i full
    have long : size ≤ q.front.length := by simp at full; omega
    simp [toList, List.take_append_of_le_length long]
  · rfl

@[simp] theorem take_snd (q : ByteQueue) (size : Nat) :
    (q.take size).2.toList = q.toList.drop size := by
  simp only [take]
  split
  · rename_i full
    have long : size ≤ q.front.length := by simp at full; omega
    simp [toList, List.drop_append_of_le_length long]
  · simp [toList]

@[simp] theorem length_ofBytes (bytes : Bytes) : (ofBytes bytes).length = bytes.length := by
  simp [ofBytes, length]

theorem length_take (q : ByteQueue) (size : Nat) :
    (q.take size).2.length + (q.take size).1.length = q.length := by
  rw [← length_toList, ← length_toList, take_snd, take_fst]
  simp
  omega

end ByteQueue
end NoiseLink
