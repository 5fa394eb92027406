import NoiseLink.Handshake.Party
import NoiseLink.Proofs.Crypto.Keys

/-! What one party does to its transcript the other party can do to an equal one: a text opens
exactly to what it was sealed from, a tag passes exactly when it was made there, and an offered key
is accepted by the party it was meant for. -/
namespace NoiseLink

theorem bind_ok_iff {x : Except Error α} {f : α → Except Error β} {b : β} :
    (x >>= f) = .ok b ↔ ∃ a, x = .ok a ∧ f a = .ok b := by
  cases x <;> simp [bind, Except.bind]

namespace Transcript

theorem encrypt_ok_iff_sealText {t next : Transcript} {text : Octets n} {sealed : Octets (n + 16)} :
    t.encrypt text = (.ok sealed, next) ↔ t.sealText text.bytes = (.ok sealed.bytes, next) := by
  rw [encrypt]
  split
  · rename_i found after same
    simp only [same, Prod.mk.injEq, Except.ok.injEq, Octets.ext_iff]
  · rename_i error after same
    simp [same]

theorem decrypt_ok_iff_openText {t next : Transcript} {text : Octets n} {sealed : Octets (n + 16)} :
    t.decrypt sealed = (.ok text, next) ↔ t.openText sealed.bytes = (.ok text.bytes, next) := by
  rw [decrypt]
  split
  · rename_i found after same
    simp only [same, Prod.mk.injEq, Except.ok.injEq, Octets.ext_iff]
  · rename_i error after same
    simp [same]

theorem encrypt_ok_iff {t next : Transcript} {text : Octets n} {sealed : Octets (n + 16)} :
    t.encrypt text = (.ok sealed, next) ↔
      Aead.encrypt? t.temporaryKey (nonceBytes t.nonce) t.hash.bytes text.bytes =
        some sealed.bytes ∧ next = t.count.mixHash sealed.bytes := by
  rw [encrypt_ok_iff_sealText, sealText_ok_iff]

/-- A text opens to what it was sealed from, and to nothing else. -/
theorem decrypt_ok_iff {t next : Transcript} {text : Octets n} {sealed : Octets (n + 16)} :
    t.decrypt sealed = (.ok text, next) ↔ t.encrypt text = (.ok sealed, next) := by
  rw [decrypt_ok_iff_openText, encrypt_ok_iff_sealText, openText_ok_iff]

theorem sealText_of_length (t : Transcript) {text : Bytes} (inLimit : text.length < Aead.textLimit) :
    ∃ sealed next, t.sealText text = (.ok sealed, next) := by
  rw [sealText]
  split
  · exact ⟨_, _, rfl⟩
  · rename_i refused
    simp [Aead.encrypt?, inLimit] at refused

theorem encrypt_of_length (t : Transcript) {text : Octets n} (inLimit : n < Aead.textLimit) :
    ∃ sealed next, t.encrypt text = (.ok sealed, next) := by
  obtain ⟨sealed, next, made⟩ := t.sealText_of_length (text.length_bytes.symm ▸ inLimit)
  have size : sealed.length = n + 16 := by rw [length_of_sealText made, text.length_bytes]
  exact ⟨⟨sealed, size⟩, next, encrypt_ok_iff_sealText.2 made⟩

end Transcript

namespace Handshake

theorem checkTag_ok_iff {t next : Transcript} {tag : Octets 16} :
    checkTag t tag = .ok next ↔ sealTag t = .ok (tag, next) := by
  have empty (text : Octets 0) : text = Octets.zero 0 :=
    Octets.ext (List.eq_nil_of_length_eq_zero text.length_bytes)
  rw [checkTag, sealTag]
  constructor
  · intro h
    split at h
    · rename_i text after opened
      rw [Transcript.decrypt_ok_iff, empty text] at opened
      simp only [Except.ok.injEq] at h
      subst h
      rw [opened]
    · simp at h
  · intro h
    split at h
    · rename_i made after sealed
      simp only [Except.ok.injEq, Prod.mk.injEq] at h
      obtain ⟨rfl, rfl⟩ := h
      rw [Transcript.decrypt_ok_iff.2 sealed]
    · simp at h

theorem sealTag_ok (t : Transcript) : ∃ tag next, sealTag t = .ok (tag, next) := by
  obtain ⟨tag, next, sealed⟩ := @Transcript.encrypt_of_length 0 t (Octets.zero 0) (by decide)
  exact ⟨tag, next, by rw [sealTag, sealed]⟩

/-- The two holders of a pair of keys mix in the same secret. -/
theorem mixShared_publicKey (t : Transcript) (mine theirs : PrivateKey) : ∃ next,
    mixShared t mine theirs.publicKey = .ok next ∧ mixShared t theirs mine.publicKey = .ok next := by
  obtain ⟨secret, ours, other⟩ := sharedSecret_publicKey mine theirs
  refine ⟨t.mixKey secret.bytes, ?_, ?_⟩
  · rw [mixShared, ours]
    rfl
  · rw [mixShared, other]
    rfl

theorem offer_ok_iff {t next : Transcript} {fresh : PrivateKey} {theirs : PublicKey}
    {act : Octets 50} : offer t fresh theirs = .ok (act, next) ↔
      ∃ mixed tag, mixShared (t.mixHash fresh.publicKey.bytes) fresh theirs = .ok mixed ∧
        sealTag mixed = .ok (tag, next) ∧
        act = versionOctet ++ fresh.publicKey.encode ++ tag := by
  simp only [offer, bind_ok_iff, pure, Except.pure, Except.ok.injEq, Prod.mk.injEq, Prod.exists]
  constructor
  · rintro ⟨mixed, shared, tag, after, made, rfl, rfl⟩
    exact ⟨mixed, tag, shared, made, rfl⟩
  · rintro ⟨mixed, tag, shared, made, rfl⟩
    exact ⟨mixed, shared, tag, next, made, rfl, rfl⟩

theorem accept_ok_iff {t next : Transcript} {mine : PrivateKey} {act : Octets 50}
    {theirs : PublicKey} : accept t mine act = .ok (theirs, next) ↔
      checkVersion act = .ok () ∧
        PublicKey.ofBytes (act.window 1 33 (Nat.le_add_right 34 16)).bytes = .ok theirs ∧
        ∃ mixed, mixShared (t.mixHash theirs.bytes) mine theirs = .ok mixed ∧
          sealTag mixed = .ok (act.window 34 16 (Nat.le_refl 50), next) := by
  simp only [accept, bind_ok_iff, pure, Except.pure, Except.ok.injEq, Prod.mk.injEq,
    checkTag_ok_iff]
  constructor
  · rintro ⟨_, version, key, read, mixed, shared, after, made, rfl, rfl⟩
    exact ⟨version, read, mixed, shared, made⟩
  · rintro ⟨version, read, mixed, shared, made⟩
    exact ⟨(), version, theirs, read, mixed, shared, next, made, rfl, rfl⟩

/-- An offered key is accepted by the holder of the key it was offered to, and both then have the
same transcript. -/
theorem accept_offer (t : Transcript) (fresh theirs : PrivateKey) : ∃ act next,
    offer t fresh theirs.publicKey = .ok (act, next) ∧
      accept t theirs act = .ok (fresh.publicKey, next) := by
  obtain ⟨mixed, ours, other⟩ := mixShared_publicKey (t.mixHash fresh.publicKey.bytes) fresh theirs
  obtain ⟨tag, next, made⟩ := sealTag_ok mixed
  refine ⟨versionOctet ++ fresh.publicKey.encode ++ tag, next,
    offer_ok_iff.2 ⟨mixed, tag, ours, made, rfl⟩, accept_ok_iff.2 ⟨rfl, ?_, mixed, other, ?_⟩⟩
  · rw [Octets.window_append_middle]
    exact fresh.ofBytes_publicKey
  · rw [made, Octets.window_append_last]

end Handshake

open Handshake

theorem AwaitingActTwo.actThree_ok_iff {i : AwaitingActTwo} {actTwo : Octets 50}
    {actThree : Octets 66} {session : Session} : i.actThree actTwo = .ok (actThree, session) ↔
      ∃ theirs t, accept i.transcript i.ephemeral actTwo = .ok (theirs, t) ∧
        ∃ sealed middle, t.encrypt i.staticKey.publicKey.encode = (.ok sealed, middle) ∧
          ∃ mixed tag last, mixShared middle i.staticKey theirs = .ok mixed ∧
            sealTag mixed = .ok (tag, last) ∧ actThree = versionOctet ++ sealed ++ tag ∧
            session = ⟨i.remoteStatic, last.split.1, last.split.2⟩ := by
  rw [AwaitingActTwo.actThree, bind_ok_iff]
  constructor
  · rintro ⟨⟨theirs, t⟩, accepted, h⟩
    dsimp only at h
    split at h
    · simp at h
    · rename_i sealed middle closed
      simp only [bind_ok_iff, pure, Except.pure, Except.ok.injEq, Prod.exists, Prod.mk.injEq] at h
      obtain ⟨mixed, shared, tag, last, made, rfl, rfl⟩ := h
      exact ⟨theirs, t, accepted, sealed, middle, closed, mixed, tag, last, shared, made, rfl, rfl⟩
  · rintro ⟨theirs, t, accepted, sealed, middle, closed, mixed, tag, last, shared, made, rfl, rfl⟩
    refine ⟨(theirs, t), accepted, ?_⟩
    simp only [closed, bind_ok_iff, pure, Except.pure, Except.ok.injEq, Prod.exists, Prod.mk.injEq]
    exact ⟨mixed, shared, tag, last, made, rfl, rfl⟩

theorem AwaitingActThree.receiveActThree_ok_iff {r : AwaitingActThree} {actThree : Octets 66}
    {session : Session} : r.receiveActThree actThree = .ok session ↔
      checkVersion actThree = .ok () ∧
        ∃ key middle, r.transcript.encrypt key =
          (.ok (actThree.window 1 49 (Nat.le_add_right 50 16)), middle) ∧
          ∃ remote, PublicKey.ofBytes key.bytes = .ok remote ∧
            ∃ mixed last, mixShared middle r.ephemeral remote = .ok mixed ∧
              sealTag mixed = .ok (actThree.window 50 16 (Nat.le_refl 66), last) ∧
              session = ⟨remote, last.split.2, last.split.1⟩ := by
  rw [receiveActThree, bind_ok_iff]
  constructor
  · rintro ⟨_, version, h⟩
    split at h
    · simp at h
    · rename_i key middle opened
      simp only [bind_ok_iff, pure, Except.pure, Except.ok.injEq, checkTag_ok_iff] at h
      obtain ⟨remote, read, mixed, shared, last, made, rfl⟩ := h
      exact ⟨version, key, middle, Transcript.decrypt_ok_iff.1 opened, remote, read, mixed, last,
        shared, made, rfl⟩
  · rintro ⟨version, key, middle, closed, remote, read, mixed, last, shared, made, rfl⟩
    refine ⟨(), version, ?_⟩
    rw [Transcript.decrypt_ok_iff.2 closed]
    simp only [bind_ok_iff, pure, Except.pure, Except.ok.injEq, checkTag_ok_iff]
    exact ⟨remote, read, mixed, shared, last, made, rfl⟩

end NoiseLink
