import NoiseLink.Proofs.Handshake.Offers

/-! Act three tells a responder who the initiator is. For every static key there is one act that a responder
takes for it: the key, sealed under the key of act two, and a tag that only a holder of the static key can
make. It is the act that the initiator with this key makes, and what is wrong with any other is told in
the order in which it is read. -/
namespace NoiseLink

open Handshake

/-- An act that shows a static key to a responder that has sent act two. -/
structure AwaitingActThree.Identifies (r : AwaitingActThree) (remote : PublicKey) (act : Octets 66) :
    Prop where
  version : act.bytes.head? = some 0
  valid : remote.point.OnCurve
  sealed : Aead.encrypt? r.transcript.temporaryKey (nonceBytes 1) r.transcript.hash.bytes remote.bytes =
    some ((act.bytes.drop 1).take 49)
  proved : ∃ secret, sharedSecret r.ephemeral remote = .ok secret ∧
    Aead.encrypt? (hkdf r.transcript.chainingKey secret.bytes).2 (nonceBytes 0)
      (Sha256.digest (r.transcript.hash.bytes ++ (act.bytes.drop 1).take 49)).bytes [] =
      some (act.bytes.drop 50)

def AwaitingActThree.opened? (r : AwaitingActThree) (act : Octets 66) : Option Bytes :=
  Aead.decrypt? r.transcript.temporaryKey (nonceBytes 1) r.transcript.hash.bytes
    ((act.bytes.drop 1).take 49)

theorem ReceivedActOne.nonce_of_actTwo {received : ReceivedActOne} {fresh : PrivateKey}
    {actTwo : Octets 50} {r : AwaitingActThree} (sent : received.actTwo fresh = .ok (actTwo, r)) :
    r.transcript.nonce = 1 := by
  obtain ⟨t, offered, rfl⟩ := actTwo_ok_iff.1 sent
  obtain ⟨mixed, tag, shared, made, -⟩ := offer_ok_iff.1 offered
  obtain ⟨secret, -, rfl⟩ := mixShared_ok_iff.1 shared
  obtain ⟨-, rfl⟩ := sealTag_ok_iff.1 made
  rfl

namespace AwaitingActThree

variable {r : AwaitingActThree} {remote : PublicKey} {act other : Octets 66}

theorem Identifies.opened (identifies : r.Identifies remote act) : r.opened? act = some remote.bytes :=
  Aead.decrypt?_eq_some_iff.2 identifies.sealed

/-- A responder ends with a key exactly for the acts that show it. -/
theorem receives_iff_identifies (once : r.transcript.nonce = 1) :
    (∃ session, r.receiveActThree act = .ok session ∧ session.remoteStatic = remote) ↔
      r.Identifies remote act := by
  have rest : (act.window 50 16 (Nat.le_refl 66)).bytes = act.bytes.drop 50 :=
    List.take_of_length_le (by simp)
  simp only [receiveActThree_ok_iff, checkVersion_ok_iff (show 0 < 66 by decide),
    Transcript.encrypt_ok_iff, PublicKey.ofBytes_ok_iff, mixShared_ok_iff, sealTag_ok_iff, once, rest]
  constructor
  · rintro ⟨_, ⟨begins, key, _, ⟨closed, rfl⟩, _, ⟨valid, same⟩, _, _, ⟨secret, shared, rfl⟩, ⟨made, -⟩,
      rfl⟩, rfl⟩
    rw [← same] at closed
    exact ⟨begins, valid, closed, secret, shared, made⟩
  · rintro ⟨begins, valid, closed, secret, shared, made⟩
    exact ⟨_, ⟨begins, remote.encode, _, ⟨closed, rfl⟩, remote, ⟨valid, rfl⟩, _, _,
      ⟨secret, shared, rfl⟩, ⟨made, rfl⟩, rfl⟩, rfl⟩

theorem Identifies.unique (one : r.Identifies remote act) (two : r.Identifies remote other) :
    act = other := by
  have same : (act.bytes.drop 1).take 49 = (other.bytes.drop 1).take 49 :=
    Option.some.inj (one.sealed.symm.trans two.sealed)
  obtain ⟨secret, shared, made⟩ := one.proved
  obtain ⟨_, again, also⟩ := two.proved
  rw [shared] at again
  cases again
  rw [same, also] at made
  have first := Bytes.pieces one.version 49
  have second := Bytes.pieces two.version 49
  rw [same, ← Option.some.inj made] at first
  exact Octets.ext (first.trans second.symm)

/-- What a responder may say of act three. -/
inductive Receiving (r : AwaitingActThree) (act : Octets 66) : Except Error Session → Prop where
  | version {found} : act.bytes.head? = some found → found ≠ 0 →
      Receiving r act (.error (.invalidVersion found))
  | sealing : act.bytes.head? = some 0 → r.opened? act = none →
      Receiving r act (.error .handshakeAuthentication)
  | key {text} : act.bytes.head? = some 0 → r.opened? act = some text →
      (¬ ∃ key : PublicKey, key.point.OnCurve ∧ key.bytes = text) →
      Receiving r act (.error .invalidPublicKey)
  | tag {key : PublicKey} : act.bytes.head? = some 0 → key.point.OnCurve →
      r.opened? act = some key.bytes → ¬ r.Identifies key act →
      Receiving r act (.error .handshakeAuthentication)
  | identified {session} : r.Identifies session.remoteStatic act → Receiving r act (.ok session)

theorem receiving (once : r.transcript.nonce = 1) (act : Octets 66) :
    r.Receiving act (r.receiveActThree act) := by
  have whole {remote : PublicKey} := @receives_iff_identifies r remote act once
  cases answer : r.receiveActThree act with
  | ok session => exact .identified (whole.1 ⟨session, answer, rfl⟩)
  | error error =>
    have stuck (key : PublicKey) : ¬ r.Identifies key act := by
      intro identifies
      obtain ⟨session, ended, -⟩ := whole.2 identifies
      rw [answer] at ended
      cases ended
    rw [receiveActThree] at answer
    cases versioned : checkVersion act with
    | error cause =>
      rw [versioned] at answer
      cases answer
      obtain ⟨found, begins, wrong, rfl⟩ := checkVersion_error versioned
      exact .version begins wrong
    | ok _ =>
      have begins := (checkVersion_ok_iff (by decide)).1 versioned
      simp only [versioned, bind, Except.bind] at answer
      split at answer
      · rename_i cause after opened
        obtain ⟨rfl, -, closed⟩ := Transcript.decrypt_error_iff.1 opened
        cases answer
        rw [once] at closed
        exact .sealing begins closed
      · rename_i key t opened
        obtain ⟨closed, -⟩ := Transcript.encrypt_ok_iff.1 (Transcript.decrypt_ok_iff.1 opened)
        rw [once] at closed
        have text : r.opened? act = some key.bytes := Aead.decrypt?_eq_some_iff.2 closed
        cases read : PublicKey.ofBytes key.bytes with
        | error cause =>
          obtain ⟨rfl, unknown⟩ := PublicKey.ofBytes_error_iff.1 read
          rw [read] at answer
          cases answer
          exact .key begins text unknown
        | ok remote =>
          obtain ⟨valid, same⟩ := PublicKey.ofBytes_ok_iff.1 read
          obtain ⟨mixed, shared⟩ := mixShared_of_onCurve t r.ephemeral valid
          simp only [read, shared] at answer
          split at answer
          · rename_i refused
            cases answer
            cases checkTag_error refused
            exact .tag begins valid (text.trans (congrArg some same.symm)) (stuck remote)
          · cases answer

/-- What is wrong with an act leaves nothing else to say of it. -/
theorem Receiving.eq_of_error {error : Error} {answer : Except Error Session}
    (one : r.Receiving act (.error error)) (two : r.Receiving act answer) : answer = .error error := by
  cases one with
  | version begins wrong =>
    cases two with
    | version also => simp_all
    | sealing also | key also | tag also => simp_all
    | identified identifies => simp_all [identifies.version]
  | sealing begins closed =>
    cases two with
    | version also wrong => simp_all
    | sealing | tag => rfl
    | key _ opened => simp [closed] at opened
    | identified identifies =>
      have opened := identifies.opened
      simp [closed] at opened
  | key begins opened unknown =>
    cases two with
    | version also wrong => simp_all
    | sealing _ closed => simp [closed] at opened
    | key => rfl
    | tag _ valid also =>
      cases opened.symm.trans also
      exact absurd ⟨_, valid, rfl⟩ unknown
    | identified identifies =>
      cases opened.symm.trans identifies.opened
      exact absurd ⟨_, identifies.valid, rfl⟩ unknown
  | tag begins valid opened wrong =>
    cases two with
    | version also wrong => simp_all
    | sealing | tag => rfl
    | key _ also unknown =>
      cases opened.symm.trans also
      exact absurd ⟨_, valid, rfl⟩ unknown
    | identified identifies =>
      have same := Option.some.inj (opened.symm.trans identifies.opened)
      cases PublicKey.bytes_injective valid same identifies.valid
      exact absurd identifies wrong

/-- A responder that ends with a static key for the one act that shows it, and says of any other act what
is wrong with it. -/
structure Recognizes (r : AwaitingActThree) : Prop where
  identifies : ∀ act remote, (∃ session, r.receiveActThree act = .ok session ∧
    session.remoteStatic = remote) ↔ r.Identifies remote act
  unique : ∀ remote act other, r.Identifies remote act → r.Identifies remote other → act = other
  version : ∀ act found, act.bytes.head? = some found → found ≠ 0 →
    r.receiveActThree act = .error (.invalidVersion found)
  sealing : ∀ act : Octets 66, act.bytes.head? = some 0 → r.opened? act = none →
    r.receiveActThree act = .error .handshakeAuthentication
  key : ∀ act : Octets 66, act.bytes.head? = some 0 → ∀ text, r.opened? act = some text →
    (¬ ∃ key : PublicKey, key.point.OnCurve ∧ key.bytes = text) →
    r.receiveActThree act = .error .invalidPublicKey
  tag : ∀ act : Octets 66, act.bytes.head? = some 0 → ∀ key : PublicKey, key.point.OnCurve →
    r.opened? act = some key.bytes → ¬ r.Identifies key act →
    r.receiveActThree act = .error .handshakeAuthentication

theorem recognizes (once : r.transcript.nonce = 1) : r.Recognizes := by
  have wrong {act : Octets 66} {error : Error} (receives : r.Receiving act (.error error)) :
      r.receiveActThree act = .error error :=
    receives.eq_of_error (receiving once act)
  exact ⟨fun act remote => receives_iff_identifies once, fun remote act other => Identifies.unique,
    fun act found begins other => wrong (.version begins other),
    fun act begins closed => wrong (.sealing begins closed),
    fun act begins text opened unknown => wrong (.key begins opened unknown),
    fun act begins key valid opened other => wrong (.tag begins valid opened other)⟩

end AwaitingActThree

/-- After act two a responder ends with a static key exactly for the act three that shows it, which is the
one that the initiator with that key makes if act one was its own. -/
theorem AwaitingActThree.identities_canonical {responder answer : PrivateKey} {actOne actTwo : Octets 50}
    {received : ReceivedActOne} {r : AwaitingActThree}
    (taken : (Responder.start responder).receiveActOne actOne = .ok received)
    (sent : received.actTwo answer = .ok (actTwo, r)) :
    r.Recognizes ∧
    (∃ fresh, ∀ initiator, ∃ awaiting,
      (Initiator.start initiator responder.publicKey).actOne fresh = .ok (actOne, awaiting)) ∧
    ∀ initiator fresh awaiting,
      (Initiator.start initiator responder.publicKey).actOne fresh = .ok (actOne, awaiting) →
      ∃ actThree session, awaiting.actThree actTwo = .ok (actThree, session) ∧
        ∀ act, (∃ session, r.receiveActThree act = .ok session ∧
          session.remoteStatic = initiator.publicKey) ↔ act = actThree := by
  have recognizes := recognizes (ReceivedActOne.nonce_of_actTwo sent)
  have accepted := Responder.receiveActOne_ok_iff.1 taken
  refine ⟨recognizes, ?_, ?_⟩
  · have brings := accept_ok_iff_brings.1 ⟨_, accepted⟩
    obtain ⟨fresh, same⟩ := PublicKey.exists_privateKey brings.valid
    rw [← same, brings_publicKey_iff] at brings
    obtain ⟨next, offered⟩ := brings
    exact ⟨fresh, fun initiator => ⟨_, Initiator.actOne_ok_iff.2 ⟨next, offered, rfl⟩⟩⟩
  · intro initiator fresh awaiting begun
    obtain ⟨t, offered, rfl⟩ := Initiator.actOne_ok_iff.1 begun
    obtain ⟨_, before, also, accepts⟩ := accept_offer (opening responder.publicKey) fresh responder
    rw [offered] at also
    cases also
    rw [accepts] at accepted
    obtain ⟨known, rfl⟩ := Prod.mk.inj (Except.ok.inj accepted)
    obtain ⟨after, returned, rfl⟩ := ReceivedActOne.actTwo_ok_iff.1 sent
    rw [← known] at returned
    obtain ⟨_, _, again, agreed⟩ := accept_offer received.transcript answer fresh
    rw [returned] at again
    cases again
    obtain ⟨actThree, last, finished, met⟩ := last_act initiator fresh answer responder.publicKey agreed
    refine ⟨actThree, _, finished, fun act => ?_⟩
    have shown := (recognizes.identifies actThree initiator.publicKey).1 ⟨_, met, rfl⟩
    rw [recognizes.identifies]
    exact ⟨fun identifies => identifies.unique shown, fun same => same ▸ shown⟩

/-- Four small keys: the responder with key two has taken act one and answered with key four. -/
theorem AwaitingActThree.identities_canonical_of_small_keys : ∃ actOne actTwo received r,
    (Responder.start ⟨2, by decide, by decide⟩).receiveActOne actOne = .ok received ∧
    received.actTwo ⟨4, by decide, by decide⟩ = .ok (actTwo, r) ∧ r.Recognizes ∧
    ∃ actThree, ∀ act, (∃ session, r.receiveActThree act = .ok session ∧
      session.remoteStatic = PrivateKey.publicKey ⟨1, by decide, by decide⟩) ↔ act = actThree := by
  obtain ⟨actOne, actTwo, before, t, offered, taken, sent, -⟩ :=
    first_acts ⟨1, by decide, by decide⟩ ⟨2, by decide, by decide⟩ ⟨3, by decide, by decide⟩
      ⟨4, by decide, by decide⟩
  obtain ⟨recognizes, -, only⟩ := AwaitingActThree.identities_canonical taken sent
  obtain ⟨actThree, session, -, shown⟩ := only _ _ _ offered
  exact ⟨actOne, actTwo, _, _, taken, sent, recognizes, actThree, shown⟩

end NoiseLink
