import NoiseLink.Proofs.Crypto.Compressed
import NoiseLink.Proofs.Handshake.Agreement

/-! Acts that bring a fresh key. For every key there is one act that brings it to a party, and the party
takes that act and no other: it has the version, the key, and the tag that the key and the party's own
give. What is wrong with any other act is told in this order. -/
namespace NoiseLink

open Handshake

/-- A text that does not open costs its nonce. -/
theorem Transcript.openText_error_iff {t next : Transcript} {sealed : Bytes} {error : Error} :
    t.openText sealed = (.error error, next) ↔
      error = .handshakeAuthentication ∧ next = t.count ∧
        Aead.decrypt? t.temporaryKey (nonceBytes t.nonce) t.hash.bytes sealed = none := by
  rw [openText]
  split
  · rename_i opened
    simp [opened]
  · rename_i closed
    simp [closed, eq_comm]

theorem Transcript.decrypt_error_iff {t next : Transcript} {sealed : Octets (n + 16)} {error : Error} :
    t.decrypt sealed = (.error error, next) ↔
      error = .handshakeAuthentication ∧ next = t.count ∧
        Aead.decrypt? t.temporaryKey (nonceBytes t.nonce) t.hash.bytes sealed.bytes = none := by
  rw [← openText_error_iff, decrypt]
  split
  · rename_i text after opened
    simp [opened]
  · rename_i cause after closed
    simp [closed]

namespace Handshake

theorem mixShared_of_onCurve (t : Transcript) (mine : PrivateKey) {theirs : PublicKey}
    (valid : theirs.point.OnCurve) : ∃ next, mixShared t mine theirs = .ok next := by
  obtain ⟨other, rfl⟩ := PublicKey.exists_privateKey valid
  obtain ⟨next, mixed, -⟩ := mixShared_publicKey t mine other
  exact ⟨next, mixed⟩

theorem mixShared_ok_iff {t next : Transcript} {mine : PrivateKey} {theirs : PublicKey} :
    mixShared t mine theirs = .ok next ↔
      ∃ secret, sharedSecret mine theirs = .ok secret ∧ next = t.mixKey secret.bytes := by
  simp only [mixShared, bind_ok_iff, pure, Except.pure, Except.ok.injEq, @eq_comm _ next]

theorem sealTag_ok_iff {t next : Transcript} {tag : Octets 16} :
    sealTag t = .ok (tag, next) ↔
      Aead.encrypt? t.temporaryKey (nonceBytes t.nonce) t.hash.bytes [] = some tag.bytes ∧
        next = t.count.mixHash tag.bytes := by
  have closes := @Transcript.encrypt_ok_iff 0 t next (Octets.zero 0) tag
  refine Iff.trans ?_ closes
  rw [sealTag]
  split
  · rename_i made after closed
    simp [closed]
  · rename_i closed
    simp [closed]

theorem checkTag_error {t : Transcript} {tag : Octets 16} {error : Error}
    (refused : checkTag t tag = .error error) : error = .handshakeAuthentication := by
  rw [checkTag] at refused
  split at refused
  · cases refused
  · rename_i closed
    cases refused
    exact (Transcript.decrypt_error_iff.1 closed).1

theorem checkVersion_ok_iff {act : Octets n} (some_bytes : 0 < n) :
    checkVersion act = .ok () ↔ act.bytes.head? = some version := by
  obtain ⟨bytes, long⟩ := act
  cases bytes with
  | nil => exact absurd long (Nat.ne_of_lt some_bytes)
  | cons found rest => simp [checkVersion]

theorem checkVersion_error {act : Octets n} {error : Error}
    (refused : checkVersion act = .error error) :
    ∃ found, act.bytes.head? = some found ∧ found ≠ version ∧ error = .invalidVersion found := by
  obtain ⟨bytes, long⟩ := act
  cases bytes with
  | nil => simp [checkVersion] at refused
  | cons found rest =>
    rw [checkVersion] at refused
    split at refused
    · cases refused
    · rename_i other
      cases refused
      exact ⟨found, rfl, other, rfl⟩

end Handshake

theorem Bytes.pieces {bytes : Bytes} {first : UInt8} (begins : bytes.head? = some first) (size : Nat) :
    bytes = first :: ((bytes.drop 1).take size ++ bytes.drop (size + 1)) := by
  obtain ⟨rest, rfl⟩ := List.head?_eq_some_iff.1 begins
  simp

namespace Handshake

/-- An act that brings a key to a party with this transcript and this key of its own. -/
structure Brings (t : Transcript) (mine : PrivateKey) (key : PublicKey) (act : Octets 50) : Prop where
  version : act.bytes.head? = some 0
  valid : key.point.OnCurve
  written : (act.bytes.drop 1).take 33 = key.bytes
  sealed : ∃ secret, sharedSecret mine key = .ok secret ∧
    Aead.encrypt? (hkdf t.chainingKey secret.bytes).2 (nonceBytes 0)
      (Sha256.digest (t.hash.bytes ++ key.bytes)).bytes [] = some (act.bytes.drop 34)

variable {t : Transcript} {mine : PrivateKey} {key : PublicKey} {act other : Octets 50}

theorem accept_ok_iff_brings :
    (∃ next, accept t mine act = .ok (key, next)) ↔ Brings t mine key act := by
  have rest : (act.window 34 16 (Nat.le_refl 50)).bytes = act.bytes.drop 34 :=
    List.take_of_length_le (by simp)
  simp only [accept_ok_iff, checkVersion_ok_iff (show 0 < 50 by decide), PublicKey.ofBytes_ok_iff,
    mixShared_ok_iff, sealTag_ok_iff, rest]
  constructor
  · rintro ⟨_, begins, ⟨valid, written⟩, _, ⟨secret, shared, rfl⟩, closed, -⟩
    exact ⟨begins, valid, written.symm, secret, shared, closed⟩
  · rintro ⟨begins, valid, written, secret, shared, closed⟩
    exact ⟨_, begins, ⟨valid, written.symm⟩, _, ⟨secret, shared, rfl⟩, closed, rfl⟩

theorem Brings.unique (one : Brings t mine key act) (two : Brings t mine key other) : act = other := by
  obtain ⟨secret, shared, closed⟩ := one.sealed
  obtain ⟨_, same, also⟩ := two.sealed
  rw [shared] at same
  cases same
  rw [closed] at also
  have first := Bytes.pieces one.version 33
  have second := Bytes.pieces two.version 33
  rw [one.written, Option.some.inj also] at first
  rw [two.written] at second
  exact Octets.ext (first.trans second.symm)

/-- The act that brings a key is the one that its holder offers. -/
theorem brings_publicKey_iff {fresh : PrivateKey} :
    Brings t mine fresh.publicKey act ↔ ∃ next, offer t fresh mine.publicKey = .ok (act, next) := by
  obtain ⟨made, next, offered, accepted⟩ := accept_offer t fresh mine
  have brings := accept_ok_iff_brings.1 ⟨next, accepted⟩
  constructor
  · intro also
    cases also.unique brings
    exact ⟨next, offered⟩
  · rintro ⟨_, also⟩
    rw [offered] at also
    cases also
    exact brings

inductive Accepting (t : Transcript) (mine : PrivateKey) (act : Octets 50) :
    Except Error (PublicKey × Transcript) → Prop where
  | version {found} : act.bytes.head? = some found → found ≠ 0 →
      Accepting t mine act (.error (.invalidVersion found))
  | key : act.bytes.head? = some 0 →
      (¬ ∃ key : PublicKey, key.point.OnCurve ∧ key.bytes = (act.bytes.drop 1).take 33) →
      Accepting t mine act (.error .invalidPublicKey)
  | tag {key : PublicKey} : act.bytes.head? = some 0 → key.point.OnCurve →
      key.bytes = (act.bytes.drop 1).take 33 → ¬ Brings t mine key act →
      Accepting t mine act (.error .handshakeAuthentication)
  | taken {key next} : Brings t mine key act → Accepting t mine act (.ok (key, next))

theorem accepting (t : Transcript) (mine : PrivateKey) (act : Octets 50) :
    Accepting t mine act (accept t mine act) := by
  have whole := @accept_ok_iff_brings t mine
  cases answer : accept t mine act with
  | ok value => exact .taken (whole.1 ⟨value.2, answer⟩)
  | error error =>
    have stuck {key : PublicKey} : ¬ Brings t mine key act := by
      intro brings
      obtain ⟨next, accepted⟩ := whole.2 brings
      rw [answer] at accepted
      cases accepted
    rw [accept] at answer
    cases versioned : checkVersion act with
    | error cause =>
      rw [versioned] at answer
      cases answer
      obtain ⟨found, begins, wrong, rfl⟩ := checkVersion_error versioned
      exact .version begins wrong
    | ok _ =>
      have begins := (checkVersion_ok_iff (by decide)).1 versioned
      rw [versioned] at answer
      cases read : PublicKey.ofBytes (act.window 1 33 (Nat.le_add_right 34 16)).bytes with
      | error cause =>
        obtain ⟨rfl, unknown⟩ := PublicKey.ofBytes_error_iff.1 read
        simp only [read, bind, Except.bind] at answer
        cases answer
        exact .key begins unknown
      | ok key =>
        obtain ⟨valid, written⟩ := PublicKey.ofBytes_ok_iff.1 read
        obtain ⟨mixed, shared⟩ := mixShared_of_onCurve (t.mixHash key.bytes) mine valid
        simp only [read, shared, bind, Except.bind] at answer
        split at answer
        · rename_i refused
          cases answer
          cases checkTag_error refused
          exact .tag begins valid written stuck
        · cases answer

theorem Accepting.eq_of_error {error : Error} {answer : Except Error (PublicKey × Transcript)}
    (one : Accepting t mine act (.error error)) (two : Accepting t mine act answer) :
    answer = .error error := by
  have same {key other : PublicKey} (valid : key.point.OnCurve) (valid' : other.point.OnCurve)
      (written : key.bytes = (act.bytes.drop 1).take 33)
      (written' : other.bytes = (act.bytes.drop 1).take 33) : key = other :=
    PublicKey.bytes_injective valid (written.trans written'.symm) valid'
  cases one with
  | version begins wrong =>
    cases two with
    | version also => simp_all
    | key also | tag also => simp_all
    | taken brings => simp_all [brings.version]
  | key begins unknown =>
    cases two with
    | version also wrong => simp_all
    | key => rfl
    | tag _ valid written => exact absurd ⟨_, valid, written⟩ unknown
    | taken brings => exact absurd ⟨_, brings.valid, brings.written.symm⟩ unknown
  | tag begins valid written wrong =>
    cases two with
    | version also wrong => simp_all
    | key _ unknown => exact absurd ⟨_, valid, written⟩ unknown
    | tag => rfl
    | taken brings =>
      cases same valid brings.valid written brings.written.symm
      exact absurd brings wrong

/-- A party that takes the acts that bring it a key, one for each key, and says of any other act what is
wrong with it. -/
structure Judges (t : Transcript) (mine : PrivateKey) (judge : Octets 50 → Except Error β) : Prop where
  accepts : ∀ act, (∃ result, judge act = .ok result) ↔ ∃ key, Brings t mine key act
  unique : ∀ key act other, Brings t mine key act → Brings t mine key other → act = other
  version : ∀ act found, act.bytes.head? = some found → found ≠ 0 →
    judge act = .error (.invalidVersion found)
  key : ∀ act : Octets 50, act.bytes.head? = some 0 →
    (¬ ∃ key : PublicKey, key.point.OnCurve ∧ key.bytes = (act.bytes.drop 1).take 33) →
    judge act = .error .invalidPublicKey
  tag : ∀ act : Octets 50, act.bytes.head? = some 0 → ∀ key : PublicKey, key.point.OnCurve →
    key.bytes = (act.bytes.drop 1).take 33 → ¬ Brings t mine key act →
    judge act = .error .handshakeAuthentication
  changed : ∀ act other result, judge act = .ok result → other ≠ act →
    (other.bytes.drop 1).take 33 = (act.bytes.drop 1).take 33 → ∃ error, judge other = .error error

/-- Whoever goes on with every act that is accepted judges the acts. -/
theorem judges_of_accept {judge : Octets 50 → Except Error β}
    (taken : ∀ act key next, accept t mine act = .ok (key, next) → key.point.OnCurve →
      ∃ result, judge act = .ok result)
    (refused : ∀ act error, accept t mine act = .error error → judge act = .error error) :
    Judges t mine judge := by
  have accepts (act : Octets 50) : (∃ result, judge act = .ok result) ↔ ∃ key, Brings t mine key act := by
    constructor
    · rintro ⟨result, judged⟩
      cases answer : accept t mine act with
      | ok value => exact ⟨value.1, accept_ok_iff_brings.1 ⟨value.2, answer⟩⟩
      | error error =>
        rw [refused act error answer] at judged
        cases judged
    · rintro ⟨key, brings⟩
      obtain ⟨next, answer⟩ := accept_ok_iff_brings.2 brings
      exact taken act key next answer brings.valid
  have wrong {act : Octets 50} {error : Error} (accepting : Accepting t mine act (.error error)) :
      judge act = .error error :=
    refused act error (accepting.eq_of_error (Handshake.accepting t mine act))
  refine ⟨accepts, fun key act other => Brings.unique, fun act found begins other =>
    wrong (.version begins other), fun act begins unknown => wrong (.key begins unknown),
    fun act begins key valid written other => wrong (.tag begins valid written other), ?_⟩
  intro act other result judged different same
  cases answer : judge other with
  | error error => exact ⟨error, rfl⟩
  | ok also =>
    obtain ⟨key, one⟩ := (accepts act).1 ⟨result, judged⟩
    obtain ⟨key', two⟩ := (accepts other).1 ⟨also, answer⟩
    have written : key'.bytes = key.bytes := two.written.symm.trans (same.trans one.written)
    cases PublicKey.bytes_injective two.valid written one.valid
    exact absurd (two.unique one) different

end Handshake

theorem Initiator.actOne_ok_iff {staticKey fresh : PrivateKey} {peer : PublicKey} {act : Octets 50}
    {i : AwaitingActTwo} : (start staticKey peer).actOne fresh = .ok (act, i) ↔
      ∃ t, offer (opening peer) fresh peer = .ok (act, t) ∧ i = ⟨staticKey, peer, fresh, t⟩ := by
  simp only [actOne, start, bind_ok_iff, pure, Except.pure, Except.ok.injEq, Prod.exists, Prod.mk.injEq]
  constructor
  · rintro ⟨_, t, offered, rfl, rfl⟩
    exact ⟨t, offered, rfl⟩
  · rintro ⟨t, offered, rfl⟩
    exact ⟨act, t, offered, rfl, rfl⟩

theorem Responder.receiveActOne_ok_iff {responder : PrivateKey} {act : Octets 50}
    {received : ReceivedActOne} : (start responder).receiveActOne act = .ok received ↔
      accept (opening responder.publicKey) responder act =
        .ok (received.remoteEphemeral, received.transcript) := by
  simp only [receiveActOne, start, bind_ok_iff, pure, Except.pure, Except.ok.injEq, Prod.exists]
  constructor
  · rintro ⟨key, t, accepted, rfl⟩
    exact accepted
  · intro accepted
    exact ⟨_, _, accepted, rfl⟩

theorem ReceivedActOne.actTwo_ok_iff {r : ReceivedActOne} {fresh : PrivateKey} {act : Octets 50}
    {next : AwaitingActThree} : r.actTwo fresh = .ok (act, next) ↔
      ∃ t, offer r.transcript fresh r.remoteEphemeral = .ok (act, t) ∧ next = ⟨fresh, t⟩ := by
  simp only [actTwo, bind_ok_iff, pure, Except.pure, Except.ok.injEq, Prod.exists, Prod.mk.injEq]
  constructor
  · rintro ⟨_, t, offered, rfl, rfl⟩
    exact ⟨t, offered, rfl⟩
  · rintro ⟨t, offered, rfl⟩
    exact ⟨act, t, offered, rfl, rfl⟩

theorem Responder.judges (responder : PrivateKey) :
    Judges (opening responder.publicKey) responder (Responder.start responder).receiveActOne := by
  refine judges_of_accept (fun act key next accepted _ => ?_) fun act error refused => ?_
  · exact ⟨⟨key, next⟩, receiveActOne_ok_iff.2 accepted⟩
  · simp [receiveActOne, start, refused, bind, Except.bind]

/-- Once act two is accepted nothing can go wrong with act three. -/
theorem AwaitingActTwo.actThree_of_accept {i : AwaitingActTwo} {actTwo : Octets 50} {key : PublicKey}
    {next : Transcript} (accepted : accept i.transcript i.ephemeral actTwo = .ok (key, next))
    (valid : key.point.OnCurve) : ∃ actThree session, i.actThree actTwo = .ok (actThree, session) := by
  obtain ⟨sealed, middle, closed⟩ :=
    @Transcript.encrypt_of_length 33 next i.staticKey.publicKey.encode (by decide)
  obtain ⟨mixed, shared⟩ := mixShared_of_onCurve middle i.staticKey valid
  obtain ⟨tag, last, made⟩ := sealTag_ok mixed
  exact ⟨_, _, actThree_ok_iff.2 ⟨key, next, accepted, sealed, middle, closed, mixed, tag, last, shared,
    made, rfl, rfl⟩⟩

theorem AwaitingActTwo.actThree_of_refused {i : AwaitingActTwo} {actTwo : Octets 50} {error : Error}
    (refused : accept i.transcript i.ephemeral actTwo = .error error) :
    i.actThree actTwo = .error error := by
  simp [actThree, refused, bind, Except.bind]

theorem AwaitingActTwo.actThree_error_iff {i : AwaitingActTwo} {actTwo : Octets 50} {error : Error} :
    i.actThree actTwo = .error error ↔ accept i.transcript i.ephemeral actTwo = .error error := by
  refine ⟨fun refused => ?_, actThree_of_refused⟩
  cases answer : accept i.transcript i.ephemeral actTwo with
  | ok value =>
    have brings := accept_ok_iff_brings.1 ⟨value.2, answer⟩
    obtain ⟨actThree, session, done⟩ := actThree_of_accept answer brings.valid
    rw [refused] at done
    cases done
  | error cause =>
    rw [actThree_of_refused answer] at refused
    cases refused
    rfl

theorem AwaitingActTwo.judges (i : AwaitingActTwo) :
    Judges i.transcript i.ephemeral i.actThree := by
  refine judges_of_accept (fun act key next accepted valid => ?_) fun act error refused => ?_
  · obtain ⟨actThree, session, answered⟩ := actThree_of_accept accepted valid
    exact ⟨_, answered⟩
  · exact actThree_of_refused refused

namespace Handshake

/-- Of all acts with the bytes of a fresh key, the one that is judged well is the one that was offered. -/
theorem Judges.only_offered {t next : Transcript} {mine fresh : PrivateKey} {made : Octets 50}
    {judge : Octets 50 → Except Error β} (judges : Judges t mine judge)
    (offered : offer t fresh mine.publicKey = .ok (made, next)) (act : Octets 50) :
    (∃ result, judge act = .ok result) ∧ (act.bytes.drop 1).take 33 = fresh.publicKey.bytes ↔
      act = made := by
  have brings : Brings t mine fresh.publicKey made := brings_publicKey_iff.2 ⟨next, offered⟩
  rw [judges.accepts]
  constructor
  · rintro ⟨⟨other, also⟩, written⟩
    cases PublicKey.bytes_injective also.valid (also.written.symm.trans written) brings.valid
    exact also.unique brings
  · rintro rfl
    exact ⟨⟨_, brings⟩, brings.written⟩

/-- Acts one and two are taken exactly as they are made. A responder takes the one act for each key that
brings it, and so does an initiator that waits for act two, whatever its transcript is. With a fresh key
this is the act that an initiator makes of it for the responder, and the one with which the responder that
took that act answers. -/
theorem fresh_acts_canonical (initiator responder fresh : PrivateKey) :
    Judges (opening responder.publicKey) responder (Responder.start responder).receiveActOne ∧
    (∀ awaiting : AwaitingActTwo, Judges awaiting.transcript awaiting.ephemeral awaiting.actThree) ∧
    ∃ actOne awaiting received,
      (Initiator.start initiator responder.publicKey).actOne fresh = .ok (actOne, awaiting) ∧
      (∀ act, (∃ result, (Responder.start responder).receiveActOne act = .ok result) ∧
        (act.bytes.drop 1).take 33 = fresh.publicKey.bytes ↔ act = actOne) ∧
      (Responder.start responder).receiveActOne actOne = .ok received ∧
      ∀ answer : PrivateKey, ∃ actTwo next, received.actTwo answer = .ok (actTwo, next) ∧
        ∀ act, (∃ result, awaiting.actThree act = .ok result) ∧
          (act.bytes.drop 1).take 33 = answer.publicKey.bytes ↔ act = actTwo := by
  obtain ⟨actOne, before, offered, taken⟩ :=
    accept_offer (opening responder.publicKey) fresh responder
  refine ⟨Responder.judges responder, AwaitingActTwo.judges, actOne,
    ⟨initiator, responder.publicKey, fresh, before⟩, ⟨fresh.publicKey, before⟩,
    Initiator.actOne_ok_iff.2 ⟨before, offered, rfl⟩, (Responder.judges responder).only_offered offered,
    Responder.receiveActOne_ok_iff.2 taken, fun answer => ?_⟩
  obtain ⟨actTwo, after, returned, -⟩ := accept_offer before answer fresh
  exact ⟨actTwo, ⟨answer, after⟩, ReceivedActOne.actTwo_ok_iff.2 ⟨after, returned, rfl⟩,
    (AwaitingActTwo.judges ⟨initiator, responder.publicKey, fresh, before⟩).only_offered returned⟩

end Handshake
end NoiseLink
