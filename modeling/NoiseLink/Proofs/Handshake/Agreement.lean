import NoiseLink.Proofs.Cipher.Units
import NoiseLink.Proofs.Handshake.Steps

/-! Two parties whose acts reach each other unchanged both finish the handshake. Each then knows the
static key of the other, and the cipher that one of them sends under is the one that the other
receives under. -/
namespace NoiseLink.Handshake

/-- A whole handshake in which every act arrives as it was sent, and what either party is left
with, the initiator first. -/
def complete (initiator responder fresh answer : PrivateKey) :
    Except Error (Session × Session) := do
  let (actOne, awaitingActTwo) ← (Initiator.start initiator responder.publicKey).actOne fresh
  let received ← (Responder.start responder).receiveActOne actOne
  let (actTwo, awaitingActThree) ← received.actTwo answer
  let (actThree, ours) ← awaitingActTwo.actThree actTwo
  let theirs ← awaitingActThree.receiveActThree actThree
  return (ours, theirs)

/-- The first two acts leave both parties with the same transcript and the fresh key of the
other. -/
theorem first_acts (initiator responder fresh answer : PrivateKey) :
    ∃ actOne actTwo before t,
      (Initiator.start initiator responder.publicKey).actOne fresh =
        .ok (actOne, ⟨initiator, responder.publicKey, fresh, before⟩) ∧
      (Responder.start responder).receiveActOne actOne = .ok ⟨fresh.publicKey, before⟩ ∧
      ReceivedActOne.actTwo ⟨fresh.publicKey, before⟩ answer = .ok (actTwo, ⟨answer, t⟩) ∧
      accept before fresh actTwo = .ok (answer.publicKey, t) := by
  obtain ⟨actOne, before, offered, taken⟩ := accept_offer (opening responder.publicKey) fresh responder
  obtain ⟨actTwo, t, returned, accepted⟩ := accept_offer before answer fresh
  refine ⟨actOne, actTwo, before, t, ?_, ?_, ?_, accepted⟩
  · simp only [Initiator.actOne, Initiator.start, offered, bind, Except.bind, pure, Except.pure]
  · simp only [Responder.receiveActOne, Responder.start, taken, bind, Except.bind, pure, Except.pure]
  · simp only [ReceivedActOne.actTwo, returned, bind, Except.bind, pure, Except.pure]

/-- The third act shows the responder who the initiator is, and the two ciphers that follow it are
the same for both, the other way round. -/
theorem last_act (initiator fresh answer : PrivateKey) (responder : PublicKey)
    {before t : Transcript} {actTwo : Octets 50}
    (accepted : accept before fresh actTwo = .ok (answer.publicKey, t)) :
    ∃ actThree, ∃ last : Transcript,
      AwaitingActTwo.actThree ⟨initiator, responder, fresh, before⟩ actTwo =
        .ok (actThree, ⟨responder, last.split.1, last.split.2⟩) ∧
      AwaitingActThree.receiveActThree ⟨answer, t⟩ actThree =
        .ok ⟨initiator.publicKey, last.split.2, last.split.1⟩ := by
  obtain ⟨sealed, middle, closed⟩ :=
    @Transcript.encrypt_of_length 33 t initiator.publicKey.encode (by decide)
  obtain ⟨mixed, ours, other⟩ := mixShared_publicKey middle initiator answer
  obtain ⟨tag, last, made⟩ := sealTag_ok mixed
  refine ⟨versionOctet ++ sealed ++ tag, last, ?_, ?_⟩
  · exact AwaitingActTwo.actThree_ok_iff.2 ⟨answer.publicKey, t, accepted, sealed, middle, closed,
      mixed, tag, last, ours, made, rfl, rfl⟩
  · refine AwaitingActThree.receiveActThree_ok_iff.2 ⟨rfl, initiator.publicKey.encode, middle, ?_,
      initiator.publicKey, initiator.ofBytes_publicKey, mixed, last, other, ?_, rfl⟩
    · rw [closed, Octets.window_append_middle]
    · rw [made, Octets.window_append_last]

/-- Whatever the keys are, the handshake succeeds, and afterwards whatever one party seals opens to
the same text on the other. -/
theorem agreement (initiator responder fresh answer : PrivateKey) : ∃ ours theirs,
    complete initiator responder fresh answer = .ok (ours, theirs) ∧
    ours.remoteStatic = responder.publicKey ∧ theirs.remoteStatic = initiator.publicKey ∧
    ours.outgoing = theirs.incoming ∧ ours.incoming = theirs.outgoing ∧
    ours.outgoing.nonce = 0 ∧ ours.outgoing.generation = 0 ∧
    ours.incoming.nonce = 0 ∧ ours.incoming.generation = 0 ∧
    ∀ texts, (∀ text ∈ texts, text.length < Aead.textLimit) →
      ours.outgoing.Carries theirs.incoming texts ∧
      theirs.outgoing.Carries ours.incoming texts := by
  obtain ⟨actOne, actTwo, before, t, offered, taken, returned, accepted⟩ :=
    first_acts initiator responder fresh answer
  obtain ⟨actThree, last, finished, met⟩ :=
    last_act initiator fresh answer responder.publicKey accepted
  refine ⟨⟨responder.publicKey, last.split.1, last.split.2⟩,
    ⟨initiator.publicKey, last.split.2, last.split.1⟩, ?_, rfl, rfl, rfl, rfl, rfl, rfl, rfl, rfl,
    fun texts inLimit => ⟨?_, ?_⟩⟩
  · simp only [complete, offered, taken, returned, finished, met, bind, Except.bind, pure,
      Except.pure]
  · exact CipherState.carries_self _ inLimit
  · exact CipherState.carries_self _ inLimit

/-- Four small keys, and one word each way. -/
theorem agreement_of_small_keys : ∃ ours theirs,
    complete ⟨1, by decide, by decide⟩ ⟨2, by decide, by decide⟩ ⟨3, by decide, by decide⟩
      ⟨3, by decide, by decide⟩ = .ok (ours, theirs) ∧
    ours.outgoing.Carries theirs.incoming [[104, 105]] ∧
    theirs.outgoing.Carries ours.incoming [[104, 105]] := by
  obtain ⟨ours, theirs, met, -, -, -, -, -, -, -, -, carried⟩ :=
    agreement ⟨1, by decide, by decide⟩ ⟨2, by decide, by decide⟩ ⟨3, by decide, by decide⟩
      ⟨3, by decide, by decide⟩
  have inLimit : ∀ text ∈ [([104, 105] : Bytes)], text.length < Aead.textLimit := by decide
  obtain ⟨there, back⟩ := carried [[104, 105]] inLimit
  exact ⟨ours, theirs, met, there, back⟩

end NoiseLink.Handshake
