import NoiseLink.Proofs.Handshake.Offers
import NoiseLink.Proofs.Stream.Wires

/-! Two transcripts that start alike. Whatever both parties mix in and whatever one of them seals for the
other to open, either way and in any order, every text arrives and the transcripts stay alike, so that the
ciphers split from them are alike as well. -/
namespace NoiseLink.Transcript

/-- What two parties do with their transcripts: both take the same bytes or the same secret, or one of
them seals a text and the other opens the sealing. -/
inductive Move where
  | mixHash (data : Bytes)
  | mixKey (material : Bytes)
  | carry (sender : Role) (text : Bytes)

namespace Move

def text? : Move → Option Bytes
  | carry _ text => some text
  | _ => none

def isMixKey : Move → Bool
  | mixKey _ => true
  | _ => false

def InLimit (move : Move) : Prop := ∀ text, move.text? = some text → text.length < Aead.textLimit

/-- Makes a move, with what comes of the text for the party that opens it. What cannot be sealed is not
handed over. -/
def make (move : Move) (s : Role → Transcript) : Option (Except Error Bytes) × (Role → Transcript) :=
  match move with
  | mixHash data => (none, fun role => (s role).mixHash data)
  | mixKey material => (none, fun role => (s role).mixKey material)
  | carry sender text =>
    match (s sender).sealText text with
    | (.error error, t) => (some (.error error), Function.update s sender t)
    | (.ok sealed, t) =>
      let opened := (s sender.other).openText sealed
      (some opened.1, Function.update (Function.update s sender t) sender.other opened.2)

def next (move : Move) (t : Transcript) : Transcript :=
  match move with
  | mixHash data => t.mixHash data
  | mixKey material => t.mixKey material
  | carry _ text => (t.sealText text).2

end Move

def run : List Move → (Role → Transcript) → List (Except Error Bytes) × (Role → Transcript)
  | [], s => ([], s)
  | move :: moves, s =>
    let made := move.make s
    let rest := run moves made.2
    (made.1.toList ++ rest.1, rest.2)

def onward (t : Transcript) (moves : List Move) : Transcript := moves.foldl (fun t move => move.next t) t

theorem sealText_ok_of_length_iff {t : Transcript} {text : Bytes} :
    (∃ sealed next, t.sealText text = (.ok sealed, next)) ↔ text.length < Aead.textLimit := by
  constructor
  · rintro ⟨sealed, next, closed⟩
    have fits := (sealText_ok_iff.1 closed).1
    rw [Aead.encrypt?] at fits
    by_contra long
    rw [if_neg long] at fits
    cases fits
  · exact t.sealText_of_length

/-- A text is counted whether or not it can be sealed. -/
theorem nonce_sealText (t : Transcript) (text : Bytes) : (t.sealText text).2.nonce = t.nonce + 1 := by
  rw [sealText]
  split <;> rfl

theorem update_both (t next : Transcript) (sender : Role) :
    Function.update (Function.update (fun _ => t) sender next) sender.other next = fun _ => next := by
  funext role
  cases sender <;> cases role <;> rfl

theorem Move.make_of_alike {move : Move} (inLimit : move.InLimit) (t : Transcript) :
    move.make (fun _ => t) = (move.text?.map .ok, fun _ => move.next t) := by
  cases move with
  | mixHash data => rfl
  | mixKey material => rfl
  | carry sender text =>
    obtain ⟨sealed, after, closed⟩ := t.sealText_of_length (inLimit text rfl)
    have opened := openText_ok_iff.2 closed
    simp only [make, next, closed, opened, update_both]
    rfl

theorem Move.nonce_next (move : Move) (t : Transcript) : (move.next t).nonce =
    if move.isMixKey then 0 else t.nonce + (move.text?.toList).length := by
  cases move with
  | mixHash data => rfl
  | mixKey material => rfl
  | carry sender text => exact t.nonce_sealText text

theorem run_of_alike {moves : List Move} (inLimit : ∀ move ∈ moves, move.InLimit) (t : Transcript) :
    run moves (fun _ => t) = ((moves.filterMap Move.text?).map .ok, fun _ => t.onward moves) := by
  induction moves generalizing t with
  | nil => rfl
  | cons move moves ih =>
    have made := Move.make_of_alike (inLimit move List.mem_cons_self) t
    have rest := ih (fun other member => inLimit other (List.mem_cons_of_mem _ member)) (move.next t)
    rw [run, made, rest, List.filterMap_cons]
    cases move.text? with
    | none => rfl
    | some text => rfl

theorem nonce_onward {moves : List Move} (same : ∀ move ∈ moves, move.isMixKey = false) (t : Transcript) :
    (t.onward moves).nonce = t.nonce + (moves.filterMap Move.text?).length := by
  induction moves generalizing t with
  | nil => rfl
  | cons move moves ih =>
    have rest := ih (fun other member => same other (List.mem_cons_of_mem _ member)) (move.next t)
    rw [move.nonce_next, same move List.mem_cons_self, if_neg Bool.false_ne_true] at rest
    rw [onward, List.foldl_cons, ← onward, rest, List.filterMap_cons]
    cases move.text? with
    | none => rfl
    | some text =>
      simp only [Option.toList_some, List.length_cons, List.length_nil]
      omega

theorem onward_append (t : Transcript) (first second : List Move) :
    t.onward (first ++ second) = (t.onward first).onward second :=
  List.foldl_append

/-- The nonce of a transcript is the number of texts since the last change of key. -/
theorem nonce_onward_mixKey (t : Transcript) (before : List Move) (material : Bytes) {after : List Move}
    (same : ∀ move ∈ after, move.isMixKey = false) :
    (t.onward (before ++ .mixKey material :: after)).nonce = (after.filterMap Move.text?).length := by
  rw [onward_append, onward, List.foldl_cons, ← onward, nonce_onward same]
  exact Nat.zero_add _

/-- Two transcripts that are alike stay so through any moves, each text opens to itself, and after each
move their ciphers would be alike and the nonce is the number of texts since the last change of key. Bytes
that are the sealing of no text under the key, the nonce and the hash of a transcript fail to open, cost
it one nonce and change nothing else; a text has a sealing exactly if it is within the limit. -/
theorem stay_in_step (t : Transcript) {moves : List Move} (inLimit : ∀ move ∈ moves, move.InLimit) :
    (run moves fun _ => t).1 = (moves.filterMap Move.text?).map .ok ∧
    (∀ made, made <+: moves →
      let s := (run made fun _ => t).2
      s .dialer = s .listener ∧ (s .dialer).split = (s .listener).split ∧
      (∀ role, (∀ move ∈ made, move.isMixKey = false) →
        (s role).nonce = t.nonce + (made.filterMap Move.text?).length) ∧
      ∀ role before material after, made = before ++ .mixKey material :: after →
        (∀ move ∈ after, move.isMixKey = false) →
        (s role).nonce = (after.filterMap Move.text?).length) ∧
    (∀ (u : Transcript) (sealed : Bytes),
      (∀ text, Aead.encrypt? u.temporaryKey (nonceBytes u.nonce) u.hash.bytes text ≠ some sealed) →
      u.openText sealed = (.error .handshakeAuthentication, { u with nonce := u.nonce + 1 })) ∧
    ∀ (u : Transcript) (text : Bytes),
      (∃ sealed next, u.sealText text = (.ok sealed, next)) ↔ text.length < Aead.textLimit := by
  refine ⟨by rw [run_of_alike inLimit], ?_, ?_, fun u text => sealText_ok_of_length_iff⟩
  · rintro made ⟨rest, rfl⟩
    rw [run_of_alike fun move member => inLimit move (List.mem_append_left _ member)]
    refine ⟨rfl, rfl, fun role same => nonce_onward same t, ?_⟩
    rintro role before material after rfl same
    exact nonce_onward_mixKey t before material same
  · intro u sealed foreign
    refine openText_error_iff.2 ⟨rfl, rfl, ?_⟩
    cases opened : Aead.decrypt? u.temporaryKey (nonceBytes u.nonce) u.hash.bytes sealed with
    | none => rfl
    | some text => exact absurd (Aead.decrypt?_eq_some_iff.1 opened) (foreign text)

/-- Behind a common secret one text goes each way. -/
theorem stay_in_step_of_two_texts :
    let moves : List Move := [.mixHash [1], .mixKey [2], .carry .dialer [3], .carry .listener []]
    let ended := run moves fun _ => start [] []
    (∀ move ∈ moves, move.InLimit) ∧ ended.1 = [.ok [3], .ok []] ∧
      ended.2 .dialer = ended.2 .listener ∧ (ended.2 .listener).nonce = 2 := by
  intro moves ended
  have inLimit : ∀ move ∈ moves, move.InLimit := by
    simp [moves, Move.InLimit, Move.text?, Aead.textLimit]
  obtain ⟨answers, kept, -⟩ := stay_in_step (start [] []) inLimit
  obtain ⟨alike, -, -, counted⟩ := kept moves List.prefix_rfl
  refine ⟨inLimit, answers, alike, ?_⟩
  exact counted .listener [.mixHash [1]] [2] [.carry .dialer [3], .carry .listener []] rfl (by decide)

end NoiseLink.Transcript
