import NoiseLink.Proofs.Cipher.Frames

/-! Two equal ciphers, one that seals texts one after the other and one that opens what the first
has sealed, stay equal over any number of texts and changes of key. They do so even where what is
opened is not what was sealed: a unit is opened by its place among the units, and one that is refused
takes its place as well. -/
namespace NoiseLink.CipherState

def inTurn (operation : CipherState → Bytes → Except Error Bytes × CipherState) :
    CipherState → List Bytes → List (Except Error Bytes) × CipherState
  | c, [] => ([], c)
  | c, text :: texts =>
    let (answer, next) := operation c text
    let (answers, last) := inTurn operation next texts
    (answer :: answers, last)

theorem inTurn_cons {operation : CipherState → Bytes → Except Error Bytes × CipherState}
    {c next last : CipherState} {text : Bytes} {texts : List Bytes} {answer : Except Error Bytes}
    {answers : List (Except Error Bytes)} (first : operation c text = (answer, next))
    (rest : inTurn operation next texts = (answers, last)) :
    inTurn operation c (text :: texts) = (answer :: answers, last) := by
  simp only [inTurn, first, rest]

/-- Every one of the texts is sealed by one cipher, and what it is sealed to opens to it on the
other. -/
def Carries (sender receiver : CipherState) (texts : List Bytes) : Prop :=
  ∃ units last, inTurn encrypt sender texts = (units.map .ok, last) ∧
    inTurn decrypt receiver units = (texts.map .ok, last)

theorem carries_self (c : CipherState) {texts : List Bytes}
    (inLimit : ∀ text ∈ texts, text.length < Aead.textLimit) : Carries c c texts := by
  induction texts generalizing c with
  | nil => exact ⟨[], c, rfl, rfl⟩
  | cons text texts ih =>
    obtain ⟨unit, closed⟩ := c.encrypt_of_length (inLimit text List.mem_cons_self)
    obtain ⟨units, last, rest, back⟩ :=
      ih c.count.rotateWhenDue (fun other member => inLimit other (List.mem_cons_of_mem _ member))
    exact ⟨unit :: units, last, inTurn_cons closed rest,
      inTurn_cons (decrypt_ok_iff.2 closed) back⟩

/-- Given the units of a sender or anything in their place, a receiver with the same cipher opens the
genuine ones, each where it stands, and no other unit to the text of its place. The two ciphers are
equal after it, whatever was refused and whichever keys were changed on the way. -/
theorem opens_in_place (c : CipherState) {texts units : List Bytes}
    (inLimit : ∀ text ∈ texts, text.length < Aead.textLimit) (matched : units.length = texts.length) :
    ∃ (genuine : List Bytes) (answers : List (Except Error Bytes)) (last : CipherState),
      inTurn encrypt c texts = (genuine.map .ok, last) ∧ inTurn decrypt c units = (answers, last) ∧
      genuine.length = texts.length ∧ answers.length = texts.length ∧
      ∀ i < texts.length, units[i]? = genuine[i]? ↔ answers[i]? = texts[i]?.map .ok := by
  induction texts generalizing c units with
  | nil =>
    rw [List.length_eq_zero_iff.1 matched]
    exact ⟨[], [], c, rfl, rfl, rfl, rfl, nofun⟩
  | cons text texts ih =>
    obtain ⟨unit, units, rfl⟩ := List.exists_cons_of_length_eq_add_one matched
    obtain ⟨fits, others⟩ := List.forall_mem_cons.1 inLimit
    obtain ⟨first, closed⟩ := c.encrypt_of_length fits
    -- opening moves the cipher on as sealing did, so the rest starts from equal ciphers again
    have opened : c.decrypt unit = ((c.decrypt unit).1, c.count.rotateWhenDue) :=
      Prod.ext rfl (c.decrypt_snd unit)
    obtain ⟨genuine, answers, last, rest, back, sizes, answered, places⟩ :=
      ih c.count.rotateWhenDue others (Nat.succ.inj matched)
    refine ⟨first :: genuine, _ :: answers, last, inTurn_cons closed rest, inTurn_cons opened back,
      congrArg Nat.succ sizes, congrArg Nat.succ answered, fun i inside => ?_⟩
    cases i with
    | zero =>
      simp only [List.getElem?_cons_zero, Option.some.injEq, Option.map_some]
      constructor
      · rintro rfl
        rw [decrypt_ok_iff.2 closed]
      · intro answer
        rw [answer, decrypt_ok_iff, closed] at opened
        cases opened
        rfl
    | succ i => exact places i (Nat.lt_of_succ_lt_succ inside)

/-- A stray byte comes under the last nonce of a key, and the unit behind it opens under the next key. -/
theorem opens_in_place_after_stray_byte :
    let c : CipherState := ⟨.zero 32, .zero 32, 999, 0⟩
    ∃ second answers last,
      (inTurn encrypt c [[104], [105]]).1[1]? = some (.ok second) ∧
      (inTurn encrypt c [[104], [105]]).2 = last ∧
      (∀ text ∈ [([104] : Bytes), [105]], text.length < Aead.textLimit) ∧
      [([7] : Bytes), second].length = [([104] : Bytes), [105]].length ∧
      inTurn decrypt c [[7], second] = (answers, last) ∧ answers[1]? = some (.ok [105]) := by
  intro c
  have inLimit : ∀ text ∈ [([104] : Bytes), [105]], text.length < Aead.textLimit := by decide
  obtain ⟨second, closed⟩ := c.count.rotateWhenDue.encrypt_of_length (inLimit [105] (by simp))
  obtain ⟨first, before⟩ := c.encrypt_of_length (inLimit [104] (by simp))
  have matched : [([7] : Bytes), second].length = [([104] : Bytes), [105]].length := rfl
  obtain ⟨genuine, answers, last, sent, opened, -, -, places⟩ := opens_in_place c inLimit matched
  have there : (inTurn encrypt c [[104], [105]]).1[1]? = some (.ok second) := by
    simp [inTurn, before, closed]
  refine ⟨second, answers, last, there, by rw [sent], inLimit, matched, opened, ?_⟩
  rw [sent] at there
  have same : genuine[1]? = some second := by simpa using there
  exact (places 1 (by decide)).1 same.symm

end NoiseLink.CipherState
