import NoiseLink.Proofs.Cipher.Schedule

/-! Texts that are too long to be sealed. A refused text is counted like any other, but a change of key
that is due by then is left out. That makes a difference under the last nonce of a key only, and there it
is the one way off the schedule: the count has passed the interval, and from then on no operation changes
the key. -/
namespace NoiseLink.CipherState

theorem perform_refused (c : CipherState) {text : Bytes} (long : Aead.textLimit ≤ text.length) :
    c.perform (.encrypt text) = (.error .encryptionFailed, c.count) := by
  simp [perform, encrypt, Aead.encrypt?, Nat.not_lt.2 long]

theorem refused_of_not_inLimit {operation : Operation} (refused : ¬operation.InLimit) :
    ∃ text, operation = .encrypt text ∧ Aead.textLimit ≤ text.length := by
  cases operation with
  | encrypt text => exact ⟨text, rfl, Nat.le_of_not_lt refused⟩
  | decrypt unit => exact absurd trivial refused

/-- Where no key is due, a refused text moves the cipher on as any other. -/
theorem perform_regular (c : CipherState) {operation : Operation}
    (regular : operation.InLimit ∨ c.nonce ≠ 999) :
    (c.perform operation).2 = c.count.rotateWhenDue := by
  by_cases inLimit : operation.InLimit
  · exact c.perform_next inLimit
  · obtain ⟨text, rfl, long⟩ := refused_of_not_inLimit inLimit
    have early : c.nonce ≠ 999 := regular.resolve_left inLimit
    have same : c.count.rotateWhenDue = c.count :=
      if_neg fun due => early (Nat.succ.inj due)
    rw [c.perform_refused long, same]

theorem perform_past (c : CipherState) (past : rekeyInterval ≤ c.nonce) (operation : Operation) :
    (c.perform operation).2 = c.count := by
  by_cases inLimit : operation.InLimit
  · rw [c.perform_next inLimit]
    exact if_neg fun due => absurd (Nat.le_of_eq due) (Nat.not_le_of_gt (Nat.lt_succ_of_le past))
  · obtain ⟨text, rfl, long⟩ := refused_of_not_inLimit inLimit
    rw [c.perform_refused long]

theorem nonce_lt_advance {c : CipherState} (inRange : c.nonce < rekeyInterval) :
    c.count.rotateWhenDue.nonce < rekeyInterval := by
  rcases c.advance_cases with ⟨-, changed⟩ | ⟨early, changed⟩
  · rw [changed]
    exact Nat.zero_lt_succ 999
  · rw [changed]
    exact Nat.lt_of_le_of_ne inRange early

theorem serve_append (c : CipherState) (first second : List Request) :
    serve (first ++ second) c =
      ((serve first c).1 ++ (serve second (serve first c).2).1, (serve second (serve first c).2).2) := by
  induction first generalizing c with
  | nil => rfl
  | cons request first ih =>
    cases request with
    | rotate => exact ih c.rotate
    | perform operation =>
      simp only [List.cons_append, serve]
      rw [ih]

/-- No text that is too long comes under the last nonce of a key. -/
def Regular (c : CipherState) (requests : List Request) : Prop :=
  ∀ before operation after, requests = before ++ .perform operation :: after →
    operation.InLimit ∨ (serve before c).2.nonce ≠ 999

theorem Regular.tail {c : CipherState} {request : Request} {requests : List Request}
    (regular : c.Regular (request :: requests)) : (serve [request] c).2.Regular requests := by
  rintro before operation after rfl
  have later := regular (request :: before) operation after rfl
  rwa [← List.singleton_append, serve_append] at later

theorem Regular.of_append {c : CipherState} {before after : List Request}
    (regular : c.Regular (before ++ after)) : c.Regular before := by
  rintro first operation second rfl
  exact regular first operation (second ++ after) (by simp)

theorem Regular.inRange {c : CipherState} (inRange : c.nonce < rekeyInterval)
    {requests : List Request} (regular : c.Regular requests) :
    (serve requests c).2.nonce < rekeyInterval := by
  induction requests generalizing c with
  | nil => exact inRange
  | cons request requests ih =>
    rw [← List.singleton_append, serve_append]
    refine ih ?_ regular.tail
    cases request with
    | rotate => exact Nat.zero_lt_succ 999
    | perform operation =>
      change (c.perform operation).2.nonce < rekeyInterval
      rw [c.perform_regular (regular [] operation requests rfl)]
      exact nonce_lt_advance inRange

/-- From a nonce on, no more operations are made under a key than are left of the interval. -/
theorem Regular.countP_le {c : CipherState} (inRange : c.nonce < rekeyInterval)
    {requests : List Request} (regular : c.Regular requests) (generation : Nat) :
    (generation < c.generation → (serve requests c).1.countP (·.generation = generation) = 0) ∧
    (generation = c.generation →
      (serve requests c).1.countP (·.generation = generation) + c.nonce ≤ rekeyInterval) ∧
    (serve requests c).1.countP (·.generation = generation) ≤ rekeyInterval := by
  induction requests generalizing c with
  | nil => exact ⟨fun _ => rfl, fun _ => by simpa [serve] using inRange.le, Nat.zero_le _⟩
  | cons request requests ih =>
    cases request with
    | rotate =>
      obtain ⟨before, under, all⟩ := ih (c := c.rotate) (Nat.zero_lt_succ 999) regular.tail
      have next : c.rotate.generation = c.generation + 1 := rfl
      refine ⟨fun earlier => before (by omega), fun same => ?_, all⟩
      rw [serve, before (by omega), Nat.zero_add]
      exact inRange.le
    | perform operation =>
      have moved := c.perform_regular (regular [] operation requests rfl)
      have rest : (c.perform operation).2.Regular requests := regular.tail
      have inner := ih (moved ▸ nonce_lt_advance inRange) rest
      rw [serve]
      simp only [List.countP_cons, decide_eq_true_eq]
      generalize List.countP _ _ = served at inner ⊢
      rw [moved] at inner
      rcases c.advance_cases with ⟨due, changed⟩ | ⟨early, changed⟩
      · rw [changed] at inner
        simp only [CipherState.rotate, CipherState.count, rekeyInterval] at inner due ⊢
        split <;> omega
      · rw [changed] at inner
        simp only [CipherState.count, rekeyInterval] at inner early inRange ⊢
        split <;> omega

theorem serve_past (c : CipherState) (past : rekeyInterval ≤ c.nonce) (operations : List Operation) :
    (serve (operations.map .perform) c).2 = { c with nonce := c.nonce + operations.length } := by
  induction operations generalizing c with
  | nil => rfl
  | cons operation operations ih =>
    change (serve (operations.map .perform) (c.perform operation).2).2 = _
    rw [c.perform_past past, ih c.count (Nat.le_succ_of_le past)]
    simp only [count, List.length_cons]
    congr 1
    omega

/-- A refusal under the last nonce of a key leaves the cipher past the interval, and from there no
operation leads back. -/
theorem serve_refused_last {c : CipherState} {before : List Request}
    (last : (serve before c).2.nonce = 999) {text : Bytes} (long : Aead.textLimit ≤ text.length)
    (operations : List Operation) :
    (serve (before ++ .perform (.encrypt text) :: operations.map .perform) c).2 =
      { (serve before c).2 with nonce := 1000 + operations.length } := by
  have refused := congrArg Prod.snd ((serve before c).2.perform_refused long)
  have past : rekeyInterval ≤ (serve before c).2.count.nonce := by simp [count, last, rekeyInterval]
  rw [serve_append]
  change (serve (operations.map .perform) ((serve before c).2.perform (.encrypt text)).2).2 = _
  rw [refused, serve_past _ past, count, last]

/-- A cipher is on schedule after every call exactly as long as no text that is too long comes under the
last nonce of a key, and no key serves more than a thousand operations then. After such a text the nonce
is the interval itself, and any number of further operations is made under the same key. -/
theorem nonce_in_range_iff (key chainingKey : Octets 32) (requests : List Request) :
    let c := start key chainingKey
    ((∀ before, before <+: requests → (serve before c).2.nonce < 1000) ↔ c.Regular requests) ∧
    (c.Regular requests →
      ∀ generation, (serve requests c).1.countP (·.generation = generation) ≤ 1000) ∧
    ∀ (before : List Request) (text : Bytes) (operations : List Operation),
      (serve before c).2.nonce = 999 → Aead.textLimit ≤ text.length →
      (serve (before ++ .perform (.encrypt text) :: operations.map .perform) c).2 =
        { (serve before c).2 with nonce := 1000 + operations.length } := by
  intro c
  have inRange : c.nonce < rekeyInterval := Nat.zero_lt_succ 999
  refine ⟨⟨fun kept before operation after split => ?_, ?_⟩, ?_, ?_⟩
  · by_contra irregular
    obtain ⟨refused, last⟩ := not_or.1 irregular
    obtain ⟨text, rfl, long⟩ := refused_of_not_inLimit refused
    have bounded := kept (before ++ [.perform (.encrypt text)]) ⟨after, by simp [split]⟩
    have left := serve_refused_last (not_not.1 last) long []
    rw [List.map_nil] at left
    rw [left] at bounded
    exact absurd bounded (Nat.lt_irrefl 1000)
  · rintro regular before ⟨after, rfl⟩
    exact regular.of_append.inRange inRange
  · intro regular generation
    exact (regular.countP_le inRange generation).2.2
  · intro before text operations last long
    exact serve_refused_last last long operations

/-- Units that do not open use up the nonces of a key like any others. -/
theorem serve_stray_units (key chainingKey : Octets 32) (amount : Nat) :
    let last := (serve (.replicate amount (.perform (.decrypt []))) (start key chainingKey)).2
    last.nonce = amount % rekeyInterval ∧ last.generation = amount / rekeyInterval := by
  have inLimit operation
      (member : Request.perform operation ∈ List.replicate amount (.perform (.decrypt []))) :
      operation.InLimit := by
    cases List.eq_of_mem_replicate member
    trivial
  have accounted := (scheduled_start key chainingKey).accounted inLimit
  have total := (accounted.counted fun member => nomatch List.eq_of_mem_replicate member).1
  have origin : (start key chainingKey).position = 0 := rfl
  rw [List.length_replicate, origin, Nat.zero_add] at total
  obtain ⟨generation, nonce⟩ := accounted.scheduled.eq_of_position
  rw [total] at generation nonce
  exact ⟨nonce, generation⟩

/-- After 999 units that do not open, a text of 2 ^ 38 - 64 bytes is refused, and the key stays. -/
theorem refusal_under_last_nonce :
    ∃ text : Bytes, text.length = Aead.textLimit ∧
      let requests := .replicate 999 (.perform (.decrypt [])) ++ [.perform (.encrypt text)]
      let served := serve requests (start (.zero 32) (.zero 32))
      served.1.getLast?.map Use.answer = some (.error .encryptionFailed) ∧
        ¬served.2.nonce < 1000 ∧ served.2.generation = 0 := by
  refine ⟨.replicate Aead.textLimit 0, List.length_replicate, ?_⟩
  have long : Aead.textLimit ≤ (List.replicate Aead.textLimit (0 : UInt8)).length := by
    rw [List.length_replicate]
  generalize List.replicate Aead.textLimit (0 : UInt8) = text at long
  obtain ⟨nonce, generation⟩ := serve_stray_units (.zero 32) (.zero 32) 999
  generalize List.replicate 999 (Request.perform (.decrypt [])) = before at generation nonce
  have left := serve_refused_last nonce long []
  rw [List.map_nil] at left
  dsimp only
  refine ⟨?_, ?_, ?_⟩
  · rw [serve_append, serve, perform_refused _ long]
    simp [serve]
  · rw [left]
    exact Nat.lt_irrefl 1000
  · rw [left]
    exact generation

end NoiseLink.CipherState
