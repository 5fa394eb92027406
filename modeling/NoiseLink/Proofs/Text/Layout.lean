import NoiseLink.Proofs.Text.Hexadecimal

/-! Hexadecimal text as people write it down, with blanks anywhere and one marker in front. Only what is
left without the blanks counts, and the marker is the one place for a letter that is no digit. -/
namespace NoiseLink.Hex

theorem digit_or_plus_of_decode? {text : String} {bytes : Bytes} (read : decode? text = some bytes) :
    ∀ c ∈ text.toList, c.toLower ∈ digits ∨ c = '+' := by
  intro c member
  have ascii := ascii_of_decode? read c member
  have code : (UInt8.ofNat c.toNat).toNat = c.toNat := by
    rw [UInt8.toNat_ofNat', Nat.mod_eq_of_lt (by omega)]
  have there : UInt8.ofNat c.toNat ∈ Bytes.ofText text := by
    rw [Bytes.ofText_eq]
    refine List.mem_flatMap.2 ⟨c, member, ?_⟩
    rw [Bytes.utf8EncodeChar_of_ascii ascii]
    exact List.mem_singleton.2 rfl
  rcases (decode?_eq_some_iff.1 read).digit_or_plus _ there with ⟨value, known⟩ | plus
  · left
    rw [IsDigit, code, Char.ofNat_toNat] at known
    exact List.mem_of_getElem? known
  · right
    rw [← Char.ofNat_toNat c, ← code, plus]
    rfl

/-- A text with layout put among its characters. -/
inductive LaidOut : List Char → List Char → Prop where
  | nil : LaidOut [] []
  | blank {c : Char} {chars text : List Char} : isLayout c → LaidOut chars text → LaidOut chars (c :: text)
  | char {c : Char} {chars text : List Char} : LaidOut chars text → LaidOut (c :: chars) (c :: text)

theorem LaidOut.filter {chars text : List Char} (laid : LaidOut chars text)
    (plain : ∀ c ∈ chars, isLayout c = false) : text.filter (fun c => !isLayout c) = chars := by
  induction laid with
  | nil => rfl
  | blank blank _ ih =>
    rw [List.filter_cons_of_neg (by simp [blank])]
    exact ih plain
  | @char c chars text _ ih =>
    rw [List.filter_cons_of_pos (by simp [plain c List.mem_cons_self])]
    exact congrArg _ (ih fun d member => plain d (List.mem_cons_of_mem _ member))

theorem isLayout_iff {c : Char} : isLayout c = true ↔ c ∈ ['\t', '\n', '\r', ' '] := by
  simp [isLayout, or_assoc]

theorem isLayout_of_digit {c : Char} (known : c.toLower ∈ digits) : isLayout c = false := by
  cases blank : isLayout c with
  | false => rfl
  | true =>
    have solid : ['\t', '\n', '\r', ' '].all (fun d => d.toLower ∉ digits) = true := by decide
    have stray := List.all_eq_true.1 solid c (isLayout_iff.1 blank)
    exact absurd known (of_decide_eq_true stray)

theorem dropMarker_cases (chars : List Char) :
    (∃ rest, chars = '0' :: 'x' :: rest ∧ dropMarker chars = rest) ∨ dropMarker chars = chars := by
  fun_cases dropMarker chars with
  | case1 rest => exact .inl ⟨rest, rfl, rfl⟩
  | case2 => exact .inr rfl

/-- No text that is read has a marker of its own. -/
theorem dropMarker_of_decode? {chars : List Char} {bytes : Bytes}
    (read : decode? (String.ofList chars) = some bytes) : dropMarker chars = chars := by
  rcases dropMarker_cases chars with ⟨rest, rfl, -⟩ | same
  · have stray := digit_or_plus_of_decode? read 'x' (by simp)
    exact absurd stray (by decide)
  · exact same

theorem decodeFormatted?_eq_some_iff {text : String} {bytes : Bytes} :
    decodeFormatted? text = some bytes ↔ ∃ rest, (bare text = rest ∨ bare text = '0' :: 'x' :: rest) ∧
      decode? (String.ofList rest) = some bytes := by
  rw [decodeFormatted?]
  constructor
  · intro read
    rcases dropMarker_cases (bare text) with ⟨rest, marked, same⟩ | same
    · exact ⟨rest, .inr marked, same ▸ read⟩
    · exact ⟨bare text, .inl rfl, same ▸ read⟩
  · rintro ⟨rest, plain | marked, read⟩
    · rw [plain, dropMarker_of_decode? read]
      exact read
    · rw [marked]
      exact read

theorem decodeFormatted?_eq_none {text : String} {before after : List Char} {c : Char}
    (there : bare text = before ++ c :: after) (stray : c.toLower ∉ digits) (plain : c ≠ '+')
    (behind : c = 'x' → before ≠ ['0']) : decodeFormatted? text = none := by
  cases read : decodeFormatted? text with
  | none => rfl
  | some bytes =>
    obtain ⟨rest, place, read⟩ := decodeFormatted?_eq_some_iff.1 read
    have known := digit_or_plus_of_decode? read
    rw [String.toList_ofList] at known
    have within : c ∈ rest := by
      rcases place with same | marked
      · rw [← same, there]
        exact List.mem_append_right _ List.mem_cons_self
      · rw [there] at marked
        match before, marked with
        | [], marked =>
          cases (List.cons.inj marked).1
          exact absurd (by decide) stray
        | [first], marked =>
          obtain ⟨zero, second⟩ := List.cons.inj marked
          exact absurd (congrArg ([·]) zero) (behind (List.cons.inj second).1)
        | _ :: _ :: before, marked =>
          rw [← (List.cons.inj (List.cons.inj marked).2).2]
          exact List.mem_append_right _ List.mem_cons_self
    rcases known c within with digit | plus
    · exact absurd digit stray
    · exact absurd plus plain

/-- Layout does not matter, and besides it nothing is read but the spelling of bytes behind at most one
marker: texts that are the same without their layout come to the same, what was written reads back with
layout among its digits and marker, in letters of either case, and a second marker, one that is not in
front and any other character leave nothing to read. -/
theorem layout_ignored :
    (∀ one other : String, bare one = bare other → decodeFormatted? one = decodeFormatted? other) ∧
    (∀ (bytes : Bytes) (marker written : List Char) (text : String), marker = [] ∨ marker = ['0', 'x'] →
      written.map Char.toLower = (encode bytes).toList → LaidOut (marker ++ written) text.toList →
      decodeFormatted? text = some bytes) ∧
    (∀ (text : String) (bytes : Bytes), decodeFormatted? text = some bytes ↔
      ∃ rest, (bare text = rest ∨ bare text = '0' :: 'x' :: rest) ∧
        decode? (String.ofList rest) = some bytes) ∧
    (∀ (text : String) (before after : List Char), bare text = before ++ '0' :: 'x' :: after →
      before ≠ [] → decodeFormatted? text = none) ∧
    ∀ text : String, ∀ c ∈ text.toList, c ∉ ['\t', '\n', '\r', ' '] → c.toLower ∉ digits → c ≠ '+' →
      c ≠ 'x' → decodeFormatted? text = none := by
  refine ⟨fun one other same => ?_, ?_, fun text bytes => decodeFormatted?_eq_some_iff, ?_, ?_⟩
  · rw [decodeFormatted?, same, decodeFormatted?]
  · intro bytes marker written text marked lower laid
    have solid : ∀ c ∈ written, isLayout c = false := by
      intro c member
      have known : c.toLower ∈ (encode bytes).toList := by
        rw [← lower]
        exact List.mem_map_of_mem member
      exact isLayout_of_digit (mem_digits_of_mem_encode known)
    have read : decode? (String.ofList written) = some bytes := by
      refine decode?_of_toLower ?_
      rw [String.toList_ofList]
      exact lower
    refine decodeFormatted?_eq_some_iff.2 ⟨written, ?_, read⟩
    rcases marked with rfl | rfl
    · exact .inl (laid.filter solid)
    · refine .inr (laid.filter fun c member => ?_)
      rcases List.mem_append.1 member with front | rest
      · rcases List.mem_pair.1 front with rfl | rfl <;> rfl
      · exact solid c rest
  · intro text before after there late
    have place : bare text = (before ++ ['0']) ++ 'x' :: after := by
      rw [there, List.append_assoc]
      rfl
    refine decodeFormatted?_eq_none place (by decide) (by decide) fun _ => ?_
    simpa using late
  · intro text c member solid stray plain other
    have kept : c ∈ bare text := by
      refine List.mem_filter.2 ⟨member, ?_⟩
      rw [← isLayout_iff, Bool.not_eq_true] at solid
      rw [solid]
      rfl
    obtain ⟨before, after, there⟩ := List.append_of_mem kept
    exact decodeFormatted?_eq_none there stray plain fun same => absurd same other

example : decodeFormatted? "0 x01 02\n\taB\r" = some [0x01, 0x02, 0xab] := by decide

end NoiseLink.Hex
