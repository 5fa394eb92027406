import Mathlib.Data.List.Basic
import NoiseLink.Hex

/-! Hexadecimal text. A text is read exactly when its UTF-8 bytes, two at a time, each spell a byte: two
digits of either case, or a plus sign and one digit. So it has no character outside ASCII, and what was
written reads back whatever becomes of the case of its letters. -/
namespace NoiseLink

namespace Bytes

theorem ofText_ofList (chars : List Char) :
    ofText (String.ofList chars) = chars.flatMap String.utf8EncodeChar := by
  simp [ofText, List.utf8Encode]

theorem ofText_eq (text : String) : ofText text = text.toList.flatMap String.utf8EncodeChar := by
  rw [← ofText_ofList, String.ofList_toList]

theorem length_ofText (text : String) : (ofText text).length = text.utf8ByteSize := by
  simp [ofText]

theorem utf8EncodeChar_of_ascii {c : Char} (ascii : c.toNat < 128) :
    String.utf8EncodeChar c = [UInt8.ofNat c.toNat] := by
  have small : c.utf8Size = 1 :=
    Char.utf8Size_eq_one_iff.2 (UInt32.le_iff_toNat_le.2 (Nat.le_of_lt_succ ascii))
  rw [String.utf8EncodeChar_eq_singleton small]
  rfl

/-- A character outside ASCII begins with a byte outside ASCII. -/
theorem exists_mem_utf8EncodeChar {c : Char} (wide : 128 ≤ c.toNat) :
    ∃ byte ∈ String.utf8EncodeChar c, 128 ≤ byte.toNat := by
  have marked (byte mark : UInt8) (high : 128 ≤ mark.toNat) : 128 ≤ (byte ||| mark).toNat := by
    rw [UInt8.toNat_or]
    exact Nat.le_trans high Nat.right_le_or
  rcases Char.utf8Size_eq c with one | two | three | four
  · have narrow := UInt32.le_iff_toNat_le.1 (Char.utf8Size_eq_one_iff.1 one)
    exact absurd wide (Nat.not_le_of_gt (Nat.lt_succ_of_le narrow))
  · rw [String.utf8EncodeChar_eq_cons_cons two]
    exact ⟨_, List.mem_cons_self, marked _ 0xc0 (by decide)⟩
  · rw [String.utf8EncodeChar_eq_cons_cons_cons three]
    exact ⟨_, List.mem_cons_self, marked _ 0xe0 (by decide)⟩
  · rw [String.utf8EncodeChar_eq_cons_cons_cons_cons four]
    exact ⟨_, List.mem_cons_self, marked _ 0xf0 (by decide)⟩

end Bytes

namespace Hex

/-- A byte is the code of the digit of a value, in either case. -/
def IsDigit (code : UInt8) (value : Nat) : Prop :=
  digits[value]? = some (Char.ofNat code.toNat).toLower

instance (code : UInt8) (value : Nat) : Decidable (IsDigit code value) :=
  inferInstanceAs (Decidable (digits[value]? = some (Char.ofNat code.toNat).toLower))

theorem digitValue?_bounds {code : UInt8} {value : Nat} (read : digitValue? code = some value) :
    value < 16 ∧ code.toNat < 128 := by
  simp only [digitValue?, UInt8.le_iff_toNat_le] at read
  split at read
  · rename_i decimal
    obtain ⟨-, top⟩ := decimal
    cases read
    simp at top
    omega
  · split at read
    · rename_i lower
      obtain ⟨-, top⟩ := lower
      cases read
      simp at top
      omega
    · split at read
      · rename_i upper
        obtain ⟨-, top⟩ := upper
        cases read
        simp at top
        omega
      · cases read

theorem digitValue?_eq_some_iff {code : UInt8} {value : Nat} :
    digitValue? code = some value ↔ IsDigit code value := by
  have table : ∀ n < 256, ∀ value < 16,
      digitValue? (UInt8.ofNat n) = some value ↔ IsDigit (UInt8.ofNat n) value := by
    decide +kernel
  have row := table code.toNat code.toNat_lt
  rw [UInt8.ofNat_toNat] at row
  constructor
  · intro read
    exact (row value (digitValue?_bounds read).1).1 read
  · intro known
    exact (row value (List.getElem?_eq_some_iff.1 known).1).2 known

theorem IsDigit.bounds {code : UInt8} {value : Nat} (known : IsDigit code value) :
    value < 16 ∧ code.toNat < 128 :=
  digitValue?_bounds (digitValue?_eq_some_iff.2 known)

theorem not_isDigit_plus (value : Nat) : ¬ IsDigit 0x2b value := by
  intro known
  rw [← digitValue?_eq_some_iff] at known
  cases known

/-- What spells a byte: two digits, or a plus sign and one. -/
inductive Spells : Bytes → UInt8 → Prop where
  | pair {high low value : UInt8} {h l : Nat} : IsDigit high h → IsDigit low l →
      value.toNat = 16 * h + l → Spells [high, low] value
  | plus {low value : UInt8} : IsDigit low value.toNat → Spells [0x2b, low] value

theorem readDigits?_cons {value : Nat} (small : value < 16) (code : UInt8) (rest : Bytes) :
    readDigits? value (code :: rest) =
      (digitValue? code).bind fun digit => readDigits? (16 * value + digit) rest := by
  rw [readDigits?]
  cases read : digitValue? code with
  | none => rfl
  | some digit =>
    have bounds := digitValue?_bounds read
    exact if_pos (by omega)

theorem readDigits?_single {code : UInt8} {n : Nat} :
    readDigits? 0 [code] = some n ↔ IsDigit code n := by
  rw [readDigits?_cons (by decide), ← digitValue?_eq_some_iff]
  simp [readDigits?]

theorem readDigits?_pair {high low : UInt8} {n : Nat} : readDigits? 0 [high, low] = some n ↔
    ∃ h l, IsDigit high h ∧ IsDigit low l ∧ n = 16 * h + l := by
  simp only [readDigits?_cons (show 0 < 16 by decide), Option.bind_eq_some_iff, digitValue?_eq_some_iff]
  constructor
  · rintro ⟨h, first, rest⟩
    rw [Nat.mul_zero, Nat.zero_add, readDigits?_cons first.bounds.1] at rest
    obtain ⟨l, second, same⟩ := Option.bind_eq_some_iff.1 rest
    exact ⟨h, l, first, digitValue?_eq_some_iff.1 second, (Option.some.inj same).symm⟩
  · rintro ⟨h, l, first, second, rfl⟩
    refine ⟨h, first, ?_⟩
    rw [Nat.mul_zero, Nat.zero_add, readDigits?_cons first.bounds.1, digitValue?_eq_some_iff.2 second]
    rfl

theorem readByte?_eq_some_iff {high low value : UInt8} :
    readByte? [high, low] = some value ↔ Spells [high, low] value := by
  rw [readByte?, if_neg (List.cons_ne_nil _ _), unsigned, Option.map_eq_some_iff]
  split
  · rename_i sign
    subst sign
    simp only [readDigits?_single]
    constructor
    · rintro ⟨n, known, rfl⟩
      have fits := known.bounds.1
      refine .plus ?_
      rwa [UInt8.toNat_ofNat', Nat.mod_eq_of_lt (by omega)]
    · intro spells
      cases spells with
      | pair high => exact absurd high (not_isDigit_plus _)
      | plus low => exact ⟨_, low, UInt8.ofNat_toNat⟩
  · rename_i plain
    simp only [readDigits?_pair]
    constructor
    · rintro ⟨_, ⟨h, l, first, second, rfl⟩, rfl⟩
      have fits := first.bounds.1
      have fits' := second.bounds.1
      refine .pair first second ?_
      rw [UInt8.toNat_ofNat', Nat.mod_eq_of_lt (by omega)]
    · intro spells
      cases spells with
      | pair first second same => exact ⟨_, ⟨_, _, first, second, rfl⟩, by rw [← same, UInt8.ofNat_toNat]⟩
      | plus => exact absurd rfl plain

theorem Spells.digit_or_plus {piece : Bytes} {value : UInt8} (spells : Spells piece value) :
    ∀ code ∈ piece, (∃ value, IsDigit code value) ∨ code = 0x2b := by
  intro code member
  cases spells with
  | pair high low _ =>
    rcases List.mem_pair.1 member with rfl | rfl
    · exact .inl ⟨_, high⟩
    · exact .inl ⟨_, low⟩
  | plus low =>
    rcases List.mem_pair.1 member with rfl | rfl
    · exact .inr rfl
    · exact .inl ⟨_, low⟩

/-- A text whose bytes, two at a time, spell the bytes of another. -/
inductive Spelling : Bytes → Bytes → Prop where
  | nil : Spelling [] []
  | cons {high low value : UInt8} {text bytes : Bytes} : Spells [high, low] value →
      Spelling text bytes → Spelling (high :: low :: text) (value :: bytes)

theorem Spelling.digit_or_plus {text bytes : Bytes} (spelling : Spelling text bytes) :
    ∀ code ∈ text, (∃ value, IsDigit code value) ∨ code = 0x2b := by
  induction spelling with
  | nil => nofun
  | cons spells _ ih =>
    intro code member
    rcases List.mem_append.1 (show code ∈ [_, _] ++ _ from member) with first | rest
    · exact spells.digit_or_plus code first
    · exact ih code rest

theorem Spelling.ascii {text bytes : Bytes} (spelling : Spelling text bytes) :
    ∀ code ∈ text, code.toNat < 128 := by
  intro code member
  rcases spelling.digit_or_plus code member with ⟨value, known⟩ | rfl
  · exact known.bounds.2
  · decide

theorem betweenCharacters_of_ascii {text : Bytes} (ascii : ∀ byte ∈ text, byte.toNat < 128) :
    betweenCharacters text = true := by
  cases text with
  | nil => rfl
  | cons byte rest =>
    have low : byte < 0x80 := UInt8.lt_iff_toNat_lt.2 (ascii byte List.mem_cons_self)
    simp [betweenCharacters, low]

theorem decodeBytes?_eq_some_iff {text bytes : Bytes} :
    decodeBytes? text = some bytes ↔ Spelling text bytes := by
  constructor
  · intro read
    fun_induction decodeBytes? text generalizing bytes with
    | case1 =>
      cases read
      exact .nil
    | case2 => cases read
    | case3 high low rest _ ih =>
      simp only [Option.bind_eq_bind, Option.bind_eq_some_iff, pure, Option.some.injEq] at read
      obtain ⟨value, first, values, others, rfl⟩ := read
      exact .cons (readByte?_eq_some_iff.1 first) (ih others)
    | case4 => cases read
  · intro spelling
    have ascii := spelling.ascii
    induction spelling with
    | nil => rfl
    | @cons high low value text bytes spells _ ih =>
      have behind : ∀ byte ∈ text, byte.toNat < 128 := by
        intro byte member
        exact ascii byte (List.mem_cons_of_mem _ (List.mem_cons_of_mem _ member))
      rw [decodeBytes?, betweenCharacters_of_ascii ascii, betweenCharacters_of_ascii behind,
        readByte?_eq_some_iff.2 spells, ih behind]
      rfl

theorem spelling_iff {text bytes : Bytes} : Spelling text bytes ↔ text.length = 2 * bytes.length ∧
    ∀ i, ∀ inside : i < bytes.length, Spells ((text.drop (2 * i)).take 2) bytes[i] := by
  constructor
  · intro spelling
    induction spelling with
    | nil => exact ⟨rfl, nofun⟩
    | @cons high low value text bytes spells _ ih =>
      refine ⟨by simp [ih.1]; omega, fun i inside => ?_⟩
      cases i with
      | zero => exact spells
      | succ i => exact ih.2 i (Nat.lt_of_succ_lt_succ inside)
  · intro ⟨size, pieces⟩
    induction bytes generalizing text with
    | nil =>
      rw [List.eq_nil_of_length_eq_zero size]
      exact .nil
    | cons value bytes ih =>
      match text, size with
      | high :: low :: text, size =>
        refine .cons (pieces 0 (Nat.succ_pos _)) (ih (by simp at size; omega) fun i inside => ?_)
        exact pieces (i + 1) (Nat.succ_lt_succ inside)
      | [], size => simp at size
      | [_], size => simp at size; omega

theorem decode?_eq_some_iff {text : String} {bytes : Bytes} :
    decode? text = some bytes ↔ Spelling (Bytes.ofText text) bytes :=
  decodeBytes?_eq_some_iff

theorem ascii_of_decode? {text : String} {bytes : Bytes} (read : decode? text = some bytes) :
    ∀ c ∈ text.toList, c.toNat < 128 := by
  intro c member
  by_contra wide
  obtain ⟨byte, within, high⟩ := Bytes.exists_mem_utf8EncodeChar (Nat.not_lt.1 wide)
  have there : byte ∈ Bytes.ofText text := by
    rw [Bytes.ofText_eq]
    exact List.mem_flatMap.2 ⟨c, member, within⟩
  exact absurd ((decode?_eq_some_iff.1 read).ascii byte there) (Nat.not_lt.2 high)

theorem getElem?_digits {value : Nat} (small : value < 16) : digits[value]? = some (digit value) := by
  have inside : value < digits.length := small
  rw [digit, List.getD_eq_getElem?_getD, List.getElem?_eq_getElem inside, Option.getD_some]

theorem digit_mem_digits {value : Nat} (small : value < 16) : digit value ∈ digits :=
  List.mem_of_getElem? (getElem?_digits small)

theorem lower_of_mem_digits {c : Char} (member : c ∈ digits) : c.toLower = c ∧ c.toNat < 128 := by
  have table : digits.all (fun d => d.toLower = d ∧ d.toNat < 128) = true := by decide
  exact of_decide_eq_true (List.all_eq_true.1 table c member)

theorem toList_encode (bytes : Bytes) : (encode bytes).toList = bytes.flatMap encodeByte := by
  rw [encode, String.toList_ofList]

theorem mem_digits_of_mem_encode {bytes : Bytes} {c : Char} (member : c ∈ (encode bytes).toList) :
    c ∈ digits := by
  rw [toList_encode] at member
  obtain ⟨byte, -, within⟩ := List.mem_flatMap.1 member
  have bounded := byte.toNat_lt
  rcases List.mem_pair.1 within with rfl | rfl
  · exact digit_mem_digits (by omega)
  · exact digit_mem_digits (by omega)

theorem toLower_of_wide {c : Char} (wide : 128 ≤ c.toNat) : c.toLower = c := by
  have outside : ¬ (c.val ≥ 'A'.val ∧ c.val ≤ 'Z'.val) := by
    rintro ⟨-, below⟩
    have bound : c.toNat ≤ 90 := UInt32.le_iff_toNat_le.1 below
    omega
  exact dif_neg outside

theorem isDigit_of_toLower {c : Char} {value : Nat} (small : value < 16)
    (lower : c.toLower = digit value) : c.toNat < 128 ∧ IsDigit (UInt8.ofNat c.toNat) value := by
  have ascii : c.toNat < 128 := by
    by_contra wide
    rw [toLower_of_wide (Nat.not_lt.1 wide)] at lower
    exact wide (lower ▸ (lower_of_mem_digits (digit_mem_digits small)).2)
  refine ⟨ascii, ?_⟩
  rw [IsDigit, UInt8.toNat_ofNat', Nat.mod_eq_of_lt (by omega), Char.ofNat_toNat, lower]
  exact getElem?_digits small

theorem spelling_of_toLower {chars : List Char} {bytes : Bytes}
    (lower : chars.map Char.toLower = bytes.flatMap encodeByte) :
    Spelling (chars.flatMap String.utf8EncodeChar) bytes := by
  induction bytes generalizing chars with
  | nil =>
    rw [List.map_eq_nil_iff.1 lower]
    exact .nil
  | cons value bytes ih =>
    have bounded := value.toNat_lt
    obtain ⟨a, rest, rfl, first, others⟩ := List.map_eq_cons_iff.1 lower
    obtain ⟨b, rest, rfl, second, others⟩ := List.map_eq_cons_iff.1 others
    obtain ⟨ascii, high⟩ := isDigit_of_toLower (by omega) first
    obtain ⟨ascii', low⟩ := isDigit_of_toLower (by omega) second
    rw [List.flatMap_cons, List.flatMap_cons, Bytes.utf8EncodeChar_of_ascii ascii,
      Bytes.utf8EncodeChar_of_ascii ascii']
    exact .cons (.pair high low (by omega)) (ih others)

theorem decode?_of_toLower {text : String} {bytes : Bytes}
    (lower : text.toList.map Char.toLower = (encode bytes).toList) : decode? text = some bytes := by
  rw [decode?_eq_some_iff, Bytes.ofText_eq]
  exact spelling_of_toLower (lower.trans (toList_encode bytes))

theorem length_encode (bytes : Bytes) : (encode bytes).length = 2 * bytes.length := by
  rw [← String.length_toList, toList_encode]
  simp [encodeByte, Nat.mul_comm]

theorem decode?_encode (bytes : Bytes) : decode? (encode bytes) = some bytes := by
  have small : ∀ c ∈ (encode bytes).toList, c.toLower = c := by
    intro c member
    exact (lower_of_mem_digits (mem_digits_of_mem_encode member)).1
  refine decode?_of_toLower ?_
  rw [List.map_congr_left small, List.map_id']

/-- A text is read exactly when it has two bytes for each byte and they spell it, a digit pair or a plus
sign and a digit; a character outside ASCII, wherever it stands, leaves nothing to read. What is written
has two lower-case digits for each byte and reads back, also when letters have become upper case. -/
theorem reads_exactly_spellings :
    (∀ (text : String) (bytes : Bytes), decode? text = some bytes ↔
      text.utf8ByteSize = 2 * bytes.length ∧ ∀ i, ∀ inside : i < bytes.length,
        Spells (((Bytes.ofText text).drop (2 * i)).take 2) bytes[i]) ∧
    (∀ text : String, (∃ c ∈ text.toList, 128 ≤ c.toNat) → decode? text = none) ∧
    ∀ bytes : Bytes,
      (encode bytes).length = 2 * bytes.length ∧ (encode bytes).utf8ByteSize = 2 * bytes.length ∧
      (∀ c ∈ (encode bytes).toList, c ∈ "0123456789abcdef".toList) ∧
      ∀ text : String, text.toList.map Char.toLower = (encode bytes).toList →
        decode? text = some bytes := by
  have grammar (text : String) (bytes : Bytes) : decode? text = some bytes ↔
      text.utf8ByteSize = 2 * bytes.length ∧ ∀ i, ∀ inside : i < bytes.length,
        Spells (((Bytes.ofText text).drop (2 * i)).take 2) bytes[i] := by
    rw [decode?_eq_some_iff, spelling_iff, Bytes.length_ofText]
  refine ⟨grammar, ?_, fun bytes => ⟨length_encode bytes, ?_, ?_, ?_⟩⟩
  · rintro text ⟨c, member, wide⟩
    cases read : decode? text with
    | none => rfl
    | some bytes => exact absurd (ascii_of_decode? read c member) (Nat.not_lt.2 wide)
  · exact ((grammar _ _).1 (decode?_encode bytes)).1
  · intro c member
    exact mem_digits_of_mem_encode member
  · intro text lower
    exact decode?_of_toLower lower

example : decode? "+fAb" = some [0x0f, 0xab] := by decide

end Hex
end NoiseLink
