/-
BrokerExam/Proofs/Field/Display.lean

How values are shown in reports.  What a text has to be to show a value is said by
what can be read off it (`Value.Shown`): the number of its decimal, the bytes of its
digits, the words that stand for null and empty.  Every value is shown by exactly
one text, the one that reports have.

Main result: `Value.shown_iff`, a value is shown in one way.
-/
import Mathlib.Data.List.Flatten
import BrokerExam.Field.Value
import BrokerExam.Proofs.Text.Hex
import BrokerExam.Proofs.Text.Numeral
import BrokerExam.Proofs.Text.Split

namespace BrokerExam

/-! ### Identities -/

namespace Uuid

variable {u : Uuid} {text : String}

/-- The text has groups of eight, four, four, four and twelve digits with dashes between, and their
bytes are those of the identity. -/
def Shown (u : Uuid) (text : String) : Prop :=
  (Text.split '-' text.toList).map List.length = [8, 4, 4, 4, 12] ∧
    ∃ bs, Hex.bytes? (Text.split '-' text.toList).flatten = some bs ∧
      BigEndian.decode bs = u.bits.toNat

/-- The groups of bytes. -/
def groups (u : Uuid) : List Bytes :=
  [u.toBytes.take 4, (u.toBytes.drop 4).take 2, (u.toBytes.drop 6).take 2,
    (u.toBytes.drop 8).take 2, u.toBytes.drop 10]

theorem flatten_groups (u : Uuid) : u.groups.flatten = u.toBytes := by
  simp only [groups, List.flatten_cons, List.flatten_nil, List.append_nil]
  rw [← List.drop_drop (i := 2) (j := 8), List.take_append_drop,
    ← List.drop_drop (i := 2) (j := 6), List.take_append_drop,
    ← List.drop_drop (i := 2) (j := 4), List.take_append_drop, List.take_append_drop]

theorem length_toBytes (u : Uuid) : u.toBytes.length = 16 := BigEndian.length_encode ..

theorem split_text (u : Uuid) :
    Text.split '-' u.text.toList = u.groups.map fun bs => bs.flatMap Hex.digits := by
  have dash : "-".toList = ['-'] := by decide
  have whole :
      u.text.toList = ['-'].intercalate (u.groups.map fun bs => bs.flatMap Hex.digits) := by
    rw [Uuid.text, String.toList_intercalate, dash]
    simp only [groups, List.map_cons, List.map_nil, Hex.ofBytes, String.toList_ofList]
  rw [whole]
  apply Text.split_intercalate
  · exact List.cons_ne_nil _ _
  · intro part mem dashed
    obtain ⟨bs, -, rfl⟩ := List.mem_map.1 mem
    obtain ⟨b, -, dashed⟩ := List.mem_flatMap.1 dashed
    exact Hex.not_mem_digits (by decide) b dashed

theorem flatten_split_text (u : Uuid) :
    (Text.split '-' u.text.toList).flatten = u.toBytes.flatMap Hex.digits := by
  rw [split_text, ← flatten_groups, List.flatMap_def, List.map_flatten, List.flatten_flatten,
    List.map_map]
  rfl

theorem lengths_split_text (u : Uuid) :
    (Text.split '-' u.text.toList).map List.length = [8, 4, 4, 4, 12] := by
  have all := length_toBytes u
  simp only [split_text, groups, List.map_cons, List.map_nil, Hex.length_flatMap_digits,
    List.length_take, List.length_drop, all]
  rfl

/-- **An identity is shown in one way.** -/
theorem shown_iff : u.Shown text ↔ text = u.text := by
  constructor
  · rintro ⟨lengths, bs, read, value⟩
    have digits := Hex.bytes?_eq_some_iff.1 read
    -- there are sixteen bytes, so that the number tells which
    have count : bs.length = 16 := by
      have total := congrArg List.sum lengths
      rw [← List.length_flatten, digits, Hex.length_flatMap_digits] at total
      simp at total
      omega
    obtain rfl : bs = u.toBytes := by
      rw [toBytes, ← value, ← count, BigEndian.encode_decode]
    have parts : Text.split '-' text.toList = Text.split '-' u.text.toList := by
      rw [List.eq_iff_flatten_eq, digits, flatten_split_text, lengths, lengths_split_text]
      exact ⟨rfl, rfl⟩
    apply String.toList_injective
    rw [← Text.intercalate_split '-' text.toList, parts, Text.intercalate_split]
  · rintro rfl
    refine ⟨lengths_split_text u, u.toBytes, ?_, ?_⟩
    · exact Hex.bytes?_eq_some_iff.2 (flatten_split_text u)
    · rw [toBytes, BigEndian.decode_encode]
      exact Nat.mod_eq_of_lt u.bits.isLt

end Uuid

/-! ### Values -/

namespace Value

/-- The text shows a string: null and empty have texts of their own. -/
def StringShown : Option String → String → Prop
  | none, text => text = "NULL"
  | some s, text => if s = "" then text = "\"\"" else text = s

/-- The text shows a length on the wire, and behind it, in brackets, what it stands for: one less,
or null, or empty. -/
def LengthShown (what label : String) : (raw : Nat) → (text : String) → Prop
  | 0, text => text = "0 (NULL " ++ what ++ ")"
  | 1, text => text = "1 (EMPTY " ++ what ++ ")"
  | n + 2, text => ∃ raw length, Numeral.Decimal ↑(n + 2) raw ∧ Numeral.Decimal ↑(n + 1) length ∧
    text = raw ++ " (" ++ label ++ "(" ++ length ++ ") + 1)"

/-- The text shows bytes: their numbers between brackets, with commas, and the text that they
are. -/
def BytesShown (bs : Bytes) (text : String) : Prop :=
  ∃ numbers, List.Forall₂ (fun number (b : UInt8) => Numeral.Decimal b.toNat number) numbers bs ∧
    text = "[" ++ ", ".intercalate numbers ++ "] -> UTF-8: (" ++ Utf8.decodeLossy bs ++ ")"

/-- The text shows the value. -/
def Shown : Value → String → Prop
  | int8 v => Numeral.Decimal v.toInt
  | int16 v => Numeral.Decimal v.toInt
  | int32 v => Numeral.Decimal v.toInt
  | int64 v => Numeral.Decimal v.toInt
  | unsignedVarint v => Numeral.Decimal v.toNat
  | varint v => Numeral.Decimal v.toInt
  | compactString v => StringShown (some v)
  | compactNullableString v => StringShown v
  | compactArrayLength raw => LengthShown "ARRAY" "Array length" raw.toNat
  | compactRecordSize raw => LengthShown "RECORD" "Record size" raw.toNat
  | rawBytes v => BytesShown v
  | uuid v => v.Shown
  | boolean v => fun text => text = if v then "True" else "False"
  | string v => StringShown v

variable {text : String}

theorem stringShown_iff {s : Option String} : StringShown s text ↔ text = showText s := by
  rcases s with - | s
  · exact Iff.rfl
  · by_cases empty : s = ""
    · subst empty
      exact Iff.rfl
    · have itself : showText (some s) = s := by
        rw [showText]
        exact empty
      rw [StringShown, if_neg empty, itself]

theorem lengthShown_iff {raw : UInt64} {what label : String} :
    LengthShown what label raw.toNat text ↔ text = showLength raw what label := by
  rcases value : raw.toNat with _ | _ | n
  · obtain rfl : raw = 0 := UInt64.toNat_inj.1 value
    exact Iff.rfl
  · obtain rfl : raw = 1 := UInt64.toNat_inj.1 value
    exact Iff.rfl
  · have notNull : raw ≠ 0 := by
      rintro rfl
      cases value
    have notEmpty : raw ≠ 1 := by
      rintro rfl
      cases value
    have less : (raw - 1).toNat = n + 1 := by
      have some : (1 : UInt64) ≤ raw := by
        rw [UInt64.le_iff_toNat_le, value]
        exact Nat.le_add_left ..
      rw [UInt64.toNat_sub_of_le _ _ some, value]
      rfl
    have shown : showLength raw what label =
        toString raw.toNat ++ " (" ++ label ++ "(" ++ toString (raw - 1).toNat ++ ") + 1)" := by
      rw [showLength, if_neg notNull, if_neg notEmpty]
      rfl
    rw [shown, value, less]
    simp only [LengthShown, Numeral.decimal_iff, exists_and_left, exists_eq_left]
    rfl

theorem bytesShown_iff {bs : Bytes} : BytesShown bs text ↔ text = showBytes bs := by
  have numbers_eq (numbers : List String) :
      List.Forall₂ (fun number (b : UInt8) => Numeral.Decimal b.toNat number) numbers bs ↔
        numbers = bs.map fun b => toString b.toNat :=
    Text.forall₂_iff_eq_map fun _ _ => Numeral.decimal_iff
  simp only [BytesShown, numbers_eq, exists_eq_left]
  rfl

/-- **A value is shown in one way.** -/
theorem shown_iff {v : Value} : v.Shown text ↔ text = v.display := by
  cases v with
  | compactString s => exact (stringShown_iff : StringShown (some s) text ↔ _)
  | compactNullableString s => exact stringShown_iff
  | string s => exact stringShown_iff
  | compactArrayLength raw => exact lengthShown_iff
  | compactRecordSize raw => exact lengthShown_iff
  | rawBytes bs => exact bytesShown_iff
  | uuid u => exact Uuid.shown_iff
  | boolean b => cases b <;> exact Iff.rfl
  | _ v => exact Numeral.decimal_iff

theorem shown_display (v : Value) : v.Shown v.display := shown_iff.2 rfl

end Value
end BrokerExam
