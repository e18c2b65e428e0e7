/-
BrokerExam/Proofs/Text/Numeral.lean

How a number may be spelled.  What is read as a number are the digits that are
written for it, behind any number of zeros, and behind a plus sign or none
(`unsigned?_eq_some_iff`).  A number is written in one of its spellings, the one
without a zero that is not needed (`decimal_iff`).
-/
import Mathlib.Data.List.Induction
import BrokerExam.Text.Numeral

namespace BrokerExam.Numeral

/-! ### Digits -/

theorem digitChar_of_isDigit {c : Char} (digit : c.isDigit = true) :
    c.toNat - '0'.toNat < 10 ∧ (c.toNat - '0'.toNat).digitChar = c := by
  have range : 48 ≤ c.toNat ∧ c.toNat ≤ 57 := by
    simpa [Char.isDigit, UInt32.le_iff_toNat_le] using digit
  have chars : ∀ d, d < 10 → Char.ofNat (48 + d) = d.digitChar := by decide
  have small : c.toNat - 48 < 10 := by omega
  refine ⟨small, ?_⟩
  rw [show '0'.toNat = 48 from rfl, ← chars _ small, Nat.add_sub_of_le range.1, Char.ofNat_toNat]

/-- The number that a row of digits has. -/
theorem digits?_eq {cs : List Char} (some : cs ≠ []) (digits : cs.all Char.isDigit = true) :
    digits? cs = Option.some (Nat.ofDigitChars 10 cs 0) := by
  rw [digits?, if_pos ⟨some, digits⟩, Nat.ofDigitChars_eq_foldl]
  simp only [Nat.mul_comm]

/-- A row of digits that does not begin with a zero is what is written for its number. -/
theorem toDigits_of_leading {c : Char} {cs : List Char} (digits : (c :: cs).all Char.isDigit = true)
    (leading : c ≠ '0') :
    0 < Nat.ofDigitChars 10 (c :: cs) 0 ∧
      Nat.toDigits 10 (Nat.ofDigitChars 10 (c :: cs) 0) = c :: cs := by
  induction cs using List.reverseRecOn with
  | nil =>
    obtain ⟨small, char⟩ := digitChar_of_isDigit (List.all_eq_true.1 digits c List.mem_cons_self)
    have value : Nat.ofDigitChars 10 [c] 0 = c.toNat - '0'.toNat := by simp [Nat.ofDigitChars_cons]
    rw [value]
    refine ⟨Nat.pos_of_ne_zero fun zero => leading ?_, ?_⟩
    · rw [← char, zero]
      rfl
    · rw [Nat.toDigits_of_lt_base small, char]
  | append_singleton cs d ih =>
    rw [← List.cons_append, List.all_append, Bool.and_eq_true] at digits
    obtain ⟨positive, written⟩ := ih digits.1
    obtain ⟨small, char⟩ :=
      digitChar_of_isDigit (List.all_eq_true.1 digits.2 d List.mem_cons_self)
    have value : Nat.ofDigitChars 10 (c :: (cs ++ [d])) 0 =
        10 * Nat.ofDigitChars 10 (c :: cs) 0 + (d.toNat - '0'.toNat) := by
      rw [← List.cons_append, Nat.ofDigitChars_append, Nat.ofDigitChars_cons,
        Nat.ofDigitChars_nil]
    rw [value]
    refine ⟨by omega, ?_⟩
    rw [← Nat.toDigits_append_toDigits (by decide) positive small, written,
      Nat.toDigits_of_lt_base small, char]
    rfl

theorem digits?_zeros (zeros n : Nat) :
    digits? (List.replicate zeros '0' ++ Nat.toDigits 10 n) = some n := by
  have digits : (List.replicate zeros '0' ++ Nat.toDigits 10 n).all Char.isDigit = true := by
    rw [List.all_append, Bool.and_eq_true, List.all_eq_true, List.all_eq_true]
    refine ⟨fun c hc => ?_, fun c hc =>
      Nat.isDigit_of_mem_toDigits (b := 10) (by decide) (by decide) hc⟩
    rw [List.eq_of_mem_replicate hc]
    rfl
  rw [digits?_eq (List.append_ne_nil_of_right_ne_nil _ Nat.toDigits_ne_nil) digits,
    Nat.ofDigitChars_append, Nat.ofDigitChars_replicate_zero, Nat.mul_zero,
    Nat.ofDigitChars_ten_toDigits]

/-- The digits of a number are those that are written for it, behind any number of zeros. -/
theorem digits?_eq_some_iff {cs : List Char} {n : Nat} :
    digits? cs = some n ↔ ∃ zeros, cs = List.replicate zeros '0' ++ Nat.toDigits 10 n := by
  constructor
  · intro read
    rw [digits?] at read
    split at read
    · next fine =>
      have value := digits?_eq fine.1 fine.2
      rw [digits?, if_pos fine] at value
      obtain rfl := Option.some.inj (read.symm.trans value)
      clear read value
      -- the zeros in front come off one by one, but the last character stays
      induction cs with
      | nil => exact absurd rfl fine.1
      | cons c cs ih =>
        by_cases zero : c = '0'
        · subst zero
          cases cs with
          | nil => exact ⟨0, rfl⟩
          | cons c' cs =>
            have digits : (c' :: cs).all Char.isDigit = true := by
              rw [List.all_cons, Bool.and_eq_true] at fine
              exact fine.2.2
            obtain ⟨zeros, same⟩ := ih ⟨List.cons_ne_nil _ _, digits⟩
            have value : Nat.ofDigitChars 10 ('0' :: c' :: cs) 0 =
                Nat.ofDigitChars 10 (c' :: cs) 0 := Nat.ofDigitChars_cons
            exact ⟨zeros + 1, by rw [value, List.replicate_succ, List.cons_append, ← same]⟩
        · exact ⟨0, (toDigits_of_leading fine.2 zero).2.symm⟩
    · cases read
  · rintro ⟨zeros, rfl⟩
    exact digits?_zeros zeros n

/-- Of all digits of a number those are written that begin with no zero, unless it is the only
one. -/
theorem eq_toDigits_iff {cs : List Char} {n : Nat} :
    cs = Nat.toDigits 10 n ↔ digits? cs = some n ∧ (cs.head? = some '0' → cs = ['0']) := by
  constructor
  · rintro rfl
    have read : digits? (Nat.toDigits 10 n) = some n := digits?_zeros 0 n
    refine ⟨read, fun leading => ?_⟩
    rcases written : Nat.toDigits 10 n with _ | ⟨c, cs⟩
    · exact absurd written Nat.toDigits_ne_nil
    · rw [written] at read leading
      obtain rfl : c = '0' := Option.some.inj leading
      cases cs with
      | nil => rfl
      | cons c' cs =>
        -- without the zero the same digits would be fewer
        have same : digits? (c' :: cs) = digits? ('0' :: c' :: cs) := by
          simp [digits?]
        obtain ⟨zeros, shorter⟩ := digits?_eq_some_iff.1 (same.trans read)
        have lengths := congrArg List.length shorter
        rw [written, List.length_append, List.length_cons, List.length_cons, List.length_cons]
          at lengths
        omega
  · rintro ⟨read, leading⟩
    obtain ⟨zeros, rfl⟩ := digits?_eq_some_iff.1 read
    cases zeros with
    | zero => rfl
    | succ zeros =>
      have alone := congrArg List.length (leading rfl)
      have some := List.length_pos_iff.2 (Nat.toDigits_ne_nil (b := 10) (n := n))
      rw [List.length_append, List.length_replicate, List.length_singleton] at alone
      omega

/-! ### Decimals -/

/-- The text is the number: digits that are read as it, behind a minus sign if it is negative, and
no zero in front of other digits. -/
def Decimal (i : Int) (text : String) : Prop :=
  ∃ cs, text.toList = (if i < 0 then ['-'] else []) ++ cs ∧ digits? cs = some i.natAbs ∧
    (cs.head? = some '0' → cs = ['0'])

theorem toList_toString (i : Int) :
    (toString i).toList = (if i < 0 then ['-'] else []) ++ Nat.toDigits 10 i.natAbs := by
  cases i with
  | ofNat n => exact Nat.toList_repr
  | negSucc n =>
    have minus : "-".toList = ['-'] := by decide
    show ("-" ++ Nat.repr (n + 1)).toList = _
    rw [String.toList_append, Nat.toList_repr, minus, if_pos (Int.negSucc_lt_zero n)]
    rfl

/-- **A number has one decimal.** -/
theorem decimal_iff {i : Int} {text : String} : Decimal i text ↔ text = toString i := by
  constructor
  · rintro ⟨cs, whole, read⟩
    apply String.toList_injective
    rw [whole, toList_toString, eq_toDigits_iff.2 read]
  · rintro rfl
    exact ⟨_, toList_toString i, eq_toDigits_iff.1 rfl⟩

/-! ### Spellings -/

/-- The digits of a number, behind zeros, and behind a plus sign or none. -/
def spelling (plus : Bool) (zeros n : Nat) : List Char :=
  (if plus then ['+'] else []) ++ (List.replicate zeros '0' ++ Nat.toDigits 10 n)

/-- **How a number may be spelled.** -/
theorem unsigned?_eq_some_iff {cs : List Char} {n : Nat} :
    unsigned? cs = some n ↔ ∃ plus zeros, cs = spelling plus zeros n := by
  constructor
  · intro read
    rw [unsigned?.eq_def] at read
    split at read
    · obtain ⟨zeros, rfl⟩ := digits?_eq_some_iff.1 read
      exact ⟨true, zeros, rfl⟩
    · obtain ⟨zeros, rfl⟩ := digits?_eq_some_iff.1 read
      exact ⟨false, zeros, rfl⟩
  · rintro ⟨plus, zeros, rfl⟩
    cases plus with
    | true => exact digits?_zeros zeros n
    | false =>
      show unsigned? (List.replicate zeros '0' ++ Nat.toDigits 10 n) = some n
      rw [unsigned?.eq_def]
      split
      · next cs signed =>
        -- no digit is a plus sign
        have digits := digits?_zeros zeros n
        rw [signed, digits?, if_neg (by simp)] at digits
        cases digits
      · exact digits?_zeros zeros n

/-- What is no digit is in no number, the plus sign aside. -/
theorem not_mem_spelling {c : Char} (digit : c.isDigit = false) (sign : c ≠ '+') (plus : Bool)
    (zeros n : Nat) : c ∉ spelling plus zeros n := by
  intro mem
  rcases List.mem_append.1 mem with front | back
  · cases plus with
    | true => exact sign (List.mem_singleton.1 front)
    | false => cases front
  · rcases List.mem_append.1 back with zero | written
    · rw [List.eq_of_mem_replicate zero] at digit
      cases digit
    · rw [Nat.isDigit_of_mem_toDigits (by decide) (by decide) written] at digit
      cases digit

end BrokerExam.Numeral
