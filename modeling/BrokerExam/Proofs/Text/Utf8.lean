/-
BrokerExam/Proofs/Text/Utf8.lean

Text survives being written as bytes.  The automaton that reads UTF-8 is
between characters again behind the one to four bytes of any character, and has
completed that character (`decodeFrom_encodeChar`); so it reads a whole text
back (`decodeLossy_encode`), and no replacement character appears.  Bytes that are
no text become one that has at most three bytes for each of them
(`length_encode_decodeLossy_le`).
-/
import BrokerExam.Text.Utf8

namespace BrokerExam.Utf8

/-! ### Leading bytes -/

theorem lead_one {v : Nat} (h : v < 128) :
    lead (UInt8.ofNat v) = ([Char.ofNat v], none) := by
  have hb : (UInt8.ofNat v).toNat = v := by
    rw [UInt8.toNat_ofNat']
    omega
  have small : UInt8.ofNat v < 0x80 := by
    rw [UInt8.lt_iff_toNat_lt, hb]
    exact h
  rw [lead, if_pos small, hb]

theorem lead_two : ∀ x, x < 32 → 2 ≤ x →
    lead (UInt8.ofNat (x + 192)) = ([], some ⟨1, 0x80, 0xBF, x⟩) := by
  decide

/-- The bounds on the second byte keep overlong forms and surrogates out. -/
theorem lead_three : ∀ x, x < 16 →
    lead (UInt8.ofNat (x + 224)) =
      ([], some ⟨2, if x = 0 then 0xA0 else 0x80, if x = 13 then 0x9F else 0xBF, x⟩) := by
  decide

/-- The bounds on the second byte keep overlong forms and too large numbers out. -/
theorem lead_four : ∀ x, x < 5 →
    lead (UInt8.ofNat (x + 240)) =
      ([], some ⟨3, if x = 0 then 0x90 else 0x80, if x = 4 then 0x8F else 0xBF, x⟩) := by
  decide

/-! ### Continuation bytes -/

theorem toNat_continuation {y : Nat} (hy : y < 64) : (UInt8.ofNat (y + 128)).toNat = y + 128 := by
  rw [UInt8.toNat_ofNat']
  omega

theorem step_continuation {y : Nat} (hy : y < 64) {p : Pending}
    (low : p.low.toNat ≤ y + 128) (high : y + 128 ≤ p.high.toNat) :
    step (some p) (UInt8.ofNat (y + 128)) =
      if p.missing ≤ 1 then ([Char.ofNat (p.bits * 64 + y)], none)
      else ([], some ⟨p.missing - 1, 0x80, 0xBF, p.bits * 64 + y⟩) := by
  have hb := toNat_continuation hy
  have inside : p.low ≤ UInt8.ofNat (y + 128) ∧ UInt8.ofNat (y + 128) ≤ p.high := by
    rw [UInt8.le_iff_toNat_le, UInt8.le_iff_toNat_le, hb]
    exact ⟨low, high⟩
  have six : (y + 128) % 64 = y := by omega
  simp only [step, if_pos inside, hb, six]

/-- The last byte of a character completes it. -/
theorem decodeFrom_last {y : Nat} (hy : y < 64) (low high : UInt8) (bits : Nat) (bs : Bytes)
    (hl : low.toNat ≤ y + 128) (hh : y + 128 ≤ high.toNat) :
    decodeFrom (some ⟨1, low, high, bits⟩) (UInt8.ofNat (y + 128) :: bs) =
      Char.ofNat (bits * 64 + y) :: decodeFrom none bs := by
  rw [decodeFrom, step_continuation hy hl hh]
  rfl

/-- A byte inside a character adds its six bits. -/
theorem decodeFrom_inside {y : Nat} (hy : y < 64) (missing : Nat) (low high : UInt8) (bits : Nat)
    (bs : Bytes) (hl : low.toNat ≤ y + 128) (hh : y + 128 ≤ high.toNat) :
    decodeFrom (some ⟨missing + 2, low, high, bits⟩) (UInt8.ofNat (y + 128) :: bs) =
      decodeFrom (some ⟨missing + 1, 0x80, 0xBF, bits * 64 + y⟩) bs := by
  rw [decodeFrom, step_continuation hy hl hh, if_neg (by simp)]
  rfl

/-! ### Characters -/

theorem decodeFrom_lead {b : UInt8} {p : Option Pending} (h : lead b = ([], p)) (bs : Bytes) :
    decodeFrom none (b :: bs) = decodeFrom p bs := by
  rw [decodeFrom, step, h]
  rfl

/-- No character is a surrogate, and none is above U+10FFFF. -/
theorem toNat_valid (c : Char) :
    c.val.toNat < 0xD800 ∨ 0xDFFF < c.val.toNat ∧ c.val.toNat < 0x110000 := c.valid

theorem decodeFrom_encodeChar (c : Char) (bs : Bytes) :
    decodeFrom none (String.utf8EncodeChar c ++ bs) = c :: decodeFrom none bs := by
  have valid := toNat_valid c
  have back : Char.ofNat c.val.toNat = c := Char.ofNat_toNat c
  unfold String.utf8EncodeChar
  generalize c.val.toNat = v at valid back
  simp only
  split
  · -- one byte
    rw [List.cons_append, List.nil_append, decodeFrom, step, lead_one (by omega), back]
    rfl
  · split
    · -- two bytes
      have whole : v / 64 % 32 * 64 + v % 64 = v := by omega
      simp only [List.cons_append, List.nil_append]
      rw [decodeFrom_lead (lead_two (v / 64 % 32) (by omega) (by omega)),
        decodeFrom_last (by omega) _ _ _ _ (by simp) (by simp; omega), whole, back]
    · split
      · -- three bytes
        have whole : (v / 4096 % 16 * 64 + v / 64 % 64) * 64 + v % 64 = v := by omega
        simp only [List.cons_append, List.nil_append]
        rw [decodeFrom_lead (lead_three (v / 4096 % 16) (by omega)),
          decodeFrom_inside (by omega) 0, decodeFrom_last (by omega), whole, back]
        · simp
        · simp; omega
        · split
          · simp; omega
          · simp
        · split <;> simp <;> omega
      · -- four bytes
        have whole :
            ((v / 262144 % 8 * 64 + v / 4096 % 64) * 64 + v / 64 % 64) * 64 + v % 64 = v := by
          omega
        simp only [List.cons_append, List.nil_append]
        rw [decodeFrom_lead (lead_four (v / 262144 % 8) (by omega)),
          decodeFrom_inside (by omega) 1, decodeFrom_inside (by omega) 0,
          decodeFrom_last (by omega), whole, back]
        · simp
        · simp; omega
        · simp
        · simp; omega
        · split
          · simp; omega
          · simp
        · split <;> simp <;> omega

/-! ### Texts -/

theorem decodeFrom_encodeChars (cs : List Char) :
    decodeFrom none (cs.flatMap String.utf8EncodeChar) = cs := by
  induction cs with
  | nil => rfl
  | cons c cs ih => rw [List.flatMap_cons, decodeFrom_encodeChar, ih]

/-- **Text reads back**: reading the bytes of a text gives that text. -/
@[simp] theorem decodeLossy_encode (s : String) : decodeLossy (encode s) = s := by
  rw [decodeLossy, encode, decodeFrom_encodeChars, String.ofList_toList]

/-! ### How long a text becomes -/

/-- The number of bytes of the characters. -/
def width (cs : List Char) : Nat := (cs.flatMap String.utf8EncodeChar).length

theorem length_encode_ofList (cs : List Char) : (encode (String.ofList cs)).length = width cs := by
  rw [encode, String.toList_ofList, width]

theorem width_append (cs cs' : List Char) : width (cs ++ cs') = width cs + width cs' := by
  rw [width, List.flatMap_append, List.length_append, width, width]

theorem width_singleton_le (c : Char) : width [c] ≤ 4 := by
  rw [width, List.flatMap_singleton, String.length_utf8EncodeChar]
  exact c.utf8Size_le_four

/-- What a begun character may come to if it breaks off. -/
def debt (pending : Option Pending) : Nat := if pending.isSome then 3 else 0

theorem width_lead_le (b : UInt8) : width (lead b).1 + debt (lead b).2 ≤ 3 := by
  have all : ∀ n, n < 256 →
      width (lead (UInt8.ofNat n)).1 + debt (lead (UInt8.ofNat n)).2 ≤ 3 := by decide +kernel
  have one := all b.toNat b.toNat_lt
  rwa [UInt8.ofNat_toNat] at one

theorem width_step_le (pending : Option Pending) (b : UInt8) :
    width (step pending b).1 + debt (step pending b).2 ≤ 3 + debt pending := by
  have begun := width_lead_le b
  cases pending with
  | none => exact begun
  | some p =>
    rw [step]
    split
    · dsimp only
      split
      · have last := width_singleton_le (Char.ofNat (p.bits * 64 + b.toNat % 64))
        show width [_] + 0 ≤ 3 + 3
        omega
      · exact Nat.le_add_left 3 3
    · -- the character breaks off, and the byte stands for itself
      show width ([replacement] ++ (lead b).1) + debt (lead b).2 ≤ 3 + 3
      rw [width_append, show width [replacement] = 3 from rfl]
      omega

theorem width_decodeFrom_le (pending : Option Pending) (bs : Bytes) :
    width (decodeFrom pending bs) ≤ 3 * bs.length + debt pending := by
  induction bs generalizing pending with
  | nil =>
    cases pending with
    | none => exact Nat.le_refl 0
    | some p => exact Nat.le_refl 3
  | cons b bs ih =>
    have first := width_step_le pending b
    have others := ih (step pending b).2
    rw [decodeFrom, width_append, List.length_cons]
    omega

/-- **A text has at most three bytes for each byte that it was read from.** -/
theorem length_encode_decodeLossy_le (bs : Bytes) :
    (encode (decodeLossy bs)).length ≤ 3 * bs.length := by
  rw [decodeLossy, length_encode_ofList]
  exact width_decodeFrom_le none bs

/-- Bytes that begin no character are replaced one by one. -/
theorem decodeLossy_replicate {b : UInt8} (h : lead b = ([replacement], none)) (n : Nat) :
    decodeLossy (List.replicate n b) = String.ofList (List.replicate n replacement) := by
  have each : decodeFrom none (List.replicate n b) = List.replicate n replacement := by
    induction n with
    | zero => rfl
    | succ n ih =>
      rw [List.replicate_succ, List.replicate_succ, decodeFrom, step, h, ih]
      rfl
  rw [decodeLossy, each]

theorem length_encode_replicate_replacement (n : Nat) :
    (encode (String.ofList (List.replicate n replacement))).length = 3 * n := by
  rw [length_encode_ofList]
  induction n with
  | zero => rfl
  | succ n ih =>
    rw [List.replicate_succ, ← List.singleton_append, width_append, ih,
      show width [replacement] = 3 from rfl]
    omega

/-- The bound on replaced bytes is met. -/
theorem length_encode_decodeLossy_replicate {b : UInt8} (h : lead b = ([replacement], none))
    (n : Nat) : (encode (decodeLossy (List.replicate n b))).length = 3 * n := by
  rw [decodeLossy_replicate h, length_encode_replicate_replacement]

end BrokerExam.Utf8
