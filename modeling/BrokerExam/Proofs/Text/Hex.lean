/-
BrokerExam/Proofs/Text/Hex.lean

Hexadecimal digits read back.  A byte is read from its two digits and no others
(`byte?_eq_some_iff`), so that bytes can be told from the digits in which they are
written (`bytes?_eq_some_iff`).
-/
import BrokerExam.Text.Hex

namespace BrokerExam.Hex

/-- The number of which the character is the digit. -/
def digit? (c : Char) : Option Nat := (List.range 16).find? fun n => Nat.digitChar n = c

/-- The byte that has these digits. -/
def byte? (high low : Char) : Option UInt8 :=
  (digit? high).bind fun h => (digit? low).map fun l => UInt8.ofNat (16 * h + l)

/-- The bytes of which the digits stand one after the other, if nothing else does. -/
def bytes? : List Char → Option Bytes
  | [] => some []
  | [_] => none
  | high :: low :: cs => (byte? high low).bind fun b => (bytes? cs).map (b :: ·)

theorem digit?_eq_some_iff {c : Char} {n : Nat} :
    digit? c = some n ↔ n < 16 ∧ Nat.digitChar n = c := by
  constructor
  · intro found
    rw [digit?] at found
    have same := List.find?_some found
    exact ⟨List.mem_range.1 (List.mem_of_find?_eq_some found), of_decide_eq_true same⟩
  · rintro ⟨small, rfl⟩
    have each : ∀ m : Fin 16, digit? (Nat.digitChar m) = some m.1 := by decide
    exact each ⟨n, small⟩

theorem byte?_eq_some_iff {high low : Char} {b : UInt8} :
    byte? high low = some b ↔ digits b = [high, low] := by
  constructor
  · intro read
    obtain ⟨h, isHigh, read⟩ := Option.bind_eq_some_iff.1 read
    obtain ⟨l, isLow, rfl⟩ := Option.map_eq_some_iff.1 read
    obtain ⟨h_lt, rfl⟩ := digit?_eq_some_iff.1 isHigh
    obtain ⟨l_lt, rfl⟩ := digit?_eq_some_iff.1 isLow
    have value : (UInt8.ofNat (16 * h + l)).toNat = 16 * h + l := by
      rw [UInt8.toNat_ofNat']
      omega
    have front : (16 * h + l) / 16 = h := by omega
    have back : (16 * h + l) % 16 = l := by omega
    rw [digits, value, front, back]
  · intro written
    rw [digits, List.cons.injEq, List.cons.injEq] at written
    obtain ⟨rfl, rfl, -⟩ := written
    have bound := b.toNat_lt
    have isHigh : digit? (Nat.digitChar (b.toNat / 16)) = some (b.toNat / 16) :=
      digit?_eq_some_iff.2 ⟨by omega, rfl⟩
    have isLow : digit? (Nat.digitChar (b.toNat % 16)) = some (b.toNat % 16) :=
      digit?_eq_some_iff.2 ⟨by omega, rfl⟩
    rw [byte?, isHigh, isLow, Option.bind_some, Option.map_some, Nat.div_add_mod,
      UInt8.ofNat_toNat]

/-- **Bytes are read** from the digits in which they are written. -/
theorem bytes?_eq_some_iff {cs : List Char} {bs : Bytes} :
    bytes? cs = some bs ↔ cs = bs.flatMap digits := by
  constructor
  · intro read
    induction cs using bytes?.induct generalizing bs with
    | case1 =>
      obtain rfl := Option.some.inj read
      rfl
    | case2 c => cases read
    | case3 high low cs ih =>
      obtain ⟨b, first, read⟩ := Option.bind_eq_some_iff.1 read
      obtain ⟨bs, rest, rfl⟩ := Option.map_eq_some_iff.1 read
      rw [List.flatMap_cons, byte?_eq_some_iff.1 first, ← ih rest]
      rfl
  · rintro rfl
    induction bs with
    | nil => rfl
    | cons b bs ih =>
      have first := byte?_eq_some_iff.2 (rfl : digits b = [_, _])
      rw [List.flatMap_cons]
      show bytes? (_ :: _ :: bs.flatMap digits) = _
      rw [bytes?, first, Option.bind_some, ih, Option.map_some]

theorem length_flatMap_digits (bs : Bytes) : (bs.flatMap digits).length = 2 * bs.length := by
  induction bs with
  | nil => rfl
  | cons b bs ih =>
    rw [List.flatMap_cons, List.length_append, ih, List.length_cons,
      show (digits b).length = 2 from rfl]
    omega

/-- No digit is a sign of another kind. -/
theorem not_mem_digits {c : Char} (other : digit? c = none) (b : UInt8) : c ∉ digits b := by
  intro mem
  obtain ⟨h, isHigh, read⟩ :=
    Option.bind_eq_some_iff.1 (byte?_eq_some_iff.2 (rfl : digits b = [_, _]))
  obtain ⟨l, isLow, -⟩ := Option.map_eq_some_iff.1 read
  rcases List.mem_cons.1 mem with rfl | low
  · rw [isHigh] at other
    cases other
  · rw [← List.mem_singleton.1 low, other] at isLow
    cases isLow

end BrokerExam.Hex
