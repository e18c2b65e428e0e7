/-
BrokerExam/Text/Numeral.lean

Reading decimal numbers from names and options: digits of ASCII, after a plus
sign or none.  Leading zeros are allowed.
-/
namespace BrokerExam.Numeral

/-- The number that a nonempty row of digits spells. -/
def digits? (cs : List Char) : Option Nat :=
  if cs ≠ [] ∧ cs.all Char.isDigit then
    some (cs.foldl (fun n c => n * 10 + (c.toNat - '0'.toNat)) 0)
  else none

/-- The number, after a plus sign or none. -/
def unsigned? : List Char → Option Nat
  | '+' :: cs => digits? cs
  | cs => digits? cs

end BrokerExam.Numeral
