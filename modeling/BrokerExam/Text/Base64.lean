/-
BrokerExam/Text/Base64.lean

Base64 with the standard alphabet and padding.  Three bytes are four digits of
six bits; a group of one or two bytes at the end is filled up with zero bits,
and its missing digits are written as `=`.
-/
import BrokerExam.Bytes.BigEndian

namespace BrokerExam.Base64

/-- The digit for a number below 64. -/
def digit (n : Nat) : Char :=
  if n < 26 then Char.ofNat ('A'.toNat + n)
  else if n < 52 then Char.ofNat ('a'.toNat + (n - 26))
  else if n < 62 then Char.ofNat ('0'.toNat + (n - 52))
  else if n = 62 then '+'
  else '/'

/-- The first `count` of the four digits of a 24-bit number, and padding for the others. -/
def group (n count : Nat) : List Char :=
  [digit (n / 262144 % 64), digit (n / 4096 % 64), digit (n / 64 % 64), digit (n % 64)].take
    count ++ List.replicate (4 - count) '='

def chars : Bytes → List Char
  | [] => []
  | [a] => group (BigEndian.decode [a, 0, 0]) 2
  | [a, b] => group (BigEndian.decode [a, b, 0]) 3
  | a :: b :: c :: rest => group (BigEndian.decode [a, b, c]) 4 ++ chars rest

def ofBytes (bs : Bytes) : String := String.ofList (chars bs)

end BrokerExam.Base64
